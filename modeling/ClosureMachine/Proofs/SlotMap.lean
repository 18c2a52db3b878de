import Mathlib.Data.Set.Card
import ClosureMachine.Proofs.Closing

/-!
# The open cells are a sorted partial map

A `SlotMap` says which cell observes each slot, and nothing about how that is kept. Each access
of the open cells has its counterpart on slot maps. Any row of accesses, begun without open
cells, leads to cells that represent the map which the same row makes of the empty one, and the
answer to the next access is the one that this map prescribes: `accessed_like_slot_map`.
-/

namespace ClosureMachine

/-- The cell that observes each slot, if any does. -/
abbrev SlotMap := Nat → Option CellRef

namespace OpenCells

inductive Access where
  | insert (slot : Nat) (cell : CellRef)
  | find (slot : Nat)
  | splitFrom (start : Nat)

inductive Answer where
  | inserted (new : Bool)
  | found (cell : Option CellRef)
  | taken (entries : List OpenEntry)

/-- The answer to an access, and what the access leaves. -/
def access (o : OpenCells) : Access → Answer × OpenCells
  | .insert slot cell =>
    match o.insert? slot cell with
    | some o' => (.inserted true, o')
    | none => (.inserted false, o)
  | .find slot => (.found (o.find? slot), o)
  | .splitFrom start => (.taken (o.entriesFrom start), o.below start)

/-- The open cells after a row of accesses that began without any. -/
def after (past : List Access) : OpenCells := past.foldl (fun o a => (o.access a).2) .empty

end OpenCells

open OpenCells (Access Answer)

namespace SlotMap

def access (f : SlotMap) : Access → SlotMap
  | .insert slot cell => if f slot = none then Function.update f slot (some cell) else f
  | .find _ => f
  | .splitFrom start => fun slot => if slot < start then f slot else none

def after (past : List Access) : SlotMap := past.foldl access fun _ => none

end SlotMap

namespace OpenCells

variable {o : OpenCells} {f : SlotMap}

/-- The entries are those of the map, in ascending order of slots. -/
structure Represents (o : OpenCells) (f : SlotMap) : Prop where
  ascending : o.entries.Pairwise (fun a b => a.1 < b.1)
  entry : ∀ slot cell, (slot, cell) ∈ o.entries ↔ f slot = some cell
  size : (o.size : ℕ∞) = {slot | f slot ≠ none}.encard
  find : ∀ slot, o.find? slot = f slot

/-- What an access must answer, and leave, where the open cells represent `f`. -/
def Prescribes (f : SlotMap) (o : OpenCells) : Access → Answer × OpenCells → Prop
  | .insert slot cell, (answer, left) =>
    if f slot = none then
      answer = .inserted true ∧ ∀ e, e ∈ left.entries ↔ e = (slot, cell) ∨ e ∈ o.entries
    else answer = .inserted false ∧ left = o
  | .find slot, (answer, left) => answer = .found (f slot) ∧ left = o
  | .splitFrom start, (answer, left) => ∃ taken, answer = .taken taken ∧
    taken.Pairwise (fun a b => a.1 < b.1) ∧
    (∀ slot cell, (slot, cell) ∈ taken ↔ f slot = some cell ∧ start ≤ slot) ∧
    (∀ slot cell, (slot, cell) ∈ left.entries ↔ f slot = some cell ∧ slot < start) ∧
    left.entries ++ taken = o.entries

-- ---------------------------------------------------------------------------
-- What the entries settle
-- ---------------------------------------------------------------------------

theorem find?_eq_of_entries (h : ∀ slot cell, (slot, cell) ∈ o.entries ↔ f slot = some cell)
    (slot : Nat) : o.find? slot = f slot :=
  Option.ext fun cell => (o.find?_eq_some_iff slot cell).trans (h slot cell)

theorem encard_of_entries (h : ∀ slot cell, (slot, cell) ∈ o.entries ↔ f slot = some cell) :
    (o.size : ℕ∞) = {slot | f slot ≠ none}.encard := by
  have hslots : {slot | f slot ≠ none} = ↑(o.entries.map (·.1)).toFinset := by
    ext slot
    simp [Option.ne_none_iff_exists', h]
  have hdistinct : (o.entries.map (·.1)).Nodup :=
    List.pairwise_map.mpr (o.ascending_entries.imp Nat.ne_of_lt)
  rw [hslots, Set.encard_coe_eq_coe_finsetCard, List.toFinset_card_of_nodup hdistinct,
    List.length_map, length_entries]

theorem represents_of_entries (h : ∀ slot cell, (slot, cell) ∈ o.entries ↔ f slot = some cell) :
    o.Represents f :=
  ⟨o.ascending_entries, h, encard_of_entries h, find?_eq_of_entries h⟩

/-- What is left and what is taken make up the entries, in this order. -/
theorem below_append_entriesFrom (o : OpenCells) (start : Nat) :
    (o.below start).entries ++ o.entriesFrom start = o.entries := by
  show (o.topFirst.dropWhile _).reverse ++ (o.topFirst.takeWhile _).reverse = _
  rw [← List.reverse_append, List.takeWhile_append_dropWhile, entries]

-- ---------------------------------------------------------------------------
-- One access
-- ---------------------------------------------------------------------------

theorem access_insert_free {slot : Nat} (h : o.find? slot = none) (cell : CellRef) :
    o.access (.insert slot cell) = (.inserted true, o.insert slot cell) := by
  simp only [access, insert, insert?, h, Option.getD_some]

theorem access_insert_taken {slot : Nat} (h : o.find? slot ≠ none) (cell : CellRef) :
    o.access (.insert slot cell) = (.inserted false, o) := by
  obtain ⟨found, hfound⟩ := Option.ne_none_iff_exists'.mp h
  simp only [access, insert?, hfound]

theorem Represents.prescribes (h : o.Represents f) (a : Access) :
    Prescribes f o a (o.access a) := by
  cases a with
  | insert slot cell =>
    by_cases hfree : f slot = none
    · rw [access_insert_free ((h.find slot).trans hfree), Prescribes, if_pos hfree]
      exact ⟨rfl, mem_entries_insert ((h.find slot).trans hfree) cell⟩
    · have htaken : o.find? slot ≠ none := by rwa [h.find slot]
      rw [access_insert_taken htaken, Prescribes, if_neg hfree]
      exact ⟨rfl, rfl⟩
  | find slot => exact ⟨congrArg Answer.found (h.find slot), rfl⟩
  | splitFrom start =>
    refine ⟨o.entriesFrom start, rfl, ?_, fun slot cell => ?_, fun slot cell => ?_,
      o.below_append_entriesFrom start⟩
    · rw [entriesFrom_eq_filter]
      exact h.ascending.filter _
    · rw [mem_entriesFrom, h.entry]
    · exact mem_entries_below.trans (and_congr_left' (h.entry slot cell))

theorem Represents.access (h : o.Represents f) (a : Access) :
    (o.access a).2.Represents (f.access a) := by
  refine represents_of_entries fun s c => ?_
  have hnext := h.prescribes a
  cases a with
  | insert slot cell =>
    by_cases hfree : f slot = none
    · simp only [Prescribes, if_pos hfree] at hnext
      rw [hnext.2, SlotMap.access, if_pos hfree, Prod.mk.injEq, h.entry]
      by_cases hs : s = slot
      · subst hs
        simp [hfree, eq_comm]
      · simp [hs]
    · simp only [Prescribes, if_neg hfree] at hnext
      rw [hnext.2, SlotMap.access, if_neg hfree]
      exact h.entry s c
  | find slot => exact h.entry s c
  | splitFrom start =>
    obtain ⟨-, -, -, -, hleft, -⟩ := hnext
    refine (hleft s c).trans ?_
    rw [SlotMap.access]
    by_cases hs : s < start <;> simp [hs]

-- ---------------------------------------------------------------------------
-- Rows of accesses
-- ---------------------------------------------------------------------------

theorem represents_empty : empty.Represents fun _ => none :=
  represents_of_entries fun slot cell => by simp [empty, entries]

theorem Represents.foldl (h : o.Represents f) (past : List Access) :
    (past.foldl (fun o a => (o.access a).2) o).Represents (past.foldl SlotMap.access f) := by
  induction past generalizing o f with
  | nil => exact h
  | cons a past ih => exact ih (h.access a)

/-- The open cells list the map that their accesses have made, and give the answers that this map
prescribes. -/
theorem accessed_like_slot_map (past : List Access) :
    (after past).Represents (.after past) ∧
      ∀ next, Prescribes (.after past) (after past) next ((after past).access next) := by
  have h : (after past).Represents (.after past) := represents_empty.foldl past
  exact ⟨h, h.prescribes⟩

end OpenCells

end ClosureMachine

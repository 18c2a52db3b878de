import Mathlib.Data.List.Induction
import Mathlib.Data.List.Nodup
import ClosureMachine.Proofs.Tracking

/-!
# Closing goes up to the first entry that blocks it

Nothing is known of the machine here: an entry may name a cell that does not exist, that is
closed already, or that an earlier entry names too. Closing stops at the first such entry. What
comes before it has been closed by then, all else is as it was, and none of the slots that were
to be closed is tracked any more.
-/

namespace ClosureMachine

theorem OpenCells.ext_entries {o o' : OpenCells} (h : o.entries = o'.entries) : o = o' := by
  obtain ⟨topFirst, hd⟩ := o
  obtain ⟨topFirst', hd'⟩ := o'
  have htop : topFirst = topFirst' := List.reverse_inj.mp h
  subst htop
  rfl

namespace Machine

variable {m m' m₁ m₂ : Machine} {start : Nat} {before after entries : List OpenEntry}
  {entry : OpenEntry} {e : Fault}

/-- The entries name distinct cells, and each of these is open. -/
structure Closable (m : Machine) (entries : List OpenEntry) : Prop where
  distinct : (entries.map (·.2)).Nodup
  opened : ∀ entry ∈ entries, ∃ slot, m.heap.cells[entry.2]? = some (.opened slot)

/-- The fault of closing an entry when the entries before it have been closed. -/
inductive Blocks (m : Machine) (before : List OpenEntry) (entry : OpenEntry) : Fault → Prop
  | missing (h : m.heap.cells[entry.2]? = none) : Blocks m before entry (.upvalueNotFound entry.2)
  | closed {value : Value} (h : m.heap.cells[entry.2]? = some (.closed value)) :
      Blocks m before entry (.doubleClose entry.2)
  | repeated (h : entry.2 ∈ before.map (·.2)) : Blocks m before entry (.doubleClose entry.2)

/-- Between `m` and `m'` the cells of `entries` have been closed, each with the value of its slot,
and the slots from `start` on are no longer tracked. That is all that has changed. -/
structure ClosedBy (m : Machine) (start : Nat) (entries : List OpenEntry) (m' : Machine) :
    Prop where
  closed : ∀ entry ∈ entries, m'.heap.cells[entry.2]? = some (.closed (m.stackAt entry.1))
  kept : ∀ r, r ∉ entries.map (·.2) → m'.heap.cells[r]? = m.heap.cells[r]?
  tracked : m'.openCells.entries = m.openCells.entries.filter (·.1 < start)
  rest : m' = { m with
    heap := { m.heap with cells := m'.heap.cells }
    openCells := m'.openCells }

theorem ClosedBy.unique (h₁ : m.ClosedBy start entries m₁) (h₂ : m.ClosedBy start entries m₂) :
    m₁ = m₂ := by
  have hcells : m₁.heap.cells = m₂.heap.cells := by
    refine Array.ext_getElem? fun r => ?_
    by_cases hr : r ∈ entries.map (·.2)
    · obtain ⟨entry, hmem, rfl⟩ := List.mem_map.mp hr
      rw [h₁.closed entry hmem, h₂.closed entry hmem]
    · rw [h₁.kept r hr, h₂.kept r hr]
  have hopen : m₁.openCells = m₂.openCells :=
    OpenCells.ext_entries (h₁.tracked.trans h₂.tracked.symm)
  rw [h₁.rest, h₂.rest, hcells, hopen]

-- ---------------------------------------------------------------------------
-- The first entry that blocks
-- ---------------------------------------------------------------------------

/-- After entries that could be closed, the next one can be closed too or blocks. -/
theorem Closable.snoc (h : m.Closable before) (entry : OpenEntry) :
    m.Closable (before ++ [entry]) ∨ ∃ e, m.Blocks before entry e := by
  by_cases hrepeated : entry.2 ∈ before.map (·.2)
  · exact .inr ⟨_, .repeated hrepeated⟩
  · cases hcell : m.heap.cells[entry.2]? with
    | none => exact .inr ⟨_, .missing hcell⟩
    | some cell =>
      cases cell with
      | closed value => exact .inr ⟨_, .closed hcell⟩
      | opened slot =>
        refine .inl ⟨?_, fun other hmem => ?_⟩
        · rw [List.map_append, List.map_singleton, ← List.concat_eq_append]
          exact List.Nodup.concat hrepeated h.distinct
        · rcases List.mem_append.mp hmem with hmem | hmem
          · exact h.opened other hmem
          · obtain rfl := List.mem_singleton.mp hmem
            exact ⟨slot, hcell⟩

theorem closable_or_blocks (m : Machine) (entries : List OpenEntry) :
    m.Closable entries ∨ ∃ before entry after e, entries = before ++ entry :: after ∧
      m.Closable before ∧ m.Blocks before entry e := by
  -- Whether an entry blocks depends on those before it, so the list grows at its end.
  induction entries using List.reverseRecOn with
  | nil => exact .inl ⟨List.nodup_nil, by simp⟩
  | append_singleton init last ih =>
    rcases ih with hinit | ⟨before, entry, after, e, rfl, hbefore, hblocks⟩
    · rcases hinit.snoc last with hall | ⟨e, hblocks⟩
      · exact .inl hall
      · exact .inr ⟨init, last, [], e, rfl, hinit, hblocks⟩
    · exact .inr ⟨before, entry, after ++ [last], e, by simp, hbefore, hblocks⟩

-- ---------------------------------------------------------------------------
-- Closing
-- ---------------------------------------------------------------------------

theorem closeEntries_append (hok : closeEntries before m = .ok () m₁) (rest : List OpenEntry) :
    closeEntries (before ++ rest) m = closeEntries rest m₁ := by
  induction before generalizing m with
  | nil =>
    obtain ⟨-, rfl⟩ := EStateM.Result.ok.inj hok
    rfl
  | cons entry before ih =>
    rw [List.cons_append, closeEntries]
    rw [closeEntries] at hok
    split at hok
    · simp at hok
    · simp at hok
    · exact ih hok

/-- Entries that can be closed are closed, whatever comes after them. -/
theorem Closable.closes (h : m.Closable before) (start : Nat) :
    ∃ m₁, m.ClosedBy start before m₁ ∧ ∀ rest,
      closeEntries (before ++ rest) { m with openCells := m.openCells.below start } =
        closeEntries rest m₁ := by
  obtain ⟨cells, hrun, hclosed, hkept⟩ :=
    @closeEntries_of_open { m with openCells := m.openCells.below start } _ h.opened h.distinct
  exact ⟨_, ⟨hclosed, hkept, OpenCells.entries_below .., rfl⟩, closeEntries_append hrun⟩

/-- When the turn of an entry that blocks comes, the cell that it names is missing or closed. -/
theorem Blocks.closeEntries_eq (h : m.Blocks before entry e) (hbefore : m.Closable before)
    (hclosed : m.ClosedBy start before m₁) : closeEntries (entry :: after) m₁ = .error e m₁ := by
  have hkept : (∀ slot, m.heap.cells[entry.2]? ≠ some (.opened slot)) →
      m₁.heap.cells[entry.2]? = m.heap.cells[entry.2]? := by
    refine fun hno => hclosed.kept entry.2 fun hmem => ?_
    obtain ⟨other, hother, heq⟩ := List.mem_map.mp hmem
    obtain ⟨slot, hopen⟩ := hbefore.opened other hother
    exact hno slot (heq ▸ hopen)
  cases h with
  | missing hcell =>
    have hcell₁ := (hkept (by simp [hcell])).trans hcell
    simp [closeEntries, hcell₁]
  | closed hcell =>
    have hcell₁ := (hkept (by simp [hcell])).trans hcell
    simp [closeEntries, hcell₁]
  | repeated hmem =>
    obtain ⟨other, hother, heq⟩ := List.mem_map.mp hmem
    have hcell₁ := heq ▸ hclosed.closed other hother
    simp [closeEntries, hcell₁]

theorem Closable.closeFrom_ok (h : m.Closable (m.openCells.entriesFrom start)) :
    ∃ m', closeFrom start m = .ok (m.openCells.entriesFrom start).length m' ∧
      m.ClosedBy start (m.openCells.entriesFrom start) m' := by
  obtain ⟨m', hclosed, hrun⟩ := h.closes start
  have hall := hrun []
  rw [List.append_nil] at hall
  exact ⟨m', by simp only [closeFrom, hall, closeEntries], hclosed⟩

theorem Blocks.closeFrom_error (h : m.Blocks before entry e) (hbefore : m.Closable before)
    (hsplit : m.openCells.entriesFrom start = before ++ entry :: after) :
    ∃ m', closeFrom start m = .error e m' ∧ m.ClosedBy start before m' := by
  obtain ⟨m', hclosed, hrun⟩ := hbefore.closes start
  exact ⟨m', by simp only [closeFrom, hsplit, hrun, h.closeEntries_eq hbefore hclosed], hclosed⟩

theorem closeFrom_ok_iff {n : Nat} :
    closeFrom start m = .ok n m' ↔
      n = (m.openCells.entriesFrom start).length ∧ m.Closable (m.openCells.entriesFrom start) ∧
        m.ClosedBy start (m.openCells.entriesFrom start) m' := by
  constructor
  · intro h
    rcases closable_or_blocks m (m.openCells.entriesFrom start) with
      hall | ⟨before, entry, after, e, hsplit, hbefore, hblocks⟩
    · obtain ⟨m₁, hok, hclosed⟩ := hall.closeFrom_ok
      obtain ⟨rfl, rfl⟩ := EStateM.Result.ok.inj (hok.symm.trans h)
      exact ⟨rfl, hall, hclosed⟩
    · obtain ⟨m₁, herr, -⟩ := hblocks.closeFrom_error hbefore hsplit
      simp [herr] at h
  · rintro ⟨rfl, hall, hclosed⟩
    obtain ⟨m₁, hok, hclosed₁⟩ := hall.closeFrom_ok
    rw [hok, hclosed₁.unique hclosed]

theorem closeFrom_error_iff :
    closeFrom start m = .error e m' ↔
      ∃ before entry after, m.openCells.entriesFrom start = before ++ entry :: after ∧
        m.Closable before ∧ m.Blocks before entry e ∧ m.ClosedBy start before m' := by
  constructor
  · intro h
    rcases closable_or_blocks m (m.openCells.entriesFrom start) with
      hall | ⟨before, entry, after, e₁, hsplit, hbefore, hblocks⟩
    · obtain ⟨m₁, hok, -⟩ := hall.closeFrom_ok
      simp [hok] at h
    · obtain ⟨m₁, herr, hclosed⟩ := hblocks.closeFrom_error hbefore hsplit
      obtain ⟨rfl, rfl⟩ := EStateM.Result.error.inj (herr.symm.trans h)
      exact ⟨before, entry, after, hsplit, hbefore, hblocks, hclosed⟩
  · rintro ⟨before, entry, after, hsplit, hbefore, hblocks, hclosed⟩
    obtain ⟨m₁, herr, hclosed₁⟩ := hblocks.closeFrom_error hbefore hsplit
    rw [herr, hclosed₁.unique hclosed]

/-- Whatever the machine tracks: closing from `start` on succeeds if and only if the entries from
there on name distinct open cells, and then it closes these cells. Otherwise it fails at the
first entry that blocks, with the fault of that entry, and has closed the cells of the entries
before it. Either way all entries from `start` on are gone, and nothing else has changed. -/
theorem closing_is_exact (m : Machine) (start : Nat) :
    let entries := m.openCells.entries.filter (start ≤ ·.1)
    ((∃ m', closeFrom start m = .ok entries.length m') ↔ m.Closable entries) ∧
    (∀ n m', closeFrom start m = .ok n m' ↔
      n = entries.length ∧ m.Closable entries ∧ m.ClosedBy start entries m') ∧
    ∀ e m', closeFrom start m = .error e m' ↔
      ∃ before entry after, entries = before ++ entry :: after ∧ m.Closable before ∧
        m.Blocks before entry e ∧ m.ClosedBy start before m' := by
  rw [← OpenCells.entriesFrom_eq_filter]
  refine ⟨⟨?_, fun hall => ?_⟩, fun _ _ => closeFrom_ok_iff, fun _ _ => closeFrom_error_iff⟩
  · rintro ⟨m', hok⟩
    exact (closeFrom_ok_iff.mp hok).2.1
  · obtain ⟨m', hok, -⟩ := hall.closeFrom_ok
    exact ⟨m', hok⟩

/-- A machine that tracks cell 0 under three slots, and cell 1 under a slot beyond the stack. -/
def straying : Machine :=
  { ofConfig ⟨3, 1, true⟩ with
    heap := ⟨#[], #[], #[.opened 1, .opened 2]⟩
    stack := #[.number ⟨5⟩, .number ⟨6⟩, .number ⟨7⟩]
    openCells := (((OpenCells.empty.insert 0 0).insert 1 0).insert 2 0).insert 9 1 }

example : closeFrom 1 straying =
    .error (.doubleClose 0)
      { straying with
        heap := ⟨#[], #[], #[.closed (.number ⟨6⟩), .opened 2]⟩
        openCells := OpenCells.empty.insert 0 0 } := by
  decide +kernel

example : closeFrom 3 straying =
    .ok 1
      { straying with
        heap := ⟨#[], #[], #[.opened 1, .closed .uninitialized]⟩
        openCells := straying.openCells.below 3 } := by
  decide +kernel

end Machine

end ClosureMachine

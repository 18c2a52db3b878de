import ClosureMachine.Proofs.Changes

/-!
# The machine tracks exactly its open cells

Which cells are open is written down twice: in the cell itself, which names the slot it
observes, and in the list of open cells, under that slot. `Machine.Tracked` says that the
two agree. It holds in every session as long as no two cells have the same handle. On a
machine that tracks its cells, closing never fails and is one map over the cells
(`Tracked.closeFrom_eq`).
-/

namespace ClosureMachine

-- ---------------------------------------------------------------------------
-- Entries
-- ---------------------------------------------------------------------------

namespace OpenCells

theorem mem_insertEntry_self {slot : Nat} {cell : CellRef} {entries : List OpenEntry}
    (h : ∀ c, (slot, c) ∉ entries) : (slot, cell) ∈ insertEntry slot cell entries := by
  induction entries with
  | nil => simp [insertEntry]
  | cons a rest ih =>
    have hne : slot ≠ a.1 := fun he => h a.2 (by simp [he])
    have hrest : ∀ c, (slot, c) ∉ rest := fun c hc => h c (List.mem_cons_of_mem _ hc)
    rw [insertEntry, if_neg hne]
    split
    · exact List.mem_cons_of_mem _ (ih hrest)
    · exact List.mem_cons_self

theorem mem_insertEntry_of_mem {slot : Nat} {cell : CellRef} {entries : List OpenEntry}
    {e : OpenEntry} (h : e ∈ entries) : e ∈ insertEntry slot cell entries := by
  induction entries with
  | nil => simp at h
  | cons a rest ih => grind [insertEntry]

theorem mem_entries_insert {o : OpenCells} {slot : Nat} (h : o.find? slot = none) (cell : CellRef)
    (e : OpenEntry) : e ∈ (o.insert slot cell).entries ↔ e = (slot, cell) ∨ e ∈ o.entries := by
  have hfree : ∀ c, (slot, c) ∉ o.topFirst := fun c hc => by
    have hf := (o.find?_eq_some_iff slot c).mpr (List.mem_reverse.mpr hc)
    simp [h] at hf
  simp only [insert, insert?, h, Option.getD_some, entries, List.mem_reverse]
  constructor
  · exact mem_insertEntry
  · rintro (rfl | he)
    · exact mem_insertEntry_self hfree
    · exact mem_insertEntry_of_mem he

theorem mem_entries_below {o : OpenCells} {start : Nat} {e : OpenEntry} :
    e ∈ (o.below start).entries ↔ e ∈ o.entries ∧ e.1 < start := by
  simp [entries_below]

theorem mem_entriesFrom {o : OpenCells} {start : Nat} {e : OpenEntry} :
    e ∈ o.entriesFrom start ↔ e ∈ o.entries ∧ start ≤ e.1 := by
  simp [entriesFrom_eq_filter]

end OpenCells

namespace Machine

/-- The tracked cells are the open ones, each under the slot that it observes. -/
def Tracked (m : Machine) : Prop :=
  ∀ slot r, (slot, r) ∈ m.openCells.entries ↔ m.heap.cells[r]? = some (.opened slot)

variable {m m' : Machine}

theorem Tracked.find?_eq (h : m.Tracked) {slot : Nat} {r : CellRef} :
    m.openCells.find? slot = some r ↔ m.heap.cells[r]? = some (.opened slot) :=
  (m.openCells.find?_eq_some_iff slot r).trans (h slot r)

/-- One open cell for a slot. -/
theorem Tracked.unique (h : m.Tracked) {slot : Nat} {r r' : CellRef}
    (hr : m.heap.cells[r]? = some (.opened slot)) (hr' : m.heap.cells[r']? = some (.opened slot)) :
    r = r' := by
  have hf := h.find?_eq.mpr hr
  have hf' := h.find?_eq.mpr hr'
  exact Option.some.inj (hf.symm.trans hf')

-- ---------------------------------------------------------------------------
-- Closing
-- ---------------------------------------------------------------------------

/-- Entries of distinct open cells are closed one after the other, each with the value of
its slot. -/
theorem closeEntries_of_open {entries : List OpenEntry}
    (hopen : ∀ e ∈ entries, ∃ slot, m.heap.cells[e.2]? = some (.opened slot))
    (hdistinct : (entries.map (·.2)).Nodup) :
    ∃ cells, closeEntries entries m = .ok () { m with heap := { m.heap with cells } } ∧
      (∀ e ∈ entries, cells[e.2]? = some (.closed (m.stackAt e.1))) ∧
      ∀ r, r ∉ entries.map (·.2) → cells[r]? = m.heap.cells[r]? := by
  induction entries generalizing m with
  | nil => exact ⟨m.heap.cells, rfl, by simp, by simp⟩
  | cons e rest ih =>
    obtain ⟨hfresh, hrest⟩ := List.nodup_cons.mp (List.map_cons ▸ hdistinct)
    obtain ⟨slot, he⟩ := hopen e (by simp)
    have hother : ∀ r, r ≠ e.2 →
        (m.heap.setCell e.2 (.closed (m.stackAt e.1))).cells[r]? = m.heap.cells[r]? := by
      intro r hr
      simp [Heap.setCell, Ne.symm hr]
    obtain ⟨cells, hrun, hclosed, hkept⟩ :=
      @ih { m with heap := m.heap.setCell e.2 (.closed (m.stackAt e.1)) }
        (by
          intro e' he'
          obtain ⟨s, hs⟩ := hopen e' (by simp [he'])
          refine ⟨s, (hother e'.2 fun heq => hfresh ?_).trans hs⟩
          exact heq ▸ List.mem_map.mpr ⟨e', he', rfl⟩)
        hrest
    refine ⟨cells, ?_, ?_, ?_⟩
    · simp only [closeEntries, he]
      exact hrun
    · intro e' he'
      rcases List.mem_cons.mp he' with rfl | he'
      · rw [hkept e'.2 hfresh]
        obtain ⟨hlt, -⟩ := Array.getElem?_eq_some_iff.mp he
        simp [Heap.setCell, hlt]
      · exact hclosed e' he'
    · intro r hr
      have hr : r ≠ e.2 ∧ r ∉ rest.map (·.2) := by simpa using hr
      rw [hkept r hr.2, ← hother r hr.1]

/-- What closing from `start` on makes of a cell. -/
def settled (m : Machine) (start : Nat) : Cell → Cell
  | .opened slot => if start ≤ slot then .closed (m.stackAt slot) else .opened slot
  | .closed value => .closed value

def closedFrom (m : Machine) (start : Nat) : Machine :=
  { m with
    heap := { m.heap with cells := m.heap.cells.map (m.settled start) }
    openCells := m.openCells.below start }

theorem settled_eq_opened {start slot : Nat} {cell : Cell} :
    m.settled start cell = .opened slot ↔ cell = .opened slot ∧ slot < start := by
  cases cell with
  | opened s => simp only [settled]; split <;> grind
  | closed v => simp [settled]

theorem closedFrom_cell? {start : Nat} {r : CellRef} :
    (m.closedFrom start).heap.cells[r]? = (m.heap.cells[r]?).map (m.settled start) :=
  Array.getElem?_map ..

/-- The handles of the tracked cells are distinct. -/
theorem Tracked.nodup (h : m.Tracked) (start : Nat) :
    ((m.openCells.entriesFrom start).map (·.2)).Nodup := by
  have hasc : (m.openCells.entriesFrom start).Pairwise (fun a b => a.1 < b.1) := by
    rw [OpenCells.entriesFrom_eq_filter]
    exact m.openCells.ascending_entries.filter _
  refine List.pairwise_map.mpr (hasc.imp_of_mem ?_)
  intro a b ha hb hlt heq
  have hca := (h a.1 a.2).mp (OpenCells.mem_entriesFrom.mp ha).1
  have hcb := (h b.1 b.2).mp (OpenCells.mem_entriesFrom.mp hb).1
  rw [heq, hcb] at hca
  simp at hca
  omega

theorem Tracked.closeFrom_eq (h : m.Tracked) (start : Nat) :
    closeFrom start m = .ok (m.openCells.entriesFrom start).length (m.closedFrom start) := by
  have hopen : ∀ e ∈ m.openCells.entriesFrom start, m.heap.cells[e.2]? = some (.opened e.1) :=
    fun e he => (h e.1 e.2).mp (OpenCells.mem_entriesFrom.mp he).1
  obtain ⟨cells, hrun, hclosed, hkept⟩ :=
    @closeEntries_of_open { m with openCells := m.openCells.below start } _
      (fun e he => ⟨e.1, hopen e he⟩) (h.nodup start)
  have hcells : cells = m.heap.cells.map (m.settled start) := by
    refine Array.ext_getElem? fun r => ?_
    rw [Array.getElem?_map]
    by_cases hr : r ∈ (m.openCells.entriesFrom start).map (·.2)
    · obtain ⟨e, he, rfl⟩ := List.mem_map.mp hr
      rw [hclosed e he, hopen e he]
      have hfrom := (OpenCells.mem_entriesFrom.mp he).2
      simp [settled, hfrom, stackAt]
    · rw [hkept r hr]
      cases hc : m.heap.cells[r]? with
      | none => rfl
      | some cell =>
        cases cell with
        | closed v => rfl
        | opened slot =>
          have hlt : ¬ start ≤ slot := fun hs => hr (List.mem_map.mpr
            ⟨(slot, r), OpenCells.mem_entriesFrom.mpr ⟨(h slot r).mpr hc, hs⟩, rfl⟩)
          simp [settled, hlt]
  simp only [closeFrom, hrun, closedFrom, hcells]

-- ---------------------------------------------------------------------------
-- Every change keeps track
-- ---------------------------------------------------------------------------

theorem Tracked.closedFrom (h : m.Tracked) (start : Nat) : (m.closedFrom start).Tracked := by
  intro slot r
  rw [closedFrom_cell?, Option.map_eq_some_iff]
  refine OpenCells.mem_entries_below.trans ?_
  rw [h slot r]
  constructor
  · rintro ⟨hr, hlt⟩
    exact ⟨_, hr, settled_eq_opened.mpr ⟨rfl, hlt⟩⟩
  · rintro ⟨cell, hr, hs⟩
    obtain ⟨rfl, hlt⟩ := settled_eq_opened.mp hs
    exact ⟨hr, hlt⟩

theorem Tracked.captured (h : m.Tracked) {slot : Nat}
    (hroom : (m.captured slot).heap.cells.size ≤ handleSpace) : (m.captured slot).Tracked := by
  unfold Machine.captured at hroom ⊢
  cases hf : m.openCells.find? slot with
  | some r => exact h
  | none =>
    intro s r
    have hlt : m.heap.cells.size < handleSpace := by
      simpa [hf, Heap.addCell, Nat.succ_le_iff] using hroom
    show (s, r) ∈ (m.openCells.insert slot (handleAt m.heap.cells.size)).entries ↔
      (m.heap.cells.push (.opened slot))[r]? = _
    rw [OpenCells.mem_entries_insert hf, h s r, Array.getElem?_push, handleAt_of_lt hlt]
    by_cases hr : r = m.heap.cells.size
    · simp [hr, eq_comm]
    · simp [hr]

theorem Tracked.rewritten (h : m.Tracked) {r : CellRef} {old : Value} (value : Value)
    (hr : m.heap.cells[r]? = some (.closed old)) : (m.rewritten r value).Tracked := by
  intro s r'
  refine (h s r').trans ?_
  show _ ↔ (m.heap.cells.setIfInBounds r (.closed value))[r']? = _
  by_cases he : r = r'
  · subst he
    rw [hr, Array.getElem?_setIfInBounds_self]
    split <;> simp
  · simp [he]

theorem Tracked.change (hc : Change m m') (hsize : m'.heap.cells.size ≤ handleSpace)
    (h : m.Tracked) : m'.Tracked := by
  cases hc with
  | captured slot => exact h.captured hsize
  | rewritten value hr => exact h.rewritten value hr
  | closeFrom start =>
    rw [h.closeFrom_eq start]
    exact h.closedFrom start
  -- What else there is leaves both the cells and the list of open ones as they are.
  | _ => exact h

theorem tracked_ofConfig (config : Config) : (ofConfig config).Tracked := by
  intro slot r
  simp [ofConfig, Heap.empty, OpenCells.empty, OpenCells.entries]

end Machine

theorem Handled.tracked {config : Config} {m : Machine} (h : Handled config m)
    (hsize : m.heap.cells.size ≤ handleSpace) : m.Tracked := by
  refine h.invariant (I := fun m => m.heap.cells.size ≤ handleSpace → m.Tracked)
    (fun _ => Machine.tracked_ofConfig config) ?_ hsize
  intro m m' hc ih hsize
  exact (ih (Nat.le_trans hc.grows.cells hsize)).change hc hsize

theorem Reachable.tracked {config : Config} {m : Machine} (h : Reachable config m)
    (hsize : m.heap.cells.size ≤ handleSpace) : m.Tracked :=
  h.handled.tracked hsize

namespace Machine

-- ---------------------------------------------------------------------------
-- Resetting and loading
-- ---------------------------------------------------------------------------

variable {m : Machine}

theorem Tracked.reset_eq (h : m.Tracked) : reset m = .ok () (m.closedFrom 0).clear := by
  simp [reset, h.closeFrom_eq 0]

theorem Tracked.load_eq (h : m.Tracked) {p : Program} (hentry : p.entry.toNat < p.codes.size) :
    load p m =
      (do pushFrame m.heap.nextClosure 0; return m.heap.nextClosure) ((m.closedFrom 0).staged p) :=
  load_of_closed (h.closeFrom_eq 0) hentry

/-- Where closing cannot fail, a program whose entry exists is staged, and its entry frame is
pushed if there is room for it. -/
theorem Tracked.request_load_cases (h : m.Tracked) {p : Program}
    (hentry : p.entry.toNat < p.codes.size) :
    let staged := (m.closedFrom 0).staged p
    m.request (.load p) = staged ∨
      ∃ code, staged.codeOf m.heap.nextClosure = .ok code ∧
        m.request (.load p) = staged.entered m.heap.nextClosure 0 code.stackSize.toNat := by
  simp only [request, h.load_eq hentry, Op.bind_apply]
  cases hp : pushFrame m.heap.nextClosure 0 ((m.closedFrom 0).staged p) with
  | error e m' =>
    obtain ⟨-, rfl⟩ := pushFrame_error.mp hp
    exact .inl rfl
  | ok u m' =>
    obtain ⟨v, hv, rfl⟩ := pushFrame_ok.mp hp
    obtain ⟨-, code, hcode, rfl, -⟩ := windowFor_ok.mp hv
    exact .inr ⟨code, hcode, by simp [Window.finish]⟩

theorem Tracked.heap_load (h : m.Tracked) {p : Program} (hentry : p.entry.toNat < p.codes.size) :
    (m.request (.load p)).heap = ((m.closedFrom 0).staged p).heap := by
  rcases h.request_load_cases hentry with hl | ⟨code, -, hl⟩ <;> rw [hl]
  rfl

theorem codeOf_staged {p : Program} (h : p.entry.toNat < p.codes.size)
    (hcodes : m.heap.codes.size + p.entry.toNat < handleSpace)
    (hclosures : m.heap.closures.size < handleSpace) :
    (m.staged p).codeOf m.heap.nextClosure = .ok p.codes[p.entry.toNat] := by
  rw [Heap.nextClosure, handleAt_of_lt hclosures]
  refine codeOf_ok.mpr ⟨.new (m.heap.codes.size + p.entry.toNat), ?_, ?_⟩
  · show (m.heap.closures.push (.new (handleAt _)))[m.heap.closures.size]? = _
    simp [handleAt_of_lt hcodes]
  · show (m.heap.codes ++ p.codes)[m.heap.codes.size + p.entry.toNat]? = _
    simp [h]

-- ---------------------------------------------------------------------------
-- The invariant
-- ---------------------------------------------------------------------------

/-- In every session with at most as many cells as handles, whatever operations were called
with whatever arguments and however many of them failed: an entry of the tracking list is an
open cell with its slot, and the other way round. So a slot has one open cell at most, and
closing and resetting never fail. -/
theorem entry_iff_opened {config : Config} {m : Machine} (h : Handled config m)
    (hsize : m.heap.cells.size ≤ handleSpace) :
    (∀ (slot : Nat) (r : CellRef),
      (slot, r) ∈ m.openCells.entries ↔ m.heap.cells[r]? = some (.opened slot)) ∧
    (∀ (slot : Nat) (r r' : CellRef), m.heap.cells[r]? = some (.opened slot) →
      m.heap.cells[r']? = some (.opened slot) → r = r') ∧
    (∀ start, ∃ m', closeFrom start m = .ok (m.openCells.entriesFrom start).length m') ∧
    ∃ m', reset m = .ok () m' := by
  have ht := h.tracked hsize
  exact ⟨ht, fun _ _ _ => ht.unique, fun start => ⟨_, ht.closeFrom_eq start⟩, _, ht.reset_eq⟩

/-- Slots 2 and 5 are captured, the second beyond a stack of four slots; then a `bind`
without a pending closure fails and a closing leaves slot 2. -/
theorem entry_iff_opened_captures :
    let m := (((ofConfig ⟨4, 2, true⟩).handle (.capture 2)).handle (.capture 5)).handle
      (.bindUpvalue ⟨0, 4⟩ 0 3)
    (2, 0) ∈ m.openCells.entries ∧ m.heap.cells[0]? = some (.opened 2) ∧
      (5, 1) ∈ m.openCells.entries ∧ ∃ m', closeFrom 3 m = .ok 1 m' := by
  intro m
  have h := @entry_iff_opened ⟨4, 2, true⟩ m (.handle _ (.handle _ (.handle _ .new))) (by decide)
  exact ⟨by decide, (h.1 2 0).mp (by decide), (h.1 5 1).mpr (by decide), h.2.2.1 3⟩

end Machine

end ClosureMachine

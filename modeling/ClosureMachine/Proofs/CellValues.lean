import ClosureMachine.Proofs.Exhaustion
import ClosureMachine.Proofs.StackDiscipline

/-!
# What is seen through cells

A cell shows the value of the slot that it observes, or the value that it owns. A step
changes what is seen through a cell only by a `setUpvalue` through that very cell, or by
writing the slot that it observes. Neither closing a cell nor clearing the slots of a frame
that has returned changes what is seen, and neither do resetting and loading.
-/

namespace ClosureMachine

/-- The register of its own frame that an instruction sets. A return hands its result over
in register 0. -/
def Instruction.target? : Instruction → Option UInt8
  | .makeFunction target _ => some target
  | .add target _ _ => some target
  | .ret _ => some 0
  | .getUpvalue target _ => some target
  | .loadConstant target _ => some target
  | .copy target _ => some target
  | _ => none

namespace Machine

/-- The value that a fetched instruction puts into its target or into a cell. -/
def produced? (m : Machine) (f : Fetched) : Option Value :=
  match f.instruction with
  | .makeFunction .. => some (.function m.heap.nextClosure)
  | .add _ left right => do
    let x ← (m.register f.window left).toOption
    let y ← (m.register f.window right).toOption
    (x.add y).toOption
  | .ret source | .setUpvalue source _ | .copy _ source => (m.register f.window source).toOption
  | .getUpvalue _ index => (m.upvalue f.frame.closure index).toOption
  | .loadConstant _ value => some (.number value)
  | .bind .. | .call .. | .halt => none

/-- A fetched instruction stores its value where it is seen through cell `r`. -/
inductive Stores (m : Machine) (f : Fetched) (r : CellRef) : Prop
  /-- It sets the slot of the running closure that holds the cell. -/
  | through {source index : UInt8} {c : Closure} (hi : f.instruction = .setUpvalue source index)
      (hc : m.heap.closures[f.frame.closure]? = some c) (hr : c.slot? index.toNat = some r)
  /-- It writes the stack slot that the open cell observes. -/
  | under {target : UInt8} (hi : f.instruction.target? = some target)
      (hr : m.heap.cells[r]? = some (.opened (f.frame.base + target.toNat)))

variable {m m' : Machine} {w : Window} {r : CellRef}

-- ---------------------------------------------------------------------------
-- What the updates change
-- ---------------------------------------------------------------------------

theorem seenThrough?_congr (hcell : m'.heap.cells[r]? = m.heap.cells[r]?)
    (hstack : m'.stack = m.stack) : m'.seenThrough? r = m.seenThrough? r := by
  simp only [seenThrough?, hcell, hstack]

theorem seenThrough?_store {slot : Nat} (hslot : slot < m.stack.size) (value : Value) :
    (m.store slot value).seenThrough? r =
      if m.heap.cells[r]? = some (.opened slot) then some value else m.seenThrough? r := by
  cases hc : m.heap.cells[r]? with
  | none => simp [seenThrough?, hc]
  | some cell =>
    cases cell with
    | closed v => simp [seenThrough?, hc]
    | opened s =>
      rw [seenThrough?_opened hc, seenThrough?_opened (m := m.store slot value) hc, store_slot?]
      by_cases hs : slot = s
      · simp [hs, hs ▸ hslot]
      · simp [hs, Ne.symm hs]

theorem captured_cell? {slot : Nat} (hr : r < m.heap.cells.size) :
    (m.captured slot).heap.cells[r]? = m.heap.cells[r]? := by
  unfold captured
  split
  · rfl
  · show (m.heap.cells.push _)[r]? = _
    rw [Array.getElem?_push, if_neg (Nat.ne_of_lt hr)]

theorem seenThrough?_rewritten {r' : CellRef} {old : Value}
    (hr' : m.heap.cells[r']? = some (.closed old)) (value : Value) :
    (m.rewritten r' value).seenThrough? r = if r = r' then some value else m.seenThrough? r := by
  have hlt := (Array.getElem?_eq_some_iff.mp hr').1
  by_cases he : r = r'
  · subst he
    simp [seenThrough?, rewritten, Heap.setCell, hlt]
  · rw [if_neg he]
    refine seenThrough?_congr ?_ rfl
    simp [rewritten, Heap.setCell, Ne.symm he]

/-- A cell that is closed takes over the value that it showed. -/
theorem seenThrough?_closedFrom
    (hslots : ∀ slot, m.heap.cells[r]? = some (.opened slot) → slot < m.stack.size) (start : Nat) :
    (m.closedFrom start).seenThrough? r = m.seenThrough? r := by
  cases hc : m.heap.cells[r]? with
  | none => simp [seenThrough?, closedFrom_cell?, hc]
  | some cell =>
    cases cell with
    | closed v => simp [seenThrough?, closedFrom_cell?, hc, settled]
    | opened slot =>
      have hlt := hslots slot hc
      rw [seenThrough?_opened hc]
      by_cases hs : start ≤ slot
      · have hr : (m.closedFrom start).heap.cells[r]? = some (.closed (m.stackAt slot)) := by
          simp [closedFrom_cell?, hc, settled, hs]
        rw [seenThrough?_closed hr, slot?_eq_stackAt hlt]
      · have hr : (m.closedFrom start).heap.cells[r]? = some (.opened slot) := by
          simp [closedFrom_cell?, hc, settled, hs]
        exact seenThrough?_opened hr

/-- Leaving a frame does not touch what the remaining open cells observe. -/
theorem seenThrough?_leave
    (hopen : ∀ slot, m.heap.cells[r]? = some (.opened slot) → slot < w.base) :
    (m.leave w).seenThrough? r = m.seenThrough? r := by
  cases hc : m.heap.cells[r]? with
  | none => simp [seenThrough?, hc]
  | some cell =>
    cases cell with
    | closed v => simp [seenThrough?, hc]
    | opened slot =>
      have hb := hopen slot hc
      rw [seenThrough?_opened hc, seenThrough?_opened (m := m.leave w) (by simpa using hc),
        leave_slot?, if_neg (by omega)]

theorem opened_closedFrom {start slot : Nat}
    (h : (m.closedFrom start).heap.cells[r]? = some (.opened slot)) : slot < start := by
  rw [closedFrom_cell?] at h
  obtain ⟨cell, -, hs⟩ := Option.map_eq_some_iff.mp h
  exact (settled_eq_opened.mp hs).2

-- ---------------------------------------------------------------------------
-- Steps
-- ---------------------------------------------------------------------------

/-- After a step from `m` to `m'` that ran `f`, cell `r` shows the value that was stored if
it was stored where the cell sees it, and what it showed before otherwise. -/
def ShowsStored (m : Machine) (f : Fetched) (r : CellRef) (m' : Machine) : Prop :=
  (m.Stores f r → ∃ value, m.produced? f = some value ∧ m'.seenThrough? r = some value) ∧
    (¬ m.Stores f r → m'.seenThrough? r = m.seenThrough? r)

variable {f : Fetched}

theorem showsStored_of_target {target : UInt8} {value : Value}
    (hi : f.instruction.target? = some target) (hvalue : m.produced? f = some value)
    (hseen : m'.seenThrough? r =
      if m.heap.cells[r]? = some (.opened (f.frame.base + target.toNat)) then some value
      else m.seenThrough? r) : m.ShowsStored f r m' := by
  constructor
  · rintro (⟨hset, -, -⟩ | ⟨ht, hr⟩)
    · simp [hset, Instruction.target?] at hi
    · obtain rfl := Option.some.inj (hi.symm.trans ht)
      exact ⟨value, hvalue, by rw [hseen, if_pos hr]⟩
  · intro hno
    rw [hseen, if_neg fun hr => hno (.under hi hr)]

theorem showsStored_of_idle (htarget : f.instruction.target? = none)
    (hset : ∀ source index, f.instruction ≠ .setUpvalue source index)
    (hseen : m'.seenThrough? r = m.seenThrough? r) : m.ShowsStored f r m' := by
  constructor
  · rintro (⟨hi, -, -⟩ | ⟨hi, -⟩)
    · exact absurd hi (hset _ _)
    · simp [htarget] at hi
  · exact fun _ => hseen

/-- A `setUpvalue` reaches the one cell in the slot of the running closure. -/
theorem showsStored_of_setUpvalue {source index : UInt8} {r' : CellRef} {cell : Cell}
    {value : Value} (hi : f.instruction = .setUpvalue source index)
    (hcell : m.cellOf f.frame.closure index = .ok (r', cell))
    (hvalue : m.register f.window source = .ok value)
    (hseen : m'.seenThrough? r = if r = r' then some value else m.seenThrough? r) :
    m.ShowsStored f r m' := by
  obtain ⟨c, hc, hslot, -⟩ := cellOf_ok.mp hcell
  constructor
  · rintro (⟨hi', hc', hr⟩ | ⟨ht, -⟩)
    · rw [hi] at hi'
      rw [hc] at hc'
      obtain ⟨-, rfl⟩ := Instruction.setUpvalue.inj hi'
      obtain rfl := Option.some.inj hc'
      obtain rfl := Option.some.inj (hslot.symm.trans hr)
      exact ⟨value, by simp [produced?, hi, hvalue, Except.toOption], by simp [hseen]⟩
    · simp [hi, Instruction.target?] at ht
  · intro hno
    have hne : r ≠ r' := by
      rintro rfl
      exact hno (.through hi hc hslot)
    rw [hseen, if_neg hne]

/-- A register write of a fetched instruction is seen through the cell of its slot only. -/
theorem seenThrough?_target {target : UInt8} {slot : Nat} (hw : f.window.base = f.frame.base)
    (hslot : (m.advance f).resolve f.window target = .ok slot) (value : Value) :
    ((m.advance f).store slot value).seenThrough? r =
      if m.heap.cells[r]? = some (.opened (f.frame.base + target.toNat)) then some value
      else m.seenThrough? r := by
  obtain ⟨-, rfl, hlt⟩ := resolve_ok.mp hslot
  rw [seenThrough?_store hlt, hw]
  rfl

theorem Executes.showsStored {report : Option Report} (ht : m.Tracked) (hfit : m.Fitted)
    (hw : f.window.base = f.frame.base) (hr : r < m.heap.cells.size)
    (hx : Executes f.frame.closure f.window (m.advance f) f.instruction report m') :
    m.ShowsStored f r m' := by
  obtain ⟨frame, w, i⟩ := f
  cases hx with
  | makeFunction hcode hslot =>
    refine showsStored_of_target rfl rfl ?_
    rw [← seenThrough?_target hw hslot]
    exact seenThrough?_congr rfl rfl
  | bind hpending hslot hbound =>
    refine showsStored_of_idle rfl (by simp) ?_
    refine seenThrough?_congr ?_ (by simp [withBinding])
    exact captured_cell? (m := m.advance _) hr
  | @add _ left right x y _ hx hy hslot =>
    refine showsStored_of_target rfl ?_ (seenThrough?_target hw hslot _)
    have hx : m.register w left = .ok (.number x) := hx
    have hy : m.register w right = .ok (.number y) := hy
    simp [produced?, hx, hy, Except.toOption, Value.add]
  | @ret result value _ m₁ hvalue hbase hclose =>
    have hvalue : m.register w result = .ok value := hvalue
    have hproduced : m.produced? ⟨frame, w, .ret result⟩ = some value := by
      simp [produced?, hvalue, Except.toOption]
    refine showsStored_of_target rfl hproduced ?_
    -- The result is in register 0 when the cells are closed, so closing and clearing only
    -- have to keep what is seen then.
    have htracked : ((m.advance ⟨frame, w, .ret result⟩).store w.base value).Tracked := ht
    have hslots : ∀ slot, m.heap.cells[r]? = some (.opened slot) →
        slot < ((m.advance ⟨frame, w, .ret result⟩).store w.base value).stack.size := by
      intro slot hopen
      simpa using hfit.slots hopen
    rw [htracked.closeFrom_eq] at hclose
    obtain ⟨-, rfl⟩ := EStateM.Result.ok.inj hclose
    rw [seenThrough?_leave fun slot => opened_closedFrom, seenThrough?_closedFrom hslots,
      seenThrough?_store hbase, hw]
    rfl
  | @getUpvalue _ index value _ hvalue hslot =>
    have hvalue : m.upvalue frame.closure index = .ok value := hvalue
    exact showsStored_of_target rfl (by simp [produced?, hvalue, Except.toOption])
      (seenThrough?_target hw hslot _)
  | setClosed hvalue hcell =>
    obtain ⟨c, -, -, hold⟩ := cellOf_ok.mp hcell
    refine showsStored_of_setUpvalue rfl hcell hvalue ?_
    rw [seenThrough?_rewritten hold]
    rfl
  | @setOpened _ _ value r' slot hvalue hcell hslot =>
    obtain ⟨c, -, -, hopen⟩ := cellOf_ok.mp hcell
    refine showsStored_of_setUpvalue rfl hcell hvalue ?_
    have hiff : m.heap.cells[r]? = some (.opened slot) ↔ r = r' :=
      ⟨fun h => ht.unique h hopen, fun h => h ▸ hopen⟩
    rw [seenThrough?_store hslot]
    simp only [advance_heap, hiff]
    rfl
  | loadConstant hslot => exact showsStored_of_target rfl rfl (seenThrough?_target hw hslot _)
  | call hcallee hbase hdepth hcode hroom => exact showsStored_of_idle rfl (by simp) rfl
  | @copy _ source value _ hvalue hslot =>
    have hvalue : m.register w source = .ok value := hvalue
    exact showsStored_of_target rfl (by simp [produced?, hvalue, Except.toOption])
      (seenThrough?_target hw hslot _)
  | halt => exact showsStored_of_idle rfl (by simp) rfl

-- ---------------------------------------------------------------------------
-- Resetting and loading
-- ---------------------------------------------------------------------------

theorem seenThrough?_cleared (hfit : m.Fitted) :
    (m.closedFrom 0).clear.seenThrough? r = m.seenThrough? r := by
  rw [← seenThrough?_closedFrom (fun _ hr => hfit.slots hr) 0]
  cases hc : (m.closedFrom 0).heap.cells[r]? with
  | none => simp [seenThrough?, clear, hc]
  | some cell =>
    cases cell with
    | closed v => simp [seenThrough?, clear, hc]
    | opened slot => exact absurd (opened_closedFrom hc) (Nat.not_lt_zero _)

theorem seenThrough?_request_load (ht : m.Tracked) (hfit : m.Fitted) (p : Program) :
    (m.request (.load p)).seenThrough? r = m.seenThrough? r := by
  have hstaged : ((m.closedFrom 0).staged p).seenThrough? r = m.seenThrough? r :=
    seenThrough?_cleared hfit
  by_cases hentry : p.entry.toNat < p.codes.size
  · rcases ht.request_load_cases hentry with hl | ⟨code, -, hl⟩
    · rw [hl, hstaged]
    · rw [hl]
      exact hstaged
  · simp [request, load_of_size_le (Nat.le_of_not_lt hentry)]

/-- On every machine that requests lead to, while it has at most as many cells as handles,
and for every cell `r` that exists: a step that succeeds stores the value of its instruction
where `r` sees it, or leaves what is seen through `r` as it is; resetting and loading leave it
as it is in any case. -/
theorem cell_shows_stored_value {config : Config} {m : Machine} (h : Reachable config m)
    (hsize : m.heap.cells.size ≤ handleSpace) :
    (∀ report m', step m = .ok report m' → ∃ f, m.fetch = .ok f ∧
      ∀ r < m.heap.cells.size,
        (m.Stores f r → ∃ value, m.produced? f = some value ∧ m'.seenThrough? r = some value) ∧
        (¬ m.Stores f r → m'.seenThrough? r = m.seenThrough? r)) ∧
    ∀ r < m.heap.cells.size,
      (m.request .reset).seenThrough? r = m.seenThrough? r ∧
      ∀ p, (m.request (.load p)).seenThrough? r = m.seenThrough? r := by
  have ht := h.tracked hsize
  refine ⟨fun report m' hs => ?_, fun r hr => ⟨?_, fun p => ?_⟩⟩
  · obtain ⟨f, hf, hx⟩ := step_ok hs
    obtain ⟨code, -, -, hw, -⟩ := fetch_ok hf
    exact ⟨f, hf, fun r hr => hx.showsStored ht h.fitted (by rw [hw]) hr⟩
  · rw [request, ht.reset_eq]
    exact seenThrough?_cleared h.fitted
  · exact seenThrough?_request_load ht h.fitted p

/-- A machine about to overwrite a register that a closure has captured. -/
def overwriting : Machine :=
  ((((ofConfig ⟨4, 2, true⟩).request (.load ⟨#[⟨"main", 2, #[.loadConstant 0 ⟨1⟩, .makeFunction 1 0,
    .bind 0 0, .loadConstant 0 ⟨2⟩, .halt]⟩], 0⟩)).request .step).request .step).request .step

theorem cell_shows_stored_value_overwriting :
    overwriting.seenThrough? 0 = some (.number ⟨1⟩) ∧
      (overwriting.request .step).seenThrough? 0 = some (.number ⟨2⟩) ∧
      (overwriting.request .reset).seenThrough? 0 = some (.number ⟨1⟩) := by
  obtain ⟨hstep, hkept⟩ := @cell_shows_stored_value ⟨4, 2, true⟩ overwriting
    (.request .step (.request .step (.request .step (.request (.load _) .new)))) (by decide +kernel)
  have hsize : 0 < overwriting.heap.cells.size := by decide +kernel
  have hseen : overwriting.seenThrough? 0 = some (.number ⟨1⟩) := by decide +kernel
  have hcell : overwriting.heap.cells[0]? = some (.opened 0) := by decide +kernel
  have hfetch : overwriting.fetch = .ok ⟨⟨0, 3, 0⟩, ⟨0, 2⟩, .loadConstant 0 ⟨2⟩⟩ :=
    ok_of_toOption (by decide +kernel)
  have hrun : step overwriting = .ok none (overwriting.request .step) := by decide +kernel
  obtain ⟨f, hf, hr⟩ := hstep _ _ hrun
  obtain rfl := Except.ok.inj (hfetch.symm.trans hf)
  obtain ⟨value, hv, hs⟩ := (hr 0 hsize).1 (.under rfl hcell)
  exact ⟨hseen, hs.trans hv.symm, ((hkept 0 hsize).1).trans hseen⟩

/-- Where there are more cells than handles, a return that closes another cell changes what is
seen through cell 0. -/
theorem cell_shows_other_value : ∃ n f report m',
    (exhaustion.stepped n).fetch = .ok f ∧ step (exhaustion.stepped n) = .ok report m' ∧
      ¬ (exhaustion.stepped n).Stores f 0 ∧
      (exhaustion.stepped n).seenThrough? 0 = some .uninitialized ∧
      m'.seenThrough? 0 = some (.number ⟨7⟩) := by
  obtain ⟨n, h⟩ := exists_aliased
  obtain ⟨report, hs, hsevered⟩ := h.severed
  refine ⟨n, _, report, _, h.fetch, hs, ?_, ?_, ?_⟩
  · rintro (⟨hi, -, -⟩ | ⟨htarget, hopen⟩)
    · simp at hi
    · obtain rfl := Option.some.inj htarget
      rw [h.first] at hopen
      simp at hopen
  · have hone := h.one
    have hlt : 1 < (exhaustion.stepped n).stack.size := by rw [h.stack]; decide
    rw [seenThrough?, h.first, ← hone]
    simp [stackAt, hlt]
  · rw [seenThrough?, hsevered.first]

end Machine

end ClosureMachine

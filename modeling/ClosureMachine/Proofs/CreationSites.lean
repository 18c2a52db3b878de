import ClosureMachine.Proofs.CheckedRuns
import ClosureMachine.Proofs.Exhaustion
import ClosureMachine.Proofs.HeapHistory
import ClosureMachine.Proofs.Sharing
import ClosureMachine.Proofs.Windows

/-!
# A closure captures what its creation site says

A `bind` names no closure: it fills a slot of the one that is pending. In a checked program the
`bind`s that follow a `makeFunction` run right after it, in the same frame, and none of them
fails. So they fill the slots of the closure just made, and once it is no longer pending nothing
else does as long as its handle is its own: what it has captured can be read off the code that
made it.
-/

namespace ClosureMachine

-- ---------------------------------------------------------------------------
-- Runs of binds
-- ---------------------------------------------------------------------------

theorem Instruction.isBind_iff {i : Instruction} :
    i.isBind = true ↔ ∃ index offset, i = .bind index offset := by
  cases i <;> simp [isBind]

namespace CodeObject

/-- How many `bind`s stand from `start` on, one after the other. -/
def bindRun (code : CodeObject) (start : Nat) : Nat :=
  (code.instructions.toList.drop start).findIdx (!·.isBind)

/-- A `bind` for slot `j` stands at `position`. -/
def FillsAt (code : CodeObject) (position j : Nat) : Prop :=
  ∃ index offset : UInt8, code.instructions[position]? = some (.bind index offset) ∧ index.toNat = j

/-- A `bind` for slot `j` stands in the run of `bind`s from `start` on. -/
def RunFills (code : CodeObject) (start j : Nat) : Prop :=
  ∃ k < code.bindRun start, code.FillsAt (start + k) j

variable {code : CodeObject} {start : Nat}

theorem instruction?_drop (k : Nat) :
    (code.instructions.toList.drop start)[k]? = code.instructions[start + k]? := by
  simp

theorem bind_of_lt_bindRun {k : Nat} (h : k < code.bindRun start) :
    ∃ index offset, code.instructions[start + k]? = some (.bind index offset) := by
  have hlt := Nat.lt_of_lt_of_le h List.findIdx_le_length
  have hbind := List.not_of_lt_findIdx h
  obtain ⟨index, offset, hi⟩ := Instruction.isBind_iff.mp (Bool.not_eq_false' .. ▸ hbind)
  refine ⟨index, offset, ?_⟩
  rw [← instruction?_drop, List.getElem?_eq_getElem hlt, hi]

/-- What stands after the run is something else, if anything. -/
theorem not_bind_bindRun {i : Instruction}
    (h : code.instructions[start + code.bindRun start]? = some i) : i.isBind = false := by
  rw [← instruction?_drop] at h
  obtain ⟨hlt, rfl⟩ := List.getElem?_eq_some_iff.mp h
  exact Bool.not_eq_true' .. ▸ List.findIdx_getElem (w := hlt)

end CodeObject

namespace Machine

variable {config : Config} {p : Program} {m m' : Machine} {w : Window} {f : Fetched}
  {frame : Frame} {code : CodeObject} {closure r : ClosureRef} {c : Closure} {i : Instruction}
  {e : Fault} {report : Option Report}

-- ---------------------------------------------------------------------------
-- The pending closure
-- ---------------------------------------------------------------------------

theorem Executes.pending_cases (hx : Executes closure w m i report m') :
    m'.pending = m.pending ∨ m'.pending = some m.heap.nextClosure ∧
      m'.heap.closures.size = m.heap.closures.size + 1 := by
  cases hx with
  | makeFunction hcode hslot => exact .inr ⟨rfl, Array.size_push ..⟩
  | bind hpending hslot hbound => exact .inl (by simp [withBinding])
  | ret hvalue hbase hclose =>
    obtain ⟨cells, rfl⟩ := closeFrom_ok hclose
    exact .inl (leave_pending ..)
  | _ => exact .inl rfl

theorem Faults.pending_eq (hx : Faults closure w m i e m') : m'.pending = m.pending := by
  cases hx with
  | bindMissing hpending hslot hmissing => simp
  | @closing _ value _ _ hvalue hclose =>
    obtain ⟨cells, hm⟩ := closeFrom_machine w.base (m.store w.base value)
    rw [hclose, Outcome.machine_error] at hm
    rw [hm]
    rfl
  | _ => rfl

/-- Advancing keeps the pending closure for a `bind` only. -/
theorem advance_pending (h : (m.advance f).pending = some r) :
    m.pending = some r ∧ f.instruction.isBind = true := by
  by_cases hbind : f.instruction.isBind = true
  · exact ⟨by simpa [advance, hbind] using h, hbind⟩
  · simp [advance, hbind] at h

/-- A closure is pending after a step if it was pending before and the step was no other
instruction than a `bind`, or if it is new. -/
theorem pending_step (hroom : (m.request .step).heap.closures.size ≤ handleSpace)
    (h : (m.request .step).pending = some r) :
    m.heap.closures[r]? = none ∨
      m.pending = some r ∧ ∀ f, m.fetch = .ok f → f.instruction.isBind = true := by
  simp only [request] at h hroom
  cases hs : step m with
  | ok report m' =>
    rw [hs, Outcome.machine_ok] at h hroom
    obtain ⟨f, hf, hx⟩ := step_ok hs
    rcases hx.pending_cases with hkept | ⟨hnew, hsize⟩
    · obtain ⟨hpending, hbind⟩ := advance_pending (hkept ▸ h)
      refine .inr ⟨hpending, fun g hg => ?_⟩
      obtain rfl := Except.ok.inj (hf.symm.trans hg)
      exact hbind
    · obtain rfl := Option.some.inj (hnew.symm.trans h)
      rw [hsize] at hroom
      have hnext : m.heap.nextClosure = m.heap.closures.size := handleAt_of_lt hroom
      exact .inl (Array.getElem?_eq_none (Nat.le_of_eq hnext.symm))
  | error e m' =>
    rw [hs, Outcome.machine_error] at h
    rcases step_error hs with ⟨hf, rfl⟩ | ⟨f, hf, hx⟩
    · exact .inr ⟨h, by simp [hf]⟩
    · obtain ⟨hpending, hbind⟩ := advance_pending (hx.pending_eq ▸ h)
      refine .inr ⟨hpending, fun g hg => ?_⟩
      obtain rfl := Except.ok.inj (hf.symm.trans hg)
      exact hbind

/-- A closure that is not pending keeps its slots, and is never pending again. -/
theorem kept_of_not_pending (hc : m.heap.closures[r]? = some c) (hpending : m.pending ≠ some r)
    {n : Nat} (hroom : (m.stepped n).heap.closures.size ≤ handleSpace) :
    (m.stepped n).heap.closures[r]? = some c ∧ (m.stepped n).pending ≠ some r := by
  induction n with
  | zero => exact ⟨hc, hpending⟩
  | succ n ih =>
    obtain ⟨hc, hpending⟩ := ih (Nat.le_trans (step_changes _).grows.closures hroom)
    constructor
    · exact (closure?_step hc).resolve_right fun hbinds => hpending hbinds.pending
    · intro hnext
      rcases pending_step hroom hnext with hnone | ⟨hbefore, -⟩
      · simp [hc] at hnone
      · exact hpending hbefore

-- ---------------------------------------------------------------------------
-- One bind
-- ---------------------------------------------------------------------------

/-- The next step of `m` is a `bind` for slot `index` that `frame` runs, and it succeeds; cell
`r` is the one that observes the captured register. -/
inductive Captures (m : Machine) (frame : Frame) (index : UInt8) (r : CellRef) : Prop
  | intro {w : Window} {offset : UInt8} {m' : Machine}
      (hf : m.fetch = .ok ⟨frame, w, .bind index offset⟩) (hs : step m = .ok none m')
      (hr : m'.heap.cells[r]? = some (.opened (frame.base + offset.toNat)))

/-- Frame `frame` runs `code` with closure `r` pending, which is `c` so far. -/
structure Binding (m : Machine) (frame : Frame) (code : CodeObject) (r : ClosureRef)
    (c : Closure) : Prop where
  top : m.frames.back? = some frame
  code : m.codeOf frame.closure = .ok code
  pending : m.pending = some r
  closure : m.heap.closures[r]? = some c

theorem Binding.fetch (h : m.Binding frame code r c)
    (hi : code.instructions[frame.ip]? = some i) :
    m.fetch = .ok ⟨frame, ⟨frame.base, code.stackSize.toNat⟩, i⟩ := by
  simp [Machine.fetch, h.top, h.code, hi]

theorem closure?_withBinding (index : UInt8) (cell : CellRef)
    (hc : m.heap.closures[r]? = some c) :
    (m.withBinding r index cell).heap.closures[r]? = some (c.bindSlot index.toNat cell) := by
  simp [withBinding, Heap.bindSlot, Array.getElem?_modify, hc]

/-- In a checked program a `bind` succeeds, and fills a slot of the pending closure. -/
theorem Binding.bind (h : m.Binding frame code r c) (hr : Reachable config m)
    (hconforms : Conforms p m) (hp : p.WellFormed) {index offset : UInt8}
    (hi : code.instructions[frame.ip]? = some (.bind index offset))
    (hroom : (m.request .step).heap.cells.size ≤ handleSpace) :
    ∃ cell, m.Captures frame index cell ∧
      (m.request .step).Binding { frame with ip := frame.ip + 1 } code r
        (c.bindSlot index.toNat cell) := by
  have hf := h.fetch hi
  cases hs : step m with
  | error e m' =>
    rcases step_error hs with ⟨hno, -⟩ | ⟨f, hf', hx⟩
    · simp [hf] at hno
    · obtain rfl := Except.ok.inj (hf.symm.trans hf')
      have hbind := (hx.excused hr hconforms hp hf).not_binding.2
      simp [Instruction.isBind] at hbind
  | ok report m' =>
    obtain ⟨f, hf', hx⟩ := step_ok hs
    obtain rfl := Except.ok.inj (hf.symm.trans hf')
    have hcode : m'.codeOf frame.closure = .ok code := by
      have hchanges := step_changes m
      rw [hs] at hchanges
      exact hchanges.codeOf_ok h.code
    cases hx with
    | @bind _ _ pending slot hpending hslot hbound =>
      obtain rfl : r = pending := by
        simpa [advance, Instruction.isBind, h.pending] using hpending
      obtain ⟨-, rfl⟩ := Window.slot_ok.mp hslot
      have htracked : (m.advance ⟨frame, ⟨frame.base, code.stackSize.toNat⟩,
        .bind index offset⟩).Tracked :=
        hr.tracked (Nat.le_trans (step_changes m).grows.cells hroom)
      rw [request, hs, Outcome.machine_ok] at hroom
      refine ⟨_, ⟨hf, hs, cellFor_opened htracked hroom⟩, ?_⟩
      rw [request, hs, Outcome.machine_ok]
      exact ⟨by simp [withBinding, advance], hcode, by simpa [withBinding] using hpending,
        closure?_withBinding _ _ (by simpa using h.closure)⟩

-- ---------------------------------------------------------------------------
-- All the binds of a site
-- ---------------------------------------------------------------------------

/-- The slots of `c` are what the first `n` `bind`s have made them that `frame` runs from machine
`m` on, one a step. -/
structure Filled (m : Machine) (frame : Frame) (code : CodeObject) (n : Nat) (c : Closure) :
    Prop where
  captures : ∀ k < n, ∃ index r,
    (m.stepped k).Captures { frame with ip := frame.ip + k } index r
  bound : ∀ j, (∃ r, c.slot? j = some r) ↔ ∃ k < n, code.FillsAt (frame.ip + k) j
  last : ∀ j, ∀ k < n, code.FillsAt (frame.ip + k) j →
    (∀ l, k < l → l < n → ¬ code.FillsAt (frame.ip + l) j) →
      ∃ index r, index.toNat = j ∧
        (m.stepped k).Captures { frame with ip := frame.ip + k } index r ∧ c.slot? j = some r

theorem filled_new (m : Machine) (frame : Frame) (code : CodeObject) (proto : CodeRef) :
    m.Filled frame code 0 (.new proto) := by
  refine ⟨by simp, fun j => ?_, by simp⟩
  simp [Closure.slot?, Closure.new]

theorem Filled.succ {n : Nat} (h : m.Filled frame code n c) {index offset : UInt8} {cell : CellRef}
    (hi : code.instructions[frame.ip + n]? = some (.bind index offset))
    (hcaptures : (m.stepped n).Captures { frame with ip := frame.ip + n } index cell) :
    m.Filled frame code (n + 1) (c.bindSlot index.toNat cell) := by
  have hfills : ∀ {j}, code.FillsAt (frame.ip + n) j ↔ j = index.toNat := by
    intro j
    simp [CodeObject.FillsAt, hi, eq_comm]
  refine ⟨fun k hk => ?_, fun j => ?_, fun j k hk hat hlater => ?_⟩
  · rcases Nat.lt_succ_iff_lt_or_eq.mp hk with hk | rfl
    · exact h.captures k hk
    · exact ⟨index, cell, hcaptures⟩
  · rw [Closure.slot?_bindSlot]
    by_cases hj : j = index.toNat
    · rw [if_pos hj]
      exact ⟨fun _ => ⟨n, Nat.lt_succ_self n, hfills.mpr hj⟩, fun _ => ⟨cell, rfl⟩⟩
    · rw [if_neg hj, h.bound j]
      constructor
      · rintro ⟨k, hk, hat⟩
        exact ⟨k, Nat.lt_succ_of_lt hk, hat⟩
      · rintro ⟨k, hk, hat⟩
        rcases Nat.lt_succ_iff_lt_or_eq.mp hk with hk | rfl
        · exact ⟨k, hk, hat⟩
        · exact absurd (hfills.mp hat) hj
  · rw [Closure.slot?_bindSlot]
    rcases Nat.lt_succ_iff_lt_or_eq.mp hk with hk | rfl
    · -- The new `bind` is for another slot, as it would otherwise come later.
      have hj : j ≠ index.toNat := fun hj => hlater n hk (Nat.lt_succ_self n) (hfills.mpr hj)
      rw [if_neg hj]
      exact h.last j k hk hat fun l hkl hl => hlater l hkl (Nat.lt_succ_of_lt hl)
    · have hj := hfills.mp hat
      rw [if_pos hj]
      exact ⟨index, cell, hj.symm, hcaptures, rfl⟩

/-- The run of `bind`s, one a step. -/
theorem Binding.run {proto : CodeRef} (h : m.Binding frame code r (.new proto))
    (hr : Reachable config m) (hconforms : Conforms p m) (hp : p.WellFormed) {n : Nat}
    (hn : n ≤ code.bindRun frame.ip) (hroom : (m.stepped n).heap.cells.size ≤ handleSpace) :
    ∃ c, (m.stepped n).Binding { frame with ip := frame.ip + n } code r c ∧
      m.Filled frame code n c := by
  induction n with
  | zero => exact ⟨.new proto, h, filled_new m frame code proto⟩
  | succ n ih =>
    obtain ⟨c, hbinding, hfilled⟩ := ih (Nat.le_of_succ_le hn)
      (Nat.le_trans (step_changes _).grows.cells hroom)
    obtain ⟨index, offset, hi⟩ := CodeObject.bind_of_lt_bindRun hn
    obtain ⟨cell, hcaptures, hnext⟩ :=
      hbinding.bind (hr.stepped n) (hconforms.stepped hr hp n) hp hi hroom
    exact ⟨c.bindSlot index.toNat cell, hnext, hfilled.succ hi hcaptures⟩

theorem stepped_of_stuck (h : m.request .step = m) (n : Nat) : m.stepped n = m := by
  induction n with
  | zero => rfl
  | succ n ih => rw [stepped, ih, h]

/-- Where the run is over, the slots stay as they are. The closure is pending no more, unless the
code ends there and nothing else is run. -/
theorem Binding.settled (h : m.Binding frame code r c)
    (hend : ∀ i, code.instructions[frame.ip]? = some i → i.isBind = false) {n : Nat}
    (hroom : (m.stepped n).heap.closures.size ≤ handleSpace) :
    (m.stepped n).heap.closures[r]? = some c ∧
      ((m.stepped n).pending = some r → (m.stepped n).frames.back? = some frame) := by
  cases hi : code.instructions[frame.ip]? with
  | none =>
    have hstuck : m.request .step = m := by
      simp [request, step, Machine.fetch, h.top, h.code, hi]
    rw [stepped_of_stuck hstuck]
    exact ⟨h.closure, fun _ => h.top⟩
  | some i =>
    have hf := h.fetch hi
    have hnot := hend i hi
    cases n with
    | zero => exact ⟨h.closure, fun _ => h.top⟩
    | succ n =>
      have hclosure : (m.request .step).heap.closures[r]? = some c := by
        refine (closure?_step h.closure).resolve_right ?_
        rintro ⟨-, g, index, offset, hg, hbind⟩
        obtain rfl := Except.ok.inj (hf.symm.trans hg)
        obtain rfl : i = .bind index offset := hbind
        simp [Instruction.isBind] at hnot
      have hpending : (m.request .step).pending ≠ some r := by
        intro hnext
        have hfirst : (m.request .step).heap.closures.size ≤ handleSpace :=
          Nat.le_trans (stepped_grows m (Nat.succ_le_succ (Nat.zero_le n))).closures hroom
        rcases pending_step hfirst hnext with hnone | ⟨-, hbind⟩
        · simp [h.closure] at hnone
        · simpa [hnot] using hbind _ hf
      rw [stepped_succ] at hroom ⊢
      obtain ⟨hkept, hnever⟩ := kept_of_not_pending hclosure hpending hroom
      exact ⟨hkept, fun hagain => absurd hagain hnever⟩

/-- Closure `r` of `m'`, which `frame` has made right before `m`, is `c`: `n` `bind`s of its site
have run. These are all of them once it is no longer pending, and until then `frame` is on top
and the next one is to run. -/
structure FilledIn (m m' : Machine) (frame : Frame) (code : CodeObject) (r : ClosureRef) (n : Nat)
    (c : Closure) : Prop where
  closure : m'.heap.closures[r]? = some c
  filled : m.Filled frame code n c
  le_bindRun : n ≤ code.bindRun frame.ip
  settled : m'.pending ≠ some r → n = code.bindRun frame.ip
  top : m'.pending = some r → m'.frames.back? = some { frame with ip := frame.ip + n }

theorem Binding.filledIn {proto : CodeRef} (h : m.Binding frame code r (.new proto))
    (hr : Reachable config m) (hconforms : Conforms p m) (hp : p.WellFormed) {d : Nat}
    (hroom : (m.stepped d).heap.Distinct) :
    ∃ n c, m.FilledIn (m.stepped d) frame code r n c := by
  rcases Nat.le_total d (code.bindRun frame.ip) with hd | hd
  · obtain ⟨c, hbinding, hfilled⟩ := h.run hr hconforms hp hd hroom.cells
    exact ⟨d, c, hbinding.closure, hfilled, hd, fun hpending => absurd hbinding.pending hpending,
      fun _ => hbinding.top⟩
  · have hcells := Nat.le_trans (stepped_grows m hd).cells hroom.cells
    obtain ⟨c, hbinding, hfilled⟩ := h.run hr hconforms hp Nat.le.refl hcells
    obtain ⟨e, rfl⟩ := Nat.exists_eq_add_of_le hd
    rw [stepped_add] at hroom ⊢
    obtain ⟨hclosure, htop⟩ :=
      hbinding.settled (fun i => CodeObject.not_bind_bindRun) hroom.closures
    exact ⟨_, c, hclosure, hfilled, Nat.le.refl, fun _ => rfl, htop⟩

-- ---------------------------------------------------------------------------
-- Where closures come from
-- ---------------------------------------------------------------------------

theorem Makes.binding (h : m.Makes f r) (hcode : m.codeOf f.frame.closure = .ok code)
    (hroom : (m.request .step).heap.closures.size ≤ handleSpace) :
    ∃ proto, (m.request .step).Binding { f.frame with ip := f.frame.ip + 1 } code r
      (.new proto) := by
  obtain ⟨hr, hpending, proto, hpushed⟩ := h.made
  have hclosure : (m.request .step).heap.closures[r]? = some (.new proto) := by
    rw [hpushed, Array.size_push] at hroom
    rw [hpushed, hr, Heap.nextClosure, handleAt_of_lt hroom]
    exact Array.getElem?_push_size
  have hcode' := (request_changes m .step).codeOf_ok hcode
  obtain @⟨target, index, m', hf, hi, hs, -⟩ := h
  obtain ⟨_, hf', hx⟩ := step_ok hs
  obtain rfl := Except.ok.inj (hf.symm.trans hf')
  refine ⟨proto, ?_, hcode', hpending, hclosure⟩
  rw [request, hs, Outcome.machine_ok]
  rw [hi] at hx
  cases hx with
  | makeFunction hproto hslot => exact Array.back?_push

/-- A closure that an instruction adds to the heap is one that it has made. -/
theorem Executes.size_closures (hx : Executes closure w m i report m') :
    m'.heap.closures.size = m.heap.closures.size ∨
      m'.heap.closures.size = m.heap.closures.size + 1 ∧ report = none ∧
        ∃ target index, i = .makeFunction target index ∧
          m'.register w target = .ok (.function m.heap.nextClosure) := by
  cases hx with
  | @makeFunction target index code slot hcode hslot =>
    have hslot : (m.withClosure code).resolve w target = .ok slot := hslot
    exact .inr ⟨Array.size_push .., rfl, target, index, rfl, register_stored _ hslot⟩
  | bind hpending hslot hbound => exact .inl (by simp [withBinding, Heap.bindSlot])
  | ret hvalue hbase hclose =>
    obtain ⟨cells, rfl⟩ := closeFrom_ok hclose
    exact .inl (by rw [leave_heap]; rfl)
  | _ => exact .inl rfl

theorem Faults.closures_eq (hx : Faults closure w m i e m')
    (hmake : ∀ target index, i ≠ .makeFunction target index) :
    m'.heap.closures = m.heap.closures := by
  cases hx with
  | closureRegister hcode hslot => exact absurd rfl (hmake _ _)
  | bindMissing hpending hslot hmissing => simp
  | @closing _ value _ _ hvalue hclose =>
    have hkept := closure?_closeFrom (m := m.store w.base value) w.base
    rw [hclose] at hkept
    exact hkept
  | _ => rfl

/-- In a checked program every new closure is one that a `makeFunction` has made. -/
theorem Conforms.closure_origin (h : Conforms p m) (hr : Reachable config m) (hp : p.WellFormed)
    (hroom : (m.request .step).heap.closures.size ≤ handleSpace)
    (hc : r < (m.request .step).heap.closures.size) :
    r < m.heap.closures.size ∨ ∃ f, m.Makes f r := by
  cases hs : step m with
  | ok report m' =>
    rw [request, hs, Outcome.machine_ok] at hc hroom
    obtain ⟨f, hf, hx⟩ := step_ok hs
    rcases hx.size_closures with hsize | ⟨hsize, rfl, target, index, hi, hreg⟩
    · exact .inl (hsize ▸ hc)
    · rw [hsize] at hroom
      have hnext : m.heap.nextClosure = m.heap.closures.size := handleAt_of_lt hroom
      rcases Nat.lt_succ_iff_lt_or_eq.mp (hsize ▸ hc) with hlt | rfl
      · exact .inl hlt
      · have hreg : m'.register f.window target = .ok (.function m.heap.nextClosure) := hreg
        exact .inr ⟨f, hf, hi, hs, hnext ▸ hreg⟩
  | error e m' =>
    rw [request, hs, Outcome.machine_error] at hc
    rcases step_error hs with ⟨-, rfl⟩ | ⟨f, hf, hx⟩
    · exact .inl hc
    · have hkept := hx.closures_eq (hx.excused hr h hp hf).not_binding.1
      exact .inl (hkept ▸ hc)

theorem Conforms.closure_origin_stepped (h : Conforms p m) (hr : Reachable config m)
    (hp : p.WellFormed) {n : Nat} (hroom : (m.stepped n).heap.closures.size ≤ handleSpace)
    (hc : r < (m.stepped n).heap.closures.size) :
    r < m.heap.closures.size ∨ ∃ t < n, ∃ f, (m.stepped t).Makes f r := by
  induction n with
  | zero => exact .inl hc
  | succ n ih =>
    have hbefore := Nat.le_trans (step_changes (m.stepped n)).grows.closures hroom
    rcases (h.stepped hr hp n).closure_origin (hr.stepped n) hp hroom hc with hlt | hmakes
    · refine (ih hbefore hlt).imp id ?_
      rintro ⟨t, ht, hmakes⟩
      exact ⟨t, Nat.lt_succ_of_lt ht, hmakes⟩
    · exact .inr ⟨n, Nat.lt_succ_self n, hmakes⟩

/-- A program that is loaded into a new machine brings its entry closure and no other. -/
theorem entry_load (config : Config) (hp : p.WellFormed) :
    (∃ proto, ((ofConfig config).request (.load p)).heap.closures = #[.new proto]) ∧
      ((ofConfig config).request (.load p)).pending = none := by
  rcases (tracked_ofConfig config).request_load_cases hp.entry with hl | ⟨code, -, hl⟩
  · rw [hl]
    exact ⟨⟨_, rfl⟩, rfl⟩
  · rw [hl]
    exact ⟨⟨_, rfl⟩, rfl⟩

-- ---------------------------------------------------------------------------
-- Reading a slot that is not bound
-- ---------------------------------------------------------------------------

theorem cellOf_unbound {index j : UInt8} {count : Nat} (hc : m.heap.closures[closure]? = some c)
    (h : m.cellOf closure index = .error (.upvalueOutOfBounds j count)) :
    c.slot? j.toNat = none := by
  unfold cellOf at h
  simp only [hc] at h
  split at h
  · next hnone =>
    obtain ⟨rfl, -⟩ := Fault.upvalueOutOfBounds.inj (Except.error.inj h)
    exact hnone
  · split at h <;> simp at h

theorem Faults.unbound {reg index j : UInt8} {count : Nat}
    (hx : Faults f.frame.closure f.window (m.advance f) f.instruction
      (.upvalueOutOfBounds j count) m')
    (hr : Reachable config m) (hf : m.fetch = .ok f)
    (hi : f.instruction = .getUpvalue reg index ∨ f.instruction = .setUpvalue reg index)
    (hc : m.heap.closures[f.frame.closure]? = some c) : c.slot? j.toNat = none := by
  have hregister : ∀ reg,
      (m.advance f).resolve f.window reg ≠ .error (.upvalueOutOfBounds j count) := by
    intro reg hreg
    simpa using resolve_error_of_fits (hr.fitted.window hf) hreg
  have hupvalue : ∀ index, (m.advance f).upvalue f.frame.closure index =
      .error (.upvalueOutOfBounds j count) → c.slot? j.toNat = none := by
    intro index hindex
    exact cellOf_unbound hc (upvalue_error_of_fits (hr.fitted.advance hf) hindex)
  rcases hi with hi | hi
  · rw [hi] at hx
    cases hx with
    | register hreg hslot => exact absurd hslot (hregister _)
    | getUpvalue herr => exact hupvalue index herr
  · rw [hi] at hx
    cases hx with
    | register hreg hslot => exact absurd hslot (hregister _)
    | setUpvalue herr => exact hupvalue index herr

theorem Excused.unbound (h : m.Excused f e) {reg index : UInt8}
    (hi : f.instruction = .getUpvalue reg index ∨ f.instruction = .setUpvalue reg index) :
    ∃ count, e = .upvalueOutOfBounds index count := by
  cases h with
  | getUpvalue hget =>
    obtain ⟨-, rfl⟩ : _ ∧ _ = index := by simpa [hget] using hi
    exact ⟨_, rfl⟩
  | setUpvalue hset =>
    obtain ⟨-, rfl⟩ : _ ∧ _ = index := by simpa [hset] using hi
    exact ⟨_, rfl⟩
  | _ hother => simp [hother] at hi

theorem Executes.bound {reg index : UInt8} (hx : Executes closure w m i report m')
    (hi : i = .getUpvalue reg index ∨ i = .setUpvalue reg index) :
    ∃ r cell, m.cellOf closure index = .ok (r, cell) := by
  rcases hi with rfl | rfl
  · cases hx with
    | getUpvalue hvalue hslot =>
      obtain ⟨r, cell, hcell, -⟩ := upvalue_ok.mp hvalue
      exact ⟨r, cell, hcell⟩
  · cases hx with
    | setClosed hvalue hcell => exact ⟨_, _, hcell⟩
    | setOpened hvalue hcell hslot => exact ⟨_, _, hcell⟩

/-- In a checked program an access through slot `index` fails because of the slot exactly when
nothing is bound to it. -/
theorem Conforms.unbound_iff (h : Conforms p m) (hr : Reachable config m) (hp : p.WellFormed)
    (hf : m.fetch = .ok f) {reg index : UInt8}
    (hi : f.instruction = .getUpvalue reg index ∨ f.instruction = .setUpvalue reg index)
    (hc : m.heap.closures[f.frame.closure]? = some c) :
    (∃ count m', step m = .error (.upvalueOutOfBounds index count) m') ↔
      c.slot? index.toNat = none := by
  cases hs : step m with
  | ok report m' =>
    obtain ⟨_, hf', hx⟩ := step_ok hs
    obtain rfl := Except.ok.inj (hf.symm.trans hf')
    obtain ⟨r, cell, hcell⟩ := hx.bound hi
    obtain ⟨c', hc', hslot, -⟩ := cellOf_ok.mp hcell
    obtain rfl := Option.some.inj (hc.symm.trans hc')
    simp [hslot]
  | error e m' =>
    rcases step_error hs with ⟨hno, -⟩ | ⟨_, hf', hx⟩
    · simp [hf] at hno
    · obtain rfl := Except.ok.inj (hf.symm.trans hf')
      obtain ⟨count, rfl⟩ := (hx.excused hr h hp hf).unbound hi
      exact ⟨fun _ => hx.unbound hr hf hi hc, fun _ => ⟨count, m', rfl⟩⟩

-- ---------------------------------------------------------------------------
-- Every closure of a run
-- ---------------------------------------------------------------------------

theorem Makes.codeOf (h : m.Makes f r) : ∃ code, m.codeOf f.frame.closure = .ok code := by
  cases h with
  | intro hf =>
    obtain ⟨code, -, hcode, -⟩ := fetch_ok hf
    exact ⟨code, hcode⟩

/-- The closure that runs a `makeFunction` is not the one that it makes. -/
theorem Makes.ne_closure (h : m.Makes f r)
    (hroom : (m.request .step).heap.closures.size ≤ handleSpace) : f.frame.closure ≠ r := by
  obtain ⟨code, hcode⟩ := h.codeOf
  obtain ⟨c, hc, -⟩ := codeOf_ok.mp hcode
  have hlt := (Array.getElem?_eq_some_iff.mp hc).1
  obtain ⟨hr, -, proto, hpushed⟩ := h.made
  rw [hpushed, Array.size_push] at hroom
  rw [hr, Heap.nextClosure, handleAt_of_lt hroom]
  exact Nat.ne_of_lt hlt

theorem Makes.filledIn {t T : Nat} (h : (m.stepped t).Makes f r)
    (hcode : (m.stepped t).codeOf f.frame.closure = .ok code) (hr : Reachable config m)
    (hconforms : Conforms p m) (hp : p.WellFormed) (hlt : t < T)
    (hroom : (m.stepped T).heap.Distinct) :
    ∃ n c, (m.stepped (t + 1)).FilledIn (m.stepped T) { f.frame with ip := f.frame.ip + 1 }
      code r n c := by
  have hmade := hroom.of_grows (stepped_grows m (Nat.succ_le_of_lt hlt))
  obtain ⟨proto, hbinding⟩ := h.binding hcode hmade.closures
  obtain ⟨d, rfl⟩ := Nat.exists_eq_add_of_le (Nat.succ_le_of_lt hlt)
  rw [stepped_add m (t + 1) d] at hroom ⊢
  exact hbinding.filledIn (hr.stepped (t + 1)) (hconforms.stepped hr hp (t + 1)) hp hroom

/-- A closure that runs is pending no more, as the frame on top while it is pending is the one
that has made it. -/
theorem FilledIn.running {n : Nat} (h : m.FilledIn m' frame code f.frame.closure n c)
    (hf : m'.fetch = .ok f) (hne : frame.closure ≠ f.frame.closure) (j : Nat) :
    (∃ cell, c.slot? j = some cell) ↔ code.RunFills frame.ip j := by
  obtain ⟨_, hback, -⟩ := fetch_ok hf
  have hn : n = code.bindRun frame.ip := by
    refine h.settled fun hpending => hne ?_
    have htop := Option.some.inj (hback.symm.trans (h.top hpending))
    exact (congrArg Frame.closure htop).symm
  rw [h.filled.bound j, hn]
  rfl

section Run

variable {T : Nat}

/-- The entry closure is never pending, so nothing is ever bound to it. -/
theorem entry_unbound (config : Config) (hp : p.WellFormed)
    (hroom : (((ofConfig config).request (.load p)).stepped T).heap.Distinct) :
    ∃ c, (((ofConfig config).request (.load p)).stepped T).heap.closures[0]? = some c ∧
      ∀ j, c.slot? j = none := by
  obtain ⟨⟨proto, hclosures⟩, hpending⟩ := entry_load config hp
  have hfirst : ((ofConfig config).request (.load p)).heap.closures[0]? = some (.new proto) := by
    simp [hclosures]
  obtain ⟨hkept, -⟩ := kept_of_not_pending hfirst (by simp [hpending]) hroom.closures
  exact ⟨.new proto, hkept, by simp [Closure.slot?, Closure.new]⟩

theorem entry_or_made (config : Config) (hp : p.WellFormed)
    (hroom : (((ofConfig config).request (.load p)).stepped T).heap.Distinct)
    (hc : (((ofConfig config).request (.load p)).stepped T).heap.closures[r]? = some c) :
    r = 0 ∨ ∃ t < T, ∃ f, (((ofConfig config).request (.load p)).stepped t).Makes f r := by
  obtain ⟨⟨proto, hclosures⟩, -⟩ := entry_load config hp
  have hlt := (Array.getElem?_eq_some_iff.mp hc).1
  refine ((conforms_load config hp).closure_origin_stepped (Reachable.new.request _) hp
    hroom.closures hlt).imp (fun hfirst => ?_) id
  simpa [hclosures] using hfirst

/-- What is bound in the closure that runs is what its site says. -/
theorem bound_iff_site (config : Config) (hp : p.WellFormed)
    (hroom : (((ofConfig config).request (.load p)).stepped T).heap.Distinct)
    (hf : (((ofConfig config).request (.load p)).stepped T).fetch = .ok f)
    (hc : (((ofConfig config).request (.load p)).stepped T).heap.closures[f.frame.closure]? =
      some c) (j : Nat) :
    (∃ cell, c.slot? j = some cell) ↔ ∃ t < T, ∃ g code,
      (((ofConfig config).request (.load p)).stepped t).Makes g f.frame.closure ∧
      (((ofConfig config).request (.load p)).stepped t).codeOf g.frame.closure = .ok code ∧
      code.RunFills (g.frame.ip + 1) j := by
  have hr : Reachable config ((ofConfig config).request (.load p)) := Reachable.new.request _
  have hconforms := conforms_load config hp
  have hentry := entry_unbound config hp hroom
  have horigin := entry_or_made config hp hroom hc
  generalize (ofConfig config).request (.load p) = m at *
  have hsite : ∀ {t g code}, t < T → (m.stepped t).Makes g f.frame.closure →
      (m.stepped t).codeOf g.frame.closure = .ok code →
        ((∃ cell, c.slot? j = some cell) ↔ code.RunFills (g.frame.ip + 1) j) := by
    intro t g code hlt hmakes hcode
    have hmade := hroom.of_grows (stepped_grows m (Nat.succ_le_of_lt hlt))
    obtain ⟨n, c', hfilled⟩ := hmakes.filledIn hcode hr hconforms hp hlt hroom
    obtain rfl := Option.some.inj (hc.symm.trans hfilled.closure)
    exact hfilled.running hf (hmakes.ne_closure hmade.closures) j
  constructor
  · rintro ⟨cell, hcell⟩
    rcases horigin with hzero | ⟨t, hlt, g, hmakes⟩
    · obtain ⟨c', hc', hunbound⟩ := hentry
      rw [hzero] at hc
      obtain rfl := Option.some.inj (hc.symm.trans hc')
      simp [hunbound] at hcell
    · obtain ⟨code, hcode⟩ := hmakes.codeOf
      exact ⟨t, hlt, g, code, hmakes, hcode, (hsite hlt hmakes hcode).mp ⟨cell, hcell⟩⟩
  · rintro ⟨t, hlt, g, code, hmakes, hcode, hfills⟩
    exact (hsite hlt hmakes hcode).mpr hfills

end Run

/-- Run a checked program on any machine, on after faults and stops, as long as every closure and
every cell has a handle of its own. A closure that a `makeFunction` has made has captured what the
`bind`s right after that instruction say: all of them once it is no longer pending, and until then
those that have run. The entry closure, which is the first one, has captured nothing, and there
are no other closures. So an access through slot `index` of the running closure fails because of
the slot exactly when there is no `bind` for it where that closure was made. -/
theorem captures_from_site {p : Program} (h : p.check = .ok ()) (config : Config) :
    let m := (ofConfig config).request (.load p)
    (∀ entry m', load p (ofConfig config) = .ok entry m' → entry = 0) ∧
    ∀ T, (m.stepped T).heap.Distinct →
      (∀ t f r code, t < T → (m.stepped t).Makes f r →
        (m.stepped t).codeOf f.frame.closure = .ok code →
          ∃ n c, (m.stepped (t + 1)).FilledIn (m.stepped T)
            { f.frame with ip := f.frame.ip + 1 } code r n c) ∧
      (∃ c, (m.stepped T).heap.closures[0]? = some c ∧ ∀ j, c.slot? j = none) ∧
      (∀ (r : ClosureRef) c, (m.stepped T).heap.closures[r]? = some c →
        r = 0 ∨ ∃ t < T, ∃ f, (m.stepped t).Makes f r) ∧
      ∀ f reg index, (m.stepped T).fetch = .ok f →
        (f.instruction = .getUpvalue reg index ∨ f.instruction = .setUpvalue reg index) →
          ((∃ count m', step (m.stepped T) = .error (.upvalueOutOfBounds index count) m') ↔
            ¬ ∃ t < T, ∃ g code, (m.stepped t).Makes g f.frame.closure ∧
              (m.stepped t).codeOf g.frame.closure = .ok code ∧
              code.RunFills (g.frame.ip + 1) index.toNat) := by
  intro m
  have hp := Program.check_ok.mp h
  have hr : Reachable config m := Reachable.new.request _
  have hconforms : Conforms p m := conforms_load config hp
  refine ⟨fun entry m' hload => (load_ok hload).1, fun T hroom => ⟨?_, ?_, ?_, ?_⟩⟩
  · intro t f r code hlt hmakes hcode
    exact hmakes.filledIn hcode hr hconforms hp hlt hroom
  · exact entry_unbound config hp hroom
  · exact fun r c hc => entry_or_made config hp hroom hc
  · intro f reg index hf hi
    obtain ⟨_, -, hrunning, -⟩ := fetch_ok hf
    obtain ⟨c, hc, -⟩ := codeOf_ok.mp hrunning
    rw [(hconforms.stepped hr hp T).unbound_iff (hr.stepped T) hp hf hi hc,
      ← bound_iff_site config hp hroom hf hc index.toNat, Option.eq_none_iff_forall_ne_some]
    exact not_exists.symm

/-- Fills slot 2, slot 0 and slot 2 again, and leaves slot 1 out. -/
def gapped : Program :=
  ⟨#[⟨"main", 4, #[.makeFunction 1 1, .bind 2 0, .bind 0 3, .bind 2 3, .call 1 3 0, .halt]⟩,
    ⟨"inner", 2, #[.getUpvalue 1 2, .getUpvalue 1 1, .ret 0]⟩], 0⟩

/-- The program is loaded, and about to make the closure. -/
def filling : Machine := (ofConfig ⟨8, 2, true⟩).request (.load gapped)

theorem captures_from_site_gapped :
    gapped.check = .ok () ∧
      filling.Makes ⟨⟨0, 0, 0⟩, ⟨0, 4⟩, .makeFunction 1 1⟩ 1 ∧
      (filling.stepped 2).pending = some 1 ∧
      (∃ n c, (filling.stepped 1).FilledIn (filling.stepped 2) ⟨0, 1, 0⟩ gapped.codes[0] 1 n c) ∧
      (filling.stepped 5).pending = none ∧
      (∃ c, (filling.stepped 1).FilledIn (filling.stepped 5) ⟨0, 1, 0⟩ gapped.codes[0] 1 3 c) ∧
      step (filling.stepped 6) =
        .error (.upvalueOutOfBounds 1 3) ((filling.stepped 6).request .step) ∧
      ¬ ∃ t < 6, ∃ g code, (filling.stepped t).Makes g 1 ∧
        (filling.stepped t).codeOf g.frame.closure = .ok code ∧
        code.RunFills (g.frame.ip + 1) 1 := by
  have hcheck : gapped.check = .ok () := rfl
  have hsites := (captures_from_site hcheck ⟨8, 2, true⟩).2
  have hroom : ∀ T ≤ 6, (filling.stepped T).heap.Distinct := fun T hT =>
    Heap.Distinct.of_grows ⟨by decide +kernel, by decide +kernel⟩ (stepped_grows filling hT)
  have hmakes : filling.Makes ⟨⟨0, 0, 0⟩, ⟨0, 4⟩, .makeFunction 1 1⟩ 1 :=
    ⟨ok_of_toOption (by decide +kernel), rfl,
      (by decide +kernel : step filling = .ok none (filling.stepped 1)),
      ok_of_toOption (by decide +kernel)⟩
  have hcode : filling.codeOf 0 = .ok gapped.codes[0] := ok_of_toOption (by decide +kernel)
  have hpending : (filling.stepped 5).pending = none := by decide +kernel
  have hs : step (filling.stepped 6) =
      .error (.upvalueOutOfBounds 1 3) ((filling.stepped 6).request .step) := by decide +kernel
  have hf : (filling.stepped 6).fetch = .ok ⟨⟨1, 1, 3⟩, ⟨3, 2⟩, .getUpvalue 1 1⟩ :=
    ok_of_toOption (by decide +kernel)
  obtain ⟨n, c, hfilled⟩ : ∃ n c, (filling.stepped 1).FilledIn (filling.stepped 5) ⟨0, 1, 0⟩
      gapped.codes[0] 1 n c := (hsites 5 (hroom 5 (by decide))).1 0 _ 1 _ (by decide) hmakes hcode
  have hn : n = 3 := hfilled.settled (by simp [hpending])
  have hearly := (hsites 2 (hroom 2 (by decide))).1 0 _ 1 _ (by decide) hmakes hcode
  have hunbound := (hsites 6 (hroom 6 (by decide))).2.2.2 _ 1 1 hf (.inl rfl)
  exact ⟨hcheck, hmakes, by decide +kernel, hearly, hpending, ⟨c, hn ▸ hfilled⟩, hs,
    hunbound.mp ⟨3, _, hs⟩⟩

/-- The entry closure is closure 0, and the closure made after the last handle binds its slots. -/
theorem entry_closure_binds_slot :
    exhausting.check = .ok () ∧ load exhausting (ofConfig {}) = .ok 0 exhaustion ∧
      ∃ n c cell, (exhaustion.stepped n).heap.closures[0]? = some c ∧ c.slot? 0 = some cell := by
  obtain ⟨n, h⟩ := exists_brimful
  exact ⟨check_exhausting, load_exhausting, n, h.entry⟩

end Machine

end ClosureMachine

import ClosureMachine.Proofs.CellValues
import ClosureMachine.Proofs.Termination

/-!
# The history of the heap

Whatever a host calls, the heap only goes on: code never changes, a closure keeps its code, an
open cell observes one slot until it is closed, and a closed cell stays closed. `Heap.Extends`
says so of two heaps, the later one second. The slots of a closure are filled by `bind`s while it
is pending and by nothing else (`Machine.BindsIn`), and no handle is handed out twice as long as
there are enough of them.
-/

namespace ClosureMachine

/-- What a cell may have become. -/
inductive Cell.Becomes : Cell → Cell → Prop
  | opened (slot : Nat) : Becomes (.opened slot) (.opened slot)
  | settled (slot : Nat) (value : Value) : Becomes (.opened slot) (.closed value)
  | closed (old new : Value) : Becomes (.closed old) (.closed new)

namespace Cell.Becomes

theorem refl (cell : Cell) : cell.Becomes cell := by
  cases cell with
  | opened slot => exact .opened slot
  | closed value => exact .closed value value

theorem trans {a b c : Cell} (hab : a.Becomes b) (hbc : b.Becomes c) : a.Becomes c := by
  cases hab with
  | opened slot => exact hbc
  | settled slot value =>
    cases hbc with
    | closed old new => exact .settled slot new
  | closed old new =>
    cases hbc with
    | closed _ newer => exact .closed old newer

end Cell.Becomes

/-- Heap `h'` goes on from `h`: everything is still where it was. -/
structure Heap.Extends (h h' : Heap) : Prop where
  codes : ∀ {code : CodeRef} {object : CodeObject},
    h.codes[code]? = some object → h'.codes[code]? = some object
  closures : ∀ {closure : ClosureRef} {c : Closure},
    h.closures[closure]? = some c → ∃ c', h'.closures[closure]? = some c' ∧ c'.code = c.code
  cells : ∀ {r : CellRef} {cell : Cell},
    h.cells[r]? = some cell → ∃ cell', h'.cells[r]? = some cell' ∧ cell.Becomes cell'

namespace Heap.Extends

variable {h h' h'' : Heap}

theorem refl (h : Heap) : h.Extends h :=
  ⟨id, fun {_ c} hc => ⟨c, hc, rfl⟩, fun {_ cell} hr => ⟨cell, hr, .refl cell⟩⟩

theorem trans (hab : h.Extends h') (hbc : h'.Extends h'') : h.Extends h'' := by
  refine ⟨fun hc => hbc.codes (hab.codes hc), fun hc => ?_, fun hr => ?_⟩
  · obtain ⟨c', hc', hcode⟩ := hab.closures hc
    obtain ⟨c'', hc'', hcode'⟩ := hbc.closures hc'
    exact ⟨c'', hc'', hcode'.trans hcode⟩
  · obtain ⟨cell', hr', hbecomes⟩ := hab.cells hr
    obtain ⟨cell'', hr'', hbecomes'⟩ := hbc.cells hr'
    exact ⟨cell'', hr'', hbecomes.trans hbecomes'⟩

/-- Only cells differ. -/
theorem of_cells (hcodes : h'.codes = h.codes) (hclosures : h'.closures = h.closures)
    (hcells : ∀ {r : CellRef} {cell : Cell},
      h.cells[r]? = some cell → ∃ cell', h'.cells[r]? = some cell' ∧ cell.Becomes cell') :
    h.Extends h' :=
  ⟨fun hc => hcodes ▸ hc, fun {_ c} hc => ⟨c, hclosures ▸ hc, rfl⟩, hcells⟩

theorem closure_eq_none (he : h.Extends h') {closure : ClosureRef}
    (hnone : h'.closures[closure]? = none) : h.closures[closure]? = none := by
  cases hc : h.closures[closure]? with
  | none => rfl
  | some c =>
    obtain ⟨c', hc', -⟩ := he.closures hc
    simp [hnone] at hc'

theorem cell_eq_none (he : h.Extends h') {r : CellRef} (hnone : h'.cells[r]? = none) :
    h.cells[r]? = none := by
  cases hr : h.cells[r]? with
  | none => rfl
  | some cell =>
    obtain ⟨cell', hr', -⟩ := he.cells hr
    simp [hnone] at hr'

end Heap.Extends

-- ---------------------------------------------------------------------------
-- Every change goes on
-- ---------------------------------------------------------------------------

theorem Change.extends {m m' : Machine} (hc : Change m m') : m.heap.Extends m'.heap := by
  cases hc with
  | withClosure code =>
    refine ⟨id, fun {closure c} hclosure => ⟨c, ?_, rfl⟩, fun {_ cell} hr => ⟨cell, hr, .refl cell⟩⟩
    have hlt := (Array.getElem?_eq_some_iff.mp hclosure).1
    show (m.heap.closures.push _)[closure]? = _
    rw [Array.getElem?_push, if_neg (Nat.ne_of_lt hlt), hclosure]
  | captured slot =>
    refine .of_cells (Machine.captured_codes ..) (Machine.captured_closures ..) ?_
    intro r cell hr
    have hlt := (Array.getElem?_eq_some_iff.mp hr).1
    exact ⟨cell, (Machine.captured_cell? hlt).trans hr, .refl cell⟩
  | @withBinding bound index cell hpending =>
    refine ⟨id, fun {closure c} hclosure => ?_, fun {_ cell} hr => ⟨cell, hr, .refl cell⟩⟩
    show ∃ c', (m.heap.closures.modify bound (·.bindSlot index.toNat cell))[closure]? = some c' ∧ _
    rw [Array.getElem?_modify, hclosure]
    split
    · exact ⟨c.bindSlot index.toNat cell, rfl, rfl⟩
    · exact ⟨c, rfl, rfl⟩
  | @rewritten r old value hr =>
    refine .of_cells rfl rfl fun {r' cell} hr' => ?_
    show ∃ cell', (m.heap.cells.setIfInBounds r (.closed value))[r']? = some cell' ∧ _
    by_cases he : r = r'
    · subst he
      have hlt := (Array.getElem?_eq_some_iff.mp hr).1
      obtain rfl := Option.some.inj (hr.symm.trans hr')
      exact ⟨.closed value, Array.getElem?_setIfInBounds_self_of_lt hlt, .closed old value⟩
    · exact ⟨cell, (Array.getElem?_setIfInBounds_ne he).trans hr', .refl cell⟩
  | closeFrom start =>
    have hcell := Machine.closeFrom_cell? start m
    obtain ⟨cells, hm⟩ := Machine.closeFrom_machine start m
    rw [hm] at hcell ⊢
    refine .of_cells rfl rfl fun {r cell} hr => ?_
    rcases hcell r with hkept | ⟨⟨slot, hopen⟩, s, hclosed⟩
    · exact ⟨cell, hkept.trans hr, .refl cell⟩
    · obtain rfl := Option.some.inj (hr.symm.trans hopen)
      exact ⟨_, hclosed, .settled slot _⟩
  | install p =>
    refine ⟨fun {code object} hcode => ?_, fun {_ c} hclosure => ⟨c, hclosure, rfl⟩,
      fun {_ cell} hr => ⟨cell, hr, .refl cell⟩⟩
    show (m.heap.codes ++ p.codes)[code]? = _
    rw [Array.getElem?_append_left (Array.getElem?_eq_some_iff.mp hcode).1, hcode]
  -- What else there is leaves the heap as it is.
  | _ => exact .refl _

theorem Changes.extends {m m' : Machine} (hc : Changes m m') : m.heap.Extends m'.heap := by
  induction hc with
  | refl => exact .refl _
  | tail _ hc ih => exact ih.trans hc.extends

-- ---------------------------------------------------------------------------
-- Calls of a host
-- ---------------------------------------------------------------------------

/-- What a host can call: a request, or a single operation. -/
inductive HostCall where
  | request (r : Request)
  | handle (c : Handler)

namespace Machine

/-- The machine that a call leaves behind, whether or not it fails. -/
def after (m : Machine) : HostCall → Machine
  | .request r => m.request r
  | .handle c => m.handle c

/-- The machines that further calls lead to from `m`. -/
inductive Later (m : Machine) : Machine → Prop
  | refl : Later m m
  | call {m' : Machine} (h : Later m m') (c : HostCall) : Later m (m'.after c)

variable {config : Config} {m m₀ m' : Machine} {w : Window} {f : Fetched} {closure r : ClosureRef}
  {i : Instruction} {e : Fault} {report : Option Report} {c : Closure}

theorem after_changes (m : Machine) (c : HostCall) : Changes m (m.after c) := by
  cases c with
  | request r => exact request_changes m r
  | handle c => exact handle_changes m c

theorem Later.changes (h : Later m₀ m) : Changes m₀ m := by
  induction h with
  | refl => exact .refl
  | call _ c ih => exact ih.trans (after_changes _ c)

theorem Later.handled (h : Later m₀ m) (h₀ : Handled config m₀) : Handled config m := by
  induction h with
  | refl => exact h₀
  | call _ c ih =>
    cases c with
    | request r => exact ih.request r
    | handle c => exact ih.handle c

-- ---------------------------------------------------------------------------
-- Slots of closures
-- ---------------------------------------------------------------------------

/-- The next step of `m` is a `bind`, and `closure` is pending. -/
structure BindsNext (m : Machine) (closure : ClosureRef) : Prop where
  pending : m.pending = some closure
  bind : ∃ f index offset, m.fetch = .ok f ∧ f.instruction = .bind index offset

/-- A call in which a `bind` is made while `closure` is pending: the operation itself, a step
that is a `bind`, or a run that comes to such a step. -/
inductive BindsIn (m : Machine) (closure : ClosureRef) : HostCall → Prop
  | handle {w : Window} {index offset : UInt8} (h : m.pending = some closure) :
      BindsIn m closure (.handle (.bindUpvalue w index offset))
  | step (h : m.BindsNext closure) : BindsIn m closure (.request .step)
  | interpret {n k : Nat} (hrun : m.EndsAfter n) (hk : k ≤ n)
      (h : (m.stepped k).BindsNext closure) : BindsIn m closure (.request .interpret)

theorem closure?_withClosure (code : CodeRef) (hc : m.heap.closures[r]? = some c) :
    (m.withClosure code).heap.closures[r]? = some c := by
  have hlt := (Array.getElem?_eq_some_iff.mp hc).1
  show (m.heap.closures.push _)[r]? = _
  rw [Array.getElem?_push, if_neg (Nat.ne_of_lt hlt), hc]

theorem closure?_closeFrom (start : Nat) :
    (Outcome.machine (closeFrom start m)).heap.closures = m.heap.closures := by
  obtain ⟨cells, hm⟩ := closeFrom_machine start m
  rw [hm]

/-- An instruction leaves the closures alone, unless it is a `bind` into the pending one. -/
theorem Executes.closure? (hx : Executes closure w m i report m')
    (hc : m.heap.closures[r]? = some c) :
    m'.heap.closures[r]? = some c ∨
      m.pending = some r ∧ ∃ index offset, i = .bind index offset := by
  cases hx with
  | makeFunction hcode hslot => exact .inl (closure?_withClosure _ hc)
  | @bind index offset pending _ hpending hslot hbound =>
    by_cases he : pending = r
    · exact .inr ⟨he ▸ hpending, index, offset, rfl⟩
    · refine .inl ?_
      simp [withBinding, Heap.bindSlot, Array.getElem?_modify, he, hc]
  | ret hvalue hbase hclose =>
    obtain ⟨cells, rfl⟩ := closeFrom_ok hclose
    rw [leave_heap]
    exact .inl hc
  | _ => exact .inl hc

theorem Faults.closure? (hx : Faults closure w m i e m') (hc : m.heap.closures[r]? = some c) :
    m'.heap.closures[r]? = some c := by
  cases hx with
  | closureRegister hcode hslot => exact closure?_withClosure _ hc
  | bindMissing hpending hslot hmissing => simpa using hc
  | @closing _ value _ _ hvalue hclose =>
    have hkept := closure?_closeFrom (m := m.store w.base value) w.base
    rw [hclose, Outcome.machine_error] at hkept
    rw [hkept]
    exact hc
  | _ => exact hc

theorem execute_closure? (closure : ClosureRef) (w : Window) (i : Instruction)
    (hc : m.heap.closures[r]? = some c) :
    (Outcome.machine (execute closure w i m)).heap.closures[r]? = some c ∨
      m.pending = some r ∧ ∃ index offset, i = .bind index offset := by
  cases hx : execute closure w i m with
  | ok report m' => exact (execute_ok hx).closure? hc
  | error e m' => exact .inl ((execute_error hx).closure? hc)

theorem closure?_step (hc : m.heap.closures[r]? = some c) :
    (m.request .step).heap.closures[r]? = some c ∨ m.BindsNext r := by
  simp only [request, step]
  cases hf : m.fetch with
  | error e => exact .inl hc
  | ok f =>
    rcases execute_closure? (m := m.advance f) f.frame.closure f.window f.instruction hc with
      hkept | ⟨hpending, index, offset, hi⟩
    · exact .inl hkept
    · refine .inr ⟨?_, f, index, offset, hf, hi⟩
      simpa [advance, hi, Instruction.isBind] using hpending

theorem closure?_stepped (hc : m.heap.closures[r]? = some c) (n : Nat) :
    (m.stepped n).heap.closures[r]? = some c ∨ ∃ k < n, (m.stepped k).BindsNext r := by
  induction n with
  | zero => exact .inl hc
  | succ n ih =>
    rcases ih with hkept | ⟨k, hk, hbinds⟩
    · exact (closure?_step hkept).imp id fun hbinds => ⟨n, Nat.lt_succ_self n, hbinds⟩
    · exact .inr ⟨k, Nat.lt_succ_of_lt hk, hbinds⟩

theorem closure?_request (q : Request) (hc : m.heap.closures[r]? = some c) :
    (m.request q).heap.closures[r]? = some c ∨ m.BindsIn r (.request q) := by
  cases q with
  | load p =>
    have hclosed := (congrArg (·[r]?) (closure?_closeFrom (m := m) 0)).trans hc
    have hstaged : ((Outcome.machine (closeFrom 0 m)).staged p).heap.closures[r]? = some c :=
      closure?_withClosure (m := (Outcome.machine (closeFrom 0 m)).clear.install p) _ hclosed
    rcases request_load_cases m p with ⟨-, hl⟩ | ⟨-, hl | hl | ⟨code, -, -, -, hl⟩⟩
    · rw [hl]
      exact .inl hc
    · rw [hl]
      exact .inl hclosed
    · rw [hl]
      exact .inl hstaged
    · rw [hl]
      exact .inl hstaged
  | step => exact (closure?_step hc).imp id .step
  | interpret =>
    obtain ⟨n, -, hends⟩ := endsAfter_work m
    have hlast : m.request .interpret = m.stepped (n + 1) := by
      rcases hends.ends with ⟨report, -, hi⟩ | ⟨e, -, hi⟩
      · rw [request, hi, Outcome.machine_ok]
      · rw [request, hi, Outcome.machine_error]
    rw [hlast]
    refine (closure?_stepped hc (n + 1)).imp id ?_
    rintro ⟨k, hk, hbinds⟩
    exact .interpret hends (Nat.le_of_lt_succ hk) hbinds
  | reset =>
    have hclosed := (congrArg (·[r]?) (closure?_closeFrom (m := m) 0)).trans hc
    rcases request_reset_cases m with hr | hr
    · rw [hr]
      exact .inl hclosed
    · rw [hr]
      exact .inl hclosed

theorem closure?_handle (q : Handler) (hc : m.heap.closures[r]? = some c) :
    (m.handle q).heap.closures[r]? = some c ∨ m.BindsIn r (.handle q) := by
  -- The operations that are instructions go by what the instruction does.
  have hinstruction : ∀ i, (∀ index offset, i ≠ .bind index offset) → ∀ w,
      (Outcome.machine (execute 0 w i m)).heap.closures[r]? = some c := by
    intro i hi w
    rcases execute_closure? 0 w i hc with hkept | ⟨-, index, offset, hbind⟩
    · exact hkept
    · exact absurd hbind (hi index offset)
  cases q with
  | getRegister w reg =>
    refine .inl ?_
    simp only [handle, getRegister, Op.ask]
    split <;> exact hc
  | setRegister w reg value =>
    refine .inl ?_
    simp only [handle, setRegister]
    split <;> exact hc
  | makeFunction w target index =>
    have hkept := hinstruction (.makeFunction target index) (by simp) w
    simp only [execute, machine_then_none] at hkept
    exact .inl hkept
  | bindUpvalue w index offset =>
    have hx := execute_closure? 0 w (.bind index offset) hc
    simp only [execute, machine_then_none] at hx
    exact hx.imp id fun hbinds => .handle hbinds.1
  | addRegisters w target left right =>
    have hkept := hinstruction (.add target left right) (by simp) w
    simp only [execute, machine_then_none] at hkept
    exact .inl hkept
  | call w function argBase =>
    have hkept := hinstruction (.call function argBase 0) (by simp) w
    simp only [execute, machine_then_none] at hkept
    exact .inl hkept
  | returnFrom w result => exact .inl (hinstruction (.ret result) (by simp) w)
  | getUpvalue closure index =>
    refine .inl ?_
    simp only [handle, getUpvalue, Op.ask]
    split <;> exact hc
  | setUpvalue closure index value =>
    refine .inl ?_
    simp only [handle]
    cases hx : setUpvalue closure index value m with
    | ok u m' =>
      rcases setUpvalue_ok.mp hx with ⟨_, _, -, rfl⟩ | ⟨_, _, -, -, rfl⟩
      · exact hc
      · exact hc
    | error e m' =>
      obtain ⟨-, rfl⟩ := setUpvalue_error.mp hx
      exact hc
  | capture slot =>
    simp only [handle, capture_eq, Outcome.machine_ok, captured_closures]
    exact .inl hc
  | closeFrom start => exact .inl ((congrArg (·[r]?) (closure?_closeFrom start)).trans hc)

-- ---------------------------------------------------------------------------
-- New closures and cells
-- ---------------------------------------------------------------------------

/-- The next step of `m` is the `makeFunction` fetched in `f`, and makes closure `r`. -/
inductive Makes (m : Machine) (f : Fetched) (r : ClosureRef) : Prop
  | intro {target : UInt8} {index : UInt16} {m' : Machine} (hf : m.fetch = .ok f)
      (hi : f.instruction = .makeFunction target index) (hs : step m = .ok none m')
      (hr : m'.register f.window target = .ok (.function r))

/-- A call that gives its caller a new closure: the entry of a program that it loads, or what a
`makeFunction` has put in a register. -/
inductive Gives (m : Machine) : HostCall → ClosureRef → Prop
  | load {p : Program} {r : ClosureRef} {m' : Machine} (h : load p m = .ok r m') :
      Gives m (.request (.load p)) r
  | step {f : Fetched} {r : ClosureRef} (h : m.Makes f r) : Gives m (.request .step) r
  | made {w : Window} {target : UInt8} {index : UInt16} {r : ClosureRef} {m' : Machine}
      (h : makeFunction w target index m = .ok () m')
      (hr : m'.register w target = .ok (.function r)) :
      Gives m (.handle (.makeFunction w target index)) r

theorem register_stored {reg : UInt8} {slot : Nat} (value : Value)
    (hslot : m.resolve w reg = .ok slot) : (m.store slot value).register w reg = .ok value := by
  obtain ⟨hreg, rfl, hlt⟩ := resolve_ok.mp hslot
  refine register_ok.mpr ⟨_, resolve_ok.mpr ⟨hreg, rfl, by simpa using hlt⟩, ?_⟩
  rw [stackAt_eq, store_slot?, if_pos ⟨rfl, hlt⟩]
  rfl

/-- What a `makeFunction` puts in its register is the next handle of the heap, and the closure
that it has added has captured nothing. -/
theorem Executes.made {target : UInt8} {index : UInt16}
    (hx : Executes closure w m (.makeFunction target index) report m')
    (hr : m'.register w target = .ok (.function r)) :
    r = m.heap.nextClosure ∧ m'.pending = some r ∧
      ∃ code, m'.heap.closures = m.heap.closures.push (.new code) := by
  cases hx with
  | @makeFunction _ _ code slot hcode hslot =>
    have hslot : (m.withClosure code).resolve w target = .ok slot := hslot
    have hstored := register_stored (.function m.heap.nextClosure) hslot
    obtain rfl : m.heap.nextClosure = r := by
      exact Value.function.inj (Except.ok.inj (hstored.symm.trans hr))
    exact ⟨rfl, rfl, code, rfl⟩

theorem Makes.made (h : m.Makes f r) :
    r = m.heap.nextClosure ∧ (m.request .step).pending = some r ∧
      ∃ code, (m.request .step).heap.closures = m.heap.closures.push (.new code) := by
  obtain @⟨target, index, m', hf, hi, hs, hr⟩ := h
  obtain ⟨_, hf', hx⟩ := step_ok hs
  obtain rfl := Except.ok.inj (hf.symm.trans hf')
  rw [hi] at hx
  rw [request, hs]
  exact hx.made hr

/-- A program that is loaded gets the next handle of the heap for its entry closure. -/
theorem load_ok {p : Program} (h : load p m = .ok r m') :
    r = m.heap.nextClosure ∧ ∃ code, m'.heap.closures = m.heap.closures.push (.new code) := by
  have hentry : p.entry.toNat < p.codes.size := by
    refine Nat.lt_of_not_le fun hsize => ?_
    simp [load_of_size_le hsize] at h
  cases hc : closeFrom 0 m with
  | error e m₁ => simp [load_of_not_closed hc hentry] at h
  | ok n m₁ =>
    obtain ⟨cells, rfl⟩ := closeFrom_ok hc
    rw [load_of_closed hc hentry] at h
    simp only [Op.bind_ok, Op.pure_ok, pushFrame_ok] at h
    obtain ⟨_, _, ⟨v, -, rfl⟩, rfl, rfl⟩ := h
    exact ⟨rfl, _, rfl⟩

theorem Gives.pushed {q : HostCall} (h : m.Gives q r) :
    r = m.heap.nextClosure ∧ ∃ c, (m.after q).heap.closures = m.heap.closures.push c := by
  cases h with
  | @load p _ m' h =>
    obtain ⟨hr, code, hheap⟩ := load_ok h
    refine ⟨hr, .new code, ?_⟩
    rw [after, request, h, Outcome.machine_ok, hheap]
  | step h =>
    obtain ⟨hr, -, code, hc⟩ := h.made
    exact ⟨hr, .new code, hc⟩
  | @made w target index _ m' h hr =>
    have hx : execute 0 w (.makeFunction target index) m = .ok none m' := by
      simp [execute, h]
    obtain ⟨hr, -, code, hc⟩ := (execute_ok hx).made hr
    refine ⟨hr, .new code, ?_⟩
    rw [after, handle, h]
    exact hc

/-- While there are handles left, the one that is given names the closure that was added. -/
theorem Gives.new {q : HostCall} (h : m.Gives q r)
    (hsize : (m.after q).heap.closures.size ≤ handleSpace) :
    m.heap.closures[r]? = none ∧ ∃ c, (m.after q).heap.closures[r]? = some c := by
  obtain ⟨hr, c, hpushed⟩ := h.pushed
  rw [hpushed, Array.size_push] at hsize
  rw [Heap.nextClosure, handleAt_of_lt hsize] at hr
  subst hr
  exact ⟨Array.getElem?_eq_none Nat.le.refl, c, hpushed ▸ Array.getElem?_push_size⟩

/-- A slot that was not captured, and is after some changes, has a new cell. -/
theorem cell_new_of_changes (hc : Changes m m') (ht : m.Tracked) (ht' : m'.Tracked) {slot : Nat}
    {r : CellRef} (hfree : m.openCells.find? slot = none) (hr : m'.openCells.find? slot = some r) :
    m.heap.cells[r]? = none := by
  have hopen := ht'.find?_eq.mp hr
  cases hcell : m.heap.cells[r]? with
  | none => rfl
  | some cell =>
    obtain ⟨cell', hcell', hbecomes⟩ := hc.extends.cells hcell
    obtain rfl := Option.some.inj (hcell'.symm.trans hopen)
    cases hbecomes with
    | opened => simp [ht.find?_eq.mpr hcell] at hfree

/-- Take any machine `m₀` of a session, and any machine `m` that further calls lead to from it,
failed calls included. Then the heap of `m` goes on from that of `m₀`. A call on `m` changes the
slots of a closure only by a `bind` while it is pending. As long as there are handles for all of
them, the closure that a call gives is one that `m₀` did not have, and so is the cell of a slot
that the call captures. -/
theorem heap_history {config : Config} {m₀ m : Machine} (h : Handled config m₀)
    (hlater : Later m₀ m) :
    m₀.heap.Extends m.heap ∧
    (∀ q (closure : ClosureRef) c, m.heap.closures[closure]? = some c →
      (m.after q).heap.closures[closure]? = some c ∨ m.BindsIn closure q) ∧
    (∀ q closure, (m.after q).heap.closures.size ≤ handleSpace → m.Gives q closure →
      m₀.heap.closures[closure]? = none ∧ ∃ c, (m.after q).heap.closures[closure]? = some c) ∧
    ∀ q slot r, (m.after q).heap.cells.size ≤ handleSpace →
      m.openCells.find? slot = none → (m.after q).openCells.find? slot = some r →
      m₀.heap.cells[r]? = none ∧ (m.after q).heap.cells[r]? = some (.opened slot) := by
  have hextends := hlater.changes.extends
  refine ⟨hextends, fun q closure c hc => ?_, fun q closure hsize hgives => ?_,
    fun q slot r hsize hfree hr => ?_⟩
  · cases q with
    | request q => exact closure?_request q hc
    | handle q => exact closure?_handle q hc
  · obtain ⟨hnone, hsome⟩ := hgives.new hsize
    exact ⟨hextends.closure_eq_none hnone, hsome⟩
  · have hchanges := after_changes m q
    have ht := (hlater.handled h).tracked (Nat.le_trans hchanges.grows.cells hsize)
    have ht' := ((hlater.call q).handled h).tracked hsize
    exact ⟨hextends.cell_eq_none (cell_new_of_changes hchanges ht ht' hfree hr),
      ht'.find?_eq.mp hr⟩

/-- Makes a closure and binds its own register to it. -/
def selfBinding : Program :=
  ⟨#[⟨"main", 3, #[.makeFunction 1 1, .bind 0 1, .halt]⟩, ⟨"inner", 1, #[.ret 0]⟩], 0⟩

/-- The closure is made and bound. -/
def bound : Machine := ((ofConfig ⟨6, 3, true⟩).request (.load selfBinding)).stepped 2

/-- The machine is reset, and the program is loaded once more. -/
def rebound : Machine := (bound.after (.request .reset)).after (.request (.load selfBinding))

theorem heap_history_rebound :
    bound.heap.cells[0]? = some (.opened 1) ∧ bound.heap.Extends rebound.heap ∧
      rebound.heap.cells[0]? = some (.closed (.function 1)) ∧
      rebound.Gives (.request .step) 3 ∧ bound.heap.closures[3]? = none ∧
      (rebound.stepped 1).openCells.find? 1 = none ∧
      (rebound.stepped 2).openCells.find? 1 = some 1 ∧ bound.heap.cells[1]? = none := by
  have hbound : Handled ⟨6, 3, true⟩ bound := ((Reachable.new.request (.load _)).stepped 2).handled
  have hlater : Later bound rebound := (Later.refl.call (.request .reset)).call (.request (.load _))
  have hfetch : rebound.fetch = .ok ⟨⟨2, 0, 0⟩, ⟨0, 3⟩, .makeFunction 1 1⟩ :=
    ok_of_toOption (by decide +kernel)
  have hmakes : rebound.Makes ⟨⟨2, 0, 0⟩, ⟨0, 3⟩, .makeFunction 1 1⟩ 3 :=
    ⟨hfetch, rfl, (by decide +kernel : step rebound = .ok none (rebound.stepped 1)),
      ok_of_toOption (by decide +kernel)⟩
  have hfree : (rebound.stepped 1).openCells.find? 1 = none := by decide +kernel
  have hcaptured : (rebound.stepped 2).openCells.find? 1 = some 1 := by decide +kernel
  obtain ⟨hextends, -, hgives, -⟩ := heap_history hbound hlater
  obtain ⟨-, -, -, hcell⟩ := heap_history hbound (hlater.call (.request .step))
  exact ⟨by decide +kernel, hextends, by decide +kernel, .step hmakes,
    (hgives _ _ (by decide +kernel) (.step hmakes)).1, hfree, hcaptured,
    (hcell (.request .step) 1 1 (by decide +kernel) hfree hcaptured).1⟩

end Machine

end ClosureMachine

import Mathlib.Logic.Relation
import ClosureMachine.Proofs.Sessions
import ClosureMachine.Proofs.StepLaws

/-!
# Elementary changes

Whatever a host asks for, and whether or not it ends in a fault, the machine changes by a
sequence of elementary changes. So an invariant of every session has to be checked for each
elementary change only: `Handled.invariant`.
-/

namespace ClosureMachine

/-- An elementary change, with what is known of the machine when it happens. -/
inductive Change (m : Machine) : Machine → Prop
  | control (frames : Array Frame) (pending : Option ClosureRef) :
      Change m { m with frames, pending }
  | reserve {finish : Nat} (h : finish ≤ m.stack.size) :
      Change m { m with highWater := max m.highWater finish }
  | store {slot : Nat} (value : Value) (h : slot < m.stack.size) : Change m (m.store slot value)
  | withClosure (code : CodeRef) : Change m (m.withClosure code)
  | captured (slot : Nat) : Change m (m.captured slot)
  | withBinding {closure : ClosureRef} (index : UInt8) (cell : CellRef)
      (h : m.pending = some closure) : Change m (m.withBinding closure index cell)
  | rewritten {r : CellRef} {old : Value} (value : Value)
      (h : m.heap.cells[r]? = some (.closed old)) : Change m (m.rewritten r value)
  | closeFrom (start : Nat) : Change m (Outcome.machine (Machine.closeFrom start m))
  | scrub {w : Window} (h : w.base < m.stack.size) : Change m (m.scrub w)
  | clear : Change m m.clear
  | install (p : Program) : Change m (m.install p)

abbrev Changes : Machine → Machine → Prop := Relation.ReflTransGen Change

/-- No store of the first heap is larger than that of the second. -/
structure Heap.Grows (h h' : Heap) : Prop where
  codes : h.codes.size ≤ h'.codes.size
  closures : h.closures.size ≤ h'.closures.size
  cells : h.cells.size ≤ h'.cells.size

theorem Heap.Grows.trans {h₁ h₂ h₃ : Heap} (h : h₁.Grows h₂) (h' : h₂.Grows h₃) : h₁.Grows h₃ :=
  ⟨Nat.le_trans h.codes h'.codes, Nat.le_trans h.closures h'.closures,
    Nat.le_trans h.cells h'.cells⟩

/-- Every closure and every cell has a handle of its own. -/
structure Heap.Distinct (h : Heap) : Prop where
  closures : h.closures.size ≤ handleSpace
  cells : h.cells.size ≤ handleSpace

theorem Heap.Distinct.of_grows {h h' : Heap} (hd : h'.Distinct) (hg : h.Grows h') : h.Distinct :=
  ⟨Nat.le_trans hg.closures hd.closures, Nat.le_trans hg.cells hd.cells⟩

/-- Every item on the heap has a handle of its own. -/
structure Heap.Addressable (h : Heap) : Prop extends h.Distinct where
  codes : h.codes.size ≤ handleSpace

-- ---------------------------------------------------------------------------
-- What no change does
-- ---------------------------------------------------------------------------

namespace Change

variable {m m' : Machine}

theorem size_stack (h : Change m m') : m'.stack.size = m.stack.size := by
  cases h with
  | store value hslot => simp
  | captured slot => simp
  | closeFrom start =>
    obtain ⟨cells, hm⟩ := Machine.closeFrom_machine start m
    rw [hm]
  | scrub hbase => simp [Machine.scrub]
  | clear => simp [Machine.clear]
  | _ => rfl

theorem config_eq (h : Change m m') : m'.config = m.config := by
  cases h with
  | captured slot => simp
  | closeFrom start =>
    obtain ⟨cells, hm⟩ := Machine.closeFrom_machine start m
    rw [hm]
  | _ => rfl

theorem grows (h : Change m m') : m.heap.Grows m'.heap := by
  cases h with
  | withClosure code =>
    exact ⟨Nat.le.refl, by simp [Machine.withClosure, Heap.addClosure], Nat.le.refl⟩
  | captured slot =>
    refine ⟨by simp, by simp, ?_⟩
    unfold Machine.captured
    split
    · exact Nat.le.refl
    · simp [Heap.addCell]
  | withBinding index cell hpending =>
    exact ⟨Nat.le.refl, by simp [Machine.withBinding, Heap.bindSlot], Nat.le.refl⟩
  | rewritten value hr =>
    exact ⟨Nat.le.refl, Nat.le.refl, by simp [Machine.rewritten, Heap.setCell]⟩
  | closeFrom start =>
    have hsize := Machine.size_cells_closeFrom start m
    obtain ⟨cells, hm⟩ := Machine.closeFrom_machine start m
    rw [hm] at hsize ⊢
    exact ⟨Nat.le.refl, Nat.le.refl, Nat.le_of_eq hsize.symm⟩
  | install p => exact ⟨by simp [Machine.install], Nat.le.refl, Nat.le.refl⟩
  | _ => exact ⟨Nat.le.refl, Nat.le.refl, Nat.le.refl⟩

/-- A closure that exists keeps its code. -/
theorem codeOf_ok (h : Change m m') {closure : ClosureRef} {code : CodeObject}
    (hc : m.codeOf closure = .ok code) : m'.codeOf closure = .ok code := by
  obtain ⟨c, hclosure, hcode⟩ := Machine.codeOf_ok.mp hc
  have hlt : closure < m.heap.closures.size := (Array.getElem?_eq_some_iff.mp hclosure).1
  cases h with
  | withClosure code =>
    refine Machine.codeOf_ok.mpr ⟨c, ?_, hcode⟩
    show (m.heap.closures.push _)[closure]? = _
    rw [Array.getElem?_push, if_neg (Nat.ne_of_lt hlt), hclosure]
  | @withBinding bound index cell hpending =>
    by_cases heq : bound = closure
    · refine Machine.codeOf_ok.mpr ⟨c.bindSlot index.toNat cell, ?_, hcode⟩
      simp [Machine.withBinding, Heap.bindSlot, Array.getElem?_modify, heq, hclosure]
    · refine Machine.codeOf_ok.mpr ⟨c, ?_, hcode⟩
      simp [Machine.withBinding, Heap.bindSlot, Array.getElem?_modify, heq, hclosure]
  | install p =>
    refine Machine.codeOf_ok.mpr ⟨c, hclosure, ?_⟩
    show (m.heap.codes ++ p.codes)[c.code]? = _
    rw [Array.getElem?_append_left (Array.getElem?_eq_some_iff.mp hcode).1, hcode]
  | captured slot => exact Machine.codeOf_ok.mpr ⟨c, by simpa using hclosure, by simpa using hcode⟩
  | closeFrom start =>
    obtain ⟨cells, hm⟩ := Machine.closeFrom_machine start m
    rw [hm]
    exact hc
  | _ => exact hc

end Change

namespace Changes

variable {m m' : Machine}

theorem size_stack (h : Changes m m') : m'.stack.size = m.stack.size := by
  induction h with
  | refl => rfl
  | tail _ hc ih => rw [hc.size_stack, ih]

theorem config_eq (h : Changes m m') : m'.config = m.config := by
  induction h with
  | refl => rfl
  | tail _ hc ih => rw [hc.config_eq, ih]

theorem grows (h : Changes m m') : m.heap.Grows m'.heap := by
  induction h with
  | refl => exact ⟨Nat.le.refl, Nat.le.refl, Nat.le.refl⟩
  | tail _ hc ih => exact ih.trans hc.grows

theorem codeOf_ok (h : Changes m m') {closure : ClosureRef} {code : CodeObject}
    (hc : m.codeOf closure = .ok code) : m'.codeOf closure = .ok code := by
  induction h with
  | refl => exact hc
  | tail _ hstep ih => exact hstep.codeOf_ok ih

end Changes

-- ---------------------------------------------------------------------------
-- Every call makes a sequence of changes
-- ---------------------------------------------------------------------------

namespace Machine

variable {m m' : Machine} {w : Window} {closure : ClosureRef} {i : Instruction} {e : Fault}
  {report : Option Report}

theorem leave_changes (h : w.base < m.stack.size) : Changes m (m.leave w) := by
  unfold leave
  split
  · exact .tail (.single (.scrub h)) (.control _ _)
  · exact .single (.control m.frames.pop m.pending)

/-- Storing the result of a return and closing the cells of its frame. -/
theorem handOver_changes (value : Value) (h : w.base < m.stack.size) :
    Changes m (Outcome.machine (closeFrom w.base (m.store w.base value))) :=
  (Relation.ReflTransGen.single (.store value h)).tail (.closeFrom w.base)

theorem Executes.changes (h : Executes closure w m i report m') : Changes m m' := by
  cases h with
  | makeFunction hcode hslot =>
    have hs := (resolve_ok.mp hslot).2.2
    exact ((Relation.ReflTransGen.single (.withClosure _)).tail (.store _ hs)).tail (.control _ _)
  | bind hpending hslot hbound =>
    exact (Relation.ReflTransGen.single (.captured _)).tail
      (.withBinding _ _ ((captured_pending ..).trans hpending))
  | @ret _ value _ m₁ hvalue hbase hclose =>
    have hclosed := handOver_changes value hbase
    rw [hclose] at hclosed
    obtain ⟨cells, hm⟩ := closeFrom_ok hclose
    have hb : w.base < m₁.stack.size := by simpa [hm] using hbase
    exact hclosed.trans (leave_changes hb)
  | setClosed hvalue hcell =>
    obtain ⟨c, -, -, hr⟩ := cellOf_ok.mp hcell
    exact .single (.rewritten _ hr)
  | setOpened hvalue hcell hslot => exact .single (.store _ hslot)
  | call hcallee hbase hdepth hcode hfit =>
    exact (Relation.ReflTransGen.single (.reserve hfit)).tail (.control _ _)
  | halt => exact .refl
  | add hx hy hslot => exact .single (.store _ (resolve_ok.mp hslot).2.2)
  | getUpvalue hvalue hslot => exact .single (.store _ (resolve_ok.mp hslot).2.2)
  | loadConstant hslot => exact .single (.store _ (resolve_ok.mp hslot).2.2)
  | copy hvalue hslot => exact .single (.store _ (resolve_ok.mp hslot).2.2)

theorem Faults.changes (h : Faults closure w m i e m') : Changes m m' := by
  cases h with
  | closureRegister hcode hslot => exact .single (.withClosure _)
  | bindMissing hpending hslot hmissing => exact .single (.captured _)
  | @closing _ value _ _ hvalue hclose =>
    obtain ⟨slot, hslot, -⟩ := register_ok.mp hvalue
    have hclosed := handOver_changes value (resolve_ok.mp (resolve_zero hslot)).2.2
    rw [hclose] at hclosed
    exact hclosed
  | _ => exact .refl

/-- A step does nothing, or advances the top frame and then succeeds or fails in the
instruction fetched. -/
theorem request_step_cases (m : Machine) :
    m.request .step = m ∨ ∃ f, m.fetch = .ok f ∧
      ((∃ report, Executes f.frame.closure f.window (m.advance f) f.instruction report
          (m.request .step)) ∨
        ∃ e, Faults f.frame.closure f.window (m.advance f) f.instruction e (m.request .step)) := by
  simp only [request]
  cases hs : step m with
  | ok report m' =>
    obtain ⟨f, hf, hx⟩ := step_ok hs
    exact .inr ⟨f, hf, .inl ⟨report, hx⟩⟩
  | error e m' =>
    rcases step_error hs with ⟨-, rfl⟩ | ⟨f, hf, hx⟩
    · exact .inl rfl
    · exact .inr ⟨f, hf, .inr ⟨e, hx⟩⟩

theorem execute_changes (closure : ClosureRef) (w : Window) (i : Instruction) :
    Op.Ensures (execute closure w i) Changes := by
  intro m
  cases h : execute closure w i m with
  | ok report m' => exact (execute_ok h).changes
  | error e m' => exact (execute_error h).changes

theorem step_changes : Op.Ensures step Changes := by
  intro m
  unfold step
  cases m.fetch with
  | error e => exact .refl
  | ok f => exact .trans (.single (.control _ _)) (execute_changes _ _ _ (m.advance f))

theorem closeFrom_changes (start : Nat) : Op.Ensures (closeFrom start) Changes :=
  fun _ => .single (.closeFrom start)

theorem reset_changes : Op.Ensures reset Changes :=
  .bind (fun _ _ _ => .trans) (closeFrom_changes 0) fun _ => fun _ => .single .clear

theorem pushFrame_changes (closure : ClosureRef) (base : Nat) :
    Op.Ensures (pushFrame closure base) Changes := by
  intro m
  cases h : pushFrame closure base m with
  | ok u m' =>
    obtain ⟨v, hv, rfl⟩ := pushFrame_ok.mp h
    obtain ⟨-, code, -, -, hfit⟩ := windowFor_ok.mp hv
    exact (Relation.ReflTransGen.single (.reserve hfit)).tail (.control _ _)
  | error e m' =>
    obtain ⟨-, rfl⟩ := pushFrame_error.mp h
    exact .refl

theorem addClosure_changes (code : CodeRef) : Op.Ensures (addClosure code) Changes :=
  fun _ => .single (.withClosure code)

/-- Clearing a machine, installing a program on it and making the entry closure. -/
theorem staged_changes (m : Machine) (p : Program) : Changes m (m.staged p) :=
  ((Relation.ReflTransGen.single .clear).tail (.install p)).tail (.withClosure _)

theorem load_changes (p : Program) : Op.Ensures (load p) Changes := by
  have htrans : ∀ a b c : Machine, Changes a b → Changes b c → Changes a c := fun _ _ _ => .trans
  by_cases h : p.codes.size ≤ p.entry.toNat
  · intro m
    rw [load_of_size_le h]
    exact .refl
  · rw [load_of_entry_lt (Nat.lt_of_not_le h)]
    exact .bind htrans reset_changes fun _ =>
      .bind htrans (fun _ => .single (.install p)) fun _ =>
      .bind htrans (.ask (fun _ => .refl) _) fun code =>
      .bind htrans (addClosure_changes code) fun closure =>
      .bind htrans (pushFrame_changes closure 0) fun _ => .pure (fun _ => .refl) _

/-- A reset closes every cell, which may fail, and then clears the machine. -/
theorem request_reset_cases (m : Machine) :
    let closed := Outcome.machine (closeFrom 0 m)
    m.request .reset = closed ∨ m.request .reset = closed.clear := by
  simp only [request, reset, Op.bind_apply]
  cases closeFrom 0 m with
  | ok n m₁ => exact .inr rfl
  | error e m₁ => exact .inl rfl

/-- A program whose entry does not exist changes nothing. For any other every cell is closed,
which may fail; then it is staged, and its entry frame is pushed if there is room for it. -/
theorem request_load_cases (m : Machine) (p : Program) :
    p.codes.size ≤ p.entry.toNat ∧ m.request (.load p) = m ∨
      let closed := Outcome.machine (closeFrom 0 m)
      p.entry.toNat < p.codes.size ∧
        (m.request (.load p) = closed ∨ m.request (.load p) = closed.staged p ∨
          ∃ code, (closed.staged p).codeOf closed.heap.nextClosure = .ok code ∧
            0 < m.config.maxFrames ∧ code.stackSize.toNat ≤ m.stack.size ∧
            m.request (.load p) =
              (closed.staged p).entered closed.heap.nextClosure 0 code.stackSize.toNat) := by
  by_cases hentry : p.entry.toNat < p.codes.size
  · refine .inr ⟨hentry, ?_⟩
    cases hc : closeFrom 0 m with
    | error e m₁ => exact .inl (by simp [request, load_of_not_closed hc hentry])
    | ok n m₁ =>
      obtain ⟨cells, rfl⟩ := closeFrom_ok hc
      simp only [request, load_of_closed hc hentry, Op.bind_apply, Outcome.machine_ok]
      refine .inr ?_
      split
      · next hp =>
        obtain ⟨v, hv, rfl⟩ := pushFrame_ok.mp hp
        obtain ⟨hdepth, code, hcode, rfl, hfit⟩ := windowFor_ok.mp hv
        refine .inr ⟨code, hcode, Nat.zero_lt_of_lt hdepth, ?_, by simp [Window.finish]⟩
        rw [size_staged] at hfit
        simpa [Window.finish] using hfit
      · next hp =>
        obtain ⟨-, rfl⟩ := pushFrame_error.mp hp
        exact .inl rfl
  · have hsize := Nat.le_of_not_lt hentry
    exact .inl ⟨hsize, by simp [request, load_of_size_le hsize]⟩

theorem request_changes (m : Machine) (r : Request) : Changes m (m.request r) := by
  cases r with
  | load p => exact load_changes p m
  | step => exact step_changes m
  | interpret =>
    exact interpret_keeps (fun m₁ h => h.trans (step_changes m₁)) m .refl
  | reset => exact reset_changes m

theorem stepped_changes (m : Machine) (n : Nat) : Changes m (m.stepped n) := by
  induction n with
  | zero => exact .refl
  | succ n ih => exact ih.trans (step_changes _)

theorem stepped_grows (m : Machine) {n k : Nat} (h : n ≤ k) :
    (m.stepped n).heap.Grows (m.stepped k).heap := by
  obtain ⟨d, rfl⟩ := Nat.exists_eq_add_of_le h
  rw [stepped_add]
  exact (stepped_changes _ d).grows

theorem setRegister_changes (w : Window) (reg : UInt8) (value : Value) :
    Op.Ensures (setRegister w reg value) Changes := by
  intro m
  cases h : setRegister w reg value m with
  | ok u m' =>
    obtain ⟨slot, hslot, rfl⟩ := setRegister_ok.mp h
    exact .single (.store value (resolve_ok.mp hslot).2.2)
  | error e m' =>
    obtain ⟨-, rfl⟩ := setRegister_error.mp h
    exact .refl

theorem setUpvalue_changes (closure : ClosureRef) (index : UInt8) (value : Value) :
    Op.Ensures (setUpvalue closure index value) Changes := by
  intro m
  cases h : setUpvalue closure index value m with
  | ok u m' =>
    rcases setUpvalue_ok.mp h with ⟨r, old, hcell, rfl⟩ | ⟨r, slot, hcell, hslot, rfl⟩
    · obtain ⟨c, -, -, hr⟩ := cellOf_ok.mp hcell
      exact .single (.rewritten value hr)
    · exact .single (.store value hslot)
  | error e m' =>
    obtain ⟨-, rfl⟩ := setUpvalue_error.mp h
    exact .refl

theorem handle_changes (m : Machine) (c : Handler) : Changes m (m.handle c) := by
  cases c with
  | getRegister w reg => exact Op.Ensures.ask (fun _ => .refl) _ m
  | setRegister w reg value => exact setRegister_changes w reg value m
  | makeFunction w target index =>
    have h := execute_changes 0 w (.makeFunction target index) m
    simp only [execute, machine_then_none] at h
    exact h
  | bindUpvalue w index offset =>
    have h := execute_changes 0 w (.bind index offset) m
    simp only [execute, machine_then_none] at h
    exact h
  | addRegisters w target left right =>
    have h := execute_changes 0 w (.add target left right) m
    simp only [execute, machine_then_none] at h
    exact h
  | call w function argBase =>
    have h := execute_changes 0 w (.call function argBase 0) m
    simp only [execute, machine_then_none] at h
    exact h
  | returnFrom w result => exact execute_changes 0 w (.ret result) m
  | getUpvalue closure index => exact Op.Ensures.ask (fun _ => .refl) _ m
  | setUpvalue closure index value => exact setUpvalue_changes closure index value m
  | capture slot =>
    simp only [handle, capture_eq]
    exact .single (.captured slot)
  | closeFrom start => exact closeFrom_changes start m

end Machine

/-- What holds of a new machine and is kept by every elementary change holds in every
session. -/
theorem Handled.invariant {config : Config} {I : Machine → Prop} (hnew : I (.ofConfig config))
    (hchange : ∀ {m m'}, Change m m' → I m → I m') {m : Machine} (h : Handled config m) : I m := by
  have hchanges : ∀ {m m'}, Changes m m' → I m → I m' := by
    intro m m' hc hm
    induction hc with
    | refl => exact hm
    | tail _ hstep ih => exact hchange hstep ih
  induction h with
  | new => exact hnew
  | request r _ ih => exact hchanges (Machine.request_changes _ r) ih
  | handle c _ ih => exact hchanges (Machine.handle_changes _ c) ih

theorem Handled.config_eq {config : Config} {m : Machine} (h : Handled config m) :
    m.config = config :=
  h.invariant (I := fun m => m.config = config) rfl fun hc hm => hc.config_eq.trans hm

end ClosureMachine

import ClosureMachine.Machine.Work
import ClosureMachine.Proofs.OperationLaws

/-!
# What steps do

`Executes` lists what each instruction does when it succeeds, and `Faults` how an
instruction can fail, with the machine it leaves behind. `step_ok` and `step_error` read
every step as a case of one of the two. Proofs about steps go by these cases.
-/

namespace ClosureMachine

namespace Machine

/-- What an instruction of `closure` does in window `w` when it succeeds: the report that it
stops the machine with, if any, and the machine that it leaves behind. -/
inductive Executes (closure : ClosureRef) (w : Window) (m : Machine) :
    Instruction → Option Report → Machine → Prop
  | makeFunction {target : UInt8} {index : UInt16} {code : CodeRef} {slot : Nat}
      (hcode : m.prototypes[index.toNat]? = some code) (hslot : m.resolve w target = .ok slot) :
      Executes closure w m (.makeFunction target index) none
        { (m.withClosure code).store slot (.function m.heap.nextClosure) with
          pending := some m.heap.nextClosure }
  | bind {index offset : UInt8} {pending : ClosureRef} {slot : Nat}
      (hpending : m.pending = some pending) (hslot : w.slot offset = .ok slot)
      (hbound : pending < m.heap.closures.size) :
      Executes closure w m (.bind index offset) none
        ((m.captured slot).withBinding pending index (m.cellFor slot))
  | add {target left right : UInt8} {x y : Number} {slot : Nat}
      (hx : m.register w left = .ok (.number x)) (hy : m.register w right = .ok (.number y))
      (hslot : m.resolve w target = .ok slot) :
      Executes closure w m (.add target left right) none (m.store slot (.number (x.add y)))
  | ret {result : UInt8} {value : Value} {n : Nat} {m₁ : Machine}
      (hvalue : m.register w result = .ok value) (hbase : w.base < m.stack.size)
      (hclose : closeFrom w.base (m.store w.base value) = .ok n m₁) :
      Executes closure w m (.ret result)
        (if m.depth = 1 then some (m₁.snapshot .entryReturn w) else none) (m₁.leave w)
  | getUpvalue {target index : UInt8} {value : Value} {slot : Nat}
      (hvalue : m.upvalue closure index = .ok value) (hslot : m.resolve w target = .ok slot) :
      Executes closure w m (.getUpvalue target index) none (m.store slot value)
  | setClosed {source index : UInt8} {value old : Value} {r : CellRef}
      (hvalue : m.register w source = .ok value)
      (hcell : m.cellOf closure index = .ok (r, .closed old)) :
      Executes closure w m (.setUpvalue source index) none (m.rewritten r value)
  | setOpened {source index : UInt8} {value : Value} {r : CellRef} {slot : Nat}
      (hvalue : m.register w source = .ok value)
      (hcell : m.cellOf closure index = .ok (r, .opened slot)) (hslot : slot < m.stack.size) :
      Executes closure w m (.setUpvalue source index) none (m.store slot value)
  | loadConstant {target : UInt8} {value : Number} {slot : Nat}
      (hslot : m.resolve w target = .ok slot) :
      Executes closure w m (.loadConstant target value) none (m.store slot (.number value))
  | call {function argBase count : UInt8} {callee : ClosureRef} {base : Nat} {code : CodeObject}
      (hcallee : m.register w function = .ok (.function callee))
      (hbase : w.slot argBase = .ok base) (hdepth : m.depth < m.config.maxFrames)
      (hcode : m.codeOf callee = .ok code)
      (hfit : base + code.stackSize.toNat ≤ m.stack.size) :
      Executes closure w m (.call function argBase count) none
        (m.entered callee base (base + code.stackSize.toNat))
  | copy {target source : UInt8} {value : Value} {slot : Nat}
      (hvalue : m.register w source = .ok value) (hslot : m.resolve w target = .ok slot) :
      Executes closure w m (.copy target source) none (m.store slot value)
  | halt : Executes closure w m .halt (some (m.snapshot .halt w)) m

/-- How an instruction of `closure` fails in window `w`, with the machine left behind. -/
inductive Faults (closure : ClosureRef) (w : Window) (m : Machine) :
    Instruction → Fault → Machine → Prop
  /-- A register of the instruction lies outside the window or the stack. -/
  | register {i : Instruction} {reg : UInt8} {e : Fault} (hreg : reg ∈ i.registers)
      (h : m.resolve w reg = .error e) : Faults closure w m i e m
  | unknownPrototype {target : UInt8} {index : UInt16}
      (h : m.prototypes[index.toNat]? = none) :
      Faults closure w m (.makeFunction target index)
        (.malformed (.unknownPrototype index m.prototypes.size)) m
  /-- The closure is there already when its register turns out to be unusable. -/
  | closureRegister {target : UInt8} {index : UInt16} {code : CodeRef} {e : Fault}
      (hcode : m.prototypes[index.toNat]? = some code) (h : m.resolve w target = .error e) :
      Faults closure w m (.makeFunction target index) e (m.withClosure code)
  | orphanBind {index offset : UInt8} (h : m.pending = none) :
      Faults closure w m (.bind index offset) (.malformed .orphanBind) m
  | bindMissing {index offset : UInt8} {pending : ClosureRef} {slot : Nat}
      (hpending : m.pending = some pending) (hslot : w.slot offset = .ok slot)
      (h : m.heap.closures.size ≤ pending) :
      Faults closure w m (.bind index offset) (.functionNotFound pending) (m.captured slot)
  | add {target left right : UInt8} {x y : Value} {e : Fault} (hx : m.register w left = .ok x)
      (hy : m.register w right = .ok y) (h : x.add y = .error e) :
      Faults closure w m (.add target left right) e m
  | closing {result : UInt8} {value : Value} {e : Fault} {m₁ : Machine}
      (hvalue : m.register w result = .ok value)
      (h : closeFrom w.base (m.store w.base value) = .error e m₁) :
      Faults closure w m (.ret result) e m₁
  | getUpvalue {target index : UInt8} {e : Fault} (h : m.upvalue closure index = .error e) :
      Faults closure w m (.getUpvalue target index) e m
  | setUpvalue {source index : UInt8} {e : Fault} (h : m.upvalue closure index = .error e) :
      Faults closure w m (.setUpvalue source index) e m
  | notFunction {function argBase count : UInt8} {value : Value}
      (hvalue : m.register w function = .ok value) (h : value.kind ≠ .function) :
      Faults closure w m (.call function argBase count) (.typeMismatch .call .function value.kind) m
  | callWindow {function argBase count : UInt8} {callee : ClosureRef} {base : Nat} {e : Fault}
      (hcallee : m.register w function = .ok (.function callee))
      (hbase : w.slot argBase = .ok base) (h : m.windowFor callee base = .error e) :
      Faults closure w m (.call function argBase count) e m

variable {m m' : Machine} {w : Window} {closure : ClosureRef} {i : Instruction} {e : Fault}
  {report : Option Report}

theorem resolve_of_slot_error {reg : UInt8} (h : w.slot reg = .error e) :
    m.resolve w reg = .error e := by
  simp [resolve, h]

/-- Once the result of a return could be read, register 0 can be written. -/
theorem resolve_zero {reg : UInt8} {slot : Nat} (h : m.resolve w reg = .ok slot) :
    m.resolve w 0 = .ok w.base := by
  obtain ⟨hreg, rfl, hslot⟩ := resolve_ok.mp h
  refine resolve_ok.mpr ⟨?_, ?_, ?_⟩
  · have : (0 : UInt8).toNat = 0 := rfl
    omega
  · rfl
  · omega

theorem value_add_ok {x y v : Value} (h : x.add y = .ok v) :
    ∃ a b, x = .number a ∧ y = .number b ∧ v = .number (a.add b) := by
  cases x <;> cases y <;> simp [Value.add] at h
  exact ⟨_, _, rfl, rfl, h.symm⟩

theorem value_add_error {x y : Value} (h : x.add y = .error e) :
    ∃ found, found ≠ .number ∧ e = .typeMismatch .add .number found := by
  cases x <;> cases y <;> simp [Value.add] at h <;> exact ⟨_, by simp [Value.kind], h.symm⟩

theorem execute_ok (h : execute closure w i m = .ok report m') :
    Executes closure w m i report m' := by
  cases i with
  | makeFunction target index =>
    simp only [execute, makeFunction, Op.bind_ok, Op.ask_ok, Op.pure_ok, Op.modify_ok,
      addClosure_eq, setRegister_ok, prototype_ok, EStateM.Result.ok.injEq] at h
    obtain ⟨_, _, ⟨code, _, ⟨hcode, rfl⟩, _, _, ⟨rfl, rfl⟩, _, _, ⟨slot, hslot, rfl⟩, rfl⟩,
      rfl, rfl⟩ := h
    exact .makeFunction hcode hslot
  | bind index offset =>
    simp only [execute, bindUpvalue, Op.bind_ok, Op.ask_ok, Op.pure_ok, pendingClosure_ok,
      capture_eq, bindSlot_ok, EStateM.Result.ok.injEq] at h
    obtain ⟨_, _, ⟨pending, _, ⟨hp, rfl⟩, slot, _, ⟨hslot, rfl⟩, _, _, ⟨rfl, rfl⟩, hb, rfl⟩,
      rfl, rfl⟩ := h
    exact .bind hp hslot (by simpa using hb)
  | add target left right =>
    simp only [execute, addRegisters, Op.bind_ok, Op.ask_ok, Op.pure_ok, getRegister_ok,
      setRegister_ok] at h
    obtain ⟨_, _, ⟨x, _, ⟨hx, rfl⟩, y, _, ⟨hy, rfl⟩, v, _, ⟨hv, rfl⟩, slot, hslot, rfl⟩,
      rfl, rfl⟩ := h
    obtain ⟨a, b, rfl, rfl, rfl⟩ := value_add_ok hv
    exact .add hx hy hslot
  | ret result =>
    simp only [execute, returnFrom, handOver, Op.bind_ok, getRegister_ok, setRegister_ok,
      popFrame_eq, EStateM.Result.ok.injEq] at h
    obtain ⟨n, m₁, ⟨value, _, ⟨hvalue, rfl⟩, _, _, ⟨slot, hslot, rfl⟩, hclose⟩, rfl, rfl⟩ := h
    obtain ⟨s, hs, -⟩ := register_ok.mp hvalue
    obtain rfl : w.base = slot := by simpa [resolve_zero hs] using hslot
    have hdepth : m₁.depth = m.depth := by
      have hk := closeFrom_keepsControl w.base (m.store w.base value)
      rw [hclose] at hk
      exact congrArg Array.size hk.frames
    rw [hdepth]
    exact .ret hvalue (resolve_ok.mp hslot).2.2 hclose
  | getUpvalue target index =>
    simp only [execute, getUpvalue, Op.bind_ok, Op.ask_ok, Op.pure_ok, setRegister_ok] at h
    obtain ⟨value, _, ⟨hvalue, rfl⟩, _, _, ⟨slot, hslot, rfl⟩, rfl, rfl⟩ := h
    exact .getUpvalue hvalue hslot
  | setUpvalue source index =>
    simp only [execute, Op.bind_ok, Op.pure_ok, getRegister_ok, setUpvalue_ok] at h
    obtain ⟨value, _, ⟨hvalue, rfl⟩, _, _, hset, rfl, rfl⟩ := h
    rcases hset with ⟨r, old, hcell, rfl⟩ | ⟨r, slot, hcell, hslot, rfl⟩
    · exact .setClosed hvalue hcell
    · exact .setOpened hvalue hcell hslot
  | loadConstant target value =>
    simp only [execute, Op.bind_ok, Op.pure_ok, setRegister_ok] at h
    obtain ⟨_, _, ⟨slot, hslot, rfl⟩, rfl, rfl⟩ := h
    exact .loadConstant hslot
  | call function argBase count =>
    simp only [execute, call, Op.bind_ok, Op.ask_ok, Op.pure_ok, pushFrame_ok, windowFor_ok] at h
    obtain ⟨_, _, ⟨⟨callee, base⟩, _, ⟨hc, rfl⟩, v, ⟨hdepth, code, hcode, rfl, hfit⟩, rfl⟩,
      rfl, rfl⟩ := h
    obtain ⟨hcallee, hbase⟩ := callee_ok.mp hc
    exact .call hcallee hbase hdepth hcode hfit
  | copy target source =>
    simp only [execute, copyRegister, Op.bind_ok, Op.pure_ok, getRegister_ok, setRegister_ok] at h
    obtain ⟨_, _, ⟨value, _, ⟨hvalue, rfl⟩, slot, hslot, rfl⟩, rfl, rfl⟩ := h
    exact .copy hvalue hslot
  | halt =>
    simp only [execute, EStateM.Result.ok.injEq] at h
    obtain ⟨rfl, rfl⟩ := h
    exact .halt

/-- The cases of `Executes` say all that is needed to succeed. -/
theorem Executes.execute_eq (h : Executes closure w m i report m') :
    execute closure w i m = .ok report m' := by
  cases h with
  | makeFunction hcode hslot =>
    refine Op.bind_of_ok (a := ()) ?_ rfl
    refine Op.bind_of_ok (Op.ask_ok.mpr ⟨prototype_ok.mpr hcode, rfl⟩) ?_
    refine Op.bind_of_ok (addClosure_eq _) ?_
    exact Op.bind_of_ok (a := ()) (setRegister_ok.mpr ⟨_, hslot, rfl⟩) rfl
  | bind hpending hslot hbound =>
    refine Op.bind_of_ok (a := ()) ?_ rfl
    refine Op.bind_of_ok (Op.ask_ok.mpr ⟨pendingClosure_ok.mpr hpending, rfl⟩) ?_
    refine Op.bind_of_ok (Op.ask_ok.mpr ⟨hslot, rfl⟩) (Op.bind_of_ok (capture_eq _) ?_)
    exact bindSlot_ok.mpr ⟨by simpa using hbound, rfl⟩
  | add hx hy hslot =>
    refine Op.bind_of_ok (a := ()) (Op.bind_of_ok (getRegister_ok.mpr ⟨hx, rfl⟩) ?_) rfl
    refine Op.bind_of_ok (getRegister_ok.mpr ⟨hy, rfl⟩) ?_
    exact Op.bind_of_ok (Op.ask_ok.mpr ⟨rfl, rfl⟩) (setRegister_ok.mpr ⟨_, hslot, rfl⟩)
  | @ret result value n m₁ hvalue hbase hclose =>
    obtain ⟨slot, hslot, -⟩ := register_ok.mp hvalue
    have hdepth : m₁.depth = m.depth := by
      obtain ⟨cells, rfl⟩ := closeFrom_ok hclose
      rfl
    have hstored : setRegister w 0 value m = .ok () (m.store w.base value) :=
      setRegister_ok.mpr ⟨_, resolve_zero hslot, rfl⟩
    have hgiven : handOver w result m = .ok n m₁ :=
      Op.bind_of_ok (getRegister_ok.mpr ⟨hvalue, rfl⟩) (Op.bind_of_ok hstored hclose)
    refine Op.bind_of_ok hgiven ?_
    rw [popFrame_eq, hdepth]
  | getUpvalue hvalue hslot =>
    refine Op.bind_of_ok (Op.ask_ok.mpr ⟨hvalue, rfl⟩) ?_
    exact Op.bind_of_ok (a := ()) (setRegister_ok.mpr ⟨_, hslot, rfl⟩) rfl
  | setClosed hvalue hcell =>
    refine Op.bind_of_ok (getRegister_ok.mpr ⟨hvalue, rfl⟩) ?_
    exact Op.bind_of_ok (a := ()) (setUpvalue_ok.mpr (.inl ⟨_, _, hcell, rfl⟩)) rfl
  | setOpened hvalue hcell hslot =>
    refine Op.bind_of_ok (getRegister_ok.mpr ⟨hvalue, rfl⟩) ?_
    exact Op.bind_of_ok (a := ()) (setUpvalue_ok.mpr (.inr ⟨_, _, hcell, hslot, rfl⟩)) rfl
  | loadConstant hslot => exact Op.bind_of_ok (a := ()) (setRegister_ok.mpr ⟨_, hslot, rfl⟩) rfl
  | @call _ _ _ callee base code hcallee hbase hdepth hcode hfit =>
    have hwindow : m.windowFor callee base = .ok ⟨base, code.stackSize.toNat⟩ :=
      windowFor_ok.mpr ⟨hdepth, code, hcode, rfl, hfit⟩
    refine Op.bind_of_ok (a := ()) ?_ rfl
    refine Op.bind_of_ok (Op.ask_ok.mpr ⟨callee_ok.mpr ⟨hcallee, hbase⟩, rfl⟩) ?_
    exact pushFrame_ok.mpr ⟨_, hwindow, rfl⟩
  | copy hvalue hslot =>
    refine Op.bind_of_ok (a := ()) (Op.bind_of_ok (getRegister_ok.mpr ⟨hvalue, rfl⟩) ?_) rfl
    exact setRegister_ok.mpr ⟨_, hslot, rfl⟩
  | halt => rfl

theorem callee_faults {function argBase count : UInt8}
    (h : m.callee w function argBase = .error e) :
    Faults closure w m (.call function argBase count) e m := by
  unfold callee at h
  split at h
  · next hr =>
    obtain rfl := Except.error.inj h
    exact .register (by simp [Instruction.registers]) (register_error.mp hr)
  · next callee hr =>
    split at h
    · next hs =>
      obtain rfl := Except.error.inj h
      exact .register (by simp [Instruction.registers]) (resolve_of_slot_error hs)
    · simp at h
  · next v hv hr =>
    obtain rfl := Except.error.inj h
    exact .notFunction hr (by cases v <;> simp_all [Value.kind])

theorem execute_error (h : execute closure w i m = .error e m') : Faults closure w m i e m' := by
  cases i with
  | makeFunction target index =>
    simp only [execute, Op.bind_error, Op.pure_error, makeFunction_error, and_false, exists_false,
      or_false] at h
    rcases h with ⟨hcode, rfl⟩ | ⟨code, hcode, hslot, rfl⟩
    · obtain ⟨hnone, rfl⟩ := prototype_error.mp hcode
      exact .unknownPrototype hnone
    · exact .closureRegister hcode hslot
  | bind index offset =>
    simp only [execute, bindUpvalue, Op.bind_error, Op.ask_error, Op.ask_ok, Op.pure_error,
      pendingClosure_ok, capture_eq, bindSlot_error, EStateM.Result.ok.injEq, reduceCtorEq,
      and_false, exists_false, or_false, false_or] at h
    rcases h with ⟨hp, rfl⟩ | ⟨pending, _, ⟨hp, rfl⟩, hrest⟩
    · unfold pendingClosure at hp
      split at hp
      · simp at hp
      · next hnone =>
        obtain rfl := Except.error.inj hp
        exact .orphanBind hnone
    · rcases hrest with ⟨hslot, rfl⟩ | ⟨slot, _, ⟨hslot, rfl⟩, _, _, ⟨rfl, rfl⟩, hb, rfl, rfl⟩
      · exact .register (by simp [Instruction.registers]) (resolve_of_slot_error hslot)
      · exact .bindMissing hp hslot (by simpa using hb)
  | add target left right =>
    simp only [execute, addRegisters, Op.bind_error, Op.ask_error, Op.ask_ok, Op.pure_error,
      getRegister_error, getRegister_ok, setRegister_error, and_false, exists_false, or_false] at h
    rcases h with ⟨hx, rfl⟩ | ⟨x, _, ⟨hx, rfl⟩, ⟨hy, rfl⟩ | ⟨y, _, ⟨hy, rfl⟩, hrest⟩⟩
    · exact .register (by simp [Instruction.registers]) (register_error.mp hx)
    · exact .register (by simp [Instruction.registers]) (register_error.mp hy)
    · rcases hrest with ⟨hv, rfl⟩ | ⟨v, _, ⟨-, rfl⟩, hslot, rfl⟩
      · exact .add hx hy hv
      · exact .register (by simp [Instruction.registers]) hslot
  | ret result =>
    simp only [execute, returnFrom, handOver, Op.bind_error, Op.bind_ok, getRegister_error,
      getRegister_ok, setRegister_error, setRegister_ok, popFrame_eq, reduceCtorEq, and_false,
      exists_false, or_false] at h
    rcases h with ⟨hvalue, rfl⟩ | ⟨value, _, ⟨hvalue, rfl⟩, hrest⟩
    · exact .register (by simp [Instruction.registers]) (register_error.mp hvalue)
    · obtain ⟨s, hs, -⟩ := register_ok.mp hvalue
      rcases hrest with ⟨hslot, -⟩ | ⟨_, _, ⟨slot, hslot, rfl⟩, hclose⟩
      · simp [resolve_zero hs] at hslot
      · obtain rfl : w.base = slot := by simpa [resolve_zero hs] using hslot
        exact .closing hvalue hclose
  | getUpvalue target index =>
    simp only [execute, getUpvalue, Op.bind_error, Op.ask_error, Op.ask_ok, Op.pure_error,
      setRegister_error, and_false, exists_false, or_false] at h
    rcases h with ⟨hvalue, rfl⟩ | ⟨value, _, ⟨-, rfl⟩, hslot, rfl⟩
    · exact .getUpvalue hvalue
    · exact .register (by simp [Instruction.registers]) hslot
  | setUpvalue source index =>
    simp only [execute, Op.bind_error, Op.pure_error, getRegister_error, getRegister_ok,
      setUpvalue_error, and_false, exists_false, or_false] at h
    rcases h with ⟨hvalue, rfl⟩ | ⟨value, _, ⟨-, rfl⟩, hcell, rfl⟩
    · exact .register (by simp [Instruction.registers]) (register_error.mp hvalue)
    · exact .setUpvalue hcell
  | loadConstant target value =>
    simp only [execute, Op.bind_error, Op.pure_error, setRegister_error, and_false, exists_false,
      or_false] at h
    obtain ⟨hslot, rfl⟩ := h
    exact .register (by simp [Instruction.registers]) hslot
  | call function argBase count =>
    simp only [execute, call, Op.bind_error, Op.ask_error, Op.ask_ok, Op.pure_error,
      pushFrame_error, and_false, exists_false, or_false] at h
    rcases h with ⟨hc, rfl⟩ | ⟨⟨callee, base⟩, _, ⟨hc, rfl⟩, hw, rfl⟩
    · exact callee_faults hc
    · obtain ⟨hcallee, hbase⟩ := callee_ok.mp hc
      exact .callWindow hcallee hbase hw
  | copy target source =>
    simp only [execute, copyRegister, Op.bind_error, Op.pure_error, getRegister_error,
      getRegister_ok, setRegister_error, and_false, exists_false, or_false] at h
    rcases h with ⟨hvalue, rfl⟩ | ⟨value, _, ⟨-, rfl⟩, hslot, rfl⟩
    · exact .register (by simp [Instruction.registers]) (register_error.mp hvalue)
    · exact .register (by simp [Instruction.registers]) hslot
  | halt => simp [execute] at h

-- ---------------------------------------------------------------------------
-- Fetching
-- ---------------------------------------------------------------------------

section Advance

variable (m : Machine) (f : Fetched)

@[simp] theorem advance_heap : (m.advance f).heap = m.heap := rfl
@[simp] theorem advance_stack : (m.advance f).stack = m.stack := rfl
@[simp] theorem advance_config : (m.advance f).config = m.config := rfl
@[simp] theorem advance_prototypes : (m.advance f).prototypes = m.prototypes := rfl
@[simp] theorem advance_openCells : (m.advance f).openCells = m.openCells := rfl
@[simp] theorem advance_highWater : (m.advance f).highWater = m.highWater := rfl

end Advance

theorem fetch_eq {frames : Array Frame} {frame : Frame} {code : CodeObject}
    (hframes : m.frames = frames.push frame) (hcode : m.codeOf frame.closure = .ok code)
    (hi : code.instructions[frame.ip]? = some i) :
    m.fetch = .ok ⟨frame, ⟨frame.base, code.stackSize.toNat⟩, i⟩ := by
  simp [fetch, hframes, hcode, hi]

/-- A fetched instruction is the next one of the top frame, in the code of its closure. -/
theorem fetch_ok {f : Fetched} (h : m.fetch = .ok f) :
    ∃ code, m.frames.back? = some f.frame ∧ m.codeOf f.frame.closure = .ok code ∧
      f.window = ⟨f.frame.base, code.stackSize.toNat⟩ ∧
      code.instructions[f.frame.ip]? = some f.instruction := by
  unfold fetch at h
  split at h
  · simp at h
  · next frame hb =>
    split at h
    · simp at h
    · next code hc =>
      split at h
      · simp at h
      · next i hi =>
        obtain rfl := Except.ok.inj h
        exact ⟨code, hb, hc, rfl, hi⟩

theorem advance_depth {f : Fetched} (h : m.fetch = .ok f) : (m.advance f).depth = m.depth := by
  obtain ⟨code, hback, -⟩ := fetch_ok h
  have hframes := congrArg Array.size (frames_eq_push hback)
  rw [Array.size_push] at hframes
  simp only [depth, advance, Array.size_push]
  exact hframes.symm

theorem fetch_error (h : m.fetch = .error e) :
    (m.frames.back? = none ∧ e = .malformed .noActiveFrame) ∨
      ∃ frame, m.frames.back? = some frame ∧
        (m.codeOf frame.closure = .error e ∨
          ∃ code, m.codeOf frame.closure = .ok code ∧ code.instructions[frame.ip]? = none ∧
            e = .malformed (.ranPastEnd code.name)) := by
  unfold fetch at h
  split at h
  · next hb => exact .inl ⟨hb, (Except.error.inj h).symm⟩
  · next frame hb =>
    refine .inr ⟨frame, hb, ?_⟩
    split at h
    · next hc =>
      obtain rfl := Except.error.inj h
      exact .inl hc
    · next code hc =>
      split at h
      · next hi => exact .inr ⟨code, hc, hi, (Except.error.inj h).symm⟩
      · simp at h

theorem step_ok (h : step m = .ok report m') :
    ∃ f, m.fetch = .ok f ∧
      Executes f.frame.closure f.window (m.advance f) f.instruction report m' := by
  unfold step at h
  cases hf : m.fetch with
  | error e => simp [hf] at h
  | ok f =>
    rw [hf] at h
    exact ⟨f, rfl, execute_ok h⟩

theorem Executes.step_eq {f : Fetched} (hf : m.fetch = .ok f)
    (hx : Executes f.frame.closure f.window (m.advance f) f.instruction report m') :
    step m = .ok report m' := by
  rw [step, hf]
  exact hx.execute_eq

theorem step_error (h : step m = .error e m') :
    (m.fetch = .error e ∧ m' = m) ∨ ∃ f, m.fetch = .ok f ∧
      Faults f.frame.closure f.window (m.advance f) f.instruction e m' := by
  unfold step at h
  cases hf : m.fetch with
  | error e =>
    simp only [hf, EStateM.Result.error.injEq] at h
    obtain ⟨rfl, rfl⟩ := h
    exact .inl ⟨rfl, rfl⟩
  | ok f =>
    rw [hf] at h
    exact .inr ⟨f, rfl, execute_error h⟩

end Machine

end ClosureMachine

import ClosureMachine.Proofs.CreationSites

/-!
# What the check refuses fails

The check asks of an instruction that its registers lie in the window, that its prototype exists
and that a `bind` follows a `makeFunction`. A machine asks for the same when it runs the
instruction, whatever code was loaded. For registers and prototypes this is read off the
instruction; for a `bind` it rests on the past: a closure is pending only while the running
frame goes on in a run of `bind`s (`Machine.PendingAtBind`).
-/

namespace ClosureMachine

namespace Machine

variable {config : Config} {m m' : Machine} {w : Window} {f : Fetched} {closure : ClosureRef}
  {i : Instruction} {e : Fault} {report : Option Report}

-- ---------------------------------------------------------------------------
-- What an instruction that succeeds has found
-- ---------------------------------------------------------------------------

theorem lt_of_resolve {reg : UInt8} {slot : Nat} (h : m.resolve w reg = .ok slot) :
    reg.toNat < w.size :=
  (resolve_ok.mp h).1

theorem lt_of_register {reg : UInt8} {value : Value} (h : m.register w reg = .ok value) :
    reg.toNat < w.size := by
  obtain ⟨slot, hslot, -⟩ := register_ok.mp h
  exact lt_of_resolve hslot

theorem Executes.registers_lt (h : Executes closure w m i report m') :
    ∀ reg ∈ i.registers, reg.toNat < w.size := by
  cases h with
  | makeFunction hcode hslot => simpa [Instruction.registers] using lt_of_resolve hslot
  | bind hpending hslot hbound =>
    simpa [Instruction.registers] using (Window.slot_ok.mp hslot).1
  | add hx hy hslot =>
    simp [Instruction.registers, lt_of_resolve hslot, lt_of_register hx, lt_of_register hy]
  | ret hvalue hbase hclose => simpa [Instruction.registers] using lt_of_register hvalue
  | getUpvalue hvalue hslot => simpa [Instruction.registers] using lt_of_resolve hslot
  | setClosed hvalue hcell => simpa [Instruction.registers] using lt_of_register hvalue
  | setOpened hvalue hcell hslot => simpa [Instruction.registers] using lt_of_register hvalue
  | loadConstant hslot => simpa [Instruction.registers] using lt_of_resolve hslot
  | call hcallee hbase hdepth hcode hfit =>
    simp [Instruction.registers, lt_of_register hcallee, (Window.slot_ok.mp hbase).1]
  | copy hvalue hslot =>
    simp [Instruction.registers, lt_of_resolve hslot, lt_of_register hvalue]
  | halt => simp [Instruction.registers]

theorem Executes.prototype_lt {target : UInt8} {index : UInt16}
    (h : Executes closure w m (.makeFunction target index) report m') :
    index.toNat < m.prototypes.size := by
  cases h with
  | makeFunction hcode hslot => exact (Array.getElem?_eq_some_iff.mp hcode).1

theorem Executes.pending_of_bind {index offset : UInt8}
    (h : Executes closure w m (.bind index offset) report m') :
    ∃ pending, m.pending = some pending := by
  cases h with
  | bind hpending hslot hbound => exact ⟨_, hpending⟩

-- ---------------------------------------------------------------------------
-- Where a closure is pending
-- ---------------------------------------------------------------------------

/-- While a closure is pending, the running frame goes on where a `bind` may stand. -/
def PendingAtBind (m : Machine) : Prop :=
  ∀ closure, m.pending = some closure → ∃ frame code, m.frames.back? = some frame ∧
    m.codeOf frame.closure = .ok code ∧ code.BindingAt frame.ip

theorem pendingAtBind_of_none (h : m.pending = none) : m.PendingAtBind := by
  intro closure hpending
  simp [h] at hpending

theorem PendingAtBind.of_changes (h : m.PendingAtBind) (hc : Changes m m')
    (hpending : m'.pending = m.pending) (hframes : m'.frames = m.frames) : m'.PendingAtBind := by
  intro closure hclosure
  obtain ⟨frame, code, hback, hcode, hbinding⟩ := h closure (hpending ▸ hclosure)
  exact ⟨frame, code, hframes ▸ hback, hc.codeOf_ok hcode, hbinding⟩

/-- Only a `bind` keeps a closure pending, and where a `bind` may stand, another may stand after
it. -/
theorem PendingAtBind.advance (h : m.PendingAtBind) (hf : m.fetch = .ok f) :
    (m.advance f).PendingAtBind := by
  intro closure hpending
  obtain ⟨hbefore, hbind⟩ := advance_pending hpending
  obtain ⟨code, hback, hcode, -, hi⟩ := fetch_ok hf
  obtain ⟨frame, code', hback', hcode', hbinding⟩ := h closure hbefore
  obtain rfl := Option.some.inj (hback.symm.trans hback')
  obtain rfl := Except.ok.inj (hcode.symm.trans hcode')
  refine ⟨_, code, Array.back?_push, hcode,
    (CodeObject.bindingAt_succ hi).mpr (.inr ⟨?_, hbinding⟩)⟩
  exact Instruction.isBind_iff.mp hbind

theorem PendingAtBind.executes (h : m.PendingAtBind) (hf : m.fetch = .ok f)
    (hx : Executes f.frame.closure f.window (m.advance f) f.instruction report m') :
    m'.PendingAtBind := by
  have hadvanced := h.advance hf
  have hc := hx.changes
  obtain ⟨code, -, hcode, -, hi⟩ := fetch_ok hf
  generalize hins : f.instruction = i at hx
  cases hx with
  | makeFunction hproto hslot =>
    intro closure _
    refine ⟨_, code, Array.back?_push, hc.codeOf_ok hcode, ?_⟩
    exact (CodeObject.bindingAt_succ hi).mpr (.inl ⟨_, _, hins⟩)
  | bind hpending hslot hbound =>
    exact hadvanced.of_changes hc (by simp [withBinding]) (by simp [withBinding])
  | ret hvalue hbase hclose =>
    obtain ⟨cells, rfl⟩ := closeFrom_ok hclose
    intro closure hpending
    rw [leave_pending] at hpending
    simpa [hins, Instruction.isBind] using (advance_pending hpending).2
  | _ =>
    intro closure hpending
    simpa [hins, Instruction.isBind] using (advance_pending hpending).2

theorem PendingAtBind.request_step (h : m.PendingAtBind) : (m.request .step).PendingAtBind := by
  rcases request_step_cases m with hs | ⟨f, hf, ⟨report, hx⟩ | ⟨e, hx⟩⟩
  · rw [hs]
    exact h
  · exact h.executes hf hx
  · exact (h.advance hf).of_changes hx.changes hx.pending_eq hx.frames_eq

theorem PendingAtBind.closed (h : m.PendingAtBind) :
    (Outcome.machine (closeFrom 0 m)).PendingAtBind := by
  have hc := closeFrom_changes 0 m
  obtain ⟨cells, hm⟩ := closeFrom_machine 0 m
  rw [hm] at hc ⊢
  exact h.of_changes hc rfl rfl

theorem PendingAtBind.request_load (h : m.PendingAtBind) (p : Program) :
    (m.request (.load p)).PendingAtBind := by
  rcases request_load_cases m p with ⟨-, hl⟩ | ⟨-, hl | hl | ⟨code, -, -, -, hl⟩⟩
  · rw [hl]
    exact h
  · rw [hl]
    exact h.closed
  · rw [hl]
    exact pendingAtBind_of_none rfl
  · rw [hl]
    exact pendingAtBind_of_none rfl

theorem PendingAtBind.request_reset (h : m.PendingAtBind) : (m.request .reset).PendingAtBind := by
  rcases request_reset_cases m with hr | hr
  · rw [hr]
    exact h.closed
  · rw [hr]
    exact pendingAtBind_of_none rfl

end Machine

theorem Reachable.pendingAtBind {config : Config} {m : Machine} (h : Reachable config m) :
    m.PendingAtBind :=
  h.invariant (Machine.pendingAtBind_of_none rfl) (fun p _ _ hm => hm.request_load p)
    (fun _ hm => hm.request_step) (fun _ hm => hm.request_reset)

namespace Machine

variable {config : Config} {m m' : Machine} {f : Fetched} {report : Option Report}

-- ---------------------------------------------------------------------------
-- Refused instructions
-- ---------------------------------------------------------------------------

/-- What a machine has run, the check would have let stand there. -/
theorem Executes.admits (h : Reachable config m) (hf : m.fetch = .ok f)
    (hx : Executes f.frame.closure f.window (m.advance f) f.instruction report m')
    {code : CodeObject} (hcode : m.codeOf f.frame.closure = .ok code) :
    code.Admits m.prototypes.size f.frame.ip f.instruction := by
  obtain ⟨code', hback, hcode', hw, -⟩ := fetch_ok hf
  obtain rfl := Except.ok.inj (hcode.symm.trans hcode')
  have hregs := hx.registers_lt
  rw [hw] at hregs
  refine ⟨hregs, fun target prototype hi => ?_, fun slot offset hi => ?_⟩
  · rw [hi] at hx
    exact hx.prototype_lt
  · rw [hi] at hx
    obtain ⟨pending, hpending⟩ := hx.pending_of_bind
    obtain ⟨frame, code', hback', hcode', hbinding⟩ :=
      h.pendingAtBind pending (by simpa [advance, hi, Instruction.isBind] using hpending)
    obtain rfl := Option.some.inj (hback.symm.trans hback')
    obtain rfl := Except.ok.inj (hcode.symm.trans hcode')
    exact hbinding

/-- Whatever code was loaded and whatever failed before: if the next instruction of the top frame
names a register outside the window, or makes a closure over a prototype that is not loaded, or is
a `bind` that does not follow a `makeFunction`, then the step fails. -/
theorem refused_instruction_fails {config : Config} {m : Machine} {frame : Frame}
    {code : CodeObject} {i : Instruction} (h : Reachable config m)
    (hback : m.frames.back? = some frame) (hcode : m.codeOf frame.closure = .ok code)
    (hi : code.instructions[frame.ip]? = some i)
    (hrefused : (∃ reg ∈ i.registers, code.stackSize.toNat ≤ reg.toNat) ∨
      (∃ target prototype, i = .makeFunction target prototype ∧
        m.prototypes.size ≤ prototype.toNat) ∨
      (∃ index offset, i = .bind index offset) ∧ ¬ code.BindingAt frame.ip) :
    ∃ e m', step m = .error e m' := by
  cases hs : step m with
  | error e m' => exact ⟨e, m', rfl⟩
  | ok report m' =>
    obtain ⟨f, hf, hx⟩ := step_ok hs
    obtain ⟨code', hback', hcode', -, hi'⟩ := fetch_ok hf
    obtain rfl := Option.some.inj (hback.symm.trans hback')
    obtain rfl := Except.ok.inj (hcode.symm.trans hcode')
    obtain rfl := Option.some.inj (hi.symm.trans hi')
    have hadmits := hx.admits h hf hcode
    rcases hrefused with ⟨reg, hreg, hout⟩ | ⟨target, prototype, hmake, hout⟩ |
      ⟨⟨index, offset, hbind⟩, hno⟩
    · exact absurd (hadmits.registers reg hreg) (Nat.not_lt.mpr hout)
    · exact absurd (hadmits.prototypes target prototype hmake) (Nat.not_lt.mpr hout)
    · exact absurd (hadmits.binds index offset hbind) hno

/-- Code that goes on with a `bind` after a call. -/
def hasty : CodeObject := ⟨"main", 3, #[.makeFunction 1 1, .call 1 2 0, .bind 0 0, .halt]⟩

/-- The callee has made a closure and has returned, and the caller's `bind` is next. -/
def resumed : Machine :=
  ((ofConfig ⟨4, 2, true⟩).request
    (.load ⟨#[hasty, ⟨"leaf", 1, #[.makeFunction 0 0, .ret 0]⟩], 0⟩)).stepped 4

theorem refused_instruction_fails_resumed :
    resumed.frames.back? = some ⟨0, 2, 0⟩ ∧ resumed.codeOf 0 = .ok hasty ∧
      hasty.instructions[2]? = some (.bind 0 0) ∧ ¬ hasty.BindingAt 2 ∧
      ∃ e m', step resumed = .error e m' := by
  have hreach : Reachable ⟨4, 2, true⟩ resumed := (Reachable.new.request (.load _)).stepped 4
  have hback : resumed.frames.back? = some ⟨0, 2, 0⟩ := by decide +kernel
  have hcode : resumed.codeOf 0 = .ok hasty := ok_of_toOption (by decide +kernel)
  have hcall : hasty.instructions[1]? = some (.call 1 2 0) := rfl
  have hno : ¬ hasty.BindingAt 2 := by simp [CodeObject.bindingAt_succ hcall]
  exact ⟨hback, hcode, rfl, hno,
    refused_instruction_fails hreach hback hcode rfl (.inr (.inr ⟨⟨0, 0, rfl⟩, hno⟩))⟩

end Machine

end ClosureMachine

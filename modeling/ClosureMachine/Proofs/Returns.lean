import ClosureMachine.Proofs.CallReturn

/-!
# A return clears all that is above its result

A return that clears stops at the high-water mark. Nothing lies at or above the mark, so the
stack is the one that clearing up to the capacity would leave: `Machine.clearedAbove`. This holds in
every session, whatever window a return is called with.
-/

namespace ClosureMachine

namespace Machine

variable {m m' : Machine} {w : Window} {closure : ClosureRef} {report : Option Report}

/-- The stack with `value` in slot `base`, the slots below as they were and nothing above. -/
def clearedAbove (stack : Array Value) (base : Nat) (value : Value) : Array Value :=
  stack.mapIdx fun slot old =>
    if slot < base then old else if slot = base then value else .uninitialized

theorem Marked.stack_ret {result : UInt8} (hmark : m.Marked)
    (hscrub : m.config.scrubOnReturn = true) (h : Executes closure w m (.ret result) report m') :
    ∃ value, m.register w result = .ok value ∧ m'.stack = clearedAbove m.stack w.base value := by
  obtain ⟨⟨value, hvalue, hstored⟩, -⟩ := h.ret_ok
  refine ⟨value, hvalue, Array.ext_getElem? fun slot => ?_⟩
  have hsize := h.changes.size_stack
  rw [clearedAbove, Array.getElem?_mapIdx]
  rcases Nat.lt_trichotomy slot w.base with hlt | rfl | hgt
  · simp [hlt, h.ret_below hlt]
  · have hbase := (Array.getElem?_eq_some_iff.mp hstored).1
    rw [hsize] at hbase
    simp [hstored, hbase]
  · cases hv : m'.stack[slot]? with
    | none =>
      have hout : m.stack.size ≤ slot := by
        rw [← hsize]
        exact Array.getElem?_eq_none_iff.mp hv
      rw [Array.getElem?_eq_none hout]
      rfl
    | some v =>
      have hin := (Array.getElem?_eq_some_iff.mp hv).1
      rw [hsize] at hin
      simp [h.ret_above hmark hscrub hgt hv, hin, Nat.not_lt.mpr (Nat.le_of_lt hgt),
        Nat.ne_of_gt hgt]

theorem returnFrom_ok {result : UInt8} (h : returnFrom w result m = .ok report m') :
    Executes 0 w m (.ret result) report m' :=
  execute_ok h

/-- In every session, whatever operations were called with whatever arguments and however many
of them failed: the mark lies on the stack, and every slot from it on is uninitialized. So where
returns clear, one that succeeds leaves its result in the first slot of its window, every slot
below as it was, and nothing in any slot above. -/
theorem return_clears_all_above {config : Config} {m : Machine} (h : Handled config m) :
    m.highWater ≤ m.stack.size ∧
    (∀ slot, m.highWater ≤ slot → slot < m.stack.size →
      m.stack[slot]? = some .uninitialized) ∧
    (config.scrubOnReturn = true → ∀ w result report m', returnFrom w result m = .ok report m' →
      ∃ value, m.register w result = .ok value ∧ w.base < m.stack.size ∧
        m'.stack = clearedAbove m.stack w.base value) := by
  have hmark := h.marked
  refine ⟨hmark.mark, fun slot hslot hlt => ?_, fun hscrub w result report m' hret => ?_⟩
  · have hv := Array.getElem?_eq_getElem hlt
    rw [hv, hmark.above hslot hv]
  · obtain ⟨value, hvalue, hstack⟩ := hmark.stack_ret (h.config_eq ▸ hscrub) (returnFrom_ok hret)
    obtain ⟨slot, hslot, -⟩ := register_ok.mp hvalue
    exact ⟨value, hvalue, (resolve_ok.mp (resolve_zero hslot)).2.2, hstack⟩

/-- Slots 0 and 3 have been written and a write beyond the stack has failed; no frame is there. -/
def written : Machine :=
  (((ofConfig ⟨5, 2, true⟩).handle (.setRegister ⟨0, 5⟩ 0 (.number ⟨1⟩))).handle
    (.setRegister ⟨2, 3⟩ 1 (.number ⟨7⟩))).handle (.setRegister ⟨4, 9⟩ 8 (.function 0))

theorem return_clears_all_above_written :
    written.highWater = 4 ∧ written.stack[4]? = some .uninitialized ∧
      ∃ m', returnFrom ⟨1, 3⟩ 2 written = .ok none m' ∧
        m'.stack = #[.number ⟨1⟩, .number ⟨7⟩, .uninitialized, .uninitialized, .uninitialized] := by
  have hhandled : Handled ⟨5, 2, true⟩ written := .handle _ (.handle _ (.handle _ .new))
  have hmark : written.highWater = 4 := by decide +kernel
  have hret : returnFrom ⟨1, 3⟩ 2 written = .ok none (written.handle (.returnFrom ⟨1, 3⟩ 2)) := by
    decide +kernel
  have hseven : written.register ⟨1, 3⟩ 2 = .ok (.number ⟨7⟩) := ok_of_toOption (by decide +kernel)
  obtain ⟨-, habove, hreturn⟩ := return_clears_all_above hhandled
  obtain ⟨value, hvalue, -, hstack⟩ := hreturn rfl _ _ _ _ hret
  obtain rfl := Except.ok.inj (hseven.symm.trans hvalue)
  refine ⟨hmark, habove 4 (Nat.le_of_eq hmark) (by decide +kernel), _, hret, ?_⟩
  rw [hstack]
  decide +kernel

end Machine

end ClosureMachine

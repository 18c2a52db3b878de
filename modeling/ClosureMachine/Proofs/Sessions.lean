import ClosureMachine.Machine.Load
import ClosureMachine.Machine.Run

/-!
# Sessions

A host makes a machine from a configuration and works it by requests: load a program, take
a step, run until the machine stops, reset. It may also call a single operation, with any
arguments. What a call did before a fault stays done, and the session goes on from there.

`Reachable` is every machine that requests lead to, and `Handled` every machine that
requests and single operations lead to.
-/

namespace ClosureMachine

-- Outcomes on concrete machines are compared by evaluating them.
instance Outcome.decEq {α : Type} [DecidableEq α] : DecidableEq (Outcome α)
  | .ok a m, .ok b m' => decidable_of_iff (a = b ∧ m = m') (by simp)
  | .error e m, .error e' m' => decidable_of_iff (e = e' ∧ m = m') (by simp)
  | .ok .., .error .. => isFalse (by simp)
  | .error .., .ok .. => isFalse (by simp)

theorem ok_of_toOption {α : Type} {x : Except Fault α} {a : α} (h : x.toOption = some a) :
    x = .ok a := by
  cases x with
  | ok b => exact congrArg Except.ok (Option.some.inj h)
  | error e => simp [Except.toOption] at h

inductive Request where
  | load (p : Program)
  | step
  | interpret
  | reset

inductive Handler where
  | getRegister (w : Window) (reg : UInt8)
  | setRegister (w : Window) (reg : UInt8) (value : Value)
  | makeFunction (w : Window) (target : UInt8) (index : UInt16)
  | bindUpvalue (w : Window) (index offset : UInt8)
  | addRegisters (w : Window) (target left right : UInt8)
  | call (w : Window) (function argBase : UInt8)
  | returnFrom (w : Window) (result : UInt8)
  | getUpvalue (closure : ClosureRef) (index : UInt8)
  | setUpvalue (closure : ClosureRef) (index : UInt8) (value : Value)
  | capture (slot : Nat)
  | closeFrom (start : Nat)

namespace Machine

/-- The machine that a request leaves behind. -/
def request (m : Machine) : Request → Machine
  | .load p => Outcome.machine (load p m)
  | .step => Outcome.machine (step m)
  | .interpret => Outcome.machine (interpret m)
  | .reset => Outcome.machine (reset m)

/-- The machine after `n` steps, which go on after a fault or a stop. -/
def stepped (m : Machine) : Nat → Machine
  | 0 => m
  | n + 1 => (m.stepped n).request .step

theorem stepped_add (m : Machine) (a b : Nat) : m.stepped (a + b) = (m.stepped a).stepped b := by
  induction b with
  | zero => rfl
  | succ b ih => rw [← Nat.add_assoc, stepped, ih, stepped]

/-- The machine that a single operation leaves behind. -/
def handle (m : Machine) : Handler → Machine
  | .getRegister w reg => Outcome.machine (getRegister w reg m)
  | .setRegister w reg value => Outcome.machine (setRegister w reg value m)
  | .makeFunction w target index => Outcome.machine (makeFunction w target index m)
  | .bindUpvalue w index offset => Outcome.machine (bindUpvalue w index offset m)
  | .addRegisters w target left right => Outcome.machine (addRegisters w target left right m)
  | .call w function argBase => Outcome.machine (call w function argBase m)
  | .returnFrom w result => Outcome.machine (returnFrom w result m)
  | .getUpvalue closure index => Outcome.machine (getUpvalue closure index m)
  | .setUpvalue closure index value => Outcome.machine (setUpvalue closure index value m)
  | .capture slot => Outcome.machine (capture slot m)
  | .closeFrom start => Outcome.machine (closeFrom start m)

end Machine

inductive Reachable (config : Config) : Machine → Prop
  | new : Reachable config (.ofConfig config)
  | request {m : Machine} (r : Request) (h : Reachable config m) : Reachable config (m.request r)

inductive Handled (config : Config) : Machine → Prop
  | new : Handled config (.ofConfig config)
  | request {m : Machine} (r : Request) (h : Handled config m) : Handled config (m.request r)
  | handle {m : Machine} (c : Handler) (h : Handled config m) : Handled config (m.handle c)

theorem Reachable.handled {config : Config} {m : Machine} (h : Reachable config m) :
    Handled config m := by
  induction h with
  | new => exact .new
  | request r _ ih => exact .request r ih

theorem Reachable.step_ok {config : Config} {m m' : Machine} {report : Option Report}
    (h : Reachable config m) (hs : Machine.step m = .ok report m') : Reachable config m' := by
  have hr := h.request .step
  rw [Machine.request, hs] at hr
  exact hr

theorem Reachable.stepped {config : Config} {m : Machine} (h : Reachable config m) (n : Nat) :
    Reachable config (m.stepped n) := by
  induction n with
  | zero => exact h
  | succ n ih => exact ih.request .step

/-- Running until the machine stops keeps what every step keeps. -/
theorem Machine.interpret_keeps {I : Machine → Prop}
    (hstep : ∀ m, I m → I (Outcome.machine (step m))) (m : Machine) (hm : I m) :
    I (Outcome.machine (interpret m)) := by
  fun_induction interpret m with
  | case1 m report m' hs =>
    have h := hstep m hm
    rw [hs] at h
    exact h
  | case2 m m' hs ih =>
    have h := hstep m hm
    rw [hs] at h
    exact ih h
  | case3 m e m' hs =>
    have h := hstep m hm
    rw [hs] at h
    exact h

/-- What holds of a new machine and is kept by loading, stepping and resetting holds of
every machine that requests lead to. -/
theorem Reachable.invariant {config : Config} {I : Machine → Prop} (hnew : I (.ofConfig config))
    (hload : ∀ p {m}, Reachable config m → I m → I (m.request (.load p)))
    (hstep : ∀ {m}, Reachable config m → I m → I (m.request .step))
    (hreset : ∀ {m}, Reachable config m → I m → I (m.request .reset)) {m : Machine}
    (h : Reachable config m) : I m := by
  induction h with
  | new => exact hnew
  | @request m r hm ih =>
    cases r with
    | load p => exact hload p hm ih
    | step => exact hstep hm ih
    | interpret =>
      -- The machines that a run passes are reachable by single steps.
      have hrun := Machine.interpret_keeps (I := fun m => Reachable config m ∧ I m)
        (fun m₁ h₁ => ⟨h₁.1.request .step, hstep h₁.1 h₁.2⟩) m ⟨hm, ih⟩
      exact hrun.2
    | reset => exact hreset hm ih

end ClosureMachine

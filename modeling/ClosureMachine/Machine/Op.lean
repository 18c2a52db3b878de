import ClosureMachine.Machine.State

/-!
# Machine operations

An operation changes a machine and ends in a value or a fault. What it did before a fault
stays done.
-/

namespace ClosureMachine

abbrev Op := EStateM Fault Machine

/-- How an operation ended, with the machine it left behind. -/
abbrev Outcome (α : Type) := EStateM.Result Fault Machine α

namespace Outcome

def machine {α : Type} : Outcome α → Machine
  | .ok _ m => m
  | .error _ m => m

def result {α : Type} : Outcome α → Except Fault α
  | .ok a _ => .ok a
  | .error e _ => .error e

end Outcome

namespace Op

/-- Looks at the machine without changing it. -/
def ask {α : Type} (query : Machine → Except Fault α) : Op α := fun m =>
  match query m with
  | .ok a => .ok a m
  | .error e => .error e m

variable {α β : Type}

@[simp] theorem pure_apply (a : α) (m : Machine) : (pure a : Op α) m = .ok a m := rfl

@[simp] theorem bind_apply (x : Op α) (f : α → Op β) (m : Machine) :
    (x >>= f) m = match x m with
      | .ok a m' => f a m'
      | .error e m' => .error e m' := by
  show EStateM.bind x f m = _
  unfold EStateM.bind
  cases x m <;> rfl

@[simp] theorem modify_apply (f : Machine → Machine) (m : Machine) :
    (modify f : Op Unit) m = .ok () (f m) := rfl

/-- Whether `x` relates every machine to the one it leaves behind, fault or not. -/
def Ensures (x : Op α) (R : Machine → Machine → Prop) : Prop :=
  ∀ m, R m (Outcome.machine (x m))

namespace Ensures

variable {R : Machine → Machine → Prop}

theorem pure (hr : ∀ m, R m m) (a : α) : Ensures (Pure.pure a : Op α) R := hr

theorem ask (hr : ∀ m, R m m) (query : Machine → Except Fault α) :
    Ensures (Op.ask query) R := by
  intro m
  unfold Op.ask
  split <;> exact hr m

theorem bind (ht : ∀ a b c, R a b → R b c → R a c) {x : Op α} {f : α → Op β}
    (hx : Ensures x R) (hf : ∀ a, Ensures (f a) R) : Ensures (x >>= f) R := by
  intro m
  have h := hx m
  rw [bind_apply]
  split
  · next a m' he =>
    rw [he] at h
    exact ht _ _ _ h (hf a m')
  · next e m' he =>
    rw [he] at h
    exact h

end Ensures

end Op

end ClosureMachine

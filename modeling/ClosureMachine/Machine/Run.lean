import ClosureMachine.Machine.Work

/-!
# Runs

Every run ends: each step that does not stop the machine lowers the work left to do.
-/

namespace ClosureMachine.Machine

/-- Steps until the machine stops or faults. -/
def interpret (m : Machine) : Outcome Report :=
  match _h : step m with
  | .ok (some report) m' => .ok report m'
  | .ok none m' => interpret m'
  | .error e m' => .error e m'
termination_by m.work
decreasing_by exact step_work_lt ‹_›

end ClosureMachine.Machine

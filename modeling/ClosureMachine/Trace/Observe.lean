import ClosureMachine.Machine.Load
import ClosureMachine.Machine.Run
import ClosureMachine.Trace.Event

/-!
# Observed runs

The machine itself reports nothing. What an operation has to say can be told from the
machine it is about to change, which keeps the operations free of any log.
-/

namespace ClosureMachine.Machine

def readEvents (m : Machine) (closure : ClosureRef) (index : UInt8) : List Event :=
  match m.cellOf closure index with
  | .ok (r, cell) => [.upvalueRead r cell.isOpen]
  | .error _ => []

def writeEvents (m : Machine) (closure : ClosureRef) (index : UInt8) (value : Value) : List Event :=
  match m.cellOf closure index with
  | .ok (r, cell) => [.upvalueWritten r cell.isOpen value]
  | .error _ => []

def captureEvents (m : Machine) (slot : Nat) : List Event :=
  match m.openCells.find? slot with
  | some r => [.upvalueReused slot r]
  | none => [.upvalueOpened slot m.heap.nextCell]

def bindEvents (m : Machine) (w : Window) (offset : UInt8) : List Event :=
  match m.pendingClosure, w.slot offset with
  | .ok _, .ok slot => m.captureEvents slot
  | _, _ => []

/-- The cells that are closed before one of `entries` cannot be. -/
def closingEvents (valueAt : Nat → Value) (cells : Array Cell) : List OpenEntry → List Event
  | [] => []
  | (slot, r) :: rest =>
    match cells[r]? with
    | some (.opened _) =>
      let value := valueAt slot
      .upvalueClosed slot r value ::
        closingEvents valueAt (cells.setIfInBounds r (.closed value)) rest
    | _ => []

def closeEvents (m : Machine) (start : Nat) : List Event :=
  closingEvents m.stackAt m.heap.cells (m.openCells.entriesFrom start)

def callEvents (m : Machine) (w : Window) (function argBase argCount : UInt8) : List Event :=
  match m.callee w function argBase with
  | .error _ => []
  | .ok (closure, base) =>
    match m.windowFor closure base with
    | .error _ => []
    | .ok _ => [.called closure base argCount (m.depth + 1)]

def returnEvents (m : Machine) (w : Window) (result : UInt8) : List Event :=
  match m.register w result, m.resolve w 0 with
  | .ok value, .ok first =>
    let entries := m.openCells.entriesFrom w.base
    let closing := closingEvents (fun slot => if slot = first then value else m.stackAt slot)
      m.heap.cells entries
    if closing.length = entries.length then
      closing ++ [.returned w.base entries.length (m.depth - 1) value]
    else closing
  | _, _ => []

def executeEvents (m : Machine) (f : Fetched) : List Event :=
  let closure := f.frame.closure
  let w := f.window
  match f.instruction with
  | .bind _ offset => m.bindEvents w offset
  | .ret result => m.returnEvents w result
  | .getUpvalue _ index => m.readEvents closure index
  | .setUpvalue source index =>
    match m.register w source with
    | .ok value => m.writeEvents closure index value
    | .error _ => []
  | .call function argBase argCount => m.callEvents w function argBase argCount
  | .halt => [.halted w.base m.depth]
  | .makeFunction .. | .add .. | .loadConstant .. | .copy .. => []

def stepEvents (m : Machine) : List Event :=
  match m.fetch with
  | .error _ => []
  | .ok f =>
    .dispatched (m.depth - 1) f.frame.ip f.frame.base f.instruction :: m.executeEvents f

def loadEvents (m : Machine) (p : Program) : List Event :=
  if p.codes.size ≤ p.entry.toNat then []
  else
    match load p m with
    | .ok closure _ => m.closeEvents 0 ++ [.programLoaded p.codes.size p.entry closure]
    | .error _ _ => m.closeEvents 0

/-- Runs like `interpret`, and appends the events of every step to `log`. -/
def interpretLogged (log : Array Event) (m : Machine) : Outcome Report × Array Event :=
  let log := log ++ m.stepEvents
  match _h : step m with
  | .ok (some report) m' => (.ok report m', log)
  | .ok none m' => interpretLogged log m'
  | .error e m' => (.error e m', log)
termination_by m.work
decreasing_by exact step_work_lt ‹_›

/-- Observing a run does not change it. -/
theorem interpretLogged_fst (log : Array Event) (m : Machine) :
    (interpretLogged log m).1 = interpret m := by
  fun_induction interpret m generalizing log with
  | case1 m report m' h => rw [interpretLogged]; split <;> simp_all
  | case2 m m' h ih => rw [interpretLogged]; split <;> simp_all
  | case3 m e m' h => rw [interpretLogged]; split <;> simp_all

end ClosureMachine.Machine

import ClosureMachine.Machine.Capture

/-!
# Calls and returns

The caller's registers from `argBase` on become the low registers of the callee, so
arguments and the result are passed in place.
-/

namespace ClosureMachine.Machine

def pushFrame (closure : ClosureRef) (base : Nat) : Op Unit := fun m =>
  match m.windowFor closure base with
  | .error e => .error e m
  | .ok w =>
    .ok () { m with
      highWater := max m.highWater w.finish
      frames := m.frames.push ⟨closure, 0, base⟩ }

def call (w : Window) (function argBase : UInt8) : Op Unit := do
  let (closure, base) ← Op.ask (·.callee w function argBase)
  pushFrame closure base

def clearRange (start : Nat) : (count : Nat) → Array Value → Array Value
  | 0, stack => stack
  | n + 1, stack => clearRange start n (stack.setIfInBounds (start + n) .uninitialized)

/-- Resets every slot above the first of a window that may hold something. -/
def scrub (m : Machine) (w : Window) : Machine :=
  let start := w.base + 1
  { m with
    stack := clearRange start (m.highWater - start) m.stack
    highWater := start }

def leave (m : Machine) (w : Window) : Machine :=
  let m := if m.config.scrubOnReturn then m.scrub w else m
  { m with frames := m.frames.pop }

/-- Moves the result to register 0, where the caller expects it, and closes the cells of
the frame. Gives the number of cells closed. -/
def handOver (w : Window) (result : UInt8) : Op Nat := do
  let value ← getRegister w result
  setRegister w 0 value
  closeFrom w.base

/-- Gives up the running frame. The machine stops with the last one. -/
def popFrame (w : Window) : Op (Option Report) := fun m =>
  let report := if m.depth = 1 then some (m.snapshot .entryReturn w) else none
  .ok report (m.leave w)

def returnFrom (w : Window) (result : UInt8) : Op (Option Report) := do
  let _ ← handOver w result
  popFrame w

end ClosureMachine.Machine

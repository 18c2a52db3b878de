import ClosureMachine.Heap
import ClosureMachine.Machine.Fault
import ClosureMachine.OpenCells
import ClosureMachine.Report

/-!
# Machine states

A machine owns a heap, one register stack of fixed capacity that all frames share, and
the frames of the active calls. The functions here only look at a state.
-/

namespace ClosureMachine

/-- The registers `[base, base + size)` of a frame. -/
structure Window where
  base : Nat
  size : Nat
  deriving DecidableEq, Repr

namespace Window

def finish (w : Window) : Nat := w.base + w.size

def slot (w : Window) (reg : UInt8) : Except Fault Nat :=
  if reg.toNat < w.size then .ok (w.base + reg.toNat)
  else .error (.registerOutOfBounds reg w.size)

end Window

/-- An active call. The instruction at `ip` is the next to run, and register 0 is slot
`base` of the stack. -/
structure Frame where
  closure : ClosureRef
  ip : Nat
  base : Nat
  deriving DecidableEq, Repr

structure Config where
  stackSize : Nat := 1024
  maxFrames : Nat := 256
  scrubOnReturn : Bool := true
  deriving DecidableEq, Repr

structure Machine where
  config : Config
  heap : Heap
  stack : Array Value
  frames : Array Frame
  prototypes : Array CodeRef
  openCells : OpenCells
  /-- The closure that the following `bind`s fill. -/
  pending : Option ClosureRef
  /-- One past the highest slot written or covered by a window since the last scrub. -/
  highWater : Nat
  deriving DecidableEq, Repr

structure Fetched where
  frame : Frame
  window : Window
  instruction : Instruction
  deriving DecidableEq, Repr

namespace Machine

def ofConfig (config : Config) : Machine :=
  { config
    heap := .empty
    stack := Array.replicate config.stackSize .uninitialized
    frames := #[]
    prototypes := #[]
    openCells := .empty
    pending := none
    highWater := 0 }

def depth (m : Machine) : Nat := m.frames.size

/-- A slot beyond the stack counts as never written. -/
def stackAt (m : Machine) (slot : Nat) : Value := m.stack.getD slot .uninitialized

def codeOf (m : Machine) (closure : ClosureRef) : Except Fault CodeObject :=
  match m.heap.closures[closure]? with
  | none => .error (.functionNotFound closure)
  | some c =>
    match m.heap.codes[c.code]? with
    | none => .error (.malformed (.codeNotLoaded c.code))
    | some code => .ok code

def resolve (m : Machine) (w : Window) (reg : UInt8) : Except Fault Nat :=
  match w.slot reg with
  | .error e => .error e
  | .ok slot =>
    if slot < m.stack.size then .ok slot
    else .error (.stackOverflow (slot + 1) m.stack.size)

def register (m : Machine) (w : Window) (reg : UInt8) : Except Fault Value :=
  match m.resolve w reg with
  | .error e => .error e
  | .ok slot => .ok (m.stackAt slot)

def cellOf (m : Machine) (closure : ClosureRef) (index : UInt8) : Except Fault (CellRef × Cell) :=
  match m.heap.closures[closure]? with
  | none => .error (.functionNotFound closure)
  | some c =>
    match c.slot? index.toNat with
    | none => .error (.upvalueOutOfBounds index c.slots.size)
    | some r =>
      match m.heap.cells[r]? with
      | none => .error (.upvalueNotFound r)
      | some cell => .ok (r, cell)

def upvalue (m : Machine) (closure : ClosureRef) (index : UInt8) : Except Fault Value :=
  match m.cellOf closure index with
  | .error e => .error e
  | .ok (_, .closed value) => .ok value
  | .ok (_, .opened slot) =>
    if slot < m.stack.size then .ok (m.stackAt slot)
    else .error (.stackOverflow (slot + 1) m.stack.size)

/-- The value seen through a cell, open or closed. -/
def seenThrough? (m : Machine) (r : CellRef) : Option Value :=
  match m.heap.cells[r]? with
  | none => none
  | some (.opened slot) => m.stack[slot]?
  | some (.closed value) => some value

def windowFor (m : Machine) (closure : ClosureRef) (base : Nat) : Except Fault Window :=
  if m.config.maxFrames ≤ m.depth then .error (.frameOverflow m.config.maxFrames)
  else
    match m.codeOf closure with
    | .error e => .error e
    | .ok code =>
      let w : Window := ⟨base, code.stackSize.toNat⟩
      if m.stack.size < w.finish then .error (.stackOverflow w.finish m.stack.size)
      else .ok w

def callee (m : Machine) (w : Window) (function argBase : UInt8) :
    Except Fault (ClosureRef × Nat) :=
  match m.register w function with
  | .error e => .error e
  | .ok (.function closure) =>
    match w.slot argBase with
    | .error e => .error e
    | .ok base => .ok (closure, base)
  | .ok v => .error (.typeMismatch .call .function v.kind)

def fetch (m : Machine) : Except Fault Fetched :=
  match m.frames.back? with
  | none => .error (.malformed .noActiveFrame)
  | some frame =>
    match m.codeOf frame.closure with
    | .error e => .error e
    | .ok code =>
      match code.instructions[frame.ip]? with
      | none => .error (.malformed (.ranPastEnd code.name))
      | some instruction => .ok ⟨frame, ⟨frame.base, code.stackSize.toNat⟩, instruction⟩

/-- The part of a window that lies on the stack. -/
def snapshot (m : Machine) (reason : StopReason) (w : Window) : Report :=
  { reason, base := w.base, registers := m.stack.extract w.base w.finish }

def currentWindow? (m : Machine) : Option Window :=
  match m.frames.back? with
  | none => none
  | some frame =>
    match m.codeOf frame.closure with
    | .error _ => none
    | .ok code => some ⟨frame.base, code.stackSize.toNat⟩

end Machine

end ClosureMachine

import ClosureMachine.Program
import ClosureMachine.Value

/-!
# The heap

Code objects, closures and capture cells live in three append-only stores. Nothing is
reclaimed, so what a handle names is never moved or removed. But a store may outgrow the
handles: the item at position 2^32 is known by handle 0, which names the first one.
-/

namespace ClosureMachine

/-- Shared code and the cells it has captured. A slot is `none` until something is bound
to it. -/
structure Closure where
  code : CodeRef
  slots : Array (Option CellRef)
  deriving DecidableEq, Repr

namespace Closure

def new (code : CodeRef) : Closure := ⟨code, #[]⟩

/-- Stores `cell` in slot `index`; the slots grow to reach it. -/
def bindSlot (c : Closure) (index : Nat) (cell : CellRef) : Closure :=
  let grown := c.slots ++ Array.replicate (index + 1 - c.slots.size) none
  { c with slots := grown.setIfInBounds index (some cell) }

def slot? (c : Closure) (index : Nat) : Option CellRef := c.slots[index]?.join

end Closure

/-- A capture cell. It observes a stack slot while that slot belongs to a live frame, and
owns its value afterwards. -/
inductive Cell where
  | opened (slot : Nat)
  | closed (value : Value)
  deriving DecidableEq, Repr

namespace Cell

def isOpen : Cell → Bool
  | .opened _ => true
  | .closed _ => false

def stackSlot? : Cell → Option Nat
  | .opened slot => some slot
  | .closed _ => none

/-- Takes over the value. A closed cell cannot be closed again. -/
def close? (value : Value) : Cell → Option Cell
  | .opened _ => some (.closed value)
  | .closed _ => none

/-- What a second closing of one cell is reported as. -/
def alreadyClosedMessage : String := "upvalue already closed"

end Cell

structure Heap where
  codes : Array CodeObject
  closures : Array Closure
  cells : Array Cell
  deriving DecidableEq, Repr

namespace Heap

def empty : Heap := ⟨#[], #[], #[]⟩

/-- The handle that the next code object gets. -/
def nextCode (h : Heap) : CodeRef := handleAt h.codes.size

def nextClosure (h : Heap) : ClosureRef := handleAt h.closures.size

def nextCell (h : Heap) : CellRef := handleAt h.cells.size

def addCode (h : Heap) (code : CodeObject) : Heap := { h with codes := h.codes.push code }

def addClosure (h : Heap) (closure : Closure) : Heap :=
  { h with closures := h.closures.push closure }

def addCell (h : Heap) (cell : Cell) : Heap := { h with cells := h.cells.push cell }

def setCell (h : Heap) (r : CellRef) (cell : Cell) : Heap :=
  { h with cells := h.cells.setIfInBounds r cell }

/-- Binds a slot of a closure; nothing happens when there is no such closure. -/
def bindSlot (h : Heap) (r : ClosureRef) (index : Nat) (cell : CellRef) : Heap :=
  { h with closures := h.closures.modify r (·.bindSlot index cell) }

end Heap

end ClosureMachine

import ClosureMachine.Instruction

/-!
# Programs

A program is a list of code objects and the one it starts in. `makeFunction` operands are
positions in that list.
-/

namespace ClosureMachine

structure CodeObject where
  name : String
  /-- Registers the code needs, counted from the base of its frame. -/
  stackSize : UInt16
  instructions : Array Instruction
  deriving DecidableEq, Repr, Inhabited

structure Program where
  codes : Array CodeObject
  entry : UInt16
  deriving DecidableEq, Repr

namespace Program

def entryCode? (p : Program) : Option CodeObject := p.codes[p.entry.toNat]?

end Program

end ClosureMachine

import ClosureMachine.Number

/-!
# Instructions

Register operands are relative to the base of the executing frame.
-/

namespace ClosureMachine

inductive Instruction where
  /-- Sets `R[target]` to a new closure over prototype `code`, the pending closure from now on. -/
  | makeFunction (target : UInt8) (code : UInt16)
  /-- Sets slot `index` of the pending closure to the cell that observes `R[offset]`. -/
  | bind (index offset : UInt8)
  | add (target left right : UInt8)
  /-- Sets `R[0]` to `R[result]`, closes the frame's cells and pops it. -/
  | ret (result : UInt8)
  | getUpvalue (target index : UInt8)
  | setUpvalue (source index : UInt8)
  | loadConstant (target : UInt8) (value : Number)
  /-- Pushes a frame for `R[function]` whose register 0 is `R[argBase]`. -/
  | call (function argBase argCount : UInt8)
  | copy (target source : UInt8)
  | halt
  deriving DecidableEq, Repr, Inhabited

inductive Opcode where
  | makeFunction
  | bind
  | add
  | ret
  | getUpvalue
  | setUpvalue
  | loadConstant
  | call
  | copy
  | halt
  deriving DecidableEq, Repr

namespace Opcode

def toByte : Opcode → UInt8
  | .makeFunction => 1
  | .bind => 2
  | .add => 3
  | .ret => 4
  | .getUpvalue => 5
  | .setUpvalue => 6
  | .loadConstant => 7
  | .call => 8
  | .copy => 9
  | .halt => 10

def ofByte? : UInt8 → Option Opcode
  | 1 => some .makeFunction
  | 2 => some .bind
  | 3 => some .add
  | 4 => some .ret
  | 5 => some .getUpvalue
  | 6 => some .setUpvalue
  | 7 => some .loadConstant
  | 8 => some .call
  | 9 => some .copy
  | 10 => some .halt
  | _ => none

def mnemonic : Opcode → String
  | .makeFunction => "MAKE_FUNCTION"
  | .bind => "BIND"
  | .add => "ADD"
  | .ret => "RETURN"
  | .getUpvalue => "GET_UPVAL"
  | .setUpvalue => "SET_UPVAL"
  | .loadConstant => "LOAD_CONSTANT"
  | .call => "CALL"
  | .copy => "COPY"
  | .halt => "HALT"

@[simp] theorem ofByte?_toByte (op : Opcode) : ofByte? op.toByte = some op := by
  cases op <;> rfl

end Opcode

namespace Instruction

def opcode : Instruction → Opcode
  | .makeFunction .. => .makeFunction
  | .bind .. => .bind
  | .add .. => .add
  | .ret .. => .ret
  | .getUpvalue .. => .getUpvalue
  | .setUpvalue .. => .setUpvalue
  | .loadConstant .. => .loadConstant
  | .call .. => .call
  | .copy .. => .copy
  | .halt => .halt

/-- Registers read or written in the instruction's own frame. The register that a `bind`
captures counts: it lies in the window of the frame that creates the closure. -/
def registers : Instruction → List UInt8
  | .makeFunction target _ => [target]
  | .bind _ offset => [offset]
  | .add target left right => [target, left, right]
  | .ret result => [result]
  | .getUpvalue target _ => [target]
  | .setUpvalue source _ => [source]
  | .loadConstant target _ => [target]
  | .call function argBase _ => [function, argBase]
  | .copy target source => [target, source]
  | .halt => []

end Instruction

end ClosureMachine

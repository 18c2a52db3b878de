import ClosureMachine.Instruction
import ClosureMachine.Value

/-!
# Faults

A fault ends a run; no instruction can recover from one.
-/

namespace ClosureMachine

/-- Ways in which code asks for something that a well-formed program never asks for, or a
run goes on where nothing is left to run. -/
inductive Malformation where
  | noActiveFrame
  | ranPastEnd (code : String)
  | codeNotLoaded (code : CodeRef)
  | unknownPrototype (index : UInt16) (count : Nat)
  | orphanBind
  | entryOutOfRange (entry : UInt16) (count : Nat)
  deriving DecidableEq, Repr

def Malformation.message : Malformation → String
  | .noActiveFrame => "no active frame"
  | .ranPastEnd code => s!"'{code}' ran past its last instruction"
  | .codeNotLoaded code => s!"code object #{code} not loaded"
  | .unknownPrototype index count =>
    s!"MAKE_FUNCTION references P[{index}] ({count} code objects)"
  | .orphanBind => "BIND without a preceding MAKE_FUNCTION"
  | .entryOutOfRange entry count => s!"entry P[{entry}] out of range ({count} code objects)"

inductive Fault where
  | doubleClose (cell : CellRef)
  | typeMismatch (op : Opcode) (expected found : ValueKind)
  | stackOverflow (needed capacity : Nat)
  | frameOverflow (limit : Nat)
  | registerOutOfBounds (reg : UInt8) (size : Nat)
  | upvalueOutOfBounds (index : UInt8) (count : Nat)
  | functionNotFound (closure : ClosureRef)
  | upvalueNotFound (cell : CellRef)
  | malformed (cause : Malformation)
  deriving DecidableEq, Repr

def Fault.message : Fault → String
  | .doubleClose cell => s!"upvalue #{cell} closed twice"
  | .typeMismatch op expected found =>
    s!"{op.mnemonic}: expected {expected.name}, found {found.name}"
  | .stackOverflow needed capacity =>
    s!"register stack exhausted: window needs {needed} slots, capacity is {capacity}"
  | .frameOverflow limit => s!"call depth limit of {limit} frames exceeded"
  | .registerOutOfBounds reg size => s!"register R{reg} outside frame window of {size}"
  | .upvalueOutOfBounds index count =>
    s!"upvalue slot {index} is not bound (closure has {count} slots)"
  | .functionNotFound closure => s!"function #{closure} not found in heap"
  | .upvalueNotFound cell => s!"upvalue #{cell} not found in heap"
  | .malformed cause => s!"malformed code: {cause.message}"

end ClosureMachine

import ClosureMachine.Program

/-!
# Program checking

`Program.check` reports the first defect of a program: those of the program as a whole,
then code object by code object and instruction by instruction. `Program.WellFormed` says
without any scan what a program without defects is.
-/

namespace ClosureMachine

inductive Defect where
  | noCode
  | entryOutOfRange (entry : UInt16) (count : Nat)
  | emptyCode (code : String)
  | registerOutOfBounds (code : String) (index : Nat) (reg : UInt8) (size : UInt16)
  | unknownPrototype (code : String) (index : Nat) (prototype : UInt16) (count : Nat)
  | orphanBind (code : String) (index : Nat)
  deriving DecidableEq, Repr

def Defect.message : Defect → String
  | .noCode => "program has no code objects"
  | .entryOutOfRange entry count => s!"entry P[{entry}] out of range ({count} code objects)"
  | .emptyCode code => s!"'{code}' has no instructions"
  | .registerOutOfBounds code index reg size =>
    s!"'{code}' instruction {index}: register R{reg} outside stack size {size}"
  | .unknownPrototype code index prototype count =>
    s!"'{code}' instruction {index}: MAKE_FUNCTION references P[{prototype}] ({count} code objects)"
  | .orphanBind code index =>
    s!"'{code}' instruction {index}: BIND does not follow MAKE_FUNCTION"

namespace CodeObject

/-- The first register of instruction `index` outside the window. -/
def registerDefect? (code : CodeObject) (index : Nat) (i : Instruction) : Option Defect :=
  (i.registers.find? fun reg => code.stackSize.toNat ≤ reg.toNat).map
    fun reg => .registerOutOfBounds code.name index reg code.stackSize

/-- A register defect takes precedence over what else is wrong with an instruction.
`binding` tells whether a `bind` may stand here. -/
def instructionDefect? (code : CodeObject) (count : Nat) (binding : Bool) (index : Nat)
    (i : Instruction) : Option Defect :=
  code.registerDefect? index i <|>
    match i with
    | .makeFunction _ prototype =>
      if count ≤ prototype.toNat then some (.unknownPrototype code.name index prototype count)
      else none
    | .bind .. => if binding then none else some (.orphanBind code.name index)
    | _ => none

/-- Whether a `bind` may stand after `i`: inside a `makeFunction` and the `bind`s that
follow it. -/
def bindingAfter (binding : Bool) : Instruction → Bool
  | .makeFunction .. => true
  | .bind .. => binding
  | _ => false

def scan (code : CodeObject) (count : Nat) (binding : Bool) (index : Nat) :
    List Instruction → Option Defect
  | [] => none
  | i :: rest =>
    match code.instructionDefect? count binding index i with
    | some defect => some defect
    | none => scan code count (bindingAfter binding i) (index + 1) rest

/-- The first defect of a code object in a program of `count` code objects. -/
def defect? (count : Nat) (code : CodeObject) : Option Defect :=
  if code.instructions.isEmpty then some (.emptyCode code.name)
  else code.scan count false 0 code.instructions.toList

/-- Some `makeFunction` stands before position `i`, with only `bind`s between. -/
def BindingAt (code : CodeObject) (i : Nat) : Prop :=
  ∃ j, j < i ∧
    (∃ target prototype, code.instructions[j]? = some (.makeFunction target prototype)) ∧
    ∀ k, j < k → k < i → ∃ index offset, code.instructions[k]? = some (.bind index offset)

structure WellFormed (count : Nat) (code : CodeObject) : Prop where
  nonempty : code.instructions ≠ #[]
  registers : ∀ i ∈ code.instructions, ∀ reg ∈ i.registers, reg.toNat < code.stackSize.toNat
  prototypes : ∀ target prototype,
    Instruction.makeFunction target prototype ∈ code.instructions → prototype.toNat < count
  binds : ∀ (i : Nat) index offset,
    code.instructions[i]? = some (.bind index offset) → code.BindingAt i

end CodeObject

namespace Program

def defect? (p : Program) : Option Defect :=
  if p.codes.isEmpty then some .noCode
  else if p.codes.size ≤ p.entry.toNat then some (.entryOutOfRange p.entry p.codes.size)
  else p.codes.toList.findSome? (CodeObject.defect? p.codes.size)

def check (p : Program) : Except Defect Unit :=
  match p.defect? with
  | some defect => .error defect
  | none => .ok ()

structure WellFormed (p : Program) : Prop where
  entry : p.entry.toNat < p.codes.size
  codes : ∀ code ∈ p.codes, code.WellFormed p.codes.size

end Program

end ClosureMachine

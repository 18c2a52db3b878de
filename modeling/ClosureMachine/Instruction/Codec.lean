import ClosureMachine.Instruction
import ClosureMachine.Instruction.Word

/-!
# The instruction codec

A constant does not fit a word, so it lives in the pool of its code object and the word
holds its position there. Constants are interned by bit pattern, which keeps `-0` apart
from `0` and one NaN apart from another.
-/

namespace ClosureMachine

inductive CodecError where
  | unknownOpcode (op : UInt8)
  | constantOutOfRange (index : UInt16) (count : Nat)
  | constantPoolFull
  deriving DecidableEq, Repr

def CodecError.message : CodecError → String
  | .unknownOpcode op => s!"unknown opcode {op}"
  | .constantOutOfRange index count =>
    s!"constant K[{index}] out of range (pool has {count})"
  | .constantPoolFull => "constant pool is full"

abbrev ConstantPool := Array Number

namespace ConstantPool

/-- As many constants as sixteen bits can name. -/
def limit : Nat := 65536

/-- Why no word was written, and the pool that was left behind. -/
structure Failure where
  cause : CodecError
  pool : ConstantPool
  deriving DecidableEq

instance : Coe Failure CodecError := ⟨Failure.cause⟩

/-- The position of `value`, which is added when it is missing. The position is narrowed
to the sixteen bits of a word. -/
def intern (pool : ConstantPool) (value : Number) :
    Except Failure (UInt16 × ConstantPool) :=
  match pool.idxOf? value with
  | some i => .ok (UInt16.ofNat i, pool)
  | none =>
    if limit ≤ pool.size then .error ⟨.constantPoolFull, pool⟩
    else .ok (UInt16.ofNat pool.size, pool.push value)

end ConstantPool

namespace Instruction

def encode (i : Instruction) (pool : ConstantPool) :
    Except ConstantPool.Failure (Word × ConstantPool) :=
  let op := i.opcode.toByte
  match i with
  | .makeFunction target code => .ok (.ofWide op target code, pool)
  | .bind index offset => .ok (.ofBytes op index offset 0, pool)
  | .add target left right => .ok (.ofBytes op target left right, pool)
  | .ret result => .ok (.ofBytes op result 0 0, pool)
  | .getUpvalue target index => .ok (.ofBytes op target index 0, pool)
  | .setUpvalue source index => .ok (.ofBytes op source index 0, pool)
  | .loadConstant target value => do
    let (k, pool) ← pool.intern value
    return (.ofWide op target k, pool)
  | .call function argBase argCount => .ok (.ofBytes op function argBase argCount, pool)
  | .copy target source => .ok (.ofBytes op target source 0, pool)
  | .halt => .ok (.ofBytes op 0 0 0, pool)

/-- Operand bytes that an opcode does not use are ignored. -/
def decode (w : Word) (pool : ConstantPool) : Except CodecError Instruction :=
  match Opcode.ofByte? w.op with
  | none => .error (.unknownOpcode w.op)
  | some .makeFunction => .ok (.makeFunction w.a w.bx)
  | some .bind => .ok (.bind w.a w.b)
  | some .add => .ok (.add w.a w.b w.c)
  | some .ret => .ok (.ret w.a)
  | some .getUpvalue => .ok (.getUpvalue w.a w.b)
  | some .setUpvalue => .ok (.setUpvalue w.a w.b)
  | some .loadConstant =>
    match pool[w.bx.toNat]? with
    | some value => .ok (.loadConstant w.a value)
    | none => .error (.constantOutOfRange w.bx pool.size)
  | some .call => .ok (.call w.a w.b w.c)
  | some .copy => .ok (.copy w.a w.b)
  | some .halt => .ok .halt

/-- Where an instruction sequence stops encoding, and why. -/
structure EncodeFailure where
  index : Nat
  cause : CodecError
  deriving DecidableEq, Repr

/-- Appends the words of a sequence to `words`, growing the pool as it goes. -/
def encodeFrom (words : Array Word) (pool : ConstantPool) :
    List Instruction → Except EncodeFailure (Array Word × ConstantPool)
  | [] => .ok (words, pool)
  | i :: rest =>
    match i.encode pool with
    | .error failure => .error ⟨words.size, failure⟩
    | .ok (w, pool) => encodeFrom (words.push w) pool rest

/-- The words of a whole sequence and the pool they refer to. -/
def encodeAll (code : List Instruction) : Except EncodeFailure (Array Word × ConstantPool) :=
  encodeFrom #[] #[] code

end Instruction

end ClosureMachine

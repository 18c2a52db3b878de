/-!
# Numbers

A number is an IEEE-754 binary64, held by its bit pattern, so that a constant keeps the
sign of a zero and the payload of a NaN wherever it is stored. Equality of `Number`s is
equality of patterns; the arithmetic comparison is `sameValue`.
-/

namespace ClosureMachine

structure Number where
  bits : UInt64
  deriving DecidableEq, Repr, Inhabited

namespace Number

def ofFloat (x : Float) : Number := ⟨x.toBits⟩

def toFloat (n : Number) : Float := Float.ofBits n.bits

/-- Rounds to nearest, ties to even. -/
def add (x y : Number) : Number := ofFloat (x.toFloat + y.toFloat)

def isNegative (n : Number) : Bool := n.bits.toNat ≥ 0x8000000000000000

def exponentField (n : Number) : Nat := n.bits.toNat / 0x10000000000000 % 0x800

def fractionField (n : Number) : Nat := n.bits.toNat % 0x10000000000000

def isNaN (n : Number) : Bool := n.exponentField == 2047 && n.fractionField != 0

def isInfinite (n : Number) : Bool := n.exponentField == 2047 && n.fractionField == 0

def isZero (n : Number) : Bool := n.bits.toNat % 0x8000000000000000 == 0

/-- IEEE equality: a NaN equals nothing, and the two zeros are equal. -/
def sameValue (x y : Number) : Bool :=
  !x.isNaN && !y.isNaN && (x == y || (x.isZero && y.isZero))

end Number

end ClosureMachine

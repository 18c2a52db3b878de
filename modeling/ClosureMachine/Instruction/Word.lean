/-!
# Instruction words

A word holds the opcode in its most significant byte and then the operands: three bytes
`a`, `b`, `c`, or the byte `a` and the sixteen bits `bx`.
-/

namespace ClosureMachine

abbrev Word := UInt32

namespace Word

def ofBytes (op a b c : UInt8) : Word :=
  UInt32.ofNat (op.toNat * 0x1000000 + a.toNat * 0x10000 + b.toNat * 0x100 + c.toNat)

def ofWide (op a : UInt8) (bx : UInt16) : Word :=
  UInt32.ofNat (op.toNat * 0x1000000 + a.toNat * 0x10000 + bx.toNat)

def op (w : Word) : UInt8 := UInt8.ofNat (w.toNat / 0x1000000)

def a (w : Word) : UInt8 := UInt8.ofNat (w.toNat / 0x10000)

def b (w : Word) : UInt8 := UInt8.ofNat (w.toNat / 0x100)

def c (w : Word) : UInt8 := UInt8.ofNat w.toNat

def bx (w : Word) : UInt16 := UInt16.ofNat w.toNat

end Word

end ClosureMachine

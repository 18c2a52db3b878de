import ClosureMachine.Image.Bytes
import ClosureMachine.Image.Error

/-!
# Reading images

An image is the magic bytes, a count of code objects, that many blocks, and the entry. A
block is a name, a stack size, the constants and the words of one code object, each list
after its length. A reader takes a field off the front of the input and gives back the
rest, so bytes after an image are left alone.
-/

namespace ClosureMachine.Image

abbrev Reader (α : Type) := List UInt8 → Except ImageError (α × List UInt8)

def readBytes (n : Nat) : Reader (List UInt8) := fun bytes =>
  match splitBytes? n bytes with
  | some r => .ok r
  | none => .error .truncated

def readNat (width : Nat) : Reader Nat := fun bytes =>
  match splitBytes? width bytes with
  | some (field, rest) => .ok (littleEndian field, rest)
  | none => .error .truncated

/-- A four-byte length that must not exceed `limit`. -/
def readLength (limit : Nat) (tooLarge : Nat → ImageError) : Reader Nat := fun bytes =>
  match readNat 4 bytes with
  | .error e => .error e
  | .ok (n, rest) => if limit < n then .error (tooLarge n) else .ok (n, rest)

def readMany {α : Type} (item : Reader α) : Nat → Array α → Reader (Array α)
  | 0, acc, bytes => .ok (acc, bytes)
  | n + 1, acc, bytes =>
    match item bytes with
    | .error e => .error e
    | .ok (a, rest) => readMany item n (acc.push a) rest

def readConstant : Reader Number := fun bytes =>
  match readNat 8 bytes with
  | .error e => .error e
  | .ok (n, rest) => .ok (⟨UInt64.ofNat n⟩, rest)

/-- Appends `n` instructions to `acc`, each a word decoded against `pool`. -/
def readInstructions (code : String) (pool : ConstantPool) :
    Nat → Array Instruction → Reader (Array Instruction)
  | 0, acc, bytes => .ok (acc, bytes)
  | n + 1, acc, bytes =>
    match readNat 4 bytes with
    | .error e => .error e
    | .ok (w, rest) =>
      match Instruction.decode (UInt32.ofNat w) pool with
      | .error cause => .error (.codec code acc.size cause)
      | .ok i => readInstructions code pool n (acc.push i) rest

def readName : Reader String := fun bytes => do
  let (length, bytes) ← readLength maxNameLength .nameTooLong bytes
  let (name, bytes) ← readBytes length bytes
  match String.fromUTF8? ⟨name.toArray⟩ with
  | some name => return (name, bytes)
  | none => throw .badName

def readCode : Reader CodeObject := fun bytes => do
  let (name, bytes) ← readName bytes
  let (stackSize, bytes) ← readNat 2 bytes
  let (constants, bytes) ← readLength maxConstants .tooManyConstants bytes
  let (pool, bytes) ← readMany readConstant constants #[] bytes
  let (length, bytes) ← readLength maxCodeLength .codeTooLong bytes
  let (instructions, bytes) ← readInstructions name pool length #[] bytes
  return ({ name, stackSize := UInt16.ofNat stackSize, instructions }, bytes)

def readMagic : Reader Unit := fun bytes =>
  match readBytes magic.length bytes with
  | .error e => .error e
  | .ok (front, rest) => if front = magic then .ok ((), rest) else .error .badMagic

/-- Reads a program without checking it. -/
def readProgram : Reader Program := fun bytes => do
  let ((), bytes) ← readMagic bytes
  let (count, bytes) ← readLength maxCodes .tooManyCodes bytes
  let (codes, bytes) ← readMany readCode count #[] bytes
  let (entry, bytes) ← readNat 2 bytes
  return ({ codes, entry := UInt16.ofNat entry }, bytes)

def readChecked : Reader Program := fun bytes => do
  let (program, bytes) ← readProgram bytes
  match program.defect? with
  | some defect => throw (.defective defect)
  | none => return (program, bytes)

end ClosureMachine.Image

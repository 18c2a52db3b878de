import ClosureMachine.Image.Bytes
import ClosureMachine.Image.Error

/-!
# Writing images

Each code object is encoded in full before a byte of its block is written, so an image
that could not be finished ends after a whole block.
-/

namespace ClosureMachine

namespace Image

def nameBytes (name : String) : List UInt8 := name.toByteArray.data.toList

/-- The block of a code object whose encoding is at hand. -/
def encodedBlock (code : CodeObject) (words : Array Word) (pool : ConstantPool) :
    List UInt8 :=
  let name := nameBytes code.name
  digits256 4 name.length ++ name ++ digits256 2 code.stackSize.toNat
    ++ digits256 4 pool.size ++ pool.toList.flatMap (fun k => digits256 8 k.bits.toNat)
    ++ digits256 4 words.size ++ words.toList.flatMap (fun w => digits256 4 w.toNat)

def codeBlock (code : CodeObject) : Except ImageError (List UInt8) :=
  let length := (nameBytes code.name).length
  if maxNameLength < length then .error (.nameTooLong length)
  else
    match Instruction.encodeAll code.instructions.toList with
    | .error failure => .error (.codec code.name failure.index failure.cause)
    | .ok (words, pool) => .ok (encodedBlock code words pool)

/-- What a writer put out, and what stopped it, if anything did. -/
structure Output where
  bytes : Array UInt8
  failure : Option ImageError
  deriving DecidableEq

/-- Appends the blocks of `codes` to `acc` until one cannot be encoded. -/
def writeBlocks (acc : Array UInt8) : List CodeObject → Output
  | [] => ⟨acc, none⟩
  | code :: rest =>
    match codeBlock code with
    | .error e => ⟨acc, some e⟩
    | .ok block => writeBlocks (acc ++ block) rest

def header (count : Nat) : List UInt8 := magic ++ digits256 4 count

def writeProgram (p : Program) : Output :=
  if maxCodes < p.codes.size then ⟨#[], some (.tooManyCodes p.codes.size)⟩
  else
    let out := writeBlocks (header p.codes.size).toArray p.codes.toList
    match out.failure with
    | some _ => out
    | none => ⟨out.bytes ++ digits256 2 p.entry.toNat, none⟩

end Image

/-- The image of a program. -/
def Program.image (p : Program) : Except ImageError (Array UInt8) :=
  let out := Image.writeProgram p
  match out.failure with
  | some e => .error e
  | none => .ok out.bytes

end ClosureMachine

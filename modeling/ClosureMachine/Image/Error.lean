import ClosureMachine.Files
import ClosureMachine.Instruction.Codec
import ClosureMachine.Program.Check

/-!
# Image limits and errors
-/

namespace ClosureMachine

namespace Image

/-- The first bytes of every image; the last of them is the version of the format. -/
def magic : List UInt8 := [0x55, 0x50, 0x56, 0x01]

def maxCodes : Nat := 65536

def maxNameLength : Nat := 1024

def maxConstants : Nat := 65536

def maxCodeLength : Nat := 1000000

end Image

/-- Why an image cannot be read or written. The limits are checked before anything of the
announced size is read. -/
inductive ImageError where
  | truncated
  | unreadable (cause : FileError)
  | badMagic
  | badName
  | tooManyCodes (count : Nat)
  | nameTooLong (length : Nat)
  | tooManyConstants (count : Nat)
  | codeTooLong (length : Nat)
  | codec (code : String) (index : Nat) (cause : CodecError)
  | defective (defect : Defect)
  deriving DecidableEq, Repr

def ImageError.message : ImageError → String
  | .truncated => "i/o error: failed to fill whole buffer"
  | .unreadable cause => s!"i/o error: {cause.message}"
  | .badMagic => "invalid executable: Invalid binary magic or version"
  | .badName => "invalid executable: Invalid UTF-8 in code object name"
  | .tooManyCodes count => s!"executable rejected: Prototype count too large: {count}"
  | .nameTooLong length =>
    s!"executable rejected: Code object name length exceeds limit of {Image.maxNameLength}: "
      ++ toString length
  | .tooManyConstants count => s!"executable rejected: Constant count too large: {count}"
  | .codeTooLong length => s!"executable rejected: Bytecode length too large: {length}"
  | .codec code index cause => s!"in '{code}' at instruction {index}: {cause.message}"
  | .defective defect => defect.message

end ClosureMachine

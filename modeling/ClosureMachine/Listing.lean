import ClosureMachine.Instruction.Codec
import ClosureMachine.Instruction.Text
import ClosureMachine.Program

/-!
# Listings

A listing shows each instruction of a program with its word. The words are those of a
fresh encoding of each code object.
-/

namespace ClosureMachine

namespace Listing

/-- Digits in the given base, padded with zeros on the left. -/
def paddedDigits (base width n : Nat) : String :=
  let ds := Nat.toDigits base n
  String.ofList (List.replicate (width - ds.length) '0' ++ ds)

def line (index : Nat) (w : Word) (i : Instruction) : String :=
  let body := s!"{paddedDigits 10 4 index} {paddedDigits 16 8 w.toNat} {i}"
  match i with
  | .loadConstant .. => s!"{body} ; K[{w.bx}]\n"
  | _ => body ++ "\n"

def header (position : Nat) (code : CodeObject) : String :=
  let size := code.instructions.size
  s!"\nP[{position}] {code.name} (stack_size {code.stackSize}, {size} instructions)\n"

/-- The lines of one code object, from instruction `index` on. -/
def lines (index : Nat) (acc : String) : List (Word × Instruction) → String
  | [] => acc
  | (w, i) :: rest => lines (index + 1) (acc ++ line index w i) rest

def codeText (position : Nat) (code : CodeObject) : Except CodecError String :=
  match Instruction.encodeAll code.instructions.toList with
  | .error failure => .error failure.cause
  | .ok (words, _) =>
    .ok (lines 0 (header position code) (words.toList.zip code.instructions.toList))

def codeTexts (position : Nat) (acc : String) : List CodeObject → Except CodecError String
  | [] => .ok acc
  | code :: rest =>
    match codeText position code with
    | .error cause => .error cause
    | .ok text => codeTexts (position + 1) (acc ++ text) rest

end Listing

/-- The listing of a program, which need not be well formed. -/
def Program.listing (p : Program) : Except CodecError String :=
  Listing.codeTexts 0 s!"entry: P[{p.entry}]\n" p.codes.toList

end ClosureMachine

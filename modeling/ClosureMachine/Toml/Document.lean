import ClosureMachine.Toml.Date
import ClosureMachine.Toml.Value

/-!
# TOML documents

A document is a sequence of lines: assignments and headers. Reading fails as a whole; there
is no account of where.
-/

namespace ClosureMachine.Toml

abbrev Reader (α : Type) := List Char → Option (α × List Char)

def isBareKeyChar (c : Char) : Bool :=
  ('a' ≤ c && c ≤ 'z') || ('A' ≤ c && c ≤ 'Z') || isDecimal c || c == '-' || c == '_'

def keyPart? : Reader String := fun cs =>
  match lineString? cs with
  | some (s, rest) => some (String.ofList s, rest)
  | none =>
    match cs.takeWhile isBareKeyChar with
    | [] => none
    | s => some (String.ofList s, cs.dropWhile isBareKeyChar)

/-- A dotted key has a first part and further ones. -/
structure Key where
  head : String
  tail : List String

def Key.parts (k : Key) : List String := k.head :: k.tail

/-- A dotted key has at most so many parts. -/
def maxKeyParts : Nat := 79

/-- The parts of a dotted key, at most `count` of them. Blanks may stand around each. -/
def keyParts? : (count : Nat) → Reader (List String)
  | 0, _ => none
  | count + 1, cs => do
    let (part, rest) ← keyPart? (skipBlanks cs)
    match skipBlanks rest with
    | '.' :: rest =>
      let (parts, rest) ← keyParts? count rest
      return (part :: parts, rest)
    | rest => return ([part], rest)

def key? : Reader Key := fun cs =>
  match keyParts? maxKeyParts cs with
  | some (head :: tail, rest) => some (⟨head, tail⟩, rest)
  | _ => none

/-- What a number or a word is made of. -/
def isTokenChar (c : Char) : Bool := isBareKeyChar c || c == '+' || c == '.'

def word? (token : List Char) : Option Value :=
  if token == "true".toList then some (.boolean true)
  else if token == "false".toList then some (.boolean false)
  else
    match integer? token with
    | some n => some (.integer n)
    | none => if isFloat token then some .float else none

/-- A value that has no values in it. -/
def scalar? : Reader Value := fun cs =>
  match string? cs with
  | some (s, rest) => some (.string (String.ofList s), rest)
  | none =>
    match dateTime? cs with
    | some rest => some (.date, rest)
    | none => (word? (cs.takeWhile isTokenChar)).map fun v => (v, cs.dropWhile isTokenChar)

/-- The elements of an array, at most `fuel` of them, and its closing bracket. A comma may
follow the last. -/
def items? (element? : Reader Value) : (fuel : Nat) → Reader (List Value)
  | 0, _ => none
  | fuel + 1, cs =>
    match cs with
    | ']' :: rest => some ([], rest)
    | _ => do
      let (item, rest) ← element? cs
      match ← skipFiller? false rest with
      | ',' :: rest =>
        let rest ← skipFiller? false rest
        let (items, rest) ← items? element? fuel rest
        return (item :: items, rest)
      | ']' :: rest => return ([item], rest)
      | _ => none

/-- The assignments of an inline table, at most `fuel` of them, and its closing brace. -/
def fields? (element? : Reader Value) : (fuel : Nat) → Entries → Reader Entries
  | 0, _, _ => none
  | fuel + 1, entries, cs => do
    let (key, rest) ← key? cs
    let '=' :: rest := rest | none
    let (value, rest) ← element? (skipBlanks rest)
    let entries ← entries.assign? value key.head key.tail
    match skipBlanks rest with
    | ',' :: rest => fields? element? fuel entries rest
    | '\x7d' :: rest => return (entries, rest)
    | _ => none

/-- Arrays and inline tables nest at most so deep. -/
def maxNesting : Nat := 79

/-- A value with at most `levels` of nesting. An element takes at least one character, so
that the length of the input is enough `fuel`. -/
def value? (fuel : Nat) : (levels : Nat) → Reader Value
  | 0 => scalar?
  | levels + 1 => fun cs =>
    match cs with
    | '[' :: rest => do
      let rest ← skipFiller? false rest
      let (items, rest) ← items? (value? fuel levels) fuel rest
      return (.array items, rest)
    | '\x7b' :: rest => do
      let (entries, rest) ← match skipBlanks rest with
        | '\x7d' :: rest => some ([], rest)
        | rest => fields? (value? fuel levels) fuel [] rest
      return (.table .inline entries, rest)
    | _ => scalar? cs

/-- What has been read: everything so far, and where assignments go. -/
structure Progress where
  entries : Entries
  table : List String

def openHeader? (p : Progress) (key : Key) : Option Progress := do
  let entries ← p.entries.openTable? key.head key.tail
  return ⟨entries, key.parts⟩

def openListHeader? (p : Progress) (key : Key) : Option Progress := do
  let entries ← p.entries.openListed? key.head key.tail
  return ⟨entries, key.parts⟩

def assignLine? (p : Progress) (key : Key) (value : Value) : Option Progress := do
  let entries ← p.entries.update? (·.assign? value key.head key.tail) p.table
  return { p with entries }

/-- One line that is not empty. -/
def statement? (fuel : Nat) (p : Progress) : Reader Progress := fun cs =>
  match cs with
  | '[' :: '[' :: rest => do
    let (key, rest) ← key? rest
    let ']' :: ']' :: rest := rest | none
    return (← openListHeader? p key, ← closeLine? rest)
  | '[' :: rest => do
    let (key, rest) ← key? rest
    let ']' :: rest := rest | none
    return (← openHeader? p key, ← closeLine? rest)
  | _ => do
    let (key, rest) ← key? cs
    let '=' :: rest := rest | none
    let (value, rest) ← value? fuel maxNesting (skipBlanks rest)
    return (← assignLine? p key value, ← closeLine? rest)

/-- The lines of a document. A line takes at least one character, so that the length of
the input is enough `fuel`. -/
def lines? : Nat → Progress → List Char → Option Entries
  | 0, _, _ => none
  | fuel + 1, p, cs =>
    match skipBlanks cs with
    | [] => some p.entries
    | '#' :: rest => do lines? fuel p (← lineEnd? (rest.dropWhile isCommentChar))
    | cs =>
      match newline? cs with
      | some rest => lines? fuel p rest
      | none => do
        let (p, rest) ← statement? (fuel + 1) p cs
        lines? fuel p rest

def skipByteOrderMark : List Char → List Char
  | '\ufeff' :: rest => rest
  | cs => cs

/-- The entries of the root table. -/
def document? (text : String) : Option Entries :=
  let cs := skipByteOrderMark text.toList
  lines? (cs.length + 1) ⟨[], []⟩ cs

end ClosureMachine.Toml

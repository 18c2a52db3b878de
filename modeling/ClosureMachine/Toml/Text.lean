/-!
# TOML text

Blanks, comments, line ends and quoted strings. Each reader takes what it reads off the
front of the input and gives back the rest.
-/

namespace ClosureMachine.Toml

def isBlank (c : Char) : Bool := c == ' ' || c == '\t'

def skipBlanks (cs : List Char) : List Char := cs.dropWhile isBlank

/-- What may stand in a comment: no control characters but the tab. -/
def isCommentChar (c : Char) : Bool := c == '\t' || (32 ≤ c.toNat && c.toNat != 127)

def newline? : List Char → Option (List Char)
  | '\n' :: rest => some rest
  | '\r' :: '\n' :: rest => some rest
  | _ => none

/-- The end of a line or of the input. -/
def lineEnd? : List Char → Option (List Char)
  | [] => some []
  | cs => newline? cs

def skipComment : List Char → List Char
  | '#' :: rest => rest.dropWhile isCommentChar
  | cs => cs

/-- What may follow a statement on its line. -/
def closeLine? (cs : List Char) : Option (List Char) :=
  lineEnd? (skipComment (skipBlanks cs))

/-- Skips blanks, line ends and comments between the elements of an array. A comment there
has to end with its line. -/
def skipFiller? (inComment : Bool) : List Char → Option (List Char)
  | [] => if inComment then none else some []
  | '\n' :: rest => skipFiller? false rest
  | '\r' :: '\n' :: rest => skipFiller? false rest
  | c :: rest =>
    if inComment then if isCommentChar c then skipFiller? true rest else none
    else if isBlank c then skipFiller? false rest
    else if c == '#' then skipFiller? true rest
    else some (c :: rest)

def hexDigit? (c : Char) : Option Nat :=
  if '0' ≤ c ∧ c ≤ '9' then some (c.toNat - '0'.toNat)
  else if 'a' ≤ c ∧ c ≤ 'f' then some (c.toNat - 'a'.toNat + 10)
  else if 'A' ≤ c ∧ c ≤ 'F' then some (c.toNat - 'A'.toNat + 10)
  else none

/-- The character whose number is written in hexadecimal. -/
def codePoint? (digits : List Char) : Option Char := do
  let n ← digits.foldlM (fun acc c => (hexDigit? c).map (16 * acc + ·)) 0
  if n.isValidChar then some (Char.ofNat n) else none

def escape? : Char → Option Char
  | 'b' => some '\x08'
  | 't' => some '\t'
  | 'n' => some '\n'
  | 'f' => some '\x0c'
  | 'r' => some '\r'
  | '"' => some '"'
  | '\\' => some '\\'
  | _ => none

abbrev Quoted := Option (List Char × List Char)

def Quoted.cons (c : Char) (q : Quoted) : Quoted := q.map fun (s, rest) => (c :: s, rest)

/-- The rest of a string in double quotes, on one line. -/
def basicString : List Char → Quoted
  | [] => none
  | '"' :: rest => some ([], rest)
  | '\\' :: 'u' :: a :: b :: c :: d :: rest =>
    match codePoint? [a, b, c, d] with
    | some x => (basicString rest).cons x
    | none => none
  | '\\' :: 'U' :: a :: b :: c :: d :: e :: f :: g :: h :: rest =>
    match codePoint? [a, b, c, d, e, f, g, h] with
    | some x => (basicString rest).cons x
    | none => none
  | '\\' :: e :: rest =>
    match escape? e with
    | some x => (basicString rest).cons x
    | none => none
  | c :: rest => if isCommentChar c && c != '\\' then (basicString rest).cons c else none

/-- The rest of a string in single quotes, on one line. -/
def literalString : List Char → Quoted
  | [] => none
  | '\'' :: rest => some ([], rest)
  | c :: rest => if isCommentChar c then (literalString rest).cons c else none

/-- Where a string over several lines stands: in its text, or after a backslash that ends
a line, before or after the end of that line. -/
inductive LineMode where
  | text
  | beforeBreak
  | afterBreak
  deriving DecidableEq

/-- The rest of a string in triple double quotes. One or two quotes may stand right before
the closing ones. -/
def basicLines : LineMode → List Char → Quoted
  | _, [] => none
  | mode, '\n' :: rest =>
    match mode with
    | .text => (basicLines .text rest).cons '\n'
    | _ => basicLines .afterBreak rest
  | mode, '\r' :: '\n' :: rest =>
    match mode with
    | .text => (basicLines .text rest).cons '\n'
    | _ => basicLines .afterBreak rest
  | .beforeBreak, c :: rest => if isBlank c then basicLines .beforeBreak rest else none
  | _, '"' :: '"' :: '"' :: '"' :: '"' :: rest => some (['"', '"'], rest)
  | _, '"' :: '"' :: '"' :: '"' :: rest => some (['"'], rest)
  | _, '"' :: '"' :: '"' :: rest => some ([], rest)
  | _, '\\' :: 'u' :: a :: b :: c :: d :: rest =>
    match codePoint? [a, b, c, d] with
    | some x => (basicLines .text rest).cons x
    | none => none
  | _, '\\' :: 'U' :: a :: b :: c :: d :: e :: f :: g :: h :: rest =>
    match codePoint? [a, b, c, d, e, f, g, h] with
    | some x => (basicLines .text rest).cons x
    | none => none
  | _, '\\' :: '\r' :: '\n' :: rest => basicLines .afterBreak rest
  | _, '\\' :: e :: rest =>
    match escape? e with
    | some x => (basicLines .text rest).cons x
    | none =>
      if e == '\n' then basicLines .afterBreak rest
      else if isBlank e then basicLines .beforeBreak rest
      else none
  | mode, c :: rest =>
    if mode = .afterBreak && isBlank c then basicLines .afterBreak rest
    else if isCommentChar c && c != '\\' then (basicLines .text rest).cons c
    else none

/-- The rest of a string in triple single quotes. -/
def literalLines : List Char → Quoted
  | [] => none
  | '\n' :: rest => (literalLines rest).cons '\n'
  | '\r' :: '\n' :: rest => (literalLines rest).cons '\n'
  | '\'' :: '\'' :: '\'' :: '\'' :: '\'' :: rest => some (['\'', '\''], rest)
  | '\'' :: '\'' :: '\'' :: '\'' :: rest => some (['\''], rest)
  | '\'' :: '\'' :: '\'' :: rest => some ([], rest)
  | c :: rest => if isCommentChar c then (literalLines rest).cons c else none

/-- A line end right after the opening quotes is not part of the string. -/
def skipFirstBreak (cs : List Char) : List Char := (newline? cs).getD cs

/-- A string on one line, as a key may be. -/
def lineString? : List Char → Quoted
  | '"' :: rest => basicString rest
  | '\'' :: rest => literalString rest
  | _ => none

def string? : List Char → Quoted
  | '"' :: '"' :: '"' :: rest => basicLines .text (skipFirstBreak rest)
  | '\'' :: '\'' :: '\'' :: rest => literalLines (skipFirstBreak rest)
  | cs => lineString? cs

end ClosureMachine.Toml

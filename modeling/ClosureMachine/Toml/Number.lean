import ClosureMachine.Toml.Text

/-!
# TOML numbers

A number is a run of characters up to the next blank, comma, bracket or line end; the
run as a whole has to have one of the written forms. Underscores may stand between
digits.
-/

namespace ClosureMachine.Toml

/-- The digits of a run without the underscores between them. -/
def digitRun? (isDigit : Char → Bool) : List Char → Option (List Char)
  | [] => none
  | [c] => if isDigit c then some [c] else none
  | c :: '_' :: rest => if isDigit c then (digitRun? isDigit rest).map (c :: ·) else none
  | c :: rest => if isDigit c then (digitRun? isDigit rest).map (c :: ·) else none

def isDecimal (c : Char) : Bool := '0' ≤ c && c ≤ '9'

/-- Decimal digits without a leading zero. -/
def decimalRun? (cs : List Char) : Option (List Char) :=
  match digitRun? isDecimal cs with
  | some ('0' :: _ :: _) => none
  | ds => ds

def digitsValue (base : Nat) (ds : List Char) : Nat :=
  ds.foldl (fun acc c => base * acc + (hexDigit? c).getD 0) 0

def inBase (base : Nat) (c : Char) : Bool :=
  match hexDigit? c with
  | some d => d < base
  | none => false

/-- The value of a run of digits, unless it has more digits than any 64-bit integer has in
any base. -/
def boundedValue? (base : Nat) (ds : List Char) : Option Int :=
  let ds := ds.dropWhile (· == '0')
  if 64 < ds.length then none else some (digitsValue base ds)

def natInBase? (base : Nat) (cs : List Char) : Option Int :=
  digitRun? (inBase base) cs >>= boundedValue? base

def decimalNat? (cs : List Char) : Option Int := decimalRun? cs >>= boundedValue? 10

/-- An integer, which may still be out of range. A base other than ten takes no sign. -/
def writtenInteger? : List Char → Option Int
  | '0' :: 'x' :: rest => natInBase? 16 rest
  | '0' :: 'o' :: rest => natInBase? 8 rest
  | '0' :: 'b' :: rest => natInBase? 2 rest
  | '-' :: rest => (decimalNat? rest).map fun n => -n
  | '+' :: rest => decimalNat? rest
  | cs => decimalNat? cs

/-- Integers have 64 bits with a sign. -/
def integer? (cs : List Char) : Option Int := do
  let n ← writtenInteger? cs
  if -0x8000000000000000 ≤ n ∧ n < 0x8000000000000000 then some n else none

/-- A number with a fraction or an exponent, as it is written. -/
structure Decimal where
  negative : Bool
  whole : List Char
  fraction : List Char
  exponent : Int

namespace Decimal

/-- The digits from the first that is not zero. -/
def significant (d : Decimal) : List Char := (d.whole ++ d.fraction).dropWhile (· == '0')

/-- How many significant digits stand before the point once the exponent has moved it. -/
def pointPlace (d : Decimal) : Int :=
  d.significant.length - d.fraction.length + d.exponent

/-- The least magnitude that rounds to infinity, halfway between the largest double and the
power of two above it. It has 309 digits. -/
def overflowLimit : Nat := 0x3fffffffffffff <<< 970

/-- Reaches the limit, which is a whole number, with its whole part. -/
def reachesLimit (d : Decimal) : Bool :=
  !d.significant.isEmpty &&
    (decide (309 < d.pointPlace) ||
      overflowLimit ≤ digitsValue 10
        ((d.significant ++ List.replicate 309 '0').take d.pointPlace.toNat))

/-- Only a positive number is refused for its size. -/
def isAccepted (d : Decimal) : Bool := d.negative || !d.reachesLimit

end Decimal

def dropSign : List Char → List Char
  | '+' :: rest => rest
  | '-' :: rest => rest
  | cs => cs

def isNegative (cs : List Char) : Bool := cs.head? == some '-'

def isExponentMark (c : Char) : Bool := c == 'e' || c == 'E'

/-- The value of an exponent, in which no digit counts once it has reached 65,536. -/
def exponentValue (ds : List Char) : Nat :=
  ds.foldl (fun e c => if e < 65536 then 10 * e + (hexDigit? c).getD 0 else e) 0

/-- The exponent, zero where none is written. -/
def exponent? : List Char → Option Int
  | [] => some 0
  | _ :: cs => (digitRun? isDecimal (dropSign cs)).map fun ds =>
    if isNegative cs then -(exponentValue ds : Int) else exponentValue ds

def isWholeChar (c : Char) : Bool := c != '.' && !isExponentMark c

/-- The fraction and what follows it; without a fraction there is an exponent. -/
def fraction? : List Char → Option (List Char × List Char)
  | [] => none
  | '.' :: rest => (digitRun? isDecimal (rest.takeWhile (!isExponentMark ·))).map fun ds =>
    (ds, rest.dropWhile (!isExponentMark ·))
  | rest => some ([], rest)

def decimal? (cs : List Char) : Option Decimal := do
  let unsigned := dropSign cs
  let whole ← decimalRun? (unsigned.takeWhile isWholeChar)
  let (fraction, rest) ← fraction? (unsigned.dropWhile isWholeChar)
  let exponent ← exponent? rest
  return ⟨isNegative cs, whole, fraction, exponent⟩

def isSpecial (cs : List Char) : Bool :=
  dropSign cs == ['i', 'n', 'f'] || dropSign cs == ['n', 'a', 'n']

def isFloat (cs : List Char) : Bool := isSpecial cs || (decimal? cs).any Decimal.isAccepted

end ClosureMachine.Toml

import ClosureMachine.Number.Shortest

/-!
# Number text

Listings, reports and logs write a number positionally, however long that gets. JSON
switches to an exponent outside a band of magnitudes and always marks a number as
fractional.
-/

namespace ClosureMachine

/-- How a number is laid out as text. -/
structure NumberStyle where
  tie : Tie
  /-- Decimal exponents of the leading digit that are written without an exponent. -/
  positional : Int → Bool
  /-- Follows a whole number written positionally. -/
  wholeSuffix : String
  nan : String
  infinity : String
  negativeInfinity : String

namespace NumberStyle

/-- The fewest digits, never an exponent; a half goes up. -/
def plain : NumberStyle :=
  { tie := .up, positional := fun _ => true, wholeSuffix := "",
    nan := "NaN", infinity := "inf", negativeInfinity := "-inf" }

/-- The fewest digits, a half goes to even, an exponent below `1e-5` and from `1e16` on.
JSON has no word for what is not finite. -/
def json : NumberStyle :=
  { tie := .even, positional := fun e => -5 ≤ e && e ≤ 15, wholeSuffix := ".0",
    nan := "null", infinity := "null", negativeInfinity := "null" }

end NumberStyle

namespace Decimal

def zeros (n : Nat) : List Char := List.replicate n '0'

def digitChars (d : Decimal) : List Char := Nat.toDigits 10 d.digits

/-- The exponent of the leading digit in scientific form. -/
def leadingExponent (d : Decimal) : Int := d.digitChars.length + d.exponent - 1

def positionalChars (wholeSuffix : String) (d : Decimal) : List Char :=
  let ds := d.digitChars
  if 0 ≤ d.exponent then ds ++ zeros d.exponent.toNat ++ wholeSuffix.toList
  else
    let places := (-d.exponent).toNat
    if places < ds.length then
      ds.take (ds.length - places) ++ '.' :: ds.drop (ds.length - places)
    else '0' :: '.' :: zeros (places - ds.length) ++ ds

def exponentChars (e : Int) : List Char :=
  'e' :: (if 0 ≤ e then '+' else '-') :: Nat.toDigits 10 e.natAbs

def scientificChars (d : Decimal) : List Char :=
  let mantissa := match d.digitChars with
    | [] => []
    | [c] => [c]
    | c :: rest => c :: '.' :: rest
  mantissa ++ exponentChars d.leadingExponent

def text (style : NumberStyle) (d : Decimal) : String :=
  String.ofList <|
    if style.positional d.leadingExponent then d.positionalChars style.wholeSuffix
    else d.scientificChars

end Decimal

namespace Number

def text (style : NumberStyle) (n : Number) : String :=
  if n.isNaN then style.nan
  else if n.isInfinite then
    if n.isNegative then style.negativeInfinity else style.infinity
  else
    let magnitude :=
      if n.isZero then "0" ++ style.wholeSuffix
      else (n.magnitude.shortest style.tie).text style
    if n.isNegative then "-" ++ magnitude else magnitude

instance : ToString Number := ⟨Number.text .plain⟩

end Number

end ClosureMachine

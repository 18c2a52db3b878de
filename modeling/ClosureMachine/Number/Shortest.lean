import ClosureMachine.Number

/-!
# Shortest decimals

A finite positive double is `significand * 2 ^ exponent`. The reals that round to it form
an interval around it; `shortest` picks from that interval the point of the coarsest
decimal grid that has one, and among the points of that grid the nearest. The interval is
measured once, in units so fine that some point of their grid lies inside; the coarser
grids are the multiples of those units. All arithmetic is on natural numbers.
-/

namespace ClosureMachine

/-- The value `digits * 10 ^ exponent`. -/
structure Decimal where
  digits : Nat
  exponent : Int
  deriving DecidableEq, Repr

/-- The value `significand * 2 ^ exponent`. -/
structure Binary where
  significand : Nat
  exponent : Int
  deriving DecidableEq, Repr

/-- Where a value half way between two points of a decimal grid goes. -/
inductive Tie where
  | up
  | even
  deriving DecidableEq, Repr

namespace Number

/-- The magnitude of a finite number. -/
def magnitude (n : Number) : Binary :=
  if n.exponentField = 0 then ⟨n.fractionField, -1074⟩
  else ⟨0x10000000000000 + n.fractionField, (n.exponentField : Int) - 1075⟩

end Number

namespace Binary

/-- The neighbour below is at half the distance when the significand is the least of its
binade; only the lowest binade has no such step. -/
def halfGapBelow (b : Binary) : Nat :=
  if b.significand = 0x10000000000000 ∧ b.exponent ≠ -1074 then 1 else 2

/-- What is left of a value after its whole units, measured by half a unit. -/
inductive Rest where
  | zero
  | underHalf
  | half
  | overHalf
  deriving DecidableEq, Repr

def Rest.of (rest unit : Nat) : Rest :=
  if rest = 0 then .zero
  else
    match compare (2 * rest) unit with
    | .lt => .underHalf
    | .eq => .half
    | .gt => .overHalf

/-- A value and the interval that rounds to it, measured in units of `10 ^ place`. -/
structure Span where
  place : Int
  /-- The least and the greatest whole number of units inside. -/
  low : Nat
  high : Nat
  /-- The whole units of the value, and what is left. -/
  value : Nat
  rest : Rest
  deriving DecidableEq, Repr

/-- The ends of the interval round to the value if its significand is even. Every quantity
is multiplied by one common factor that makes it a natural number. -/
def span (b : Binary) (place : Int) : Span :=
  let e := b.exponent - 2
  let scale := Nat.pow 2 e.toNat * Nat.pow 10 (-place).toNat
  let unit := Nat.pow 10 place.toNat * Nat.pow 2 (-e).toNat
  let value := 4 * b.significand * scale
  let low := (4 * b.significand - b.halfGapBelow) * scale
  let high := (4 * b.significand + 2) * scale
  let closed := b.significand % 2 == 0
  { place
    low := if closed then (low + unit - 1) / unit else low / unit + 1
    high := if closed then high / unit else (high - 1) / unit
    value := value / unit
    rest := .of (value % unit) unit }

namespace Span

/-- Whether the point at `units` lies in the interval. -/
def covers (s : Span) (units : Nat) : Bool := s.low ≤ units && units ≤ s.high

/-- Where the value lies between the two points around it on the grid of `step` units: in
the lower half, in the middle or in the upper half. -/
def half (s : Span) (step : Nat) : Ordering :=
  let twice := 2 * (s.value % step)
  if twice = step then if s.rest = .zero then .eq else .gt
  else if twice + 1 = step then
    match s.rest with
    | .zero | .underHalf => .lt
    | .half => .eq
    | .overHalf => .gt
  else compare twice step

/-- The nearest point inside the interval on the grid of `step` units, if there is one. -/
def nearest? (tie : Tie) (s : Span) (step : Nat) : Option Nat :=
  let below := s.value / step
  let above := below + 1
  match s.covers (below * step), s.covers (above * step) with
  | false, false => none
  | true, false => some below
  | false, true => some above
  | true, true =>
    match s.half step, tie with
    | .lt, _ => some below
    | .gt, _ => some above
    | .eq, .up => some above
    | .eq, .even => some (if below % 2 = 0 then below else above)

/-- Tries the grids of `10 ^ k` units, `10 ^ (k - 1)` units, and so on down to one. -/
def shortestFrom (tie : Tie) (s : Span) : (k : Nat) → Option Decimal
  | 0 => (s.nearest? tie 1).map fun digits => ⟨digits, s.place⟩
  | k + 1 =>
    match s.nearest? tie (Nat.pow 10 (k + 1)) with
    | some digits => some ⟨digits, s.place + (k + 1)⟩
    | none => s.shortestFrom tie k

end Span

/-- A power of ten above the value, at most the second one, from `log10 2` up to five
places. -/
def placeAbove (b : Binary) : Int :=
  (b.significand.log2 + 1 + b.exponent) * 30103 / 100000 + 1

/-- The decimal with the fewest digits that rounds to the value. Seventeen digits always
do, so eighteen places below the value are fine enough. -/
def shortest (tie : Tie) (b : Binary) : Decimal :=
  ((b.span (b.placeAbove - 18)).shortestFrom tie 18).getD ⟨0, 0⟩

end Binary

end ClosureMachine

import ClosureMachine.Toml.Number

/-!
# TOML dates and times

A date, a time of day, or both, with an offset from universal time if both. Only the form
matters here: each reader checks the ranges and gives back the rest of the input.
-/

namespace ClosureMachine.Toml

/-- Two digits. -/
def pair? : List Char → Option (Nat × List Char)
  | a :: b :: rest =>
    if isDecimal a && isDecimal b then some (digitsValue 10 [a, b], rest) else none
  | _ => none

def isLeapYear (year : Nat) : Bool := year % 4 == 0 && (year % 100 != 0 || year % 400 == 0)

def daysInMonth (year month : Nat) : Nat :=
  if month = 2 then if isLeapYear year then 29 else 28
  else if month ∈ [4, 6, 9, 11] then 30
  else 31

/-- Four digits of a year, and two each of the month and the day. -/
def date? (cs : List Char) : Option (List Char) := do
  let (century, rest) ← pair? cs
  let (yearInCentury, rest) ← pair? rest
  let '-' :: rest := rest | none
  let (month, rest) ← pair? rest
  let '-' :: rest := rest | none
  let (day, rest) ← pair? rest
  let year := 100 * century + yearInCentury
  if 1 ≤ month ∧ month ≤ 12 ∧ 1 ≤ day ∧ day ≤ daysInMonth year month then some rest
  else none

/-- Hours and minutes. -/
def clock? (cs : List Char) : Option (List Char) := do
  let (hour, rest) ← pair? cs
  let ':' :: rest := rest | none
  let (minute, rest) ← pair? rest
  if hour ≤ 23 ∧ minute ≤ 59 then some rest else none

/-- A fraction of a second, if there is one. -/
def skipSecondFraction (cs : List Char) : List Char :=
  match cs with
  | '.' :: c :: rest => if isDecimal c then rest.dropWhile isDecimal else cs
  | _ => cs

/-- Hours, minutes and seconds. A minute may have a leap second. -/
def time? (cs : List Char) : Option (List Char) := do
  let ':' :: rest ← clock? cs | none
  let (second, rest) ← pair? rest
  if second ≤ 60 then some (skipSecondFraction rest) else none

/-- An offset, if there is one. -/
def skipOffset (cs : List Char) : List Char :=
  match cs with
  | 'Z' :: rest => rest
  | 'z' :: rest => rest
  | '+' :: rest => (clock? rest).getD cs
  | '-' :: rest => (clock? rest).getD cs
  | _ => cs

/-- The time that may follow a date. -/
def skipTime (cs : List Char) : List Char :=
  match cs with
  | [] => []
  | c :: rest =>
    if c == 'T' || c == 't' || c == ' ' then ((time? rest).map skipOffset).getD cs else cs

def dateTime? (cs : List Char) : Option (List Char) :=
  match date? cs with
  | some rest => some (skipTime rest)
  | none => time? cs

end ClosureMachine.Toml

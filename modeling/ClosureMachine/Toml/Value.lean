/-!
# TOML values

A table remembers how it came about, because only some tables may be extended later.
-/

namespace ClosureMachine.Toml

inductive TableKind where
  /-- Written between braces; complete as it stands. -/
  | inline
  /-- Opened by a header of its own. -/
  | header
  /-- Passed through by a header of a table below it. -/
  | passed
  /-- Passed through by a dotted key. -/
  | dotted
  deriving DecidableEq

inductive Value where
  | string (s : String)
  | integer (n : Int)
  | float
  | date
  | boolean (b : Bool)
  | array (items : List Value)
  | table (kind : TableKind) (entries : List (String × Value))
  /-- Tables opened one after the other under one name, the last one first. -/
  | tables (items : List (List (String × Value)))

/-- The newest entry comes first. -/
abbrev Entries := List (String × Value)

namespace Entries

def get? (entries : Entries) (key : String) : Option Value :=
  (List.find? (·.1 == key) entries).map Prod.snd

/-- Gives a value to a key that has none yet. -/
def add (entries : Entries) (key : String) (value : Value) : Entries := (key, value) :: entries

/-- Gives another value to a key that has one. -/
def replace (key : String) (value : Value) : Entries → Entries
  | [] => []
  | e :: rest => if e.1 == key then (key, value) :: rest else e :: replace key value rest

/-- Assigns to a dotted key, whose first part is `key`. Nothing is assigned twice, and only
tables that dotted keys made are extended. -/
def assign? (value : Value) (key : String) : List String → Entries → Option Entries
  | [], entries =>
    match entries.get? key with
    | some _ => none
    | none => some (entries.add key value)
  | next :: rest, entries =>
    match entries.get? key with
    | none => (assign? value next rest []).map fun below => entries.add key (.table .dotted below)
    | some (.table .dotted below) =>
      (assign? value next rest below).map fun below => entries.replace key (.table .dotted below)
    | some _ => none

/-- Opens the table of a header whose first part is `key`. -/
def openTable? (key : String) : List String → Entries → Option Entries
  | [], entries =>
    match entries.get? key with
    | none => some (entries.add key (.table .header []))
    | some (.table .passed below) => some (entries.replace key (.table .header below))
    | some _ => none
  | next :: rest, entries =>
    match entries.get? key with
    | none => (openTable? next rest []).map fun below => entries.add key (.table .passed below)
    | some (.table .inline _) => none
    | some (.table kind below) =>
      (openTable? next rest below).map fun below => entries.replace key (.table kind below)
    | some (.tables (last :: earlier)) =>
      (openTable? next rest last).map fun last => entries.replace key (.tables (last :: earlier))
    | some _ => none

/-- Opens one more table of a list of tables. -/
def openListed? (key : String) : List String → Entries → Option Entries
  | [], entries =>
    match entries.get? key with
    | none => some (entries.add key (.tables [[]]))
    | some (.tables items) => some (entries.replace key (.tables ([] :: items)))
    | some _ => none
  | next :: rest, entries =>
    match entries.get? key with
    | none => (openListed? next rest []).map fun below => entries.add key (.table .passed below)
    | some (.table .inline _) => none
    | some (.table kind below) =>
      (openListed? next rest below).map fun below => entries.replace key (.table kind below)
    | some (.tables (last :: earlier)) =>
      (openListed? next rest last).map fun last => entries.replace key (.tables (last :: earlier))
    | some _ => none

/-- Changes the entries of the table that a header opened. -/
def update? (change : Entries → Option Entries) : List String → Entries → Option Entries
  | [], entries => change entries
  | key :: rest, entries =>
    match entries.get? key with
    | some (.table kind below) =>
      (update? change rest below).map fun below => entries.replace key (.table kind below)
    | some (.tables (last :: earlier)) =>
      (update? change rest last).map fun last => entries.replace key (.tables (last :: earlier))
    | _ => none

end Entries

end ClosureMachine.Toml

import ClosureMachine.Number.Text

/-!
# JSON text

Written either on one line without blanks, or indented by two columns for each level.
-/

namespace ClosureMachine

inductive Json where
  | natural (n : Nat)
  | number (n : Number)
  | string (s : String)
  | array (items : List Json)
  | object (fields : List (String × Json))

namespace Json

def hexDigits (width n : Nat) : List Char :=
  let ds := Nat.toDigits 16 n
  List.replicate (width - ds.length) '0' ++ ds

def escapeChar (c : Char) : List Char :=
  if c = '"' then ['\\', '"']
  else if c = '\\' then ['\\', '\\']
  else if c = '\n' then ['\\', 'n']
  else if c = '\r' then ['\\', 'r']
  else if c = '\t' then ['\\', 't']
  else if c = '\x08' then ['\\', 'b']
  else if c = '\x0c' then ['\\', 'f']
  else if c.toNat < 32 then '\\' :: 'u' :: hexDigits 4 c.toNat
  else [c]

def quote (s : String) : String :=
  String.ofList ('"' :: s.toList.flatMap escapeChar ++ ['"'])

mutual
def compact : Json → String
  | .natural n => toString n
  | .number n => n.text .json
  | .string s => quote s
  | .array items => "[" ++ ",".intercalate (compactItems items) ++ "]"
  | .object fields => "\x7b" ++ ",".intercalate (compactFields fields) ++ "\x7d"

def compactItems : List Json → List String
  | [] => []
  | item :: rest => item.compact :: compactItems rest

def compactFields : List (String × Json) → List String
  | [] => []
  | (key, value) :: rest => (quote key ++ ":" ++ value.compact) :: compactFields rest
end

def newline (indent : Nat) : String := "\n" ++ String.ofList (List.replicate (2 * indent) ' ')

/-- Members between a pair of brackets, each on a line of its own. -/
def block (left right : String) (indent : Nat) (members : List String) : String :=
  if members.isEmpty then left ++ right
  else left ++ newline (indent + 1) ++ ("," ++ newline (indent + 1)).intercalate members
    ++ newline indent ++ right

mutual
def pretty (indent : Nat) : Json → String
  | .natural n => toString n
  | .number n => n.text .json
  | .string s => quote s
  | .array items => block "[" "]" indent (prettyItems (indent + 1) items)
  | .object fields => block "\x7b" "\x7d" indent (prettyFields (indent + 1) fields)

def prettyItems (indent : Nat) : List Json → List String
  | [] => []
  | item :: rest => item.pretty indent :: prettyItems indent rest

def prettyFields (indent : Nat) : List (String × Json) → List String
  | [] => []
  | (key, value) :: rest => (quote key ++ ": " ++ value.pretty indent) :: prettyFields indent rest
end

end Json

end ClosureMachine

/-!
# Command-line arguments

Options may stand before or after the positional argument. `-v` may be repeated, and may
stand before the command as well; where both places give it, the later one counts.
Everything after `--` is positional.
-/

namespace ClosureMachine

inductive Command where
  | run (path : String) (config : Option String) (json : Bool)
  | disassemble (path : String)
  | check (path : String)
  deriving DecidableEq, Repr

structure Invocation where
  verbosity : Nat
  command : Command
  deriving DecidableEq, Repr

namespace Arguments

inductive Verb where
  | run
  | disassemble
  | check
  deriving DecidableEq, Repr

def verb? : String → Option Verb
  | "run" => some .run
  | "disassemble" => some .disassemble
  | "check" => some .check
  | _ => none

/-- Options and positional arguments of one command. -/
structure Collected where
  verbosity : Nat := 0
  config : Option String := none
  json : Bool := false
  positionals : List String := []

namespace Collected

def addVerbose (c : Collected) : Collected := { c with verbosity := c.verbosity + 1 }

/-- Only `run` takes a settings file, and only one. -/
def setConfig? (v : Verb) (c : Collected) (file : String) : Option Collected :=
  if v = .run ∧ c.config.isNone then some { c with config := some file } else none

/-- Only `run` prints JSON, and takes the flag once. -/
def setJson? (v : Verb) (c : Collected) : Option Collected :=
  if v = .run ∧ !c.json then some { c with json := true } else none

def addPositional (c : Collected) (arg : String) : Collected :=
  { c with positionals := c.positionals ++ [arg] }

end Collected

/-- What the letters of one short argument amount to. -/
inductive Letters where
  | done (c : Collected)
  /-- The last letter takes its value from the next argument. -/
  | wantsFile (c : Collected)

/-- The letters after a single dash. What follows a `c`, less an equals sign, is its
value. -/
def letters? (v : Verb) (c : Collected) : List Char → Option Letters
  | [] => some (.done c)
  | 'v' :: rest => letters? v c.addVerbose rest
  | ['c'] => if v = .run then some (.wantsFile c) else none
  | 'c' :: '=' :: file => (c.setConfig? v (String.ofList file)).map .done
  | 'c' :: file => (c.setConfig? v (String.ofList file)).map .done
  | _ => none

/-- A dash with something after it starts an option. -/
def isOption (arg : String) : Bool := arg.startsWith "-" && arg != "-"

/-- The value of a `--config=value` argument. -/
def configValue? (arg : String) : Option String :=
  match arg.toList with
  | '-' :: '-' :: 'c' :: 'o' :: 'n' :: 'f' :: 'i' :: 'g' :: '=' :: file =>
    some (String.ofList file)
  | _ => none

/-- Whether an argument is one of the next option's value. -/
inductive Pending where
  | nothing
  | file

/-- Collects the arguments of a command. -/
def collect? (v : Verb) : Pending → Collected → List String → Option Collected
  | .nothing, c, [] => some c
  | .file, _, [] => none
  | .file, c, arg :: rest =>
    if isOption arg then none
    else
      match c.setConfig? v arg with
      | some c => collect? v .nothing c rest
      | none => none
  | .nothing, c, arg :: rest =>
    if arg = "--" then some (rest.foldl Collected.addPositional c)
    else if !isOption arg then collect? v .nothing (c.addPositional arg) rest
    else if arg = "--verbose" then collect? v .nothing c.addVerbose rest
    else if arg = "--json" then
      match c.setJson? v with
      | some c => collect? v .nothing c rest
      | none => none
    else if arg = "--config" then
      if v = .run then collect? v .file c rest else none
    else
      match configValue? arg with
      | some file =>
        match c.setConfig? v file with
        | some c => collect? v .nothing c rest
        | none => none
      | none =>
        match letters? v c (arg.toList.drop 1) with
        | some (.done c) => collect? v .nothing c rest
        | some (.wantsFile c) => collect? v .file c rest
        | none => none

def command? (v : Verb) (c : Collected) : Option Command :=
  match c.positionals, v with
  | [path], .run => some (.run path c.config c.json)
  | [path], .disassemble => some (.disassemble path)
  | [path], .check => some (.check path)
  | _, _ => none

/-- How many times an argument before the command asks for more output. -/
def leadingVerbosity? (arg : String) : Option Nat :=
  if arg = "--verbose" then some 1
  else
    match arg.toList with
    | '-' :: c :: rest => if (c :: rest).all (· == 'v') then some (rest.length + 1) else none
    | _ => none

def parseFrom? (verbosity : Nat) : List String → Option Invocation
  | [] => none
  | arg :: rest =>
    match verb? arg with
    | some v => do
      let c ← collect? v .nothing {} rest
      let command ← command? v c
      return ⟨if c.verbosity = 0 then verbosity else c.verbosity, command⟩
    | none =>
      match leadingVerbosity? arg with
      | some n => parseFrom? (verbosity + n) rest
      | none => none

end Arguments

/-- What the arguments ask for; nothing if they cannot be understood. -/
def Invocation.parse? (args : List String) : Option Invocation := Arguments.parseFrom? 0 args

end ClosureMachine

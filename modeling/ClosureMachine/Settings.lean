import ClosureMachine.Files
import ClosureMachine.Machine.State
import ClosureMachine.Toml.Document

/-!
# Settings

A settings file is a TOML document with at most one entry, `vm`, which holds the machine's
configuration: as a table by name, or as an array by position. What is not given has its
default. The capacities are limited, because the stack is allocated up front.
-/

namespace ClosureMachine

inductive SettingsError where
  /-- Not TOML, or not of the right shape. -/
  | malformed
  | stackSizeOutOfRange (given : Nat)
  | maxFramesOutOfRange (given : Nat)
  deriving DecidableEq, Repr

namespace Settings

def maxStackSize : Nat := 1048576

def maxFrameLimit : Nat := 65536

def natural? : Toml.Value → Option Nat
  | .integer (.ofNat n) => some n
  | _ => none

def boolean? : Toml.Value → Option Bool
  | .boolean b => some b
  | _ => none

/-- Sets one named field. -/
def setField? (config : Config) (name : String) (value : Toml.Value) : Option Config :=
  if name = "stack_size" then (natural? value).map fun n => { config with stackSize := n }
  else if name = "max_frames" then (natural? value).map fun n => { config with maxFrames := n }
  else if name = "scrub_on_return" then
    (boolean? value).map fun b => { config with scrubOnReturn := b }
  else none

/-- Fields in order; elements beyond the last field are ignored. -/
def ofItems? (items : List Toml.Value) : Option Config :=
  (["stack_size", "max_frames", "scrub_on_return"].zip items).foldlM
    (fun config (name, value) => setField? config name value) {}

def ofValue? : Toml.Value → Option Config
  | .table _ entries => entries.foldlM (fun config (name, value) => setField? config name value) {}
  | .array items => ofItems? items
  | _ => none

def ofEntries? : Toml.Entries → Option Config
  | [] => some {}
  | [(name, value)] => if name = "vm" then ofValue? value else none
  | _ => none

def checkRanges (config : Config) : Except SettingsError Config :=
  if config.stackSize = 0 ∨ maxStackSize < config.stackSize then
    .error (.stackSizeOutOfRange config.stackSize)
  else if config.maxFrames = 0 ∨ maxFrameLimit < config.maxFrames then
    .error (.maxFramesOutOfRange config.maxFrames)
  else .ok config

/-- The configuration that a settings file describes. -/
def parse (text : String) : Except SettingsError Config :=
  match Toml.document? text >>= ofEntries? with
  | none => .error .malformed
  | some config => checkRanges config

end Settings

end ClosureMachine

import ClosureMachine.Image.Error
import ClosureMachine.Machine.Fault
import ClosureMachine.Settings

/-!
# Failures of commands

A failure is a chain of messages, what was attempted first and what went wrong last.
-/

namespace ClosureMachine

/-- What is said of a settings file that is not TOML or not of the right shape. -/
def SettingsError.malformedMessage : String := "TOML parse error"

def SettingsError.chain : SettingsError → List String
  | .malformed => ["Invalid configuration", malformedMessage]
  | .stackSizeOutOfRange given =>
    [s!"Invalid configuration: stack_size must be in 1..={Settings.maxStackSize}, got {given}"]
  | .maxFramesOutOfRange given =>
    [s!"Invalid configuration: max_frames must be in 1..={Settings.maxFrameLimit}, got {given}"]

inductive Failure where
  | imageNotOpened (path : String) (cause : FileError)
  | imageRejected (cause : ImageError)
  | notLoaded (path : String) (cause : Fault)
  | faulted (cause : Fault)
  | settingsNotRead (path : String) (cause : FileError)
  | settingsRejected (path : Option String) (cause : SettingsError)
  | notListed (cause : CodecError)
  deriving DecidableEq, Repr

namespace Failure

def chain : Failure → List String
  | .imageNotOpened path cause => [s!"Failed to open executable {path}", cause.message]
  | .imageRejected cause => [s!"Loader Error: {cause.message}"]
  | .notLoaded path cause => [s!"While loading {path}", s!"Runtime Error: {cause.message}"]
  | .faulted cause => [s!"Runtime Error: {cause.message}"]
  | .settingsNotRead path cause => [s!"Failed to read config {path}", cause.message]
  | .settingsRejected none cause => cause.chain
  | .settingsRejected (some path) cause => s!"In config {path}" :: cause.chain
  | .notListed cause => [cause.message]

/-- The lines of a cause under a label; further lines are indented to the same column. -/
def indent (label : String) (message : String) : List String :=
  match message.splitOn "\n" with
  | [] => []
  | first :: rest =>
    (label ++ first) :: rest.map (String.ofList (List.replicate label.length ' ') ++ ·)

def numbered (n : Nat) : List String → List String
  | [] => []
  | cause :: rest => indent s!"    {n}: " cause ++ numbered (n + 1) rest

/-- Causes are numbered when there are several. -/
def causeLines : List String → List String
  | [] => []
  | [cause] => ["", "Caused by:"] ++ indent "    " cause
  | causes => ["", "Caused by:"] ++ numbered 0 causes

def lines (f : Failure) : List String :=
  match f.chain with
  | [] => []
  | message :: causes => s!"Error: {message}".splitOn "\n" ++ causeLines causes

end Failure

end ClosureMachine

import ClosureMachine.Command.Arguments
import ClosureMachine.Command.Failure
import ClosureMachine.Files
import ClosureMachine.Image.Reader
import ClosureMachine.Listing
import ClosureMachine.Report.Json
import ClosureMachine.Trace.Observe

/-!
# Commands

Running, listing and checking program files. A command is a function of its arguments and
the files it can see.
-/

namespace ClosureMachine

namespace Command

/-- Reads an image, and checks the program unless told otherwise. The events tell of an
image that could be read, even if its program is then refused. -/
def openProgram (files : Files) (path : String) (checked : Bool) :
    Except Failure Program × List Event :=
  match files.find path with
  | .error cause => (.error (.imageNotOpened path cause), [])
  | .ok .directory => (.error (.imageRejected (.unreadable .isDirectory)), [])
  | .ok (.content bytes) =>
    match Image.readProgram bytes with
    | .error cause => (.error (.imageRejected cause), [])
    | .ok (program, _) =>
      let events := [.imageRead program.codes.size program.entry]
      match checked, program.defect? with
      | true, some defect => (.error (.imageRejected (.defective defect)), events)
      | _, _ => (.ok program, events)

def loadSettings (files : Files) (path : String) : Except Failure Config :=
  match files.readText path with
  | .error cause => .error (.settingsNotRead path cause)
  | .ok text =>
    match Settings.parse text with
    | .error cause => .error (.settingsRejected (some path) cause)
    | .ok config => .ok config

/-- Runs a loaded machine. Events are only gathered when somebody listens. -/
def runMachine (observed : Bool) (m : Machine) : Outcome Report × List Event :=
  if observed then
    let (outcome, events) := m.interpretLogged #[]
    (outcome, events.toList)
  else (m.interpret, [])

/-- Loads, checks and runs a program on a new machine. -/
def execute (files : Files) (path : String) (config : Config) (observed : Bool) :
    Except Failure Report × List Event :=
  match openProgram files path true with
  | (.error e, events) => (.error e, events)
  | (.ok program, events) =>
    let m := Machine.ofConfig config
    let events := if observed then events ++ m.loadEvents program else events
    match Machine.load program m with
    | .error fault _ => (.error (.notLoaded path fault), events)
    | .ok _ m =>
      match runMachine observed m with
      | (.error fault _, steps) => (.error (.faulted fault), events ++ steps)
      | (.ok report _, steps) =>
        (.ok report, events ++ steps ++ [.runFinished report.reason report.registers.size])

/-- One line about a program without defects. -/
def summary (path : String) (p : Program) : String :=
  let entry := match p.entryCode? with
    | some code => code.name
    | none => "?"
  s!"{path}: ok ({p.codes.size} code objects, entry P[{p.entry}] '{entry}')"

def checkSummary (files : Files) (path : String) : Except Failure String × List Event :=
  match openProgram files path true with
  | (.error e, events) => (.error e, events)
  | (.ok program, events) => (.ok (summary path program), events)

def runText (files : Files) (path : String) (config : Option String) (json observed : Bool) :
    Except Failure String × List Event :=
  match config.elim (.ok {}) (loadSettings files) with
  | .error e => (.error e, [])
  | .ok config =>
    match execute files path config observed with
    | (.error e, events) => (.error e, events)
    | (.ok report, events) => (.ok (report.render json ++ "\n"), events)

def listingText (files : Files) (path : String) : Except Failure String × List Event :=
  match openProgram files path false with
  | (.error e, events) => (.error e, events)
  | (.ok program, events) =>
    match program.listing with
    | .error cause => (.error (.notListed cause), events)
    | .ok text => (.ok (s!"== Disassembly of {path} ==\n" ++ text), events)

def checkText (files : Files) (path : String) : Except Failure String × List Event :=
  match checkSummary files path with
  | (.error e, events) => (.error e, events)
  | (.ok line, events) => (.ok (line ++ "\n"), events)

/-- The standard output of a command, or what kept it from any. -/
def output (files : Files) (observed : Bool) : Command → Except Failure String × List Event
  | .run path config json => runText files path config json observed
  | .disassemble path => listingText files path
  | .check path => checkText files path

/-- The files that a command reads. -/
def paths : Command → List String
  | .run path config _ => config.toList ++ [path]
  | .disassemble path => [path]
  | .check path => [path]

end Command

/-- What is left of a command that has ended. -/
structure Ended where
  exitCode : Nat
  stdout : String
  stderr : List String

namespace Invocation

def logLevel (i : Invocation) : LogLevel :=
  match i.verbosity with
  | 0 => .warn
  | 1 => .debug
  | _ => .trace

/-- Runs a command; the log goes where the errors go. -/
def execute (i : Invocation) (files : Files) (level : LogLevel) : Ended :=
  let observed := LogLevel.info.rank ≤ level.rank
  let (result, events) := i.command.output files observed
  let log := Event.lines level events
  match result with
  | .ok text => ⟨0, text, log⟩
  | .error failure => ⟨1, "", log ++ failure.lines⟩

end Invocation

end ClosureMachine

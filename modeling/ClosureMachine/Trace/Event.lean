import ClosureMachine.Instruction.Text
import ClosureMachine.Report

/-!
# Events

What a run can say about itself while it goes on. An event is one line: its level, what
happened, and named fields.
-/

namespace ClosureMachine

/-- How much is reported, from nothing to everything. -/
inductive LogLevel where
  | off
  | error
  | warn
  | info
  | debug
  | trace
  deriving DecidableEq, Repr

namespace LogLevel

def rank : LogLevel → Nat
  | .off => 0
  | .error => 1
  | .warn => 2
  | .info => 3
  | .debug => 4
  | .trace => 5

/-- The level of a name, in whatever case it is written. -/
def ofName? (name : String) : Option LogLevel :=
  match name.toLower with
  | "off" => some .off
  | "error" => some .error
  | "warn" => some .warn
  | "info" => some .info
  | "debug" => some .debug
  | "trace" => some .trace
  | _ => none

/-- The name, right-aligned to five columns. -/
def label : LogLevel → String
  | .off => "  OFF"
  | .error => "ERROR"
  | .warn => " WARN"
  | .info => " INFO"
  | .debug => "DEBUG"
  | .trace => "TRACE"

end LogLevel

inductive Event where
  | imageRead (codes : Nat) (entry : UInt16)
  | programLoaded (codes : Nat) (entry : UInt16) (closure : ClosureRef)
  | dispatched (depth ip base : Nat) (instruction : Instruction)
  | upvalueRead (cell : CellRef) (isOpen : Bool)
  | upvalueWritten (cell : CellRef) (isOpen : Bool) (value : Value)
  | upvalueReused (slot : Nat) (cell : CellRef)
  | upvalueOpened (slot : Nat) (cell : CellRef)
  | upvalueClosed (slot : Nat) (cell : CellRef) (value : Value)
  | called (closure : ClosureRef) (base : Nat) (argCount : UInt8) (depth : Nat)
  | returned (base closed depth : Nat) (value : Value)
  | halted (base depth : Nat)
  | runFinished (reason : StopReason) (registers : Nat)
  deriving DecidableEq, Repr

namespace Event

def level : Event → LogLevel
  | .imageRead .. | .programLoaded .. | .called .. | .returned .. | .halted .. => .debug
  | .runFinished .. => .info
  | _ => .trace

def reasonName : StopReason → String
  | .halt => "Halt"
  | .entryReturn => "EntryReturn"

def text : Event → String
  | .imageRead codes entry => s!"read executable prototypes={codes} entry={entry}"
  | .programLoaded codes entry closure =>
    s!"program loaded prototypes={codes} entry={entry} closure={closure}"
  | .dispatched depth ip base instruction =>
    s!"dispatch depth={depth} ip={ip} base={base} instruction={instruction}"
  | .upvalueRead cell isOpen => s!"reading upvalue upvalue={cell} open={isOpen}"
  | .upvalueWritten cell isOpen value =>
    s!"writing upvalue upvalue={cell} open={isOpen} value={value}"
  | .upvalueReused slot cell => s!"reusing open upvalue stack_idx={slot} upvalue={cell}"
  | .upvalueOpened slot cell => s!"opened upvalue stack_idx={slot} upvalue={cell}"
  | .upvalueClosed slot cell value =>
    s!"closed upvalue stack_idx={slot} upvalue={cell} value={value}"
  | .called closure base argCount depth =>
    s!"call closure={closure} base={base} n_args={argCount} depth={depth}"
  | .returned base closed depth value =>
    s!"return base={base} closed={closed} depth={depth} value={value}"
  | .halted base depth => s!"machine halted base={base} depth={depth}"
  | .runFinished reason registers =>
    s!"run finished reason={reasonName reason} registers={registers}"

def line (e : Event) : String := e.level.label ++ " " ++ e.text

/-- The lines of the events that `level` lets through. -/
def lines (level : LogLevel) (events : List Event) : List String :=
  (events.filter (·.level.rank ≤ level.rank)).map line

end Event

end ClosureMachine

import ClosureMachine.Value

/-!
# Reports

A report is what the machine shows when it stops: why, and the registers of the frame it
stopped in.
-/

namespace ClosureMachine

inductive StopReason where
  /-- A `halt` instruction was executed. -/
  | halt
  /-- The entry frame returned. -/
  | entryReturn
  deriving DecidableEq, Repr

structure Report where
  reason : StopReason
  base : Nat
  registers : Array Value
  deriving DecidableEq, Repr

namespace Report

def register? (r : Report) (reg : Nat) : Option Value := r.registers[reg]?

def number? (r : Report) (reg : Nat) : Option Number := r.register? reg >>= Value.number?

def heading : StopReason → String
  | .halt => "Machine halted!"
  | .entryReturn => "Entry function returned"

/-- One line for each register, under its absolute slot. -/
def registerLines (base : Nat) (acc : String) : List Value → String
  | [] => acc
  | v :: rest => registerLines (base + 1) (acc ++ s!"{base}: {v}\n") rest

def text (r : Report) : String :=
  registerLines r.base s!"{heading r.reason}\n---------------\n" r.registers.toList

/-- The text without the line end that closes it. -/
def table (r : Report) : String := r.text.trimAsciiEnd.copy

end Report

end ClosureMachine

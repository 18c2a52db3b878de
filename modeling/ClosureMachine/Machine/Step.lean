import ClosureMachine.Machine.Call

/-!
# Single steps
-/

namespace ClosureMachine

def Instruction.isBind : Instruction → Bool
  | .bind .. => true
  | _ => false

namespace Machine

/-- Moves the running frame past the fetched instruction. Any instruction but a `bind`
ends the pending closure's turn. -/
def advance (m : Machine) (f : Fetched) : Machine :=
  { m with
    frames := m.frames.pop.push { f.frame with ip := f.frame.ip + 1 }
    pending := if f.instruction.isBind then m.pending else none }

def execute (closure : ClosureRef) (w : Window) : Instruction → Op (Option Report)
  | .makeFunction target code => do makeFunction w target code; return none
  | .bind index offset => do bindUpvalue w index offset; return none
  | .add target left right => do addRegisters w target left right; return none
  | .ret result => returnFrom w result
  | .getUpvalue target index => do
    let value ← getUpvalue closure index
    setRegister w target value
    return none
  | .setUpvalue source index => do
    let value ← getRegister w source
    setUpvalue closure index value
    return none
  | .loadConstant target value => do setRegister w target (.number value); return none
  | .call function argBase _ => do call w function argBase; return none
  | .copy target source => do copyRegister w target source; return none
  | .halt => fun m => .ok (some (m.snapshot .halt w)) m

/-- Runs one instruction of the top frame. Gives a report when the machine stops. -/
def step : Op (Option Report) := fun m =>
  match m.fetch with
  | .error e => .error e m
  | .ok f => execute f.frame.closure f.window f.instruction (m.advance f)

end Machine

end ClosureMachine

import ClosureMachine.Machine.Op

/-!
# Registers and arithmetic
-/

namespace ClosureMachine

namespace Machine

def getRegister (w : Window) (reg : UInt8) : Op Value := Op.ask (·.register w reg)

def setRegister (w : Window) (reg : UInt8) (value : Value) : Op Unit := fun m =>
  match m.resolve w reg with
  | .error e => .error e m
  | .ok slot =>
    .ok () { m with
      stack := m.stack.setIfInBounds slot value
      highWater := max m.highWater (slot + 1) }

end Machine

/-- Only numbers can be added; of two operands that are not, the left one is reported. -/
def Value.add : Value → Value → Except Fault Value
  | .number x, .number y => .ok (.number (x.add y))
  | .number _, right => .error (.typeMismatch .add .number right.kind)
  | left, _ => .error (.typeMismatch .add .number left.kind)

namespace Machine

/-- Sets `R[target]` to `R[left] + R[right]`. -/
def addRegisters (w : Window) (target left right : UInt8) : Op Unit := do
  let x ← getRegister w left
  let y ← getRegister w right
  let sum ← Op.ask fun _ => x.add y
  setRegister w target sum

def copyRegister (w : Window) (target source : UInt8) : Op Unit := do
  let value ← getRegister w source
  setRegister w target value

end Machine

end ClosureMachine

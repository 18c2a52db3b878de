import ClosureMachine.Instruction
import ClosureMachine.Number.Text

/-!
# Instruction text

The mnemonic is padded to a column of fourteen, then the operands follow: `R` for a
register, `U` for a slot of a closure, `P[..]` for a prototype.
-/

namespace ClosureMachine.Instruction

def operandText : Instruction → String
  | .makeFunction target code => s!"R{target}, P[{code}]"
  | .bind index offset => s!"U{index}, R{offset}"
  | .add target left right => s!"R{target}, R{left}, R{right}"
  | .ret result => s!"R{result}"
  | .getUpvalue target index => s!"R{target}, U{index}"
  | .setUpvalue source index => s!"R{source}, U{index}"
  | .loadConstant target value => s!"R{target}, {value}"
  | .call function argBase argCount => s!"R{function}, R{argBase}, {argCount}"
  | .copy target source => s!"R{target}, R{source}"
  | .halt => ""

def mnemonicColumn (op : Opcode) : String :=
  op.mnemonic ++ String.ofList (List.replicate (14 - op.mnemonic.length) ' ')

def text : Instruction → String
  | .halt => Opcode.halt.mnemonic
  | i => mnemonicColumn i.opcode ++ " " ++ i.operandText

instance : ToString Instruction := ⟨text⟩

end ClosureMachine.Instruction

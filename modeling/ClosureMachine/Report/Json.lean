import ClosureMachine.Json
import ClosureMachine.Report

/-!
# Reports as JSON
-/

namespace ClosureMachine

def Value.toJson : Value → Json
  | .number n => .object [("type", .string "number"), ("value", .number n)]
  | .function closure => .object [("type", .string "function"), ("value", .natural closure)]
  | .uninitialized => .object [("type", .string "uninitialized")]

def StopReason.jsonName : StopReason → String
  | .halt => "halt"
  | .entryReturn => "entry_return"

def Report.toJson (r : Report) : Json :=
  .object [("reason", .string r.reason.jsonName), ("base", .natural r.base),
    ("registers", .array (r.registers.toList.map Value.toJson))]

/-- The report as the `run` command prints it, without the last line end. -/
def Report.render (json : Bool) (r : Report) : String :=
  if json then r.toJson.pretty 0 else r.table

end ClosureMachine

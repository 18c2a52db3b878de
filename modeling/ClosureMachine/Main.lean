import ClosureMachine.Command.Run

/-!
# The command line
-/

namespace ClosureMachine

/-- What a path opens right now; nothing if it does not exist. -/
def inspectPath (path : String) : IO (List (String × FileSource)) := do
  try
    let bytes ← IO.FS.readBinFile path
    return [(path, .content bytes.toList)]
  catch
    | .noFileOrDirectory .. => return []
    | _ => return [(path, .directory)]

def usage : String :=
  "usage: run PATH [--config FILE] [--json] | disassemble PATH | check PATH  (-v, -vv: log more)"

end ClosureMachine

open ClosureMachine in
def main (args : List String) : IO UInt32 := do
  match Invocation.parse? args with
  | none =>
    IO.eprintln usage
    return 2
  | some invocation =>
    let entries ← invocation.command.paths.mapM inspectPath
    let ended := invocation.execute ⟨entries.flatten⟩ invocation.logLevel
    ended.stderr.forM IO.eprintln
    IO.print ended.stdout
    return UInt32.ofNat ended.exitCode

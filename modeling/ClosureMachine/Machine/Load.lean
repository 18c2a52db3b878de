import ClosureMachine.Machine.Call

/-!
# Loading programs
-/

namespace ClosureMachine.Machine

def clear (m : Machine) : Machine :=
  { m with
    frames := #[]
    pending := none
    stack := Array.replicate m.stack.size .uninitialized
    highWater := 0 }

/-- Closes every open cell and clears the machine. Closures made earlier stay in the heap. -/
def reset : Op Unit := do
  let _ ← closeFrom 0
  modify clear

def install (m : Machine) (p : Program) : Machine :=
  { m with
    heap := { m.heap with codes := m.heap.codes ++ p.codes }
    prototypes := (Array.range p.codes.size).map fun i => handleAt (m.heap.codes.size + i) }

/-- Replaces whatever ran before by a program about to start. Gives the entry closure. -/
def load (p : Program) : Op ClosureRef := do
  if p.codes.size ≤ p.entry.toNat then
    throw (.malformed (.entryOutOfRange p.entry p.codes.size))
  reset
  modify (·.install p)
  let code ← Op.ask (·.prototype p.entry)
  let closure ← addClosure code
  pushFrame closure 0
  return closure

end ClosureMachine.Machine

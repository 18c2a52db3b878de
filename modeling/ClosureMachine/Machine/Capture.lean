import ClosureMachine.Machine.Registers

/-!
# Closures and capture cells

Closures that capture one stack slot while it is open share one cell. A return closes the
cells of the slots it gives up: from then on a cell owns the value that the slot had last.
-/

namespace ClosureMachine.Machine

def addClosure (code : CodeRef) : Op ClosureRef := fun m =>
  .ok m.heap.nextClosure { m with heap := m.heap.addClosure (.new code) }

def prototype (m : Machine) (index : UInt16) : Except Fault CodeRef :=
  match m.prototypes[index.toNat]? with
  | some code => .ok code
  | none => .error (.malformed (.unknownPrototype index m.prototypes.size))

/-- The closure exists as soon as it is made; it becomes the pending one only when its
register could be written. -/
def makeFunction (w : Window) (target : UInt8) (index : UInt16) : Op Unit := do
  let code ← Op.ask (·.prototype index)
  let closure ← addClosure code
  setRegister w target (.function closure)
  modify fun m => { m with pending := some closure }

def capture (slot : Nat) : Op CellRef := fun m =>
  match m.openCells.find? slot with
  | some cell => .ok cell m
  | none =>
    let cell := m.heap.nextCell
    .ok cell { m with
      heap := m.heap.addCell (.opened slot)
      openCells := m.openCells.insert slot cell }

def pendingClosure (m : Machine) : Except Fault ClosureRef :=
  match m.pending with
  | some closure => .ok closure
  | none => .error (.malformed .orphanBind)

def bindSlot (closure : ClosureRef) (index : UInt8) (cell : CellRef) : Op Unit := fun m =>
  if closure < m.heap.closures.size then
    .ok () { m with heap := m.heap.bindSlot closure index.toNat cell }
  else .error (.functionNotFound closure) m

def bindUpvalue (w : Window) (index offset : UInt8) : Op Unit := do
  let closure ← Op.ask pendingClosure
  let slot ← Op.ask fun _ => w.slot offset
  let cell ← capture slot
  bindSlot closure index cell

def getUpvalue (closure : ClosureRef) (index : UInt8) : Op Value :=
  Op.ask (·.upvalue closure index)

def setUpvalue (closure : ClosureRef) (index : UInt8) (value : Value) : Op Unit := fun m =>
  match m.cellOf closure index with
  | .error e => .error e m
  | .ok (r, .closed _) => .ok () { m with heap := m.heap.setCell r (.closed value) }
  | .ok (_, .opened slot) =>
    if slot < m.stack.size then
      .ok () { m with
        stack := m.stack.setIfInBounds slot value
        highWater := max m.highWater (slot + 1) }
    else .error (.stackOverflow (slot + 1) m.stack.size) m

/-- Closes the cells of `entries` in order. -/
def closeEntries : List OpenEntry → Op Unit
  | [], m => .ok () m
  | (slot, r) :: rest, m =>
    match m.heap.cells[r]? with
    | none => .error (.upvalueNotFound r) m
    | some (.closed _) => .error (.doubleClose r) m
    | some (.opened _) =>
      let value := m.stackAt slot
      closeEntries rest { m with heap := m.heap.setCell r (.closed value) }

/-- Stops tracking the slots from `start` on and closes their cells. Gives the number of
entries. -/
def closeFrom (start : Nat) : Op Nat := fun m =>
  let entries := m.openCells.entriesFrom start
  match closeEntries entries { m with openCells := m.openCells.below start } with
  | .ok () m => .ok entries.length m
  | .error e m => .error e m

end ClosureMachine.Machine

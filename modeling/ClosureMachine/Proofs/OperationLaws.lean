import ClosureMachine.Machine.Load
import ClosureMachine.Machine.Step

/-!
# What operations do

Each law reads the success or the fault of one operation as what it found in the machine
and what it left behind. The machines left behind are written with a few elementary
updates (`store`, `withClosure`, `captured`, `entered`), whose effect on each part of the
machine is stated once, beside them. Operations are not unfolded outside this module.
-/

namespace ClosureMachine

-- ---------------------------------------------------------------------------
-- The operation monad
-- ---------------------------------------------------------------------------

@[simp] theorem Outcome.machine_ok {α : Type} (a : α) (m : Machine) :
    Outcome.machine (.ok a m) = m := rfl

@[simp] theorem Outcome.machine_error {α : Type} (e : Fault) (m : Machine) :
    Outcome.machine (.error e m : Outcome α) = m := rfl

namespace Op

variable {α β : Type} {m m' : Machine} {e : Fault}

theorem bind_ok {x : Op α} {f : α → Op β} {b : β} :
    (x >>= f) m = .ok b m' ↔ ∃ a m₁, x m = .ok a m₁ ∧ f a m₁ = .ok b m' := by
  rw [bind_apply]
  cases x m with
  | ok a m₁ => simp [and_assoc]
  | error e m₁ => simp

theorem bind_of_ok {x : Op α} {f : α → Op β} {a : α} {b : β} {m₁ : Machine}
    (hx : x m = .ok a m₁) (hf : f a m₁ = .ok b m') : (x >>= f) m = .ok b m' :=
  bind_ok.mpr ⟨a, m₁, hx, hf⟩

theorem bind_error {x : Op α} {f : α → Op β} :
    (x >>= f) m = .error e m' ↔
      x m = .error e m' ∨ ∃ a m₁, x m = .ok a m₁ ∧ f a m₁ = .error e m' := by
  rw [bind_apply]
  cases x m with
  | ok a m₁ => simp [and_assoc]
  | error e m₁ => simp

theorem pure_ok {a b : α} : (pure a : Op α) m = .ok b m' ↔ a = b ∧ m = m' := by
  simp

theorem pure_error {a : α} : (pure a : Op α) m = .error e m' ↔ False := by
  simp

theorem modify_ok {f : Machine → Machine} {u : Unit} :
    (modify f : Op Unit) m = .ok u m' ↔ m' = f m := by
  simp [eq_comm]

theorem modify_error {f : Machine → Machine} : (modify f : Op Unit) m = .error e m' ↔ False := by
  simp

theorem ask_ok {query : Machine → Except Fault α} {a : α} :
    ask query m = .ok a m' ↔ query m = .ok a ∧ m = m' := by
  unfold ask
  cases query m <;> simp

theorem ask_error {query : Machine → Except Fault α} :
    ask query m = .error e m' ↔ query m = .error e ∧ m = m' := by
  unfold ask
  cases query m <;> simp

end Op

-- ---------------------------------------------------------------------------
-- Elementary updates
-- ---------------------------------------------------------------------------

namespace Machine

/-- The machine with `value` in a stack slot. -/
def store (m : Machine) (slot : Nat) (value : Value) : Machine :=
  { m with
    stack := m.stack.setIfInBounds slot value
    highWater := max m.highWater (slot + 1) }

/-- The machine with one more closure, which has captured nothing. -/
def withClosure (m : Machine) (code : CodeRef) : Machine :=
  { m with heap := m.heap.addClosure (.new code) }

/-- The cell that a capture of `slot` gives. -/
def cellFor (m : Machine) (slot : Nat) : CellRef := (m.openCells.find? slot).getD m.heap.nextCell

/-- The machine in which the cell of `slot` is open. -/
def captured (m : Machine) (slot : Nat) : Machine :=
  match m.openCells.find? slot with
  | some _ => m
  | none =>
    { m with
      heap := m.heap.addCell (.opened slot)
      openCells := m.openCells.insert slot m.heap.nextCell }

/-- The machine in which a slot of a closure holds `cell`. -/
def withBinding (m : Machine) (closure : ClosureRef) (index : UInt8) (cell : CellRef) : Machine :=
  { m with heap := m.heap.bindSlot closure index.toNat cell }

/-- The machine in which a closed cell owns `value`. -/
def rewritten (m : Machine) (r : CellRef) (value : Value) : Machine :=
  { m with heap := m.heap.setCell r (.closed value) }

/-- The machine with one more frame, whose window ends at `finish`. -/
def entered (m : Machine) (closure : ClosureRef) (base finish : Nat) : Machine :=
  { m with
    highWater := max m.highWater finish
    frames := m.frames.push ⟨closure, 0, base⟩ }

section Store

variable (m : Machine) (slot : Nat) (value : Value)

@[simp] theorem store_heap : (m.store slot value).heap = m.heap := rfl
@[simp] theorem store_frames : (m.store slot value).frames = m.frames := rfl
@[simp] theorem store_config : (m.store slot value).config = m.config := rfl
@[simp] theorem store_prototypes : (m.store slot value).prototypes = m.prototypes := rfl
@[simp] theorem store_openCells : (m.store slot value).openCells = m.openCells := rfl
@[simp] theorem store_pending : (m.store slot value).pending = m.pending := rfl
@[simp] theorem store_highWater :
    (m.store slot value).highWater = max m.highWater (slot + 1) := rfl

@[simp] theorem size_store : (m.store slot value).stack.size = m.stack.size := by
  simp [store]

theorem store_slot? {i : Nat} :
    (m.store slot value).stack[i]? =
      if slot = i ∧ slot < m.stack.size then some value else m.stack[i]? := by
  by_cases h : slot = i <;> by_cases hs : slot < m.stack.size <;>
    grind [store]

end Store

section Captured

variable (m : Machine) (slot : Nat)

@[simp] theorem captured_closures : (m.captured slot).heap.closures = m.heap.closures := by
  unfold captured
  split <;> rfl

@[simp] theorem captured_codes : (m.captured slot).heap.codes = m.heap.codes := by
  unfold captured
  split <;> rfl

@[simp] theorem captured_stack : (m.captured slot).stack = m.stack := by
  unfold captured
  split <;> rfl

@[simp] theorem captured_frames : (m.captured slot).frames = m.frames := by
  unfold captured
  split <;> rfl

@[simp] theorem captured_config : (m.captured slot).config = m.config := by
  unfold captured
  split <;> rfl

@[simp] theorem captured_prototypes : (m.captured slot).prototypes = m.prototypes := by
  unfold captured
  split <;> rfl

@[simp] theorem captured_pending : (m.captured slot).pending = m.pending := by
  unfold captured
  split <;> rfl

@[simp] theorem captured_highWater : (m.captured slot).highWater = m.highWater := by
  unfold captured
  split <;> rfl

/-- A capture opens a cell for its own slot at most. -/
theorem opened_of_captured {m : Machine} {slot s : Nat} {r : CellRef}
    (h : (m.captured slot).heap.cells[r]? = some (.opened s)) :
    m.heap.cells[r]? = some (.opened s) ∨ s = slot := by
  unfold captured at h
  split at h
  · exact .inl h
  · simp only [Heap.addCell, Array.getElem?_push] at h
    split at h
    · exact .inr (Cell.opened.inj (Option.some.inj h)).symm
    · exact .inl h

end Captured

/-- A closed cell that is given another value opens nothing. -/
theorem opened_of_rewritten {m : Machine} {r r' : CellRef} {value : Value} {slot : Nat}
    (h : (m.rewritten r value).heap.cells[r']? = some (.opened slot)) :
    m.heap.cells[r']? = some (.opened slot) := by
  simp only [rewritten, Heap.setCell, Array.getElem?_setIfInBounds] at h
  split at h
  · split at h <;> simp at h
  · exact h

theorem stackAt_eq (m : Machine) (slot : Nat) :
    m.stackAt slot = m.stack[slot]?.getD .uninitialized := by
  simp [stackAt, Array.getD_eq_getD_getElem?]

theorem stackAt_store (m : Machine) (slot : Nat) (value : Value) (i : Nat) :
    (m.store slot value).stackAt i =
      if slot = i ∧ slot < m.stack.size then value else m.stackAt i := by
  rw [stackAt_eq, stackAt_eq, store_slot?]
  split <;> rfl

-- ---------------------------------------------------------------------------
-- Registers
-- ---------------------------------------------------------------------------

end Machine

theorem Window.slot_ok {w : Window} {reg : UInt8} {slot : Nat} :
    w.slot reg = .ok slot ↔ reg.toNat < w.size ∧ slot = w.base + reg.toNat := by
  unfold Window.slot
  by_cases h : reg.toNat < w.size <;> simp [h, eq_comm]

namespace Machine

variable {m m' : Machine} {w : Window} {e : Fault}

theorem resolve_ok {reg : UInt8} {slot : Nat} :
    m.resolve w reg = .ok slot ↔
      reg.toNat < w.size ∧ slot = w.base + reg.toNat ∧ slot < m.stack.size := by
  unfold resolve Window.slot
  by_cases h : reg.toNat < w.size
  · by_cases hs : w.base + reg.toNat < m.stack.size
    · simp only [h, hs, if_true, Except.ok.injEq, true_and]
      constructor
      · rintro rfl
        exact ⟨rfl, hs⟩
      · rintro ⟨rfl, -⟩
        rfl
    · simp only [h, hs, if_true, if_false, reduceCtorEq, true_and, false_iff, not_and]
      rintro rfl
      exact hs
  · simp [h]

theorem resolve_of_lt {reg : UInt8} (hreg : reg.toNat < w.size) (hfit : w.finish ≤ m.stack.size) :
    ∃ slot, m.resolve w reg = .ok slot := by
  refine ⟨_, resolve_ok.mpr ⟨hreg, rfl, ?_⟩⟩
  simp only [Window.finish] at hfit
  omega

theorem register_ok {reg : UInt8} {value : Value} :
    m.register w reg = .ok value ↔ ∃ slot, m.resolve w reg = .ok slot ∧ m.stackAt slot = value := by
  unfold register
  cases m.resolve w reg <;> simp

theorem register_error {reg : UInt8} :
    m.register w reg = .error e ↔ m.resolve w reg = .error e := by
  unfold register
  cases m.resolve w reg <;> simp

theorem getRegister_ok {reg : UInt8} {value : Value} :
    getRegister w reg m = .ok value m' ↔ m.register w reg = .ok value ∧ m = m' :=
  Op.ask_ok

theorem getRegister_error {reg : UInt8} :
    getRegister w reg m = .error e m' ↔ m.register w reg = .error e ∧ m = m' :=
  Op.ask_error

theorem setRegister_ok {reg : UInt8} {value : Value} {u : Unit} :
    setRegister w reg value m = .ok u m' ↔
      ∃ slot, m.resolve w reg = .ok slot ∧ m' = m.store slot value := by
  unfold setRegister
  cases m.resolve w reg <;> simp [store, eq_comm]

theorem setRegister_error {reg : UInt8} {value : Value} :
    setRegister w reg value m = .error e m' ↔ m.resolve w reg = .error e ∧ m = m' := by
  unfold setRegister
  cases m.resolve w reg <;> simp

-- ---------------------------------------------------------------------------
-- Closures and cells
-- ---------------------------------------------------------------------------

theorem addClosure_eq (code : CodeRef) :
    addClosure code m = .ok m.heap.nextClosure (m.withClosure code) := rfl

theorem prototype_ok {index : UInt16} {code : CodeRef} :
    m.prototype index = .ok code ↔ m.prototypes[index.toNat]? = some code := by
  unfold prototype
  split <;> simp_all

theorem prototype_error {index : UInt16} :
    m.prototype index = .error e ↔ m.prototypes[index.toNat]? = none ∧
      e = .malformed (.unknownPrototype index m.prototypes.size) := by
  unfold prototype
  split <;> simp_all [eq_comm (a := e)]

theorem makeFunction_error {target : UInt8} {index : UInt16} :
    makeFunction w target index m = .error e m' ↔
      (m.prototype index = .error e ∧ m = m') ∨
        ∃ code, m.prototypes[index.toNat]? = some code ∧ m.resolve w target = .error e ∧
          m.withClosure code = m' := by
  simp only [makeFunction, Op.bind_error, Op.ask_error, Op.ask_ok, Op.modify_error,
    addClosure_eq, setRegister_error, prototype_ok, EStateM.Result.ok.injEq, reduceCtorEq,
    and_false, exists_false, or_false, false_or]
  refine or_congr_right ⟨?_, ?_⟩
  · rintro ⟨code, _, ⟨hcode, rfl⟩, _, _, ⟨rfl, rfl⟩, hslot, rfl⟩
    exact ⟨code, hcode, hslot, rfl⟩
  · rintro ⟨code, hcode, hslot, rfl⟩
    exact ⟨code, m, ⟨hcode, rfl⟩, _, _, ⟨rfl, rfl⟩, hslot, rfl⟩

/-- The closure is made even where its register turns out to be unusable. -/
theorem makeFunction_closures {target : UInt8} {index : UInt16} {code : CodeRef}
    (h : m.prototype index = .ok code) :
    (Outcome.machine (makeFunction w target index m)).heap.closures.size =
      m.heap.closures.size + 1 := by
  have hsize : (m.withClosure code).heap.closures.size = m.heap.closures.size + 1 :=
    Array.size_push ..
  simp only [makeFunction, Op.bind_apply, Op.ask, h, addClosure_eq]
  cases hs : setRegister w target (.function m.heap.nextClosure) (m.withClosure code) with
  | ok u m' =>
    obtain ⟨slot, -, rfl⟩ := setRegister_ok.mp hs
    exact hsize
  | error e m' =>
    obtain ⟨-, rfl⟩ := setRegister_error.mp hs
    exact hsize

theorem capture_eq (slot : Nat) : capture slot m = .ok (m.cellFor slot) (m.captured slot) := by
  unfold capture cellFor captured
  cases m.openCells.find? slot <;> rfl

theorem pendingClosure_ok {closure : ClosureRef} :
    m.pendingClosure = .ok closure ↔ m.pending = some closure := by
  unfold pendingClosure
  cases m.pending <;> simp

theorem bindSlot_ok {closure : ClosureRef} {index : UInt8} {cell : CellRef} {u : Unit} :
    bindSlot closure index cell m = .ok u m' ↔
      closure < m.heap.closures.size ∧ m' = m.withBinding closure index cell := by
  unfold bindSlot withBinding
  by_cases h : closure < m.heap.closures.size <;> simp [h, eq_comm]

theorem bindSlot_error {closure : ClosureRef} {index : UInt8} {cell : CellRef} :
    bindSlot closure index cell m = .error e m' ↔
      m.heap.closures.size ≤ closure ∧ e = .functionNotFound closure ∧ m = m' := by
  unfold bindSlot
  by_cases h : closure < m.heap.closures.size
  · simp [h, Nat.not_le.mpr h]
  · simp [h, Nat.le_of_not_lt h, eq_comm (a := e)]

/-- The cell is captured even where the closure turns out to be missing. -/
theorem bindUpvalue_cells {index offset : UInt8} {closure : ClosureRef} {slot : Nat}
    (hp : m.pendingClosure = .ok closure) (hs : w.slot offset = .ok slot) :
    (Outcome.machine (bindUpvalue w index offset m)).heap.cells =
      (m.captured slot).heap.cells := by
  simp only [bindUpvalue, Op.bind_apply, Op.ask, hp, hs, capture_eq, bindSlot]
  split <;> rfl

theorem cellOf_ok {closure : ClosureRef} {index : UInt8} {r : CellRef} {cell : Cell} :
    m.cellOf closure index = .ok (r, cell) ↔
      ∃ c, m.heap.closures[closure]? = some c ∧ c.slot? index.toNat = some r ∧
        m.heap.cells[r]? = some cell := by
  unfold cellOf
  cases hc : m.heap.closures[closure]? with
  | none => simp
  | some c =>
    cases hs : c.slot? index.toNat with
    | none => simp [hs]
    | some r' =>
      cases hr : m.heap.cells[r']? <;> grind

theorem seenThrough?_opened {r : CellRef} {slot : Nat}
    (h : m.heap.cells[r]? = some (.opened slot)) :
    m.seenThrough? r = m.stack[slot]? := by
  simp [seenThrough?, h]

theorem seenThrough?_closed {r : CellRef} {value : Value}
    (h : m.heap.cells[r]? = some (.closed value)) : m.seenThrough? r = some value := by
  simp [seenThrough?, h]

theorem slot?_eq_stackAt {slot : Nat} (h : slot < m.stack.size) :
    m.stack[slot]? = some (m.stackAt slot) := by
  simp [stackAt_eq, h]

theorem upvalue_ok {closure : ClosureRef} {index : UInt8} {value : Value} :
    m.upvalue closure index = .ok value ↔
      ∃ r cell, m.cellOf closure index = .ok (r, cell) ∧ m.seenThrough? r = some value := by
  unfold upvalue
  cases hc : m.cellOf closure index with
  | error e => simp
  | ok found =>
    obtain ⟨r, cell⟩ := found
    obtain ⟨c, -, -, hr⟩ := cellOf_ok.mp hc
    cases cell with
    | closed v => simp [seenThrough?_closed hr]
    | opened slot =>
      by_cases hs : slot < m.stack.size
      · simp [hs, seenThrough?_opened hr, stackAt_eq]
      · simp [hs, seenThrough?_opened hr]

/-- A fault of a read through a cell: the cell is not there, or the slot that it observes
does not lie on the stack. -/
theorem upvalue_error {closure : ClosureRef} {index : UInt8} :
    m.upvalue closure index = .error e ↔
      m.cellOf closure index = .error e ∨
        ∃ r slot, m.cellOf closure index = .ok (r, .opened slot) ∧ m.stack.size ≤ slot ∧
          e = .stackOverflow (slot + 1) m.stack.size := by
  unfold upvalue
  cases hc : m.cellOf closure index with
  | error e => simp
  | ok found =>
    obtain ⟨r, cell⟩ := found
    cases cell with
    | closed v => simp
    | opened slot =>
      by_cases hs : slot < m.stack.size
      · simp [and_assoc, hs, Nat.not_le.mpr hs]
      · simp [and_assoc, hs, Nat.le_of_not_lt hs, eq_comm (a := e)]

theorem setUpvalue_ok {closure : ClosureRef} {index : UInt8} {value : Value} {u : Unit} :
    setUpvalue closure index value m = .ok u m' ↔
      (∃ r old, m.cellOf closure index = .ok (r, .closed old) ∧ m' = m.rewritten r value) ∨
        ∃ r slot, m.cellOf closure index = .ok (r, .opened slot) ∧ slot < m.stack.size ∧
          m' = m.store slot value := by
  unfold setUpvalue
  cases hc : m.cellOf closure index with
  | error e => simp
  | ok found =>
    obtain ⟨r, cell⟩ := found
    cases cell with
    | closed v => simp [rewritten, eq_comm (a := m')]
    | opened slot =>
      by_cases hs : slot < m.stack.size <;>
        simp [and_assoc, hs, store, eq_comm (a := m')]

theorem setUpvalue_error {closure : ClosureRef} {index : UInt8} {value : Value} :
    setUpvalue closure index value m = .error e m' ↔
      m.upvalue closure index = .error e ∧ m = m' := by
  unfold setUpvalue upvalue
  cases hc : m.cellOf closure index with
  | error e => simp
  | ok found =>
    obtain ⟨r, cell⟩ := found
    cases cell with
    | closed v => simp
    | opened slot => by_cases hs : slot < m.stack.size <;> simp [hs]

theorem machine_then_none (x : Op Unit) (m : Machine) :
    Outcome.machine ((x >>= fun _ => pure (none : Option Report)) m) = Outcome.machine (x m) := by
  rw [Op.bind_apply]
  cases x m <;> rfl

-- ---------------------------------------------------------------------------
-- Closing
-- ---------------------------------------------------------------------------

/-- Whether or not it succeeds, closing changes cells only. -/
theorem closeEntries_machine (entries : List OpenEntry) (m : Machine) :
    ∃ cells,
      Outcome.machine (closeEntries entries m) = { m with heap := { m.heap with cells } } := by
  induction entries generalizing m with
  | nil => exact ⟨m.heap.cells, rfl⟩
  | cons entry rest ih =>
    unfold closeEntries
    split
    · exact ⟨m.heap.cells, rfl⟩
    · exact ⟨m.heap.cells, rfl⟩
    · obtain ⟨cells, hc⟩ :=
        ih { m with heap := m.heap.setCell entry.2 (.closed (m.stackAt entry.1)) }
      exact ⟨cells, hc⟩

theorem closeFrom_machine (start : Nat) (m : Machine) :
    ∃ cells, Outcome.machine (closeFrom start m) =
      { m with heap := { m.heap with cells }, openCells := m.openCells.below start } := by
  obtain ⟨cells, hc⟩ := closeEntries_machine (m.openCells.entriesFrom start)
    { m with openCells := m.openCells.below start }
  refine ⟨cells, ?_⟩
  rw [closeFrom]
  cases he : closeEntries (m.openCells.entriesFrom start)
      { m with openCells := m.openCells.below start } with
  | ok u m₁ => rw [he] at hc; exact hc
  | error e m₁ => rw [he] at hc; exact hc

/-- Closing a cell leaves the others alone. -/
theorem setCell_cell? (h : Heap) (r : CellRef) (cell : Cell) (i : CellRef) :
    (h.setCell r cell).cells[i]? =
      if r = i then (h.cells[i]?).map fun _ => cell else h.cells[i]? := by
  simp only [Heap.setCell, Array.getElem?_setIfInBounds]
  split
  · next he =>
    subst he
    by_cases hr : r < h.cells.size <;> simp [hr]
  · rfl

/-- Whether or not it succeeds, closing leaves a cell as it was, or closes one that was open
with the value of a slot. -/
theorem closeEntries_cell? (entries : List OpenEntry) (m : Machine) (r : CellRef) :
    (Outcome.machine (closeEntries entries m)).heap.cells[r]? = m.heap.cells[r]? ∨
      (∃ slot, m.heap.cells[r]? = some (.opened slot)) ∧
        ∃ slot, (Outcome.machine (closeEntries entries m)).heap.cells[r]? =
          some (.closed (m.stackAt slot)) := by
  induction entries generalizing m with
  | nil => exact .inl rfl
  | cons entry rest ih =>
    obtain ⟨slot, r'⟩ := entry
    simp only [closeEntries]
    split
    · exact .inl rfl
    · exact .inl rfl
    · next s hs =>
      have hrest := ih { m with heap := m.heap.setCell r' (.closed (m.stackAt slot)) }
      simp only [setCell_cell?] at hrest
      by_cases he : r' = r
      · subst he
        simp only [if_true, hs, Option.map_some, Option.some.injEq, reduceCtorEq, exists_false,
          false_and, or_false] at hrest
        exact .inr ⟨⟨s, hs⟩, slot, hrest⟩
      · simp only [he, if_false] at hrest
        exact hrest

theorem closeFrom_cell? (start : Nat) (m : Machine) (r : CellRef) :
    (Outcome.machine (closeFrom start m)).heap.cells[r]? = m.heap.cells[r]? ∨
      (∃ slot, m.heap.cells[r]? = some (.opened slot)) ∧
        ∃ slot, (Outcome.machine (closeFrom start m)).heap.cells[r]? =
          some (.closed (m.stackAt slot)) := by
  have hc := closeEntries_cell? (m.openCells.entriesFrom start)
    { m with openCells := m.openCells.below start } r
  rw [closeFrom]
  cases he : closeEntries (m.openCells.entriesFrom start)
      { m with openCells := m.openCells.below start } with
  | ok u m₁ => rw [he] at hc; exact hc
  | error e m₁ => rw [he] at hc; exact hc

/-- Closing opens nothing. -/
theorem opened_of_closeFrom {start : Nat} {r : CellRef} {slot : Nat}
    (h : (Outcome.machine (closeFrom start m)).heap.cells[r]? = some (.opened slot)) :
    m.heap.cells[r]? = some (.opened slot) := by
  rcases closeFrom_cell? start m r with heq | ⟨-, s, hs⟩
  · rw [← heq, h]
  · simp [hs] at h

theorem size_cells_closeFrom (start : Nat) (m : Machine) :
    (Outcome.machine (closeFrom start m)).heap.cells.size = m.heap.cells.size := by
  have hnone : ∀ r : CellRef, (Outcome.machine (closeFrom start m)).heap.cells[r]? = none ↔
      m.heap.cells[r]? = none := by
    intro r
    rcases closeFrom_cell? start m r with heq | ⟨⟨s, hs⟩, s', hs'⟩
    · rw [heq]
    · simp [hs, hs']
  simp only [Array.getElem?_eq_none_iff] at hnone
  have hle := (hnone m.heap.cells.size).mpr Nat.le.refl
  have hge := (hnone _).mp Nat.le.refl
  omega

/-- Closing fails only where a cell is missing or closed already. -/
theorem closeEntries_error {entries : List OpenEntry}
    (h : closeEntries entries m = .error e m') :
    ∃ r, e = .upvalueNotFound r ∨ e = .doubleClose r := by
  induction entries generalizing m with
  | nil => simp [closeEntries] at h
  | cons entry rest ih =>
    rw [closeEntries] at h
    split at h
    · obtain ⟨rfl, -⟩ := EStateM.Result.error.inj h
      exact ⟨_, .inl rfl⟩
    · obtain ⟨rfl, -⟩ := EStateM.Result.error.inj h
      exact ⟨_, .inr rfl⟩
    · exact ih h

theorem closeFrom_error {start : Nat} (h : closeFrom start m = .error e m') :
    ∃ r, e = .upvalueNotFound r ∨ e = .doubleClose r := by
  rw [closeFrom] at h
  split at h
  · simp at h
  · next he =>
    obtain ⟨rfl, -⟩ := EStateM.Result.error.inj h
    exact closeEntries_error he

theorem closeFrom_ok {start n : Nat} (h : closeFrom start m = .ok n m') :
    ∃ cells,
      m' = { m with heap := { m.heap with cells }, openCells := m.openCells.below start } := by
  obtain ⟨cells, hc⟩ := closeFrom_machine start m
  rw [h] at hc
  exact ⟨cells, hc⟩

-- ---------------------------------------------------------------------------
-- Calls
-- ---------------------------------------------------------------------------

theorem codeOf_ok {closure : ClosureRef} {code : CodeObject} :
    m.codeOf closure = .ok code ↔
      ∃ c, m.heap.closures[closure]? = some c ∧ m.heap.codes[c.code]? = some code := by
  unfold codeOf
  cases hc : m.heap.closures[closure]? with
  | none => simp
  | some c => cases hk : m.heap.codes[c.code]? <;> simp [hk]

theorem windowFor_ok {closure : ClosureRef} {base : Nat} {v : Window} :
    m.windowFor closure base = .ok v ↔
      m.depth < m.config.maxFrames ∧
        ∃ code, m.codeOf closure = .ok code ∧ v = ⟨base, code.stackSize.toNat⟩ ∧
          v.finish ≤ m.stack.size := by
  unfold windowFor
  by_cases hd : m.config.maxFrames ≤ m.depth
  · simp [hd, Nat.not_lt.mpr hd]
  · cases hc : m.codeOf closure with
    | error e => simp [hd]
    | ok code =>
      simp only [hd, if_false, Except.ok.injEq, exists_eq_left', Nat.lt_of_not_le hd, true_and]
      split
      · simp only [reduceCtorEq, false_iff, not_and, Nat.not_le]
        rintro rfl
        assumption
      · simp only [Except.ok.injEq]
        constructor
        · rintro rfl
          exact ⟨rfl, by omega⟩
        · rintro ⟨rfl, -⟩
          rfl

theorem windowFor_error {closure : ClosureRef} {base : Nat}
    (h : m.windowFor closure base = .error e) :
    (m.config.maxFrames ≤ m.depth ∧ e = .frameOverflow m.config.maxFrames) ∨
      m.codeOf closure = .error e ∨
      ∃ code, m.codeOf closure = .ok code ∧ m.stack.size < base + code.stackSize.toNat ∧
        e = .stackOverflow (base + code.stackSize.toNat) m.stack.size := by
  unfold windowFor at h
  split at h
  · next hd => exact .inl ⟨hd, (Except.error.inj h).symm⟩
  · cases hc : m.codeOf closure with
    | error e' =>
      simp only [hc] at h
      obtain rfl := Except.error.inj h
      exact .inr (.inl rfl)
    | ok code =>
      simp only [hc] at h
      split at h
      · next hs => exact .inr (.inr ⟨code, rfl, hs, (Except.error.inj h).symm⟩)
      · simp at h

theorem pushFrame_ok {closure : ClosureRef} {base : Nat} {u : Unit} :
    pushFrame closure base m = .ok u m' ↔
      ∃ v, m.windowFor closure base = .ok v ∧ m' = m.entered closure base v.finish := by
  unfold pushFrame
  cases m.windowFor closure base <;> simp [entered, eq_comm]

theorem pushFrame_error {closure : ClosureRef} {base : Nat} :
    pushFrame closure base m = .error e m' ↔ m.windowFor closure base = .error e ∧ m = m' := by
  unfold pushFrame
  cases m.windowFor closure base <;> simp

theorem callee_ok {function argBase : UInt8} {closure : ClosureRef} {base : Nat} :
    m.callee w function argBase = .ok (closure, base) ↔
      m.register w function = .ok (.function closure) ∧ w.slot argBase = .ok base := by
  unfold callee
  cases hr : m.register w function with
  | error e => simp
  | ok v => cases v <;> cases hs : w.slot argBase <;> simp

theorem popFrame_eq (w : Window) : popFrame w m =
    .ok (if m.depth = 1 then some (m.snapshot .entryReturn w) else none) (m.leave w) := rfl

@[simp] theorem size_clearRange (start n : Nat) (stack : Array Value) :
    (clearRange start n stack).size = stack.size := by
  induction n generalizing stack with
  | zero => rfl
  | succ n ih => simp [clearRange, ih]

theorem clearRange_slot? (start n : Nat) (stack : Array Value) (i : Nat) :
    (clearRange start n stack)[i]? =
      if start ≤ i ∧ i < start + n then stack[i]?.map fun _ => .uninitialized else stack[i]? := by
  induction n generalizing stack with
  | zero =>
    have hempty : ¬ (start ≤ i ∧ i < start + 0) := by omega
    rw [clearRange, if_neg hempty]
  | succ n ih =>
    rw [clearRange, ih, Array.getElem?_setIfInBounds]
    by_cases hi : start + n = i
    · subst hi
      by_cases hs : start + n < stack.size <;> simp [hs]
    · have hiff : start ≤ i ∧ i < start + n ↔ start ≤ i ∧ i < start + (n + 1) := by omega
      simp only [hi, hiff, if_false]

section Leave

variable (m : Machine) (w : Window)

@[simp] theorem leave_heap : (m.leave w).heap = m.heap := by
  unfold leave
  split <;> rfl

@[simp] theorem leave_openCells : (m.leave w).openCells = m.openCells := by
  unfold leave
  split <;> rfl

@[simp] theorem leave_prototypes : (m.leave w).prototypes = m.prototypes := by
  unfold leave
  split <;> rfl

@[simp] theorem leave_pending : (m.leave w).pending = m.pending := by
  unfold leave
  split <;> rfl

/-- A return clears nothing at or below the first slot of its window, and what it clears
above becomes uninitialized. -/
theorem leave_slot? (i : Nat) :
    (m.leave w).stack[i]? =
      if m.config.scrubOnReturn ∧ w.base < i ∧ i < m.highWater then
        m.stack[i]?.map fun _ => .uninitialized
      else m.stack[i]? := by
  unfold leave
  cases hs : m.config.scrubOnReturn with
  | false => simp
  | true =>
    show (clearRange (w.base + 1) (m.highWater - (w.base + 1)) m.stack)[i]? = _
    rw [clearRange_slot?]
    have hiff : w.base + 1 ≤ i ∧ i < w.base + 1 + (m.highWater - (w.base + 1)) ↔
        w.base < i ∧ i < m.highWater := by omega
    simp only [hiff, true_and]

theorem stackAt_leave (i : Nat) :
    (m.leave w).stackAt i =
      if m.config.scrubOnReturn ∧ w.base < i ∧ i < m.highWater then .uninitialized
      else m.stackAt i := by
  rw [stackAt_eq, stackAt_eq, leave_slot?]
  split
  · cases m.stack[i]? <;> rfl
  · rfl

theorem leave_highWater :
    (m.leave w).highWater = if m.config.scrubOnReturn then w.base + 1 else m.highWater := by
  unfold leave
  split <;> rfl

@[simp] theorem size_leave : (m.leave w).stack.size = m.stack.size := by
  unfold leave scrub
  split <;> simp

end Leave

-- ---------------------------------------------------------------------------
-- Loading
-- ---------------------------------------------------------------------------

theorem load_of_size_le {p : Program} (h : p.codes.size ≤ p.entry.toNat) :
    load p m = .error (.malformed (.entryOutOfRange p.entry p.codes.size)) m := by
  unfold load
  rw [if_pos h]
  rfl

theorem load_of_entry_lt {p : Program} (h : p.entry.toNat < p.codes.size) :
    load p = do
      reset
      modify (·.install p)
      let code ← Op.ask (·.prototype p.entry)
      let closure ← addClosure code
      pushFrame closure 0
      return closure := by
  unfold load
  rw [if_neg (Nat.not_le.mpr h)]

/-- The machine with a program installed and its entry closure made, before the entry frame
is pushed. -/
def staged (m : Machine) (p : Program) : Machine :=
  (m.clear.install p).withClosure (handleAt (m.heap.codes.size + p.entry.toNat))

section Staged

variable (m : Machine) (p : Program)

@[simp] theorem staged_frames : (m.staged p).frames = #[] := rfl
@[simp] theorem staged_pending : (m.staged p).pending = none := rfl
@[simp] theorem staged_config : (m.staged p).config = m.config := rfl
@[simp] theorem staged_openCells : (m.staged p).openCells = m.openCells := rfl

@[simp] theorem size_staged : (m.staged p).stack.size = m.stack.size := Array.size_replicate

end Staged

theorem prototype_install {p : Program} (h : p.entry.toNat < p.codes.size) :
    (m.install p).prototype p.entry = .ok (handleAt (m.heap.codes.size + p.entry.toNat)) := by
  simp [prototype_ok, install, h]

/-- A load whose reset succeeds stages the program and pushes a frame for its entry. -/
theorem load_of_closed {n : Nat} {m₁ : Machine} {p : Program} (hc : closeFrom 0 m = .ok n m₁)
    (h : p.entry.toNat < p.codes.size) :
    load p m = (do pushFrame m₁.heap.nextClosure 0; return m₁.heap.nextClosure) (m₁.staged p) := by
  have hproto : (m₁.clear.install p).prototype p.entry =
      .ok (handleAt (m₁.heap.codes.size + p.entry.toNat)) := prototype_install (m := m₁.clear) h
  rw [load_of_entry_lt h]
  simp only [reset, Op.bind_apply, hc, Op.modify_apply, Op.ask, hproto, addClosure_eq]
  rfl

theorem load_of_not_closed {m₁ : Machine} {p : Program} (hc : closeFrom 0 m = .error e m₁)
    (h : p.entry.toNat < p.codes.size) : load p m = .error e m₁ := by
  simp [load_of_entry_lt h, reset, hc]

end Machine

end ClosureMachine

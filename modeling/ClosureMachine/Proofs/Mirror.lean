import ClosureMachine.Proofs.StepLaws

/-!
# Machines that mirror each other

One machine mirrors another when it is in the same state but for two things. Positions in its
heap may lie further on by a fixed distance, because other closures were there before. And the
mirrored machine may have cleared values that the mirror still has. A `Mirror` says how far
apart the positions are and whether clearing is allowed; `Mirror.Machines` relates the states.
Handles are as far apart as positions while none has wrapped around.
-/

namespace ClosureMachine

-- ---------------------------------------------------------------------------
-- Related options and arrays
-- ---------------------------------------------------------------------------

section Rel

variable {α β γ δ : Type} {R : α → β → Prop} {S : γ → δ → Prop} {x : Option α} {y : Option β}

theorem rel_eq_none (h : Option.Rel R x y) : y = none ↔ x = none := by
  cases h <;> simp

theorem rel_getD (h : Option.Rel R x y) {a : α} {b : β} (hd : R a b) : R (x.getD a) (y.getD b) := by
  cases h with
  | some hr => exact hr
  | none => exact hd

theorem rel_map (h : Option.Rel R x y) {f : α → γ} {g : β → δ} (hf : ∀ a b, R a b → S (f a) (g b)) :
    Option.Rel S (x.map f) (y.map g) := by
  cases h with
  | some hr => exact .some (hf _ _ hr)
  | none => exact .none

/-- Arrays of one size whose items are related position by position. -/
def Pointwise (R : α → β → Prop) (xs : Array α) (ys : Array β) : Prop :=
  ∀ i : Nat, Option.Rel R xs[i]? ys[i]?

namespace Pointwise

variable {xs : Array α} {ys : Array β}

theorem refl {R : α → α → Prop} (h : ∀ a, R a a) (xs : Array α) : Pointwise R xs xs := by
  intro i
  cases xs[i]? with
  | none => exact .none
  | some a => exact .some (h a)

theorem size_eq (h : Pointwise R xs ys) : ys.size = xs.size := by
  have hiff : ∀ i, ys.size ≤ i ↔ xs.size ≤ i := by
    intro i
    rw [← Array.getElem?_eq_none_iff, ← Array.getElem?_eq_none_iff, rel_eq_none (h i)]
  have hx := hiff xs.size
  have hy := hiff ys.size
  omega

theorem set (h : Pointwise R xs ys) {a : α} {b : β} (hr : R a b) (slot : Nat) :
    Pointwise R (xs.setIfInBounds slot a) (ys.setIfInBounds slot b) := by
  intro i
  rw [Array.getElem?_setIfInBounds, Array.getElem?_setIfInBounds, h.size_eq]
  split
  · split
    · exact .some hr
    · exact .none
  · exact h i

theorem push (h : Pointwise R xs ys) {a : α} {b : β} (hr : R a b) :
    Pointwise R (xs.push a) (ys.push b) := by
  intro i
  rw [Array.getElem?_push, Array.getElem?_push, h.size_eq]
  split
  · exact .some hr
  · exact h i

theorem append (h : Pointwise R xs ys) {xs' : Array α} {ys' : Array β} (h' : Pointwise R xs' ys') :
    Pointwise R (xs ++ xs') (ys ++ ys') := by
  intro i
  rw [Array.getElem?_append, Array.getElem?_append, h.size_eq]
  split
  · exact h i
  · exact h' _

end Pointwise

end Rel

-- ---------------------------------------------------------------------------
-- What the mirror has in place of something
-- ---------------------------------------------------------------------------

/-- The value with the closure that it names `k` positions further on. -/
def Value.shift (k : Nat) : Value → Value
  | .function closure => .function (closure + k)
  | v => v

@[simp] theorem Value.shift_zero (v : Value) : v.shift 0 = v := by
  cases v <;> rfl

/-- How far the positions in the heap of the mirror are ahead, and whether the mirrored machine
may have cleared values. -/
structure Mirror where
  codes : Nat
  closures : Nat
  cells : Nat
  clears : Bool

namespace Mirror

variable (μ : Mirror)

def closure (c : Closure) : Closure := ⟨c.code + μ.codes, c.slots.map (Option.map (· + μ.cells))⟩

def frame (f : Frame) : Frame := { f with closure := f.closure + μ.closures }

def fetched (f : Fetched) : Fetched := { f with frame := μ.frame f.frame }

def entry (e : OpenEntry) : OpenEntry := (e.1, e.2 + μ.cells)

/-- Few faults name a position in the heap; those are the ones that differ. -/
def fault : Fault → Fault
  | .doubleClose cell => .doubleClose (cell + μ.cells)
  | .functionNotFound closure => .functionNotFound (closure + μ.closures)
  | .upvalueNotFound cell => .upvalueNotFound (cell + μ.cells)
  | .malformed (.codeNotLoaded code) => .malformed (.codeNotLoaded (code + μ.codes))
  | e => e

def Values (v v' : Value) : Prop :=
  v' = v.shift μ.closures ∨ μ.clears = true ∧ v = .uninitialized

inductive Cells : Cell → Cell → Prop
  | opened (slot : Nat) : Cells (.opened slot) (.opened slot)
  | closed {v v' : Value} (h : μ.Values v v') : Cells (.closed v) (.closed v')

def Stacks (xs ys : Array Value) : Prop := ∀ i : Nat, Option.Rel μ.Values xs[i]? ys[i]?

structure Heaps (h h' : Heap) : Prop where
  codes : ∀ i : Nat, h'.codes[i + μ.codes]? = h.codes[i]?
  sizeClosures : h'.closures.size = h.closures.size + μ.closures
  closures : ∀ i : Nat, h'.closures[i + μ.closures]? = h.closures[i]?.map μ.closure
  sizeCells : h'.cells.size = h.cells.size + μ.cells
  cells : ∀ r : Nat, Option.Rel μ.Cells h.cells[r]? h'.cells[r + μ.cells]?

/-- Both machines clear alike, or the mirror does not clear at all. -/
def Marks (a b : Machine) : Prop :=
  b.config.scrubOnReturn = a.config.scrubOnReturn ∧ b.highWater = a.highWater ∨
    μ.clears = true ∧ b.config.scrubOnReturn = false

/-- Machine `b` mirrors machine `a`. -/
structure Machines (a b : Machine) : Prop where
  maxFrames : b.config.maxFrames = a.config.maxFrames
  marks : μ.Marks a b
  heap : μ.Heaps a.heap b.heap
  stack : μ.Stacks a.stack b.stack
  frames : b.frames = a.frames.map μ.frame
  prototypes : b.prototypes = a.prototypes.map (· + μ.codes)
  openCells : b.openCells.topFirst = a.openCells.topFirst.map μ.entry
  pending : b.pending = a.pending.map (· + μ.closures)

structure Reports (r r' : Report) : Prop where
  reason : r'.reason = r.reason
  base : r'.base = r.base
  registers : μ.Stacks r.registers r'.registers

variable {μ}

-- ---------------------------------------------------------------------------
-- Values and stacks
-- ---------------------------------------------------------------------------

theorem Values.shift (v : Value) : μ.Values v (v.shift μ.closures) := .inl rfl

theorem Values.uninitialized : μ.Values .uninitialized .uninitialized := .inl rfl

theorem Stacks.size_eq {xs ys : Array Value} (h : μ.Stacks xs ys) : ys.size = xs.size :=
  Pointwise.size_eq h

theorem Stacks.set {xs ys : Array Value} {v v' : Value} (h : μ.Stacks xs ys) (hv : μ.Values v v')
    (slot : Nat) : μ.Stacks (xs.setIfInBounds slot v) (ys.setIfInBounds slot v') :=
  Pointwise.set h hv slot

theorem Stacks.extract {xs ys : Array Value} (h : μ.Stacks xs ys) (start stop : Nat) :
    μ.Stacks (xs.extract start stop) (ys.extract start stop) := by
  intro i
  rw [Array.getElem?_extract, Array.getElem?_extract, h.size_eq]
  split
  · exact h _
  · exact .none

-- ---------------------------------------------------------------------------
-- Heaps
-- ---------------------------------------------------------------------------

theorem slot?_closure (c : Closure) (index : Nat) :
    (μ.closure c).slot? index = (c.slot? index).map (· + μ.cells) := by
  simp only [closure, Closure.slot?, Array.getElem?_map]
  cases c.slots[index]? <;> rfl

theorem closure_bindSlot (c : Closure) (index : Nat) (r : CellRef) :
    μ.closure (c.bindSlot index r) = (μ.closure c).bindSlot index (r + μ.cells) := by
  simp [closure, Closure.bindSlot]

namespace Heaps

variable {h h' : Heap}

theorem addClosure (hh : μ.Heaps h h') (c : Closure) :
    μ.Heaps (h.addClosure c) (h'.addClosure (μ.closure c)) := by
  refine ⟨hh.codes, ?_, fun i => ?_, hh.sizeCells, hh.cells⟩
  · simp only [Heap.addClosure, Array.size_push, hh.sizeClosures]
    omega
  · simp only [Heap.addClosure, Array.getElem?_push, hh.sizeClosures, Nat.add_right_cancel_iff]
    split
    · rfl
    · exact hh.closures i

theorem addCell (hh : μ.Heaps h h') {c c' : Cell} (hc : μ.Cells c c') :
    μ.Heaps (h.addCell c) (h'.addCell c') := by
  refine ⟨hh.codes, hh.sizeClosures, hh.closures, ?_, fun r => ?_⟩
  · simp only [Heap.addCell, Array.size_push, hh.sizeCells]
    omega
  · simp only [Heap.addCell, Array.getElem?_push, hh.sizeCells, Nat.add_right_cancel_iff]
    split
    · exact .some hc
    · exact hh.cells r

theorem setCell (hh : μ.Heaps h h') (r : CellRef) {c c' : Cell} (hc : μ.Cells c c') :
    μ.Heaps (h.setCell r c) (h'.setCell (r + μ.cells) c') := by
  refine ⟨hh.codes, hh.sizeClosures, hh.closures, ?_, fun i => ?_⟩
  · simpa only [Heap.setCell, Array.size_setIfInBounds] using hh.sizeCells
  · simp only [Heap.setCell, Array.getElem?_setIfInBounds, hh.sizeCells, Nat.add_right_cancel_iff,
      Nat.add_lt_add_iff_right]
    split
    · split
      · exact .some hc
      · exact .none
    · exact hh.cells i

theorem bindSlot (hh : μ.Heaps h h') (c : ClosureRef) (index : Nat) (r : CellRef) :
    μ.Heaps (h.bindSlot c index r) (h'.bindSlot (c + μ.closures) index (r + μ.cells)) := by
  refine ⟨hh.codes, ?_, fun i => ?_, hh.sizeCells, hh.cells⟩
  · simpa only [Heap.bindSlot, Array.size_modify] using hh.sizeClosures
  · simp only [Heap.bindSlot, Array.getElem?_modify, hh.closures, Nat.add_right_cancel_iff]
    split
    · simp only [Option.map_map]
      congr 1
      funext c
      exact (closure_bindSlot c index r).symm
    · rfl

end Heaps

-- ---------------------------------------------------------------------------
-- Open cells
-- ---------------------------------------------------------------------------

theorem cellOf?_map_entry (slot : Nat) (entries : List OpenEntry) :
    OpenCells.cellOf? slot (entries.map μ.entry) =
      (OpenCells.cellOf? slot entries).map (· + μ.cells) := by
  induction entries with
  | nil => rfl
  | cons e rest ih =>
    simp only [List.map_cons, OpenCells.cellOf?, entry, ih]
    split
    · rfl
    · split <;> rfl

theorem insertEntry_map_entry (slot : Nat) (r : CellRef) (entries : List OpenEntry) :
    OpenCells.insertEntry slot (r + μ.cells) (entries.map μ.entry) =
      (OpenCells.insertEntry slot r entries).map μ.entry := by
  induction entries with
  | nil => rfl
  | cons e rest ih =>
    simp only [List.map_cons, OpenCells.insertEntry, ih]
    by_cases hlt : slot < e.1
    · simp [entry, hlt]
    · by_cases heq : slot = e.1 <;> simp [entry, hlt, heq]

-- ---------------------------------------------------------------------------
-- Machines
-- ---------------------------------------------------------------------------

namespace Machines

variable {a b : Machine}

theorem size_stack (h : μ.Machines a b) : b.stack.size = a.stack.size := h.stack.size_eq

theorem depth (h : μ.Machines a b) : b.depth = a.depth := by
  simp only [Machine.depth, h.frames, Array.size_map]

theorem stackAt (h : μ.Machines a b) (slot : Nat) : μ.Values (a.stackAt slot) (b.stackAt slot) := by
  rw [Machine.stackAt_eq, Machine.stackAt_eq]
  exact rel_getD (h.stack slot) .uninitialized

theorem find? (h : μ.Machines a b) (slot : Nat) :
    b.openCells.find? slot = (a.openCells.find? slot).map (· + μ.cells) := by
  rw [OpenCells.find?, OpenCells.find?, h.openCells, cellOf?_map_entry]

theorem entriesFrom (h : μ.Machines a b) (start : Nat) :
    b.openCells.entriesFrom start = (a.openCells.entriesFrom start).map μ.entry := by
  simp only [OpenCells.entriesFrom, h.openCells, List.takeWhile_map, List.map_reverse]
  rfl

theorem store (h : μ.Machines a b) {v v' : Value} (hv : μ.Values v v') (slot : Nat) :
    μ.Machines (a.store slot v) (b.store slot v') := by
  refine { h with stack := h.stack.set hv slot, marks := ?_ }
  exact h.marks.imp (fun hm => ⟨hm.1, by simp [hm.2]⟩) id

theorem withClosure (h : μ.Machines a b) (code : CodeRef) :
    μ.Machines (a.withClosure code) (b.withClosure (code + μ.codes)) := by
  have hnew : Closure.new (code + μ.codes) = μ.closure (.new code) := by
    simp [Closure.new, closure]
  refine { h with heap := ?_ }
  simp only [Machine.withClosure, hnew]
  exact h.heap.addClosure (.new code)

/-- Handles wrap around alike as long as those of the mirror do not, or nothing is ahead. -/
theorem nextClosure (h : μ.Machines a b)
    (hroom : μ.closures = 0 ∨ b.heap.closures.size < handleSpace) :
    b.heap.nextClosure = a.heap.nextClosure + μ.closures := by
  rw [Heap.nextClosure, Heap.nextClosure, h.heap.sizeClosures]
  rw [h.heap.sizeClosures] at hroom
  exact handleAt_add hroom

theorem nextCell (h : μ.Machines a b) (hroom : μ.cells = 0 ∨ b.heap.cells.size < handleSpace) :
    b.heap.nextCell = a.heap.nextCell + μ.cells := by
  rw [Heap.nextCell, Heap.nextCell, h.heap.sizeCells]
  rw [h.heap.sizeCells] at hroom
  exact handleAt_add hroom

theorem captured (h : μ.Machines a b) {slot : Nat}
    (hnext : a.openCells.find? slot = none → b.heap.nextCell = a.heap.nextCell + μ.cells) :
    μ.Machines (a.captured slot) (b.captured slot) := by
  have hfind := h.find? slot
  unfold Machine.captured
  cases hf : a.openCells.find? slot with
  | some r =>
    rw [hf] at hfind
    rw [hfind]
    exact h
  | none =>
    rw [hf] at hfind
    simp only [hfind, Option.map_none]
    refine { h with heap := h.heap.addCell (.opened slot), openCells := ?_ }
    have hinsert : ∀ {o : OpenCells} (r : CellRef), o.find? slot = none →
        (o.insert slot r).topFirst = OpenCells.insertEntry slot r o.topFirst := by
      intro o r ho
      simp [OpenCells.insert, OpenCells.insert?, ho]
    rw [hinsert _ hfind, hinsert _ hf, h.openCells, ← insertEntry_map_entry, hnext hf]

theorem cellFor (h : μ.Machines a b) {slot : Nat}
    (hnext : a.openCells.find? slot = none → b.heap.nextCell = a.heap.nextCell + μ.cells) :
    b.cellFor slot = a.cellFor slot + μ.cells := by
  simp only [Machine.cellFor, h.find? slot]
  cases hf : a.openCells.find? slot with
  | some r => rfl
  | none => exact hnext hf

theorem entered (h : μ.Machines a b) (closure : ClosureRef) (base finish : Nat) :
    μ.Machines (a.entered closure base finish) (b.entered (closure + μ.closures) base finish) := by
  refine { h with marks := ?_, frames := ?_ }
  · exact h.marks.imp (fun hm => ⟨hm.1, by simp [Machine.entered, hm.2]⟩) id
  · simp only [Machine.entered, h.frames, Array.map_push]
    rfl

theorem advance (h : μ.Machines a b) (f : Fetched) :
    μ.Machines (a.advance f) (b.advance (μ.fetched f)) := by
  refine { h with frames := ?_, pending := ?_ }
  · simp only [Machine.advance, h.frames, Array.map_push, Array.map_pop]
    rfl
  · simp only [Machine.advance, fetched]
    by_cases hb : f.instruction.isBind
    · simpa [hb] using h.pending
    · simp [hb]

/-- A return clears what it clears in both machines, or in the mirrored one alone. -/
theorem leave (h : μ.Machines a b) (w : Window) : μ.Machines (a.leave w) (b.leave w) := by
  refine ⟨?_, ?_, ?_, fun i => ?_, ?_, ?_, ?_, ?_⟩
  · rw [Machine.leave_config, Machine.leave_config]
    exact h.maxFrames
  · unfold Marks
    rw [Machine.leave_config, Machine.leave_config, Machine.leave_highWater,
      Machine.leave_highWater]
    refine h.marks.imp (fun hm => ⟨hm.1, ?_⟩) id
    rw [hm.1, hm.2]
  · rw [Machine.leave_heap, Machine.leave_heap]
    exact h.heap
  · rw [Machine.leave_slot?, Machine.leave_slot?]
    rcases h.marks with ⟨hscrub, hwater⟩ | ⟨hclears, hscrub⟩
    · rw [hscrub, hwater]
      split
      · exact rel_map (h.stack i) fun _ _ _ => .uninitialized
      · exact h.stack i
    · have hkept : ¬ (b.config.scrubOnReturn = true ∧ w.base < i ∧ i < b.highWater) := by
        simp [hscrub]
      rw [if_neg hkept]
      split
      · have hcleared := rel_map (S := μ.Values) (g := id) (h.stack i)
          fun _ _ _ => .inr ⟨hclears, rfl⟩
        rwa [Option.map_id] at hcleared
      · exact h.stack i
  · rw [Machine.leave_frames, Machine.leave_frames, h.frames, Array.map_pop]
  · rw [Machine.leave_prototypes, Machine.leave_prototypes]
    exact h.prototypes
  · rw [Machine.leave_openCells, Machine.leave_openCells]
    exact h.openCells
  · rw [Machine.leave_pending, Machine.leave_pending]
    exact h.pending

theorem snapshot (h : μ.Machines a b) (reason : StopReason) (w : Window) :
    μ.Reports (a.snapshot reason w) (b.snapshot reason w) :=
  ⟨rfl, rfl, h.stack.extract _ _⟩

end Machines

end Mirror

end ClosureMachine

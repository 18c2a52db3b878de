import ClosureMachine.Proofs.Mirror

/-!
# Machines that differ in numbers and in room

Two machines run programs that are equal but for the constants they load, and the second may
have more room than the first. A `Leeway` says which numbers may stand for each other and how
much room each machine has; `Leeway.Machines` relates the states. Frames, closures, open cells
and the mark are the same in both. Beyond the stack of the first machine, the second has nothing.

Machines that are related answer every query alike. There is one exception: the first may run
out of room where the second does not.
-/

namespace ClosureMachine

-- ---------------------------------------------------------------------------
-- Alike but for numbers
-- ---------------------------------------------------------------------------

section Alike

variable (R : Number → Number → Prop)

inductive Value.Alike : Value → Value → Prop
  | number {x y : Number} (h : R x y) : Alike (.number x) (.number y)
  | function (closure : ClosureRef) : Alike (.function closure) (.function closure)
  | uninitialized : Alike .uninitialized .uninitialized

inductive Cell.Alike : Cell → Cell → Prop
  | opened (slot : Nat) : Alike (.opened slot) (.opened slot)
  | closed {v v' : Value} (h : v.Alike R v') : Alike (.closed v) (.closed v')

inductive Instruction.Alike : Instruction → Instruction → Prop
  | same (i : Instruction) : Alike i i
  | loadConstant (target : UInt8) {x y : Number} (h : R x y) :
      Alike (.loadConstant target x) (.loadConstant target y)

structure CodeObject.Alike (c c' : CodeObject) : Prop where
  name : c'.name = c.name
  stackSize : c'.stackSize = c.stackSize
  instructions : Pointwise (Instruction.Alike R) c.instructions c'.instructions

structure Program.Alike (p p' : Program) : Prop where
  entry : p'.entry = p.entry
  codes : Pointwise (CodeObject.Alike R) p.codes p'.codes

structure Report.Alike (r r' : Report) : Prop where
  reason : r'.reason = r.reason
  base : r'.base = r.base
  size : r'.registers.size = r.registers.size
  registers : Pointwise (Value.Alike R) r.registers r'.registers

structure Fetched.Alike (f f' : Fetched) : Prop where
  frame : f'.frame = f.frame
  window : f'.window = f.window
  instruction : f.instruction.Alike R f'.instruction

variable {R}

theorem Instruction.Alike.isBind {i i' : Instruction} (h : i.Alike R i') :
    i'.isBind = i.isBind := by
  cases h <;> rfl

end Alike

-- ---------------------------------------------------------------------------
-- Leeway
-- ---------------------------------------------------------------------------

/-- What two machines may differ in. Sums of numbers that may stand for each other may do so
too. -/
structure Leeway where
  numbers : Number → Number → Prop
  refl : ∀ x, numbers x x
  add : ∀ {x x' y y'}, numbers x x' → numbers y y' → numbers (x.add y) (x'.add y')
  small : Config
  large : Config
  scrubs : large.scrubOnReturn = small.scrubOnReturn
  stackSize_le : small.stackSize ≤ large.stackSize
  maxFrames_le : small.maxFrames ≤ large.maxFrames

namespace Leeway

variable (l : Leeway)

/-- Faults of the first machine that the second may be spared. -/
def Excuses : Fault → Prop
  | .stackOverflow .. => l.small.stackSize < l.large.stackSize
  | .frameOverflow _ => l.small.maxFrames < l.large.maxFrames
  | _ => False

structure Machines (a b : Machine) : Prop where
  small : a.config = l.small
  large : b.config = l.large
  sizeSmall : a.stack.size = l.small.stackSize
  sizeLarge : b.stack.size = l.large.stackSize
  stack : ∀ slot, (a.stackAt slot).Alike l.numbers (b.stackAt slot)
  codes : Pointwise (CodeObject.Alike l.numbers) a.heap.codes b.heap.codes
  closures : b.heap.closures = a.heap.closures
  cells : Pointwise (Cell.Alike l.numbers) a.heap.cells b.heap.cells
  frames : b.frames = a.frames
  prototypes : b.prototypes = a.prototypes
  openCells : b.openCells = a.openCells
  pending : b.pending = a.pending
  highWater : b.highWater = a.highWater

inductive Answers {α β : Type} (R : α → β → Prop) : Except Fault α → Except Fault β → Prop
  | ok {x : α} {y : β} (h : R x y) : Answers R (.ok x) (.ok y)
  | error (e : Fault) : Answers R (.error e) (.error e)
  | excused {e : Fault} {answer : Except Fault β} (h : l.Excuses e) : Answers R (.error e) answer

variable {l}

theorem alike_self (v : Value) : v.Alike l.numbers v := by
  cases v with
  | number x => exact .number (l.refl x)
  | function closure => exact .function closure
  | uninitialized => exact .uninitialized

theorem stackAt_of_replicate {m : Machine} {n : Nat}
    (h : m.stack = Array.replicate n .uninitialized) (slot : Nat) :
    m.stackAt slot = .uninitialized := by
  rw [Machine.stackAt_eq, h, Array.getElem?_replicate]
  split <;> rfl

-- ---------------------------------------------------------------------------
-- Updates
-- ---------------------------------------------------------------------------

namespace Machines

variable {a b : Machine}

theorem depth (h : l.Machines a b) : b.depth = a.depth := congrArg Array.size h.frames

theorem nextClosure (h : l.Machines a b) : b.heap.nextClosure = a.heap.nextClosure :=
  congrArg (fun closures : Array Closure => handleAt closures.size) h.closures

theorem nextCell (h : l.Machines a b) : b.heap.nextCell = a.heap.nextCell :=
  congrArg handleAt h.cells.size_eq

theorem store (h : l.Machines a b) {v v' : Value} (hv : v.Alike l.numbers v') {slot : Nat}
    (hslot : slot < l.small.stackSize) : l.Machines (a.store slot v) (b.store slot v') := by
  refine { h with sizeSmall := ?_, sizeLarge := ?_, stack := fun i => ?_, highWater := ?_ }
  · rw [Machine.size_store]
    exact h.sizeSmall
  · rw [Machine.size_store]
    exact h.sizeLarge
  · have ha : slot < a.stack.size := h.sizeSmall ▸ hslot
    have hb : slot < b.stack.size := h.sizeLarge ▸ Nat.lt_of_lt_of_le hslot l.stackSize_le
    simp only [Machine.stackAt_store, ha, hb, and_true]
    split
    · exact hv
    · exact h.stack i
  · rw [Machine.store_highWater, Machine.store_highWater, h.highWater]

theorem withClosure (h : l.Machines a b) (code : CodeRef) :
    l.Machines (a.withClosure code) (b.withClosure code) := by
  refine { h with closures := ?_ }
  simp only [Machine.withClosure, Heap.addClosure, h.closures]

theorem withBinding (h : l.Machines a b) (closure : ClosureRef) (index : UInt8) (r : CellRef) :
    l.Machines (a.withBinding closure index r) (b.withBinding closure index r) := by
  refine { h with closures := ?_ }
  simp only [Machine.withBinding, Heap.bindSlot, h.closures]

theorem setCell (h : l.Machines a b) (r : CellRef) {c c' : Cell} (hc : c.Alike l.numbers c') :
    l.Machines { a with heap := a.heap.setCell r c } { b with heap := b.heap.setCell r c' } :=
  { h with cells := h.cells.set hc r }

theorem cellFor (h : l.Machines a b) (slot : Nat) : b.cellFor slot = a.cellFor slot := by
  rw [Machine.cellFor, Machine.cellFor, h.openCells, h.nextCell]

theorem captured (h : l.Machines a b) (slot : Nat) :
    l.Machines (a.captured slot) (b.captured slot) := by
  unfold Machine.captured
  rw [h.openCells]
  cases a.openCells.find? slot with
  | some r => exact h
  | none =>
    refine { h with cells := h.cells.push (.opened slot), openCells := ?_ }
    rw [h.nextCell]

theorem below (h : l.Machines a b) (start : Nat) :
    l.Machines { a with openCells := a.openCells.below start }
      { b with openCells := b.openCells.below start } := by
  refine { h with openCells := ?_ }
  rw [h.openCells]

theorem entered (h : l.Machines a b) (closure : ClosureRef) (base finish : Nat) :
    l.Machines (a.entered closure base finish) (b.entered closure base finish) := by
  refine { h with frames := ?_, highWater := ?_ }
  · show b.frames.push _ = a.frames.push _
    rw [h.frames]
  · show max b.highWater finish = max a.highWater finish
    rw [h.highWater]

theorem advance (h : l.Machines a b) {f f' : Fetched} (hf : f.Alike l.numbers f') :
    l.Machines (a.advance f) (b.advance f') := by
  refine { h with frames := ?_, pending := ?_ }
  · simp only [Machine.advance, h.frames, hf.frame]
  · simp only [Machine.advance, h.pending, hf.instruction.isBind]

theorem leave (h : l.Machines a b) (w : Window) : l.Machines (a.leave w) (b.leave w) := by
  have hscrubs : b.config.scrubOnReturn = a.config.scrubOnReturn := by
    rw [h.small, h.large, l.scrubs]
  refine ⟨?_, ?_, ?_, ?_, fun i => ?_, ?_, ?_, ?_, ?_, ?_, ?_, ?_, ?_⟩
  · exact (Machine.leave_config ..).trans h.small
  · exact (Machine.leave_config ..).trans h.large
  · exact (Machine.size_leave ..).trans h.sizeSmall
  · exact (Machine.size_leave ..).trans h.sizeLarge
  · rw [Machine.stackAt_leave, Machine.stackAt_leave, hscrubs, h.highWater]
    split
    · exact .uninitialized
    · exact h.stack i
  · simpa only [Machine.leave_heap] using h.codes
  · simpa only [Machine.leave_heap] using h.closures
  · simpa only [Machine.leave_heap] using h.cells
  · rw [Machine.leave_frames, Machine.leave_frames, h.frames]
  · simpa only [Machine.leave_prototypes] using h.prototypes
  · simpa only [Machine.leave_openCells] using h.openCells
  · simpa only [Machine.leave_pending] using h.pending
  · rw [Machine.leave_highWater, Machine.leave_highWater, hscrubs, h.highWater]

theorem clear (h : l.Machines a b) : l.Machines a.clear b.clear := by
  refine { h with
    sizeSmall := Array.size_replicate.trans h.sizeSmall
    sizeLarge := Array.size_replicate.trans h.sizeLarge
    stack := fun slot => ?_, frames := rfl, pending := rfl, highWater := rfl }
  rw [stackAt_of_replicate rfl, stackAt_of_replicate rfl]
  exact .uninitialized

theorem install (h : l.Machines a b) {p p' : Program} (hp : p.Alike l.numbers p') :
    l.Machines (a.install p) (b.install p') := by
  refine { h with codes := h.codes.append hp.codes, prototypes := ?_ }
  simp only [Machine.install, hp.codes.size_eq, h.codes.size_eq]

/-- The window lies on the smaller stack, so a snapshot shows the same slots of both. -/
theorem snapshot (h : l.Machines a b) (reason : StopReason) {w : Window}
    (hfit : w.finish ≤ l.small.stackSize) :
    (a.snapshot reason w).Alike l.numbers (b.snapshot reason w) := by
  have ha : w.finish ≤ a.stack.size := h.sizeSmall ▸ hfit
  have hb : w.finish ≤ b.stack.size := h.sizeLarge ▸ Nat.le_trans hfit l.stackSize_le
  have hregisters : Pointwise (Value.Alike l.numbers) (a.stack.extract w.base w.finish)
      (b.stack.extract w.base w.finish) := by
    intro i
    rw [Array.getElem?_extract, Array.getElem?_extract, Nat.min_eq_left ha, Nat.min_eq_left hb]
    split
    · have hi : w.base + i < w.finish := by omega
      rw [Machine.slot?_eq_stackAt (Nat.lt_of_lt_of_le hi ha),
        Machine.slot?_eq_stackAt (Nat.lt_of_lt_of_le hi hb)]
      exact .some (h.stack _)
    · exact .none
  exact ⟨rfl, rfl, hregisters.size_eq, hregisters⟩

end Machines

-- ---------------------------------------------------------------------------
-- Queries
-- ---------------------------------------------------------------------------

theorem Answers.refl {α : Type} (x : Except Fault α) : l.Answers Eq x x := by
  cases x with
  | ok a => exact .ok rfl
  | error e => exact .error e

/-- Where the first machine runs out of stack, the second has more or runs out of it too. -/
theorem stackOverflow_answers {α β : Type} {R : α → β → Prop} {answer : Except Fault β}
    (needed : Nat) (h : l.large.stackSize = l.small.stackSize →
      answer = .error (.stackOverflow needed l.small.stackSize)) :
    l.Answers R (.error (.stackOverflow needed l.small.stackSize)) answer := by
  rcases Nat.lt_or_eq_of_le l.stackSize_le with hlt | heq
  · exact .excused hlt
  · rw [h heq.symm]
    exact .error _

theorem frameOverflow_answers {α β : Type} {R : α → β → Prop} {answer : Except Fault β}
    (h : l.large.maxFrames = l.small.maxFrames →
      answer = .error (.frameOverflow l.small.maxFrames)) :
    l.Answers R (.error (.frameOverflow l.small.maxFrames)) answer := by
  rcases Nat.lt_or_eq_of_le l.maxFrames_le with hlt | heq
  · exact .excused hlt
  · rw [h heq.symm]
    exact .error _

/-- Whether two values can be added depends on their kinds. -/
theorem add_answers {x y x' y' : Value} (hx : x.Alike l.numbers x') (hy : y.Alike l.numbers y') :
    l.Answers (Value.Alike l.numbers) (x.add y) (x'.add y') := by
  cases hx with
  | number hx =>
    cases hy with
    | number hy => exact .ok (.number (l.add hx hy))
    | function closure => exact .error _
    | uninitialized => exact .error _
  | function closure => exact .error _
  | uninitialized => exact .error _

namespace Machines

variable {a b : Machine}

theorem resolve (h : l.Machines a b) (w : Window) (reg : UInt8) :
    l.Answers (fun slot slot' => slot' = slot ∧ slot < l.small.stackSize) (a.resolve w reg)
      (b.resolve w reg) := by
  unfold Machine.resolve
  rw [h.sizeSmall, h.sizeLarge]
  cases w.slot reg with
  | error e => exact .error e
  | ok slot =>
    by_cases hslot : slot < l.small.stackSize
    · have hlarge := Nat.lt_of_lt_of_le hslot l.stackSize_le
      simp only [hslot, hlarge, if_true]
      exact .ok ⟨rfl, hslot⟩
    · simp only [hslot, if_false]
      refine stackOverflow_answers _ fun heq => ?_
      rw [heq, if_neg hslot]

theorem register (h : l.Machines a b) (w : Window) (reg : UInt8) :
    l.Answers (Value.Alike l.numbers) (a.register w reg) (b.register w reg) := by
  have hr := h.resolve w reg
  unfold Machine.register
  generalize a.resolve w reg = x at hr ⊢
  generalize b.resolve w reg = y at hr ⊢
  cases hr with
  | ok hs => exact hs.1 ▸ .ok (h.stack _)
  | error e => exact .error e
  | excused he => exact .excused he

theorem codeOf (h : l.Machines a b) (closure : ClosureRef) :
    l.Answers (CodeObject.Alike l.numbers) (a.codeOf closure) (b.codeOf closure) := by
  unfold Machine.codeOf
  rw [h.closures]
  cases a.heap.closures[closure]? with
  | none => exact .error _
  | some c =>
    have hcode := h.codes c.code
    simp only
    generalize a.heap.codes[c.code]? = x at hcode ⊢
    generalize b.heap.codes[c.code]? = y at hcode ⊢
    cases hcode with
    | none => exact .error _
    | some hc => exact .ok hc

theorem windowFor (h : l.Machines a b) (closure : ClosureRef) (base : Nat) :
    l.Answers Eq (a.windowFor closure base) (b.windowFor closure base) := by
  have hc := h.codeOf closure
  unfold Machine.windowFor
  rw [h.depth, h.sizeSmall, h.sizeLarge, h.small, h.large]
  by_cases hframes : l.small.maxFrames ≤ a.depth
  · simp only [hframes, if_true]
    refine frameOverflow_answers fun heq => ?_
    rw [heq, if_pos hframes]
  · have hlarge : ¬ l.large.maxFrames ≤ a.depth := fun hle =>
      hframes (Nat.le_trans l.maxFrames_le hle)
    simp only [hframes, hlarge, if_false]
    generalize a.codeOf closure = x at hc ⊢
    generalize b.codeOf closure = y at hc ⊢
    cases hc with
    | error e => exact .error e
    | excused he => exact .excused he
    | @ok code code' hcode =>
      simp only [hcode.stackSize]
      generalize (⟨base, code.stackSize.toNat⟩ : Window) = v
      by_cases hfit : l.small.stackSize < v.finish
      · simp only [hfit, if_true]
        refine stackOverflow_answers _ fun heq => ?_
        rw [heq, if_pos hfit]
      · have hroom : ¬ l.large.stackSize < v.finish := fun hlt =>
          hfit (Nat.lt_of_le_of_lt l.stackSize_le hlt)
        simp only [hfit, hroom, if_false]
        exact .ok rfl

/-- Which closure a value names, if any, does not depend on numbers. -/
theorem callee (h : l.Machines a b) (w : Window) (function argBase : UInt8) :
    l.Answers Eq (a.callee w function argBase) (b.callee w function argBase) := by
  have hr := h.register w function
  unfold Machine.callee
  generalize a.register w function = x at hr ⊢
  generalize b.register w function = y at hr ⊢
  cases hr with
  | error e => exact .error e
  | excused he => exact .excused he
  | ok hv =>
    cases hv with
    | function closure => exact .refl _
    | number hx => exact .error _
    | uninitialized => exact .error _

theorem cellOf (h : l.Machines a b) (closure : ClosureRef) (index : UInt8) :
    l.Answers (fun c c' => c'.1 = c.1 ∧ c.2.Alike l.numbers c'.2) (a.cellOf closure index)
      (b.cellOf closure index) := by
  unfold Machine.cellOf
  rw [h.closures]
  cases a.heap.closures[closure]? with
  | none => exact .error _
  | some c =>
    cases hs : c.slot? index.toNat with
    | none =>
      simp only [hs]
      exact .error _
    | some r =>
      have hcell := h.cells r
      simp only [hs]
      generalize a.heap.cells[r]? = x at hcell ⊢
      generalize b.heap.cells[r]? = y at hcell ⊢
      cases hcell with
      | none => exact .error _
      | some hc => exact .ok ⟨rfl, hc⟩

theorem upvalue (h : l.Machines a b) (closure : ClosureRef) (index : UInt8) :
    l.Answers (Value.Alike l.numbers) (a.upvalue closure index) (b.upvalue closure index) := by
  have hc := h.cellOf closure index
  unfold Machine.upvalue
  rw [h.sizeSmall, h.sizeLarge]
  generalize a.cellOf closure index = x at hc ⊢
  generalize b.cellOf closure index = y at hc ⊢
  cases hc with
  | error e => exact .error e
  | excused he => exact .excused he
  | @ok found found' hfound =>
    obtain ⟨r, c⟩ := found
    obtain ⟨r', c'⟩ := found'
    obtain ⟨-, hcell⟩ := hfound
    cases hcell with
    | closed hv => exact .ok hv
    | opened slot =>
      by_cases hslot : slot < l.small.stackSize
      · have hlarge := Nat.lt_of_lt_of_le hslot l.stackSize_le
        simp only [hslot, hlarge, if_true]
        exact .ok (h.stack slot)
      · simp only [hslot, if_false]
        refine stackOverflow_answers _ fun heq => ?_
        rw [heq, if_neg hslot]

theorem prototype (h : l.Machines a b) (index : UInt16) :
    l.Answers Eq (a.prototype index) (b.prototype index) := by
  unfold Machine.prototype
  rw [h.prototypes]
  exact .refl _

theorem pendingClosure (h : l.Machines a b) :
    l.Answers Eq a.pendingClosure b.pendingClosure := by
  unfold Machine.pendingClosure
  rw [h.pending]
  exact .refl _

theorem fetch (h : l.Machines a b) : l.Answers (Fetched.Alike l.numbers) a.fetch b.fetch := by
  unfold Machine.fetch
  rw [h.frames]
  cases a.frames.back? with
  | none => exact .error _
  | some frame =>
    have hc := h.codeOf frame.closure
    simp only
    generalize a.codeOf frame.closure = x at hc ⊢
    generalize b.codeOf frame.closure = y at hc ⊢
    cases hc with
    | error e => exact .error e
    | excused he => exact .excused he
    | @ok code code' hcode =>
      have hi := hcode.instructions frame.ip
      simp only [hcode.name, hcode.stackSize]
      generalize code.instructions[frame.ip]? = i at hi ⊢
      generalize code'.instructions[frame.ip]? = i' at hi ⊢
      cases hi with
      | none => exact .error _
      | some hi => exact .ok ⟨rfl, rfl, hi⟩

end Machines

end Leeway

end ClosureMachine

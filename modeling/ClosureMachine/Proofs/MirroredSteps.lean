import ClosureMachine.Proofs.Mirror

/-!
# A mirror keeps up

Machines that mirror each other answer every query alike, and every operation takes both to
machines that still do, with the same outcome: `Mirror.step_outcomes`. There is one exception.
Where the mirrored machine has cleared a value, an instruction may miss it there and find it in
the mirror; then the mirrored machine faults on an uninitialized register.

An operation that makes a closure or a cell hands out handles. They are as far apart as they
should be if the mirror still has handles to hand out: `Mirror.Fits`.
-/

namespace ClosureMachine

namespace Mirror

variable (μ : Mirror)

inductive Answers {α β : Type} (R : α → β → Prop) : Except Fault α → Except Fault β → Prop
  | ok {x : α} {y : β} (h : R x y) : Answers R (.ok x) (.ok y)
  | error (e : Fault) : Answers R (.error e) (.error (μ.fault e))
  | cleared {op : Opcode} {expected : ValueKind} {answer : Except Fault β}
      (h : μ.clears = true) : Answers R (.error (.typeMismatch op expected .uninitialized)) answer

inductive Outcomes {α β : Type} (R : α → β → Prop) : Outcome α → Outcome β → Prop
  | ok {x : α} {y : β} {a b : Machine} (hr : R x y) (h : μ.Machines a b) :
      Outcomes R (.ok x a) (.ok y b)
  | error (e : Fault) {a b : Machine} (h : μ.Machines a b) :
      Outcomes R (.error e a) (.error (μ.fault e) b)
  | cleared {op : Opcode} {expected : ValueKind} {a : Machine} {outcome : Outcome β}
      (h : μ.clears = true) :
      Outcomes R (.error (.typeMismatch op expected .uninitialized) a) outcome

/-- Operation `y` does in the mirror what `x` does in the mirrored machine. -/
def Ops {α β : Type} (R : α → β → Prop) (x : Op α) (y : Op β) : Prop :=
  ∀ a b, μ.Machines a b → μ.Outcomes R (x a) (y b)

/-- The handles in the two machines are `k` apart. -/
abbrev Apart (k : Nat) (r r' : Nat) : Prop := r' = r + k

/-- No handle of the mirror has wrapped around, or nothing there is ahead. -/
structure Fits (b : Machine) : Prop where
  codes : μ.codes = 0 ∨ b.heap.codes.size ≤ handleSpace
  closures : μ.closures = 0 ∨ b.heap.closures.size ≤ handleSpace
  cells : μ.cells = 0 ∨ b.heap.cells.size ≤ handleSpace

variable {μ}

-- ---------------------------------------------------------------------------
-- Composing operations
-- ---------------------------------------------------------------------------

namespace Ops

variable {α β γ δ : Type} {R : α → β → Prop} {S : γ → δ → Prop}

theorem pure {u : α} {v : β} (h : R u v) : μ.Ops R (Pure.pure u : Op α) (Pure.pure v : Op β) :=
  fun _ _ hm => .ok h hm

theorem bind {x : Op α} {y : Op β} {f : α → Op γ} {g : β → Op δ} (hx : μ.Ops R x y)
    (hf : ∀ u v, R u v → μ.Ops S (f u) (g v)) : μ.Ops S (x >>= f) (y >>= g) := by
  intro a b hm
  have hxy := hx a b hm
  rw [Op.bind_apply, Op.bind_apply]
  generalize x a = p at hxy ⊢
  generalize y b = q at hxy ⊢
  cases hxy with
  | ok hr hm => exact hf _ _ hr _ _ hm
  | error e hm => exact .error e hm
  | cleared hc => exact .cleared hc

theorem ask {query : Machine → Except Fault α} {query' : Machine → Except Fault β}
    (h : ∀ {a b}, μ.Machines a b → μ.Answers R (query a) (query' b)) :
    μ.Ops R (Op.ask query) (Op.ask query') := by
  intro a b hm
  have hq := h hm
  unfold Op.ask
  generalize query a = p at hq ⊢
  generalize query' b = q at hq ⊢
  cases hq with
  | ok hr => exact .ok hr hm
  | error e => exact .error e hm
  | cleared hc => exact .cleared hc

end Ops

-- ---------------------------------------------------------------------------
-- Queries
-- ---------------------------------------------------------------------------

theorem slot_answers (w : Window) (reg : UInt8) : μ.Answers Eq (w.slot reg) (w.slot reg) := by
  unfold Window.slot
  split
  · exact .ok rfl
  · exact .error (.registerOutOfBounds reg w.size)

/-- Only of an operand that was cleared can the two sums differ in kind. -/
theorem add_answers {x y x' y' : Value} (hx : μ.Values x x') (hy : μ.Values y y') :
    μ.Answers μ.Values (x.add y) (x'.add y') := by
  rcases hx with rfl | ⟨hc, rfl⟩
  · cases x with
    | number n =>
      rcases hy with rfl | ⟨hc, rfl⟩
      · cases y with
        | number k => exact .ok (.inl rfl)
        | function c => exact .error (.typeMismatch .add .number .function)
        | uninitialized => exact .error (.typeMismatch .add .number .uninitialized)
      · exact .cleared hc
    | function c => exact .error (.typeMismatch .add .number .function)
    | uninitialized => exact .error (.typeMismatch .add .number .uninitialized)
  · exact .cleared hc

namespace Machines

variable {a b : Machine}

theorem resolve (h : μ.Machines a b) (w : Window) (reg : UInt8) :
    μ.Answers Eq (a.resolve w reg) (b.resolve w reg) := by
  have hs := slot_answers (μ := μ) w reg
  unfold Machine.resolve
  rw [h.size_stack]
  generalize w.slot reg = x at hs ⊢
  cases x with
  | error e => exact hs
  | ok slot =>
    simp only
    split
    · exact .ok rfl
    · exact .error (.stackOverflow (slot + 1) a.stack.size)

theorem register (h : μ.Machines a b) (w : Window) (reg : UInt8) :
    μ.Answers μ.Values (a.register w reg) (b.register w reg) := by
  have hr := h.resolve w reg
  unfold Machine.register
  generalize a.resolve w reg = x at hr ⊢
  generalize b.resolve w reg = y at hr ⊢
  cases hr with
  | ok hs => exact hs ▸ .ok (h.stackAt _)
  | error e => exact .error e
  | cleared hc => exact .cleared hc

theorem codeOf (h : μ.Machines a b) (closure : ClosureRef) :
    μ.Answers Eq (a.codeOf closure) (b.codeOf (closure + μ.closures)) := by
  unfold Machine.codeOf
  rw [h.heap.closures]
  cases a.heap.closures[closure]? with
  | none => exact .error (.functionNotFound closure)
  | some c =>
    simp only [Option.map_some, Mirror.closure, h.heap.codes]
    cases a.heap.codes[c.code]? with
    | none => exact .error (.malformed (.codeNotLoaded c.code))
    | some code => exact .ok rfl

theorem windowFor (h : μ.Machines a b) (closure : ClosureRef) (base : Nat) :
    μ.Answers Eq (a.windowFor closure base) (b.windowFor (closure + μ.closures) base) := by
  have hc := h.codeOf closure
  unfold Machine.windowFor
  rw [h.maxFrames, h.depth, h.size_stack]
  split
  · exact .error (.frameOverflow a.config.maxFrames)
  · generalize a.codeOf closure = x at hc ⊢
    generalize b.codeOf (closure + μ.closures) = y at hc ⊢
    cases hc with
    | ok hcode =>
      subst hcode
      simp only
      split
      · exact .error (.stackOverflow _ a.stack.size)
      · exact .ok rfl
    | error e => exact .error e
    | cleared hc => exact .cleared hc

theorem callee (h : μ.Machines a b) (w : Window) (function argBase : UInt8) :
    μ.Answers (fun c c' => c' = (c.1 + μ.closures, c.2)) (a.callee w function argBase)
      (b.callee w function argBase) := by
  have hr := h.register w function
  unfold Machine.callee
  generalize a.register w function = x at hr ⊢
  generalize b.register w function = y at hr ⊢
  cases hr with
  | error e => exact .error e
  | cleared hc => exact .cleared hc
  | @ok v _ hv =>
    rcases hv with rfl | ⟨hc, rfl⟩
    · cases v with
      | function closure =>
        by_cases hreg : argBase.toNat < w.size
        · simp only [Value.shift, Window.slot, hreg, if_true]
          exact .ok rfl
        · simp only [Value.shift, Window.slot, hreg, if_false]
          exact .error (.registerOutOfBounds argBase w.size)
      | number n => exact .error (.typeMismatch .call .function .number)
      | uninitialized => exact .error (.typeMismatch .call .function .uninitialized)
    · exact .cleared hc

theorem cellOf (h : μ.Machines a b) (closure : ClosureRef) (index : UInt8) :
    μ.Answers (fun c c' => Apart μ.cells c.1 c'.1 ∧ μ.Cells c.2 c'.2) (a.cellOf closure index)
      (b.cellOf (closure + μ.closures) index) := by
  unfold Machine.cellOf
  rw [h.heap.closures]
  cases a.heap.closures[closure]? with
  | none => exact .error (.functionNotFound closure)
  | some c =>
    simp only [Option.map_some, slot?_closure]
    cases c.slot? index.toNat with
    | none =>
      simp only [Option.map_none, Mirror.closure, Array.size_map]
      exact .error (.upvalueOutOfBounds index c.slots.size)
    | some r =>
      have hr := h.heap.cells r
      simp only [Option.map_some]
      generalize a.heap.cells[r]? = x at hr ⊢
      generalize b.heap.cells[r + μ.cells]? = y at hr ⊢
      cases hr with
      | none => exact .error (.upvalueNotFound r)
      | some hc => exact .ok ⟨rfl, hc⟩

theorem upvalue (h : μ.Machines a b) (closure : ClosureRef) (index : UInt8) :
    μ.Answers μ.Values (a.upvalue closure index) (b.upvalue (closure + μ.closures) index) := by
  have hc := h.cellOf closure index
  unfold Machine.upvalue
  generalize a.cellOf closure index = x at hc ⊢
  generalize b.cellOf (closure + μ.closures) index = y at hc ⊢
  cases hc with
  | error e => exact .error e
  | cleared hc => exact .cleared hc
  | @ok found found' hfound =>
    obtain ⟨r, c⟩ := found
    obtain ⟨r', c'⟩ := found'
    obtain ⟨-, hcell⟩ := hfound
    cases hcell with
    | closed hv => exact .ok hv
    | opened slot =>
      simp only [h.size_stack]
      split
      · exact .ok (h.stackAt slot)
      · exact .error (.stackOverflow (slot + 1) a.stack.size)

theorem prototype (h : μ.Machines a b) (index : UInt16) :
    μ.Answers (Apart μ.codes) (a.prototype index) (b.prototype index) := by
  unfold Machine.prototype
  rw [h.prototypes, Array.getElem?_map, Array.size_map]
  cases a.prototypes[index.toNat]? with
  | none => exact .error (.malformed (.unknownPrototype index a.prototypes.size))
  | some code => exact .ok rfl

theorem pendingClosure (h : μ.Machines a b) :
    μ.Answers (Apart μ.closures) a.pendingClosure b.pendingClosure := by
  unfold Machine.pendingClosure
  rw [h.pending]
  cases a.pending with
  | none => exact .error (.malformed .orphanBind)
  | some closure => exact .ok rfl

theorem fetch (h : μ.Machines a b) :
    μ.Answers (fun f f' => f' = μ.fetched f) a.fetch b.fetch := by
  unfold Machine.fetch
  rw [h.frames, Array.back?_map]
  cases a.frames.back? with
  | none => exact .error (.malformed .noActiveFrame)
  | some frame =>
    have hc := h.codeOf frame.closure
    simp only [Option.map_some, Mirror.frame]
    generalize a.codeOf frame.closure = x at hc ⊢
    generalize b.codeOf (frame.closure + μ.closures) = y at hc ⊢
    cases hc with
    | error e => exact .error e
    | cleared hc => exact .cleared hc
    | @ok code _ hcode =>
      subst hcode
      cases hi : code.instructions[frame.ip]? with
      | none =>
        simp only [hi]
        exact .error (.malformed (.ranPastEnd code.name))
      | some i =>
        simp only [hi]
        exact .ok rfl

end Machines

-- ---------------------------------------------------------------------------
-- Operations
-- ---------------------------------------------------------------------------

theorem getRegister_ops (w : Window) (reg : UInt8) :
    μ.Ops μ.Values (Machine.getRegister w reg) (Machine.getRegister w reg) :=
  .ask fun h => h.register w reg

theorem setRegister_ops (w : Window) (reg : UInt8) {v v' : Value} (hv : μ.Values v v') :
    μ.Ops Eq (Machine.setRegister w reg v) (Machine.setRegister w reg v') := by
  intro a b h
  have hr := h.resolve w reg
  unfold Machine.setRegister
  generalize a.resolve w reg = x at hr ⊢
  generalize b.resolve w reg = y at hr ⊢
  cases hr with
  | ok hs => exact hs ▸ .ok rfl (h.store hv _)
  | error e => exact .error e h
  | cleared hc => exact .cleared hc

theorem addRegisters_ops (w : Window) (target left right : UInt8) :
    μ.Ops Eq (Machine.addRegisters w target left right)
      (Machine.addRegisters w target left right) :=
  .bind (getRegister_ops w left) fun _ _ hx => .bind (getRegister_ops w right) fun _ _ hy =>
    .bind (.ask fun _ => add_answers hx hy) fun _ _ hv => setRegister_ops w target hv

theorem copyRegister_ops (w : Window) (target source : UInt8) :
    μ.Ops Eq (Machine.copyRegister w target source) (Machine.copyRegister w target source) :=
  .bind (getRegister_ops w source) fun _ _ hv => setRegister_ops w target hv

theorem makeFunction_outcomes {a b : Machine} (h : μ.Machines a b) {w : Window} {target : UInt8}
    {index : UInt16} (hfits : μ.Fits (Outcome.machine (Machine.makeFunction w target index b))) :
    μ.Outcomes Eq (Machine.makeFunction w target index a)
      (Machine.makeFunction w target index b) := by
  have hrest : ∀ closure : ClosureRef, μ.Ops Eq
      (do Machine.setRegister w target (.function closure)
          modify fun m : Machine => { m with pending := some closure })
      (do Machine.setRegister w target (.function (closure + μ.closures))
          modify fun m : Machine => { m with pending := some (closure + μ.closures) }) :=
    fun closure => .bind (setRegister_ops w target (.shift (.function closure))) fun _ _ _ =>
      fun a b h => .ok rfl { h with pending := rfl }
  have hp := h.prototype index
  have hclosures := fun code => @Machine.makeFunction_closures b w target index code
  simp only [Machine.makeFunction, Op.bind_apply, Op.ask] at hclosures hfits ⊢
  generalize a.prototype index = x at hp ⊢
  generalize b.prototype index = y at hp hfits hclosures ⊢
  cases hp with
  | error e => exact .error e h
  | cleared hc => exact .cleared hc
  | @ok code _ hcode =>
    subst hcode
    have hnext : b.heap.nextClosure = a.heap.nextClosure + μ.closures := by
      refine h.nextClosure (hfits.closures.imp id fun hsize => ?_)
      rw [hclosures _ rfl] at hsize
      exact hsize
    simp only [Machine.addClosure_eq, hnext]
    simpa only [Op.bind_apply] using hrest a.heap.nextClosure _ _ (h.withClosure code)

theorem bindSlot_ops (closure : ClosureRef) (index : UInt8) (r : CellRef) :
    μ.Ops Eq (Machine.bindSlot closure index r)
      (Machine.bindSlot (closure + μ.closures) index (r + μ.cells)) := by
  intro a b h
  simp only [Machine.bindSlot, h.heap.sizeClosures, Nat.add_lt_add_iff_right]
  split
  · exact .ok rfl { h with heap := h.heap.bindSlot closure index.toNat r }
  · exact .error (.functionNotFound closure) h

theorem bindUpvalue_outcomes {a b : Machine} (h : μ.Machines a b) {w : Window}
    {index offset : UInt8}
    (hfits : μ.Fits (Outcome.machine (Machine.bindUpvalue w index offset b))) :
    μ.Outcomes Eq (Machine.bindUpvalue w index offset a)
      (Machine.bindUpvalue w index offset b) := by
  have hp := h.pendingClosure
  have hcells := fun closure slot => @Machine.bindUpvalue_cells b w index offset closure slot
  have hsize := hfits.cells
  simp only [Machine.bindUpvalue, Op.bind_apply, Op.ask] at hcells hsize ⊢
  generalize a.pendingClosure = x at hp ⊢
  generalize b.pendingClosure = y at hp hcells hsize ⊢
  cases hp with
  | error e => exact .error e h
  | cleared hc => exact .cleared hc
  | @ok closure _ hclosure =>
    subst hclosure
    by_cases hreg : offset.toNat < w.size
    · have hs : w.slot offset = .ok (w.base + offset.toNat) := by simp [Window.slot, hreg]
      generalize w.base + offset.toNat = slot at hs
      have hnext : a.openCells.find? slot = none →
          b.heap.nextCell = a.heap.nextCell + μ.cells := by
        intro hf
        have hfind : b.openCells.find? slot = none := by rw [h.find? slot, hf]; rfl
        refine h.nextCell (hsize.imp id fun hsize => ?_)
        rw [hcells _ _ rfl hs, Machine.captured, hfind] at hsize
        simp only [Heap.addCell, Array.size_push] at hsize
        exact hsize
      simp only [hs, Machine.capture_eq, h.cellFor hnext]
      exact bindSlot_ops closure index _ _ _ (h.captured hnext)
    · simp only [Window.slot, hreg, if_false]
      exact .error (.registerOutOfBounds offset w.size) h

theorem setUpvalue_ops (closure : ClosureRef) (index : UInt8) {v v' : Value} (hv : μ.Values v v') :
    μ.Ops Eq (Machine.setUpvalue closure index v)
      (Machine.setUpvalue (closure + μ.closures) index v') := by
  intro a b h
  have hc := h.cellOf closure index
  unfold Machine.setUpvalue
  generalize a.cellOf closure index = x at hc ⊢
  generalize b.cellOf (closure + μ.closures) index = y at hc ⊢
  cases hc with
  | error e => exact .error e h
  | cleared hc => exact .cleared hc
  | @ok found found' hfound =>
    obtain ⟨r, c⟩ := found
    obtain ⟨r', c'⟩ := found'
    obtain ⟨hr, hcell⟩ := hfound
    cases hcell with
    | closed _ =>
      obtain rfl : r' = r + μ.cells := hr
      exact .ok rfl { h with heap := h.heap.setCell r (.closed hv) }
    | opened slot =>
      simp only [h.size_stack]
      split
      · exact .ok rfl (h.store hv slot)
      · exact .error (.stackOverflow (slot + 1) a.stack.size) h

theorem closeEntries_ops (entries : List OpenEntry) :
    μ.Ops Eq (Machine.closeEntries entries) (Machine.closeEntries (entries.map μ.entry)) := by
  induction entries with
  | nil => exact fun a b h => .ok rfl h
  | cons e rest ih =>
    intro a b h
    obtain ⟨slot, r⟩ := e
    have hr := h.heap.cells r
    simp only [List.map_cons, Mirror.entry, Machine.closeEntries]
    generalize a.heap.cells[r]? = x at hr ⊢
    generalize b.heap.cells[r + μ.cells]? = y at hr ⊢
    cases hr with
    | none => exact .error (.upvalueNotFound r) h
    | some hc =>
      cases hc with
      | closed _ => exact .error (.doubleClose r) h
      | opened _ =>
        exact ih _ _ { h with heap := h.heap.setCell r (.closed (h.stackAt slot)) }

theorem closeFrom_ops (start : Nat) :
    μ.Ops Eq (Machine.closeFrom start) (Machine.closeFrom start) := by
  intro a b h
  have hbelow : μ.Machines { a with openCells := a.openCells.below start }
      { b with openCells := b.openCells.below start } := by
    refine { h with openCells := ?_ }
    simp only [OpenCells.below, h.openCells, List.dropWhile_map]
    rfl
  have hc := closeEntries_ops (a.openCells.entriesFrom start) _ _ hbelow
  simp only [Machine.closeFrom, h.entriesFrom, List.length_map]
  generalize Machine.closeEntries (a.openCells.entriesFrom start) _ = x at hc ⊢
  generalize Machine.closeEntries ((a.openCells.entriesFrom start).map μ.entry) _ = y at hc ⊢
  cases hc with
  | ok _ h => exact .ok rfl h
  | error e h => exact .error e h
  | cleared hc => exact .cleared hc

theorem pushFrame_ops (closure : ClosureRef) (base : Nat) :
    μ.Ops Eq (Machine.pushFrame closure base)
      (Machine.pushFrame (closure + μ.closures) base) := by
  intro a b h
  have hw := h.windowFor closure base
  unfold Machine.pushFrame
  generalize a.windowFor closure base = x at hw ⊢
  generalize b.windowFor (closure + μ.closures) base = y at hw ⊢
  cases hw with
  | ok hw => exact hw ▸ .ok rfl (h.entered closure base _)
  | error e => exact .error e h
  | cleared hc => exact .cleared hc

theorem call_ops (w : Window) (function argBase : UInt8) :
    μ.Ops Eq (Machine.call w function argBase) (Machine.call w function argBase) := by
  refine .bind (.ask fun h => h.callee w function argBase) fun found found' hfound => ?_
  subst hfound
  exact pushFrame_ops found.1 found.2

theorem popFrame_ops (w : Window) :
    μ.Ops (Option.Rel μ.Reports) (Machine.popFrame w) (Machine.popFrame w) := by
  intro a b h
  rw [Machine.popFrame_eq, Machine.popFrame_eq, h.depth]
  refine .ok ?_ (h.leave w)
  split
  · exact .some (h.snapshot _ w)
  · exact .none

theorem returnFrom_ops (w : Window) (result : UInt8) :
    μ.Ops (Option.Rel μ.Reports) (Machine.returnFrom w result) (Machine.returnFrom w result) := by
  have hand : μ.Ops Eq (Machine.handOver w result) (Machine.handOver w result) :=
    .bind (getRegister_ops w result) fun _ _ hv => .bind (setRegister_ops w 0 hv) fun _ _ _ =>
      closeFrom_ops w.base
  exact .bind hand fun _ _ _ => popFrame_ops w

-- ---------------------------------------------------------------------------
-- Steps
-- ---------------------------------------------------------------------------

theorem Outcomes.then_none {x y : Op Unit} {a b : Machine} (h : μ.Outcomes Eq (x a) (y b)) :
    μ.Outcomes (Option.Rel μ.Reports) ((x >>= fun _ => pure none) a)
      ((y >>= fun _ => pure none) b) := by
  rw [Op.bind_apply, Op.bind_apply]
  generalize x a = o at h ⊢
  generalize y b = o' at h ⊢
  cases h with
  | ok _ hm => exact .ok .none hm
  | error e hm => exact .error e hm
  | cleared hc => exact .cleared hc

theorem execute_outcomes {a b : Machine} (h : μ.Machines a b) {closure : ClosureRef} {w : Window}
    {i : Instruction}
    (hfits : μ.Fits (Outcome.machine (Machine.execute (closure + μ.closures) w i b))) :
    μ.Outcomes (Option.Rel μ.Reports) (Machine.execute closure w i a)
      (Machine.execute (closure + μ.closures) w i b) := by
  have hnone : ∀ u v : Unit, u = v → μ.Ops (Option.Rel μ.Reports) (pure none) (pure none) :=
    fun _ _ _ => .pure .none
  cases i with
  | makeFunction target code =>
    simp only [Machine.execute, Machine.machine_then_none] at hfits
    exact (makeFunction_outcomes h hfits).then_none
  | bind index offset =>
    simp only [Machine.execute, Machine.machine_then_none] at hfits
    exact (bindUpvalue_outcomes h hfits).then_none
  | add target left right => exact (addRegisters_ops w target left right a b h).then_none
  | ret result => exact returnFrom_ops w result a b h
  | getUpvalue target index =>
    have hops : μ.Ops (Option.Rel μ.Reports) (Machine.execute closure w (.getUpvalue target index))
        (Machine.execute (closure + μ.closures) w (.getUpvalue target index)) :=
      .bind (.ask fun h => h.upvalue closure index) fun _ _ hv =>
        .bind (setRegister_ops w target hv) hnone
    exact hops a b h
  | setUpvalue source index =>
    have hops : μ.Ops (Option.Rel μ.Reports) (Machine.execute closure w (.setUpvalue source index))
        (Machine.execute (closure + μ.closures) w (.setUpvalue source index)) :=
      .bind (getRegister_ops w source) fun _ _ hv =>
        .bind (setUpvalue_ops closure index hv) hnone
    exact hops a b h
  | loadConstant target value =>
    exact (setRegister_ops w target (.shift (.number value)) a b h).then_none
  | call function argBase count => exact (call_ops w function argBase a b h).then_none
  | copy target source => exact (copyRegister_ops w target source a b h).then_none
  | halt => exact .ok (.some (h.snapshot .halt w)) h

theorem step_outcomes {a b : Machine} (h : μ.Machines a b)
    (hfits : μ.Fits (Outcome.machine (Machine.step b))) :
    μ.Outcomes (Option.Rel μ.Reports) (Machine.step a) (Machine.step b) := by
  have hf := h.fetch
  unfold Machine.step at hfits ⊢
  generalize a.fetch = x at hf ⊢
  generalize b.fetch = y at hf hfits ⊢
  cases hf with
  | @ok f _ hf =>
    subst hf
    exact execute_outcomes (h.advance f) hfits
  | error e => exact .error e h
  | cleared hc => exact .cleared hc

end Mirror

end ClosureMachine

import ClosureMachine.Proofs.Closing
import ClosureMachine.Proofs.Links

/-!
# Frames that capture a register

The steps that a run is made of, as equations: making a closure, opening a cell with the `bind`
that follows, calling, and returning. A frame that starts by capturing its register 1 leaves all
below it as it was, and gives the cell up again when it returns.
-/

namespace ClosureMachine

namespace OpenCells

variable {o : OpenCells} {slot : Nat}

theorem find?_of_above (h : ∀ e ∈ o.entries, e.1 < slot) : o.find? slot = none := by
  refine Option.eq_none_iff_forall_ne_some.mpr fun cell hcell => ?_
  exact Nat.lt_irrefl _ (h _ ((o.find?_eq_some_iff slot cell).mp hcell))

/-- What is tracked above everything else becomes the last entry. -/
theorem entries_insert_above (h : ∀ e ∈ o.entries, e.1 < slot) (cell : CellRef) :
    (o.insert slot cell).entries = o.entries ++ [(slot, cell)] := by
  have htop : insertEntry slot cell o.topFirst = (slot, cell) :: o.topFirst := by
    cases hfirst : o.topFirst with
    | nil => rfl
    | cons e rest =>
      have hlt : e.1 < slot := h e (List.mem_reverse.mpr (by simp [hfirst]))
      rw [insertEntry, if_neg (Nat.lt_asymm hlt), if_neg (Nat.ne_of_gt hlt)]
  simp [insert, insert?, find?_of_above h, entries, htop]

/-- Entries that fall into those below `start` and the others. -/
theorem split_entries (start : Nat) (lower upper : List OpenEntry)
    (h : o.entries = lower ++ upper) (hlower : ∀ e ∈ lower, e.1 < start)
    (hupper : ∀ e ∈ upper, start ≤ e.1) :
    o.entries.filter (·.1 < start) = lower ∧ o.entriesFrom start = upper := by
  have hno : ∀ e ∈ upper, ¬ e.1 < start := fun e he => Nat.not_lt.mpr (hupper e he)
  have hno' : ∀ e ∈ lower, ¬ start ≤ e.1 := fun e he => Nat.not_le.mpr (hlower e he)
  rw [entriesFrom_eq_filter, h, List.filter_append, List.filter_append]
  constructor
  · rw [List.filter_eq_self.mpr (by simpa using hlower),
      List.filter_eq_nil_iff.mpr (by simpa using hno), List.append_nil]
  · rw [List.filter_eq_nil_iff.mpr (by simpa using hno'),
      List.filter_eq_self.mpr (by simpa using hupper), List.nil_append]

end OpenCells

namespace Machine

variable {m m' m'' : Machine} {callers : Array Frame} {closure callee : ClosureRef}
  {base ip : Nat} {code : CodeObject}

/-- What lies below `base` on the stack and what is on the heap is in `m'` as it is in `m`. -/
structure Keeps (base : Nat) (m m' : Machine) : Prop where
  changes : Changes m m'
  prototypes : m'.prototypes = m.prototypes
  codes : m'.heap.codes = m.heap.codes
  slot : ∀ slot < base, m'.stackAt slot = m.stackAt slot
  cell : ∀ r < m.heap.cells.size, m'.heap.cells[r]? = m.heap.cells[r]?

theorem Keeps.refl (base : Nat) (m : Machine) : Keeps base m m :=
  ⟨.refl, rfl, rfl, fun _ _ => rfl, fun _ _ => rfl⟩

theorem Keeps.trans {base' : Nat} (h : Keeps base m m') (h' : Keeps base' m' m'')
    (hle : base ≤ base') : Keeps base m m'' where
  changes := h.changes.trans h'.changes
  prototypes := h'.prototypes.trans h.prototypes
  codes := h'.codes.trans h.codes
  slot s hs := (h'.slot s (Nat.lt_of_lt_of_le hs hle)).trans (h.slot s hs)
  cell r hr := (h'.cell r (Nat.lt_of_lt_of_le hr h.changes.grows.cells)).trans (h.cell r hr)

-- ---------------------------------------------------------------------------
-- Steps
-- ---------------------------------------------------------------------------

theorem Executes.request_eq {f : Fetched} {report : Option Report} (hf : m.fetch = .ok f)
    (hx : Executes f.frame.closure f.window (m.advance f) f.instruction report m') :
    m.request .step = m' := by
  rw [request, hx.step_eq hf]
  rfl

theorem captured_of_free {slot : Nat} (h : m.openCells.find? slot = none) :
    m.captured slot = { m with
      heap := m.heap.addCell (.opened slot)
      openCells := m.openCells.insert slot m.heap.nextCell } := by
  simp only [captured, h]

theorem cellFor_of_free {slot : Nat} (h : m.openCells.find? slot = none) :
    m.cellFor slot = m.heap.nextCell := by
  simp only [cellFor, h, Option.getD_none]

theorem request_makeFunction {frame : Frame} {w : Window} {target : UInt8} {index : UInt16}
    {proto : CodeRef} {slot : Nat} (hf : m.fetch = .ok ⟨frame, w, .makeFunction target index⟩)
    (hproto : m.prototypes[index.toNat]? = some proto) (hslot : m.resolve w target = .ok slot) :
    m.request .step = { m with
      heap := m.heap.addClosure (.new proto)
      stack := m.stack.setIfInBounds slot (.function m.heap.nextClosure)
      highWater := max m.highWater (slot + 1)
      frames := m.frames.pop.push { frame with ip := frame.ip + 1 }
      pending := some m.heap.nextClosure } :=
  Executes.request_eq hf (.makeFunction hproto hslot)

/-- The next step of `m` is a `bind` to slot `index` of `closure`, which opens `slot`. -/
structure Opens (m : Machine) (frame : Frame) (w : Window) (index offset : UInt8)
    (closure : ClosureRef) (slot : Nat) : Prop where
  fetched : m.fetch = .ok ⟨frame, w, .bind index offset⟩
  pending : m.pending = some closure
  inside : w.slot offset = .ok slot
  present : closure < m.heap.closures.size
  free : m.openCells.find? slot = none

section Opens

variable {frame : Frame} {w : Window} {index offset : UInt8} {slot : Nat}

theorem Opens.step_eq (h : m.Opens frame w index offset closure slot) :
    step m = .ok none (m.request .step) ∧ m.request .step = { m with
      heap := (m.heap.addCell (.opened slot)).bindSlot closure index.toNat m.heap.nextCell
      openCells := m.openCells.insert slot m.heap.nextCell
      frames := m.frames.pop.push { frame with ip := frame.ip + 1 } } := by
  have hfree : (m.advance ⟨frame, w, .bind index offset⟩).openCells.find? slot = none := h.free
  have hs := Executes.step_eq h.fetched (.bind h.pending h.inside h.present)
  have hrequest : m.request .step = _ := congrArg Outcome.machine hs
  refine ⟨hrequest ▸ hs, ?_⟩
  rw [hrequest, Outcome.machine_ok, withBinding, captured_of_free hfree, cellFor_of_free hfree]
  rfl

/-- The closure finds the new cell in the slot. -/
theorem Opens.slot? (h : m.Opens frame w index offset closure slot) :
    ∃ c, (m.request .step).heap.closures[closure]? = some c ∧
      c.slot? index.toNat = some m.heap.nextCell := by
  rw [h.step_eq.2]
  simp only [Heap.bindSlot, Heap.addCell, Array.getElem?_modify, if_pos,
    Array.getElem?_eq_getElem h.present]
  exact ⟨_, rfl, by rw [Closure.slot?_bindSlot, if_pos rfl]⟩

end Opens

theorem request_loadConstant {frame : Frame} {w : Window} {target : UInt8} {value : Number}
    {slot : Nat} (hf : m.fetch = .ok ⟨frame, w, .loadConstant target value⟩)
    (hslot : m.resolve w target = .ok slot) :
    m.request .step = { m with
      stack := m.stack.setIfInBounds slot (.number value)
      highWater := max m.highWater (slot + 1)
      frames := m.frames.pop.push { frame with ip := frame.ip + 1 }
      pending := none } :=
  Executes.request_eq hf (.loadConstant hslot)

section Call

variable {frame : Frame} {w : Window} {function argBase argCount : UInt8}
  (hf : m.fetch = .ok ⟨frame, w, .call function argBase argCount⟩)
  (hcallee : m.register w function = .ok (.function callee)) (hbase : w.slot argBase = .ok base)
  (hdepth : m.depth < m.config.maxFrames) (hcode : m.codeOf callee = .ok code)
  (hfit : base + code.stackSize.toNat ≤ m.stack.size)

include hf hcallee hbase hdepth hcode hfit

theorem request_call :
    m.request .step = { m with
      highWater := max m.highWater (base + code.stackSize.toNat)
      frames := (m.frames.pop.push { frame with ip := frame.ip + 1 }).push ⟨callee, 0, base⟩
      pending := none } :=
  Executes.request_eq hf
    (.call hcallee hbase (Nat.lt_of_le_of_lt (Nat.le_of_eq (advance_depth hf)) hdepth) hcode hfit)

theorem keeps_request_call : Keeps base m (m.request .step) := by
  have hchanges := request_changes m .step
  rw [request_call hf hcallee hbase hdepth hcode hfit] at hchanges ⊢
  exact ⟨hchanges, rfl, rfl, fun _ _ => rfl, fun _ _ => rfl⟩

end Call

-- ---------------------------------------------------------------------------
-- The start of a call
-- ---------------------------------------------------------------------------

/-- A frame at `base` that has made a closure over `proto` in register 0 and bound register 1
to it, from `m` on. -/
structure Captured (callers : Array Frame) (closure : ClosureRef) (base : Nat) (proto : CodeRef)
    (m m' : Machine) : Prop extends Keeps base m m' where
  frames : m'.frames = callers.push ⟨closure, 2, base⟩
  function : m'.stackAt base = .function m.heap.nextClosure
  register : m'.stackAt (base + 1) = m.stackAt (base + 1)
  made : m'.heap.closures.size = m.heap.closures.size + 1
  tracked : m'.openCells = m.openCells.insert (base + 1) m.heap.nextCell
  opened : m'.heap.cells = m.heap.cells.push (.opened (base + 1))
  bound : ∃ c, m'.heap.closures[m.heap.nextClosure]? = some c ∧ c.slot? 0 = some m.heap.nextCell
  code : m.heap.closures.size < handleSpace →
    ∃ c, m'.heap.closures[m.heap.nextClosure]? = some c ∧ c.code = proto

theorem Captured.of_keeps {proto : CodeRef} (h : Captured callers closure base proto m' m'')
    (hk : Keeps base m m') (hheap : m'.heap = m.heap) (hopen : m'.openCells = m.openCells)
    (hstack : m'.stack = m.stack) : Captured callers closure base proto m m'' where
  toKeeps := hk.trans h.toKeeps Nat.le.refl
  frames := h.frames
  function := hheap ▸ h.function
  register := by rw [h.register, stackAt, hstack, ← stackAt]
  made := hheap ▸ h.made
  tracked := hopen ▸ hheap ▸ h.tracked
  opened := hheap ▸ h.opened
  bound := hheap ▸ h.bound
  code := hheap ▸ h.code

section Captured

variable {index : UInt16} {proto : CodeRef}
  (hframes : m.frames = callers.push ⟨closure, 0, base⟩) (hcode : m.codeOf closure = .ok code)
  (hmake : code.instructions[0]? = some (.makeFunction 0 index))
  (hbind : code.instructions[1]? = some (.bind 0 1)) (hsize : 2 ≤ code.stackSize.toNat)
  (hfit : base + code.stackSize.toNat ≤ m.stack.size)
  (hproto : m.prototypes[index.toNat]? = some proto)
  (hbelow : ∀ entry ∈ m.openCells.entries, entry.1 < base)

include hframes hcode hmake hsize hfit hproto

theorem request_made :
    m.request .step = { m with
      heap := m.heap.addClosure (.new proto)
      stack := m.stack.setIfInBounds base (.function m.heap.nextClosure)
      highWater := max m.highWater (base + 1)
      frames := callers.push ⟨closure, 1, base⟩
      pending := some m.heap.nextClosure } := by
  have hslot : m.resolve ⟨base, code.stackSize.toNat⟩ 0 = .ok base :=
    resolve_ok.mpr ⟨by simp; omega, rfl, by omega⟩
  rw [request_makeFunction (fetch_eq hframes hcode hmake) hproto hslot, hframes, Array.pop_push]

include hbind hbelow

theorem made_opens :
    (m.request .step).Opens ⟨closure, 1, base⟩ ⟨base, code.stackSize.toNat⟩ 0 1
      m.heap.nextClosure (base + 1) := by
  have hmade := request_made hframes hcode hmake hsize hfit hproto
  refine
    { fetched := fetch_eq (by rw [hmade]) ((step_changes m).codeOf_ok hcode) hbind
      pending := by rw [hmade]
      inside := Window.slot_ok.mpr ⟨by simp; omega, rfl⟩
      present := ?present
      free := ?free }
  case present =>
    rw [hmade]
    exact Nat.lt_of_le_of_lt (handleAt_le _) (by simp [Heap.addClosure])
  case free =>
    rw [hmade]
    exact OpenCells.find?_of_above fun e he => Nat.lt_succ_of_lt (hbelow e he)

theorem captured_stepped : Captured callers closure base proto m (m.stepped 2) := by
  have hmade := request_made hframes hcode hmake hsize hfit hproto
  have hopens := made_opens hframes hcode hmake hbind hsize hfit hproto hbelow
  have hbound := hopens.step_eq.2
  have hslot? := hopens.slot?
  have hchanges : Changes m ((m.request .step).request .step) :=
    (request_changes m .step).trans (request_changes _ .step)
  show Captured _ _ _ _ m ((m.request .step).request .step)
  rw [hbound] at hchanges hslot? ⊢
  rw [hmade] at hchanges hslot? ⊢
  have hlt : base < m.stack.size := by omega
  refine
    { changes := hchanges, prototypes := rfl, codes := rfl, slot := fun s hs => ?slot
      cell := fun r hr => ?cell, frames := by simp, function := by simp [stackAt_eq, hlt]
      register := by simp [stackAt_eq], made := ?made, tracked := rfl, opened := rfl
      bound := hslot?, code := fun hroom => ?code }
  case slot => simp [stackAt_eq, Nat.ne_of_gt hs]
  case cell =>
    show (m.heap.cells.push _)[r]? = _
    rw [Array.getElem?_push, if_neg (Nat.ne_of_lt hr)]
  case made => simp [Heap.bindSlot, Heap.addCell, Heap.addClosure]
  case code =>
    have hlast : m.heap.nextClosure = m.heap.closures.size := handleAt_of_lt hroom
    simp only [Heap.bindSlot, Heap.addCell, Heap.addClosure, Array.getElem?_modify, if_pos, hlast]
    rw [Array.getElem?_push_size]
    exact ⟨_, rfl, rfl⟩

end Captured

/-- A call with the frame's base as register 2, up to the first capture of the callee. -/
theorem captured_call {caller : CodeObject} {index : UInt16} {proto : CodeRef}
    (hframes : m.frames = callers.push ⟨closure, ip, base⟩)
    (hcaller : m.codeOf closure = .ok caller)
    (hnext : caller.instructions[ip]? = some (.call 0 2 0)) (hsize : 3 ≤ caller.stackSize.toNat)
    (hfunction : m.stackAt base = .function callee) (hcode : m.codeOf callee = .ok code)
    (hmake : code.instructions[0]? = some (.makeFunction 0 index))
    (hbind : code.instructions[1]? = some (.bind 0 1)) (hwide : 2 ≤ code.stackSize.toNat)
    (hdepth : m.depth < m.config.maxFrames)
    (hfit : base + 2 + code.stackSize.toNat ≤ m.stack.size)
    (hproto : m.prototypes[index.toNat]? = some proto)
    (hbelow : ∀ entry ∈ m.openCells.entries, entry.1 < base + 2) :
    Captured (callers.push ⟨closure, ip + 1, base⟩) callee (base + 2) proto m (m.stepped 3) := by
  have hf := fetch_eq hframes hcaller hnext
  have hregister : m.register ⟨base, caller.stackSize.toNat⟩ 0 = .ok (.function callee) :=
    register_ok.mpr ⟨base, resolve_ok.mpr ⟨by simp; omega, rfl, by omega⟩, hfunction⟩
  have hbase : (⟨base, caller.stackSize.toNat⟩ : Window).slot 2 = .ok (base + 2) :=
    Window.slot_ok.mpr ⟨by simp; omega, rfl⟩
  have hkeeps := keeps_request_call hf hregister hbase hdepth hcode hfit
  have hcalled := request_call hf hregister hbase hdepth hcode hfit
  have hcode₁ := hkeeps.changes.codeOf_ok hcode
  have hframes₁ : (m.request .step).frames =
      (callers.push ⟨closure, ip + 1, base⟩).push ⟨callee, 0, base + 2⟩ := by
    rw [hcalled, hframes, Array.pop_push]
  have hcaptured := captured_stepped hframes₁ hcode₁ hmake hbind hwide
    (by rw [hcalled]; exact hfit) (by rw [hcalled]; exact hproto) (by rw [hcalled]; exact hbelow)
  exact hcaptured.of_keeps hkeeps (by rw [hcalled]) (by rw [hcalled]) (by rw [hcalled])

-- ---------------------------------------------------------------------------
-- Returns
-- ---------------------------------------------------------------------------

/-- The return from `m` to `m'` of the frame with window `w`, which hands over `value`. -/
structure Released (w : Window) (value : Value) (m m' : Machine) : Prop where
  changes : Changes m m'
  frames : m'.frames = m.frames.pop
  prototypes : m'.prototypes = m.prototypes
  codes : m'.heap.codes = m.heap.codes
  closures : m'.heap.closures = m.heap.closures
  size : m'.heap.cells.size = m.heap.cells.size
  tracked : m'.openCells.entries = m.openCells.entries.filter (·.1 < w.base)
  closed : ∀ entry ∈ m.openCells.entriesFrom w.base,
    m'.heap.cells[entry.2]? = some (.closed ((m.store w.base value).stackAt entry.1))
  kept : ∀ r, r ∉ (m.openCells.entriesFrom w.base).map (·.2) →
    m'.heap.cells[r]? = m.heap.cells[r]?
  slot : ∀ slot < w.base, m'.stackAt slot = m.stackAt slot

theorem step_ret {frame : Frame} {w : Window} {result : UInt8} {value : Value}
    (hf : m.fetch = .ok ⟨frame, w, .ret result⟩) (hvalue : m.register w result = .ok value)
    (hopen : m.Closable (m.openCells.entriesFrom w.base)) :
    ∃ report, step m = .ok report (m.request .step) ∧ Released w value m (m.request .step) ∧
      (m.depth = 1 → ∃ stop, report = some stop ∧ stop.reason = .entryReturn) := by
  have hadvanced : (m.advance ⟨frame, w, .ret result⟩).register w result = .ok value := hvalue
  obtain ⟨slot, hslot, -⟩ := register_ok.mp hadvanced
  have hbase := (resolve_ok.mp (resolve_zero hslot)).2.2
  have hclosable : ((m.advance ⟨frame, w, .ret result⟩).store w.base value).Closable
      (m.openCells.entriesFrom w.base) := ⟨hopen.distinct, hopen.opened⟩
  obtain ⟨m₁, hclose, hclosed⟩ := hclosable.closeFrom_ok
  have hx : Executes frame.closure w (m.advance ⟨frame, w, .ret result⟩) (.ret result) _
      (m₁.leave w) := .ret hadvanced hbase hclose
  have hs := hx.step_eq hf
  have hrequest : m.request .step = m₁.leave w := by
    rw [request, hs]
    rfl
  have hsize := size_cells_closeFrom w.base ((m.advance ⟨frame, w, .ret result⟩).store w.base value)
  rw [hclose] at hsize
  have hframes : m₁.frames = m.frames.pop.push { frame with ip := frame.ip + 1 } := by
    rw [hclosed.rest]
    rfl
  have hstack : m₁.stack = (m.store w.base value).stack := by
    rw [hclosed.rest]
    rfl
  have hchanges := request_changes m .step
  refine ⟨_, hrequest ▸ hs, ?_, fun hdepth => ⟨_, if_pos ((advance_depth hf).trans hdepth), rfl⟩⟩
  rw [hrequest] at hchanges ⊢
  refine
    { changes := hchanges, frames := ?frames, prototypes := ?prototypes, codes := ?codes
      closures := ?closures, size := ?size, tracked := ?tracked, closed := ?closed, kept := ?kept
      slot := fun s hs => ?slot }
  case frames => rw [leave_frames, hframes, Array.pop_push]
  case prototypes =>
    rw [leave_prototypes, hclosed.rest]
    rfl
  case codes =>
    rw [leave_heap, hclosed.rest]
    rfl
  case closures =>
    rw [leave_heap, hclosed.rest]
    rfl
  case size =>
    rw [leave_heap]
    exact hsize
  case tracked =>
    rw [leave_openCells]
    exact hclosed.tracked
  case closed =>
    rw [leave_heap]
    exact hclosed.closed
  case kept =>
    rw [leave_heap]
    exact hclosed.kept
  case slot =>
    have hne : ¬ (w.base = s ∧ w.base < m.stack.size) := by omega
    have hup : ¬ (m₁.config.scrubOnReturn ∧ w.base < s ∧ s < m₁.highWater) := by omega
    rw [stackAt_leave, if_neg hup, stackAt_eq, hstack, ← stackAt_eq, stackAt_store, if_neg hne]

theorem step_ret_error {frame : Frame} {w : Window} {result : UInt8} {value : Value} {e : Fault}
    {before after : List OpenEntry} {entry : OpenEntry}
    (hf : m.fetch = .ok ⟨frame, w, .ret result⟩) (hvalue : m.register w result = .ok value)
    (hbefore : m.Closable before) (hblocks : m.Blocks before entry e)
    (hsplit : m.openCells.entriesFrom w.base = before ++ entry :: after) :
    ∃ m', step m = .error e m' ∧
      ((m.advance ⟨frame, w, .ret result⟩).store w.base value).ClosedBy w.base before m' := by
  have hadvanced : (m.advance ⟨frame, w, .ret result⟩).register w result = .ok value := hvalue
  obtain ⟨slot, hslot, -⟩ := register_ok.mp hadvanced
  have hblocks' :
      ((m.advance ⟨frame, w, .ret result⟩).store w.base value).Blocks before entry e := by
    cases hblocks with
    | missing h => exact .missing h
    | closed h => exact .closed h
    | repeated h => exact .repeated h
  obtain ⟨m', hclose, hclosed⟩ := hblocks'.closeFrom_error ⟨hbefore.distinct, hbefore.opened⟩ hsplit
  refine ⟨m', ?_, hclosed⟩
  have hzero : setRegister w 0 value (m.advance ⟨frame, w, .ret result⟩) =
      .ok () ((m.advance ⟨frame, w, .ret result⟩).store w.base value) :=
    setRegister_ok.mpr ⟨w.base, resolve_zero hslot, rfl⟩
  have hgiven : handOver w result (m.advance ⟨frame, w, .ret result⟩) = .error e m' :=
    Op.bind_error.mpr (.inr ⟨_, _, getRegister_ok.mpr ⟨hadvanced, rfl⟩,
      Op.bind_error.mpr (.inr ⟨_, _, hzero, hclose⟩)⟩)
  rw [step, hf]
  exact Op.bind_error.mpr (.inl hgiven)

end Machine

end ClosureMachine

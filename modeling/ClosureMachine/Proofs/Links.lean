import ClosureMachine.Proofs.HighWater
import ClosureMachine.Proofs.StackDiscipline

/-!
# Nothing dangles

The heap hands out handles and never takes one back. `Machine.Linked` says that every handle
kept anywhere was handed out: the code and the cells of closures, the functions in registers
and closed cells, the prototypes, the tracked cells and the pending closure. It holds on every
machine that requests lead to, whatever code they load and however many items there are: a
handle that has wrapped around still names an item.
-/

namespace ClosureMachine

/-- A handle of one of `count` items. -/
structure IsHandle (count r : Nat) : Prop where
  exists_item : r < count
  fits : r < handleSpace

theorem IsHandle.mono {n n' r : Nat} (h : IsHandle n r) (hle : n ≤ n') : IsHandle n' r :=
  ⟨Nat.lt_of_lt_of_le h.exists_item hle, h.fits⟩

theorem isHandle_handleAt {count position : Nat} (h : position < count) :
    IsHandle count (handleAt position) :=
  ⟨Nat.lt_of_le_of_lt (handleAt_le position) h, handleAt_lt position⟩

/-- A function value names a closure of the heap. -/
def Heap.Holds (h : Heap) : Value → Prop
  | .function closure => IsHandle h.closures.size closure
  | _ => True

/-- The code and the cells of a closure are on the heap. -/
structure Closure.Linked (h : Heap) (c : Closure) : Prop where
  code : IsHandle h.codes.size c.code
  cells : ∀ index r, c.slot? index = some r → IsHandle h.cells.size r

theorem Heap.Holds.mono {h h' : Heap} {value : Value} (hv : h.Holds value)
    (hsize : h.closures.size ≤ h'.closures.size) : h'.Holds value := by
  cases value with
  | function closure => exact IsHandle.mono hv hsize
  | _ => trivial

namespace Closure

variable {h h' : Heap} {c : Closure}

theorem Linked.mono (hc : c.Linked h) (hcodes : h.codes.size ≤ h'.codes.size)
    (hcells : h.cells.size ≤ h'.cells.size) : c.Linked h' :=
  ⟨hc.code.mono hcodes, fun index r hr => (hc.cells index r hr).mono hcells⟩

theorem linked_new {code : CodeRef} (hcode : IsHandle h.codes.size code) :
    (Closure.new code).Linked h :=
  ⟨hcode, fun index r hr => by simp [slot?, new] at hr⟩

theorem slot?_bindSlot (c : Closure) (index j : Nat) (cell : CellRef) :
    (c.bindSlot index cell).slot? j = if j = index then some cell else c.slot? j := by
  unfold bindSlot slot?
  by_cases hj : j = index
  · subst hj
    have hlt : j < (c.slots ++ Array.replicate (j + 1 - c.slots.size) none).size := by
      simp
      omega
    rw [if_pos rfl, Array.getElem?_setIfInBounds_self_of_lt hlt]
    rfl
  · rw [if_neg hj]
    simp only [Array.getElem?_setIfInBounds_ne (Ne.symm hj), Array.getElem?_append]
    split
    · rfl
    · next hsize =>
      have hnone : c.slots[j]? = none := Array.getElem?_eq_none (Nat.le_of_not_lt hsize)
      rw [hnone, Array.getElem?_replicate]
      split <;> rfl

theorem Linked.bindSlot (hc : c.Linked h) (index : Nat) {cell : CellRef}
    (hcell : IsHandle h.cells.size cell) : (c.bindSlot index cell).Linked h := by
  refine ⟨hc.code, fun j r hr => ?_⟩
  rw [slot?_bindSlot] at hr
  split at hr
  · obtain rfl := Option.some.inj hr
    exact hcell
  · exact hc.cells j r hr

end Closure

namespace Machine

structure Linked (m : Machine) : Prop where
  closures : ∀ {closure : ClosureRef} {c : Closure},
    m.heap.closures[closure]? = some c → c.Linked m.heap
  cells : ∀ {r : CellRef} {value : Value},
    m.heap.cells[r]? = some (.closed value) → m.heap.Holds value
  stack : ∀ {slot : Nat} {value : Value}, m.stack[slot]? = some value → m.heap.Holds value
  prototypes : ∀ {index : Nat} {code : CodeRef},
    m.prototypes[index]? = some code → IsHandle m.heap.codes.size code
  entries : ∀ {entry : OpenEntry},
    entry ∈ m.openCells.entries → IsHandle m.heap.cells.size entry.2
  pending : ∀ {closure : ClosureRef},
    m.pending = some closure → IsHandle m.heap.closures.size closure

variable {m m' : Machine} {w : Window} {closure : ClosureRef} {i : Instruction} {e : Fault}
  {report : Option Report} {value : Value}

-- ---------------------------------------------------------------------------
-- Reading
-- ---------------------------------------------------------------------------

theorem Linked.stackAt (h : m.Linked) (slot : Nat) : m.heap.Holds (m.stackAt slot) := by
  rw [stackAt_eq]
  cases hs : m.stack[slot]? with
  | none => trivial
  | some value => exact h.stack hs

theorem Linked.register (h : m.Linked) {reg : UInt8} (hr : m.register w reg = .ok value) :
    m.heap.Holds value := by
  obtain ⟨slot, -, rfl⟩ := register_ok.mp hr
  exact h.stackAt slot

theorem Linked.upvalue (h : m.Linked) {index : UInt8} (hu : m.upvalue closure index = .ok value) :
    m.heap.Holds value := by
  obtain ⟨r, cell, hcell, hseen⟩ := upvalue_ok.mp hu
  obtain ⟨c, -, -, hr⟩ := cellOf_ok.mp hcell
  cases cell with
  | closed v =>
    rw [seenThrough?_closed hr] at hseen
    obtain rfl := Option.some.inj hseen
    exact h.cells hr
  | opened slot =>
    rw [seenThrough?_opened hr] at hseen
    exact h.stack hseen

/-- The code of a closure on the heap can be found. -/
theorem Linked.codeOf (h : m.Linked) (hc : closure < m.heap.closures.size) :
    ∃ code, m.codeOf closure = .ok code := by
  have hcode := (h.closures (Array.getElem?_eq_getElem hc)).code.exists_item
  exact ⟨_, codeOf_ok.mpr ⟨_, Array.getElem?_eq_getElem hc, Array.getElem?_eq_getElem hcode⟩⟩

/-- A read through a cell fails only where nothing is bound. -/
theorem Linked.upvalue_error (h : m.Linked) (hfit : m.Fitted) {index : UInt8}
    (hc : closure < m.heap.closures.size) (he : m.upvalue closure index = .error e) :
    ∃ count, e = .upvalueOutOfBounds index count := by
  rcases Machine.upvalue_error.mp he with hcell | ⟨r, slot, hcell, hslot, -⟩
  · have hclosure := Array.getElem?_eq_getElem hc
    simp only [cellOf, hclosure] at hcell
    split at hcell
    · exact ⟨_, (Except.error.inj hcell).symm⟩
    · next r hr =>
      have hlt := ((h.closures hclosure).cells _ r hr).exists_item
      simp [hlt] at hcell
  · obtain ⟨c, -, -, hopen⟩ := cellOf_ok.mp hcell
    exact absurd (hfit.slots hopen) (Nat.not_lt.mpr hslot)

/-- Tracked cells are there, so all that closing can trip over is a cell closed already. -/
theorem closeEntries_error_of_lt {entries : List OpenEntry}
    (hentries : ∀ entry ∈ entries, entry.2 < m.heap.cells.size)
    (h : closeEntries entries m = .error e m') : ∃ r, e = .doubleClose r := by
  induction entries generalizing m with
  | nil => simp [closeEntries] at h
  | cons entry rest ih =>
    rw [closeEntries] at h
    split at h
    · next hnone => simp [hentries entry List.mem_cons_self] at hnone
    · exact ⟨_, (EStateM.Result.error.inj h).1.symm⟩
    · refine ih (fun entry he => ?_) h
      simpa [Heap.setCell] using hentries entry (List.mem_cons_of_mem _ he)

theorem Linked.closing_error (h : m.Linked) {start : Nat} (hc : closeFrom start m = .error e m') :
    ∃ r, e = .doubleClose r := by
  rw [closeFrom] at hc
  split at hc
  · simp at hc
  · next he =>
    obtain ⟨rfl, -⟩ := EStateM.Result.error.inj hc
    have hthere : ∀ entry ∈ m.openCells.entriesFrom start, entry.2 < m.heap.cells.size :=
      fun entry hmem => (h.entries (OpenCells.mem_entriesFrom.mp hmem).1).exists_item
    exact closeEntries_error_of_lt (m := { m with openCells := m.openCells.below start }) hthere he

-- ---------------------------------------------------------------------------
-- Updates
-- ---------------------------------------------------------------------------

theorem Linked.control (h : m.Linked) (frames : Array Frame) {pending : Option ClosureRef}
    (hpending : ∀ closure, pending = some closure → IsHandle m.heap.closures.size closure) :
    { m with frames, pending }.Linked :=
  ⟨h.closures, h.cells, h.stack, h.prototypes, h.entries, hpending _⟩

theorem Linked.advance (h : m.Linked) (f : Fetched) : (m.advance f).Linked := by
  refine h.control _ fun closure hc => ?_
  split at hc
  · exact h.pending hc
  · simp at hc

theorem Linked.withStack (h : m.Linked) (hheap : m'.heap = m.heap)
    (hprototypes : m'.prototypes = m.prototypes) (hopenCells : m'.openCells = m.openCells)
    (hpending : m'.pending = m.pending)
    (hstack : ∀ {slot : Nat} {value : Value}, m'.stack[slot]? = some value → m.heap.Holds value) :
    m'.Linked := by
  refine ⟨?_, ?_, ?_, ?_, ?_, ?_⟩
  · rw [hheap]
    exact h.closures
  · rw [hheap]
    exact h.cells
  · rw [hheap]
    exact hstack
  · rw [hheap, hprototypes]
    exact h.prototypes
  · rw [hheap, hopenCells]
    exact h.entries
  · rw [hheap, hpending]
    exact h.pending

theorem Linked.store (h : m.Linked) (slot : Nat) (hv : m.heap.Holds value) :
    (m.store slot value).Linked := by
  refine h.withStack rfl rfl rfl rfl fun {i v} hi => ?_
  rw [store_slot?] at hi
  split at hi
  · obtain rfl := Option.some.inj hi
    exact hv
  · exact h.stack hi

theorem Linked.entered (h : m.Linked) (closure : ClosureRef) (base finish : Nat) :
    (m.entered closure base finish).Linked :=
  h.withStack rfl rfl rfl rfl h.stack

theorem Linked.withClosure (h : m.Linked) {code : CodeRef}
    (hcode : IsHandle m.heap.codes.size code) :
    (m.withClosure code).Linked := by
  have hsize : m.heap.closures.size ≤ (m.withClosure code).heap.closures.size := by
    simp [Machine.withClosure, Heap.addClosure]
  refine ⟨fun {closure c} hc => ?_, fun hr => (h.cells hr).mono hsize,
    fun hs => (h.stack hs).mono hsize, h.prototypes, h.entries,
    fun hp => (h.pending hp).mono hsize⟩
  have hc : (m.heap.closures.push (.new code))[closure]? = some c := hc
  rw [Array.getElem?_push] at hc
  split at hc
  · obtain rfl := Option.some.inj hc
    exact Closure.linked_new hcode
  · exact (h.closures hc).mono Nat.le.refl Nat.le.refl

theorem size_cells_captured (slot : Nat) :
    m.heap.cells.size ≤ (m.captured slot).heap.cells.size := by
  unfold captured
  split
  · exact Nat.le.refl
  · simp [Heap.addCell]

/-- The cell that a capture gives is on the heap. -/
theorem Linked.cellFor (h : m.Linked) (slot : Nat) :
    IsHandle (m.captured slot).heap.cells.size (m.cellFor slot) := by
  unfold Machine.cellFor captured
  cases hf : m.openCells.find? slot with
  | some r => exact h.entries ((m.openCells.find?_eq_some_iff slot r).mp hf)
  | none => exact isHandle_handleAt (by simp [Heap.addCell])

theorem Linked.captured (h : m.Linked) (slot : Nat) : (m.captured slot).Linked := by
  have hsize := size_cells_captured (m := m) slot
  refine ⟨fun hc => ?_, fun {r v} hr => ?_, fun hs => ?_, fun hp => ?_, fun {entry} he => ?_,
    fun hp => ?_⟩
  · rw [captured_closures] at hc
    exact (h.closures hc).mono (by simp) hsize
  · unfold Machine.captured at hr
    split at hr
    · exact (h.cells hr).mono (by simp)
    · simp only [Heap.addCell, Array.getElem?_push] at hr
      split at hr
      · simp at hr
      · exact (h.cells hr).mono (by simp)
  · rw [captured_stack] at hs
    exact (h.stack hs).mono (by simp)
  · simpa using h.prototypes (by simpa using hp)
  · rcases mem_entries_captured.mp he with rfl | he
    · exact h.cellFor slot
    · exact (h.entries he).mono hsize
  · simpa using h.pending (by simpa using hp)

theorem Linked.withBinding (h : m.Linked) (closure : ClosureRef) (index : UInt8) {cell : CellRef}
    (hcell : IsHandle m.heap.cells.size cell) : (m.withBinding closure index cell).Linked := by
  have hsize : (m.withBinding closure index cell).heap.closures.size = m.heap.closures.size :=
    Array.size_modify
  refine ⟨fun {r c} hc => ?_, fun hr => (h.cells hr).mono (Nat.le_of_eq hsize.symm),
    fun hs => (h.stack hs).mono (Nat.le_of_eq hsize.symm), h.prototypes, h.entries,
    fun hp => hsize ▸ h.pending hp⟩
  have hc : (m.heap.closures.modify closure (·.bindSlot index.toNat cell))[r]? = some c := hc
  rw [Array.getElem?_modify] at hc
  split at hc
  · obtain ⟨c₀, hc₀, rfl⟩ := Option.map_eq_some_iff.mp hc
    exact ((h.closures hc₀).bindSlot _ hcell).mono Nat.le.refl Nat.le.refl
  · exact (h.closures hc).mono Nat.le.refl Nat.le.refl

theorem Linked.withCells (h : m.Linked) {cells : Array Cell} {openCells : OpenCells}
    (hentries : ∀ entry ∈ openCells.entries, entry ∈ m.openCells.entries)
    (hsize : cells.size = m.heap.cells.size)
    (hcells : ∀ {r : CellRef} {value : Value},
      cells[r]? = some (.closed value) → m.heap.Holds value) :
    { m with heap := { m.heap with cells }, openCells }.Linked :=
  ⟨fun hc => (h.closures hc).mono Nat.le.refl (Nat.le_of_eq hsize.symm),
    fun hr => (hcells hr).mono Nat.le.refl, fun hs => (h.stack hs).mono Nat.le.refl, h.prototypes,
    fun he => hsize ▸ h.entries (hentries _ he), h.pending⟩

theorem Linked.rewritten (h : m.Linked) (r : CellRef) (hv : m.heap.Holds value) :
    (m.rewritten r value).Linked := by
  refine h.withCells (fun _ he => he) Array.size_setIfInBounds fun {r' v} hr => ?_
  by_cases he : r = r'
  · subst he
    rw [Array.getElem?_setIfInBounds_self] at hr
    split at hr
    · obtain rfl : value = v := by simpa using hr
      exact hv
    · simp at hr
  · rw [Array.getElem?_setIfInBounds_ne he] at hr
    exact h.cells hr

/-- Whether or not it succeeds, closing moves values from the stack into cells. -/
theorem Linked.closed (h : m.Linked) (start : Nat) :
    (Outcome.machine (closeFrom start m)).Linked := by
  have hcell := closeFrom_cell? start m
  have hsize := size_cells_closeFrom start m
  obtain ⟨cells, hm⟩ := closeFrom_machine start m
  rw [hm] at hcell hsize ⊢
  refine h.withCells (fun _ he => (OpenCells.mem_entries_below.mp he).1) hsize fun {r v} hr => ?_
  rcases hcell r with heq | ⟨-, slot, hclosed⟩
  · exact h.cells (heq ▸ hr)
  · obtain rfl := Cell.closed.inj (Option.some.inj (hr.symm.trans hclosed))
    exact h.stackAt slot

theorem Linked.leave (h : m.Linked) (w : Window) : (m.leave w).Linked := by
  refine h.withStack (leave_heap ..) (leave_prototypes ..) (leave_openCells ..) (leave_pending ..)
    fun {slot v} hv => ?_
  rw [leave_slot?] at hv
  split at hv
  · obtain ⟨_, -, rfl⟩ := Option.map_eq_some_iff.mp hv
    trivial
  · exact h.stack hv

theorem Linked.clear (h : m.Linked) : m.clear.Linked := by
  refine ⟨h.closures, h.cells, fun {slot v} hv => ?_, h.prototypes, h.entries, fun hp => ?_⟩
  · obtain rfl := eq_uninitialized_of_replicate hv
    trivial
  · simp [Machine.clear] at hp

theorem Linked.install (h : m.Linked) (p : Program) : (m.install p).Linked := by
  have hcodes : (m.install p).heap.codes.size = m.heap.codes.size + p.codes.size :=
    Array.size_append
  refine ⟨fun hc => (h.closures hc).mono (by omega) Nat.le.refl, h.cells, h.stack,
    fun {index code} hp => ?_, h.entries, h.pending⟩
  simp only [Machine.install, Array.getElem?_map, Option.map_eq_some_iff] at hp
  obtain ⟨k, hk, rfl⟩ := hp
  have hlt : k < p.codes.size := by simpa using Array.mem_of_getElem? hk
  exact isHandle_handleAt (by omega)

theorem Linked.staged (h : m.Linked) {p : Program} (hentry : p.entry.toNat < p.codes.size) :
    (m.staged p).Linked := by
  refine (h.clear.install p).withClosure (isHandle_handleAt ?_)
  show _ < (m.heap.codes ++ p.codes).size
  rw [Array.size_append]
  omega

-- ---------------------------------------------------------------------------
-- Requests
-- ---------------------------------------------------------------------------

theorem Executes.linked (hx : Executes closure w m i report m') (h : m.Linked) : m'.Linked := by
  cases hx with
  | @makeFunction _ _ code slot hcode hslot =>
    have hmade := h.withClosure (h.prototypes hcode)
    have hnew : (m.withClosure code).heap.Holds (.function m.heap.nextClosure) :=
      isHandle_handleAt (by simp [withClosure, Heap.addClosure])
    refine (hmade.store slot hnew).control _ fun closure hc => ?_
    obtain rfl := Option.some.inj hc
    exact hnew
  | bind hpending hslot hbound =>
    exact (h.captured _).withBinding _ _ (h.cellFor _)
  | @ret _ value _ m₁ hvalue hbase hclose =>
    have hclosed := (h.store w.base (h.register hvalue)).closed w.base
    rw [hclose] at hclosed
    exact hclosed.leave w
  | setClosed hvalue hcell => exact h.rewritten _ (h.register hvalue)
  | setOpened hvalue hcell hslot => exact h.store _ (h.register hvalue)
  | getUpvalue hvalue hslot => exact h.store _ (h.upvalue hvalue)
  | copy hvalue hslot => exact h.store _ (h.register hvalue)
  | add hx hy hslot => exact h.store _ trivial
  | loadConstant hslot => exact h.store _ trivial
  | call hcallee hbase hdepth hcode hfit =>
    exact h.entered ..
  | halt => exact h

theorem Faults.linked (hx : Faults closure w m i e m') (h : m.Linked) : m'.Linked := by
  cases hx with
  | closureRegister hcode hslot => exact h.withClosure (h.prototypes hcode)
  | bindMissing hpending hslot hmissing => exact h.captured _
  | @closing _ value _ _ hvalue hclose =>
    have hclosed := (h.store w.base (h.register hvalue)).closed w.base
    rw [hclose] at hclosed
    exact hclosed
  | _ => exact h

theorem Linked.request_step (h : m.Linked) : (m.request .step).Linked := by
  rcases request_step_cases m with hs | ⟨f, hf, ⟨report, hx⟩ | ⟨e, hx⟩⟩
  · rw [hs]
    exact h
  · exact hx.linked (h.advance f)
  · exact hx.linked (h.advance f)

theorem Linked.request_load (h : m.Linked) (p : Program) : (m.request (.load p)).Linked := by
  have hclosed := h.closed 0
  rcases request_load_cases m p with ⟨-, hl⟩ | ⟨hentry, hl | hl | ⟨code, -, -, -, hl⟩⟩
  · rw [hl]
    exact h
  · rw [hl]
    exact hclosed
  · rw [hl]
    exact hclosed.staged hentry
  · rw [hl]
    exact (hclosed.staged hentry).entered ..

theorem Linked.request_reset (h : m.Linked) : (m.request .reset).Linked := by
  have hclosed := h.closed 0
  rcases request_reset_cases m with hr | hr
  · rw [hr]
    exact hclosed
  · rw [hr]
    exact hclosed.clear

theorem linked_ofConfig (config : Config) : (ofConfig config).Linked := by
  refine ⟨?_, ?_, fun {slot v} hv => ?_, ?_, ?_, ?_⟩
  · simp [ofConfig, Heap.empty]
  · simp [ofConfig, Heap.empty]
  · obtain rfl := eq_uninitialized_of_replicate hv
    trivial
  · simp [ofConfig]
  · simp [ofConfig, OpenCells.empty, OpenCells.entries]
  · simp [ofConfig]

end Machine

theorem Reachable.linked {config : Config} {m : Machine} (h : Reachable config m) : m.Linked :=
  h.invariant (Machine.linked_ofConfig config) (fun p _ _ hm => hm.request_load p)
    (fun _ hm => hm.request_step) (fun _ hm => hm.request_reset)

-- ---------------------------------------------------------------------------
-- Internal faults
-- ---------------------------------------------------------------------------

/-- The faults that only the machine itself could be blamed for. -/
inductive Fault.Internal : Fault → Prop
  | functionNotFound (closure : ClosureRef) : Internal (.functionNotFound closure)
  | upvalueNotFound (cell : CellRef) : Internal (.upvalueNotFound cell)
  | doubleClose (cell : CellRef) : Internal (.doubleClose cell)
  | codeNotLoaded (code : CodeRef) : Internal (.malformed (.codeNotLoaded code))

/-- A return can fail on closing in one way: a cell is closed already, because its handle was
handed out twice. -/
theorem Reachable.closing_error {config : Config} {m m' : Machine} {w : Window}
    {reg : UInt8} {value : Value} {e : Fault}
    (h : Reachable config m) (f : Fetched) (hvalue : (m.advance f).register w reg = .ok value)
    (hc : Machine.closeFrom w.base ((m.advance f).store w.base value) = .error e m') :
    (∃ r, e = .doubleClose r) ∧ handleSpace < m.heap.cells.size := by
  have hadvanced := h.linked.advance f
  refine ⟨(hadvanced.store w.base (hadvanced.register hvalue)).closing_error hc, ?_⟩
  refine Nat.lt_of_not_le fun hsize => ?_
  have htracked : ((m.advance f).store w.base value).Tracked := h.tracked hsize
  simp [htracked.closeFrom_eq] at hc

namespace Machine

variable {config : Config} {m m' : Machine} {w : Window} {f : Fetched} {e : Fault}

theorem resolve_error_not_internal {reg : UInt8} (h : m.resolve w reg = .error e) :
    ¬ e.Internal := by
  unfold resolve Window.slot at h
  by_cases hreg : reg.toNat < w.size
  · simp only [hreg, if_true] at h
    split at h
    · simp at h
    · obtain rfl := Except.error.inj h
      exact nofun
  · simp only [hreg, if_false] at h
    obtain rfl := Except.error.inj h
    exact nofun

theorem Faults.internal (hx : Faults f.frame.closure f.window (m.advance f) f.instruction e m')
    (hr : Reachable config m) (hf : m.fetch = .ok f) (he : e.Internal) :
    ∃ result r, f.instruction = .ret result ∧ e = .doubleClose r ∧
      handleSpace < m.heap.cells.size := by
  have hlinked := hr.linked.advance f
  have hclosure : f.frame.closure < (m.advance f).heap.closures.size := by
    obtain ⟨code, -, hcode, -⟩ := fetch_ok hf
    obtain ⟨c, hc, -⟩ := codeOf_ok.mp hcode
    exact (Array.getElem?_eq_some_iff.mp hc).1
  have hupvalue : ∀ {index}, (m.advance f).upvalue f.frame.closure index ≠ .error e := by
    intro index herr
    obtain ⟨count, rfl⟩ := hlinked.upvalue_error (hr.fitted.advance hf) hclosure herr
    cases he
  generalize f.instruction = i at hx
  cases hx with
  | register hreg hslot => exact absurd he (resolve_error_not_internal hslot)
  | unknownPrototype hnone => cases he
  | closureRegister hcode hslot => exact absurd he (resolve_error_not_internal hslot)
  | orphanBind hnone => cases he
  | bindMissing hpending hslot hmissing =>
    exact absurd (hlinked.pending hpending).exists_item (Nat.not_lt.mpr hmissing)
  | add hx hy herr =>
    obtain ⟨found, -, rfl⟩ := value_add_error herr
    cases he
  | @closing result _ _ _ hvalue hclose =>
    obtain ⟨⟨r, rfl⟩, hsize⟩ := hr.closing_error f hvalue hclose
    exact ⟨result, r, rfl, rfl, hsize⟩
  | getUpvalue herr => exact absurd herr hupvalue
  | setUpvalue herr => exact absurd herr hupvalue
  | notFunction hvalue hkind => cases he
  | callWindow hcallee hbase hwindow =>
    rcases windowFor_error hwindow with ⟨-, rfl⟩ | herr | ⟨code, -, -, rfl⟩
    · cases he
    · have hheld := hlinked.register hcallee
      obtain ⟨code, hok⟩ := hlinked.codeOf hheld.exists_item
      simp [hok] at herr
    · cases he

end Machine

/-- The one internal fault that code can bring about is a return that closes a cell twice, once
there are more cells than handles. -/
theorem Reachable.internal_fault {config : Config} {m m' : Machine} {e : Fault}
    (h : Reachable config m) (hs : Machine.step m = .error e m') (he : e.Internal) :
    ∃ f result r, m.fetch = .ok f ∧ f.instruction = .ret result ∧ e = .doubleClose r ∧
      handleSpace < m.heap.cells.size := by
  rcases Machine.step_error hs with ⟨hf, -⟩ | ⟨f, hf, hx⟩
  · rcases Machine.fetch_error hf with ⟨-, rfl⟩ | ⟨frame, hback, hcode | ⟨code, -, -, rfl⟩⟩
    · cases he
    · obtain ⟨code, hok, -⟩ := h.fitted.windows frame (Array.mem_of_back? hback)
      simp [hok] at hcode
    · cases he
  · exact ⟨f, (hx.internal h hf he).imp fun result hr => hr.imp fun r hret => ⟨hf, hret⟩⟩

end ClosureMachine

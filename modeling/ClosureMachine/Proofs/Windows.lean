import ClosureMachine.Proofs.Exhaustion
import ClosureMachine.Proofs.Termination

/-!
# Windows nest

A callee starts inside the window of its caller, a `bind` captures a register of the running
frame, and a return closes what is open from its window on. So on every machine that requests
lead to, each frame starts inside the window of the frame below it and each open cell observes
a slot of some frame: `Machine.Nested`. An access to a register or through a cell then stays on
the stack, and only a call can run out of it.
-/

namespace ClosureMachine

/-- The slots of a window. -/
def Window.Covers (w : Window) (slot : Nat) : Prop := w.base ≤ slot ∧ slot < w.finish

theorem Window.covers_of_slot {w : Window} {reg : UInt8} {slot : Nat} (h : w.slot reg = .ok slot) :
    w.Covers slot := by
  obtain ⟨hreg, rfl⟩ := Window.slot_ok.mp h
  exact ⟨Nat.le_add_right .., Nat.add_lt_add_left hreg _⟩

namespace Machine

/-- The window of a frame, as wide as the code of its closure asks for. -/
def windowOf (m : Machine) (frame : Frame) : Except Fault Window :=
  match m.codeOf frame.closure with
  | .error e => .error e
  | .ok code => .ok ⟨frame.base, code.stackSize.toNat⟩

variable {config : Config} {m m' : Machine} {w : Window} {f : Fetched} {closure : ClosureRef}
  {i : Instruction} {e : Fault} {report : Option Report}

theorem windowOf_ok {frame : Frame} :
    m.windowOf frame = .ok w ↔
      ∃ code, m.codeOf frame.closure = .ok code ∧ w = ⟨frame.base, code.stackSize.toNat⟩ := by
  unfold windowOf
  cases m.codeOf frame.closure <;> simp [eq_comm]

theorem windowOf_changes {frame : Frame} (hc : Changes m m') (h : m.windowOf frame = .ok w) :
    m'.windowOf frame = .ok w := by
  obtain ⟨code, hcode, hw⟩ := windowOf_ok.mp h
  exact windowOf_ok.mpr ⟨code, hc.codeOf_ok hcode, hw⟩

/-- Neither the position in the code nor the advance of the machine matters to a window. -/
theorem windowOf_advance {frame frame' : Frame} (hclosure : frame'.closure = frame.closure)
    (hbase : frame'.base = frame.base) : (m.advance f).windowOf frame' = m.windowOf frame := by
  simp only [windowOf, hclosure, hbase]
  rfl

theorem fetch_window (hf : m.fetch = .ok f) : m.windowOf f.frame = .ok f.window := by
  obtain ⟨code, -, hcode, hw, -⟩ := fetch_ok hf
  exact windowOf_ok.mpr ⟨code, hcode, hw⟩

theorem Fitted.windowOf (h : m.Fitted) {frame : Frame} (hf : frame ∈ m.frames) :
    ∃ w, m.windowOf frame = .ok w ∧ w.finish ≤ m.stack.size := by
  obtain ⟨code, hcode, hfit⟩ := h.windows frame hf
  exact ⟨_, windowOf_ok.mpr ⟨code, hcode, rfl⟩, hfit⟩

-- ---------------------------------------------------------------------------
-- Nesting
-- ---------------------------------------------------------------------------

structure Nested (m : Machine) : Prop where
  bottom : ∀ frame, m.frames[0]? = some frame → frame.base = 0
  inside : ∀ i caller callee, m.frames[i]? = some caller → m.frames[i + 1]? = some callee →
    ∃ w, m.windowOf caller = .ok w ∧ w.Covers callee.base
  observed : ∀ entry ∈ m.openCells.entries,
    ∃ frame ∈ m.frames, ∃ w, m.windowOf frame = .ok w ∧ w.Covers entry.1

/-- A machine without frames and open cells. -/
theorem nested_of_empty (hframes : m.frames = #[])
    (hentries : ∀ entry, entry ∉ m.openCells.entries) : m.Nested :=
  ⟨by simp [hframes], by simp [hframes], fun entry he => absurd he (hentries entry)⟩

/-- Advancing moves the top frame on in its code, and leaves each frame in its place. -/
theorem advance_frame? (hf : m.fetch = .ok f) {k : Nat} {frame : Frame}
    (h : (m.advance f).frames[k]? = some frame) :
    ∃ old, m.frames[k]? = some old ∧ frame.closure = old.closure ∧ frame.base = old.base := by
  obtain ⟨code, hback, -⟩ := fetch_ok hf
  rw [frames_eq_push hback]
  simp only [advance, Array.getElem?_push] at h ⊢
  split at h
  · next htop =>
    obtain rfl := Option.some.inj h
    exact ⟨f.frame, by rw [if_pos htop], rfl, rfl⟩
  · next htop => exact ⟨frame, by rw [if_neg htop]; exact h, rfl, rfl⟩

theorem mem_advance (hf : m.fetch = .ok f) {frame : Frame} (h : frame ∈ m.frames) :
    ∃ moved ∈ (m.advance f).frames, moved.closure = frame.closure ∧ moved.base = frame.base := by
  obtain ⟨code, hback, -⟩ := fetch_ok hf
  rw [frames_eq_push hback] at h
  rcases Array.mem_push.mp h with h | rfl
  · exact ⟨frame, Array.mem_push_of_mem _ h, rfl, rfl⟩
  · exact ⟨_, Array.mem_push_self, rfl, rfl⟩

theorem Nested.advance (h : m.Nested) (hf : m.fetch = .ok f) : (m.advance f).Nested := by
  refine ⟨fun frame hframe => ?_, fun k caller callee hcaller hcallee => ?_, fun entry he => ?_⟩
  · obtain ⟨old, hold, -, hbase⟩ := advance_frame? hf hframe
    rw [hbase]
    exact h.bottom old hold
  · obtain ⟨old, hold, hclosure, hbase⟩ := advance_frame? hf hcaller
    obtain ⟨old', hold', -, hbase'⟩ := advance_frame? hf hcallee
    rw [windowOf_advance hclosure hbase, hbase']
    exact h.inside k old old' hold hold'
  · obtain ⟨frame, hmem, hw⟩ := h.observed entry he
    obtain ⟨moved, hmoved, hclosure, hbase⟩ := mem_advance hf hmem
    refine ⟨moved, hmoved, ?_⟩
    rw [windowOf_advance hclosure hbase]
    exact hw

-- ---------------------------------------------------------------------------
-- What an instruction does to the frames
-- ---------------------------------------------------------------------------

/-- The frames stay, and what is newly open observes the window of one of them. -/
theorem Nested.kept (h : m.Nested) (hc : Changes m m') (hframes : m'.frames = m.frames)
    {top : Frame} (htop : top ∈ m.frames) (hw : m.windowOf top = .ok w)
    (hentries : ∀ entry ∈ m'.openCells.entries,
      entry ∈ m.openCells.entries ∨ w.Covers entry.1) : m'.Nested := by
  refine ⟨hframes ▸ h.bottom, fun k caller callee hcaller hcallee => ?_, fun entry he => ?_⟩
  · rw [hframes] at hcaller hcallee
    obtain ⟨v, hv, hcovers⟩ := h.inside k caller callee hcaller hcallee
    exact ⟨v, windowOf_changes hc hv, hcovers⟩
  · rw [hframes]
    rcases hentries entry he with he | hcovers
    · obtain ⟨frame, hmem, v, hv, hcovers⟩ := h.observed entry he
      exact ⟨frame, hmem, v, windowOf_changes hc hv, hcovers⟩
    · exact ⟨top, htop, w, windowOf_changes hc hw, hcovers⟩

/-- A frame is pushed that starts in the window of the top one. -/
theorem Nested.push (h : m.Nested) (hc : Changes m m') {top frame : Frame}
    (hframes : m'.frames = m.frames.push frame) (hentries : m'.openCells = m.openCells)
    (htop : m.frames.back? = some top) (hw : m.windowOf top = .ok w)
    (hcovers : w.Covers frame.base) : m'.Nested := by
  have hlast : m.frames[m.frames.size - 1]? = some top := Array.back?_eq_getElem? ▸ htop
  have hpos : 0 < m.frames.size := by
    have hlt := (Array.getElem?_eq_some_iff.mp hlast).1
    omega
  refine ⟨fun bottom hbottom => ?_, fun k caller callee hcaller hcallee => ?_, fun entry he => ?_⟩
  · rw [hframes, Array.getElem?_push, if_neg (Nat.ne_of_lt hpos)] at hbottom
    exact h.bottom bottom hbottom
  · rw [hframes, Array.getElem?_push] at hcaller hcallee
    have hlt : k < m.frames.size := by
      refine Nat.lt_of_not_le fun hk => ?_
      rw [if_neg (by omega), Array.getElem?_eq_none (by omega)] at hcallee
      simp at hcallee
    rw [if_neg (Nat.ne_of_lt hlt)] at hcaller
    split at hcallee
    · next hk =>
      obtain rfl := Option.some.inj hcallee
      obtain rfl : k = m.frames.size - 1 := by omega
      obtain rfl := Option.some.inj (hlast.symm.trans hcaller)
      exact ⟨w, windowOf_changes hc hw, hcovers⟩
    · obtain ⟨v, hv, hinside⟩ := h.inside k caller callee hcaller hcallee
      exact ⟨v, windowOf_changes hc hv, hinside⟩
  · rw [hentries] at he
    obtain ⟨below, hmem, v, hv, hslot⟩ := h.observed entry he
    exact ⟨below, hframes ▸ Array.mem_push_of_mem _ hmem, v, windowOf_changes hc hv, hslot⟩

/-- The top frame is popped, and no cell from its base on is left open. -/
theorem Nested.pop (h : m.Nested) (hc : Changes m m') (hframes : m'.frames = m.frames.pop)
    {top : Frame} (htop : m.frames.back? = some top)
    (hentries : ∀ entry ∈ m'.openCells.entries, entry ∈ m.openCells.entries ∧ entry.1 < top.base) :
    m'.Nested := by
  have hbelow : ∀ {k : Nat} {frame : Frame},
      m'.frames[k]? = some frame → m.frames[k]? = some frame := by
    intro k frame hk
    rw [hframes, Array.getElem?_pop] at hk
    split at hk
    · exact hk
    · simp at hk
  refine ⟨fun frame hframe => h.bottom frame (hbelow hframe),
    fun k caller callee hcaller hcallee => ?_, fun entry he => ?_⟩
  · obtain ⟨v, hv, hinside⟩ := h.inside k caller callee (hbelow hcaller) (hbelow hcallee)
    exact ⟨v, windowOf_changes hc hv, hinside⟩
  · obtain ⟨hopen, hlt⟩ := hentries entry he
    obtain ⟨frame, hmem, v, hv, hcovers⟩ := h.observed entry hopen
    -- The popped frame covers nothing below its base, so another one covers the slot.
    rw [frames_eq_push htop] at hmem
    rcases Array.mem_push.mp hmem with hmem | rfl
    · exact ⟨frame, hframes ▸ hmem, v, windowOf_changes hc hv, hcovers⟩
    · obtain ⟨code, -, rfl⟩ := windowOf_ok.mp hv
      exact absurd hlt (Nat.not_lt.mpr hcovers.1)

theorem Nested.executes (h : m.Nested) {top : Frame} (htop : m.frames.back? = some top)
    (hw : m.windowOf top = .ok w) (hx : Executes closure w m i report m') : m'.Nested := by
  have hc := hx.changes
  have hentries := @hx.mem_entries
  cases hx with
  | call hcallee hbase hdepth hcode hfit =>
    exact h.push hc rfl rfl htop hw (Window.covers_of_slot hbase)
  | ret hvalue hbase hclose =>
    obtain ⟨code, -, rfl⟩ := windowOf_ok.mp hw
    obtain ⟨cells, rfl⟩ := closeFrom_ok hclose
    refine h.pop hc (leave_frames ..) htop fun entry he => ?_
    rw [leave_openCells] at he
    exact OpenCells.mem_entries_below.mp he
  | bind hpending hslot hbound =>
    exact h.kept hc (by simp [withBinding]) (Array.mem_of_back? htop) hw fun _ he => hentries he
  | _ => exact h.kept hc rfl (Array.mem_of_back? htop) hw fun _ he => hentries he

theorem Nested.request_step (h : m.Nested) : (m.request .step).Nested := by
  rcases request_step_cases m with hs | ⟨f, hf, ⟨report, hx⟩ | ⟨e, hx⟩⟩
  · rw [hs]
    exact h
  · have hw := (windowOf_advance (f := f) rfl rfl).trans (fetch_window hf)
    exact (h.advance hf).executes Array.back?_push hw hx
  · have hw := (windowOf_advance (f := f) rfl rfl).trans (fetch_window hf)
    exact (h.advance hf).kept hx.changes hx.frames_eq Array.mem_push_self hw fun entry he =>
      hx.mem_entries he

theorem not_mem_closed (entry : OpenEntry) :
    entry ∉ (Outcome.machine (closeFrom 0 m)).openCells.entries := by
  intro he
  obtain ⟨cells, hm⟩ := closeFrom_machine 0 m
  rw [hm] at he
  exact Nat.not_lt_zero _ (OpenCells.mem_entries_below.mp he).2

theorem Nested.closed (h : m.Nested) : (Outcome.machine (closeFrom 0 m)).Nested := by
  have hc := closeFrom_changes 0 m
  have hframes : (Outcome.machine (closeFrom 0 m)).frames = m.frames := by
    obtain ⟨cells, hm⟩ := closeFrom_machine 0 m
    rw [hm]
  refine ⟨hframes ▸ h.bottom, fun k caller callee hcaller hcallee => ?_,
    fun entry he => absurd he (not_mem_closed entry)⟩
  rw [hframes] at hcaller hcallee
  obtain ⟨v, hv, hcovers⟩ := h.inside k caller callee hcaller hcallee
  exact ⟨v, windowOf_changes hc hv, hcovers⟩

theorem Nested.request_load (h : m.Nested) (p : Program) : (m.request (.load p)).Nested := by
  rcases request_load_cases m p with ⟨-, hl⟩ | ⟨-, hl | hl | ⟨code, -, -, -, hl⟩⟩
  · rw [hl]
    exact h
  · rw [hl]
    exact h.closed
  · rw [hl]
    exact nested_of_empty rfl not_mem_closed
  · rw [hl]
    -- The entry frame is the only one, at the bottom of the stack.
    refine ⟨fun frame hframe => ?_, fun k caller callee _ hcallee => ?_, fun entry he => ?_⟩
    · obtain rfl : ⟨_, 0, 0⟩ = frame := Option.some.inj hframe
      rfl
    · have hcallee : (#[(⟨_, 0, 0⟩ : Frame)])[k + 1]? = some callee := hcallee
      simp at hcallee
    · exact absurd he (not_mem_closed entry)

theorem Nested.request_reset (h : m.Nested) : (m.request .reset).Nested := by
  rcases request_reset_cases m with hr | hr
  · rw [hr]
    exact h.closed
  · rw [hr]
    exact nested_of_empty rfl not_mem_closed

end Machine

theorem Reachable.nested {config : Config} {m : Machine} (h : Reachable config m) : m.Nested := by
  refine h.invariant ?_ (fun p _ _ hm => hm.request_load p) (fun _ hm => hm.request_step)
    fun _ hm => hm.request_reset
  refine Machine.nested_of_empty rfl fun entry he => ?_
  simp [Machine.ofConfig, OpenCells.empty, OpenCells.entries] at he

namespace Machine

variable {config : Config} {m m' : Machine} {w : Window} {f : Fetched} {closure : ClosureRef}
  {i : Instruction} {e : Fault}

-- ---------------------------------------------------------------------------
-- Running out of stack
-- ---------------------------------------------------------------------------

theorem resolve_error_of_fits {reg : UInt8} (hfit : w.finish ≤ m.stack.size)
    (h : m.resolve w reg = .error e) : e = .registerOutOfBounds reg w.size := by
  unfold resolve Window.slot at h
  by_cases hreg : reg.toNat < w.size
  · have hslot : w.base + reg.toNat < m.stack.size :=
      Nat.lt_of_lt_of_le (Nat.add_lt_add_left hreg _) hfit
    simp [hreg, hslot] at h
  · simp only [hreg, if_false] at h
    exact (Except.error.inj h).symm

theorem cellOf_error {index : UInt8} (h : m.cellOf closure index = .error e) :
    e = .functionNotFound closure ∨ (∃ count, e = .upvalueOutOfBounds index count) ∨
      ∃ r, e = .upvalueNotFound r := by
  unfold cellOf at h
  split at h
  · exact .inl (Except.error.inj h).symm
  · split at h
    · exact .inr (.inl ⟨_, (Except.error.inj h).symm⟩)
    · split at h
      · exact .inr (.inr ⟨_, (Except.error.inj h).symm⟩)
      · simp at h

/-- A cell that is open observes a slot on the stack, so reading through it finds a value. -/
theorem upvalue_error_of_fits (hfit : m.Fitted) {index : UInt8}
    (h : m.upvalue closure index = .error e) : m.cellOf closure index = .error e := by
  rcases upvalue_error.mp h with hcell | ⟨r, slot, hcell, hslot, -⟩
  · exact hcell
  · obtain ⟨c, -, -, hopen⟩ := cellOf_ok.mp hcell
    exact absurd (hfit.slots hopen) (Nat.not_lt.mpr hslot)

/-- A call whose callee would need `needed` slots, more than there are. -/
inductive Outgrows (m : Machine) (f : Fetched) (needed : Nat) : Prop
  | intro {function argBase count : UInt8} {callee : ClosureRef} {code : CodeObject}
      (hi : f.instruction = .call function argBase count)
      (hcallee : m.register f.window function = .ok (.function callee))
      (hcode : m.codeOf callee = .ok code)
      (hneeded : needed = f.frame.base + argBase.toNat + code.stackSize.toNat)
      (h : m.stack.size < needed)

theorem Faults.outgrows {needed capacity : Nat}
    (hx : Faults f.frame.closure f.window (m.advance f) f.instruction
      (.stackOverflow needed capacity) m')
    (hfit : m.Fitted) (hf : m.fetch = .ok f) :
    m.Outgrows f needed ∧ capacity = m.stack.size := by
  have hwindow := hfit.window hf
  have hregister : ∀ reg,
      (m.advance f).resolve f.window reg ≠ .error (.stackOverflow needed capacity) := by
    intro reg hreg
    simpa using resolve_error_of_fits hwindow hreg
  have hupvalue : ∀ index,
      (m.advance f).upvalue f.frame.closure index ≠ .error (.stackOverflow needed capacity) := by
    intro index hindex
    simpa using cellOf_error (upvalue_error_of_fits (hfit.advance hf) hindex)
  obtain ⟨_, -, -, hw, -⟩ := fetch_ok hf
  generalize hi : f.instruction = i at hx
  generalize he : Fault.stackOverflow needed capacity = e at hx
  cases hx with
  | register hreg hslot => exact absurd (he ▸ hslot) (hregister _)
  | closureRegister hcode hslot => exact absurd (he ▸ hslot) (hregister _)
  | add hx hy herr =>
    obtain ⟨found, -, rfl⟩ := value_add_error herr
    simp at he
  | closing hvalue hclose =>
    obtain ⟨r, rfl | rfl⟩ := closeFrom_error hclose
    · simp at he
    · simp at he
  | getUpvalue herr => exact absurd (he ▸ herr) (hupvalue _)
  | setUpvalue herr => exact absurd (he ▸ herr) (hupvalue _)
  | callWindow hcallee hbase hwindow =>
    obtain ⟨-, rfl⟩ := Window.slot_ok.mp hbase
    rcases windowFor_error hwindow with ⟨-, rfl⟩ | hcode | ⟨code, hcode, hroom, rfl⟩
    · simp at he
    · unfold codeOf at hcode
      split at hcode
      · simp [← he] at hcode
      · split at hcode
        · simp [← he] at hcode
        · simp at hcode
    · obtain ⟨rfl, rfl⟩ := Fault.stackOverflow.inj he
      have hbase : f.window.base = f.frame.base := by rw [hw]
      rw [hbase] at hroom ⊢
      exact ⟨⟨hi, hcallee, hcode, rfl, hroom⟩, rfl⟩
  | _ => simp at he

/-- Whatever code was loaded and whatever failed before: there are no more frames than the
limit allows. The first frame starts at slot 0 and each other one inside the window of the frame
below it, every window ends within the stack, and an open cell observes a slot of some frame's
window as long as there are no more cells than handles. No access to a register or through a cell
leaves the stack in any case, and a step that runs out of it is a call whose callee needs more
slots than there are. -/
theorem stack_discipline {config : Config} {m : Machine} (h : Reachable config m) :
    m.depth ≤ config.maxFrames ∧
    (∀ frame, m.frames[0]? = some frame → frame.base = 0) ∧
    (∀ (i : Nat) caller callee, m.frames[i]? = some caller → m.frames[i + 1]? = some callee →
      ∃ w, m.windowOf caller = .ok w ∧ w.Covers callee.base) ∧
    (∀ frame ∈ m.frames, ∃ w, m.windowOf frame = .ok w ∧ w.finish ≤ m.stack.size) ∧
    (m.heap.cells.size ≤ handleSpace →
      ∀ (slot : Nat) (r : CellRef), m.heap.cells[r]? = some (.opened slot) →
        ∃ frame ∈ m.frames, ∃ w, m.windowOf frame = .ok w ∧ w.Covers slot) ∧
    (m.heap.cells.size ≤ handleSpace → m.frames = #[] →
      ∀ (slot : Nat) (r : CellRef), m.heap.cells[r]? ≠ some (.opened slot)) ∧
    (∀ f, m.fetch = .ok f → ∀ needed capacity,
      (∀ reg, m.register f.window reg ≠ .error (.stackOverflow needed capacity)) ∧
      ∀ index, m.upvalue f.frame.closure index ≠ .error (.stackOverflow needed capacity)) ∧
    ∀ needed capacity m', step m = .error (.stackOverflow needed capacity) m' →
      ∃ f, m.fetch = .ok f ∧ m.Outgrows f needed ∧ capacity = m.stack.size := by
  have hfit := h.fitted
  have hnested := h.nested
  have hobserved : m.heap.cells.size ≤ handleSpace →
      ∀ (slot : Nat) (r : CellRef), m.heap.cells[r]? = some (.opened slot) →
        ∃ frame ∈ m.frames, ∃ w, m.windowOf frame = .ok w ∧ w.Covers slot :=
    fun hsize slot r hopen => hnested.observed _ ((h.tracked hsize slot r).mpr hopen)
  refine ⟨h.depth_le, hnested.bottom, hnested.inside, fun frame => hfit.windowOf, hobserved,
    fun hsize hempty slot r hopen => ?_,
    fun f hf needed capacity => ⟨fun reg hreg => ?_, fun index hindex => ?_⟩,
    fun needed capacity m' hs => ?_⟩
  · obtain ⟨frame, hmem, -⟩ := hobserved hsize slot r hopen
    simp [hempty] at hmem
  · have hresolve := register_error.mp hreg
    simpa using resolve_error_of_fits (hfit.window hf) hresolve
  · simpa using cellOf_error (upvalue_error_of_fits hfit hindex)
  · rcases step_error hs with ⟨hf, -⟩ | ⟨f, hf, hx⟩
    · rcases fetch_error hf with ⟨-, he⟩ | ⟨frame, hback, hcode | ⟨code, -, -, he⟩⟩
      · simp at he
      · obtain ⟨code, hok, -⟩ := hfit.windows frame (Array.mem_of_back? hback)
        simp [hok] at hcode
      · simp at he
    · exact ⟨f, hf, hx.outgrows hfit hf⟩

/-- A closure, wider than its caller and starting in the caller's last register, that is about
to call itself one slot further on. -/
def widening : Machine :=
  ((ofConfig ⟨6, 4, true⟩).request (.load ⟨#[
    ⟨"main", 3, #[.makeFunction 1 1, .bind 0 1, .call 1 2 0, .halt]⟩,
    ⟨"wide", 4, #[.getUpvalue 1 0, .call 1 1 0, .ret 0]⟩], 0⟩)).stepped 4

theorem stack_discipline_widening :
    widening.frames = #[⟨0, 3, 0⟩, ⟨1, 1, 2⟩] ∧ widening.heap.cells = #[.opened 1] ∧
      (∃ w, widening.windowOf ⟨0, 3, 0⟩ = .ok w ∧ w.Covers 2) ∧
      (∃ frame ∈ widening.frames, ∃ w, widening.windowOf frame = .ok w ∧ w.Covers 1) ∧
      step widening = .error (.stackOverflow 7 6) (widening.request .step) ∧
      ∃ f, widening.fetch = .ok f ∧ widening.Outgrows f 7 := by
  have hreach : Reachable ⟨6, 4, true⟩ widening := (Reachable.new.request (.load _)).stepped 4
  have hframes : widening.frames = #[⟨0, 3, 0⟩, ⟨1, 1, 2⟩] := by decide +kernel
  have hcells : widening.heap.cells = #[.opened 1] := by decide +kernel
  have hsize : widening.heap.cells.size ≤ handleSpace := by
    rw [hcells]
    decide
  have hs : step widening = .error (.stackOverflow 7 6) (widening.request .step) := by
    decide +kernel
  obtain ⟨-, -, hinside, -, hobserved, -, -, houtgrown⟩ := stack_discipline hreach
  obtain ⟨f, hf, hneeded, -⟩ := houtgrown 7 6 _ hs
  exact ⟨hframes, hcells, hinside 0 _ ⟨1, 1, 2⟩ (by rw [hframes]; rfl) (by rw [hframes]; rfl),
    hobserved hsize 1 0 (by rw [hcells]; rfl), hs, f, hf, hneeded⟩

/-- Where there are more cells than handles, a cell stays open when all frames are gone. -/
theorem last_cell_stays_open : ∃ n, (exhaustion.stepped n).frames = #[] ∧
    (exhaustion.stepped n).heap.cells[handleSpace]? = some (.opened 5) := by
  obtain ⟨n, h⟩ := exists_stopping
  obtain ⟨-, -, -, hstopped⟩ := h.stops
  exact ⟨n + 1, hstopped.frames, hstopped.last⟩

end Machine

end ClosureMachine

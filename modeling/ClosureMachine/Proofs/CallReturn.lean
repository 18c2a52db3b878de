import ClosureMachine.Proofs.HighWater
import ClosureMachine.Proofs.StackDiscipline

/-!
# Calls and the returns that answer them

A call is answered by the first return that brings the depth back. In between, the callee may
call, capture and write as it likes, but each frame above the caller starts at or above the
callee's base. So below that base nothing changes but what open cells are written through,
and the caller finds its frame as it left it.
-/

namespace ClosureMachine

-- ---------------------------------------------------------------------------
-- Entries below a bound
-- ---------------------------------------------------------------------------

namespace OpenCells

theorem filter_insertEntry {start slot : Nat} (h : start ≤ slot) (cell : CellRef)
    (entries : List OpenEntry) :
    (insertEntry slot cell entries).filter (·.1 < start) = entries.filter (·.1 < start) := by
  have hslot : ¬ slot < start := Nat.not_lt.mpr h
  induction entries with
  | nil => simp [insertEntry, hslot]
  | cons e rest ih =>
    unfold insertEntry
    split
    · rw [List.filter_cons, ih, List.filter_cons]
    · split
      · rfl
      · rw [List.filter_cons_of_neg (by simpa using h)]

theorem filter_entries_insert {start slot : Nat} (h : start ≤ slot) (o : OpenCells)
    (cell : CellRef) :
    (o.insert slot cell).entries.filter (·.1 < start) = o.entries.filter (·.1 < start) := by
  unfold insert insert?
  cases o.find? slot with
  | some r => rfl
  | none =>
    simp only [Option.getD_some, entries, List.filter_reverse]
    rw [filter_insertEntry h]

theorem filter_entries_below {start slot : Nat} (h : start ≤ slot) (o : OpenCells) :
    (o.below slot).entries.filter (·.1 < start) = o.entries.filter (·.1 < start) := by
  rw [entries_below, List.filter_filter]
  refine List.filter_congr fun e _ => ?_
  have hiff : e.1 < start ∧ e.1 < slot ↔ e.1 < start := by omega
  simpa using hiff

end OpenCells

-- ---------------------------------------------------------------------------
-- Frames above a caller
-- ---------------------------------------------------------------------------

/-- `frames` has more frames than `outer`, which it starts with. The first of them has its
base at `base`, and no other lies below that. -/
structure Above (outer : Array Frame) (base : Nat) (frames : Array Frame) : Prop where
  below : ∀ i < outer.size, frames[i]? = outer[i]?
  first : ∃ frame, frames[outer.size]? = some frame ∧ frame.base = base
  bases : ∀ i frame, outer.size ≤ i → frames[i]? = some frame → base ≤ frame.base

namespace Above

variable {outer frames : Array Frame} {base : Nat} {top : Frame}

theorem enter (outer : Array Frame) {frame : Frame} (h : frame.base = base) :
    Above outer base (outer.push frame) := by
  refine ⟨fun i hi => ?_, ⟨frame, Array.getElem?_push_size, h⟩, fun i f hi hf => ?_⟩
  · rw [Array.getElem?_push, if_neg (Nat.ne_of_lt hi)]
  · rw [Array.getElem?_push] at hf
    split at hf
    · obtain rfl := Option.some.inj hf
      exact Nat.le_of_eq h.symm
    · rw [Array.getElem?_eq_none hi] at hf
      simp at hf

theorem size_lt (h : Above outer base frames) : outer.size < frames.size := by
  obtain ⟨frame, hfirst, -⟩ := h.first
  exact (Array.getElem?_eq_some_iff.mp hfirst).1

theorem back_base (h : Above outer base frames) (htop : frames.back? = some top) :
    base ≤ top.base := by
  have hlt := h.size_lt
  rw [Array.back?_eq_getElem?] at htop
  exact h.bases _ _ (by omega) htop

theorem push (h : Above outer base frames) (hbase : base ≤ top.base) :
    Above outer base (frames.push top) := by
  have hlt := h.size_lt
  refine ⟨fun i hi => ?_, ?_, fun i frame hi hf => ?_⟩
  · rw [Array.getElem?_push, if_neg (by omega)]
    exact h.below i hi
  · rw [Array.getElem?_push, if_neg (by omega)]
    exact h.first
  · rw [Array.getElem?_push] at hf
    split at hf
    · obtain rfl := Option.some.inj hf
      exact hbase
    · exact h.bases i frame hi hf

theorem pop (h : Above outer base frames) (hlt : outer.size < frames.pop.size) :
    Above outer base frames.pop := by
  rw [Array.size_pop] at hlt
  refine ⟨fun i hi => ?_, ?_, fun i frame hi hf => ?_⟩
  · rw [Array.getElem?_pop, if_pos (by omega)]
    exact h.below i hi
  · rw [Array.getElem?_pop, if_pos (by omega)]
    exact h.first
  · rw [Array.getElem?_pop] at hf
    split at hf
    · exact h.bases i frame hi hf
    · simp at hf

/-- Popping the last frame above `outer` pops the first one. -/
theorem answered (h : Above outer base frames) (htop : frames.back? = some top)
    (hsize : frames.pop.size = outer.size) : top.base = base ∧ frames.pop = outer := by
  have hlt := h.size_lt
  rw [Array.size_pop] at hsize
  constructor
  · obtain ⟨first, hfirst, hbase⟩ := h.first
    rw [Array.back?_eq_getElem?, hsize, hfirst] at htop
    exact Option.some.inj htop ▸ hbase
  · refine Array.ext_getElem? fun i => ?_
    rw [Array.getElem?_pop]
    split
    · exact h.below i (by omega)
    · rw [Array.getElem?_eq_none (by omega)]

/-- Running an instruction moves the top frame on, which keeps its base. -/
theorem advance (h : Above outer base frames) (htop : frames.back? = some top) (ip : Nat) :
    Above outer base (frames.pop.push { top with ip }) := by
  by_cases hlt : outer.size < frames.pop.size
  · have hbase := h.back_base htop
    exact (h.pop hlt).push hbase
  · have hsize := h.size_lt
    rw [Array.size_pop] at hlt
    obtain ⟨hbase, hpop⟩ := h.answered htop (by rw [Array.size_pop]; omega)
    rw [hpop]
    exact enter outer hbase

end Above

-- ---------------------------------------------------------------------------
-- What an instruction leaves alone below its window
-- ---------------------------------------------------------------------------

namespace Machine

variable {m m' m₀ m₁ m₂ : Machine} {w : Window} {closure : ClosureRef} {i : Instruction}
  {report : Option Report} {base slot : Nat} {config : Config}

/-- Only cells at or above the window are opened or closed. -/
theorem Executes.filter_entries (h : Executes closure w m i report m') (hbase : base ≤ w.base) :
    m'.openCells.entries.filter (·.1 < base) = m.openCells.entries.filter (·.1 < base) := by
  cases h with
  | @bind _ _ _ slot hpending hslot hbound =>
    obtain ⟨-, rfl⟩ := Window.slot_ok.mp hslot
    show (m.captured _).openCells.entries.filter _ = _
    unfold captured
    split
    · rfl
    · exact OpenCells.filter_entries_insert (by omega) ..
  | ret hvalue hstack hclose =>
    obtain ⟨cells, rfl⟩ := closeFrom_ok hclose
    rw [leave_openCells]
    exact OpenCells.filter_entries_below hbase _
  | _ => rfl

theorem store_register_below {reg : UInt8} {target : Nat} (value : Value)
    (hreg : m.resolve w reg = .ok target) (h : slot < w.base) :
    (m.store target value).stack[slot]? = m.stack[slot]? := by
  obtain ⟨-, rfl, -⟩ := resolve_ok.mp hreg
  rw [store_slot?, if_neg (by omega)]

theorem Executes.ret_below {result : UInt8} (h : Executes closure w m (.ret result) report m')
    (hslot : slot < w.base) : m'.stack[slot]? = m.stack[slot]? := by
  cases h with
  | ret hvalue hbase hclose =>
    obtain ⟨cells, rfl⟩ := closeFrom_ok hclose
    rw [leave_slot?, if_neg (by omega)]
    show (m.store w.base _).stack[slot]? = _
    rw [store_slot?, if_neg (by omega)]

/-- A slot below the window that no open cell observes keeps its value. -/
theorem Executes.slot_below (h : Executes closure w m i report m') (hslot : slot < w.base)
    (hfree : ∀ r : CellRef, m.heap.cells[r]? ≠ some (.opened slot)) :
    m'.stack[slot]? = m.stack[slot]? := by
  cases h with
  | bind hpending hreg hbound => simp [withBinding]
  | ret hvalue hstack hclose =>
    have hret := @Executes.ret closure _ _ _ _ _ _ hvalue hstack hclose
    exact hret.ret_below hslot
  | @setOpened _ _ _ r s hvalue hcell hs =>
    obtain ⟨c, -, -, hopen⟩ := cellOf_ok.mp hcell
    have hne : s ≠ slot := by
      rintro rfl
      exact hfree r hopen
    rw [store_slot?, if_neg (by simp [hne])]
  | makeFunction hcode hreg => exact store_register_below _ hreg hslot
  | add hx hy hreg => exact store_register_below _ hreg hslot
  | getUpvalue hvalue hreg => exact store_register_below _ hreg hslot
  | loadConstant hreg => exact store_register_below _ hreg hslot
  | copy hvalue hreg => exact store_register_below _ hreg hslot
  | setClosed | call | halt => rfl

-- ---------------------------------------------------------------------------
-- Inside a call
-- ---------------------------------------------------------------------------

/-- `m` is inside a call that `m₀` has made, whose callee has its window at `base`. -/
structure Inside (m₀ : Machine) (base : Nat) (m : Machine) : Prop where
  frames : Above m₀.frames base m.frames
  entries : m.openCells.entries.filter (·.1 < base) = m₀.openCells.entries.filter (·.1 < base)
  opened : ∀ {r : CellRef} {slot : Nat}, slot < base → m.heap.cells[r]? = some (.opened slot) →
    m₀.heap.cells[r]? = some (.opened slot)
  slots : ∀ slot < base, (∀ r : CellRef, m₀.heap.cells[r]? ≠ some (.opened slot)) →
    m.stack[slot]? = m₀.stack[slot]?

theorem Inside.advance {f : Fetched} (h : Inside m₀ base m) (hf : m.fetch = .ok f) :
    Inside m₀ base (m.advance f) := by
  obtain ⟨code, htop, -⟩ := fetch_ok hf
  exact ⟨h.frames.advance htop _, h.entries, h.opened, h.slots⟩

theorem Inside.base_le {f : Fetched} (h : Inside m₀ base m) (hf : m.fetch = .ok f) :
    base ≤ f.window.base := by
  obtain ⟨code, htop, -, hw, -⟩ := fetch_ok hf
  rw [hw]
  exact h.frames.back_base htop

theorem Inside.executes (h : Inside m₀ base m) (hw : base ≤ w.base)
    (hx : Executes closure w m i report m') (hdepth : m₀.depth < m'.depth) :
    Inside m₀ base m' := by
  refine ⟨?_, (hx.filter_entries hw).trans h.entries, fun hslot hr => ?_,
    fun slot hslot hfree => ?_⟩
  · rcases hx.frames_cases with hf | ⟨callee, start, code, hf, hstart, -⟩ | ⟨-, hf⟩
    · rw [hf]
      exact h.frames
    · rw [hf]
      exact h.frames.push (Nat.le_trans hw hstart)
    · rw [hf]
      exact h.frames.pop (by simpa [depth, hf] using hdepth)
  · rcases hx.opened_cases hr with hr | ⟨hfrom, -⟩
    · exact h.opened hslot hr
    · omega
  · have hkept := hx.slot_below (Nat.lt_of_lt_of_le hslot hw) fun r hr =>
      hfree r (h.opened hslot hr)
    exact hkept.trans (h.slots slot hslot hfree)

/-- The depth stays above `d` in a run of successful steps from `m`. -/
inductive RunsAbove (d : Nat) (m : Machine) : Machine → Prop
  | refl : RunsAbove d m m
  | step {m₁ m₂ : Machine} {report : Option Report} (h : RunsAbove d m m₁)
      (hstep : step m₁ = .ok report m₂) (hdepth : d < m₂.depth) : RunsAbove d m m₂

theorem Inside.run (h : Inside m₀ base m₁) (hr : Reachable config m₁)
    (hrun : RunsAbove m₀.depth m₁ m₂) : Inside m₀ base m₂ ∧ Reachable config m₂ := by
  induction hrun with
  | refl => exact ⟨h, hr⟩
  | step _ hstep hdepth ih =>
    obtain ⟨hi, hr⟩ := ih
    obtain ⟨f, hf, hx⟩ := Machine.step_ok hstep
    exact ⟨(hi.advance hf).executes (hi.base_le hf) hx hdepth, hr.step_ok hstep⟩

-- ---------------------------------------------------------------------------
-- The call and the return
-- ---------------------------------------------------------------------------

theorem Executes.inside_call {function argBase count : UInt8}
    (h : Executes closure w m (.call function argBase count) report m') :
    Inside m (w.base + argBase.toNat) m' := by
  cases h with
  | call hcallee hbase hdepth hcode hfit =>
    obtain ⟨-, rfl⟩ := Window.slot_ok.mp hbase
    exact ⟨.enter m.frames rfl, rfl, fun _ hr => hr, fun _ _ _ => rfl⟩

/-- A return hands its result over in the first slot of its window, and closes what is open
from there on. -/
theorem Executes.ret_ok {result : UInt8} (h : Executes closure w m (.ret result) report m') :
    (∃ value, m.register w result = .ok value ∧ m'.stack[w.base]? = some value) ∧
      m'.openCells.entries = m.openCells.entries.filter (·.1 < w.base) := by
  cases h with
  | ret hvalue hbase hclose =>
    obtain ⟨cells, rfl⟩ := closeFrom_ok hclose
    refine ⟨⟨_, hvalue, ?_⟩, ?_⟩
    · rw [leave_slot?, if_neg (by simp)]
      show (m.store w.base _).stack[w.base]? = _
      rw [store_slot?, if_pos ⟨rfl, hbase⟩]
    · rw [leave_openCells]
      exact OpenCells.entries_below ..

theorem Executes.ret_above {result : UInt8} (h : Executes closure w m (.ret result) report m')
    (hmark : m.Marked) (hscrub : m.config.scrubOnReturn = true) {slot : Nat} {value : Value}
    (hslot : w.base < slot) (hv : m'.stack[slot]? = some value) : value = .uninitialized := by
  cases h with
  | @ret _ stored _ m₁ hvalue hbase hclose =>
    obtain ⟨cells, rfl⟩ := closeFrom_ok hclose
    have hmark₁ := hmark.store stored hbase
    have hclosed := Marked.change (.closeFrom w.base) hmark₁
    rw [hclose] at hclosed
    exact hclosed.leave_above hscrub hslot hv

/-- What brings the depth back to that of the caller is a return of the callee. -/
theorem Inside.answered (h : Inside m₀ base m) {f : Fetched} (hf : m.fetch = .ok f)
    (hx : Executes f.frame.closure f.window (m.advance f) f.instruction report m')
    (hdepth : m'.depth = m₀.depth) :
    (∃ result, f.instruction = .ret result) ∧ f.window.base = base ∧ m'.frames = m₀.frames := by
  have hin := (h.advance hf).frames
  have hlt := hin.size_lt
  have hsize : m'.frames.size = m₀.frames.size := hdepth
  obtain ⟨code, -, -, hw, -⟩ := fetch_ok hf
  rcases hx.frames_cases with hframes | ⟨callee, start, code, hframes, -⟩ | ⟨hret, hframes⟩
  · rw [hframes] at hsize
    omega
  · rw [hframes, Array.size_push] at hsize
    omega
  · rw [hframes] at hsize
    obtain ⟨hbase, hpop⟩ := hin.answered Array.back?_push hsize
    exact ⟨hret, by rw [hw]; exact hbase, hframes.trans hpop⟩

/-- A call in frame `call.frame`, then steps that stay above its depth, then a step that
comes back to it. That step is a return, and its result is in the first slot of the callee's
window. The frames are those of the call with the caller moved on. Below the callee's window
every slot that no open cell observes keeps its value, and the tracked cells are the same; from
there on no cell is tracked, and above the result nothing is left if returns clear. -/
theorem call_return_bracket {config : Config} {m m₁ m₂ m' : Machine} {call : Fetched}
    {function argBase count : UInt8} {report₁ report₂ : Option Report} (h : Reachable config m)
    (hfetch : m.fetch = .ok call) (hi : call.instruction = .call function argBase count)
    (hcall : step m = .ok report₁ m₁) (hrun : RunsAbove m.depth m₁ m₂)
    (hreturn : step m₂ = .ok report₂ m') (hdepth : m'.depth = m.depth) :
    let top := call.frame.base + argBase.toNat
    (∃ f result value, m₂.fetch = .ok f ∧ f.instruction = .ret result ∧
      m₂.register f.window result = .ok value ∧ m'.stack[top]? = some value) ∧
    m'.frames = m.frames.pop.push { call.frame with ip := call.frame.ip + 1 } ∧
    (∀ slot < top, (∀ r : CellRef, m.heap.cells[r]? ≠ some (.opened slot)) →
      m'.stack[slot]? = m.stack[slot]?) ∧
    m'.openCells.entries = m.openCells.entries.filter (·.1 < top) ∧
    (config.scrubOnReturn = true →
      ∀ slot value, top < slot → m'.stack[slot]? = some value → value = .uninitialized) := by
  intro top
  obtain ⟨_, hfetch', hx₁⟩ := step_ok hcall
  obtain rfl := Except.ok.inj (hfetch.symm.trans hfetch')
  obtain ⟨code, htop, -, hw, -⟩ := fetch_ok hfetch
  have hbase : call.window.base + argBase.toNat = top := by rw [hw]
  rw [hi] at hx₁
  have hin₁ := hx₁.inside_call
  rw [hbase] at hin₁
  rw [← advance_depth hfetch] at hrun hdepth
  obtain ⟨hin₂, hr₂⟩ := hin₁.run (h.step_ok hcall) hrun
  obtain ⟨f, hf, hx₂⟩ := step_ok hreturn
  obtain ⟨⟨result, hret⟩, hfbase, hframes⟩ := hin₂.answered hf hx₂ hdepth
  have hin₂ := hin₂.advance hf
  rw [hret] at hx₂
  obtain ⟨⟨value, hvalue, hstored⟩, hentries⟩ := hx₂.ret_ok
  rw [hfbase] at hstored hentries
  refine ⟨⟨f, result, value, hf, hret, hvalue, hstored⟩, hframes, fun slot hslot hfree => ?_, ?_,
    fun hscrub slot value hslot hv => ?_⟩
  · have hkept := hx₂.slot_below (hfbase ▸ hslot) fun r hr => hfree r (hin₂.opened hslot hr)
    exact hkept.trans (hin₂.slots slot hslot hfree)
  · exact hentries.trans hin₂.entries
  · have hconfig : (m₂.advance f).config = config := hr₂.handled.config_eq
    have hmark : (m₂.advance f).Marked := ⟨hr₂.handled.marked.mark, hr₂.handled.marked.above⟩
    exact hx₂.ret_above hmark (hconfig ▸ hscrub) (hfbase ▸ hslot) hv

/-- A machine about to call a closure that has captured a slot below the callee's window and
one inside it. The callee gives back what it finds in the first, and overwrites it. -/
def calling : Machine :=
  ((ofConfig ⟨4, 2, true⟩).request (.load ⟨#[
    ⟨"main", 3, #[.loadConstant 0 ⟨1⟩, .makeFunction 1 1, .bind 0 0, .bind 1 2, .call 1 2 0,
      .halt]⟩,
    ⟨"swap", 2, #[.getUpvalue 0 0, .loadConstant 1 ⟨2⟩, .setUpvalue 1 0, .ret 0]⟩], 0⟩)).stepped 4

theorem call_return_bracket_calling :
    calling.openCells.entries = [(0, 0), (2, 1)] ∧
      (calling.stepped 5).openCells.entries = [(0, 0)] ∧
      (calling.stepped 5).frames = #[⟨0, 5, 0⟩] ∧
      (calling.stepped 5).stack[2]? = some (.number ⟨1⟩) ∧
      (calling.stepped 5).stack[1]? = calling.stack[1]? ∧
      (calling.stepped 5).stack[0]? ≠ calling.stack[0]? ∧
      (calling.stepped 5).stack[3]? = some .uninitialized := by
  have hreach : Reachable ⟨4, 2, true⟩ calling := (Reachable.new.request (.load _)).stepped 4
  have hfetch : calling.fetch = .ok ⟨⟨0, 4, 0⟩, ⟨0, 3⟩, .call 1 2 0⟩ :=
    ok_of_toOption (by decide +kernel)
  have hcall : step calling = .ok none (calling.stepped 1) := by decide +kernel
  have hget : step (calling.stepped 1) = .ok none (calling.stepped 2) := by decide +kernel
  have hload : step (calling.stepped 2) = .ok none (calling.stepped 3) := by decide +kernel
  have hset : step (calling.stepped 3) = .ok none (calling.stepped 4) := by decide +kernel
  have hfetch₂ : (calling.stepped 4).fetch = .ok ⟨⟨1, 3, 2⟩, ⟨2, 2⟩, .ret 0⟩ :=
    ok_of_toOption (by decide +kernel)
  have hret : step (calling.stepped 4) = .ok none (calling.stepped 5) := by decide +kernel
  have hrun : RunsAbove calling.depth (calling.stepped 1) (calling.stepped 4) :=
    ((RunsAbove.refl.step hget (by decide +kernel)).step hload (by decide +kernel)).step hset
      (by decide +kernel)
  obtain ⟨⟨f, result, value, hf, hr, hvalue, hresult⟩, hframes, hkept, hentries, hclear⟩ :=
    call_return_bracket hreach hfetch rfl hcall hrun hret (by decide +kernel)
  obtain rfl := Except.ok.inj (hfetch₂.symm.trans hf)
  obtain rfl := Instruction.ret.inj hr
  have hone : (calling.stepped 4).register ⟨2, 2⟩ 0 = .ok (.number ⟨1⟩) :=
    ok_of_toOption (by decide +kernel)
  obtain rfl := Except.ok.inj (hone.symm.trans hvalue)
  have hopen : calling.openCells.entries = [(0, 0), (2, 1)] := by decide +kernel
  have hcells : calling.heap.cells = #[.opened 0, .opened 2] := by decide +kernel
  have hfree : ∀ r : CellRef, calling.heap.cells[r]? ≠ some (.opened 1) := by
    intro r hr
    have hmem := Array.mem_of_getElem? hr
    simp [hcells] at hmem
  refine ⟨hopen, ?_, ?_, hresult, hkept 1 (by decide) hfree, by decide +kernel, ?_⟩
  · rw [hentries, hopen]
    rfl
  · rw [hframes]
    decide +kernel
  · have hsize : 3 < (calling.stepped 5).stack.size := by decide +kernel
    have hv := Array.getElem?_eq_getElem hsize
    rw [hv, hclear rfl 3 _ (by decide) hv]

end Machine

end ClosureMachine

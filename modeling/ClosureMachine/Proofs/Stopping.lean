import ClosureMachine.Proofs.CallReturn
import ClosureMachine.Proofs.InternalFaults
import ClosureMachine.Proofs.Windows

/-!
# Stopping

A machine stops in a `halt`, which leaves everything as it is, or in the return of the entry
frame. The entry frame starts at slot 0, so its return closes every cell that any program loaded
so far has left open, unless a handle has been given to two cells. Either way the report shows
the whole window that the machine stopped in.
-/

namespace ClosureMachine

/-- A report shows window `w` of `stack`, slot by slot. -/
structure Report.Shows (report : Report) (w : Window) (stack : Array Value) : Prop where
  base : report.base = w.base
  fits : w.finish ≤ stack.size
  size : report.registers.size = w.size
  registers : ∀ reg < w.size, report.registers[reg]? = stack[w.base + reg]?

namespace Machine

variable {config : Config} {m m' : Machine} {w : Window} {f : Fetched} {closure : ClosureRef}
  {i : Instruction} {report : Report} {outcome : Option Report}

/-- Nothing runs and nothing is tracked, and no cell is open if each has a handle of its own. -/
structure Idle (m : Machine) : Prop where
  frames : m.frames = #[]
  entries : m.openCells.entries = []
  cells : m.heap.cells.size ≤ handleSpace →
    ∀ (r : CellRef) slot, m.heap.cells[r]? ≠ some (.opened slot)

-- ---------------------------------------------------------------------------
-- Reports
-- ---------------------------------------------------------------------------

theorem snapshot_shows (reason : StopReason) (hfit : w.finish ≤ m.stack.size) :
    (m.snapshot reason w).Shows w m.stack := by
  refine ⟨rfl, hfit, size_snapshot reason hfit, fun reg hreg => ?_⟩
  show (m.stack.extract w.base w.finish)[reg]? = _
  rw [Array.getElem?_extract, Nat.min_eq_left hfit, Window.finish, Nat.add_sub_cancel_left,
    if_pos hreg]

/-- With the result stored in its first slot, the window shows it in register 0. -/
theorem stored_snapshot_shows {result : UInt8} {value : Value}
    (hvalue : m.register w result = .ok value) (hfit : w.finish ≤ m.stack.size) :
    ((m.store w.base value).snapshot .entryReturn w).Shows w (m.stack.setIfInBounds w.base value) ∧
      ((m.store w.base value).snapshot .entryReturn w).registers[0]? = some value := by
  have hshows := snapshot_shows (m := m.store w.base value) .entryReturn (by simpa using hfit)
  obtain ⟨slot, hslot, -⟩ := register_ok.mp hvalue
  obtain ⟨hpos, -, hbase⟩ := resolve_ok.mp (resolve_zero hslot)
  refine ⟨hshows, ?_⟩
  rw [hshows.registers 0 hpos, store_slot?, if_pos ⟨rfl, hbase⟩]

/-- What stops a machine is a `halt`, which changes nothing, or a return of the last frame. The
report shows the stack with the result in the window's first slot, and none of it cleared. -/
theorem Executes.stops (hx : Executes closure w m i (some report) m') :
    (i = .halt ∧ report = m.snapshot .halt w) ∨
      ∃ result value, i = .ret result ∧ m.depth = 1 ∧ m.register w result = .ok value ∧
        report = (m.store w.base value).snapshot .entryReturn w := by
  generalize hr : some report = stop at hx
  cases hx with
  | ret hvalue hbase hclose =>
    split at hr
    · next hdepth =>
      obtain rfl := Option.some.inj hr
      obtain ⟨cells, rfl⟩ := closeFrom_ok hclose
      exact .inr ⟨_, _, rfl, hdepth, hvalue, rfl⟩
    · simp at hr
  | halt => exact .inl ⟨rfl, Option.some.inj hr⟩
  | _ => simp at hr

theorem Executes.ret_frames {result : UInt8} (hx : Executes closure w m (.ret result) outcome m') :
    m'.frames = m.frames.pop := by
  cases hx with
  | ret hvalue hbase hclose =>
    obtain ⟨cells, rfl⟩ := closeFrom_ok hclose
    exact leave_frames ..

theorem Executes.ret_stops {result : UInt8} (hx : Executes closure w m (.ret result) outcome m')
    (hdepth : m.depth = 1) : ∃ report, outcome = some report ∧ report.reason = .entryReturn := by
  cases hx with
  | ret hvalue hbase hclose => exact ⟨_, if_pos hdepth, rfl⟩

-- ---------------------------------------------------------------------------
-- The entry frame
-- ---------------------------------------------------------------------------

theorem Nested.base_eq_zero (h : m.Nested) (hdepth : m.depth = 1) {frame : Frame}
    (hback : m.frames.back? = some frame) : frame.base = 0 := by
  refine h.bottom frame ?_
  have hlast := Array.back?_eq_getElem? ▸ hback
  have hzero : m.frames.size - 1 = 0 := by
    simp only [depth] at hdepth
    omega
  rwa [hzero] at hlast

/-- The return of the last frame, at the bottom of the stack, leaves nothing running and nothing
open. -/
theorem Executes.ret_idle {result : UInt8} (hx : Executes closure w m (.ret result) outcome m')
    (hdepth : m.depth = 1) (hbase : w.base = 0)
    (ht : m'.heap.cells.size ≤ handleSpace → m'.Tracked) : m'.Idle := by
  have hentries : m'.openCells.entries = [] := by
    rw [hx.ret_ok.2, hbase]
    simp
  refine ⟨?_, hentries, fun hsize r slot hopen => ?_⟩
  · refine Array.eq_empty_of_size_eq_zero ?_
    rw [hx.ret_frames, Array.size_pop]
    simp only [depth] at hdepth
    omega
  · have hmem := (ht hsize slot r).mpr hopen
    simp [hentries] at hmem

/-- On every machine that requests lead to, whatever code they load. A report shows the window of
the frame that the machine stops in: of the stack as it is in a `halt`, and of the stack with the
result in its first slot in a return. A return reports if and only if it is the last frame's. Then
the window starts at slot 0, and afterwards nothing runs, and no cell is open as long as there
are no more cells than handles. A `halt` always reports, and only moves the top frame on and ends
the pending closure's turn. -/
theorem stopping_is_clean {config : Config} {m : Machine} (h : Reachable config m) :
    (∀ report m', step m = .ok (some report) m' →
      ∃ f stack, m.fetch = .ok f ∧ m.windowOf f.frame = .ok f.window ∧
        report.base = f.frame.base ∧ report.Shows f.window stack ∧
        (report.reason = .halt ∧ f.instruction = .halt ∧ stack = m.stack ∨
          report.reason = .entryReturn ∧ m.depth = 1 ∧ report.base = 0 ∧ m'.Idle ∧
            ∃ result value, f.instruction = .ret result ∧
              m.register f.window result = .ok value ∧ report.registers[0]? = some value ∧
              stack = m.stack.setIfInBounds 0 value)) ∧
    (∀ f result outcome m', m.fetch = .ok f → f.instruction = .ret result →
      step m = .ok outcome m' →
      ((∃ report, outcome = some report ∧ report.reason = .entryReturn) ↔ m.depth = 1)) ∧
    ∀ f, m.fetch = .ok f → f.instruction = .halt →
      ∃ report, report.reason = .halt ∧ step m = .ok (some report)
        { m with
          frames := m.frames.pop.push { f.frame with ip := f.frame.ip + 1 }
          pending := none } := by
  refine ⟨fun report m' hs => ?_, fun f result outcome m' hf hi hs => ?_, fun f hf hi => ?_⟩
  · obtain ⟨f, hf, hx⟩ := step_ok hs
    obtain ⟨_, hback, -, hw, -⟩ := fetch_ok hf
    have hfit := h.fitted.window hf
    rcases hx.stops with ⟨hi, rfl⟩ | ⟨result, value, hi, hdepth, hvalue, rfl⟩
    · exact ⟨f, m.stack, hf, fetch_window hf, by rw [hw]; rfl, snapshot_shows .halt hfit,
        .inl ⟨rfl, hi, rfl⟩⟩
    · rw [hi] at hx
      have hone : m.depth = 1 := advance_depth hf ▸ hdepth
      have hframe : f.frame.base = 0 := h.nested.base_eq_zero hone hback
      have hbase : f.window.base = 0 := by
        rw [hw]
        exact hframe
      have hidle := hx.ret_idle hdepth hbase (h.step_ok hs).tracked
      obtain ⟨hshows, hzero⟩ := stored_snapshot_shows hvalue hfit
      exact ⟨f, _, hf, fetch_window hf, hbase.trans hframe.symm, hshows,
        .inr ⟨rfl, hone, hbase, hidle, result, value, hi, hvalue, hzero, by rw [hbase]; rfl⟩⟩
  · obtain ⟨f', hf', hx⟩ := step_ok hs
    obtain rfl := Except.ok.inj (hf.symm.trans hf')
    constructor
    · rintro ⟨report, rfl, -⟩
      rcases hx.stops with ⟨hhalt, -⟩ | ⟨_, _, -, hdepth, -⟩
      · simp [hi] at hhalt
      · exact advance_depth hf ▸ hdepth
    · intro hone
      rw [hi] at hx
      exact hx.ret_stops ((advance_depth hf).trans hone)
  · refine ⟨(m.advance f).snapshot .halt f.window, rfl, ?_⟩
    simp [step, hf, hi, execute, advance, Instruction.isBind]

/-- The entry frame has captured its register 1 and is about to return what is in it. -/
def ending : Machine :=
  ((ofConfig ⟨4, 2, true⟩).request (.load ⟨#[⟨"main", 3, #[.loadConstant 1 ⟨7⟩,
    .makeFunction 2 0, .bind 0 1, .ret 1]⟩], 0⟩)).stepped 3

theorem stopping_is_clean_ending :
    ending.heap.cells = #[.opened 1] ∧ ∃ report m', step ending = .ok (some report) m' ∧
      report.reason = .entryReturn ∧ report.base = 0 ∧ report.registers.size = 3 ∧
      report.registers[0]? = some (.number ⟨7⟩) ∧ report.registers[1]? = some (.number ⟨7⟩) ∧
      m'.stack[1]? = some .uninitialized ∧ m'.Idle := by
  have hreach : Reachable ⟨4, 2, true⟩ ending := (Reachable.new.request (.load _)).stepped 3
  have hfetch : ending.fetch = .ok ⟨⟨0, 3, 0⟩, ⟨0, 3⟩, .ret 1⟩ := ok_of_toOption (by decide +kernel)
  have hstop : step ending =
      .ok (some ⟨.entryReturn, 0, #[.number ⟨7⟩, .number ⟨7⟩, .function 1]⟩)
        (ending.request .step) := by
    decide +kernel
  obtain ⟨hreport, -⟩ := stopping_is_clean hreach
  obtain ⟨f, stack, hf, -, -, hshows, ⟨hhalt, -⟩ | ⟨hreason, -, hbase, hidle, hret⟩⟩ :=
    hreport _ _ hstop
  · simp at hhalt
  · obtain rfl := Except.ok.inj (hfetch.symm.trans hf)
    obtain ⟨result, value, hi, hvalue, hzero, rfl⟩ := hret
    obtain rfl := Instruction.ret.inj hi
    have hseven : ending.register ⟨0, 3⟩ 1 = .ok (.number ⟨7⟩) := ok_of_toOption (by decide +kernel)
    obtain rfl := Except.ok.inj (hseven.symm.trans hvalue)
    refine ⟨by decide +kernel, _, _, hstop, hreason, hbase, hshows.size, hzero, ?_,
      by decide +kernel, hidle⟩
    rw [hshows.registers 1 (by decide)]
    decide +kernel

/-- Where there are more cells than handles, the last of them is still open after the entry frame
has returned. -/
theorem stop_leaves_cell_open : ∃ n report m',
    step (exhaustion.stepped n) = .ok (some report) m' ∧ report.reason = .entryReturn ∧
      m'.heap.cells[handleSpace]? = some (.opened 5) := by
  obtain ⟨n, h⟩ := exists_stopping
  obtain ⟨report, hs, hreason, hstopped⟩ := h.stops
  exact ⟨n, report, _, hs, hreason, hstopped.last⟩

end Machine

end ClosureMachine

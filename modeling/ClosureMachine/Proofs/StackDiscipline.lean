import ClosureMachine.Proofs.Tracking

/-!
# Windows and open cells lie on the stack

A frame is pushed only where its window ends within the stack, and a `bind` captures a
register of the running frame. So on every machine that requests lead to, the window of each
frame and the slot of each open cell lie on the stack: `Machine.Fitted`.
-/

namespace ClosureMachine

namespace Machine

variable {m m' : Machine} {w : Window} {closure : ClosureRef} {i : Instruction} {e : Fault}
  {report : Option Report}

-- ---------------------------------------------------------------------------
-- Frames and entries after an instruction
-- ---------------------------------------------------------------------------

theorem mem_entries_captured {slot : Nat} {entry : OpenEntry} :
    entry ∈ (m.captured slot).openCells.entries ↔
      entry = (slot, m.cellFor slot) ∨ entry ∈ m.openCells.entries := by
  unfold captured cellFor
  cases hf : m.openCells.find? slot with
  | some r =>
    have hmem := (m.openCells.find?_eq_some_iff slot r).mp hf
    constructor
    · exact .inr
    · rintro (rfl | h)
      · exact hmem
      · exact h
  | none => exact OpenCells.mem_entries_insert hf _ _

theorem mem_of_mem_pop {frames : Array Frame} {frame : Frame} (h : frame ∈ frames.pop) :
    frame ∈ frames :=
  Array.mem_toList_iff.mp (List.dropLast_subset _ (Array.mem_toList_iff.mpr h))

/-- An instruction leaves the frames alone, pushes one whose window was seen to fit and starts
in the window of its caller, or pops one. -/
theorem Executes.frames_cases (h : Executes closure w m i report m') :
    m'.frames = m.frames ∨
      (∃ callee base code, m'.frames = m.frames.push ⟨callee, 0, base⟩ ∧
        w.base ≤ base ∧ base < w.finish ∧ m.depth < m.config.maxFrames ∧
        m.codeOf callee = .ok code ∧ base + code.stackSize.toNat ≤ m.stack.size) ∨
      (∃ result, i = .ret result) ∧ m'.frames = m.frames.pop := by
  cases h with
  | bind hpending hslot hbound => exact .inl (by simp [withBinding])
  | ret hvalue hbase hclose =>
    obtain ⟨cells, rfl⟩ := closeFrom_ok hclose
    exact .inr (.inr ⟨⟨_, rfl⟩, leave_frames ..⟩)
  | call hcallee hbase hdepth hcode hfit =>
    obtain ⟨hreg, rfl⟩ := Window.slot_ok.mp hbase
    have hlt := Nat.add_lt_add_left hreg w.base
    exact .inr (.inl ⟨_, _, _, rfl, Nat.le_add_right .., hlt, hdepth, hcode, hfit⟩)
  | _ => exact .inl rfl

theorem Executes.mem_frames (h : Executes closure w m i report m') {frame : Frame}
    (hf : frame ∈ m'.frames) :
    frame ∈ m.frames ∨ ∃ code, m.codeOf frame.closure = .ok code ∧
      frame.base + code.stackSize.toNat ≤ m.stack.size := by
  rcases h.frames_cases with heq | ⟨callee, base, code, heq, -, -, -, hcode, hfit⟩ | ⟨-, heq⟩
  · exact .inl (heq ▸ hf)
  · rw [heq] at hf
    rcases Array.mem_push.mp hf with hf | rfl
    · exact .inl hf
    · exact .inr ⟨code, hcode, hfit⟩
  · exact .inl (mem_of_mem_pop (heq ▸ hf))

/-- What is tracked after an instruction was tracked before, or is a register of the window. -/
theorem Executes.mem_entries (h : Executes closure w m i report m') {entry : OpenEntry}
    (he : entry ∈ m'.openCells.entries) :
    entry ∈ m.openCells.entries ∨ w.base ≤ entry.1 ∧ entry.1 < w.finish := by
  cases h with
  | bind hpending hslot hbound =>
    rcases mem_entries_captured.mp he with rfl | he
    · obtain ⟨hreg, rfl⟩ := Window.slot_ok.mp hslot
      exact .inr ⟨Nat.le_add_right .., Nat.add_lt_add_left hreg _⟩
    · exact .inl he
  | ret hvalue hbase hclose =>
    obtain ⟨cells, hm⟩ := closeFrom_ok hclose
    rw [leave_openCells, hm] at he
    exact .inl (OpenCells.mem_entries_below.mp he).1
  | _ => exact .inl he

/-- A cell that an instruction leaves open was open before, or observes a register of the
window. -/
theorem Executes.opened_cases (h : Executes closure w m i report m') {r : CellRef} {slot : Nat}
    (hr : m'.heap.cells[r]? = some (.opened slot)) :
    m.heap.cells[r]? = some (.opened slot) ∨ w.base ≤ slot ∧ slot < w.finish := by
  cases h with
  | bind hpending hslot hbound =>
    rcases opened_of_captured hr with hr | rfl
    · exact .inl hr
    · obtain ⟨hreg, rfl⟩ := Window.slot_ok.mp hslot
      exact .inr ⟨Nat.le_add_right .., Nat.add_lt_add_left hreg _⟩
  | @ret _ value _ _ hvalue hbase hclose =>
    rw [leave_heap] at hr
    exact .inl (opened_of_closeFrom (m := m.store w.base value) (by rw [hclose]; exact hr))
  | setClosed hvalue hcell => exact .inl (opened_of_rewritten hr)
  | _ => exact .inl hr

theorem Faults.frames_eq (h : Faults closure w m i e m') : m'.frames = m.frames := by
  cases h with
  | bindMissing hpending hslot hmissing => simp
  | @closing _ value _ _ hvalue hclose =>
    obtain ⟨cells, hm⟩ := closeFrom_machine w.base (m.store w.base value)
    rw [hclose, Outcome.machine_error] at hm
    rw [hm]
    rfl
  | _ => rfl

theorem Faults.program_eq (h : Faults closure w m i e m') :
    m'.heap.codes = m.heap.codes ∧ m'.prototypes = m.prototypes := by
  cases h with
  | bindMissing hpending hslot hmissing => simp
  | @closing _ value _ _ hvalue hclose =>
    obtain ⟨cells, hm⟩ := closeFrom_machine w.base (m.store w.base value)
    rw [hclose, Outcome.machine_error] at hm
    rw [hm]
    exact ⟨rfl, rfl⟩
  | _ => exact ⟨rfl, rfl⟩

theorem Faults.mem_entries (h : Faults closure w m i e m') {entry : OpenEntry}
    (he : entry ∈ m'.openCells.entries) :
    entry ∈ m.openCells.entries ∨ w.base ≤ entry.1 ∧ entry.1 < w.finish := by
  cases h with
  | bindMissing hpending hslot hmissing =>
    rcases mem_entries_captured.mp he with rfl | he
    · obtain ⟨hreg, rfl⟩ := Window.slot_ok.mp hslot
      exact .inr ⟨Nat.le_add_right .., Nat.add_lt_add_left hreg _⟩
    · exact .inl he
  | @closing _ value _ _ hvalue hclose =>
    obtain ⟨cells, hm⟩ := closeFrom_machine w.base (m.store w.base value)
    rw [hclose, Outcome.machine_error] at hm
    rw [hm] at he
    exact .inl (OpenCells.mem_entries_below.mp he).1
  | _ => exact .inl he

theorem Faults.opened_cases (h : Faults closure w m i e m') {r : CellRef} {slot : Nat}
    (hr : m'.heap.cells[r]? = some (.opened slot)) :
    m.heap.cells[r]? = some (.opened slot) ∨ w.base ≤ slot ∧ slot < w.finish := by
  cases h with
  | bindMissing hpending hslot hmissing =>
    rcases opened_of_captured hr with hr | rfl
    · exact .inl hr
    · obtain ⟨hreg, rfl⟩ := Window.slot_ok.mp hslot
      exact .inr ⟨Nat.le_add_right .., Nat.add_lt_add_left hreg _⟩
  | @closing _ value _ _ hvalue hclose =>
    exact .inl (opened_of_closeFrom (m := m.store w.base value) (by rw [hclose]; exact hr))
  | _ => exact .inl hr

-- ---------------------------------------------------------------------------
-- Fitting
-- ---------------------------------------------------------------------------

structure Fitted (m : Machine) : Prop where
  windows : ∀ frame ∈ m.frames, ∃ code, m.codeOf frame.closure = .ok code ∧
    frame.base + code.stackSize.toNat ≤ m.stack.size
  slots : ∀ {r : CellRef} {slot : Nat},
    m.heap.cells[r]? = some (.opened slot) → slot < m.stack.size

theorem Fitted.of_changes (h : m.Fitted) (hc : Changes m m')
    (hframes : ∀ frame ∈ m'.frames, frame ∈ m.frames ∨ ∃ code, m.codeOf frame.closure = .ok code ∧
      frame.base + code.stackSize.toNat ≤ m.stack.size)
    (hopened : ∀ {r : CellRef} {slot : Nat}, m'.heap.cells[r]? = some (.opened slot) →
      m.heap.cells[r]? = some (.opened slot) ∨ slot < m.stack.size) : m'.Fitted := by
  refine ⟨fun frame hf => ?_, fun hr => ?_⟩
  · obtain ⟨code, hcode, hfit⟩ := (hframes frame hf).elim (h.windows frame) id
    exact ⟨code, hc.codeOf_ok hcode, hc.size_stack ▸ hfit⟩
  · exact hc.size_stack ▸ (hopened hr).elim h.slots id

theorem Fitted.window (h : m.Fitted) {f : Fetched} (hf : m.fetch = .ok f) :
    f.window.finish ≤ m.stack.size := by
  obtain ⟨code, hback, hcode, hw, -⟩ := fetch_ok hf
  obtain ⟨code', hcode', hfit⟩ := h.windows f.frame (Array.mem_of_back? hback)
  rw [hcode] at hcode'
  obtain rfl := Except.ok.inj hcode'
  rw [hw]
  exact hfit

theorem Fitted.advance (h : m.Fitted) {f : Fetched} (hf : m.fetch = .ok f) :
    (m.advance f).Fitted := by
  refine ⟨fun frame hmem => ?_, h.slots⟩
  obtain ⟨code, hback, -⟩ := fetch_ok hf
  rcases Array.mem_push.mp hmem with hmem | rfl
  · exact h.windows frame (mem_of_mem_pop hmem)
  · exact h.windows f.frame (Array.mem_of_back? hback)

theorem Fitted.request_step (h : m.Fitted) : (m.request .step).Fitted := by
  rcases request_step_cases m with hs | ⟨f, hf, ⟨report, hx⟩ | ⟨e, hx⟩⟩
  · rw [hs]
    exact h
  · have hw := h.window hf
    exact (h.advance hf).of_changes hx.changes (fun _ hmem => hx.mem_frames hmem)
      fun hr => (hx.opened_cases hr).imp id fun hs => Nat.lt_of_lt_of_le hs.2 hw
  · have hw := h.window hf
    exact (h.advance hf).of_changes hx.changes (fun frame hmem => .inl (hx.frames_eq ▸ hmem))
      fun hr => (hx.opened_cases hr).imp id fun hs => Nat.lt_of_lt_of_le hs.2 hw

theorem Fitted.closed (h : m.Fitted) (start : Nat) :
    (Outcome.machine (closeFrom start m)).Fitted := by
  refine h.of_changes (closeFrom_changes start m) (fun frame hf => .inl ?_)
    fun hr => .inl (opened_of_closeFrom hr)
  obtain ⟨cells, hm⟩ := closeFrom_machine start m
  rw [hm] at hf
  exact hf

theorem Fitted.of_no_frames (h : m.Fitted) (hc : Changes m m') (hframes : m'.frames = #[])
    (hcells : m'.heap.cells = m.heap.cells) : m'.Fitted :=
  h.of_changes hc (fun frame hf => by simp [hframes] at hf) fun hr => .inl (hcells ▸ hr)

theorem Fitted.request_reset (h : m.Fitted) : (m.request .reset).Fitted := by
  have hclosed := h.closed 0
  rcases request_reset_cases m with hr | hr
  · rw [hr]
    exact hclosed
  · rw [hr]
    exact hclosed.of_no_frames (.single .clear) rfl rfl

theorem Fitted.request_load (h : m.Fitted) (p : Program) : (m.request (.load p)).Fitted := by
  have hclosed := h.closed 0
  have hstaged := hclosed.of_no_frames (staged_changes _ p) rfl rfl
  rcases request_load_cases m p with ⟨-, hl⟩ | ⟨-, hl | hl | ⟨code, hcode, -, hfit, hl⟩⟩
  · rw [hl]
    exact h
  · rw [hl]
    exact hclosed
  · rw [hl]
    exact hstaged
  · rw [hl]
    refine ⟨fun frame hf => ?_, hstaged.slots⟩
    rcases Array.mem_push.mp hf with hf | rfl
    · exact hstaged.windows frame hf
    · refine ⟨code, hcode, ?_⟩
      have hsize := (closeFrom_changes 0 m).size_stack
      simpa [entered, hsize] using hfit

theorem fitted_ofConfig (config : Config) : (ofConfig config).Fitted :=
  ⟨fun frame hf => by simp [ofConfig] at hf, fun hr => by simp [ofConfig, Heap.empty] at hr⟩

end Machine

theorem Reachable.fitted {config : Config} {m : Machine} (h : Reachable config m) : m.Fitted :=
  h.invariant (Machine.fitted_ofConfig config) (fun p _ _ hm => hm.request_load p)
    (fun _ hm => hm.request_step) (fun _ hm => hm.request_reset)

end ClosureMachine

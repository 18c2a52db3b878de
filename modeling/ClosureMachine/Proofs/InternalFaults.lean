import ClosureMachine.Proofs.Links
import ClosureMachine.Proofs.Termination

/-!
# No internal fault

Some faults do not blame the code that runs but say that the machine has lost something of its
own: a closure, a cell or a code object that it had handed out, or a cell closed twice. As long
as no two cells have the same handle, no code can make a machine fail like that, checked or not.
Nor does a step ever look outside the frames or the stack, and a load finds its entry among the
prototypes.
-/

namespace ClosureMachine

namespace Machine

variable {config : Config} {m m' m₁ : Machine} {w : Window} {f : Fetched} {closure : ClosureRef}
  {i : Instruction} {e : Fault} {report : Report}

-- ---------------------------------------------------------------------------
-- Faults
-- ---------------------------------------------------------------------------

theorem step_error_not_internal (h : Reachable config m) (hs : step m = .error e m')
    (hsize : m.heap.cells.size ≤ handleSpace) : ¬ e.Internal := by
  intro he
  obtain ⟨_, _, _, -, -, -, hmore⟩ := h.internal_fault hs he
  omega

/-- What a program is refused for: closing the cells of what ran before, its entry, or the room
for its entry frame. -/
theorem load_error_cases (h : Reachable config m) {p : Program} (hl : load p m = .error e m') :
    closeFrom 0 m = .error e m' ∨ e = .malformed (.entryOutOfRange p.entry p.codes.size) ∨
      e = .frameOverflow m.config.maxFrames ∨
        ∃ needed capacity, e = .stackOverflow needed capacity := by
  by_cases hentry : p.entry.toNat < p.codes.size
  · cases hc : closeFrom 0 m with
    | error e₁ m₁ =>
      rw [load_of_not_closed hc hentry] at hl
      obtain ⟨rfl, rfl⟩ := EStateM.Result.error.inj hl
      exact .inl rfl
    | ok n m₁ =>
      have hlinked := h.linked.closed 0
      rw [hc, Outcome.machine_ok] at hlinked
      have hmade : m₁.heap.nextClosure < (m₁.staged p).heap.closures.size := by
        refine Nat.lt_of_le_of_lt (handleAt_le _) ?_
        show m₁.heap.closures.size < (m₁.heap.closures.push _).size
        simp
      obtain ⟨code, hcode⟩ := (hlinked.staged hentry).codeOf hmade
      rw [load_of_closed hc hentry] at hl
      simp only [Op.bind_error, Op.pure_error, and_false, exists_false, or_false,
        pushFrame_error] at hl
      obtain ⟨cells, rfl⟩ := closeFrom_ok hc
      rcases windowFor_error hl.1 with ⟨-, he⟩ | herr | ⟨code, -, -, he⟩
      · exact .inr (.inr (.inl he))
      · simp [hcode] at herr
      · exact .inr (.inr (.inr ⟨_, _, he⟩))
  · rw [load_of_size_le (Nat.le_of_not_lt hentry)] at hl
    exact .inr (.inl (EStateM.Result.error.inj hl).1.symm)

/-- A run fails in one of its steps. -/
theorem interpret_error (h : interpret m = .error e m') :
    ∃ n, step (m.stepped n) = .error e m' := by
  obtain ⟨n, -, hends⟩ := endsAfter_work m
  rcases hends.ends with ⟨report, -, hok⟩ | ⟨e', hstep, herr⟩
  · simp [hok] at h
  · obtain ⟨rfl, rfl⟩ := EStateM.Result.error.inj (herr.symm.trans h)
    exact ⟨n, hstep⟩

-- ---------------------------------------------------------------------------
-- Where a step looks
-- ---------------------------------------------------------------------------

/-- When the running frame is given up, the mark up to which its slots are cleared lies on the
stack. -/
theorem Marked.handOver {result : UInt8} {n : Nat} (h : m.Marked)
    (hx : handOver w result m = .ok n m₁) : m₁.Marked := by
  simp only [Machine.handOver, Op.bind_ok, getRegister_ok, setRegister_ok] at hx
  obtain ⟨value, _, ⟨-, rfl⟩, _, _, ⟨slot, hslot, rfl⟩, hclose⟩ := hx
  have hclosed := (h.store value (resolve_ok.mp hslot).2.2).change (.closeFrom w.base)
  rw [hclose] at hclosed
  exact hclosed

theorem size_snapshot (reason : StopReason) (hfit : w.finish ≤ m.stack.size) :
    (m.snapshot reason w).registers.size = w.size := by
  show (m.stack.extract w.base w.finish).size = w.size
  rw [Array.size_extract, Nat.min_eq_left hfit, Window.finish, Nat.add_sub_cancel_left]

/-- A report shows the whole window. -/
theorem Executes.size_registers (hx : Executes closure w m i (some report) m')
    (hfit : w.finish ≤ m.stack.size) : report.registers.size = w.size := by
  generalize hr : some report = stop at hx
  cases hx with
  | @ret _ value _ m₁ hvalue hbase hclose =>
    split at hr
    · obtain rfl := Option.some.inj hr
      obtain ⟨cells, rfl⟩ := closeFrom_ok hclose
      exact size_snapshot _ (by simpa using hfit)
    · simp at hr
  | halt =>
    obtain rfl := Option.some.inj hr
    exact size_snapshot _ hfit
  | _ => simp at hr

/-- On every machine that requests lead to, whatever code they load: the functions in registers
and closed cells, the closures of frames and the pending one are on the heap, and so are the code
and the cells of each closure. So neither a step nor a run ends in an internal fault, and a reset
succeeds, as long as there are no more cells than handles. A step that fetches finds the last
frame; a return clears no further than the stack reaches; a report shows a window that lies on
the stack; and a load that gets to its entry finds it among the prototypes. -/
theorem nothing_internal_fails {config : Config} {m : Machine} (h : Reachable config m) :
    (∀ (slot : Nat) closure, m.stack[slot]? = some (.function closure) →
      closure < m.heap.closures.size) ∧
    (∀ (r : CellRef) closure, m.heap.cells[r]? = some (.closed (.function closure)) →
      closure < m.heap.closures.size) ∧
    (∀ frame ∈ m.frames, frame.closure < m.heap.closures.size) ∧
    (∀ closure, m.pending = some closure → closure < m.heap.closures.size) ∧
    (∀ (closure : ClosureRef) c, m.heap.closures[closure]? = some c →
      c.code < m.heap.codes.size ∧ ∀ index r, c.slot? index = some r → r < m.heap.cells.size) ∧
    (∀ e m', step m = .error e m' → m.heap.cells.size ≤ handleSpace → ¬ e.Internal) ∧
    (∀ e m', interpret m = .error e m' → m'.heap.cells.size ≤ handleSpace → ¬ e.Internal) ∧
    (m.heap.cells.size ≤ handleSpace → ∃ m', reset m = .ok () m') ∧
    (∀ f, m.fetch = .ok f → m.frames[m.depth - 1]? = some f.frame) ∧
    (∀ f result n m₁, m.fetch = .ok f → f.instruction = .ret result →
      handOver f.window result (m.advance f) = .ok n m₁ → m₁.highWater ≤ m₁.stack.size) ∧
    (∀ report m', step m = .ok (some report) m' →
      ∃ f, m.fetch = .ok f ∧ f.window.finish ≤ m.stack.size ∧
        report.registers.size = f.window.size) ∧
    ∀ p e m', load p m = .error e m' →
      (m.heap.cells.size ≤ handleSpace → ¬ e.Internal) ∧
        ∀ index count, e ≠ .malformed (.unknownPrototype index count) := by
  have hlinked := h.linked
  refine ⟨fun _ _ hv => (hlinked.stack hv).exists_item,
    fun _ _ hr => (hlinked.cells hr).exists_item,
    fun frame hf => ?_, fun _ hp => (hlinked.pending hp).exists_item,
    fun _ _ hc => ⟨(hlinked.closures hc).code.exists_item,
      fun index r hr => ((hlinked.closures hc).cells index r hr).exists_item⟩,
    fun _ _ hs => step_error_not_internal h hs, fun e m' hi hsize => ?_,
    fun hsize => ⟨_, (h.tracked hsize).reset_eq⟩,
    fun f hf => ?_, fun f result n m₁ _ _ hx => ?_, fun report m' hs => ?_, fun p e m' hl => ?_⟩
  · obtain ⟨code, hcode, -⟩ := h.fitted.windows frame hf
    obtain ⟨c, hc, -⟩ := codeOf_ok.mp hcode
    exact (Array.getElem?_eq_some_iff.mp hc).1
  · obtain ⟨n, hs⟩ := interpret_error hi
    have hgrows := (step_changes (m.stepped n)).grows
    rw [hs, Outcome.machine_error] at hgrows
    exact step_error_not_internal (h.stepped n) hs (Nat.le_trans hgrows.cells hsize)
  · obtain ⟨code, hback, -⟩ := fetch_ok hf
    exact Array.back?_eq_getElem? ▸ hback
  · have hmark : (m.advance f).Marked := h.handled.marked.change (.control _ _)
    exact (hmark.handOver hx).mark
  · obtain ⟨f, hf, hx⟩ := step_ok hs
    have hfit := h.fitted.window hf
    exact ⟨f, hf, hfit, hx.size_registers hfit⟩
  · rcases load_error_cases h hl with hc | rfl | rfl | ⟨needed, capacity, rfl⟩
    · obtain ⟨r, rfl⟩ := hlinked.closing_error hc
      refine ⟨fun hsize => ?_, by simp⟩
      simp [(h.tracked hsize).closeFrom_eq] at hc
    · exact ⟨fun _ => nofun, by simp⟩
    · exact ⟨fun _ => nofun, by simp⟩
    · exact ⟨fun _ => nofun, by simp⟩

/-- A closure has made another one, which captured the register that it was put in, and has
returned it: so the closed cell holds the closure that it belongs to. The entry is about to
return it once more. -/
def returning : Machine :=
  ((ofConfig ⟨6, 3, true⟩).request (.load ⟨#[
    ⟨"main", 4, #[.makeFunction 1 1, .call 1 2 0, .ret 2]⟩,
    ⟨"knot", 2, #[.makeFunction 1 1, .bind 0 1, .ret 1]⟩], 0⟩)).stepped 5

theorem nothing_internal_fails_returning :
    returning.heap.cells[0]? = some (.closed (.function 2)) ∧ 2 < returning.heap.closures.size ∧
      (∀ e m', interpret returning = .error e m' → m'.heap.cells.size ≤ handleSpace →
        ¬ e.Internal) ∧
      ∃ report m' f, step returning = .ok (some report) m' ∧ returning.fetch = .ok f ∧
        f.instruction = .ret 2 ∧ report.registers.size = f.window.size := by
  have hreach : Reachable ⟨6, 3, true⟩ returning := (Reachable.new.request (.load _)).stepped 5
  have hcell : returning.heap.cells[0]? = some (.closed (.function 2)) := by decide +kernel
  have hfetch : returning.fetch = .ok ⟨⟨0, 2, 0⟩, ⟨0, 4⟩, .ret 2⟩ :=
    ok_of_toOption (by decide +kernel)
  have hstop : step returning = .ok
      (some ⟨.entryReturn, 0, #[.function 2, .function 1, .function 2, .uninitialized]⟩)
      (returning.request .step) := by decide +kernel
  obtain ⟨-, hcells, -, -, -, -, hrun, -, -, -, hreport, -⟩ := nothing_internal_fails hreach
  obtain ⟨f, hf, -, hsize⟩ := hreport _ _ hstop
  obtain rfl := Except.ok.inj (hfetch.symm.trans hf)
  exact ⟨hcell, hcells 0 2 hcell, hrun, _, _, _, hstop, hf, rfl, hsize⟩

end Machine

end ClosureMachine

import ClosureMachine.Proofs.Windows

/-!
# A failed step changes almost nothing

Most instructions check all that can fail before they change anything. A return stores its
result first, but then closing fails only on a machine that has run out of handles for cells;
and a `bind` captures first, but then the pending closure could not be missing. What is left is
a closure made for a register that turns out to lie outside the window. Even a return that fails
does not move the mark, which lies above the first slot of its window: `Machine.Reaching`.
-/

namespace ClosureMachine

namespace Machine

variable {config : Config} {m m' : Machine} {w : Window} {f : Fetched} {closure : ClosureRef}
  {i : Instruction} {e : Fault} {report : Option Report}

-- ---------------------------------------------------------------------------
-- The mark
-- ---------------------------------------------------------------------------

/-- A frame starts no lower than the frames below it. -/
theorem Nested.base_rises (h : m.Nested) {k : Nat} {a b : Frame} (ha : m.frames[k]? = some a)
    (d : Nat) (hb : m.frames[k + d]? = some b) : a.base ≤ b.base := by
  induction d generalizing b with
  | zero =>
    obtain rfl := Option.some.inj (ha.symm.trans hb)
    exact Nat.le.refl
  | succ d ih =>
    have hlt := (Array.getElem?_eq_some_iff.mp hb).1
    obtain ⟨c, hc⟩ : ∃ c, m.frames[k + d]? = some c :=
      ⟨_, Array.getElem?_eq_getElem (Nat.lt_of_succ_lt hlt)⟩
    obtain ⟨w, hw, hcovers⟩ := h.inside (k + d) c b hc hb
    obtain ⟨code, -, rfl⟩ := windowOf_ok.mp hw
    exact Nat.le_trans (ih hc) hcovers.1

theorem Nested.base_le (h : m.Nested) {frame top : Frame} (hf : frame ∈ m.frames)
    (htop : m.frames.back? = some top) : frame.base ≤ top.base := by
  obtain ⟨k, hk, rfl⟩ := Array.mem_iff_getElem.mp hf
  have hlast : m.frames[k + (m.frames.size - 1 - k)]? = some top := by
    rw [Nat.add_sub_cancel' (by omega), ← Array.back?_eq_getElem?, htop]
  exact h.base_rises (Array.getElem?_eq_getElem hk) _ hlast

/-- The mark lies above the first slot of every window that has one. -/
def Reaching (m : Machine) : Prop :=
  ∀ frame ∈ m.frames, ∀ w, m.windowOf frame = .ok w → 0 < w.size → w.base < m.highWater

/-- Frames that stay keep their windows. -/
theorem Reaching.kept (h : m.Reaching) (hfit : m.Fitted) (hc : Changes m m')
    (hframes : ∀ frame ∈ m'.frames, frame ∈ m.frames) (hmark : m.highWater ≤ m'.highWater) :
    m'.Reaching := by
  intro frame hf w' hw' hpos
  obtain ⟨w, hw, -⟩ := hfit.windowOf (hframes frame hf)
  obtain rfl := Except.ok.inj ((windowOf_changes hc hw).symm.trans hw')
  exact Nat.lt_of_lt_of_le (h frame (hframes frame hf) w hw hpos) hmark

theorem Reaching.advance (h : m.Reaching) (hf : m.fetch = .ok f) : (m.advance f).Reaching := by
  intro frame hframe w hw hpos
  obtain ⟨k, hk⟩ := Array.mem_iff_getElem?.mp hframe
  obtain ⟨old, hold, hclosure, hbase⟩ := advance_frame? hf hk
  rw [windowOf_advance hclosure hbase] at hw
  exact h old (Array.mem_of_getElem? hold) w hw hpos

theorem Reaching.executes (h : m.Reaching) (hn : m.Nested) (hfit : m.Fitted) {top : Frame}
    (htop : m.frames.back? = some top) (hw : m.windowOf top = .ok w)
    (hx : Executes closure w m i report m') : m'.Reaching := by
  have hc := hx.changes
  cases hx with
  | @call _ _ _ callee base code hcallee hbase hdepth hcode hentered =>
    intro frame hframe v hv hpos
    rcases Array.mem_push.mp hframe with hframe | rfl
    · obtain ⟨u, hu, -⟩ := hfit.windowOf hframe
      obtain rfl := Except.ok.inj ((windowOf_changes hc hu).symm.trans hv)
      exact Nat.lt_of_lt_of_le (h frame hframe u hu hpos) (Nat.le_max_left ..)
    · obtain ⟨code', hcode', rfl⟩ := windowOf_ok.mp hv
      obtain rfl := Except.ok.inj ((hc.codeOf_ok hcode).symm.trans hcode')
      exact Nat.lt_of_lt_of_le (Nat.lt_add_of_pos_right hpos) (Nat.le_max_right ..)
  | @ret result value n m₁ hvalue hbase hclose =>
    obtain ⟨code, -, rfl⟩ := windowOf_ok.mp hw
    obtain ⟨cells, rfl⟩ := closeFrom_ok hclose
    intro frame hframe v hv hpos
    rw [leave_frames] at hframe
    have hmem : frame ∈ m.frames := mem_of_mem_pop hframe
    have hle := hn.base_le hmem htop
    obtain ⟨u, hu, -⟩ := hfit.windowOf hmem
    obtain rfl := Except.ok.inj ((windowOf_changes hc hu).symm.trans hv)
    have hlt := h frame hmem u hu hpos
    obtain ⟨code', -, rfl⟩ := windowOf_ok.mp hu
    rw [leave_highWater]
    split
    · exact Nat.lt_succ_of_le hle
    · exact Nat.lt_of_lt_of_le hlt (Nat.le_max_left ..)
  | bind hpending hslot hbound =>
    exact h.kept hfit hc (fun _ hframe => by simpa [withBinding] using hframe)
      (by simp [withBinding])
  | _ =>
    exact h.kept hfit hc (fun _ hframe => hframe)
      (by simp [withClosure, rewritten, Nat.le_max_left])

theorem Reaching.closed (h : m.Reaching) (hfit : m.Fitted) :
    (Outcome.machine (closeFrom 0 m)).Reaching := by
  have hc := closeFrom_changes 0 m
  obtain ⟨cells, hm⟩ := closeFrom_machine 0 m
  rw [hm] at hc ⊢
  exact h.kept hfit hc (fun _ hframe => hframe) Nat.le.refl

theorem Faults.le_highWater (hx : Faults closure w m i e m') : m.highWater ≤ m'.highWater := by
  cases hx with
  | bindMissing hpending hslot hmissing => simp
  | @closing _ value _ _ hvalue hclose =>
    obtain ⟨cells, hm⟩ := closeFrom_machine w.base (m.store w.base value)
    rw [hclose, Outcome.machine_error] at hm
    rw [hm]
    exact Nat.le_max_left ..
  | _ => exact Nat.le.refl

end Machine

theorem Reachable.reaching {config : Config} {m : Machine} (h : Reachable config m) :
    m.Reaching := by
  refine h.invariant ?new (fun p m hr hm => ?load) (fun {m} hr hm => ?step) fun {m} hr hm => ?reset
  case new => exact fun _ hframe => by simp [Machine.ofConfig] at hframe
  case load =>
    rcases Machine.request_load_cases m p with ⟨-, hl⟩ | ⟨-, hl | hl | ⟨code, hcode, -, -, hl⟩⟩
    · rwa [hl]
    · rw [hl]
      exact hm.closed hr.fitted
    · rw [hl]
      exact fun _ hframe => by simp at hframe
    · rw [hl]
      intro frame hframe w hw hpos
      obtain rfl := Array.mem_singleton.mp hframe
      obtain ⟨code', hcode', rfl⟩ := Machine.windowOf_ok.mp hw
      obtain rfl := Except.ok.inj (hcode.symm.trans hcode')
      exact Nat.lt_of_lt_of_le hpos (Nat.le_max_right ..)
  case step =>
    rcases Machine.request_step_cases m with hs | ⟨f, hf, ⟨report, hx⟩ | ⟨e, hx⟩⟩
    · rwa [hs]
    · have hw := (Machine.windowOf_advance (f := f) rfl rfl).trans (Machine.fetch_window hf)
      exact (hm.advance hf).executes (hr.nested.advance hf) (hr.fitted.advance hf)
        Array.back?_push hw hx
    · exact (hm.advance hf).kept (hr.fitted.advance hf) hx.changes
        (fun _ hframe => hx.frames_eq ▸ hframe) hx.le_highWater
  case reset =>
    rcases Machine.request_reset_cases m with hc | hc
    · rw [hc]
      exact hm.closed hr.fitted
    · rw [hc]
      exact fun _ hframe => by simp [Machine.clear] at hframe

namespace Machine

variable {config : Config} {m m' : Machine} {w : Window} {f : Fetched} {closure : ClosureRef}
  {i : Instruction} {e : Fault}

-- ---------------------------------------------------------------------------
-- Failures
-- ---------------------------------------------------------------------------

/-- The fetched instruction makes a closure over `code` for a register outside the window. -/
inductive Strands (m : Machine) (f : Fetched) (code : CodeRef) : Prop
  | intro {target : UInt8} {index : UInt16} (hi : f.instruction = .makeFunction target index)
      (hcode : m.prototypes[index.toNat]? = some code) (htarget : f.window.size ≤ target.toNat)

/-- Of the instructions that fail, only `makeFunction` can have done something, and a return that
closes a cell twice. -/
theorem Faults.machine_eq (hx : Faults closure w m i e m') (hl : m.Linked)
    (hi : ∀ target index, i ≠ .makeFunction target index) (he : ∀ r, e ≠ .doubleClose r) :
    m' = m := by
  cases hx with
  | closureRegister hcode hslot => exact absurd rfl (hi _ _)
  | bindMissing hpending hslot hmissing =>
    exact absurd (hl.pending hpending).exists_item (Nat.not_lt.mpr hmissing)
  | closing hvalue hclose =>
    obtain ⟨r, hr⟩ := (hl.store w.base (hl.register hvalue)).closing_error hclose
    exact absurd hr (he r)
  | _ => rfl

/-- A return that fails has changed nothing, or it has stored its result and closed cells. -/
theorem Faults.ret_machine {result : UInt8} (hx : Faults closure w m (.ret result) e m')
    (hmark : 0 < w.size → w.base < m.highWater) : ∃ stack cells openCells,
      m' = { m with stack, heap := { m.heap with cells }, openCells } := by
  cases hx with
  | register hreg hslot => exact ⟨m.stack, m.heap.cells, m.openCells, rfl⟩
  | @closing _ value _ _ hvalue hclose =>
    obtain ⟨slot, hslot, -⟩ := register_ok.mp hvalue
    have hlt := hmark (Nat.zero_lt_of_lt (resolve_ok.mp hslot).1)
    obtain ⟨cells, hm⟩ := closeFrom_machine w.base (m.store w.base value)
    rw [hclose, Outcome.machine_error] at hm
    refine ⟨(m.store w.base value).stack, cells, m.openCells.below w.base, ?_⟩
    have hkept : max m.highWater (w.base + 1) = m.highWater := Nat.max_eq_left hlt
    rw [hm]
    simp only [store, hkept]

theorem le_of_resolve_error {reg : UInt8} (hfit : w.finish ≤ m.stack.size)
    (h : m.resolve w reg = .error e) : w.size ≤ reg.toNat := by
  refine Nat.le_of_not_lt fun hreg => ?_
  obtain ⟨slot, hslot⟩ := resolve_of_lt hreg hfit
  simp [hslot] at h

/-- A `makeFunction` fails for want of its prototype, and then does nothing, or for its register,
and then the closure stays. -/
theorem failed_makeFunction {target : UInt8} {index : UInt16}
    (hfit : f.window.finish ≤ m.stack.size) (hi : f.instruction = .makeFunction target index)
    (hx : execute closure f.window f.instruction (m.advance f) = .error e m') :
    (∃ code, m.Strands f code ∧ m' = (m.advance f).withClosure code) ∨
      (∀ code, ¬ m.Strands f code) ∧ m' = m.advance f := by
  simp only [hi, execute, Op.bind_error, Op.pure_error, makeFunction_error, prototype_error,
    and_false, exists_false, or_false] at hx
  rcases hx with ⟨⟨hnone, -⟩, rfl⟩ | ⟨code, hcode, hslot, rfl⟩
  · refine .inr ⟨?_, rfl⟩
    rintro code ⟨hi', hcode, -⟩
    obtain ⟨rfl, rfl⟩ := Instruction.makeFunction.inj (hi.symm.trans hi')
    simpa using hnone.symm.trans hcode
  · exact .inl ⟨code, ⟨hi, hcode, le_of_resolve_error (m := m.advance f) hfit hslot⟩, rfl⟩

/-- A step that fails has fetched nothing and changed nothing, or it has moved past the
instruction, with a closure stranded, with nothing else done, or in the middle of a return. -/
theorem failed_step_cases (h : Reachable config m) (hs : step m = .error e m') :
    (m.fetch = .error e ∧ m' = m) ∨ ∃ f, m.fetch = .ok f ∧
      ((∃ code, m.Strands f code ∧ m' = (m.advance f).withClosure code) ∨
        (∀ code, ¬ m.Strands f code) ∧ (m' = m.advance f ∨
          ∃ result r stack cells openCells, f.instruction = .ret result ∧ e = .doubleClose r ∧
            handleSpace < m.heap.cells.size ∧
            m' = { m.advance f with stack, heap := { m.heap with cells }, openCells })) := by
  rcases step_error hs with hnone | ⟨f, hf, hx⟩
  · exact .inl hnone
  refine .inr ⟨f, hf, ?_⟩
  by_cases hi : ∃ target index, f.instruction = .makeFunction target index
  · obtain ⟨target, index, hi⟩ := hi
    rw [step, hf] at hs
    exact (failed_makeFunction (h.fitted.window hf) hi hs).imp_right (.imp_right .inl)
  have hno : ∀ target index, f.instruction ≠ .makeFunction target index :=
    fun target index hmake => hi ⟨target, index, hmake⟩
  have hunstranded : ∀ code, ¬ m.Strands f code := by
    rintro code ⟨hmake, -, -⟩
    exact hno _ _ hmake
  refine .inr ⟨hunstranded, ?_⟩
  by_cases he : ∃ r, e = .doubleClose r
  · obtain ⟨r, rfl⟩ := he
    obtain ⟨f', result, _, hf', hret, -, hsize⟩ := h.internal_fault hs (.doubleClose r)
    obtain rfl := Except.ok.inj (hf.symm.trans hf')
    have hmark : 0 < f.window.size → f.window.base < m.highWater := by
      obtain ⟨_, hback, -⟩ := fetch_ok hf
      exact h.reaching _ (Array.mem_of_back? hback) _ (fetch_window hf)
    obtain ⟨stack, cells, openCells, hm⟩ := (hret ▸ hx).ret_machine hmark
    exact .inr ⟨result, r, stack, cells, openCells, hret, rfl, hsize, hm⟩
  · exact .inl (hx.machine_eq (h.linked.advance f) hno (not_exists.mp he))

/-- On a machine that requests lead to, nothing is fetched only where there is no frame or the
top frame is past the end of its code. -/
theorem Fitted.fetch_error (h : m.Fitted) (hf : m.fetch = .error e) :
    m.frames = #[] ∨ ∃ frame code, m.frames.back? = some frame ∧
      m.codeOf frame.closure = .ok code ∧ code.instructions.size ≤ frame.ip := by
  rcases Machine.fetch_error hf with ⟨hnone, -⟩ | ⟨frame, hback, hcode | ⟨code, hcode, hend, -⟩⟩
  · exact .inl (by simpa using hnone)
  · obtain ⟨code, hok, -⟩ := h.windows frame (Array.mem_of_back? hback)
    simp [hok] at hcode
  · exact .inr ⟨frame, code, hback, hcode, by simpa using hend⟩

/-- Whatever code was loaded, a step that fails leaves the stack, the open cells and every cell
as they are, unless it is a return that finds a cell closed already, which takes more cells than
there are handles. The mark, the code and the closures that were there stay in any case. If there
was no instruction to fetch, the machine is the same. Otherwise the top frame has moved on by one
instruction, and no closure is pending unless the instruction is a `bind`. The one thing that can
have been added is a closure that has captured nothing, made for a register outside the window. -/
theorem failed_step_keeps {config : Config} {m m' : Machine} {e : Fault} (h : Reachable config m)
    (hs : step m = .error e m') :
    (m'.stack = m.stack ∧ m'.openCells = m.openCells ∧ m'.heap.cells = m.heap.cells ∨
      ∃ f result r, m.fetch = .ok f ∧ f.instruction = .ret result ∧ e = .doubleClose r ∧
        handleSpace < m.heap.cells.size) ∧
    m'.highWater = m.highWater ∧ m'.heap.codes = m.heap.codes ∧ m'.prototypes = m.prototypes ∧
    m'.config = m.config ∧
    (∀ (closure : ClosureRef) c, m.heap.closures[closure]? = some c →
      m'.heap.closures[closure]? = some c) ∧
    ((m.frames = #[] ∨ ∃ frame code, m.frames.back? = some frame ∧
        m.codeOf frame.closure = .ok code ∧ code.instructions.size ≤ frame.ip) ∧ m' = m ∨
      ∃ f, m.fetch = .ok f ∧ m.frames.back? = some f.frame ∧
        m'.frames = m.frames.pop.push { f.frame with ip := f.frame.ip + 1 } ∧
        m'.pending = (if f.instruction.isBind then m.pending else none) ∧
        ((∃ code, m.Strands f code ∧ m'.heap.closures = m.heap.closures.push ⟨code, #[]⟩) ∨
          (∀ code, ¬ m.Strands f code) ∧ m'.heap.closures = m.heap.closures)) := by
  rcases failed_step_cases h hs with ⟨hf, rfl⟩ | ⟨f, hf, hleft⟩
  · exact ⟨.inl ⟨rfl, rfl, rfl⟩, rfl, rfl, rfl, rfl, fun _ _ hc => hc,
      .inl ⟨h.fitted.fetch_error hf, rfl⟩⟩
  obtain ⟨_, hback, -⟩ := fetch_ok hf
  rcases hleft with
    ⟨code, hstrands, rfl⟩ | ⟨hnone, rfl | ⟨result, r, stack, cells, openCells, hret⟩⟩
  · refine ⟨.inl ⟨rfl, rfl, rfl⟩, rfl, rfl, rfl, rfl, fun closure c hc => ?_,
      .inr ⟨f, hf, hback, rfl, rfl, .inl ⟨code, hstrands, rfl⟩⟩⟩
    show (m.heap.closures.push _)[closure]? = some c
    have hlt := (Array.getElem?_eq_some_iff.mp hc).1
    rw [Array.getElem?_push, if_neg (Nat.ne_of_lt hlt), hc]
  · exact ⟨.inl ⟨rfl, rfl, rfl⟩, rfl, rfl, rfl, rfl, fun _ _ hc => hc,
      .inr ⟨f, hf, hback, rfl, rfl, .inr ⟨hnone, rfl⟩⟩⟩
  · obtain ⟨hi, rfl, hsize, rfl⟩ := hret
    exact ⟨.inr ⟨f, result, r, hf, hi, rfl, hsize⟩, rfl, rfl, rfl, rfl, fun _ _ hc => hc,
      .inr ⟨f, hf, hback, rfl, rfl, .inr ⟨hnone, rfl⟩⟩⟩

/-- A machine with a closure pending and its cell open, about to make another closure for a
register that it does not have. -/
def stranding : Machine :=
  ((ofConfig ⟨4, 2, true⟩).request (.load ⟨#[⟨"main", 2, #[.loadConstant 0 ⟨7⟩, .makeFunction 1 0,
    .bind 0 0, .makeFunction 5 0, .halt]⟩], 0⟩)).stepped 3

theorem failed_step_keeps_stranding :
    step stranding = .error (.registerOutOfBounds 5 2) (stranding.request .step) ∧
      stranding.pending = some 1 ∧ (stranding.request .step).pending = none ∧
      (stranding.request .step).frames = #[⟨0, 4, 0⟩] ∧
      (stranding.request .step).stack = stranding.stack ∧
      (stranding.request .step).heap.cells = #[.opened 0] ∧
      (stranding.request .step).heap.closures = #[⟨0, #[]⟩, ⟨0, #[some 0]⟩, ⟨0, #[]⟩] := by
  have hreach : Reachable ⟨4, 2, true⟩ stranding := (Reachable.new.request (.load _)).stepped 3
  have hs : step stranding = .error (.registerOutOfBounds 5 2) (stranding.request .step) := by
    decide +kernel
  have hfetch : stranding.fetch = .ok ⟨⟨0, 3, 0⟩, ⟨0, 2⟩, .makeFunction 5 0⟩ :=
    ok_of_toOption (by decide +kernel)
  have hframes : stranding.frames = #[⟨0, 3, 0⟩] := by decide +kernel
  have hcells : stranding.heap.cells = #[.opened 0] := by decide +kernel
  have hclosures : stranding.heap.closures = #[⟨0, #[]⟩, ⟨0, #[some 0]⟩] := by decide +kernel
  have hstrands : stranding.Strands ⟨⟨0, 3, 0⟩, ⟨0, 2⟩, .makeFunction 5 0⟩ 0 :=
    ⟨rfl, by decide +kernel, by decide⟩
  obtain ⟨hkept, -, -, -, -, -, hleft⟩ := failed_step_keeps hreach hs
  obtain ⟨hstack, -, hcells'⟩ := hkept.resolve_right (by simp)
  rcases hleft with ⟨-, hsame⟩ | ⟨f, hf, -, hframes', hpending', hadded⟩
  · have hmoved : stranding.request .step ≠ stranding := by decide +kernel
    exact absurd hsame hmoved
  · obtain rfl := Except.ok.inj (hfetch.symm.trans hf)
    refine ⟨hs, by decide +kernel, hpending', ?_, hstack, hcells'.trans hcells, ?_⟩
    · rw [hframes', hframes]
      rfl
    · rcases hadded with ⟨code, ⟨hi, hcode, -⟩, hpushed⟩ | ⟨hnone, -⟩
      · obtain ⟨-, rfl⟩ := Instruction.makeFunction.inj hi
        have hzero : stranding.prototypes[(0 : UInt16).toNat]? = some 0 := by decide +kernel
        obtain rfl := Option.some.inj (hzero.symm.trans hcode)
        rw [hpushed, hclosures]
        rfl
      · exact absurd hstrands (hnone 0)

/-- Where there are more cells than handles, a return can fail when it has written its result and
stopped tracking a slot. -/
theorem failed_return_has_written : ∃ n e m', step (exhaustion.stepped n) = .error e m' ∧
    (exhaustion.stepped n).stackAt 0 = .function 1 ∧ m'.stackAt 0 = .uninitialized ∧
    (exhaustion.stepped n).openCells.entries = [(1, 0)] ∧ m'.openCells.entries = [] := by
  obtain ⟨n, h⟩ := exists_severed
  obtain ⟨hs, hwritten, hreused⟩ := h.step_eq
  exact ⟨n, _, _, hs, h.zero, hwritten, h.tracked, hreused.tracked⟩

end Machine

end ClosureMachine

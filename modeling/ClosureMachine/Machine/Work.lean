import ClosureMachine.Machine.Step

/-!
# The work left to do

Frames only move forward through their code, and a call needs room below the frame limit.
So the frames, read as the digits of a number with what each has left to run, form a
quantity that every step makes smaller: `step_work_lt`.
-/

namespace ClosureMachine

/-- The two machines agree on frames, code and configuration. -/
structure SameControl (m m' : Machine) : Prop where
  frames : m'.frames = m.frames
  codes : m'.heap.codes = m.heap.codes
  config : m'.config = m.config

namespace SameControl

theorem refl (m : Machine) : SameControl m m := ⟨rfl, rfl, rfl⟩

theorem trans (a b c : Machine) (h : SameControl a b) (h' : SameControl b c) :
    SameControl a c :=
  ⟨h'.frames.trans h.frames, h'.codes.trans h.codes, h'.config.trans h.config⟩

end SameControl

namespace Machine

/-- An operation that leaves frames, code and configuration alone. -/
abbrev KeepsControl {α : Type} (x : Op α) : Prop := Op.Ensures x SameControl

section Keeps

variable {α β : Type}

theorem KeepsControl.ask (query : Machine → Except Fault α) : KeepsControl (Op.ask query) :=
  Op.Ensures.ask SameControl.refl query

theorem KeepsControl.bind {x : Op α} {f : α → Op β} (hx : KeepsControl x)
    (hf : ∀ a, KeepsControl (f a)) : KeepsControl (x >>= f) :=
  Op.Ensures.bind SameControl.trans hx hf

theorem setRegister_keepsControl (w : Window) (reg : UInt8) (value : Value) :
    KeepsControl (setRegister w reg value) := by
  intro m
  unfold setRegister
  split <;> exact ⟨rfl, rfl, rfl⟩

theorem addRegisters_keepsControl (w : Window) (target left right : UInt8) :
    KeepsControl (addRegisters w target left right) :=
  .bind (.ask _) fun _ => .bind (.ask _) fun _ => .bind (.ask _) fun _ =>
    setRegister_keepsControl w target _

theorem copyRegister_keepsControl (w : Window) (target source : UInt8) :
    KeepsControl (copyRegister w target source) :=
  .bind (.ask _) fun _ => setRegister_keepsControl w target _

theorem makeFunction_keepsControl (w : Window) (target : UInt8) (index : UInt16) :
    KeepsControl (makeFunction w target index) :=
  .bind (.ask _) fun _ => .bind (fun _ => ⟨rfl, rfl, rfl⟩) fun _ =>
    .bind (setRegister_keepsControl w target _) fun _ => fun _ => ⟨rfl, rfl, rfl⟩

theorem capture_keepsControl (slot : Nat) : KeepsControl (capture slot) := by
  intro m
  unfold capture
  split <;> exact ⟨rfl, rfl, rfl⟩

theorem bindSlot_keepsControl (closure : ClosureRef) (index : UInt8) (cell : CellRef) :
    KeepsControl (bindSlot closure index cell) := by
  intro m
  unfold bindSlot
  split <;> exact ⟨rfl, rfl, rfl⟩

theorem bindUpvalue_keepsControl (w : Window) (index offset : UInt8) :
    KeepsControl (bindUpvalue w index offset) :=
  .bind (.ask _) fun _ => .bind (.ask _) fun _ => .bind (capture_keepsControl _) fun _ =>
    bindSlot_keepsControl _ index _

theorem setUpvalue_keepsControl (closure : ClosureRef) (index : UInt8) (value : Value) :
    KeepsControl (setUpvalue closure index value) := by
  intro m
  unfold setUpvalue
  split
  · exact ⟨rfl, rfl, rfl⟩
  · exact ⟨rfl, rfl, rfl⟩
  · split <;> exact ⟨rfl, rfl, rfl⟩

theorem closeEntries_keepsControl (entries : List OpenEntry) :
    KeepsControl (closeEntries entries) := by
  induction entries with
  | nil => exact fun _ => ⟨rfl, rfl, rfl⟩
  | cons e rest ih =>
    intro m
    unfold closeEntries
    split
    · exact ⟨rfl, rfl, rfl⟩
    · exact ⟨rfl, rfl, rfl⟩
    · exact SameControl.trans _
        { m with heap := m.heap.setCell e.2 (.closed (m.stackAt e.1)) } _ ⟨rfl, rfl, rfl⟩ (ih _)

theorem closeFrom_keepsControl (start : Nat) : KeepsControl (closeFrom start) := by
  intro m
  have h := closeEntries_keepsControl (m.openCells.entriesFrom start)
    { m with openCells := m.openCells.below start }
  simp only [closeFrom]
  split <;> next he => rw [he] at h; exact ⟨h.frames, h.codes, h.config⟩

end Keeps

/-- How a step that does not stop the machine changes the frames. -/
inductive FrameChange (m m' : Machine) : Prop
  | stay (frames : m'.frames = m.frames)
  | push (closure : ClosureRef) (base : Nat)
      (frames : m'.frames = m.frames.push ⟨closure, 0, base⟩)
      (room : m.depth < m.config.maxFrames)
  | pop (frames : m'.frames = m.frames.pop)

/-- What a successful instruction does to frames, code and configuration. -/
structure Moves (m m' : Machine) : Prop where
  frames : FrameChange m m'
  codes : m'.heap.codes = m.heap.codes
  config : m'.config = m.config

theorem Moves.of_sameControl {m m' : Machine} (h : SameControl m m') : Moves m m' :=
  ⟨.stay h.frames, h.codes, h.config⟩

theorem moves_of_then_none {x : Op Unit} (hx : KeepsControl x) {m m' : Machine} {r : Option Report}
    (h : (x >>= fun _ => pure r) m = .ok none m') : Moves m m' := by
  have hk := hx m
  rw [Op.bind_apply] at h
  split at h
  · next he =>
    rw [he] at hk
    simp only [Op.pure_apply, EStateM.Result.ok.injEq] at h
    exact h.2 ▸ .of_sameControl hk
  · simp at h

theorem call_moves {w : Window} {function argBase : UInt8} {m m' : Machine}
    (h : call w function argBase m = .ok () m') : Moves m m' := by
  simp only [call, Op.bind_apply, Op.ask] at h
  cases hc : m.callee w function argBase with
  | error e => simp [hc] at h
  | ok target =>
    obtain ⟨closure, base⟩ := target
    simp only [hc, pushFrame] at h
    split at h
    · simp at h
    · next v hv =>
      simp only [EStateM.Result.ok.injEq, true_and] at h
      subst h
      refine ⟨.push closure base rfl ?_, rfl, rfl⟩
      simp only [windowFor] at hv
      split at hv
      · simp at hv
      · omega

theorem handOver_keepsControl (w : Window) (result : UInt8) : KeepsControl (handOver w result) :=
  .bind (.ask _) fun _ => .bind (setRegister_keepsControl w 0 _) fun _ =>
    closeFrom_keepsControl w.base

theorem leave_frames (m : Machine) (w : Window) : (m.leave w).frames = m.frames.pop := by
  unfold leave
  split <;> rfl

theorem leave_codes (m : Machine) (w : Window) : (m.leave w).heap.codes = m.heap.codes := by
  unfold leave
  split <;> rfl

theorem leave_config (m : Machine) (w : Window) : (m.leave w).config = m.config := by
  unfold leave
  split <;> rfl

theorem returnFrom_moves {w : Window} {result : UInt8} {m m' : Machine} {r : Option Report}
    (h : returnFrom w result m = .ok r m') : Moves m m' := by
  have hk := handOver_keepsControl w result m
  rw [returnFrom, Op.bind_apply] at h
  split at h
  · next n m₁ he =>
    rw [he] at hk
    have hk : SameControl m m₁ := hk
    simp only [popFrame, EStateM.Result.ok.injEq] at h
    obtain ⟨-, rfl⟩ := h
    refine ⟨.pop ?_, (leave_codes m₁ w).trans hk.codes, (leave_config m₁ w).trans hk.config⟩
    rw [leave_frames, hk.frames]
  · simp at h

theorem execute_moves {closure : ClosureRef} {w : Window} {i : Instruction} {m m' : Machine}
    (h : execute closure w i m = .ok none m') : Moves m m' := by
  cases i with
  | makeFunction target code => exact moves_of_then_none (makeFunction_keepsControl w target code) h
  | bind index offset => exact moves_of_then_none (bindUpvalue_keepsControl w index offset) h
  | add target left right =>
    exact moves_of_then_none (addRegisters_keepsControl w target left right) h
  | ret result => exact returnFrom_moves h
  | getUpvalue target index =>
    have hk : KeepsControl (do
        let value ← getUpvalue closure index
        setRegister w target value) :=
      .bind (.ask _) fun _ => setRegister_keepsControl w target _
    refine moves_of_then_none hk (r := none) ?_
    rw [← h, execute, bind_assoc]
  | setUpvalue source index =>
    have hk : KeepsControl (do
        let value ← getRegister w source
        setUpvalue closure index value) :=
      .bind (.ask _) fun _ => setUpvalue_keepsControl closure index _
    refine moves_of_then_none hk (r := none) ?_
    rw [← h, execute, bind_assoc]
  | loadConstant target value => exact moves_of_then_none (setRegister_keepsControl w target _) h
  | call function argBase count =>
    simp only [execute, Op.bind_apply] at h
    cases hc : Machine.call w function argBase m with
    | error e m₁ => simp [hc] at h
    | ok u m₁ =>
      simp only [hc, Op.pure_apply, EStateM.Result.ok.injEq, true_and] at h
      exact h ▸ call_moves hc
  | copy target source => exact moves_of_then_none (copyRegister_keepsControl w target source) h
  | halt => simp [execute] at h

/-- The length of the longest code. -/
def longest : List CodeObject → Nat
  | [] => 0
  | code :: rest => max code.instructions.size (longest rest)

theorem size_le_longest {codes : List CodeObject} {code : CodeObject} (h : code ∈ codes) :
    code.instructions.size ≤ longest codes := by
  induction codes with
  | nil => simp at h
  | cons c rest ih =>
    rcases List.mem_cons.mp h with rfl | h
    · exact Nat.le_max_left ..
    · exact Nat.le_trans (ih h) (Nat.le_max_right ..)

/-- What a frame has left to run in code of at most `longest` instructions. -/
def remaining (longest : Nat) (f : Frame) : Nat := longest + 1 - f.ip

/-- The frames as digits of a number, the entry frame first. -/
def weight (longest : Nat) (frames : Array Frame) : Nat :=
  frames.foldl (fun acc f => acc * (longest + 2) + remaining longest f) 0

theorem weight_push (longest : Nat) (frames : Array Frame) (f : Frame) :
    weight longest (frames.push f) =
      weight longest frames * (longest + 2) + remaining longest f := by
  simp [weight]

/-- How many numbers `n` digits can write. -/
def digitSpace (base : Nat) : (n : Nat) → Nat
  | 0 => 1
  | n + 1 => base * digitSpace base n

theorem digitSpace_pos {base : Nat} (h : 0 < base) (n : Nat) : 0 < digitSpace base n := by
  induction n with
  | zero => exact Nat.one_pos
  | succ n ih => exact Nat.mul_pos h ih

/-- The frames as a number of `maxFrames` digits: those not in use follow as zeros. -/
def work (m : Machine) : Nat :=
  let l := longest m.heap.codes.toList
  weight l m.frames * digitSpace (l + 2) (m.config.maxFrames - m.depth)

theorem codeOf_mem {m : Machine} {closure : ClosureRef} {code : CodeObject}
    (h : m.codeOf closure = .ok code) : code ∈ m.heap.codes.toList := by
  unfold codeOf at h
  split at h
  · simp at h
  · split at h
    · simp at h
    · next he =>
      simp only [Except.ok.injEq] at h
      subst h
      exact Array.mem_toList_iff.mpr (Array.mem_of_getElem? he)

/-- A fetched instruction belongs to the top frame, and stands in code on the heap. -/
theorem fetch_spec {m : Machine} {f : Fetched} (h : m.fetch = .ok f) :
    m.frames.back? = some f.frame ∧ f.frame.ip < longest m.heap.codes.toList := by
  unfold fetch at h
  split at h
  · simp at h
  · next frame hb =>
    split at h
    · simp at h
    · next code hc =>
      split at h
      · simp at h
      · next i hi =>
        simp only [Except.ok.injEq] at h
        subst h
        obtain ⟨hlt, -⟩ := Array.getElem?_eq_some_iff.mp hi
        exact ⟨hb, Nat.lt_of_lt_of_le hlt (size_le_longest (codeOf_mem hc))⟩

theorem frames_eq_push {frames : Array Frame} {top : Frame} (h : frames.back? = some top) :
    frames = frames.pop.push top := by
  obtain ⟨rest, rfl⟩ := Array.back?_eq_some_iff.mp h
  simp

theorem step_work_lt {m m' : Machine} (h : step m = .ok none m') : m'.work < m.work := by
  unfold step at h
  split at h
  · simp at h
  · next f hf =>
    obtain ⟨htop, hip⟩ := fetch_spec hf
    obtain ⟨hframes, hcodes, hconfig⟩ := execute_moves h
    have hm := frames_eq_push htop
    generalize hrest : m.frames.pop = rest at hm
    have hcodes : m'.heap.codes = m.heap.codes := hcodes
    have hconfig : m'.config = m.config := hconfig
    have hadv : (m.advance f).frames = rest.push { f.frame with ip := f.frame.ip + 1 } := by
      simp [advance, hrest]
    unfold work
    simp only [depth, hcodes, hconfig]
    generalize longest m.heap.codes.toList = l at hip ⊢
    rw [hm, weight_push, Array.size_push]
    have hpos : ∀ n, 0 < digitSpace (l + 2) n := digitSpace_pos (by omega)
    have hrem : remaining l { f.frame with ip := f.frame.ip + 1 } + 1 = remaining l f.frame := by
      simp only [remaining]
      omega
    cases hframes with
    | stay he =>
      rw [he, hadv, weight_push, Array.size_push]
      exact Nat.mul_lt_mul_of_pos_right (by omega) (hpos _)
    | push c b he room =>
      rw [he, hadv, weight_push, weight_push, Array.size_push, Array.size_push]
      have room : rest.size + 1 < m.config.maxFrames := by
        simpa [depth, advance, hrest] using room
      obtain ⟨k, hk⟩ : ∃ k, m.config.maxFrames - (rest.size + 1) = k + 1 :=
        ⟨m.config.maxFrames - (rest.size + 1 + 1), by omega⟩
      have hk' : m.config.maxFrames - (rest.size + 1 + 1) = k := by omega
      rw [hk, hk', digitSpace, ← Nat.mul_assoc]
      apply Nat.mul_lt_mul_of_pos_right _ (hpos _)
      have hnew : remaining l ⟨c, 0, b⟩ = l + 1 := by simp [remaining]
      have carry : ∀ x, x * (l + 2) + (l + 1) < (x + 1) * (l + 2) := fun x => by
        rw [Nat.succ_mul]
        omega
      rw [hnew, ← hrem]
      exact carry _
    | pop he =>
      rw [he, hadv, Array.pop_push]
      by_cases hd : rest.size < m.config.maxFrames
      · obtain ⟨k, hk⟩ : ∃ k, m.config.maxFrames - rest.size = k + 1 :=
          ⟨m.config.maxFrames - (rest.size + 1), by omega⟩
        have hk' : m.config.maxFrames - (rest.size + 1) = k := by omega
        rw [hk, hk', digitSpace, ← Nat.mul_assoc]
        exact Nat.mul_lt_mul_of_pos_right (by omega) (hpos _)
      · have h0 : m.config.maxFrames - rest.size = 0 := by omega
        have h1 : m.config.maxFrames - (rest.size + 1) = 0 := by omega
        rw [h0, h1, digitSpace, Nat.mul_one, Nat.mul_one]
        have : weight l rest ≤ weight l rest * (l + 2) := Nat.le_mul_of_pos_right _ (by omega)
        omega

end Machine

end ClosureMachine

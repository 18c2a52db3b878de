import Mathlib.Algebra.Group.Nat.Defs
import ClosureMachine.Proofs.StackDiscipline

/-!
# Every run ends

A step that goes on lowers the work left to do, so a run is a finite number of such steps and
one that stops the machine or fails. The work is a number written with one digit for each frame
that the limit admits, which bounds the length of a run by the longest code and the limit alone:
it does not matter how closures call each other.
-/

namespace ClosureMachine

namespace Machine

-- ---------------------------------------------------------------------------
-- The work is bounded
-- ---------------------------------------------------------------------------

theorem digitSpace_eq_pow (base n : Nat) : digitSpace base n = base ^ n := by
  induction n with
  | zero => rfl
  | succ n ih => rw [digitSpace, ih, Nat.pow_succ, Nat.mul_comm]

theorem weight_lt (l : Nat) (frames : Array Frame) : weight l frames < (l + 2) ^ frames.size := by
  induction hn : frames.size generalizing frames with
  | zero =>
    obtain rfl := Array.size_eq_zero_iff.mp hn
    simp [weight]
  | succ n ih =>
    obtain ⟨rest, top, rfl⟩ := Array.exists_push_of_size_eq_add_one hn
    have hrest : weight l rest + 1 ≤ (l + 2) ^ n := ih rest (by simpa using hn)
    -- The top frame is one more digit, which is at most `l + 1`.
    have hdigit : remaining l top < l + 2 := by
      simp only [remaining]
      omega
    calc weight l (rest.push top) = weight l rest * (l + 2) + remaining l top := weight_push ..
      _ < (weight l rest + 1) * (l + 2) := by rw [Nat.succ_mul]; omega
      _ ≤ (l + 2) ^ n * (l + 2) := Nat.mul_le_mul_right _ hrest

theorem work_lt {m : Machine} (h : m.depth ≤ m.config.maxFrames) :
    m.work < (longest m.heap.codes.toList + 2) ^ m.config.maxFrames := by
  simp only [work, digitSpace_eq_pow]
  generalize longest m.heap.codes.toList = l
  calc weight l m.frames * (l + 2) ^ (m.config.maxFrames - m.depth)
      < (l + 2) ^ m.depth * (l + 2) ^ (m.config.maxFrames - m.depth) :=
        Nat.mul_lt_mul_of_pos_right (weight_lt l m.frames) (Nat.pow_pos (by omega))
    _ = (l + 2) ^ m.config.maxFrames := by rw [← Nat.pow_add, Nat.add_sub_cancel' h]

variable {m : Machine}

-- ---------------------------------------------------------------------------
-- No more frames than the limit
-- ---------------------------------------------------------------------------

theorem depth_request_step (h : m.depth ≤ m.config.maxFrames) :
    (m.request .step).depth ≤ m.config.maxFrames := by
  rcases request_step_cases m with hs | ⟨f, hf, ⟨report, hx⟩ | ⟨e, hx⟩⟩
  · rw [hs]
    exact h
  · rw [← advance_depth hf] at h
    simp only [depth] at h ⊢
    rcases hx.frames_cases with hframes | ⟨_, _, _, hframes, -, -, hdepth, -⟩ | ⟨-, hframes⟩
    · rw [hframes]
      exact h
    · rw [hframes, Array.size_push]
      exact hdepth
    · rw [hframes, Array.size_pop]
      omega
  · rw [← advance_depth hf] at h
    simpa only [depth, hx.frames_eq] using h

theorem depth_closeFrom (start : Nat) (m : Machine) :
    (Outcome.machine (closeFrom start m)).depth = m.depth := by
  obtain ⟨cells, hm⟩ := closeFrom_machine start m
  rw [hm]
  rfl

theorem depth_request_load (p : Program) (h : m.depth ≤ m.config.maxFrames) :
    (m.request (.load p)).depth ≤ m.config.maxFrames := by
  rcases request_load_cases m p with ⟨-, hl⟩ | ⟨-, hl | hl | ⟨code, -, hframes, -, hl⟩⟩
  · rw [hl]
    exact h
  · rw [hl, depth_closeFrom]
    exact h
  · simp [hl, depth]
  · simp only [hl, depth, entered, staged_frames]
    exact hframes

theorem depth_request_reset (h : m.depth ≤ m.config.maxFrames) :
    (m.request .reset).depth ≤ m.config.maxFrames := by
  rcases request_reset_cases m with hr | hr
  · rw [hr, depth_closeFrom]
    exact h
  · rw [hr]
    exact Nat.zero_le _

end Machine

theorem Reachable.depth_le {config : Config} {m : Machine} (h : Reachable config m) :
    m.depth ≤ config.maxFrames := by
  have hconfig : ∀ {m}, Reachable config m → m.config = config := fun hr => hr.handled.config_eq
  refine h.invariant (I := fun m => m.depth ≤ config.maxFrames) (Nat.zero_le _) ?_ ?_ ?_
  · intro p m hr hm
    rw [← hconfig hr] at hm ⊢
    exact Machine.depth_request_load p hm
  · intro m hr hm
    rw [← hconfig hr] at hm ⊢
    exact Machine.depth_request_step hm
  · intro m hr hm
    rw [← hconfig hr] at hm ⊢
    exact Machine.depth_request_reset hm

namespace Machine

variable {m : Machine}

-- ---------------------------------------------------------------------------
-- Runs
-- ---------------------------------------------------------------------------

theorem stepped_succ (m : Machine) (n : Nat) : m.stepped (n + 1) = (m.request .step).stepped n := by
  induction n with
  | zero => rfl
  | succ n ih => rw [stepped, ih, stepped]

/-- `interpret` takes `n` steps from `m` that go on, and one that ends the run. -/
structure EndsAfter (m : Machine) (n : Nat) : Prop where
  continues : ∀ k < n, step (m.stepped k) = .ok none (m.stepped (k + 1))
  ends : (∃ report, step (m.stepped n) = .ok (some report) (m.stepped (n + 1)) ∧
      interpret m = .ok report (m.stepped (n + 1))) ∨
    ∃ e, step (m.stepped n) = .error e (m.stepped (n + 1)) ∧
      interpret m = .error e (m.stepped (n + 1))

theorem EndsAfter.later {m' : Machine} {n : Nat} (hs : step m = .ok none m') (h : EndsAfter m' n) :
    EndsAfter m (n + 1) := by
  have hnext : m.request .step = m' := by rw [request, hs]; rfl
  have hstepped : ∀ k, m.stepped (k + 1) = m'.stepped k := by
    intro k
    rw [stepped_succ, hnext]
  have hinterpret : interpret m = interpret m' := by rw [interpret, hs]
  constructor
  · intro k hk
    cases k with
    | zero => rw [hstepped 0]; exact hs
    | succ k =>
      rw [hstepped, hstepped]
      exact h.continues k (by omega)
  · rw [hstepped, hstepped, hinterpret]
    exact h.ends

theorem endsAfter_work (m : Machine) : ∃ n ≤ m.work, EndsAfter m n := by
  fun_induction interpret m with
  | case1 m report m' hs =>
    have hnext : m.stepped 1 = m' := by simp [stepped, request, hs]
    refine ⟨0, Nat.zero_le _, by simp, .inl ⟨report, ?_, ?_⟩⟩
    · rw [hnext]; exact hs
    · rw [hnext, interpret, hs]
  | case2 m m' hs ih =>
    obtain ⟨n, hn, h⟩ := ih
    have hlt := step_work_lt hs
    exact ⟨n + 1, by omega, h.later hs⟩
  | case3 m e m' hs =>
    have hnext : m.stepped 1 = m' := by simp [stepped, request, hs]
    refine ⟨0, Nat.zero_le _, by simp, .inr ⟨e, ?_, ?_⟩⟩
    · rw [hnext]; exact hs
    · rw [hnext, interpret, hs]

/-- Whatever programs were loaded before and wherever it starts, a run goes on for finitely
many steps and then stops with a report or a fault, which is what `interpret` gives. How many
steps it can be follows from the longest code and the frame limit. -/
theorem run_ends {config : Config} {m : Machine} (h : Reachable config m) :
    ∃ n, n < (longest m.heap.codes.toList + 2) ^ config.maxFrames ∧ EndsAfter m n := by
  obtain ⟨n, hn, hends⟩ := endsAfter_work m
  have hconfig : m.config = config := h.handled.config_eq
  have hwork := work_lt (hconfig ▸ h.depth_le)
  rw [hconfig] at hwork
  exact ⟨n, Nat.lt_of_le_of_lt hn hwork, hends⟩

/-- A closure that finds itself in its capture cell, and calls itself without end. -/
def selfCalling : Machine :=
  (ofConfig ⟨8, 3, true⟩).request (.load ⟨#[
    ⟨"main", 3, #[.makeFunction 1 1, .bind 0 1, .call 1 2 0, .halt]⟩,
    ⟨"again", 3, #[.getUpvalue 1 0, .call 1 2 0, .ret 0]⟩], 0⟩)

/-- It gets as far as the frame limit allows. -/
theorem run_ends_selfCalling :
    6 < (longest selfCalling.heap.codes.toList + 2) ^ 3 ∧
      interpret selfCalling = .error (.frameOverflow 3) (selfCalling.stepped 7) := by
  have hreach : Reachable ⟨8, 3, true⟩ selfCalling := Reachable.new.request (.load _)
  obtain ⟨n, hbound, hcontinues, hends⟩ := run_ends hreach
  have hgoes : ∀ k < 6, step (selfCalling.stepped k) = .ok none (selfCalling.stepped (k + 1)) := by
    decide +kernel
  have hfault :
      step (selfCalling.stepped 6) = .error (.frameOverflow 3) (selfCalling.stepped 7) := by
    decide +kernel
  rcases Nat.lt_trichotomy n 6 with hlt | rfl | hgt
  · simp [hgoes n hlt] at hends
  · exact ⟨hbound, by simpa [hfault] using hends⟩
  · have hno := hcontinues 6 hgt
    simp [hfault] at hno

end Machine

end ClosureMachine

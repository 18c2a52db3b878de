import Mathlib.Data.List.TakeWhile
import ClosureMachine.Proofs.MirroredSteps
import ClosureMachine.Proofs.Tracking

/-!
# Mirrored runs

A machine that loads a program mirrors a new machine that loads it: resetting leaves nothing
behind but positions in the heap that are taken. From there on the two runs go on alike.
-/

namespace ClosureMachine

/-- What a host sees of two steps that end alike: both go on, both stop with reports related by
`R`, or both fail with one fault. -/
inductive SameEnd (R : Report → Report → Prop) :
    Except Fault (Option Report) → Except Fault (Option Report) → Prop
  | continues : SameEnd R (.ok none) (.ok none)
  | stops {r r' : Report} (h : R r r') : SameEnd R (.ok (some r)) (.ok (some r'))
  | faults (e : Fault) : SameEnd R (.error e) (.error e)

theorem SameEnd.imp {R S : Report → Report → Prop} {x y : Except Fault (Option Report)}
    (h : SameEnd R x y) (hrs : ∀ r r', R r r' → S r r') : SameEnd S x y := by
  cases h with
  | continues => exact .continues
  | stops hr => exact .stops (hrs _ _ hr)
  | faults e => exact .faults e

/-- The next step of `m` faults on a register that holds nothing. -/
def Machine.MissesValue (m : Machine) : Prop :=
  ∃ op expected m', Machine.step m = .error (.typeMismatch op expected .uninitialized) m'

-- ---------------------------------------------------------------------------
-- Loading
-- ---------------------------------------------------------------------------

/-- A new machine refuses a program for its entry, or because there is no room for its entry
frame. -/
theorem Machine.load_ofConfig_error {config : Config} {p : Program} {e : Fault} {m : Machine}
    (hl : Machine.load p (.ofConfig config) = .error e m) :
    e = .malformed (.entryOutOfRange p.entry p.codes.size) ∨ e = .frameOverflow config.maxFrames ∨
      ∃ needed capacity, e = .stackOverflow needed capacity := by
  by_cases hentry : p.entry.toNat < p.codes.size
  · have hcode : (((Machine.ofConfig config).closedFrom 0).staged p).codeOf 0 =
        .ok p.codes[p.entry.toNat] := by
      refine Machine.codeOf_staged hentry ?_ (Nat.zero_lt_of_lt (handleAt_lt 0))
      have hlt : p.entry.toNat < 65536 := p.entry.toNat_lt
      show 0 + p.entry.toNat < handleSpace
      simp only [handleSpace]
      omega
    simp only [(Machine.tracked_ofConfig config).load_eq hentry, Op.bind_error, Op.pure_error,
      and_false, exists_false, or_false, Machine.pushFrame_error] at hl
    rcases Machine.windowFor_error hl.1 with ⟨-, he⟩ | herr | ⟨code, -, -, he⟩
    · exact .inr (.inl he)
    · exact absurd (hcode.symm.trans herr) (by simp)
    · exact .inr (.inr ⟨_, _, he⟩)
  · rw [Machine.load_of_size_le (Nat.le_of_not_lt hentry)] at hl
    exact .inl (EStateM.Result.error.inj hl).1.symm

namespace Mirror

/-- How a machine mirrors a new one once both have loaded the same program. -/
def ahead (m : Machine) (clears : Bool) : Mirror :=
  ⟨m.heap.codes.size, m.heap.closures.size, m.heap.cells.size, clears⟩

/-- Machine `b` has the capacities of `config`, and clears as `config` says or not at all. -/
structure Comparable (config : Config) (b : Machine) (clears : Bool) : Prop where
  size : b.stack.size = config.stackSize
  maxFrames : b.config.maxFrames = config.maxFrames
  scrubs : b.config.scrubOnReturn = config.scrubOnReturn ∨
    clears = true ∧ b.config.scrubOnReturn = false

variable {config : Config} {a b : Machine} {clears : Bool} {p : Program}

theorem stacks_replicate {μ : Mirror} (n : Nat) :
    μ.Stacks (Array.replicate n .uninitialized) (Array.replicate n .uninitialized) := by
  intro i
  rw [Array.getElem?_replicate]
  split
  · exact .some .uninitialized
  · exact .none

/-- The mirror hands out handles on its way to `b`, and has enough of them if `b` fits. -/
theorem Fits.of_grows {μ : Mirror} {b b' : Machine} (h : μ.Fits b') (hg : b.heap.Grows b'.heap) :
    μ.Fits b :=
  ⟨h.codes.imp id (Nat.le_trans hg.codes), h.closures.imp id (Nat.le_trans hg.closures),
    h.cells.imp id (Nat.le_trans hg.cells)⟩

theorem fits_of_addressable {μ : Mirror} {b : Machine} (h : b.heap.Addressable) : μ.Fits b :=
  ⟨.inr h.codes, .inr h.closures, .inr h.cells⟩

section Staged

variable (hfits : (ahead b clears).Fits ((b.closedFrom 0).staged p))

include hfits

/-- A code object of the program has a handle as far ahead as its position. -/
theorem handleAt_staged {i : Nat} (hi : i < p.codes.size) :
    handleAt (b.heap.codes.size + i) = handleAt (0 + i) + b.heap.codes.size := by
  rw [Nat.add_comm b.heap.codes.size, Nat.zero_add]
  refine handleAt_add (hfits.codes.imp id fun hsize => ?_)
  have hsize : (b.heap.codes ++ p.codes).size ≤ handleSpace := hsize
  rw [Array.size_append] at hsize
  omega

theorem nextClosure_staged : b.heap.nextClosure = 0 + b.heap.closures.size := by
  have hnext : handleAt (0 + b.heap.closures.size) = handleAt 0 + b.heap.closures.size := by
    refine handleAt_add (hfits.closures.imp id fun hsize => ?_)
    have hsize : (b.heap.closures.push _).size ≤ handleSpace := hsize
    rw [Array.size_push] at hsize
    omega
  rwa [Nat.zero_add] at hnext

theorem heaps_staged (hentry : p.entry.toNat < p.codes.size) :
    (ahead b clears).Heaps (((Machine.ofConfig config).closedFrom 0).staged p).heap
      ((b.closedFrom 0).staged p).heap := by
  refine ⟨fun i => ?_, ?_, fun i => ?_, ?_, fun r => ?_⟩
  · show (b.heap.codes ++ p.codes)[i + b.heap.codes.size]? = (#[] ++ p.codes)[i]?
    rw [Array.getElem?_append_right (Nat.le_add_left ..), Nat.add_sub_cancel, Array.empty_append]
  · show (b.heap.closures.push _).size = (#[].push _).size + b.heap.closures.size
    simp [Nat.add_comm]
  · show (b.heap.closures.push (.new (handleAt (b.heap.codes.size + p.entry.toNat))))[
        i + b.heap.closures.size]? =
      (#[Closure.new (handleAt (0 + p.entry.toNat))][i]?).map (ahead b clears).closure
    cases i with
    | zero => simp [Mirror.closure, Closure.new, ahead, handleAt_staged hfits hentry]
    | succ i =>
      rw [Array.getElem?_eq_none (by rw [Array.size_push]; omega)]
      rfl
  · show (b.heap.cells.map _).size = (#[].map _).size + b.heap.cells.size
    simp
  · show Option.Rel _ (#[].map _)[r]? (b.heap.cells.map _)[r + b.heap.cells.size]?
    simp

theorem machines_staged (h : Comparable config b clears) (hentry : p.entry.toNat < p.codes.size) :
    (ahead b clears).Machines (((Machine.ofConfig config).closedFrom 0).staged p)
      ((b.closedFrom 0).staged p) := by
  refine ⟨h.maxFrames, ?_, heaps_staged hfits hentry, ?_, Array.map_empty.symm, ?_, ?_, rfl⟩
  · exact h.scrubs.imp (fun hs => ⟨hs, rfl⟩) id
  · show (ahead b clears).Stacks (Array.replicate (Array.replicate _ _).size _)
      (Array.replicate _ _)
    rw [Array.size_replicate, ← h.size]
    exact stacks_replicate _
  · show (Array.range p.codes.size).map (fun i => handleAt (b.heap.codes.size + i)) =
      ((Array.range p.codes.size).map fun i => handleAt (0 + i)).map (· + b.heap.codes.size)
    rw [Array.map_map]
    refine Array.map_congr_left fun i hi => ?_
    exact handleAt_staged hfits (Array.mem_range.mp hi)
  · exact List.dropWhile_eq_nil_iff.mpr fun e _ => by simp

end Staged

theorem load_outcomes (h : Comparable config b clears) (ht : b.Tracked)
    (hentry : p.entry.toNat < p.codes.size)
    (hfits : (ahead b clears).Fits (b.request (.load p))) :
    (ahead b clears).Outcomes (Apart b.heap.closures.size) (Machine.load p (.ofConfig config))
      (Machine.load p b) := by
  have hheap := ht.heap_load hentry
  have hstaged : (ahead b clears).Fits ((b.closedFrom 0).staged p) :=
    ⟨hheap ▸ hfits.codes, hheap ▸ hfits.closures, hheap ▸ hfits.cells⟩
  have hload : (ahead b clears).Ops (Apart b.heap.closures.size)
      (do Machine.pushFrame 0 0; return 0)
      (do Machine.pushFrame (0 + b.heap.closures.size) 0; return 0 + b.heap.closures.size) :=
    .bind (pushFrame_ops (μ := ahead b clears) 0 0) fun _ _ _ => .pure rfl
  rw [(Machine.tracked_ofConfig config).load_eq hentry, ht.load_eq hentry,
    nextClosure_staged hstaged]
  exact hload _ _ (machines_staged hstaged h hentry)

/-- A new machine and any other one load a program alike. -/
theorem load_alike (h : Comparable config b clears) (ht : b.Tracked) (p : Program)
    (hfits : (ahead b clears).Fits (b.request (.load p))) :
    (∃ closure m m', Machine.load p (.ofConfig config) = .ok closure m ∧
        Machine.load p b = .ok (closure + b.heap.closures.size) m' ∧
        (ahead b clears).Machines m m') ∨
      ∃ e m m', Machine.load p (.ofConfig config) = .error e m ∧
        Machine.load p b = .error e m' := by
  by_cases hentry : p.entry.toNat < p.codes.size
  · have hl := load_outcomes h ht hentry hfits
    generalize ha : Machine.load p (.ofConfig config) = x at hl ⊢
    generalize Machine.load p b = y at hl ⊢
    cases hl with
    | ok hr hm => exact .inl ⟨_, _, _, rfl, by rw [hr], hm⟩
    | @error e m m' hm =>
      refine .inr ⟨e, m, m', rfl, ?_⟩
      rcases Machine.load_ofConfig_error ha with rfl | rfl | ⟨_, _, rfl⟩ <;> rfl
    | cleared hc => simpa using Machine.load_ofConfig_error ha
  · have hsize := Nat.le_of_not_lt hentry
    rw [Machine.load_of_size_le hsize, Machine.load_of_size_le hsize]
    exact .inr ⟨_, _, _, rfl, rfl⟩

-- ---------------------------------------------------------------------------
-- Running
-- ---------------------------------------------------------------------------

variable {μ : Mirror}

theorem Outcomes.machines {α β : Type} {R : α → β → Prop} {o : Outcome α} {o' : Outcome β}
    (h : μ.Outcomes R o o')
    (hkept : μ.clears = true → ∀ op expected m,
      o ≠ .error (.typeMismatch op expected .uninitialized) m) :
    μ.Machines o.machine o'.machine := by
  cases h with
  | ok _ hm => exact hm
  | error e hm => exact hm
  | cleared hc => exact absurd rfl (hkept hc _ _ _)

theorem Outcomes.sameEnd {R : Report → Report → Prop} {o o' : Outcome (Option Report)}
    (h : μ.Outcomes (Option.Rel R) o o') (hfault : ∀ e m, o = .error e m → μ.fault e = e)
    (hkept : μ.clears = true → ∀ op expected m,
      o ≠ .error (.typeMismatch op expected .uninitialized) m) :
    SameEnd R o.result o'.result := by
  cases h with
  | ok hr hm =>
    cases hr with
    | none => exact .continues
    | some hr => exact .stops hr
  | error e hm =>
    show SameEnd R (.error e) (.error (μ.fault e))
    rw [hfault e _ rfl]
    exact .faults e
  | cleared hc => exact absurd rfl (hkept hc _ _ _)

theorem not_missesValue (h : ¬ a.MissesValue) (op : Opcode) (expected : ValueKind) (m : Machine) :
    Machine.step a ≠ .error (.typeMismatch op expected .uninitialized) m :=
  fun hs => h ⟨op, expected, m, hs⟩

theorem Machines.stepped (h : μ.Machines a b) {n : Nat} (hfits : μ.Fits (b.stepped n))
    (hkept : μ.clears = true → ∀ k < n, ¬ (a.stepped k).MissesValue) :
    μ.Machines (a.stepped n) (b.stepped n) := by
  induction n with
  | zero => exact h
  | succ n ih =>
    have hn := ih (hfits.of_grows (Machine.step_changes _).grows)
      fun hc k hk => hkept hc k (Nat.lt_succ_of_lt hk)
    exact (step_outcomes hn hfits).machines fun hc =>
      not_missesValue (hkept hc n (Nat.lt_succ_self n))

theorem Machines.sameEnd (h : μ.Machines a b) (hfits : μ.Fits (b.request .step))
    (hfault : ∀ e m, Machine.step a = .error e m → μ.fault e = e)
    (hkept : μ.clears = true → ¬ a.MissesValue) :
    SameEnd μ.Reports (Outcome.result (Machine.step a)) (Outcome.result (Machine.step b)) :=
  (step_outcomes h hfits).sameEnd hfault fun hc => not_missesValue (hkept hc)

/-- A run that ends in a report ends in its counterpart in the mirror. -/
theorem Machines.interpret (h : μ.Machines a b) (hfits : ∀ b, μ.Fits b) {report : Report}
    {m : Machine} (hrun : Machine.interpret a = .ok report m) :
    ∃ report' m', Machine.interpret b = .ok report' m' ∧ μ.Reports report report' := by
  fun_induction Machine.interpret a generalizing b with
  | case1 a r a' hs =>
    have hstep := step_outcomes h (hfits _)
    rw [hs] at hstep
    obtain ⟨rfl, rfl⟩ := EStateM.Result.ok.inj hrun
    generalize hb : Machine.step b = o at hstep
    cases hstep with
    | ok hr hm =>
      cases hr with
      | some hr => exact ⟨_, _, by rw [Machine.interpret, hb], hr⟩
  | case2 a a' hs ih =>
    have hstep := step_outcomes h (hfits _)
    rw [hs] at hstep
    generalize hb : Machine.step b = o at hstep
    cases hstep with
    | ok hr hm =>
      cases hr with
      | none =>
        obtain ⟨report', m', hb', hr⟩ := ih hm hrun
        exact ⟨report', m', by rw [Machine.interpret, hb]; exact hb', hr⟩
  | case3 a e a' hs => simp at hrun

end Mirror

end ClosureMachine

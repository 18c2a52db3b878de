import ClosureMachine.Proofs.Changes

/-!
# The high-water mark

The mark lies on the stack, and no slot at or above it holds anything. So a return that
clears up to the mark clears everything above its window's first slot.
-/

namespace ClosureMachine

namespace Machine

structure Marked (m : Machine) : Prop where
  mark : m.highWater ≤ m.stack.size
  above : ∀ {slot value}, m.highWater ≤ slot → m.stack[slot]? = some value → value = .uninitialized

variable {m m' : Machine} {w : Window}

theorem eq_uninitialized_of_replicate {n slot : Nat} {value : Value}
    (h : (Array.replicate n Value.uninitialized)[slot]? = some value) : value = .uninitialized := by
  rw [Array.getElem?_replicate] at h
  split at h
  · exact (Option.some.inj h).symm
  · simp at h

theorem Marked.store (h : m.Marked) {slot : Nat} (value : Value) (hslot : slot < m.stack.size) :
    (m.store slot value).Marked := by
  refine ⟨?_, fun {i v} hi hv => ?_⟩
  · rw [store_highWater, size_store]
    have := h.mark
    omega
  · rw [store_highWater] at hi
    have hne : slot ≠ i := by omega
    rw [store_slot?, if_neg (by simp [hne])] at hv
    exact h.above (by omega) hv

theorem Marked.scrub (h : m.Marked) (hbase : w.base < m.stack.size) : (m.scrub w).Marked := by
  refine ⟨?_, fun {i v} hi hv => ?_⟩
  · show w.base + 1 ≤ (clearRange _ _ m.stack).size
    rw [size_clearRange]
    omega
  · have hi : w.base + 1 ≤ i := hi
    have hv : (clearRange (w.base + 1) (m.highWater - (w.base + 1)) m.stack)[i]? = some v := hv
    rw [clearRange_slot?] at hv
    split at hv
    · obtain ⟨_, -, rfl⟩ := Option.map_eq_some_iff.mp hv
      rfl
    · exact h.above (by omega) hv

theorem Marked.change (hc : Change m m') (h : m.Marked) : m'.Marked := by
  cases hc with
  | @reserve finish hfinish =>
    refine ⟨Nat.max_le.mpr ⟨h.mark, hfinish⟩, fun hi hv => h.above ?_ hv⟩
    exact Nat.le_trans (Nat.le_max_left _ finish) hi
  | store value hslot => exact h.store value hslot
  | captured slot =>
    exact ⟨by simpa using h.mark, fun hi hv => h.above (by simpa using hi) (by simpa using hv)⟩
  | closeFrom start =>
    obtain ⟨cells, hm⟩ := closeFrom_machine start m
    rw [hm]
    exact ⟨h.mark, h.above⟩
  | scrub hbase => exact h.scrub hbase
  | clear => exact ⟨Nat.zero_le _, fun _ hv => eq_uninitialized_of_replicate hv⟩
  | _ => exact ⟨h.mark, h.above⟩

theorem marked_ofConfig (config : Config) : (ofConfig config).Marked :=
  ⟨Nat.zero_le _, fun _ hv => eq_uninitialized_of_replicate hv⟩

/-- A return that clears leaves nothing above the first slot of its window. -/
theorem Marked.leave_above (h : m.Marked) (hscrub : m.config.scrubOnReturn = true) {i : Nat}
    {value : Value} (hi : w.base < i) (hv : (m.leave w).stack[i]? = some value) :
    value = .uninitialized := by
  rw [leave_slot?] at hv
  split at hv
  · obtain ⟨_, -, rfl⟩ := Option.map_eq_some_iff.mp hv
    rfl
  · next hn => exact h.above (Nat.le_of_not_lt fun hlt => hn ⟨hscrub, hi, hlt⟩) hv

end Machine

theorem Handled.marked {config : Config} {m : Machine} (h : Handled config m) : m.Marked :=
  h.invariant (Machine.marked_ofConfig config) Machine.Marked.change

end ClosureMachine

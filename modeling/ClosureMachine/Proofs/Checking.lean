import ClosureMachine.Program.Check

/-!
# The check decides well-formedness

The scan of a code object carries one bit: whether a `bind` may stand at the next position.
`bindingAfter_iff` says that the bit follows `BindingAt` from position to position, so what
the scan lets pass is what the declarative rules admit: `Program.check_ok`.
-/

namespace ClosureMachine

namespace CodeObject

variable {code : CodeObject} {count index : Nat} {binding : Bool} {i : Instruction}

-- ---------------------------------------------------------------------------
-- Runs of binds
-- ---------------------------------------------------------------------------

theorem not_bindingAt_zero (code : CodeObject) : ¬ code.BindingAt 0 := by
  rintro ⟨j, hj, -⟩
  exact Nat.not_lt_zero j hj

theorem bindingAt_succ (hi : code.instructions[index]? = some i) :
    code.BindingAt (index + 1) ↔
      (∃ target prototype, i = .makeFunction target prototype) ∨
        (∃ slot offset, i = .bind slot offset) ∧ code.BindingAt index := by
  constructor
  · rintro ⟨j, hj, ⟨target, prototype, hmake⟩, hbetween⟩
    by_cases hji : j = index
    · subst hji
      exact .inl ⟨target, prototype, Option.some.inj (hi.symm.trans hmake)⟩
    · obtain ⟨slot, offset, hbind⟩ := hbetween index (by omega) (by omega)
      refine .inr ⟨⟨slot, offset, Option.some.inj (hi.symm.trans hbind)⟩, j, by omega,
        ⟨target, prototype, hmake⟩, fun k hjk hk => hbetween k hjk (by omega)⟩
  · rintro (⟨target, prototype, rfl⟩ | ⟨⟨slot, offset, rfl⟩, j, hj, hmake, hbetween⟩)
    · exact ⟨index, by omega, ⟨target, prototype, hi⟩, fun k hlt hk => by omega⟩
    · refine ⟨j, by omega, hmake, fun k hjk hk => ?_⟩
      by_cases hki : k = index
      · subst hki
        exact ⟨slot, offset, hi⟩
      · exact hbetween k hjk (by omega)

theorem bindingAfter_iff (hi : code.instructions[index]? = some i)
    (hb : binding = true ↔ code.BindingAt index) :
    bindingAfter binding i = true ↔ code.BindingAt (index + 1) := by
  rw [bindingAt_succ hi, ← hb]
  cases i <;> simp [bindingAfter]

-- ---------------------------------------------------------------------------
-- Instructions
-- ---------------------------------------------------------------------------

/-- Instruction `i` may stand at position `index`. -/
structure Admits (count : Nat) (code : CodeObject) (index : Nat) (i : Instruction) : Prop where
  registers : ∀ reg ∈ i.registers, reg.toNat < code.stackSize.toNat
  prototypes : ∀ target prototype, i = .makeFunction target prototype → prototype.toNat < count
  binds : ∀ slot offset, i = .bind slot offset → code.BindingAt index

theorem registerDefect?_eq_none :
    code.registerDefect? index i = none ↔
      ∀ reg ∈ i.registers, reg.toNat < code.stackSize.toNat := by
  simp [registerDefect?]

theorem instructionDefect?_eq_none (hb : binding = true ↔ code.BindingAt index) :
    code.instructionDefect? count binding index i = none ↔ code.Admits count index i := by
  unfold instructionDefect?
  simp only [Option.orElse_eq_orElse, Option.orElse_eq_or, Option.or_eq_none_iff,
    registerDefect?_eq_none]
  constructor
  · rintro ⟨hregs, hrest⟩
    refine ⟨hregs, ?_, ?_⟩
    · rintro target prototype rfl
      simpa using hrest
    · rintro slot offset rfl
      exact hb.mp (by simpa using hrest)
  · rintro ⟨hregs, hprototypes, hbinds⟩
    refine ⟨hregs, ?_⟩
    cases i with
    | makeFunction target prototype => simpa using hprototypes target prototype rfl
    | bind slot offset => simpa using hb.mpr (hbinds slot offset rfl)
    | _ => rfl

-- ---------------------------------------------------------------------------
-- Code objects and programs
-- ---------------------------------------------------------------------------

theorem scan_eq_none {rest : List Instruction}
    (hrest : ∀ k, rest[k]? = code.instructions[index + k]?)
    (hb : binding = true ↔ code.BindingAt index) :
    code.scan count binding index rest = none ↔
      ∀ k i, rest[k]? = some i → code.Admits count (index + k) i := by
  -- The bit stands for `BindingAt` at the position that the scan has come to.
  induction rest generalizing binding index with
  | nil => simp [scan]
  | cons i rest ih =>
    have hi : code.instructions[index]? = some i := by simpa using (hrest 0).symm
    have htail : ∀ k, rest[k]? = code.instructions[index + 1 + k]? := by
      intro k
      simpa [Nat.add_assoc, Nat.add_comm 1] using hrest (k + 1)
    have ih := ih htail (bindingAfter_iff hi hb)
    rw [scan]
    split
    · next defect hdefect =>
      have hno : ¬ code.Admits count index i := by
        rw [← instructionDefect?_eq_none hb, hdefect]
        simp
      simp only [reduceCtorEq, false_iff]
      exact fun h => hno (h 0 i rfl)
    · next hnone =>
      rw [ih]
      constructor
      · rintro h (_ | k) j hj
        · obtain rfl : i = j := by simpa using hj
          exact (instructionDefect?_eq_none hb).mp hnone
        · have hk := h k j (by simpa using hj)
          rwa [Nat.add_assoc, Nat.add_comm 1] at hk
      · intro h k j hj
        have hk := h (k + 1) j (by simpa using hj)
        rwa [Nat.add_comm k, ← Nat.add_assoc] at hk

/-- A code object is well formed when it has instructions and each may stand where it does. -/
theorem wellFormed_iff : code.WellFormed count ↔
    code.instructions ≠ #[] ∧
      ∀ k i, code.instructions[k]? = some i → code.Admits count k i := by
  constructor
  · intro h
    refine ⟨h.nonempty, fun k i hi => ?_⟩
    have hmem := Array.mem_of_getElem? hi
    refine ⟨h.registers i hmem, ?_, ?_⟩
    · rintro target prototype rfl
      exact h.prototypes target prototype hmem
    · rintro slot offset rfl
      exact h.binds k slot offset hi
  · rintro ⟨hne, h⟩
    refine ⟨hne, fun i hi reg hreg => ?_, fun target prototype hi => ?_,
      fun k slot offset hi => (h k _ hi).binds slot offset rfl⟩
    · obtain ⟨k, hk⟩ := Array.mem_iff_getElem?.mp hi
      exact (h k i hk).registers reg hreg
    · obtain ⟨k, hk⟩ := Array.mem_iff_getElem?.mp hi
      exact (h k _ hk).prototypes target prototype rfl

theorem defect?_eq_none : code.defect? count = none ↔ code.WellFormed count := by
  unfold defect?
  rw [wellFormed_iff]
  by_cases hempty : code.instructions = #[]
  · simp [hempty]
  · rw [if_neg (by simpa using hempty),
      scan_eq_none (fun k => by simp) (by simp [not_bindingAt_zero])]
    simp [hempty]

end CodeObject

namespace Program

variable {p : Program}

theorem defect?_eq_none : p.defect? = none ↔ p.WellFormed := by
  unfold defect?
  split
  · next hempty =>
    have hsize : p.codes.size = 0 := by simpa using hempty
    simp only [reduceCtorEq, false_iff]
    intro h
    have := h.entry
    omega
  · split
    · next hentry =>
      simp only [reduceCtorEq, false_iff]
      exact fun h => Nat.not_lt.mpr hentry h.entry
    · next hentry =>
      simp only [List.findSome?_eq_none_iff, Array.mem_toList_iff, CodeObject.defect?_eq_none]
      exact ⟨fun h => ⟨Nat.lt_of_not_le hentry, h⟩, fun h => h.codes⟩

theorem check_ok : p.check = .ok () ↔ p.WellFormed := by
  rw [← defect?_eq_none]
  unfold check
  cases p.defect? <;> simp

end Program

end ClosureMachine

import ClosureMachine.Proofs.Checking

/-!
# The check reports the first defect

What a program is to blame for is said here without a scan: `CodeObject.Blames` for one
instruction, `CodeObject.FirstDefect` for a code object, `Program.FirstDefect` for a program.
The check accepts the well-formed programs, and of any other it reports the first defect.
-/

namespace ClosureMachine

namespace CodeObject

/-- What instruction `i` is to blame for at position `index`. A register comes before anything
else, and of several registers the first. -/
inductive Blames (count : Nat) (code : CodeObject) (index : Nat) (i : Instruction) : Defect → Prop
  | register {before after : List UInt8} {reg : UInt8}
      (hsplit : i.registers = before ++ reg :: after)
      (hbefore : ∀ r ∈ before, r.toNat < code.stackSize.toNat)
      (h : code.stackSize.toNat ≤ reg.toNat) :
      Blames count code index i (.registerOutOfBounds code.name index reg code.stackSize)
  | prototype {target : UInt8} {prototype : UInt16}
      (hregs : ∀ reg ∈ i.registers, reg.toNat < code.stackSize.toNat)
      (hi : i = .makeFunction target prototype) (h : count ≤ prototype.toNat) :
      Blames count code index i (.unknownPrototype code.name index prototype count)
  | bind {slot offset : UInt8} (hregs : ∀ reg ∈ i.registers, reg.toNat < code.stackSize.toNat)
      (hi : i = .bind slot offset) (h : ¬ code.BindingAt index) :
      Blames count code index i (.orphanBind code.name index)

/-- What a code object is to blame for: that there is nothing in it, or its first instruction
that may not stand where it does. -/
inductive FirstDefect (count : Nat) (code : CodeObject) : Defect → Prop
  | empty (h : code.instructions = #[]) : FirstDefect count code (.emptyCode code.name)
  | instruction {index : Nat} {i : Instruction} {defect : Defect}
      (hi : code.instructions[index]? = some i)
      (hbefore : ∀ k < index, ∀ j, code.instructions[k]? = some j → code.Admits count k j)
      (h : code.Blames count index i defect) : FirstDefect count code defect

end CodeObject

/-- What a program is to blame for. Its code objects count in their order, and only if the
program has an entry among them. -/
inductive Program.FirstDefect (p : Program) : Defect → Prop
  | noCode (h : p.codes = #[]) : FirstDefect p .noCode
  | entryOutOfRange (hcodes : p.codes ≠ #[]) (h : p.codes.size ≤ p.entry.toNat) :
      FirstDefect p (.entryOutOfRange p.entry p.codes.size)
  | code {before after : List CodeObject} {code : CodeObject} {defect : Defect}
      (hentry : p.entry.toNat < p.codes.size) (hsplit : p.codes.toList = before ++ code :: after)
      (hbefore : ∀ other ∈ before, other.WellFormed p.codes.size)
      (h : code.FirstDefect p.codes.size defect) : FirstDefect p defect

namespace CodeObject

variable {code : CodeObject} {count index : Nat} {binding : Bool} {i : Instruction}
  {defect : Defect}

-- ---------------------------------------------------------------------------
-- Instructions
-- ---------------------------------------------------------------------------

theorem registerDefect?_eq_some :
    code.registerDefect? index i = some defect ↔
      ∃ before reg after, i.registers = before ++ reg :: after ∧
        (∀ r ∈ before, r.toNat < code.stackSize.toNat) ∧ code.stackSize.toNat ≤ reg.toNat ∧
        defect = .registerOutOfBounds code.name index reg code.stackSize := by
  simp only [registerDefect?, Option.map_eq_some_iff, List.find?_eq_some_iff_append,
    decide_eq_true_eq, Bool.not_eq_true', decide_eq_false_iff_not, Nat.not_le]
  constructor
  · rintro ⟨reg, ⟨hreg, before, after, hsplit, hbefore⟩, rfl⟩
    exact ⟨before, reg, after, hsplit, hbefore, hreg, rfl⟩
  · rintro ⟨before, reg, after, hsplit, hbefore, hreg, rfl⟩
    exact ⟨reg, ⟨hreg, before, after, hsplit, hbefore⟩, rfl⟩

theorem instructionDefect?_eq_some (hb : binding = true ↔ code.BindingAt index) :
    code.instructionDefect? count binding index i = some defect ↔
      code.Blames count index i defect := by
  unfold instructionDefect?
  simp only [Option.orElse_eq_orElse, Option.orElse_eq_or, Option.or_eq_some_iff,
    registerDefect?_eq_some, registerDefect?_eq_none]
  constructor
  · rintro (⟨before, reg, after, hsplit, hbefore, hreg, rfl⟩ | ⟨hregs, hrest⟩)
    · exact .register hsplit hbefore hreg
    · cases i with
      | makeFunction target prototype =>
        obtain ⟨hcount, rfl⟩ : count ≤ prototype.toNat ∧ _ = defect := by simpa using hrest
        exact .prototype hregs rfl hcount
      | bind slot offset =>
        obtain ⟨hno, rfl⟩ : binding = false ∧ _ = defect := by simpa using hrest
        exact .bind hregs rfl (by simp [← hb, hno])
      | _ => simp at hrest
  · intro h
    cases h with
    | register hsplit hbefore hreg => exact .inl ⟨_, _, _, hsplit, hbefore, hreg, rfl⟩
    | prototype hregs hi hcount =>
      subst hi
      exact .inr ⟨hregs, if_pos hcount⟩
    | bind hregs hi hno =>
      subst hi
      exact .inr ⟨hregs, if_neg (mt hb.mp hno)⟩

/-- An instruction that is to blame for something may not stand where it does. -/
theorem Blames.not_admits (h : code.Blames count index i defect) : ¬ code.Admits count index i := by
  intro hadmits
  cases h with
  | register hsplit hbefore hreg =>
    exact Nat.not_lt.mpr hreg (hadmits.registers _ (by simp [hsplit]))
  | prototype hregs hi hcount => exact Nat.not_lt.mpr hcount (hadmits.prototypes _ _ hi)
  | bind hregs hi hno => exact hno (hadmits.binds _ _ hi)

-- ---------------------------------------------------------------------------
-- Code objects
-- ---------------------------------------------------------------------------

theorem scan_eq_some {rest : List Instruction}
    (hrest : ∀ k, rest[k]? = code.instructions[index + k]?)
    (hb : binding = true ↔ code.BindingAt index) :
    code.scan count binding index rest = some defect ↔
      ∃ k i, rest[k]? = some i ∧
        (∀ l < k, ∀ j, rest[l]? = some j → code.Admits count (index + l) j) ∧
        code.Blames count (index + k) i defect := by
  -- As in `scan_eq_none`, the bit stands for `BindingAt` at the position come to.
  induction rest generalizing binding index with
  | nil => simp [scan]
  | cons i rest ih =>
    have hi : code.instructions[index]? = some i := by simpa using (hrest 0).symm
    have htail : ∀ k, rest[k]? = code.instructions[index + 1 + k]? := by
      intro k
      simpa [Nat.add_assoc, Nat.add_comm 1] using hrest (k + 1)
    have ih := ih htail (bindingAfter_iff hi hb)
    have hshift : ∀ k, index + (k + 1) = index + 1 + k := by omega
    rw [scan]
    split
    · next found hfound =>
      have hblames := (instructionDefect?_eq_some hb).mp hfound
      constructor
      · rintro ⟨rfl⟩
        exact ⟨0, i, rfl, by simp, hblames⟩
      · rintro ⟨_ | k, j, hj, hbefore, h⟩
        · obtain rfl : i = j := by simpa using hj
          rw [← hfound]
          exact (instructionDefect?_eq_some hb).mpr h
        · exact absurd (hbefore 0 k.succ_pos i rfl) hblames.not_admits
    · next hnone =>
      have hadmits := (instructionDefect?_eq_none hb).mp hnone
      rw [ih]
      constructor
      · rintro ⟨k, j, hj, hbefore, h⟩
        refine ⟨k + 1, j, by simpa using hj, ?_, hshift k ▸ h⟩
        rintro (_ | l) hl j' hj'
        · obtain rfl : i = j' := by simpa using hj'
          exact hadmits
        · exact hshift l ▸ hbefore l (by omega) j' (by simpa using hj')
      · rintro ⟨_ | k, j, hj, hbefore, h⟩
        · obtain rfl : i = j := by simpa using hj
          exact absurd hadmits h.not_admits
        · refine ⟨k, j, by simpa using hj, fun l hl j' hj' => ?_, hshift k ▸ h⟩
          exact hshift l ▸ hbefore (l + 1) (by omega) j' (by simpa using hj')

theorem defect?_eq_some : code.defect? count = some defect ↔ code.FirstDefect count defect := by
  have hscan := @scan_eq_some code count 0 false defect code.instructions.toList
    (fun k => by simp) (by simp [not_bindingAt_zero])
  simp only [Array.getElem?_toList, Nat.zero_add] at hscan
  unfold defect?
  constructor
  · intro h
    split at h
    · next hempty =>
      obtain rfl := Option.some.inj h
      exact .empty (by simpa using hempty)
    · obtain ⟨k, i, hi, hbefore, hblames⟩ := hscan.mp h
      exact .instruction hi hbefore hblames
  · intro h
    cases h with
    | empty h => simp [h]
    | instruction hi hbefore h =>
      have hsome : code.instructions ≠ #[] := by
        rintro hempty
        simp [hempty] at hi
      rw [if_neg (by simpa using hsome)]
      exact hscan.mpr ⟨_, _, hi, hbefore, h⟩

end CodeObject

-- ---------------------------------------------------------------------------
-- Programs
-- ---------------------------------------------------------------------------

namespace Program

theorem defect?_eq_some {p : Program} {defect : Defect} :
    p.defect? = some defect ↔ p.FirstDefect defect := by
  unfold defect?
  constructor
  · intro h
    split at h
    · next hempty =>
      obtain rfl := Option.some.inj h
      exact .noCode (by simpa using hempty)
    · next hcodes =>
      split at h
      · next hentry =>
        obtain rfl := Option.some.inj h
        exact .entryOutOfRange (by simpa using hcodes) hentry
      · next hentry =>
        obtain ⟨before, code, after, hsplit, hdefect, hbefore⟩ := List.findSome?_eq_some_iff.mp h
        exact .code (Nat.lt_of_not_le hentry) hsplit
          (fun other hother => CodeObject.defect?_eq_none.mp (hbefore other hother))
          (CodeObject.defect?_eq_some.mp hdefect)
  · intro h
    cases h with
    | noCode h => simp [h]
    | entryOutOfRange hcodes h => simp [hcodes, h]
    | code hentry hsplit hbefore h =>
      have hcodes : p.codes ≠ #[] := by
        rintro hempty
        simp [hempty] at hentry
      rw [if_neg (by simpa using hcodes), if_neg (Nat.not_le.mpr hentry)]
      exact List.findSome?_eq_some_iff.mpr ⟨_, _, _, hsplit, CodeObject.defect?_eq_some.mpr h,
        fun other hother => CodeObject.defect?_eq_none.mpr (hbefore other hother)⟩

theorem check_error {p : Program} {defect : Defect} :
    p.check = .error defect ↔ p.FirstDefect defect := by
  rw [← defect?_eq_some]
  unfold check
  cases p.defect? <;> simp

/-- The check accepts a program if and only if it is well formed, and reports a defect of any
other if and only if that is its first one. -/
theorem check_decides (p : Program) :
    (p.check = .ok () ↔ p.WellFormed) ∧
      ∀ defect, p.check = .error defect ↔ p.FirstDefect defect :=
  ⟨check_ok, fun _ => check_error⟩

-- The second instruction of "leaf" has a register outside the window and is an orphan `bind` too.
example :
    check ⟨#[⟨"main", 2, #[.makeFunction 0 1, .bind 0 1, .halt]⟩,
      ⟨"leaf", 2, #[.loadConstant 0 ⟨1⟩, .bind 0 7, .makeFunction 0 9]⟩], 0⟩ =
      .error (.registerOutOfBounds "leaf" 1 7 2) := rfl

end Program

end ClosureMachine

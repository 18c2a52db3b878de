import ClosureMachine.Proofs.RoundTrip

/-!
# What is left of a write that failed

A program with too many code objects leaves nothing. Any other failure belongs to one code
object, and is found before a byte of its block is written: what is left is the header, which
announces all the blocks, and the whole blocks of the code objects before it. So a reader either
meets a block among these that is too long, or runs out of input where the missing block starts.
-/

namespace ClosureMachine.Image

open Instruction (Encodes)

-- ---------------------------------------------------------------------------
-- Why and where a write fails
-- ---------------------------------------------------------------------------

/-- Why a code object has no block. An instruction finds no room for its constant when the
instructions before it have filled the pool with others. -/
inductive Unwritable (code : CodeObject) : ImageError → Prop
  | name (hname : 1024 < (nameBytes code.name).length) :
      Unwritable code (.nameTooLong (nameBytes code.name).length)
  | constants {before after : List Instruction} {i : Instruction} {ws : List Word}
      {pool : ConstantPool} {value : Number} (hname : (nameBytes code.name).length ≤ 1024)
      (hcode : code.instructions.toList = before ++ i :: after)
      (hbefore : Encodes #[] before ws pool) (hfull : 65536 ≤ pool.size)
      (hvalue : i.constant? = some value) (hnew : value ∉ pool) :
      Unwritable code (.codec code.name before.length .constantPoolFull)

theorem codeBlock_error {code : CodeObject} {e : ImageError} :
    codeBlock code = .error e ↔ Unwritable code e := by
  simp only [codeBlock]
  constructor
  · intro h
    split at h
    · next hname =>
      obtain rfl := Except.error.inj h
      exact .name hname
    · next hname =>
      split at h
      · next failure hencode =>
        obtain rfl := Except.error.inj h
        obtain ⟨before, i, after, ws, pool, hcode, hbefore, herr, hindex⟩ :=
          Instruction.encodeAll_error.mp hencode
        obtain ⟨hcause, -, hfull, value, hvalue, hnew⟩ := Instruction.encode_error.mp herr
        rw [hcause, hindex]
        exact .constants (Nat.le_of_not_lt hname) hcode hbefore hfull hvalue hnew
      · simp at h
  · intro h
    cases h with
    | name hname => exact if_pos hname
    | constants hname hcode hbefore hfull hvalue hnew =>
      have herr := Instruction.encode_error.mpr ⟨rfl, rfl, hfull, _, hvalue, hnew⟩
      have hencode := Instruction.encodeAll_error.mpr ⟨_, _, _, _, _, hcode, hbefore, herr, rfl⟩
      have hshort : ¬ maxNameLength < (nameBytes code.name).length := Nat.not_lt.mpr hname
      rw [if_neg hshort, hencode]

theorem writeBlocks_error {acc out : Array UInt8} {codes : List CodeObject} {e : ImageError} :
    writeBlocks acc codes = ⟨out, some e⟩ ↔
      ∃ (Bs : List Block) (code : CodeObject) (more : List CodeObject),
        (∀ B ∈ Bs, B.Canonical) ∧ codes = Bs.map Block.code ++ code :: more ∧
        Unwritable code e ∧ acc.toList ++ Bs.flatMap Block.bytes = out.toList := by
  induction codes generalizing acc with
  | nil => simp [writeBlocks]
  | cons code codes ih =>
    rw [writeBlocks]
    constructor
    · intro h
      split at h
      · next e' hbad =>
        obtain ⟨rfl, he⟩ := Output.mk.inj h
        obtain rfl := Option.some.inj he
        exact ⟨[], code, codes, by simp, rfl, codeBlock_error.mp hbad, by simp⟩
      · next block hblock =>
        obtain ⟨B, hB, rfl, rfl⟩ := codeBlock_ok.mp hblock
        obtain ⟨Bs, bad, more, hBs, rfl, hbad, hout⟩ := ih.mp h
        exact ⟨B :: Bs, bad, more, by simpa [hB] using hBs, rfl, hbad, by simpa using hout⟩
    · rintro ⟨Bs, bad, more, hBs, hcodes, hbad, hout⟩
      cases Bs with
      | nil =>
        obtain ⟨rfl, rfl⟩ := List.cons.inj hcodes
        have hacc : acc = out := Array.toList_inj.mp (by simpa using hout)
        rw [codeBlock_error.mpr hbad, hacc]
      | cons B Bs =>
        obtain ⟨rfl, rfl⟩ := List.cons.inj hcodes
        rw [codeBlock_ok.mpr ⟨B, hBs B (by simp), rfl, rfl⟩]
        have hrest : ∀ C ∈ Bs, C.Canonical := fun C hC => hBs C (by simp [hC])
        exact ih.mpr ⟨Bs, bad, more, hrest, rfl, hbad, by simpa using hout⟩

/-- The header for `count` blocks and the blocks that follow it, whether or not these are all. -/
def unfinished (count : Nat) (Bs : List Block) : List UInt8 :=
  [0x55, 0x50, 0x56, 0x01] ++ digits256 4 count ++ Bs.flatMap Block.bytes

theorem writeProgram_error {p : Program} {out : Array UInt8} {e : ImageError} :
    writeProgram p = ⟨out, some e⟩ ↔
      65536 < p.codes.size ∧ e = .tooManyCodes p.codes.size ∧ out = #[] ∨
        p.codes.size ≤ 65536 ∧
          ∃ (Bs : List Block) (code : CodeObject) (more : List CodeObject),
            (∀ B ∈ Bs, B.Canonical) ∧ p.codes.toList = Bs.map Block.code ++ code :: more ∧
            Unwritable code e ∧ unfinished p.codes.size Bs = out.toList := by
  have hheader : ∀ Bs : List Block, (header p.codes.size).toArray.toList ++ Bs.flatMap Block.bytes =
      unfinished p.codes.size Bs := fun _ => rfl
  unfold writeProgram
  by_cases hcount : maxCodes < p.codes.size
  · have hmany : 65536 < p.codes.size := hcount
    simp [hcount, hmany, Nat.not_le.mpr hmany, eq_comm, and_comm]
  · have hfew : p.codes.size ≤ 65536 := Nat.le_of_not_lt hcount
    simp only [if_neg hcount, Nat.not_lt.mpr hfew, hfew, false_and, false_or, true_and, ← hheader,
      ← writeBlocks_error]
    rcases writeBlocks (header p.codes.size).toArray p.codes.toList with ⟨bytes, _ | e'⟩
    · simp
    · simp

-- ---------------------------------------------------------------------------
-- Reading what is left
-- ---------------------------------------------------------------------------

theorem read_unfinished {Bs : List Block} (hBs : ∀ B ∈ Bs, B.Canonical)
    (hfits : ∀ B ∈ Bs, B.words.length < UInt32.size) {count : Nat} (hcount : count ≤ 65536)
    (hmissing : Bs.length < count) :
    readProgram (unfinished count Bs) =
      match Bs.find? (fun B => 1000000 < B.words.length) with
      | none => .error .truncated
      | some B => .error (.codeTooLong B.words.length) := by
  cases hfind : Bs.find? (fun B => 1000000 < B.words.length) with
  | none =>
    have hlegal : ∀ B ∈ Bs, B.Legal := fun B hB =>
      (hBs B hB).legal (by simpa using List.find?_eq_none.mp hfind B hB)
    have hempty : readCode [] = .error .truncated := rfl
    have hmany := readCode_reads.many_error hlegal hempty hmissing #[]
    rw [List.append_nil] at hmany
    exact readProgram_blocks_error hcount hmany
  | some B =>
    obtain ⟨hlong, good, more, rfl, hgood⟩ := List.find?_eq_some_iff_append.mp hfind
    have hlegal : ∀ C ∈ good, C.Legal := fun C hC =>
      (hBs C (by simp [hC])).legal (by simpa using hgood C hC)
    have hbad : readCode (B.bytes ++ more.flatMap Block.bytes) =
        .error (.codeTooLong B.words.length) :=
      (hBs B (by simp)).readCode_tooLong (by simpa using hlong) (hfits B (by simp)) _
    have hroom : good.length < count := by
      simp only [List.length_append, List.length_cons] at hmissing
      omega
    have hmany := readCode_reads.many_error hlegal hbad hroom #[]
    refine readProgram_blocks_error hcount ?_
    rw [List.flatMap_append, List.flatMap_cons]
    exact hmany

/-- A write that fails for the number of code objects has put out nothing. Any other that fails
has put out the header for all code objects and the blocks of those before the first that has
none. In either case the reader refuses what there is: because a code object is too long for it,
or because the input ends. -/
theorem failed_write_is_unreadable {p : Program}
    (hfits : ∀ code ∈ p.codes, code.instructions.size < UInt32.size) {out : Array UInt8}
    {e : ImageError} (h : writeProgram p = ⟨out, some e⟩) :
    (65536 < p.codes.size ∧ e = .tooManyCodes p.codes.size ∧ out = #[] ∨
      p.codes.size ≤ 65536 ∧
        ∃ (Bs : List Block) (code : CodeObject) (more : List CodeObject),
          (∀ B ∈ Bs, B.Canonical) ∧ p.codes.toList = Bs.map Block.code ++ code :: more ∧
          Unwritable code e ∧
          out.toList = [0x55, 0x50, 0x56, 0x01] ++ digits256 4 p.codes.size ++
            Bs.flatMap Block.bytes) ∧
    ∃ e', readProgram out.toList = .error e' ∧
      (e' = .truncated ∨ ∃ code ∈ p.codes, 1000000 < code.instructions.size ∧
        e' = .codeTooLong code.instructions.size) := by
  rcases writeProgram_error.mp h with
    ⟨hmany, rfl, rfl⟩ | ⟨hfew, Bs, code, more, hBs, hcodes, hbad, hout⟩
  · exact ⟨.inl ⟨hmany, rfl, rfl⟩, .truncated, rfl, .inl rfl⟩
  · refine ⟨.inr ⟨hfew, Bs, code, more, hBs, hcodes, hbad, hout.symm⟩, ?_⟩
    have hmem : ∀ B ∈ Bs, B.code ∈ p.codes := fun B hB => by
      rw [← Array.mem_toList_iff, hcodes]
      simp [List.mem_map_of_mem hB]
    have hmissing : Bs.length < p.codes.size := by
      rw [← Array.length_toList, hcodes]
      simp
    have hread := read_unfinished hBs (fun B hB => by simpa using hfits _ (hmem B hB)) hfew hmissing
    rw [hout] at hread
    cases hfind : Bs.find? (fun B => 1000000 < B.words.length) with
    | none => exact ⟨_, by rw [hread, hfind], .inl rfl⟩
    | some B =>
      have hlong := List.find?_some hfind
      have hB := hmem B (List.mem_of_find?_eq_some hfind)
      refine ⟨_, by rw [hread, hfind], .inr ⟨B.code, hB, ?_, ?_⟩⟩
      · simpa using hlong
      · rw [B.size_code]

/-- One byte more than a name may have. -/
def overlongName : String := String.ofList (List.replicate 1025 'n')

/-- Three code objects, of which the second has a name that is too long. -/
def misnamed : Program := ⟨#[halting 1, ⟨overlongName, 1, #[.halt]⟩, halting 1], 0⟩

def misnamedOutput : Array UInt8 :=
  #[0x55, 0x50, 0x56, 1, 3, 0, 0, 0,
    4, 0, 0, 0, 109, 97, 105, 110, 1, 0, 0, 0, 0, 0, 1, 0, 0, 0, 0, 0, 0, 10]

theorem failed_write_is_unreadable_misnamed :
    (∀ code ∈ misnamed.codes, code.instructions.size < UInt32.size) ∧
      writeProgram misnamed = ⟨misnamedOutput, some (.nameTooLong 1025)⟩ ∧
      readProgram misnamedOutput.toList = .error .truncated := by
  have hone : ∀ code ∈ misnamed.codes, code.instructions.size = 1 := by
    simp [misnamed, halting]
  have hfits : ∀ code ∈ misnamed.codes, code.instructions.size < UInt32.size := by
    intro code hcode
    rw [hone code hcode]
    decide
  have hwrite : writeProgram misnamed = ⟨misnamedOutput, some (.nameTooLong 1025)⟩ := by
    decide +kernel
  obtain ⟨-, e, hread, rfl | ⟨code, hcode, hlong, -⟩⟩ := failed_write_is_unreadable hfits hwrite
  · exact ⟨hfits, hwrite, hread⟩
  · rw [hone code hcode] at hlong
    omega

end ClosureMachine.Image

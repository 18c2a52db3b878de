import ClosureMachine.Proofs.Grammar

/-!
# Writing and reading images

`image_ok`: what is written for a program is the layout of canonical blocks that stands for
it. A canonical block is legal unless its code is too long, the one limit that the writer does
not know; so the reader gives back what was written, or refuses the first code that is too long.

Each legal block stands for what some canonical block stands for, and the canonical one has no
more bytes (`Block.Legal.exists_canonical`): reading and writing again leads to a form that does
not change any more.
-/

namespace ClosureMachine.Image

open Instruction (Encodes)

-- ---------------------------------------------------------------------------
-- Canonical blocks
-- ---------------------------------------------------------------------------

/-- The words and constants of the block are those that its own code is encoded with. -/
structure Block.Canonical (B : Block) : Prop where
  name : (nameBytes B.name).length ≤ 1024
  encodes : Encodes #[] B.code.instructions.toList B.words B.constants.toArray

structure Layout.Canonical (l : Layout) : Prop where
  count : l.blocks.length ≤ 65536
  blocks : ∀ B ∈ l.blocks, B.Canonical

namespace Block

variable {B : Block}

@[simp] theorem size_code (B : Block) : B.code.instructions.size = B.words.length := by
  simp [code]

theorem length_bytes (B : Block) :
    B.bytes.length =
      14 + (nameBytes B.name).length + 8 * B.constants.length + 4 * B.words.length := by
  have hconstants : (B.constants.flatMap constantField).length = 8 * B.constants.length := by
    simp [List.length_flatMap, constantField, List.map_const', Nat.mul_comm]
  have hwords : (B.words.flatMap wordField).length = 4 * B.words.length := by
    simp [List.length_flatMap, wordField, List.map_const', Nat.mul_comm]
  simp only [bytes, nameField, List.length_append, length_digits256, hconstants, hwords]
  omega

theorem Canonical.constants_le (h : B.Canonical) : B.constants.length ≤ 65536 :=
  h.encodes.size_le (Nat.zero_le _)

theorem Canonical.legal (h : B.Canonical) (hlength : B.words.length ≤ 1000000) : B.Legal :=
  ⟨h.name, h.constants_le, hlength, by simpa using (h.encodes.words (Nat.zero_le _)).1⟩

theorem encodedBlock_code (B : Block) :
    encodedBlock B.code B.words.toArray B.constants.toArray = B.bytes := by
  simp only [encodedBlock, bytes, nameField, List.size_toArray]
  rfl

end Block

-- ---------------------------------------------------------------------------
-- What is written
-- ---------------------------------------------------------------------------

theorem codeBlock_ok {code : CodeObject} {bytes : List UInt8} :
    codeBlock code = .ok bytes ↔ ∃ B : Block, B.Canonical ∧ B.code = code ∧ B.bytes = bytes := by
  simp only [codeBlock]
  constructor
  · intro h
    split at h
    · simp at h
    · next hname =>
      split at h
      · simp at h
      · next words pool hencode =>
        obtain rfl := Except.ok.inj h
        have hencodes := Instruction.encodeAll_ok.mp hencode
        have hcode : Block.code ⟨code.name, code.stackSize, pool.toList, words.toList⟩ = code := by
          simp [Block.code, (hencodes.words (Nat.zero_le _)).2]
        have hname : (nameBytes code.name).length ≤ 1024 := Nat.le_of_not_lt hname
        refine ⟨_, ⟨hname, ?_⟩, hcode, ?_⟩
        · rw [hcode]
          exact hencodes
        · rw [← Block.encodedBlock_code, hcode]
  · rintro ⟨B, h, rfl, rfl⟩
    have hencode : Instruction.encodeAll B.code.instructions.toList =
        .ok (B.words.toArray, B.constants.toArray) := Instruction.encodeAll_ok.mpr h.encodes
    have hname : ¬ maxNameLength < (nameBytes B.code.name).length := Nat.not_lt.mpr h.name
    rw [if_neg hname, hencode]
    simp only [Block.encodedBlock_code]

theorem writeBlocks_ok {acc out : Array UInt8} {codes : List CodeObject} :
    writeBlocks acc codes = ⟨out, none⟩ ↔
      ∃ Bs : List Block, (∀ B ∈ Bs, B.Canonical) ∧ Bs.map Block.code = codes ∧
        acc.toList ++ Bs.flatMap Block.bytes = out.toList := by
  induction codes generalizing acc with
  | nil =>
    simp only [writeBlocks, Output.mk.injEq, and_true, List.map_eq_nil_iff]
    constructor
    · rintro rfl
      exact ⟨[], by simp⟩
    · rintro ⟨Bs, -, rfl, hout⟩
      exact Array.toList_inj.mp (by simpa using hout)
  | cons code codes ih =>
    rw [writeBlocks]
    constructor
    · intro h
      split at h
      · simp at h
      · next block hblock =>
        obtain ⟨B, hB, rfl, rfl⟩ := codeBlock_ok.mp hblock
        obtain ⟨Bs, hBs, rfl, hout⟩ := ih.mp h
        exact ⟨B :: Bs, by simpa [hB] using hBs, rfl, by simpa using hout⟩
    · rintro ⟨Bs, hBs, hcodes, hout⟩
      cases Bs with
      | nil => simp at hcodes
      | cons B Bs =>
        obtain ⟨rfl, rfl⟩ := List.cons.inj hcodes
        rw [codeBlock_ok.mpr ⟨B, hBs B (by simp), rfl, rfl⟩]
        exact ih.mpr ⟨Bs, fun C hC => hBs C (by simp [hC]), rfl, by simpa using hout⟩

@[simp] theorem Layout.size_codes (l : Layout) : l.program.codes.size = l.blocks.length := by
  simp [Layout.program]

theorem writeProgram_ok {p : Program} {b : Array UInt8} :
    writeProgram p = ⟨b, none⟩ ↔
      ∃ l : Layout, l.Canonical ∧ l.program = p ∧ l.bytes = b.toList := by
  unfold writeProgram
  constructor
  · intro h
    split at h
    · simp at h
    · next hcount =>
      cases hwrite : writeBlocks (header p.codes.size).toArray p.codes.toList with
      | mk out failure =>
        cases failure with
        | some e => simp [hwrite] at h
        | none =>
          simp only [hwrite, Output.mk.injEq, and_true] at h
          obtain ⟨Bs, hBs, hcodes, hout⟩ := writeBlocks_ok.mp hwrite
          have hsize : p.codes.size = Bs.length := by simpa using (congrArg List.length hcodes).symm
          refine ⟨⟨Bs, p.entry⟩, ⟨hsize ▸ Nat.le_of_not_lt hcount, hBs⟩, ?_, ?_⟩
          · simp [Layout.program, hcodes]
          · simp [← h, ← hout, Layout.bytes, header, magic, hsize]
  · rintro ⟨l, h, rfl, hb⟩
    have hcount : ¬ maxCodes < l.program.codes.size := by
      rw [Layout.size_codes]
      exact Nat.not_lt.mpr h.count
    have hwrite : writeBlocks (header l.program.codes.size).toArray l.program.codes.toList =
        ⟨(header l.blocks.length ++ l.blocks.flatMap Block.bytes).toArray, none⟩ :=
      writeBlocks_ok.mpr ⟨l.blocks, h.blocks, by simp [Layout.program], by simp⟩
    simp only [if_neg hcount, hwrite, Output.mk.injEq, and_true]
    apply Array.toList_inj.mp
    rw [← hb]
    simp [Layout.bytes, Layout.program, header, magic]

theorem image_ok {p : Program} {b : Array UInt8} :
    p.image = .ok b ↔ ∃ l : Layout, l.Canonical ∧ l.program = p ∧ l.bytes = b.toList := by
  rw [← writeProgram_ok, Program.image]
  rcases writeProgram p with ⟨bytes, _ | e⟩ <;> simp

-- ---------------------------------------------------------------------------
-- Reading what was written
-- ---------------------------------------------------------------------------

theorem Layout.mem_codes {l : Layout} {code : CodeObject} :
    code ∈ l.program.codes ↔ ∃ B ∈ l.blocks, B.code = code := by
  simp [Layout.program]

theorem Layout.Canonical.legal {l : Layout} (h : l.Canonical)
    (hlength : ∀ B ∈ l.blocks, B.words.length ≤ 1000000) : l.Legal :=
  ⟨h.count, fun B hB => (h.blocks B hB).legal (hlength B hB)⟩

theorem read_back {p : Program} {b : Array UInt8} (h : p.image = .ok b)
    (hlength : ∀ code ∈ p.codes, code.instructions.size ≤ 1000000) (t : List UInt8) :
    readProgram (b.toList ++ t) = .ok (p, t) := by
  obtain ⟨l, hl, rfl, hbytes⟩ := image_ok.mp h
  have hlegal : l.Legal := hl.legal fun B hB => by
    simpa using hlength B.code (Layout.mem_codes.mpr ⟨B, hB, rfl⟩)
  rw [← hbytes]
  exact readProgram_reads.run hlegal t

/-- A NaN with a payload, named twice, and a negative zero; then code without instructions. -/
def sampled : Program :=
  ⟨#[⟨"é", 2, #[.loadConstant 0 ⟨0x7ff8000000000001⟩, .loadConstant 1 ⟨0x8000000000000000⟩,
    .loadConstant 1 ⟨0x7ff8000000000001⟩, .halt]⟩, ⟨"", 0, #[]⟩], 1⟩

def sampledImage : Array UInt8 :=
  #[0x55, 0x50, 0x56, 1, 2, 0, 0, 0,
    2, 0, 0, 0, 195, 169, 2, 0,
    2, 0, 0, 0, 1, 0, 0, 0, 0, 0, 0xf8, 0x7f, 0, 0, 0, 0, 0, 0, 0, 0x80,
    4, 0, 0, 0, 0, 0, 0, 7, 1, 0, 1, 7, 0, 0, 1, 7, 0, 0, 0, 10,
    0, 0, 0, 0, 0, 0, 0, 0, 0, 0, 0, 0, 0, 0, 1, 0]

theorem read_back_sampled :
    sampled.image = .ok sampledImage ∧ (∀ code ∈ sampled.codes, code.instructions.size ≤ 1000000) ∧
      readProgram (sampledImage.toList ++ [0x55]) = .ok (sampled, [0x55]) := by
  have hwrite : writeProgram sampled = ⟨sampledImage, none⟩ := by decide +kernel
  have himage : sampled.image = .ok sampledImage := by rw [Program.image, hwrite]
  have hlength : ∀ code ∈ sampled.codes, code.instructions.size ≤ 1000000 := by
    simp [sampled]
  exact ⟨himage, hlength, read_back himage hlength _⟩

-- ---------------------------------------------------------------------------
-- Writing what was read
-- ---------------------------------------------------------------------------

theorem exists_canonical {code : CodeObject} {source : List Number}
    (hname : (nameBytes code.name).length ≤ 1024)
    (hsource : Instruction.constants code.instructions.toList ⊆ source)
    (hroom : source.length ≤ 65536) :
    ∃ B : Block, B.Canonical ∧ B.code = code ∧ B.constants.length ≤ source.length := by
  obtain ⟨ws, pool, hencodes, hdrawn⟩ :=
    Instruction.exists_encodes hsource hroom ConstantPool.drawn_empty
  have hcode : Block.code ⟨code.name, code.stackSize, pool.toList, ws⟩ = code := by
    simp [Block.code, (hencodes.words (Nat.zero_le _)).2]
  exact ⟨_, ⟨hname, by rwa [hcode]⟩, hcode, hdrawn.size_le⟩

theorem Block.Legal.exists_canonical {B : Block} (h : B.Legal) :
    ∃ C : Block, (C.Canonical ∧ C.Legal) ∧ C.code = B.code ∧ C.bytes.length ≤ B.bytes.length := by
  have hsource : Instruction.constants B.code.instructions.toList ⊆ B.constants := by
    intro value hvalue
    obtain ⟨i, hi, hvalue⟩ := List.mem_filterMap.mp hvalue
    obtain ⟨w, hw, rfl⟩ : ∃ w ∈ B.words, w.instruction B.constants = i := by
      simpa [Block.code] using hi
    exact Instruction.constant_mem (h.words w hw) hvalue
  have hname : (nameBytes B.code.name).length ≤ 1024 := h.name
  obtain ⟨C, hC, hcode, hle⟩ := Image.exists_canonical hname hsource h.constants
  have hwords : C.words.length = B.words.length := by
    rw [← C.size_code, ← B.size_code, hcode]
  have hsame : C.name = B.name := congrArg CodeObject.name hcode
  refine ⟨C, ⟨hC, hC.legal (hwords ▸ h.length)⟩, hcode, ?_⟩
  rw [C.length_bytes, B.length_bytes, hwords, hsame]
  omega

theorem exists_canonical_blocks {Bs : List Block} (h : ∀ B ∈ Bs, B.Legal) :
    ∃ Cs : List Block, (∀ C ∈ Cs, C.Canonical ∧ C.Legal) ∧ Cs.map Block.code = Bs.map Block.code ∧
      (Cs.flatMap Block.bytes).length ≤ (Bs.flatMap Block.bytes).length := by
  induction Bs with
  | nil => exact ⟨[], by simp⟩
  | cons B Bs ih =>
    obtain ⟨C, hC, hcode, hle⟩ := (h B (by simp)).exists_canonical
    obtain ⟨Cs, hCs, hcodes, hles⟩ := ih fun D hD => h D (by simp [hD])
    refine ⟨C :: Cs, by simpa [hC] using hCs, by simp [hcode, hcodes], ?_⟩
    simp only [List.flatMap_cons, List.length_append]
    omega

theorem Layout.Legal.exists_canonical {l : Layout} (h : l.Legal) :
    ∃ m : Layout, m.Canonical ∧ m.Legal ∧ m.program = l.program ∧
      m.bytes.length ≤ l.bytes.length := by
  obtain ⟨Cs, hCs, hcodes, hle⟩ := exists_canonical_blocks h.blocks
  have hcount : Cs.length ≤ 65536 := by
    have hlength : Cs.length = l.blocks.length := by simpa using congrArg List.length hcodes
    exact hlength ▸ h.count
  refine ⟨⟨Cs, l.entry⟩, ⟨hcount, fun C hC => (hCs C hC).1⟩, ⟨hcount, fun C hC => (hCs C hC).2⟩,
    ?_, ?_⟩
  · simp [Layout.program, hcodes]
  · simp only [Layout.bytes, List.length_append, length_digits256]
    omega

/-- What is read can be written, in no more bytes, and reads back. From then on writing and
reading change nothing. -/
theorem rewritten_shrinks_once {bytes rest : List UInt8} {p : Program} {n : Nat}
    (h : readProgram bytes = .ok (p, rest)) (hn : bytes.length = n + rest.length) :
    ∃ b : Array UInt8, p.image = .ok b ∧ b.size ≤ n ∧ readProgram b.toList = .ok (p, []) ∧
      ∀ q r, readProgram b.toList = .ok (q, r) → q.image = .ok b := by
  obtain ⟨l, hl, rfl, rfl⟩ := readProgram_reads.inv h
  obtain ⟨m, hcanonical, hlegal, hprogram, hle⟩ := hl.exists_canonical
  have himage : l.program.image = .ok m.bytes.toArray :=
    image_ok.mpr ⟨m, hcanonical, hprogram, rfl⟩
  have hread : readProgram m.bytes = .ok (l.program, []) := by
    simpa [hprogram] using readProgram_reads.run hlegal []
  refine ⟨m.bytes.toArray, himage, ?_, hread, fun q r hq => ?_⟩
  · rw [List.length_append] at hn
    simp only [List.size_toArray]
    omega
  · obtain ⟨rfl, -⟩ : l.program = q ∧ [] = r := by simpa [hread] using hq
    exact himage

/-- An image whose constants are equal, named and not used, in this order, and whose last word
has operands that its opcode does not use. -/
def padded : List UInt8 :=
  [0x55, 0x50, 0x56, 1, 1, 0, 0, 0,
    1, 0, 0, 0, 97, 1, 0,
    3, 0, 0, 0, 0, 0, 0, 0, 0, 0, 0xf0, 0x3f, 0, 0, 0, 0, 0, 0, 0xf0, 0x3f,
    0, 0, 0, 0, 0, 0, 0, 0x40,
    2, 0, 0, 0, 1, 0, 0, 7, 3, 2, 1, 10, 0, 0]

def trimmed : Program := ⟨#[⟨"a", 1, #[.loadConstant 0 ⟨0x3ff0000000000000⟩, .halt]⟩], 0⟩

theorem rewritten_shrinks_once_padded :
    readProgram (padded ++ [9]) = .ok (trimmed, [9]) ∧ padded.length = 57 ∧
      ∃ b : Array UInt8, trimmed.image = .ok b ∧ b.size ≤ 57 ∧
        readProgram b.toList = .ok (trimmed, []) ∧
        ∀ q r, readProgram b.toList = .ok (q, r) → q.image = .ok b := by
  have hread : readProgram (padded ++ [9]) = .ok (trimmed, [9]) := rfl
  exact ⟨hread, rfl, rewritten_shrinks_once hread rfl⟩

-- ---------------------------------------------------------------------------
-- Code that is too long
-- ---------------------------------------------------------------------------

theorem readLength_tooLarge {limit n : Nat} {tooLarge : Nat → ImageError} (hlarge : limit < n)
    (hfits : n < UInt32.size) (rest : List UInt8) :
    readLength limit tooLarge (digits256 4 n ++ rest) = .error (tooLarge n) := by
  unfold readLength
  rw [(readNat_reads 4).run hfits]
  simp [hlarge]

theorem Block.Canonical.readCode_tooLong {B : Block} (h : B.Canonical)
    (hlong : 1000000 < B.words.length) (hfits : B.words.length < UInt32.size)
    (rest : List UInt8) :
    readCode (B.bytes ++ rest) = .error (.codeTooLong B.words.length) := by
  simp only [readCode, Block.bytes, List.append_assoc, except_bind_error, Prod.exists]
  exact .inr ⟨_, _, readName_reads.run h.name _, .inr ⟨_, _,
    (readNat_reads 2).run B.stackSize.toNat_lt _, .inr ⟨_, _,
    (readLength_reads _ (by decide)).run h.constants_le _, .inr ⟨_, _,
    (readConstant_reads.many _ _).run ⟨rfl, by simp⟩ _, .inl (readLength_tooLarge hlong hfits _)⟩⟩⟩⟩

theorem Reads.many_error {σ α : Type} {read : Reader α} {legal : σ → Prop}
    {spell : σ → List UInt8} {value : σ → α} (h : Reads read legal spell value) {ss : List σ}
    (hss : ∀ s ∈ ss, legal s) {bad : List UInt8} {e : ImageError} (hbad : read bad = .error e)
    {n : Nat} (hn : ss.length < n) (acc : Array α) :
    readMany read n acc (ss.flatMap spell ++ bad) = .error e := by
  induction ss generalizing n acc with
  | nil =>
    obtain ⟨m, rfl⟩ : ∃ m, n = m + 1 := ⟨n - 1, by simp at hn; omega⟩
    simp [readMany, hbad]
  | cons s ss ih =>
    obtain ⟨m, rfl⟩ : ∃ m, n = m + 1 := ⟨n - 1, by simp at hn; omega⟩
    rw [readMany, List.flatMap_cons, List.append_assoc, h.run (hss s (by simp))]
    exact ih (fun t ht => hss t (by simp [ht])) (by simpa using hn) _

theorem readProgram_blocks_error {count : Nat} (hcount : count ≤ 65536) {body : List UInt8}
    {e : ImageError} (h : readMany readCode count #[] body = .error e) :
    readProgram ([0x55, 0x50, 0x56, 0x01] ++ digits256 4 count ++ body) = .error e := by
  simp only [readProgram, List.append_assoc, except_bind_error, Prod.exists]
  exact .inr ⟨_, _, readMagic_ok.mpr rfl, .inr ⟨_, _,
    (readLength_reads _ (by decide)).run hcount _, .inl h⟩⟩

theorem Layout.Canonical.read_tooLong {l : Layout} (h : l.Canonical) {B : Block}
    {good more : List Block} (hblocks : l.blocks = good ++ B :: more)
    (hgood : ∀ C ∈ good, C.words.length ≤ 1000000) (hlong : 1000000 < B.words.length)
    (hfits : B.words.length < UInt32.size) :
    readProgram l.bytes = .error (.codeTooLong B.words.length) := by
  have hlegal : ∀ C ∈ good, C.Legal := fun C hC =>
    (h.blocks C (by simp [hblocks, hC])).legal (hgood C hC)
  have hbad : ∀ rest, readCode (B.bytes ++ rest) = .error (.codeTooLong B.words.length) :=
    (h.blocks B (by simp [hblocks])).readCode_tooLong hlong hfits
  have hmany : ∀ rest, readMany readCode l.blocks.length #[]
      (l.blocks.flatMap Block.bytes ++ rest) = .error (.codeTooLong B.words.length) := by
    intro rest
    simp only [hblocks, List.flatMap_append, List.flatMap_cons, List.append_assoc]
    exact readCode_reads.many_error hlegal (hbad _) (by simp) _
  rw [Layout.bytes, List.append_assoc]
  exact readProgram_blocks_error h.count (hmany _)

/-- An image whose code lengths fit their fields is read back, unless some code exceeds the
length that the reader admits: then the first such code is refused. -/
theorem read_unless_too_long {p : Program} {b : Array UInt8} (h : p.image = .ok b)
    (hfits : ∀ code ∈ p.codes, code.instructions.size < UInt32.size) :
    readProgram b.toList =
      match p.codes.toList.find? (fun code => 1000000 < code.instructions.size) with
      | none => .ok (p, [])
      | some code => .error (.codeTooLong code.instructions.size) := by
  obtain ⟨l, hl, rfl, hbytes⟩ := image_ok.mp h
  rw [← hbytes]
  have hcodes : l.program.codes.toList = l.blocks.map Block.code := by simp [Layout.program]
  rw [hcodes, List.find?_map]
  cases hfind : l.blocks.find?
      ((fun code => decide (1000000 < code.instructions.size)) ∘ Block.code) with
  | none =>
    have hlength : ∀ B ∈ l.blocks, B.words.length ≤ 1000000 := by
      simpa using List.find?_eq_none.mp hfind
    simpa using readProgram_reads.run (hl.legal hlength) []
  | some B =>
    obtain ⟨hlong, good, more, hblocks, hgood⟩ := List.find?_eq_some_iff_append.mp hfind
    have hB : B.code ∈ l.program.codes := Layout.mem_codes.mpr ⟨B, by simp [hblocks], rfl⟩
    simpa using hl.read_tooLong hblocks (by simpa using hgood) (by simpa using hlong)
      (by simpa using hfits B.code hB)

/-- Code that carries no constants can be written whatever its length. -/
def halting (n : Nat) : CodeObject := ⟨"main", 1, Array.replicate n .halt⟩

theorem size_halting (n : Nat) : (halting n).instructions.size = n := by
  simp [halting]

theorem exists_canonical_halting (n : Nat) :
    ∃ B : Block, B.Canonical ∧ B.code = halting n := by
  have hname : (nameBytes "main").length ≤ 1024 := by decide +kernel
  have hconstants : Instruction.constants (halting n).instructions.toList ⊆ [] := by
    intro value hvalue
    obtain ⟨i, hi, hvalue⟩ := List.mem_filterMap.mp hvalue
    obtain ⟨-, rfl⟩ : n ≠ 0 ∧ i = .halt := by simpa [halting] using hi
    simp [Instruction.constant?] at hvalue
  obtain ⟨B, hB, hcode, -⟩ := exists_canonical hname hconstants (Nat.zero_le _)
  exact ⟨B, hB, hcode⟩

theorem read_unless_too_long_halting : ∃ b : Array UInt8,
    Program.image ⟨#[halting 1, halting 1000002, halting 1000001], 0⟩ = .ok b ∧
      readProgram b.toList = .error (.codeTooLong 1000002) := by
  -- The lengths are variables here, so that no check ever builds the code that they count.
  have hany : ∀ k m n : Nat, k ≤ 1000000 → 1000000 < m → m < UInt32.size → n < UInt32.size →
      ∃ b, Program.image ⟨#[halting k, halting m, halting n], 0⟩ = .ok b ∧
        readProgram b.toList = .error (.codeTooLong m) := by
    intro k m n hk hm hmfits hnfits
    obtain ⟨A, hA, hcodeA⟩ := exists_canonical_halting k
    obtain ⟨B, hB, hcodeB⟩ := exists_canonical_halting m
    obtain ⟨C, hC, hcodeC⟩ := exists_canonical_halting n
    have himage : Program.image ⟨#[halting k, halting m, halting n], 0⟩ =
        .ok (Layout.bytes ⟨[A, B, C], 0⟩).toArray :=
      image_ok.mpr ⟨⟨[A, B, C], 0⟩, ⟨by simp, by simp [hA, hB, hC]⟩,
        by simp [Layout.program, hcodeA, hcodeB, hcodeC], rfl⟩
    have hfits : ∀ code ∈ #[halting k, halting m, halting n],
        code.instructions.size < UInt32.size := by
      simp only [List.mem_toArray, List.forall_mem_cons, size_halting]
      exact ⟨by omega, hmfits, hnfits, by simp⟩
    have hread := read_unless_too_long himage hfits
    rw [List.find?_cons_of_neg (by simpa [size_halting] using hk),
      List.find?_cons_of_pos (by simpa [size_halting] using hm)] at hread
    exact ⟨_, himage, by simpa only [size_halting] using hread⟩
  exact hany 1 1000002 1000001 (by decide) (by decide) (by decide) (by decide)

theorem image_halting_refused {n : Nat} (hlong : 1000000 < n) (hfits : n < UInt32.size) :
    ∃ b : Array UInt8, Program.image ⟨#[halting n], 0⟩ = .ok b ∧
      readProgram b.toList = .error (.codeTooLong n) := by
  obtain ⟨B, hB, hcode⟩ := exists_canonical_halting n
  obtain rfl : B.words.length = n := by rw [← B.size_code, hcode, size_halting]
  let l : Layout := ⟨[B], 0⟩
  have hl : l.Canonical := ⟨by simp [l], by simpa [l] using hB⟩
  have hprogram : l.program = ⟨#[halting B.words.length], 0⟩ := by
    simp [l, Layout.program, ← hcode]
  have hblocks : l.blocks = [] ++ B :: [] := rfl
  exact ⟨l.bytes.toArray, image_ok.mpr ⟨l, hl, hprogram, rfl⟩,
    hl.read_tooLong hblocks (by simp) hlong hfits⟩

/-- Not everything that is written can be read. -/
theorem written_not_read : ∃ b : Array UInt8, Program.image ⟨#[halting 1000001], 0⟩ = .ok b ∧
    readProgram b.toList = .error (.codeTooLong 1000001) :=
  image_halting_refused (by decide) (by decide)

end ClosureMachine.Image

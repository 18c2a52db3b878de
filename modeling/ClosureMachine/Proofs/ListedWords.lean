import Mathlib.Algebra.Group.Nat.Defs
import ClosureMachine.Listing
import ClosureMachine.Proofs.Interning
import ClosureMachine.Proofs.RoundTrip

/-!
# The words of a listing

A program does not keep the words that it was read from, so a listing shows those of a fresh
encoding. Beside the stored words, these have no operands that their opcodes do not use, and a
constant is named by its rank in the order of first uses. `Layout.listing` is the listing in terms
of the image, `listing_shows_trimmed_words` says that every image that can be read has it, and for
which words it shows what is stored.
-/

namespace ClosureMachine

-- ---------------------------------------------------------------------------
-- Digits
-- ---------------------------------------------------------------------------

namespace Listing

variable {base : Nat}

theorem toList_paddedDigits (width n : Nat) :
    (paddedDigits base width n).toList =
      List.replicate (width - (Nat.toDigits base n).length) '0' ++ Nat.toDigits base n := by
  simp [paddedDigits]

theorem toList_paddedDigits_succ (hbase : 1 < base) {width : Nat} (hwidth : 0 < width) (n : Nat) :
    (paddedDigits base (width + 1) n).toList =
      (paddedDigits base width (n / base)).toList ++ [Nat.digitChar (n % base)] := by
  rw [toList_paddedDigits, toList_paddedDigits]
  by_cases hn : n < base
  · have hwidth' : width = width - 1 + 1 := by omega
    have hzero : Nat.toDigits base 0 = ['0'] := Nat.toDigits_of_lt_base (by omega)
    rw [Nat.toDigits_of_lt_base hn, Nat.div_eq_of_lt hn, Nat.mod_eq_of_lt hn, hzero]
    simp only [List.length_singleton, Nat.add_sub_cancel]
    rw [← List.replicate_succ', ← hwidth']
  · rw [Nat.toDigits_of_base_le hbase (Nat.le_of_not_lt hn)]
    simp only [List.length_append, List.length_singleton, Nat.add_sub_add_right,
      List.append_assoc]

/-- Numbers that fit the width are shown by all their digits, the highest first. -/
theorem toList_paddedDigits_eq (hbase : 1 < base) {width n : Nat} (hn : n < base ^ (width + 1)) :
    (paddedDigits base (width + 1) n).toList =
      (List.range (width + 1)).reverse.map fun k => Nat.digitChar (n / base ^ k % base) := by
  induction width generalizing n with
  | zero =>
    have hn : n < base := by simpa using hn
    simp [toList_paddedDigits, Nat.toDigits_of_lt_base hn, Nat.mod_eq_of_lt hn]
  | succ width ih =>
    have hdiv : n / base < base ^ (width + 1) := by
      rwa [Nat.div_lt_iff_lt_mul (by omega), ← Nat.pow_succ]
    rw [toList_paddedDigits_succ hbase (Nat.succ_pos _), ih hdiv]
    conv_rhs => rw [List.range_succ_eq_map]
    simp [Nat.div_div_eq_div_mul, Nat.pow_succ, Nat.mul_comm, Function.comp_def]

theorem eq_of_digits_eq (hbase : 1 < base) {width m n : Nat} (hm : m < base ^ width)
    (hn : n < base ^ width) (h : ∀ k < width, m / base ^ k % base = n / base ^ k % base) :
    m = n := by
  induction width generalizing m n with
  | zero =>
    rw [Nat.pow_zero] at hm hn
    omega
  | succ width ih =>
    have hlow : m % base = n % base := by simpa using h 0 (Nat.succ_pos _)
    have hhigh : m / base = n / base := by
      refine ih ?_ ?_ fun k hk => ?_
      · rwa [Nat.div_lt_iff_lt_mul (by omega), ← Nat.pow_succ]
      · rwa [Nat.div_lt_iff_lt_mul (by omega), ← Nat.pow_succ]
      · simpa only [Nat.div_div_eq_div_mul, Nat.pow_succ, Nat.mul_comm] using
          h (k + 1) (Nat.succ_lt_succ hk)
    rw [← Nat.div_add_mod m base, ← Nat.div_add_mod n base, hlow, hhigh]

end Listing

-- ---------------------------------------------------------------------------
-- Operands
-- ---------------------------------------------------------------------------

namespace Word

variable {w v : Word}

/-- The eight hexadecimal digits of a word, the highest first. -/
def hex (w : Word) : String :=
  String.ofList ([7, 6, 5, 4, 3, 2, 1, 0].map fun k => Nat.digitChar (w.toNat / 16 ^ k % 16))

theorem paddedDigits_eq_hex (w : Word) : Listing.paddedDigits 16 8 w.toNat = w.hex := by
  have hw : w.toNat < 16 ^ (7 + 1) := w.toNat_lt
  rw [← String.toList_inj, Listing.toList_paddedDigits_eq (by decide) hw, hex,
    String.toList_ofList]
  rfl

theorem hex_inj : v.hex = w.hex ↔ v = w := by
  refine ⟨fun h => UInt32.toNat_inj.mp ?_, fun h => congrArg hex h⟩
  have hdigit : ∀ m < 16, ∀ n < 16, Nat.digitChar m = Nat.digitChar n → m = n := by decide
  have hplace : ∀ k < 8, k ∈ [7, 6, 5, 4, 3, 2, 1, 0] := by decide
  have hv : v.toNat < 16 ^ 8 := v.toNat_lt
  have hw : w.toNat < 16 ^ 8 := w.toNat_lt
  have hchars := List.map_inj_left.mp (String.ofList_inj.mp h)
  exact Listing.eq_of_digits_eq (by decide) hv hw fun k hk =>
    hdigit _ (Nat.mod_lt _ (by decide)) _ (Nat.mod_lt _ (by decide)) (hchars k (hplace k hk))

theorem ofBytes_eq {op a b c : UInt8} :
    ofBytes op a b c = w ↔ w.op = op ∧ w.a = a ∧ w.b = b ∧ w.c = c := by
  constructor
  · rintro rfl
    simp
  · rintro ⟨rfl, rfl, rfl, rfl⟩
    apply UInt32.toNat_inj.mp
    have hw := w.toNat_lt
    rw [toNat_ofBytes]
    simp only [op, a, b, c, UInt8.toNat_ofNat']
    omega

theorem ofWide_eq {op a : UInt8} {bx : UInt16} :
    ofWide op a bx = w ↔ w.op = op ∧ w.a = a ∧ w.bx = bx := by
  constructor
  · rintro rfl
    simp
  · rintro ⟨rfl, rfl, rfl⟩
    apply UInt32.toNat_inj.mp
    have hw := w.toNat_lt
    rw [toNat_ofWide]
    simp only [op, a, bx, UInt8.toNat_ofNat', UInt16.toNat_ofNat']
    omega

/-- The operand bytes that the opcode does not use are zero. -/
def Unpadded (w : Word) : Prop :=
  match w.op.toNat with
  | 2 | 5 | 6 | 9 => w.c = 0
  | 4 => w.b = 0 ∧ w.c = 0
  | 10 => w.a = 0 ∧ w.b = 0 ∧ w.c = 0
  | _ => True

theorem Legal.exists_opcode {count : Nat} (h : w.Legal count) :
    ∃ op : Opcode, w.op = op.toByte := by
  cases hop : Opcode.ofByte? w.op with
  | none => exact absurd h.op (Opcode.not_legal_of_ofByte? hop)
  | some op => exact ⟨op, Opcode.toByte_of_ofByte? hop⟩

end Word

-- ---------------------------------------------------------------------------
-- Listings in terms of the image
-- ---------------------------------------------------------------------------

namespace Image

open Instruction (Encodes)

namespace Block

variable {B : Block} {w : Word}

/-- The constants that the code loads, without repetitions and in the order of their first uses. -/
def firstUses (B : Block) : List Number :=
  (Instruction.constants B.code.instructions.toList).eraseDups

/-- The place of the constant that a word names, in the order of first uses. -/
def rank (B : Block) (w : Word) : Nat := B.firstUses.idxOf (B.constants[w.bx.toNat]?.getD ⟨0⟩)

/-- The word that is shown for a stored one: with the operands that its opcode uses, and with a
constant named by its rank. -/
def shown (B : Block) (w : Word) : Word :=
  match w.op.toNat with
  | 1 => .ofWide w.op w.a w.bx
  | 2 | 5 | 6 | 9 => .ofBytes w.op w.a w.b 0
  | 3 | 8 => .ofBytes w.op w.a w.b w.c
  | 4 => .ofBytes w.op w.a 0 0
  | 7 => .ofWide w.op w.a (UInt16.ofNat (B.rank w))
  | _ => .ofBytes w.op 0 0 0

/-- The line of the word at `index`. -/
def line (B : Block) (index : Nat) (w : Word) : String :=
  let body := s!"{Listing.paddedDigits 10 4 index} {(B.shown w).hex} {w.instruction B.constants}"
  if w.op.toNat = 7 then s!"{body} ; K[{B.rank w}]\n" else body ++ "\n"

def listing (position : Nat) (B : Block) : String :=
  Listing.header position B.code ++ String.join (B.words.mapIdx B.line)

theorem word_instruction (hw : w.Legal B.constants.length) :
    (w.instruction B.constants).word B.firstUses = B.shown w := by
  obtain ⟨op, hop⟩ := hw.exists_opcode
  cases op <;> simp [Word.instruction, Instruction.word, shown, rank, hop, Opcode.toByte]

theorem Legal.map_word (h : B.Legal) :
    B.code.instructions.toList.map (Instruction.word B.firstUses) = B.words.map B.shown := by
  simp only [code, List.map_map]
  exact List.map_congr_left fun w hw => word_instruction (h.words w hw)

/-- What a fresh encoding of the code gives. -/
theorem Legal.encodes_shown (h : B.Legal) : ∃ pool : ConstantPool,
    Encodes #[] B.code.instructions.toList (B.words.map B.shown) pool ∧
      pool.toList = B.firstUses := by
  obtain ⟨C, ⟨hC, -⟩, hcode, -⟩ := h.exists_canonical
  have hencodes : Encodes #[] B.code.instructions.toList C.words C.constants.toArray :=
    hcode ▸ hC.encodes
  have hpool : C.constants.toArray.toList = B.firstUses := hencodes.pool_eq
  have hwords : C.words = B.words.map B.shown := by
    rw [hencodes.words_eq, hpool, h.map_word]
  exact ⟨_, hwords ▸ hencodes, hpool⟩

theorem Legal.rank_lt (h : B.Legal) (hw : w ∈ B.words) (hseven : w.op.toNat = 7) :
    B.rank w < UInt16.size := by
  obtain ⟨pool, hencodes, hpool⟩ := h.encodes_shown
  have hlt := (h.words w hw).constant hseven
  have hmem : B.constants[w.bx.toNat] ∈ B.firstUses := by
    rw [firstUses, List.mem_eraseDups]
    refine List.mem_filterMap.mpr ⟨w.instruction B.constants, ?_, ?_⟩
    · simpa [code] using ⟨w, hw, rfl⟩
    · simp [Word.instruction, hseven, Instruction.constant?, hlt]
  have hsize : B.firstUses.length ≤ 65536 := by
    rw [← hpool]
    exact hencodes.size_le (Nat.zero_le _)
  rw [rank, List.getElem?_eq_getElem hlt]
  exact Nat.lt_of_lt_of_le (List.idxOf_lt_length_of_mem hmem) hsize

theorem Legal.bx_shown (h : B.Legal) (hw : w ∈ B.words) (hseven : w.op.toNat = 7) :
    (B.shown w).bx.toNat = B.rank w := by
  have hshown : B.shown w = .ofWide w.op w.a (UInt16.ofNat (B.rank w)) := by
    simp [shown, hseven]
  rw [hshown, Word.bx_ofWide, UInt16.toNat_ofNat_of_lt' (h.rank_lt hw hseven)]

/-- The shown word is the stored one unless operands were dropped or a constant renamed. -/
theorem Legal.shown_eq_iff (h : B.Legal) (hw : w ∈ B.words) :
    B.shown w = w ↔ w.Unpadded ∧ (w.op.toNat = 7 → B.rank w = w.bx.toNat) := by
  obtain ⟨op, hop⟩ := (h.words w hw).exists_opcode
  cases op
  case loadConstant =>
    have hseven : w.op.toNat = 7 := by rw [hop]; rfl
    have hbx : w.bx = UInt16.ofNat (B.rank w) ↔ B.rank w = w.bx.toNat := by
      rw [← UInt16.toNat_inj, UInt16.toNat_ofNat_of_lt' (h.rank_lt hw hseven), eq_comm]
    simp [shown, Word.Unpadded, hseven, Word.ofWide_eq, hbx]
  all_goals
    simp [shown, Word.Unpadded, hop, Opcode.toByte, Word.ofWide_eq, Word.ofBytes_eq]

theorem Canonical.shown_eq (h : B.Canonical) (hB : B.Legal) (hw : w ∈ B.words) :
    B.shown w = w := by
  have hpool : B.constants.toArray.toList = B.firstUses := h.encodes.pool_eq
  have hwords : B.words.map B.shown = B.words.map id := by
    rw [← hB.map_word, ← hpool, ← h.encodes.words_eq, List.map_id]
  exact List.map_inj_left.mp hwords w hw

-- ---------------------------------------------------------------------------
-- The text of a listing
-- ---------------------------------------------------------------------------

theorem Legal.line_eq (h : B.Legal) (hw : w ∈ B.words) (index : Nat) :
    Listing.line index (B.shown w) (w.instruction B.constants) = B.line index w := by
  obtain ⟨op, hop⟩ := (h.words w hw).exists_opcode
  unfold Listing.line line
  rw [Word.paddedDigits_eq_hex]
  cases op
  case loadConstant =>
    have hseven : w.op.toNat = 7 := by rw [hop]; rfl
    rw [← h.bx_shown hw hseven]
    simp only [Word.instruction, hseven, if_true]
    rfl
  all_goals simp [Word.instruction, hop, Opcode.toByte]

end Block

theorem lines_eq {α : Type} (f : α → Word × Instruction) (index : Nat) (acc : String)
    (l : List α) :
    Listing.lines index acc (l.map f) =
      acc ++ String.join (l.mapIdx fun k a => Listing.line (index + k) (f a).1 (f a).2) := by
  induction l generalizing index acc with
  | nil => simp [Listing.lines]
  | cons a l ih =>
    rw [List.map_cons, Listing.lines, ih, List.mapIdx_cons, String.join_cons, String.append_assoc]
    simp only [Nat.add_assoc, Nat.add_comm 1, Nat.add_zero]

theorem Block.Legal.codeText_eq {B : Block} (h : B.Legal) (position : Nat) :
    Listing.codeText position B.code = .ok (B.listing position) := by
  obtain ⟨pool, hencodes, -⟩ := h.encodes_shown
  have hencode : Instruction.encodeAll B.code.instructions.toList =
      .ok ((B.words.map B.shown).toArray, pool) := Instruction.encodeAll_ok.mpr hencodes
  have hzip : (B.words.map B.shown).zip B.code.instructions.toList =
      B.words.map fun w => (B.shown w, w.instruction B.constants) := by
    simp [Block.code, List.zip_map']
  have hlines : (B.words.mapIdx fun k w =>
      Listing.line k (B.shown w) (w.instruction B.constants)) = B.words.mapIdx B.line :=
    List.mapIdx_eq_mapIdx_iff.mpr fun k hk => h.line_eq (List.getElem_mem hk) k
  rw [Listing.codeText, hencode]
  simp only [hzip, lines_eq, Nat.zero_add, hlines, Block.listing]

theorem codeTexts_eq {Bs : List Block} (h : ∀ B ∈ Bs, B.Legal) (position : Nat) (acc : String) :
    Listing.codeTexts position acc (Bs.map Block.code) =
      .ok (acc ++ String.join (Bs.mapIdx fun k B => B.listing (position + k))) := by
  induction Bs generalizing position acc with
  | nil => simp [Listing.codeTexts]
  | cons B Bs ih =>
    rw [List.map_cons, Listing.codeTexts, (h B (by simp)).codeText_eq]
    simp only
    rw [ih fun C hC => h C (by simp [hC])]
    simp [String.append_assoc, Nat.add_assoc, Nat.add_comm 1]

/-- The listing of the program that a layout stands for. -/
def Layout.listing (l : Layout) : String :=
  s!"entry: P[{l.entry}]\n" ++ String.join (l.blocks.mapIdx fun k B => B.listing k)

theorem Layout.Legal.listing_eq {l : Layout} (h : l.Legal) : l.program.listing = .ok l.listing := by
  have hcodes : l.program.codes.toList = l.blocks.map Block.code := by simp [Layout.program]
  rw [Program.listing, hcodes, codeTexts_eq h.blocks]
  simp [Layout.listing, Layout.program]

/-- Every image that can be read has a listing, and in it each word stands with its operands that
are used, a constant named by its rank. Digits differ from those of the stored word if and only if
operands that are not used were not zero, or the constant was stored elsewhere than at its rank.
What was written for a program is shown as it is. -/
theorem listing_shows_trimmed_words {bytes rest : List UInt8} {p : Program}
    (h : readProgram bytes = .ok (p, rest)) :
    (∃ l : Layout, l.Legal ∧ l.bytes ++ rest = bytes) ∧
      ∀ l : Layout, l.Legal → l.bytes ++ rest = bytes →
        l.program = p ∧ p.listing = .ok l.listing ∧
        ∀ B ∈ l.blocks, (B.Canonical → ∀ w ∈ B.words, (B.shown w).hex = w.hex) ∧
          ∀ w ∈ B.words,
            ((B.shown w).hex = w.hex ↔
              w.Unpadded ∧ (w.op.toNat = 7 → B.rank w = w.bx.toNat)) ∧
            (w.op.toNat = 7 → (B.shown w).bx.toNat = B.rank w) := by
  constructor
  · obtain ⟨l, hl, hbytes, -⟩ := readProgram_reads.inv h
    exact ⟨l, hl, hbytes⟩
  · rintro l hl rfl
    obtain rfl : l.program = p := by simpa [readProgram_reads.run hl rest] using h
    refine ⟨rfl, hl.listing_eq, fun B hB => ?_⟩
    have hlegal := hl.blocks B hB
    refine ⟨fun hC w hw => congrArg Word.hex (hC.shown_eq hlegal hw), fun w hw => ?_⟩
    exact ⟨Word.hex_inj.trans (hlegal.shown_eq_iff hw), hlegal.bx_shown hw⟩

/-- The fields of `padded`. Its first word names the second of two equal constants. -/
def paddedLayout : Layout :=
  ⟨[⟨"a", 1, [⟨0x3ff0000000000000⟩, ⟨0x3ff0000000000000⟩, ⟨0x4000000000000000⟩],
    [0x07000001, 0x0a010203]⟩], 0⟩

theorem legal_paddedLayout : paddedLayout.Legal := by
  refine ⟨by decide, fun B hB => ?_⟩
  obtain rfl := List.mem_singleton.mp hB
  refine ⟨by decide +kernel, by decide, by decide, fun w hw => ?_⟩
  simp only [List.mem_cons, List.not_mem_nil, or_false] at hw
  rcases hw with rfl | rfl
  · exact ⟨by decide, fun _ => by decide⟩
  · exact ⟨by decide, fun hseven => absurd hseven (by decide)⟩

theorem listing_shows_trimmed_words_padded :
    readProgram (padded ++ [9]) = .ok (trimmed, [9]) ∧ paddedLayout.Legal ∧
      paddedLayout.bytes = padded ∧ trimmed.listing = .ok paddedLayout.listing ∧
      ∀ B ∈ paddedLayout.blocks, ∀ w ∈ B.words, (B.shown w).hex ≠ w.hex := by
  have hread : readProgram (padded ++ [9]) = .ok (trimmed, [9]) := rfl
  obtain ⟨-, hall⟩ := listing_shows_trimmed_words hread
  obtain ⟨-, hlisting, hwords⟩ := hall paddedLayout legal_paddedLayout rfl
  refine ⟨hread, legal_paddedLayout, rfl, hlisting, fun B hB w hw hsame => ?_⟩
  obtain ⟨hunpadded, hrank⟩ := ((hwords B hB).2 w hw).1.mp hsame
  obtain rfl := List.mem_singleton.mp hB
  simp only [List.mem_cons, List.not_mem_nil, or_false] at hw
  rcases hw with rfl | rfl
  · have hzero : Block.rank _ (0x07000001 : Word) = 1 := hrank (by decide)
    revert hzero
    decide
  · exact absurd hunpadded.1 (by decide)

/-- The words 07000001 and 0a010203 are listed as others, and `K[1]` as `K[0]`. -/
theorem padding_is_not_listed :
    readProgram padded = .ok (trimmed, []) ∧ paddedLayout.Legal ∧ paddedLayout.bytes = padded ∧
      paddedLayout.blocks.map (fun B => B.words.map Word.hex) = [["07000001", "0a010203"]] ∧
      trimmed.listing = .ok ("entry: P[0]\n\nP[0] a (stack_size 1, 2 instructions)\n" ++
        "0000 07000000 LOAD_CONSTANT  R0, 1 ; K[0]\n0001 0a000000 HALT\n") := by
  exact ⟨rfl, legal_paddedLayout, rfl, by decide +kernel, by decide +kernel⟩

end Image

end ClosureMachine

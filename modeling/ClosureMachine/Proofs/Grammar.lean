import ClosureMachine.Image.Reader
import ClosureMachine.Image.Writer
import ClosureMachine.Proofs.Encoding

/-!
# The grammar of images

A `Layout` is an image taken apart into its fields: `Layout.bytes` puts them in a row,
`Layout.Legal` holds the limits of the format, and `Layout.program` is the program that the
fields stand for. The numbers of the format stand here once more, apart from the reader's.

`Reads` ties a reader to such a description: it accepts what legal fields spell, whatever
follows, and nothing else. The laws go from field to field up to `readProgram_reads`.
-/

namespace ClosureMachine.Image

-- ---------------------------------------------------------------------------
-- Layouts
-- ---------------------------------------------------------------------------

/-- The fields of a block. The name is a `String`, that is, bytes that are valid UTF-8. -/
structure Block where
  name : String
  stackSize : UInt16
  constants : List Number
  words : List Word

structure Layout where
  blocks : List Block
  entry : UInt16

def nameField (name : String) : List UInt8 :=
  digits256 4 (nameBytes name).length ++ nameBytes name

def constantField (k : Number) : List UInt8 := digits256 8 k.bits.toNat

def wordField (w : Word) : List UInt8 := digits256 4 w.toNat

namespace Block

def bytes (B : Block) : List UInt8 :=
  nameField B.name ++ digits256 2 B.stackSize.toNat
    ++ digits256 4 B.constants.length ++ B.constants.flatMap constantField
    ++ digits256 4 B.words.length ++ B.words.flatMap wordField

structure Legal (B : Block) : Prop where
  name : (nameBytes B.name).length ≤ 1024
  constants : B.constants.length ≤ 65536
  length : B.words.length ≤ 1000000
  words : ∀ w ∈ B.words, w.Legal B.constants.length

def code (B : Block) : CodeObject :=
  { name := B.name
    stackSize := B.stackSize
    instructions := (B.words.map (Word.instruction B.constants)).toArray }

end Block

namespace Layout

def bytes (l : Layout) : List UInt8 :=
  [0x55, 0x50, 0x56, 0x01] ++ digits256 4 l.blocks.length ++ l.blocks.flatMap Block.bytes
    ++ digits256 2 l.entry.toNat

structure Legal (l : Layout) : Prop where
  count : l.blocks.length ≤ 65536
  blocks : ∀ B ∈ l.blocks, B.Legal

def program (l : Layout) : Program :=
  { codes := (l.blocks.map Block.code).toArray
    entry := l.entry }

end Layout

-- ---------------------------------------------------------------------------
-- Readers of fields
-- ---------------------------------------------------------------------------

/-- `read` takes off the front exactly what a legal `s` spells, and gives its value. -/
def Reads {σ α : Type} (read : Reader α) (legal : σ → Prop) (spell : σ → List UInt8)
    (value : σ → α) : Prop :=
  ∀ bytes a rest, read bytes = .ok (a, rest) ↔
    ∃ s, legal s ∧ spell s ++ rest = bytes ∧ value s = a

section Fields

variable {σ α : Type} {read : Reader α} {legal : σ → Prop} {spell : σ → List UInt8}
  {value : σ → α} {bytes rest : List UInt8} {a : α} {s : σ}

theorem Reads.run (h : Reads read legal spell value) (hs : legal s) (rest : List UInt8) :
    read (spell s ++ rest) = .ok (value s, rest) :=
  (h _ _ _).mpr ⟨s, hs, rfl, rfl⟩

theorem Reads.inv (h : Reads read legal spell value) (hr : read bytes = .ok (a, rest)) :
    ∃ s, legal s ∧ spell s ++ rest = bytes ∧ value s = a :=
  (h _ _ _).mp hr

theorem readBytes_reads (n : Nat) :
    Reads (readBytes n) (fun front => front.length = n) id id := by
  intro bytes front rest
  unfold readBytes
  constructor
  · intro h
    split at h
    · next r hr =>
      obtain rfl := Except.ok.inj h
      obtain ⟨rfl, hlength⟩ := eq_append_of_splitBytes? hr
      exact ⟨front, hlength, rfl, rfl⟩
    · simp at h
  · rintro ⟨front, hlength, rfl, rfl⟩
    simp [splitBytes?_append hlength]

theorem readNat_reads (width : Nat) :
    Reads (readNat width) (fun n => n < Nat.pow 256 width) (digits256 width) id := by
  intro bytes n rest
  unfold readNat
  constructor
  · intro h
    split at h
    · next field rest hr =>
      simp only [Except.ok.injEq, Prod.mk.injEq] at h
      obtain ⟨rfl, rfl⟩ := h
      obtain ⟨rfl, rfl⟩ := eq_append_of_splitBytes? hr
      exact ⟨_, littleEndian_lt field, by rw [digits256_littleEndian], rfl⟩
    · simp at h
  · rintro ⟨n, hn, rfl, rfl⟩
    rw [splitBytes?_append (length_digits256 width n)]
    simp only [littleEndian_digits256, Nat.mod_eq_of_lt hn, id]

theorem readLength_reads {limit : Nat} (tooLarge : Nat → ImageError)
    (hlimit : limit < Nat.pow 256 4) :
    Reads (readLength limit tooLarge) (fun n => n ≤ limit) (digits256 4) id := by
  intro bytes n rest
  unfold readLength
  constructor
  · intro h
    split at h
    · simp at h
    · next m rest hr =>
      obtain ⟨m, -, hbytes, rfl⟩ := (readNat_reads 4).inv hr
      split at h
      · simp at h
      · next hle =>
        simp only [Except.ok.injEq, Prod.mk.injEq] at h
        obtain ⟨rfl, rfl⟩ := h
        exact ⟨m, Nat.le_of_not_lt hle, hbytes, rfl⟩
  · rintro ⟨n, hn, rfl, rfl⟩
    rw [(readNat_reads 4).run (Nat.lt_of_le_of_lt hn hlimit)]
    simp [Nat.not_lt.mpr hn]

theorem readConstant_reads : Reads readConstant (fun _ => True) constantField id := by
  intro bytes k rest
  unfold readConstant
  constructor
  · intro h
    split at h
    · simp at h
    · next n rest hr =>
      obtain ⟨n, hn, hbytes, rfl⟩ := (readNat_reads 8).inv hr
      simp only [Except.ok.injEq, Prod.mk.injEq] at h
      obtain ⟨rfl, rfl⟩ := h
      refine ⟨⟨UInt64.ofNat n⟩, trivial, ?_, rfl⟩
      rw [constantField, ← hbytes, UInt64.toNat_ofNat_of_lt' hn]
  · rintro ⟨k, -, rfl, rfl⟩
    rw [constantField, (readNat_reads 8).run k.bits.toNat_lt]
    simp

theorem fromUTF8?_eq_some {name : List UInt8} {s : String} :
    String.fromUTF8? ⟨name.toArray⟩ = some s ↔ nameBytes s = name := by
  unfold String.fromUTF8?
  split
  · next hvalid =>
    rw [Option.some.injEq]
    constructor
    · rintro rfl
      rfl
    · rintro rfl
      rfl
  · next hvalid =>
    simp only [reduceCtorEq, false_iff]
    rintro rfl
    exact hvalid s.isValidUTF8

theorem readName_reads :
    Reads readName (fun name => (nameBytes name).length ≤ 1024) nameField id := by
  intro bytes name rest
  simp only [readName, except_bind_ok, Prod.exists]
  constructor
  · rintro ⟨length, bytes, hlength, front, bytes, hfront, h⟩
    obtain ⟨length, hle, rfl, rfl⟩ := (readLength_reads _ (by decide)).inv hlength
    obtain ⟨front, rfl, rfl, rfl⟩ := (readBytes_reads _).inv hfront
    split at h
    · next name' hname =>
      simp only [except_pure_ok, Prod.mk.injEq] at h
      obtain ⟨rfl, rfl⟩ := h
      obtain rfl := fromUTF8?_eq_some.mp hname
      exact ⟨name', hle, by simp [nameField], rfl⟩
    · simp [throw, throwThe, MonadExceptOf.throw] at h
  · rintro ⟨name, hle, rfl, rfl⟩
    rw [nameField, List.append_assoc]
    refine ⟨_, _, (readLength_reads _ (by decide)).run hle _, _, _,
      (readBytes_reads _).run rfl _, ?_⟩
    have hname : String.fromUTF8? ⟨(nameBytes name).toArray⟩ = some name :=
      fromUTF8?_eq_some.mpr rfl
    simp only [id, hname]
    rfl

-- ---------------------------------------------------------------------------
-- Counted lists
-- ---------------------------------------------------------------------------

/-- A loop that reads one more item in each round reads so many items in a row. -/
theorem reads_counted {loop : Nat → Array α → Reader (Array α)}
    (hzero : ∀ acc bytes, loop 0 acc bytes = .ok (acc, bytes))
    (hsucc : ∀ n acc bytes r, loop (n + 1) acc bytes = .ok r ↔
      ∃ s mid, legal s ∧ spell s ++ mid = bytes ∧ loop n (acc.push (value s)) mid = .ok r)
    (n : Nat) (acc : Array α) :
    Reads (loop n acc) (fun ss => ss.length = n ∧ ∀ s ∈ ss, legal s) (List.flatMap spell)
      (fun ss => acc ++ (ss.map value).toArray) := by
  intro bytes as rest
  induction n generalizing acc bytes with
  | zero =>
    simp only [hzero, Except.ok.injEq, Prod.mk.injEq]
    constructor
    · rintro ⟨rfl, rfl⟩
      exact ⟨[], by simp⟩
    · rintro ⟨ss, ⟨hlength, -⟩, rfl, rfl⟩
      obtain rfl := List.length_eq_zero_iff.mp hlength
      simp
  | succ n ih =>
    simp only [hsucc, ih]
    constructor
    · rintro ⟨s, mid, hs, rfl, ss, ⟨rfl, hss⟩, rfl, rfl⟩
      exact ⟨s :: ss, by simpa [hs] using hss, by simp, by simp⟩
    · rintro ⟨ss, ⟨hlength, hss⟩, rfl, rfl⟩
      cases ss with
      | nil => simp at hlength
      | cons s ss =>
        exact ⟨s, _, hss s (by simp), by simp, ss,
          ⟨by simpa using hlength, fun t ht => hss t (by simp [ht])⟩, rfl, by simp⟩

theorem Reads.many (h : Reads read legal spell value) :
    ∀ n acc, Reads (readMany read n acc) (fun ss => ss.length = n ∧ ∀ s ∈ ss, legal s)
      (List.flatMap spell) (fun ss => acc ++ (ss.map value).toArray) := by
  refine reads_counted (fun _ _ => rfl) fun n acc bytes r => ?_
  rw [readMany]
  constructor
  · intro hr
    split at hr
    · simp at hr
    · next a mid ha =>
      obtain ⟨s, hs, hbytes, rfl⟩ := h.inv ha
      exact ⟨s, mid, hs, hbytes, hr⟩
  · rintro ⟨s, mid, hs, rfl, hr⟩
    rw [h.run hs]
    exact hr

theorem readInstructions_reads (code : String) (pool : ConstantPool) :
    ∀ n acc, Reads (readInstructions code pool n acc)
      (fun ws => ws.length = n ∧ ∀ w ∈ ws, Word.Legal pool.size w) (List.flatMap wordField)
      (fun ws => acc ++ (ws.map (Word.instruction pool.toList)).toArray) := by
  refine reads_counted (fun _ _ => rfl) fun n acc bytes r => ?_
  rw [readInstructions]
  constructor
  · intro hr
    split at hr
    · simp at hr
    · next n mid hn =>
      obtain ⟨n, hlt, hbytes, rfl⟩ := (readNat_reads 4).inv hn
      split at hr
      · simp at hr
      · next i hi =>
        obtain ⟨hlegal, rfl⟩ := Instruction.decode_ok.mp hi
        refine ⟨UInt32.ofNat n, mid, hlegal, ?_, hr⟩
        rw [wordField, ← hbytes, UInt32.toNat_ofNat_of_lt' hlt]
  · rintro ⟨w, mid, hw, rfl, hr⟩
    rw [wordField, (readNat_reads 4).run w.toNat_lt]
    simp only [id, UInt32.ofNat_toNat, Instruction.decode_ok.mpr ⟨hw, rfl⟩]
    exact hr

end Fields

-- ---------------------------------------------------------------------------
-- Blocks and programs
-- ---------------------------------------------------------------------------

theorem readCode_reads : Reads readCode Block.Legal Block.bytes Block.code := by
  intro bytes code rest
  simp only [readCode, except_bind_ok, except_pure_ok, Prod.exists, Prod.mk.injEq]
  constructor
  · rintro ⟨name, _, rname, size, _, rsize, count, _, rcount, pool, _, rpool, length, _, rlength,
      instructions, _, rinstructions, rfl, rfl⟩
    obtain ⟨name, hname, rfl, rfl⟩ := readName_reads.inv rname
    obtain ⟨size, hsize, rfl, rfl⟩ := (readNat_reads 2).inv rsize
    obtain ⟨count, hcount, rfl, rfl⟩ := (readLength_reads _ (by decide)).inv rcount
    obtain ⟨ks, ⟨rfl, -⟩, rfl, rfl⟩ := (readConstant_reads.many _ _).inv rpool
    obtain ⟨length, hlength, rfl, rfl⟩ := (readLength_reads _ (by decide)).inv rlength
    obtain ⟨ws, ⟨rfl, hws⟩, rfl, rfl⟩ := (readInstructions_reads _ _ _ _).inv rinstructions
    refine ⟨⟨name, UInt16.ofNat size, ks, ws⟩, ⟨hname, hcount, hlength, by simpa using hws⟩, ?_, ?_⟩
    · simp only [Block.bytes, UInt16.toNat_ofNat_of_lt' hsize, List.append_assoc]
    · simp [Block.code]
  · rintro ⟨B, h, rfl, rfl⟩
    simp only [Block.bytes, List.append_assoc]
    refine ⟨_, _, readName_reads.run h.name _, _, _, (readNat_reads 2).run B.stackSize.toNat_lt _,
      _, _, (readLength_reads _ (by decide)).run h.constants _,
      _, _, (readConstant_reads.many _ _).run ⟨rfl, by simp⟩ _,
      _, _, (readLength_reads _ (by decide)).run h.length _,
      _, _, (readInstructions_reads _ _ _ _).run ⟨rfl, by simpa using h.words⟩ _, ?_, rfl⟩
    simp [Block.code]

theorem readMagic_ok {bytes rest : List UInt8} :
    readMagic bytes = .ok ((), rest) ↔ [0x55, 0x50, 0x56, 0x01] ++ rest = bytes := by
  unfold readMagic
  constructor
  · intro h
    split at h
    · simp at h
    · next front rest hr =>
      obtain ⟨front, -, rfl, rfl⟩ := (readBytes_reads _).inv hr
      split at h
      · next hmagic =>
        simp only [Except.ok.injEq, Prod.mk.injEq, true_and] at h
        rw [h, hmagic, magic]
      · simp at h
  · rintro rfl
    have hr : readBytes magic.length ([0x55, 0x50, 0x56, 0x01] ++ rest) = .ok (magic, rest) :=
      (readBytes_reads _).run (s := magic) rfl rest
    rw [hr]
    simp

theorem readProgram_reads : Reads readProgram Layout.Legal Layout.bytes Layout.program := by
  intro bytes p rest
  simp only [readProgram, except_bind_ok, except_pure_ok, Prod.exists, Prod.mk.injEq]
  constructor
  · rintro ⟨⟨⟩, _, rmagic, count, _, rcount, codes, _, rcodes, entry, _, rentry, rfl, rfl⟩
    obtain rfl := readMagic_ok.mp rmagic
    obtain ⟨count, hcount, rfl, rfl⟩ := (readLength_reads _ (by decide)).inv rcount
    obtain ⟨Bs, ⟨rfl, hBs⟩, rfl, rfl⟩ := (readCode_reads.many _ _).inv rcodes
    obtain ⟨entry, hentry, rfl, rfl⟩ := (readNat_reads 2).inv rentry
    refine ⟨⟨Bs, UInt16.ofNat entry⟩, ⟨hcount, hBs⟩, ?_, ?_⟩
    · simp only [Layout.bytes, UInt16.toNat_ofNat_of_lt' hentry, List.append_assoc]
    · simp [Layout.program]
  · rintro ⟨l, h, rfl, rfl⟩
    simp only [Layout.bytes, List.append_assoc]
    refine ⟨_, _, readMagic_ok.mpr rfl,
      _, _, (readLength_reads _ (by decide)).run h.count _,
      _, _, (readCode_reads.many _ _).run ⟨rfl, h.blocks⟩ _,
      _, _, (readNat_reads 2).run l.entry.toNat_lt _, ?_, rfl⟩
    simp [Layout.program]

/-- A program is read off exactly `n` bytes when they spell a legal layout that stands for it. -/
theorem accepted_iff_legal_layout (bytes rest : List UInt8) (p : Program) (n : Nat) :
    readProgram bytes = .ok (p, rest) ∧ bytes.length = n + rest.length ↔
      n ≤ bytes.length ∧ rest = bytes.drop n ∧
        ∃ l : Layout, l.Legal ∧ l.bytes = bytes.take n ∧ l.program = p := by
  constructor
  · rintro ⟨h, hn⟩
    obtain ⟨l, hl, rfl, rfl⟩ := readProgram_reads.inv h
    obtain rfl : l.bytes.length = n := by simpa using hn
    exact ⟨by simp, by simp, l, hl, by simp, rfl⟩
  · rintro ⟨hn, rfl, l, hl, hbytes, rfl⟩
    constructor
    · exact (readProgram_reads _ _ _).mpr ⟨l, hl, by rw [hbytes, List.take_append_drop], rfl⟩
    · rw [List.length_drop]
      omega

end ClosureMachine.Image

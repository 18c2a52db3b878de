import ClosureMachine.Instruction.Codec

/-!
# Words and the constants they name

`Word.Legal` and `Word.instruction` say, without the decoder, which words stand for an
instruction and for which one. `decode_ok`: the decoder accepts the legal words and no others.

The encoder meets a pool that is still growing. `Encodes` is its run over a sequence without
the accumulators: a word names its constant in the pool of that moment, and so in every pool
that goes on from there (`Encodes.words`). The pool holds nothing twice and only constants that
the sequence uses, so a sequence whose constants fit a pool can be encoded (`exists_encodes`).
-/

namespace ClosureMachine

theorem except_bind_ok {ε α β : Type} {x : Except ε α} {f : α → Except ε β} {b : β} :
    x >>= f = .ok b ↔ ∃ a, x = .ok a ∧ f a = .ok b := by
  cases x <;> simp [bind, Except.bind]

theorem except_bind_error {ε α β : Type} {x : Except ε α} {f : α → Except ε β} {e : ε} :
    x >>= f = .error e ↔ x = .error e ∨ ∃ a, x = .ok a ∧ f a = .error e := by
  cases x <;> simp [bind, Except.bind]

theorem except_pure_ok {ε α : Type} {a b : α} : (pure a : Except ε α) = .ok b ↔ a = b := by
  simp [pure, Except.pure]

-- ---------------------------------------------------------------------------
-- Fields of words
-- ---------------------------------------------------------------------------

namespace Word

theorem eq_ofNat_of_mod {x : UInt8} {n : Nat} (h : n % 256 = x.toNat) : UInt8.ofNat n = x := by
  apply UInt8.toNat_inj.mp
  rw [UInt8.toNat_ofNat']
  exact h

section Fields

variable (op a b c : UInt8) (bx : UInt16)

theorem toNat_ofBytes :
    (ofBytes op a b c).toNat =
      op.toNat * 0x1000000 + a.toNat * 0x10000 + b.toNat * 0x100 + c.toNat := by
  have := op.toNat_lt
  have := a.toNat_lt
  have := b.toNat_lt
  have := c.toNat_lt
  rw [ofBytes, UInt32.toNat_ofNat_of_lt']
  simp only [UInt32.size]
  omega

theorem toNat_ofWide :
    (ofWide op a bx).toNat = op.toNat * 0x1000000 + a.toNat * 0x10000 + bx.toNat := by
  have := op.toNat_lt
  have := a.toNat_lt
  have := bx.toNat_lt
  rw [ofWide, UInt32.toNat_ofNat_of_lt']
  simp only [UInt32.size]
  omega

@[simp] theorem op_ofBytes : Word.op (ofBytes op a b c) = op := by
  apply eq_ofNat_of_mod
  have := op.toNat_lt
  have := a.toNat_lt
  have := b.toNat_lt
  have := c.toNat_lt
  rw [toNat_ofBytes]
  omega

@[simp] theorem a_ofBytes : Word.a (ofBytes op a b c) = a := by
  apply eq_ofNat_of_mod
  have := a.toNat_lt
  have := b.toNat_lt
  have := c.toNat_lt
  rw [toNat_ofBytes]
  omega

@[simp] theorem b_ofBytes : Word.b (ofBytes op a b c) = b := by
  apply eq_ofNat_of_mod
  have := b.toNat_lt
  have := c.toNat_lt
  rw [toNat_ofBytes]
  omega

@[simp] theorem c_ofBytes : Word.c (ofBytes op a b c) = c := by
  apply eq_ofNat_of_mod
  have := c.toNat_lt
  rw [toNat_ofBytes]
  omega

@[simp] theorem op_ofWide : Word.op (ofWide op a bx) = op := by
  apply eq_ofNat_of_mod
  have := op.toNat_lt
  have := a.toNat_lt
  have := bx.toNat_lt
  rw [toNat_ofWide]
  omega

@[simp] theorem a_ofWide : Word.a (ofWide op a bx) = a := by
  apply eq_ofNat_of_mod
  have := a.toNat_lt
  have := bx.toNat_lt
  rw [toNat_ofWide]
  omega

@[simp] theorem bx_ofWide : Word.bx (ofWide op a bx) = bx := by
  apply UInt16.toNat_inj.mp
  have := bx.toNat_lt
  rw [Word.bx, UInt16.toNat_ofNat', toNat_ofWide]
  omega

end Fields

-- ---------------------------------------------------------------------------
-- What words stand for
-- ---------------------------------------------------------------------------

/-- A word that stands for an instruction beside `count` constants. -/
structure Legal (count : Nat) (w : Word) : Prop where
  op : 1 ≤ w.op.toNat ∧ w.op.toNat ≤ 10
  constant : w.op.toNat = 7 → w.bx.toNat < count

/-- The instruction that a legal word stands for. -/
def instruction (constants : List Number) (w : Word) : Instruction :=
  match w.op.toNat with
  | 1 => .makeFunction w.a w.bx
  | 2 => .bind w.a w.b
  | 3 => .add w.a w.b w.c
  | 4 => .ret w.a
  | 5 => .getUpvalue w.a w.b
  | 6 => .setUpvalue w.a w.b
  | 7 => .loadConstant w.a (constants[w.bx.toNat]?.getD ⟨0⟩)
  | 8 => .call w.a w.b w.c
  | 9 => .copy w.a w.b
  | _ => .halt

end Word

theorem Opcode.toByte_of_ofByte? {b : UInt8} {op : Opcode} (h : ofByte? b = some op) :
    b = op.toByte := by
  unfold ofByte? at h
  split at h <;> cases h <;> rfl

theorem Opcode.not_legal_of_ofByte? {b : UInt8} (h : ofByte? b = none) :
    ¬ (1 ≤ b.toNat ∧ b.toNat ≤ 10) := by
  rintro ⟨hlo, hhi⟩
  have hb : b = UInt8.ofNat b.toNat := UInt8.ofNat_toNat.symm
  have hn : b.toNat = 1 ∨ b.toNat = 2 ∨ b.toNat = 3 ∨ b.toNat = 4 ∨ b.toNat = 5 ∨
      b.toNat = 6 ∨ b.toNat = 7 ∨ b.toNat = 8 ∨ b.toNat = 9 ∨ b.toNat = 10 := by omega
  rcases hn with hn | hn | hn | hn | hn | hn | hn | hn | hn | hn <;>
    · rw [hn] at hb
      subst hb
      simp [ofByte?] at h

namespace Instruction

variable {i : Instruction} {w : Word} {pool pool' : ConstantPool} {q : List Number}

theorem decode_ok : decode w pool = .ok i ↔ w.Legal pool.size ∧ w.instruction pool.toList = i := by
  cases hop : Opcode.ofByte? w.op with
  | none =>
    simp only [decode, hop, reduceCtorEq, false_iff]
    exact fun h => Opcode.not_legal_of_ofByte? hop h.1.op
  | some op =>
    have hbyte : w.op.toNat = op.toByte.toNat := by rw [Opcode.toByte_of_ofByte? hop]
    cases op with
    | loadConstant =>
      have hseven : w.op.toNat = 7 := hbyte
      by_cases hk : w.bx.toNat < pool.size
      · have hlegal : w.Legal pool.size := ⟨by omega, fun _ => hk⟩
        simp [decode, hop, hlegal, Word.instruction, hseven, hk]
      · have hlegal : ¬ w.Legal pool.size := fun h => hk (h.constant hseven)
        simp [decode, hop, hlegal, hk]
    | _ =>
      have hlegal : w.Legal pool.size := by
        refine ⟨?_, ?_⟩ <;> simp [hbyte, Opcode.toByte]
      simp [decode, hop, hlegal, Word.instruction, hbyte, Opcode.toByte]

end Instruction

-- ---------------------------------------------------------------------------
-- Interning
-- ---------------------------------------------------------------------------

namespace ConstantPool

variable {pool pool' : ConstantPool} {source : List Number} {value : Number} {k : UInt16}

theorem intern_ok (h : pool.intern value = .ok (k, pool')) :
    (∃ i, pool[i]? = some value ∧ k = UInt16.ofNat i ∧ pool' = pool) ∨
      value ∉ pool ∧ pool.size < limit ∧ k = UInt16.ofNat pool.size ∧ pool' = pool.push value := by
  unfold intern at h
  split at h
  · next i hi =>
    simp only [Except.ok.injEq, Prod.mk.injEq] at h
    obtain ⟨rfl, rfl⟩ := h
    rw [Array.idxOf?, Option.map_eq_some_iff] at hi
    obtain ⟨j, hj, rfl⟩ := hi
    exact .inl ⟨j, by simp [← (Array.finIdxOf?_eq_some_iff.mp hj).1], rfl, rfl⟩
  · next hnone =>
    split at h
    · simp at h
    · next hroom =>
      simp only [Except.ok.injEq, Prod.mk.injEq] at h
      obtain ⟨rfl, rfl⟩ := h
      exact .inr ⟨Array.idxOf?_eq_none_iff.mp hnone, by omega, rfl, rfl⟩

/-- Below the limit no position is narrowed, so the constant is found where the word says. -/
theorem intern_position (h : pool.intern value = .ok (k, pool')) (hsize : pool.size ≤ limit) :
    pool'[k.toNat]? = some value := by
  rcases intern_ok h with ⟨i, hi, rfl, rfl⟩ | ⟨-, hroom, rfl, rfl⟩
  · obtain ⟨hlt, -⟩ := Array.getElem?_eq_some_iff.mp hi
    rwa [UInt16.toNat_ofNat_of_lt' (Nat.lt_of_lt_of_le hlt hsize)]
  · rw [UInt16.toNat_ofNat_of_lt' hroom]
    exact Array.getElem?_push_size

theorem exists_intern (h : value ∈ pool ∨ pool.size < limit) :
    ∃ k pool', pool.intern value = .ok (k, pool') := by
  unfold intern
  split
  · exact ⟨_, _, rfl⟩
  · next hnone =>
    rcases h with hmem | hroom
    · exact absurd hmem (Array.idxOf?_eq_none_iff.mp hnone)
    · rw [if_neg (by omega)]
      exact ⟨_, _, rfl⟩

theorem intern_error {e : CodecError} :
    pool.intern value = .error ⟨e, pool'⟩ ↔
      e = .constantPoolFull ∧ pool' = pool ∧ limit ≤ pool.size ∧ value ∉ pool := by
  unfold intern
  split
  · next i hi =>
    have hmem : value ∈ pool := by
      apply Classical.byContradiction
      intro hnew
      simp [Array.idxOf?_eq_none_iff.mpr hnew] at hi
    simp [hmem]
  · next hnone =>
    have hnew := Array.idxOf?_eq_none_iff.mp hnone
    by_cases hfull : limit ≤ pool.size
    · simp [hfull, hnew, eq_comm (b := e), eq_comm (b := pool')]
    · simp [hfull]

/-- A pool without repetitions whose constants all stand in `source`. -/
structure Drawn (source : List Number) (pool : ConstantPool) : Prop where
  nodup : pool.toList.Nodup
  subset : pool.toList ⊆ source

theorem drawn_empty : Drawn source #[] := ⟨List.nodup_nil, List.nil_subset _⟩

theorem Drawn.size_le (h : Drawn source pool) : pool.size ≤ source.length := by
  simpa using h.nodup.length_le_of_subset h.subset

theorem Drawn.push (h : Drawn source pool) (hnew : value ∉ pool) (hmem : value ∈ source) :
    Drawn source (pool.push value) := by
  constructor
  · rw [Array.toList_push, List.nodup_append]
    refine ⟨h.nodup, by simp, fun x hx y hy hxy => hnew ?_⟩
    obtain rfl := List.mem_singleton.mp hy
    exact Array.mem_toList_iff.mp (hxy ▸ hx)
  · rw [Array.toList_push]
    exact List.append_subset.mpr ⟨h.subset, by simpa using hmem⟩

theorem Drawn.mem_or_lt (h : Drawn source pool) (hmem : value ∈ source) :
    value ∈ pool ∨ pool.size < source.length := by
  by_cases hnew : value ∈ pool
  · exact .inl hnew
  · have := (h.push hnew hmem).size_le
    rw [Array.size_push] at this
    exact .inr this

end ConstantPool

-- ---------------------------------------------------------------------------
-- Encoding
-- ---------------------------------------------------------------------------

namespace Instruction

open ConstantPool (limit Drawn)

def constant? : Instruction → Option Number
  | .loadConstant _ value => some value
  | _ => none

def constants (code : List Instruction) : List Number := code.filterMap constant?

/-- From the first pool on, the words of a sequence, and the pool at its end. -/
inductive Encodes : ConstantPool → List Instruction → List Word → ConstantPool → Prop
  | nil {pool} : Encodes pool [] [] pool
  | cons {pool pool₁ pool' i w code ws} : encode i pool = .ok (w, pool₁) →
      Encodes pool₁ code ws pool' → Encodes pool (i :: code) (w :: ws) pool'

variable {i : Instruction} {w : Word} {pool pool' : ConstantPool} {q source : List Number}
  {code : List Instruction} {ws : List Word}

theorem constant_mem (hw : w.Legal q.length) {value : Number}
    (hvalue : (w.instruction q).constant? = some value) : value ∈ q := by
  unfold Word.instruction at hvalue
  split at hvalue
  case h_7 hseven =>
    have hlt := hw.constant hseven
    obtain rfl : q[w.bx.toNat] = value := by simpa [constant?, hlt] using hvalue
    exact List.getElem_mem hlt
  all_goals simp [constant?] at hvalue

theorem encode_pool (h : i.encode pool = .ok (w, pool')) :
    pool' = pool ∨ ∃ value, i.constant? = some value ∧ value ∉ pool ∧ pool.size < limit ∧
      pool' = pool.push value := by
  cases i with
  | loadConstant target value =>
    simp only [encode, except_bind_ok, except_pure_ok, Prod.exists, Prod.mk.injEq] at h
    obtain ⟨k, pool₁, hintern, -, rfl⟩ := h
    rcases ConstantPool.intern_ok hintern with ⟨j, -, -, rfl⟩ | ⟨hnew, hroom, -, rfl⟩
    · exact .inl rfl
    · exact .inr ⟨value, rfl, hnew, hroom, rfl⟩
  | _ =>
    simp only [encode, Except.ok.injEq, Prod.mk.injEq] at h
    exact .inl h.2.symm

theorem encode_word (h : i.encode pool = .ok (w, pool')) (hsize : pool.size ≤ limit)
    (hq : pool'.toList <+: q) : w.Legal q.length ∧ w.instruction q = i := by
  cases i with
  | loadConstant target value =>
    simp only [encode, except_bind_ok, except_pure_ok, Prod.exists, Prod.mk.injEq] at h
    obtain ⟨k, pool₁, hintern, rfl, rfl⟩ := h
    obtain ⟨hlt, hvalue⟩ := Array.getElem?_eq_some_iff.mp
      (ConstantPool.intern_position hintern hsize)
    have hk : q[k.toNat]? = some value := by
      obtain ⟨later, rfl⟩ := hq
      rw [List.getElem?_append_left (by simpa using hlt)]
      simp [hlt, hvalue]
    obtain ⟨hlt, -⟩ := List.getElem?_eq_some_iff.mp hk
    refine ⟨⟨?_, fun _ => ?_⟩, ?_⟩
    · simp [opcode, Opcode.toByte]
    · simpa using hlt
    · simp [opcode, Opcode.toByte, Word.instruction, hk]
  | _ =>
    simp only [encode, Except.ok.injEq, Prod.mk.injEq] at h
    obtain ⟨rfl, -⟩ := h
    refine ⟨⟨?_, ?_⟩, ?_⟩ <;> simp [opcode, Opcode.toByte, Word.instruction]

theorem exists_encode (h : ∀ value, i.constant? = some value → value ∈ pool ∨ pool.size < limit) :
    ∃ w pool', i.encode pool = .ok (w, pool') := by
  cases i with
  | loadConstant target value =>
    obtain ⟨k, pool', hintern⟩ := ConstantPool.exists_intern (h value rfl)
    exact ⟨_, _, by simp only [encode, hintern]; rfl⟩
  | _ => exact ⟨_, _, rfl⟩

theorem encode_error {e : CodecError} :
    i.encode pool = .error ⟨e, pool'⟩ ↔
      e = .constantPoolFull ∧ pool' = pool ∧ limit ≤ pool.size ∧
        ∃ value, i.constant? = some value ∧ value ∉ pool := by
  cases i with
  | loadConstant target value =>
    simp only [encode, except_bind_error, Prod.exists, ConstantPool.intern_error, constant?,
      Option.some.injEq, exists_eq_left']
    simp [pure, Except.pure]
  | _ => simp [encode, constant?]

-- ---------------------------------------------------------------------------
-- Sequences
-- ---------------------------------------------------------------------------

theorem encodeFrom_ok {words words' : Array Word} :
    encodeFrom words pool code = .ok (words', pool') ↔
      ∃ ws, Encodes pool code ws pool' ∧ words ++ ws.toArray = words' := by
  induction code generalizing words pool with
  | nil =>
    simp only [encodeFrom, Except.ok.injEq, Prod.mk.injEq]
    constructor
    · rintro ⟨rfl, rfl⟩
      exact ⟨[], .nil, by simp⟩
    · rintro ⟨ws, ⟨⟩, rfl⟩
      simp
  | cons i code ih =>
    rw [encodeFrom]
    split
    · next cause herr =>
      simp only [reduceCtorEq, false_iff]
      rintro ⟨ws, h, -⟩
      cases h with
      | cons hi _ => simp [hi] at herr
    · next w pool₁ hi =>
      rw [ih]
      constructor
      · rintro ⟨ws, h, rfl⟩
        exact ⟨w :: ws, .cons hi h, by simp⟩
      · rintro ⟨ws, h, rfl⟩
        cases h with
        | @cons _ _ _ _ w₁ _ ws hi₁ h =>
          obtain ⟨rfl, rfl⟩ : w = w₁ ∧ pool₁ = _ := by simpa [hi] using hi₁
          exact ⟨ws, h, by simp⟩

theorem encodeAll_ok {words : Array Word} :
    encodeAll code = .ok (words, pool') ↔ Encodes #[] code words.toList pool' := by
  rw [encodeAll, encodeFrom_ok]
  constructor
  · rintro ⟨ws, h, rfl⟩
    simpa using h
  · exact fun h => ⟨words.toList, h, by simp⟩

/-- A sequence fails at the first instruction whose constant finds no room. -/
theorem encodeFrom_error {words : Array Word} {index : Nat} {cause : CodecError} :
    encodeFrom words pool code = .error ⟨index, cause⟩ ↔
      ∃ before i after ws pool', code = before ++ i :: after ∧ Encodes pool before ws pool' ∧
        i.encode pool' = .error ⟨cause, pool'⟩ ∧ index = words.size + before.length := by
  induction code generalizing words pool with
  | nil => simp [encodeFrom]
  | cons i code ih =>
    rw [encodeFrom]
    split
    · next found herr =>
      obtain ⟨found, pool₁⟩ := found
      obtain ⟨-, rfl, -⟩ := encode_error.mp herr
      constructor
      · intro h
        obtain ⟨rfl, rfl⟩ := EncodeFailure.mk.inj (Except.error.inj h)
        exact ⟨[], i, code, [], _, rfl, .nil, herr, rfl⟩
      · rintro ⟨before, j, after, ws, pool', hcode, hbefore, hj, hindex⟩
        cases hbefore with
        | nil =>
          obtain ⟨rfl, rfl⟩ := List.cons.inj hcode
          obtain ⟨rfl, -⟩ := ConstantPool.Failure.mk.inj (Except.error.inj (herr.symm.trans hj))
          rw [hindex]
          rfl
        | cons hi _ =>
          obtain ⟨rfl, -⟩ := List.cons.inj hcode
          simp [hi] at herr
    · next w pool₁ hi =>
      rw [ih]
      constructor
      · rintro ⟨before, j, after, ws, pool', rfl, hbefore, hj, hindex⟩
        refine ⟨i :: before, j, after, w :: ws, pool', rfl, .cons hi hbefore, hj, ?_⟩
        simp only [hindex, Array.size_push, List.length_cons]
        omega
      · rintro ⟨before, j, after, ws, pool', hcode, hbefore, hj, hindex⟩
        cases hbefore with
        | nil =>
          obtain ⟨rfl, rfl⟩ := List.cons.inj hcode
          simp [hi] at hj
        | cons hi₁ hbefore =>
          obtain ⟨rfl, rfl⟩ := List.cons.inj hcode
          obtain ⟨rfl, rfl⟩ : w = _ ∧ pool₁ = _ := by simpa [hi] using hi₁
          refine ⟨_, j, after, _, pool', rfl, hbefore, hj, ?_⟩
          simp only [hindex, Array.size_push, List.length_cons]
          omega

theorem encodeAll_error {index : Nat} {cause : CodecError} :
    encodeAll code = .error ⟨index, cause⟩ ↔
      ∃ before i after ws pool, code = before ++ i :: after ∧ Encodes #[] before ws pool ∧
        i.encode pool = .error ⟨cause, pool⟩ ∧ index = before.length := by
  rw [encodeAll, encodeFrom_error]
  simp

theorem encode_grows (h : i.encode pool = .ok (w, pool')) : pool.toList <+: pool'.toList := by
  rcases encode_pool h with rfl | ⟨value, -, -, -, rfl⟩
  · exact List.prefix_refl _
  · simp

theorem Encodes.grows (h : Encodes pool code ws pool') : pool.toList <+: pool'.toList := by
  induction h with
  | nil => exact List.prefix_refl _
  | cons hi _ ih => exact (encode_grows hi).trans ih

theorem encode_size_le (h : i.encode pool = .ok (w, pool')) (hsize : pool.size ≤ limit) :
    pool'.size ≤ limit := by
  rcases encode_pool h with rfl | ⟨value, -, -, hroom, rfl⟩
  · exact hsize
  · rw [Array.size_push]
    exact hroom

theorem Encodes.size_le (h : Encodes pool code ws pool') (hsize : pool.size ≤ limit) :
    pool'.size ≤ limit := by
  induction h with
  | nil => exact hsize
  | cons hi _ ih => exact ih (encode_size_le hi hsize)

/-- Words are written against a pool that goes on growing, and mean the same at its end. -/
theorem Encodes.words (h : Encodes pool code ws pool') (hsize : pool.size ≤ limit) :
    (∀ w ∈ ws, w.Legal pool'.size) ∧ ws.map (Word.instruction pool'.toList) = code := by
  induction h with
  | nil => simp
  | cons hi htail ih =>
    obtain ⟨hlegal, hmeans⟩ := encode_word hi hsize htail.grows
    obtain ⟨hlegals, hmeant⟩ := ih (encode_size_le hi hsize)
    constructor
    · rintro w (_ | ⟨_, hw⟩)
      · simpa using hlegal
      · exact hlegals w hw
    · rw [List.map_cons, hmeans, hmeant]

theorem encode_drawn (h : i.encode pool = .ok (w, pool')) (hp : Drawn source pool)
    (hi : ∀ value, i.constant? = some value → value ∈ source) : Drawn source pool' := by
  rcases encode_pool h with rfl | ⟨value, hvalue, hnew, -, rfl⟩
  · exact hp
  · exact hp.push hnew (hi value hvalue)

/-- A sequence whose constants fit a pool can be encoded, and takes up no more room. -/
theorem exists_encodes (hcode : constants code ⊆ source) (hroom : source.length ≤ limit)
    (hp : Drawn source pool) :
    ∃ ws pool', Encodes pool code ws pool' ∧ Drawn source pool' := by
  induction code generalizing pool with
  | nil => exact ⟨[], pool, .nil, hp⟩
  | cons i code ih =>
    have hi : ∀ value, i.constant? = some value → value ∈ source := fun value hvalue =>
      hcode (List.mem_filterMap.mpr ⟨i, by simp, hvalue⟩)
    have htail : constants code ⊆ source := fun value hvalue => by
      obtain ⟨j, hj, hjv⟩ := List.mem_filterMap.mp hvalue
      exact hcode (List.mem_filterMap.mpr ⟨j, by simp [hj], hjv⟩)
    obtain ⟨w, pool₁, hencode⟩ : ∃ w pool₁, i.encode pool = .ok (w, pool₁) :=
      exists_encode fun value hvalue =>
        (hp.mem_or_lt (hi value hvalue)).imp_right fun h => Nat.lt_of_lt_of_le h hroom
    obtain ⟨ws, pool', htail, hdrawn⟩ := ih htail (encode_drawn hencode hp hi)
    exact ⟨w :: ws, pool', .cons hencode htail, hdrawn⟩

end Instruction

end ClosureMachine

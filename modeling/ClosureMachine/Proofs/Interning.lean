import Mathlib.Data.Finset.Card
import Mathlib.Data.List.Induction
import ClosureMachine.Proofs.FarConstants

/-!
# What a sequence leaves in its pool

A sequence that is encoded from an empty pool leaves its constants there, without repetitions and
in the order in which they are first used (`Encodes.pool_eq`). Each word is then the one that its
instruction has beside that pool (`Encodes.words_eq`), so a pool fixes the words. Encoding fails
when, and where, one distinct constant too many comes up: `interning_keeps_first_uses`.
-/

namespace ClosureMachine

open ConstantPool (FirstAt)

-- ---------------------------------------------------------------------------
-- Values without repetitions
-- ---------------------------------------------------------------------------

section Lists

variable {α : Type} [DecidableEq α]

theorem eraseDups_concat_of_mem {l : List α} {a : α} (h : a ∈ l) :
    (l ++ [a]).eraseDups = l.eraseDups := by
  simp [List.eraseDups_append, List.removeAll, h]

theorem eraseDups_concat_of_not_mem {l : List α} {a : α} (h : a ∉ l) :
    (l ++ [a]).eraseDups = l.eraseDups ++ [a] := by
  simp [List.eraseDups_append, List.removeAll, List.eraseDups_cons, h]

theorem nodup_eraseDups (l : List α) : l.eraseDups.Nodup := by
  induction l using List.reverseRecOn with
  | nil => simp
  | append_singleton l a ih =>
    by_cases ha : a ∈ l
    · rwa [eraseDups_concat_of_mem ha]
    · rw [eraseDups_concat_of_not_mem ha, ← List.concat_eq_append]
      exact ih.concat (by simpa using ha)

theorem length_eraseDups (l : List α) : l.eraseDups.length = l.toFinset.card := by
  have hsame : l.eraseDups.toFinset = l.toFinset := by
    ext a
    simp
  rw [← hsame, List.toFinset_card_of_nodup (nodup_eraseDups l)]

end Lists

-- ---------------------------------------------------------------------------
-- One instruction
-- ---------------------------------------------------------------------------

theorem ConstantPool.FirstAt.idxOf_eq {pool : ConstantPool} {value : Number} {n : Nat}
    (h : FirstAt pool value n) : pool.toList.idxOf value = n := by
  obtain ⟨hlt, hhere⟩ := Array.getElem?_eq_some_iff.mp h.here
  refine (List.findIdx_eq hlt).mpr ⟨by simpa using hhere, fun j hj => ?_⟩
  have hjlt : j < pool.size := Nat.lt_trans hj hlt
  simpa [hjlt] using h.before j hj

namespace Instruction

open ConstantPool (limit)

variable {i : Instruction} {w : Word} {pool pool' : ConstantPool} {q seen : List Number}
  {code : List Instruction} {ws : List Word}

/-- The word of an instruction whose constant is named by its first position in `q`. -/
def word (q : List Number) : Instruction → Word
  | .makeFunction target code => .ofWide 1 target code
  | .bind index offset => .ofBytes 2 index offset 0
  | .add target left right => .ofBytes 3 target left right
  | .ret result => .ofBytes 4 result 0 0
  | .getUpvalue target index => .ofBytes 5 target index 0
  | .setUpvalue source index => .ofBytes 6 source index 0
  | .loadConstant target value => .ofWide 7 target (UInt16.ofNat (q.idxOf value))
  | .call function argBase argCount => .ofBytes 8 function argBase argCount
  | .copy target source => .ofBytes 9 target source 0
  | .halt => .ofBytes 10 0 0 0

theorem encode_eq_word (h : i.encode pool = .ok (w, pool')) : w = i.word pool'.toList := by
  cases i with
  | loadConstant target value =>
    simp only [encode, except_bind_ok, except_pure_ok, Prod.exists, Prod.mk.injEq] at h
    obtain ⟨k, q, hintern, rfl, rfl⟩ := h
    obtain ⟨n, hfirst, rfl⟩ := ConstantPool.intern_first hintern
    rw [word, hfirst.idxOf_eq]
    rfl
  | _ =>
    simp only [encode, Except.ok.injEq, Prod.mk.injEq] at h
    exact h.1.symm

/-- Constants behind the others leave the word as it is. -/
theorem word_grown (hq : pool.toList <+: q)
    (hmem : ∀ value, i.constant? = some value → value ∈ pool) :
    i.word q = i.word pool.toList := by
  obtain ⟨later, rfl⟩ := hq
  cases i with
  | loadConstant target value =>
    have hvalue : value ∈ pool.toList := Array.mem_toList_iff.mpr (hmem value rfl)
    rw [word, word, List.idxOf_append_of_mem hvalue]
  | _ => rfl

theorem encode_mem (h : i.encode pool = .ok (w, pool')) {value : Number}
    (hvalue : i.constant? = some value) : value ∈ pool' := by
  cases i with
  | loadConstant target value =>
    obtain rfl := Option.some.inj hvalue
    simp only [encode, except_bind_ok, except_pure_ok, Prod.exists, Prod.mk.injEq] at h
    obtain ⟨k, q, hintern, -, rfl⟩ := h
    obtain ⟨n, hfirst, -⟩ := ConstantPool.intern_first hintern
    exact Array.mem_of_getElem? hfirst.here
  | _ => simp [constant?] at hvalue

/-- A pool that holds what has been seen goes on holding it. -/
theorem encode_pool_eq (h : i.encode pool = .ok (w, pool')) (hp : pool.toList = seen.eraseDups) :
    pool'.toList = (seen ++ i.constant?.toList).eraseDups := by
  have hseen : ∀ value, value ∈ pool ↔ value ∈ seen := fun value => by
    rw [← Array.mem_toList_iff, hp, List.mem_eraseDups]
  rcases encode_pool h with rfl | ⟨value, hvalue, hnew, -, rfl⟩
  · cases hvalue : i.constant? with
    | none => simpa using hp
    | some value =>
      have hmem := (hseen value).mp (encode_mem h hvalue)
      rw [Option.toList_some, eraseDups_concat_of_mem hmem, hp]
  · have hnotseen : value ∉ seen := fun hmem => hnew ((hseen value).mpr hmem)
    rw [hvalue, Option.toList_some, eraseDups_concat_of_not_mem hnotseen, Array.toList_push, hp]

-- ---------------------------------------------------------------------------
-- Sequences
-- ---------------------------------------------------------------------------

theorem constants_cons (i : Instruction) (code : List Instruction) :
    constants (i :: code) = i.constant?.toList ++ constants code := by
  cases h : i.constant? <;> simp [constants, h]

theorem Encodes.pool_eq_of_seen (h : Encodes pool code ws pool')
    (hp : pool.toList = seen.eraseDups) : pool'.toList = (seen ++ constants code).eraseDups := by
  induction h generalizing seen with
  | nil => simpa [constants] using hp
  | cons hi _ ih => rw [ih (encode_pool_eq hi hp), constants_cons, List.append_assoc]

theorem Encodes.pool_eq (h : Encodes #[] code ws pool) :
    pool.toList = (constants code).eraseDups := by
  have hempty : (#[] : ConstantPool).toList = ([] : List Number).eraseDups := rfl
  simpa using h.pool_eq_of_seen hempty

theorem Encodes.words_eq (h : Encodes pool code ws pool') :
    ws = code.map (word pool'.toList) := by
  induction h with
  | nil => rfl
  | cons hi htail ih =>
    rw [List.map_cons, ih, word_grown htail.grows fun _ => encode_mem hi, ← encode_eq_word hi]

theorem Encodes.size_eq (h : Encodes #[] code ws pool) :
    pool.size = (constants code).toFinset.card := by
  rw [← Array.length_toList, h.pool_eq, length_eraseDups]

/-- Encoding fails at a constant that is new while 65,536 others are in the pool. -/
theorem encodeAll_error_iff {failure : EncodeFailure} :
    encodeAll code = .error failure ↔
      ∃ before i after words pool value, code = before ++ i :: after ∧
        failure = ⟨before.length, .constantPoolFull⟩ ∧
        i.constant? = some value ∧ value ∉ constants before ∧
        encodeAll before = .ok (words, pool) ∧ pool.size = 65536 := by
  obtain ⟨index, cause⟩ := failure
  rw [encodeAll_error]
  constructor
  · rintro ⟨before, i, after, ws, pool, hcode, hbefore, herr, hindex⟩
    obtain ⟨hcause, -, hfull, value, hvalue, hnew⟩ := encode_error.mp herr
    have hsize := Nat.le_antisymm (hbefore.size_le (Nat.zero_le _)) hfull
    refine ⟨before, i, after, ws.toArray, pool, value, hcode, by rw [hindex, hcause], hvalue, ?_,
      encodeAll_ok.mpr hbefore, hsize⟩
    rwa [← List.mem_eraseDups, ← hbefore.pool_eq, Array.mem_toList_iff]
  · rintro ⟨before, i, after, words, pool, value, hcode, hfailure, hvalue, hnew, hok, hsize⟩
    obtain ⟨rfl, rfl⟩ := EncodeFailure.mk.inj hfailure
    have hbefore := encodeAll_ok.mp hok
    refine ⟨before, i, after, words.toList, pool, hcode, hbefore, ?_, rfl⟩
    refine encode_error.mpr ⟨rfl, rfl, Nat.le_of_eq hsize.symm, value, hvalue, ?_⟩
    rwa [← Array.mem_toList_iff, hbefore.pool_eq, List.mem_eraseDups]

/-- A new constant behind 65,536 distinct ones is one too many. -/
theorem card_gt_of_error {failure : EncodeFailure} (h : encodeAll code = .error failure) :
    65536 < (constants code).toFinset.card := by
  obtain ⟨before, i, after, words, pool, value, rfl, -, hvalue, hnew, hok, hsize⟩ :=
    encodeAll_error_iff.mp h
  have hcard : (insert value (constants before).toFinset).card = 65536 + 1 := by
    rw [Finset.card_insert_of_notMem (by simpa using hnew), ← (encodeAll_ok.mp hok).size_eq, hsize]
  rw [Nat.lt_iff_add_one_le, ← hcard]
  refine Finset.card_le_card fun k hk => ?_
  have hsplit : constants (before ++ i :: after) =
      constants before ++ (value :: constants after) := by
    rw [constants, List.filterMap_append, ← constants, ← constants, constants_cons, hvalue]
    rfl
  rw [hsplit]
  simp only [Finset.mem_insert, List.mem_toFinset] at hk
  simp only [List.mem_toFinset, List.mem_append, List.mem_cons]
  tauto

theorem encodeAll_ok_iff :
    (∃ r, encodeAll code = .ok r) ↔ (constants code).toFinset.card ≤ 65536 := by
  constructor
  · rintro ⟨⟨words, pool⟩, hok⟩
    have hencodes := encodeAll_ok.mp hok
    rw [← hencodes.size_eq]
    exact hencodes.size_le (Nat.zero_le _)
  · intro hcard
    cases h : encodeAll code with
    | ok r => exact ⟨r, rfl⟩
    | error failure => exact absurd (card_gt_of_error h) (Nat.not_lt.mpr hcard)

/-- In a whole sequence no position is narrowed. -/
theorem Encodes.word_loadConstant (h : Encodes #[] code ws pool) {n : Nat} {target : UInt8}
    {value : Number} (hn : code[n]? = some (.loadConstant target value)) :
    ∃ w, ws[n]? = some w ∧ w.op = 7 ∧ w.a = target ∧
      w.bx.toNat = (constants code).eraseDups.idxOf value := by
  have hmem : value ∈ pool.toList := by
    rw [h.pool_eq, List.mem_eraseDups]
    exact List.mem_filterMap.mpr ⟨_, List.mem_of_getElem? hn, rfl⟩
  have hlt : pool.toList.idxOf value < UInt16.size :=
    Nat.lt_of_lt_of_le (List.idxOf_lt_length_of_mem hmem) (h.size_le (Nat.zero_le _))
  refine ⟨.ofWide 7 target (UInt16.ofNat (pool.toList.idxOf value)), ?_, by simp, by simp, ?_⟩
  · rw [h.words_eq, List.getElem?_map, hn]
    rfl
  · rw [Word.bx_ofWide, UInt16.toNat_ofNat_of_lt' hlt, h.pool_eq]

/-- A sequence can be encoded if and only if it has at most 65,536 distinct constants. These are
then the pool, in the order of their first uses, and a word that loads a constant holds its position
there. Otherwise encoding stops at the constant that is the first to be one too many. -/
theorem interning_keeps_first_uses (code : List Instruction) :
    ((∃ r, encodeAll code = .ok r) ↔ (constants code).toFinset.card ≤ 65536) ∧
    (∀ words pool, encodeAll code = .ok (words, pool) →
      pool.toList = (constants code).eraseDups ∧ words.size = code.length ∧
      ∀ (n : Nat) target value, code[n]? = some (.loadConstant target value) →
        ∃ w, words[n]? = some w ∧ w.op = 7 ∧ w.a = target ∧
          w.bx.toNat = (constants code).eraseDups.idxOf value) ∧
    ∀ failure, encodeAll code = .error failure ↔
      ∃ before i after words pool value, code = before ++ i :: after ∧
        failure = ⟨before.length, .constantPoolFull⟩ ∧
        i.constant? = some value ∧ value ∉ constants before ∧
        encodeAll before = .ok (words, pool) ∧ pool.size = 65536 := by
  refine ⟨encodeAll_ok_iff, fun words pool hok => ?_, fun failure => encodeAll_error_iff⟩
  have hencodes := encodeAll_ok.mp hok
  refine ⟨hencodes.pool_eq, ?_, fun n target value hn => ?_⟩
  · simpa using congrArg List.length hencodes.words_eq
  · simpa using hencodes.word_loadConstant hn

/-- `n` instructions, each with a constant of its own. -/
def distinctLoads (n : Nat) : List Instruction :=
  (List.range n).map fun k => .loadConstant 0 ⟨UInt64.ofNat k⟩

theorem constants_distinctLoads (n : Nat) :
    constants (distinctLoads n) = (List.range n).map fun k => ⟨UInt64.ofNat k⟩ := by
  rw [constants, distinctLoads, List.filterMap_map]
  exact congrFun List.filterMap_eq_map _

theorem nodup_distinctLoads {n : Nat} (hn : n ≤ UInt64.size) :
    (constants (distinctLoads n)).Nodup := by
  rw [constants_distinctLoads]
  refine List.nodup_range.map_on fun j hj k hk hsame => ?_
  have hj : j < n := List.mem_range.mp hj
  have hk : k < n := List.mem_range.mp hk
  have hbits := congrArg UInt64.toNat (Number.mk.inj hsame)
  rwa [UInt64.toNat_ofNat_of_lt' (by omega), UInt64.toNat_ofNat_of_lt' (by omega)] at hbits

theorem card_distinctLoads {n : Nat} (hn : n ≤ UInt64.size) :
    (constants (distinctLoads n)).toFinset.card = n := by
  rw [List.toFinset_card_of_nodup (nodup_distinctLoads hn), constants_distinctLoads]
  simp

theorem take_distinctLoads {k n : Nat} (hk : k ≤ n) :
    (distinctLoads n).take k = distinctLoads k := by
  rw [distinctLoads, ← List.map_take, List.take_range, Nat.min_eq_left hk, distinctLoads]

/-- As many constants as fit, and one more. -/
theorem interning_keeps_first_uses_distinctLoads :
    (∃ r, encodeAll (distinctLoads 65536) = .ok r) ∧
      encodeAll (distinctLoads 65537) = .error ⟨65536, .constantPoolFull⟩ := by
  obtain ⟨hfits, -, -⟩ := interning_keeps_first_uses (distinctLoads 65536)
  obtain ⟨hmany, -, hfails⟩ := interning_keeps_first_uses (distinctLoads 65537)
  refine ⟨hfits.mpr (Nat.le_of_eq (card_distinctLoads (by decide))), ?_⟩
  cases h : encodeAll (distinctLoads 65537) with
  | ok r =>
    have hle := hmany.mp ⟨r, h⟩
    rw [card_distinctLoads (by decide)] at hle
    exact absurd hle (by decide)
  | error failure =>
    obtain ⟨before, i, after, words, pool, value, hcode, rfl, -, -, hok, hsize⟩ :=
      (hfails failure).mp h
    have hfront : before <+: distinctLoads 65537 := ⟨i :: after, hcode.symm⟩
    have hle : before.length ≤ 65537 := by simpa [distinctLoads] using hfront.length_le
    have hbefore : before = distinctLoads before.length :=
      (List.prefix_iff_eq_take.mp hfront).trans (take_distinctLoads hle)
    have hcard := (encodeAll_ok.mp hok).size_eq
    rw [hbefore, card_distinctLoads (Nat.le_trans hle (by decide)), hsize] at hcard
    rw [← hcard]

end Instruction

end ClosureMachine

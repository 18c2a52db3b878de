import ClosureMachine.Proofs.Encoding

/-!
# Constants that no word can name

An encoded constant is named by the first position at which the pool holds it, narrowed to sixteen
bits. Interning never makes a pool longer than sixteen bits can count, but it may be given one, and
a constant that first stands beyond the 65,536th position is then named by the position of another.
Only such constants are lost: `encode_loses_only_far_constants`.
-/

namespace ClosureMachine

namespace ConstantPool

variable {pool q : ConstantPool} {value : Number} {k : UInt16} {n : Nat}

/-- The first position at which the pool holds `value`. -/
structure FirstAt (pool : ConstantPool) (value : Number) (n : Nat) : Prop where
  here : pool[n]? = some value
  before : ∀ j < n, pool[j]? ≠ some value

theorem idxOf?_eq_some : pool.idxOf? value = some n ↔ FirstAt pool value n := by
  rw [Array.idxOf?_eq_map_finIdxOf?_val, Option.map_eq_some_iff]
  constructor
  · rintro ⟨i, hi, rfl⟩
    obtain ⟨hhere, hbefore⟩ := Array.finIdxOf?_eq_some_iff.mp hi
    refine ⟨by simp [← hhere], fun j hj hvalue => ?_⟩
    obtain ⟨hlt, heq⟩ := Array.getElem?_eq_some_iff.mp hvalue
    exact hbefore ⟨j, hlt⟩ hj heq
  · rintro ⟨hhere, hbefore⟩
    obtain ⟨hlt, heq⟩ := Array.getElem?_eq_some_iff.mp hhere
    refine ⟨⟨n, hlt⟩, Array.finIdxOf?_eq_some_iff.mpr ⟨heq, fun j hj hvalue => ?_⟩, rfl⟩
    exact hbefore j hj (Array.getElem?_eq_some_iff.mpr ⟨j.isLt, hvalue⟩)

theorem FirstAt.intern_eq (h : FirstAt pool value n) :
    pool.intern value = .ok (UInt16.ofNat n, pool) := by
  rw [intern, idxOf?_eq_some.mpr h]

theorem intern_first (h : pool.intern value = .ok (k, q)) :
    ∃ n, FirstAt q value n ∧ k = UInt16.ofNat n := by
  unfold intern at h
  split at h
  · next n hn =>
    simp only [Except.ok.injEq, Prod.mk.injEq] at h
    obtain ⟨rfl, rfl⟩ := h
    exact ⟨n, idxOf?_eq_some.mp hn, rfl⟩
  · next hnone =>
    split at h
    · simp at h
    · simp only [Except.ok.injEq, Prod.mk.injEq] at h
      obtain ⟨rfl, rfl⟩ := h
      have hnew := Array.idxOf?_eq_none_iff.mp hnone
      refine ⟨pool.size, ⟨Array.getElem?_push_size, fun j hj hvalue => hnew ?_⟩, rfl⟩
      rw [Array.getElem?_push_lt hj] at hvalue
      exact Option.some.inj hvalue ▸ Array.getElem_mem hj

theorem FirstAt.mem_take_iff (h : FirstAt pool value n) :
    value ∈ pool.toList.take 65536 ↔ n < 65536 := by
  obtain ⟨hlt, hhere⟩ := Array.getElem?_eq_some_iff.mp h.here
  rw [List.mem_take_iff_getElem]
  constructor
  · rintro ⟨j, hj, hvalue⟩
    obtain ⟨hnear, hjlt⟩ := Nat.lt_min.mp hj
    refine Nat.lt_of_not_le fun hfar => h.before j (Nat.lt_of_lt_of_le hnear hfar) ?_
    exact Array.getElem?_eq_some_iff.mpr ⟨hjlt, hvalue⟩
  · intro hnear
    exact ⟨n, Nat.lt_min.mpr ⟨hnear, hlt⟩, hhere⟩

/-- Narrowing a position leads to the constant if and only if it changes nothing. -/
theorem FirstAt.narrowed_iff (h : FirstAt pool value n) :
    pool[(UInt16.ofNat n).toNat]? = some value ↔ n < 65536 := by
  rw [UInt16.toNat_ofNat']
  constructor
  · intro hvalue
    refine Nat.lt_of_not_le fun hfar => h.before _ ?_ hvalue
    exact Nat.lt_of_lt_of_le (Nat.mod_lt n (by decide)) hfar
  · intro hnear
    rw [Nat.mod_eq_of_lt hnear]
    exact h.here

/-- A pool whose constants are their own positions. -/
def counting (n : Nat) : ConstantPool := (Array.range n).map fun k => ⟨UInt64.ofNat k⟩

theorem counting_getElem? {j : Nat} (hj : j < n) : (counting n)[j]? = some ⟨UInt64.ofNat j⟩ := by
  simp [counting, hj]

theorem counting_firstAt {j : Nat} (hj : j < n) (hn : n ≤ UInt64.size) :
    FirstAt (counting n) ⟨UInt64.ofNat j⟩ j := by
  refine ⟨counting_getElem? hj, fun l hl hsame => ?_⟩
  rw [counting_getElem? (Nat.lt_trans hl hj)] at hsame
  have hbits := congrArg UInt64.toNat (Number.mk.inj (Option.some.inj hsame))
  rw [UInt64.toNat_ofNat_of_lt' (by omega), UInt64.toNat_ofNat_of_lt' (by omega)] at hbits
  omega

end ConstantPool

namespace Instruction

variable {i : Instruction} {w : Word} {pool q : ConstantPool}

/-- What a word stands for does not change when constants are added behind the others. -/
theorem decode_grown (hq : pool.toList <+: q.toList) (h : decode w pool = .ok i) :
    decode w q = .ok i := by
  obtain ⟨hlegal, rfl⟩ := decode_ok.mp h
  have hle : pool.size ≤ q.size := by simpa using hq.length_le
  refine decode_ok.mpr ⟨⟨hlegal.op, fun hseven => ?_⟩, ?_⟩
  · exact Nat.lt_of_lt_of_le (hlegal.constant hseven) hle
  · unfold Word.instruction
    split
    case h_7 hseven =>
      obtain ⟨later, hlater⟩ := hq
      have hlt : w.bx.toNat < pool.toList.length := by simpa using hlegal.constant hseven
      rw [← hlater, List.getElem?_append_left hlt]
    all_goals rfl

theorem decode_loadConstant {target : UInt8} {k : UInt16} {value : Number} :
    decode (.ofWide 7 target k) q = .ok (.loadConstant target value) ↔
      q[k.toNat]? = some value := by
  rw [decode_ok]
  constructor
  · rintro ⟨hlegal, hmeans⟩
    have hlt : k.toNat < q.size := by simpa using hlegal.constant (by simp)
    simpa [Word.instruction, hlt] using hmeans
  · intro hvalue
    obtain ⟨hlt, hvalue⟩ := Array.getElem?_eq_some_iff.mp hvalue
    exact ⟨⟨by simp, fun _ => by simpa using hlt⟩, by simp [Word.instruction, hlt, hvalue]⟩

/-- What carries no constant is encoded without the pool. -/
theorem encode_empty (hnone : i.constant? = none) (h : i.encode pool = .ok (w, q)) :
    i.encode #[] = .ok (w, #[]) := by
  cases i with
  | loadConstant target value => simp [constant?] at hnone
  | _ =>
    simp only [encode, Except.ok.injEq, Prod.mk.injEq] at h ⊢
    exact ⟨h.1, trivial⟩

theorem decode_encode_iff (h : i.encode pool = .ok (w, q)) :
    decode w q = .ok i ↔ ∀ value, i.constant? = some value → value ∈ q.toList.take 65536 := by
  cases i with
  | loadConstant target value =>
    simp only [encode, except_bind_ok, except_pure_ok, Prod.exists, Prod.mk.injEq] at h
    obtain ⟨k, q, hintern, rfl, rfl⟩ := h
    obtain ⟨n, hfirst, rfl⟩ := ConstantPool.intern_first hintern
    simp only [constant?, Option.some.injEq, forall_eq', hfirst.mem_take_iff]
    exact decode_loadConstant.trans hfirst.narrowed_iff
  | _ =>
    obtain ⟨hlegal, hmeans⟩ :=
      encode_word (encode_empty rfl h) (Nat.zero_le _) q.toList.nil_prefix
    have hback := decode_ok.mpr ⟨by simpa using hlegal, hmeans⟩
    simp [hback, constant?]

theorem encode_size_succ (h : i.encode pool = .ok (w, q)) : q.size ≤ pool.size + 1 := by
  rcases encode_pool h with rfl | ⟨value, -, -, -, rfl⟩
  · exact Nat.le_succ _
  · exact Nat.le_of_eq (Array.size_push ..)

/-- Encoding adds one constant at most, behind the others, so words that stood for something
still stand for it. The new word stands for the instruction if and only if its constant is among
the first 65,536 of the pool, which it always is when no more were given. Encoding fails when the
pool is full and lacks the constant, and then leaves the pool as it was. -/
theorem encode_loses_only_far_constants (i : Instruction) (pool : ConstantPool) :
    (∀ w q, i.encode pool = .ok (w, q) →
      pool.toList <+: q.toList ∧ q.size ≤ pool.size + 1 ∧
      (decode w q = .ok i ↔ ∀ value, i.constant? = some value → value ∈ q.toList.take 65536) ∧
      (pool.size ≤ 65536 → decode w q = .ok i) ∧
      ∀ v j, decode v pool = .ok j → decode v q = .ok j) ∧
    ∀ e q, i.encode pool = .error ⟨e, q⟩ ↔
      e = .constantPoolFull ∧ q = pool ∧ 65536 ≤ pool.size ∧
        ∃ value, i.constant? = some value ∧ value ∉ pool := by
  refine ⟨fun w q h => ?_, fun e q => encode_error⟩
  have hgrows := encode_grows h
  refine ⟨hgrows, encode_size_succ h, decode_encode_iff h, fun hsize => ?_,
    fun v j => decode_grown hgrows⟩
  obtain ⟨hlegal, hmeans⟩ := encode_word h hsize (List.prefix_refl _)
  exact decode_ok.mpr ⟨by simpa using hlegal, hmeans⟩

open ConstantPool (counting counting_getElem? counting_firstAt)

theorem encode_counting (target : UInt8) {j n : Nat} (hj : j < n) (hn : n ≤ UInt64.size) :
    encode (.loadConstant target ⟨UInt64.ofNat j⟩) (counting n) =
      .ok (.ofWide 7 target (UInt16.ofNat j), counting n) := by
  simp only [encode, (counting_firstAt hj hn).intern_eq]
  rfl

/-- The last constant that can be named, in a pool with one more. -/
theorem encode_loses_only_far_constants_counting :
    encode (.loadConstant 1 ⟨65535⟩) (counting 65537) = .ok (.ofWide 7 1 65535, counting 65537) ∧
      (⟨65535⟩ : Number) ∈ (counting 65537).toList.take 65536 ∧
      decode (.ofWide 7 1 65535) (counting 65537) = .ok (.loadConstant 1 ⟨65535⟩) := by
  have hencode : encode (.loadConstant 1 ⟨65535⟩) (counting 65537) =
      .ok (.ofWide 7 1 65535, counting 65537) := encode_counting 1 (by decide) (by decide)
  have hfirst : ConstantPool.FirstAt (counting 65537) ⟨65535⟩ 65535 :=
    counting_firstAt (by decide) (by decide)
  have hnear := hfirst.mem_take_iff.mpr (by decide)
  obtain ⟨hok, -⟩ := encode_loses_only_far_constants (.loadConstant 1 ⟨65535⟩) (counting 65537)
  obtain ⟨-, -, hback, -⟩ := hok _ _ hencode
  refine ⟨hencode, hnear, hback.mpr fun value hvalue => ?_⟩
  obtain rfl := Option.some.inj hvalue
  exact hnear

/-- Its neighbour is named by position 0, where another constant stands. -/
theorem far_constant_is_lost :
    encode (.loadConstant 0 ⟨65536⟩) (counting 65537) = .ok (.ofWide 7 0 0, counting 65537) ∧
      decode (.ofWide 7 0 0) (counting 65537) = .ok (.loadConstant 0 ⟨0⟩) ∧
      decode (.ofWide 7 0 0) (counting 65537) ≠ .ok (.loadConstant 0 ⟨65536⟩) := by
  have hdecode : decode (.ofWide 7 0 0) (counting 65537) = .ok (.loadConstant 0 ⟨0⟩) :=
    decode_loadConstant.mpr (counting_getElem? (by decide))
  refine ⟨encode_counting 0 (by decide) (by decide), hdecode, ?_⟩
  simp [hdecode]

end Instruction

end ClosureMachine

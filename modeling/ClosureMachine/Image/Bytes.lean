/-!
# Little-endian fields

Integers of a fixed width, least significant byte first.
-/

namespace ClosureMachine.Image

/-- The number whose base-256 digits are `bytes`, least significant first. -/
def littleEndian : List UInt8 → Nat
  | [] => 0
  | b :: rest => b.toNat + 256 * littleEndian rest

/-- The low `width` base-256 digits of `n`. -/
def digits256 : (width n : Nat) → List UInt8
  | 0, _ => []
  | width + 1, n => UInt8.ofNat n :: digits256 width (n / 256)

@[simp] theorem length_digits256 (width n : Nat) : (digits256 width n).length = width := by
  induction width generalizing n with
  | zero => rfl
  | succ width ih => simp [digits256, ih]

theorem littleEndian_digits256 (width n : Nat) :
    littleEndian (digits256 width n) = n % Nat.pow 256 width := by
  induction width generalizing n with
  | zero => simp [digits256, littleEndian, Nat.pow, Nat.mod_one]
  | succ width ih =>
    have hp : Nat.pow 256 (width + 1) = 256 * Nat.pow 256 width := Nat.mul_comm ..
    rw [digits256, littleEndian, ih, hp, Nat.mod_mul]
    simp

theorem littleEndian_lt (bytes : List UInt8) :
    littleEndian bytes < Nat.pow 256 bytes.length := by
  induction bytes with
  | nil => exact Nat.one_pos
  | cons b rest ih =>
    have hb := b.toNat_lt
    have hp : Nat.pow 256 (rest.length + 1) = 256 * Nat.pow 256 rest.length := Nat.mul_comm ..
    rw [littleEndian, List.length_cons, hp]
    omega

theorem digits256_littleEndian (bytes : List UInt8) :
    digits256 bytes.length (littleEndian bytes) = bytes := by
  induction bytes with
  | nil => rfl
  | cons b rest ih =>
    have hb := b.toNat_lt
    have hdiv : (b.toNat + 256 * littleEndian rest) / 256 = littleEndian rest := by omega
    have hmod : UInt8.ofNat (b.toNat + 256 * littleEndian rest) = b := by
      apply UInt8.toNat_inj.mp
      rw [UInt8.toNat_ofNat']
      omega
    rw [List.length_cons, digits256, littleEndian, hdiv, hmod, ih]

/-- The first `n` bytes and what follows them, if there are so many. -/
def splitBytes? (n : Nat) (bytes : List UInt8) : Option (List UInt8 × List UInt8) :=
  let front := bytes.take n
  if front.length = n then some (front, bytes.drop n) else none

theorem splitBytes?_append {n : Nat} {front : List UInt8} (h : front.length = n)
    (rest : List UInt8) : splitBytes? n (front ++ rest) = some (front, rest) := by
  subst h
  simp [splitBytes?]

theorem eq_append_of_splitBytes? {n : Nat} {bytes front rest : List UInt8}
    (h : splitBytes? n bytes = some (front, rest)) :
    bytes = front ++ rest ∧ front.length = n := by
  simp only [splitBytes?] at h
  split at h
  · next hl =>
    simp only [Option.some.injEq, Prod.mk.injEq] at h
    obtain ⟨rfl, rfl⟩ := h
    exact ⟨(List.take_append_drop n bytes).symm, hl⟩
  · simp at h

end ClosureMachine.Image

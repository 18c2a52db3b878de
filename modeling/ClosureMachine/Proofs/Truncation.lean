import ClosureMachine.Proofs.RoundTrip

/-!
# Images that end too early

A reader takes bytes off the front and decides by what it has taken. So more input does not
change an answer that was found before the input ended, be it a value or a refusal: every reader
of the format is `Steady`, field by field. A part of an accepted image can therefore be neither
accepted nor refused for what stands in it. All that is left is that it ends too early.
-/

namespace ClosureMachine.Image

/-- More input changes neither what `read` takes off the front nor why it refuses. Only a reader
that ran out of input may go on to anything else. -/
structure Steady {α : Type} (read : Reader α) : Prop where
  accepts : ∀ {bytes a rest}, read bytes = .ok (a, rest) →
    ∀ more, read (bytes ++ more) = .ok (a, rest ++ more)
  refuses : ∀ {bytes e}, read bytes = .error e → e ≠ .truncated →
    ∀ more, read (bytes ++ more) = .error e

section Steady

variable {α β : Type} {read : Reader α}

/-- Of an input that is accepted, a part that lacks bytes which the reader took ends too early. -/
theorem Steady.cut (h : Steady read) {part more rest : List UInt8} {a : α}
    (hwhole : read (part ++ more) = .ok (a, rest)) (hcut : rest.length < more.length) :
    read part = .error .truncated := by
  cases hpart : read part with
  | ok r =>
    obtain ⟨b, left⟩ := r
    have hsame := (h.accepts hpart more).symm.trans hwhole
    simp only [Except.ok.injEq, Prod.mk.injEq] at hsame
    have hlength := congrArg List.length hsame.2
    rw [List.length_append] at hlength
    omega
  | error e =>
    by_cases he : e = .truncated
    · rw [he]
    · simp [h.refuses hpart he more] at hwhole

theorem steady_ok (a : α) : Steady fun bytes => .ok (a, bytes) := by
  refine ⟨fun h more => ?_, fun h => ?_⟩
  · simp only [Except.ok.injEq, Prod.mk.injEq] at h
    obtain ⟨rfl, rfl⟩ := h
    rfl
  · simp at h

theorem steady_error (e : ImageError) : Steady fun _ => (.error e : Except _ (α × List UInt8)) :=
  ⟨fun h => by simp at h, fun h _ _ => h⟩

theorem Steady.bind (h : Steady read) {next : α × List UInt8 → Except ImageError (β × List UInt8)}
    (hnext : ∀ a, Steady fun bytes => next (a, bytes)) :
    Steady fun bytes => read bytes >>= next := by
  refine ⟨fun {bytes b rest} hb more => ?_, fun {bytes e} he hne more => ?_⟩
  · obtain ⟨⟨a, mid⟩, ha, hb⟩ := except_bind_ok.mp hb
    exact except_bind_ok.mpr ⟨_, h.accepts ha more, (hnext a).accepts hb more⟩
  · rcases except_bind_error.mp he with he | ⟨⟨a, mid⟩, ha, he⟩
    · exact except_bind_error.mpr (.inl (h.refuses he hne more))
    · exact except_bind_error.mpr (.inr ⟨_, h.accepts ha more, (hnext a).refuses he hne more⟩)

/-- The same for a reader that hands a refusal on by a `match` of its own. -/
theorem Steady.andThen (h : Steady read) {next : α → Reader β} (hnext : ∀ a, Steady (next a))
    {both : Reader β} (hboth : ∀ bytes, both bytes = read bytes >>= fun r => next r.1 r.2) :
    Steady both := by
  obtain rfl : both = fun bytes => read bytes >>= fun r => next r.1 r.2 := funext hboth
  exact h.bind hnext

theorem steady_ite (p : Prop) [Decidable p] {other : Reader α} (h : Steady read)
    (hother : Steady other) : Steady fun bytes => if p then read bytes else other bytes := by
  by_cases hp : p
  · simpa only [hp, if_true] using h
  · simpa only [hp, if_false] using hother

-- ---------------------------------------------------------------------------
-- Fields
-- ---------------------------------------------------------------------------

/-- Readers of plain bytes and numbers refuse nothing but input that ends too early. -/
theorem Reads.steady {σ : Type} {legal : σ → Prop} {spell : σ → List UInt8} {value : σ → α}
    (h : Reads read legal spell value)
    (honly : ∀ bytes e, read bytes = .error e → e = .truncated) : Steady read := by
  refine ⟨fun ha more => ?_, fun he hne => absurd (honly _ _ he) hne⟩
  obtain ⟨s, hs, rfl, rfl⟩ := h.inv ha
  rw [List.append_assoc]
  exact h.run hs _

theorem readBytes_steady (n : Nat) : Steady (readBytes n) := by
  refine (readBytes_reads n).steady fun bytes e he => ?_
  unfold readBytes at he
  split at he
  · simp at he
  · exact (Except.error.inj he).symm

theorem readNat_steady (width : Nat) : Steady (readNat width) := by
  refine (readNat_reads width).steady fun bytes e he => ?_
  unfold readNat at he
  split at he
  · simp at he
  · exact (Except.error.inj he).symm

theorem readLength_steady (limit : Nat) (tooLarge : Nat → ImageError) :
    Steady (readLength limit tooLarge) := by
  refine (readNat_steady 4).andThen
    (fun n => steady_ite (limit < n) (steady_error (tooLarge n)) (steady_ok n)) fun bytes => ?_
  unfold readLength
  cases readNat 4 bytes <;> rfl

theorem readConstant_steady : Steady readConstant := by
  refine (readNat_steady 8).andThen (fun n => steady_ok (Number.mk (UInt64.ofNat n)))
    fun bytes => ?_
  unfold readConstant
  cases readNat 8 bytes <;> rfl

theorem readMagic_steady : Steady readMagic := by
  refine (readBytes_steady magic.length).andThen
    (fun front => steady_ite (front = magic) (steady_ok ()) (steady_error .badMagic))
    fun bytes => ?_
  unfold readMagic
  cases readBytes magic.length bytes <;> rfl

theorem readName_steady : Steady readName := by
  refine (readLength_steady _ _).bind fun length => (readBytes_steady _).bind fun name => ?_
  cases hname : String.fromUTF8? ⟨name.toArray⟩ with
  | none =>
    simp only [hname]
    exact steady_error .badName
  | some s =>
    simp only [hname]
    exact steady_ok s

-- ---------------------------------------------------------------------------
-- Counted lists, blocks and programs
-- ---------------------------------------------------------------------------

theorem readMany_steady (h : Steady read) (n : Nat) (acc : Array α) :
    Steady (readMany read n acc) := by
  induction n generalizing acc with
  | zero => exact steady_ok acc
  | succ n ih =>
    refine h.andThen (fun a => ih (acc.push a)) fun bytes => ?_
    rw [readMany]
    cases read bytes <;> rfl

/-- With its word at hand, an instruction is refused or the next ones are read. -/
theorem steady_decode {code : String} {pool : ConstantPool} {n : Nat}
    (hrest : ∀ acc, Steady (readInstructions code pool n acc)) (acc : Array Instruction) (w : Nat) :
    Steady fun bytes =>
      match Instruction.decode (UInt32.ofNat w) pool with
      | .error cause => .error (.codec code acc.size cause)
      | .ok i => readInstructions code pool n (acc.push i) bytes := by
  cases hw : Instruction.decode (UInt32.ofNat w) pool with
  | error cause => exact steady_error (.codec code acc.size cause)
  | ok i => exact hrest (acc.push i)

theorem readInstructions_steady (code : String) (pool : ConstantPool) (n : Nat)
    (acc : Array Instruction) : Steady (readInstructions code pool n acc) := by
  induction n generalizing acc with
  | zero => exact steady_ok acc
  | succ n ih =>
    refine (readNat_steady 4).andThen (steady_decode ih acc) fun bytes => ?_
    rw [readInstructions]
    cases readNat 4 bytes <;> rfl

theorem readCode_steady : Steady readCode :=
  readName_steady.bind fun _ => (readNat_steady 2).bind fun _ =>
    (readLength_steady _ _).bind fun _ => (readMany_steady readConstant_steady _ _).bind fun _ =>
      (readLength_steady _ _).bind fun _ => (readInstructions_steady _ _ _ _).bind fun _ =>
        steady_ok _

theorem readProgram_steady : Steady readProgram :=
  readMagic_steady.bind fun _ => (readLength_steady _ _).bind fun _ =>
    (readMany_steady readCode_steady _ _).bind fun _ => (readNat_steady 2).bind fun _ =>
      steady_ok _

end Steady

/-- An image cut anywhere before its end is refused, and for its end alone. -/
theorem cut_image_is_truncated {bytes rest : List UInt8} {p : Program} {n : Nat}
    (h : readProgram bytes = .ok (p, rest)) (hn : bytes.length = n + rest.length) :
    ∀ m < n, readProgram (bytes.take m) = .error .truncated := by
  intro m hm
  have hwhole : readProgram (bytes.take m ++ bytes.drop m) = .ok (p, rest) := by
    rwa [List.take_append_drop]
  have hcut : rest.length < (bytes.drop m).length := by
    rw [List.length_drop]
    omega
  exact readProgram_steady.cut hwhole hcut

theorem cut_image_is_truncated_padded :
    readProgram (padded ++ [9]) = .ok (trimmed, [9]) ∧
      ∀ m < 57, readProgram ((padded ++ [9]).take m) = .error .truncated := by
  have hread : readProgram (padded ++ [9]) = .ok (trimmed, [9]) := rfl
  exact ⟨hread, cut_image_is_truncated hread rfl⟩

end ClosureMachine.Image

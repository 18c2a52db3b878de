import ClosureMachine.Proofs.LeewayRuns

/-!
# Capacities are only limits

The size of the stack and the number of frames decide whether a run goes on, and nothing else. A
run that has not run out of either ends in the same report or the same fault on every machine
that has more of both.
-/

namespace ClosureMachine

/-- The faults of a machine that has run out of room. -/
def Fault.isOverflow : Fault → Bool
  | .stackOverflow .. => true
  | .frameOverflow _ => true
  | _ => false

-- ---------------------------------------------------------------------------
-- Leeway in room alone
-- ---------------------------------------------------------------------------

theorem Value.Alike.eq {v v' : Value} (h : v.Alike Eq v') : v' = v := by
  cases h with
  | number hx => rw [hx]
  | function closure => rfl
  | uninitialized => rfl

theorem Report.Alike.eq {r r' : Report} (h : r.Alike Eq r') : r' = r := by
  obtain ⟨reason, base, registers⟩ := r
  obtain ⟨reason', base', registers'⟩ := r'
  obtain ⟨rfl, rfl, -, hregisters⟩ := h
  have heq : registers' = registers := by
    refine Array.ext_getElem? fun i => ?_
    have hi := hregisters i
    generalize registers[i]? = x at hi ⊢
    generalize registers'[i]? = y at hi ⊢
    cases hi with
    | none => rfl
    | some hv => rw [hv.eq]
  rw [heq]

theorem Program.alike_self (p : Program) : p.Alike Eq p :=
  ⟨rfl, .refl (fun _ => ⟨rfl, rfl, .refl .same _⟩) _⟩

namespace Machine

/-- Loads a program on a new machine and runs it until the machine stops or faults. -/
def runNew (config : Config) (p : Program) : Except Fault Report :=
  match load p (ofConfig config) with
  | .error e _ => .error e
  | .ok _ m => Outcome.result (interpret m)

variable {stackSize stackSize' maxFrames maxFrames' : Nat}

/-- Numbers are the same, and the second machine has at least the room of the first. -/
def roomier (hstack : stackSize ≤ stackSize') (hframes : maxFrames ≤ maxFrames') (scrubs : Bool) :
    Leeway where
  numbers := Eq
  refl _ := rfl
  add hx hy := by rw [hx, hy]
  small := ⟨stackSize, maxFrames, scrubs⟩
  large := ⟨stackSize', maxFrames', scrubs⟩
  scrubs := rfl
  stackSize_le := hstack
  maxFrames_le := hframes

theorem isOverflow_of_excuses {l : Leeway} {e : Fault} (h : l.Excuses e) : e.isOverflow = true := by
  cases e with
  | stackOverflow needed capacity => rfl
  | frameOverflow limit => rfl
  | _ => exact h.elim

/-- If a program loaded on a new machine and run there ends in a report or in a fault that is not
an overflow, then it ends in the same report or fault on a new machine with a larger stack and
room for more frames. -/
theorem capacities_only_limit (p : Program) (scrubs : Bool) (hstack : stackSize ≤ stackSize')
    (hframes : maxFrames ≤ maxFrames')
    (hroom : ∀ e, runNew ⟨stackSize, maxFrames, scrubs⟩ p = .error e → e.isOverflow = false) :
    runNew ⟨stackSize', maxFrames', scrubs⟩ p = runNew ⟨stackSize, maxFrames, scrubs⟩ p := by
  have hload := Leeway.load_ops (l := roomier hstack hframes scrubs) p.alike_self _ _
    Leeway.machines_ofConfig
  have hreach : Reachable ⟨stackSize, maxFrames, scrubs⟩
      ((ofConfig ⟨stackSize, maxFrames, scrubs⟩).request (.load p)) := Reachable.new.request _
  unfold runNew at hroom ⊢
  simp only [roomier, request] at hload hreach
  generalize load p (ofConfig ⟨stackSize, maxFrames, scrubs⟩) = x at hload hreach hroom ⊢
  generalize load p (ofConfig ⟨stackSize', maxFrames', scrubs⟩) = y at hload ⊢
  cases hload with
  | error e _ => rfl
  | excused he => simp [isOverflow_of_excuses he] at hroom
  | @ok _ _ a b _ hm =>
    have hrun := hm.interpret hreach
    simp only at hroom ⊢
    generalize interpret a = o at hrun hroom ⊢
    generalize interpret b = o' at hrun ⊢
    cases hrun with
    | ok hreport _ => exact congrArg Except.ok hreport.eq
    | error e _ => rfl
    | excused he =>
      have hfits := hroom _ rfl
      simp [isOverflow_of_excuses he] at hfits

/-- The entry calls a closure that reads and overwrites a register of the entry through its cell,
and leaves a number above its result. -/
def swapping : Program :=
  ⟨#[⟨"main", 4, #[.loadConstant 0 ⟨1⟩, .makeFunction 1 1, .bind 0 0, .call 1 2 0, .ret 2]⟩,
    ⟨"swap", 3, #[.getUpvalue 0 0, .loadConstant 2 ⟨2⟩, .setUpvalue 2 0, .ret 0]⟩], 0⟩

/-- Five slots and two frames are enough, and four slots are not. -/
theorem capacities_only_limit_swapping :
    let report : Report :=
      ⟨.entryReturn, 0, #[.number ⟨1⟩, .function 1, .number ⟨1⟩, .uninitialized]⟩
    runNew ⟨5, 2, true⟩ swapping = .ok report ∧ runNew ⟨12, 7, true⟩ swapping = .ok report ∧
      (runNew ⟨4, 2, true⟩ swapping).toOption = none := by
  intro report
  have hsmall : runNew ⟨5, 2, true⟩ swapping = .ok report := ok_of_toOption (by decide +kernel)
  have hlarge : runNew ⟨12, 7, true⟩ swapping = runNew ⟨5, 2, true⟩ swapping :=
    capacities_only_limit swapping true (by decide) (by decide) fun e he => by
      rw [hsmall] at he
      cases he
  exact ⟨hsmall, hlarge.trans hsmall, by decide +kernel⟩

end Machine

end ClosureMachine

import ClosureMachine.Proofs.LeewayRuns
import ClosureMachine.Proofs.MirroredRuns

/-!
# Numbers steer nothing

No instruction looks at the value of a number: adding asks for the kinds of its operands, and so
does calling. So two programs that differ only in the constants they load run in step. They push
and pop the same frames, make the same closures and cells, and stop or fail at the same
instruction with the same fault; the numbers that they have by then are all that differs.
-/

namespace ClosureMachine

/-- Any number may stand for any other. -/
abbrev AnyNumbers : Number → Number → Prop := fun _ _ => True

namespace Machine

/-- The machines are in the same state but for the numbers on the stack and in closed cells. -/
structure SameButNumbers (a b : Machine) : Prop where
  frames : b.frames = a.frames
  openCells : b.openCells = a.openCells
  pending : b.pending = a.pending
  highWater : b.highWater = a.highWater
  closures : b.heap.closures = a.heap.closures
  cells : Pointwise (Cell.Alike AnyNumbers) a.heap.cells b.heap.cells
  stack : Pointwise (Value.Alike AnyNumbers) a.stack b.stack

/-- Both machines have one configuration, and any number may stand for any other. -/
def renumbered (config : Config) : Leeway where
  numbers := AnyNumbers
  refl _ := trivial
  add _ _ := trivial
  small := config
  large := config
  scrubs := rfl
  stackSize_le := Nat.le.refl
  maxFrames_le := Nat.le.refl

variable {config : Config} {a b : Machine}

theorem renumbered_strict (e : Fault) : ¬ (renumbered config).Excuses e := by
  cases e with
  | stackOverflow needed capacity => exact Nat.lt_irrefl _
  | frameOverflow limit => exact Nat.lt_irrefl _
  | _ => exact id

theorem sameButNumbers_of_renumbered (h : (renumbered config).Machines a b) :
    a.SameButNumbers b := by
  refine ⟨h.frames, h.openCells, h.pending, h.highWater, h.closures, h.cells, fun slot => ?_⟩
  have ha : a.stack.size = config.stackSize := h.sizeSmall
  have hb : b.stack.size = config.stackSize := h.sizeLarge
  by_cases hslot : slot < config.stackSize
  · rw [slot?_eq_stackAt (ha ▸ hslot), slot?_eq_stackAt (hb ▸ hslot)]
    exact .some (h.stack slot)
  · rw [Array.getElem?_eq_none (ha ▸ Nat.le_of_not_lt hslot),
      Array.getElem?_eq_none (hb ▸ Nat.le_of_not_lt hslot)]
    exact .none

theorem sameEnd_of_renumbered {o o' : Outcome (Option Report)}
    (h : (renumbered config).Outcomes (Option.Rel (Report.Alike AnyNumbers)) o o') :
    SameEnd (Report.Alike AnyNumbers) o.result o'.result := by
  cases h with
  | ok hr hm =>
    cases hr with
    | none => exact .continues
    | some hr => exact .stops hr
  | error e hm => exact .faults e
  | excused he => exact absurd he (renumbered_strict _)

/-- Load two programs that differ only in the constants of their `loadConstant` instructions on
new machines with one configuration. Either both are refused with one fault or neither is. At
every time of the runs the machines are the same but for numbers, and the next step goes on in
both, fails in both with one fault, or stops both with reports that differ in numbers only. -/
theorem numbers_steer_nothing {p p' : Program} (hp : p.Alike AnyNumbers p') (config : Config) :
    let a := (ofConfig config).request (.load p)
    let b := (ofConfig config).request (.load p')
    Outcome.result (load p (ofConfig config)) = Outcome.result (load p' (ofConfig config)) ∧
      ∀ n, (a.stepped n).SameButNumbers (b.stepped n) ∧
        SameEnd (Report.Alike AnyNumbers) (Outcome.result (step (a.stepped n)))
          (Outcome.result (step (b.stepped n))) := by
  intro a b
  have hload : (renumbered config).Outcomes Eq (load p (ofConfig config))
      (load p' (ofConfig config)) := Leeway.load_ops hp _ _ Leeway.machines_ofConfig
  have hloaded : (renumbered config).Machines a b := hload.machines renumbered_strict
  have hreach : Reachable config a := Reachable.new.request _
  refine ⟨?_, fun n => ?_⟩
  · generalize load p (ofConfig config) = x at hload ⊢
    generalize load p' (ofConfig config) = y at hload ⊢
    cases hload with
    | ok hr _ => exact congrArg Except.ok hr
    | error e _ => rfl
    | excused he => exact absurd he (renumbered_strict _)
  · have hn := hloaded.stepped hreach renumbered_strict n
    have hstep := hn.step (hreach.stepped n).fitted
    exact ⟨sameButNumbers_of_renumbered hn, sameEnd_of_renumbered hstep⟩

/-- The entry captures a register that holds `x`, and calls a closure that reads it. -/
def reading (x : Number) : Program :=
  ⟨#[⟨"main", 3, #[.loadConstant 0 x] ++ #[.makeFunction 1 1, .bind 0 0, .call 1 2 0, .halt]⟩,
    ⟨"read", 2, #[.getUpvalue 0 0, .ret 0]⟩], 0⟩

theorem reading_alike (x y : Number) : (reading x).Alike AnyNumbers (reading y) := by
  have hload : Pointwise (Instruction.Alike AnyNumbers) #[.loadConstant 0 x] #[.loadConstant 0 y] :=
    Pointwise.push (.refl .same #[]) (.loadConstant 0 trivial)
  have hmain := hload.append (.refl .same #[.makeFunction 1 1, .bind 0 0, .call 1 2 0, .halt])
  have hread : Pointwise (Instruction.Alike AnyNumbers) #[.getUpvalue 0 0, .ret 0]
      #[.getUpvalue 0 0, .ret 0] := .refl .same _
  exact ⟨rfl, ((Pointwise.refl (fun _ => ⟨rfl, rfl, .refl .same _⟩) #[]).push
    ⟨rfl, rfl, hmain⟩).push ⟨rfl, rfl, hread⟩⟩

theorem numbers_steer_nothing_reading :
    let a := ((ofConfig ⟨4, 2, true⟩).request (.load (reading ⟨1⟩))).stepped 6
    let b := ((ofConfig ⟨4, 2, true⟩).request (.load (reading ⟨2⟩))).stepped 6
    Outcome.result (step a) =
        .ok (some ⟨.halt, 0, #[.number ⟨1⟩, .function 1, .number ⟨1⟩]⟩) ∧
      b.frames = a.frames ∧ b.heap.closures = a.heap.closures ∧
      ∃ report, Outcome.result (step b) = .ok (some report) ∧ report.reason = .halt ∧
        report.base = 0 ∧ report.registers.size = 3 := by
  intro a b
  have hhalt : Outcome.result (step a) =
      .ok (some ⟨.halt, 0, #[.number ⟨1⟩, .function 1, .number ⟨1⟩]⟩) :=
    ok_of_toOption (by decide +kernel)
  obtain ⟨hsame, hend⟩ := (numbers_steer_nothing (reading_alike ⟨1⟩ ⟨2⟩) ⟨4, 2, true⟩).2 6
  rw [hhalt] at hend
  refine ⟨hhalt, hsame.frames, hsame.closures, ?_⟩
  generalize Outcome.result (step _) = o at hend ⊢
  cases hend with
  | @stops _ report h => exact ⟨report, rfl, h.reason, h.base, h.size⟩

end Machine

end ClosureMachine

import ClosureMachine.Proofs.MirroredRuns

/-!
# Clearing on return is a debugging aid

A machine that does not clear keeps stale values where one that does has nothing. They are
copied, captured and returned like other values, but no instruction can act on one before the
clearing machine has faulted on the register it cleared: adding and calling look at the kind of
a value, and all else that decides how a run goes on is the same in both machines.
-/

namespace ClosureMachine

/-- Value `v` is `v'`, or has been cleared. -/
def Value.ClearedFrom (v v' : Value) : Prop := v = v' ∨ v = .uninitialized

structure Report.ClearedFrom (r r' : Report) : Prop where
  reason : r.reason = r'.reason
  base : r.base = r'.base
  size : r.registers.size = r'.registers.size
  registers : ∀ (i : Nat) (v v' : Value), r.registers[i]? = some v → r'.registers[i]? = some v' →
    v.ClearedFrom v'

/-- Each stack slot and each closed cell of `a` has the value that it has in `b`, or nothing. -/
structure Machine.ClearedFrom (a b : Machine) : Prop where
  size : a.stack.size = b.stack.size
  stack : ∀ (slot : Nat) (v v' : Value), a.stack[slot]? = some v → b.stack[slot]? = some v' →
    v.ClearedFrom v'
  cells : ∀ (r : CellRef) (v : Value), a.heap.cells[r]? = some (.closed v) →
    ∃ v', b.heap.cells[r]? = some (.closed v') ∧ v.ClearedFrom v'

-- ---------------------------------------------------------------------------
-- The mirror that keeps what is cleared
-- ---------------------------------------------------------------------------

/-- Nothing is renamed, but values may be missing. -/
def Mirror.keeping : Mirror := ⟨0, 0, 0, true⟩

namespace Mirror

/-- With nothing ahead, handles wrap around alike. -/
theorem fits_keeping (b : Machine) : keeping.Fits b := ⟨.inl rfl, .inl rfl, .inl rfl⟩

theorem fault_keeping (e : Fault) : keeping.fault e = e := by
  cases e with
  | malformed cause => cases cause <;> rfl
  | _ => rfl

theorem Values.clearedFrom {v v' : Value} (h : keeping.Values v v') : v.ClearedFrom v' := by
  rcases h with rfl | ⟨-, rfl⟩
  · exact .inl (Value.shift_zero v).symm
  · exact .inr rfl

theorem Stacks.clearedFrom {xs ys : Array Value} (h : keeping.Stacks xs ys) (i : Nat) (v v' : Value)
    (hx : xs[i]? = some v) (hy : ys[i]? = some v') : v.ClearedFrom v' := by
  have hi := h i
  rw [hx, hy] at hi
  cases hi with
  | some hv => exact hv.clearedFrom

theorem Reports.clearedFrom {r r' : Report} (h : keeping.Reports r r') : r.ClearedFrom r' :=
  ⟨h.reason.symm, h.base.symm, h.registers.size_eq.symm, h.registers.clearedFrom⟩

theorem Machines.clearedFrom {a b : Machine} (h : keeping.Machines a b) : a.ClearedFrom b := by
  refine ⟨h.size_stack.symm, h.stack.clearedFrom, fun r v hr => ?_⟩
  have hc := h.heap.cells r
  rw [hr] at hc
  generalize hb : b.heap.cells[r + keeping.cells]? = y at hc
  cases hc with
  | some hc =>
    cases hc with
    | closed hv => exact ⟨_, hb, hv.clearedFrom⟩

end Mirror

namespace Machine

variable (stackSize maxFrames : Nat)

theorem keeping_machines_ofConfig :
    Mirror.keeping.Machines (ofConfig ⟨stackSize, maxFrames, true⟩)
      (ofConfig ⟨stackSize, maxFrames, false⟩) := by
  refine ⟨rfl, .inr ⟨rfl, rfl⟩, ⟨fun i => ?_, rfl, fun i => ?_, rfl, fun r => ?_⟩,
    Mirror.stacks_replicate _, Array.map_empty.symm, Array.map_empty.symm, rfl, rfl⟩
  · simp [ofConfig, Heap.empty]
  · simp [ofConfig, Heap.empty]
  · simp [ofConfig, Heap.empty]

theorem comparable_ofConfig :
    Mirror.Comparable ⟨stackSize, maxFrames, true⟩ (ofConfig ⟨stackSize, maxFrames, false⟩) true :=
  ⟨Array.size_replicate, rfl, .inr ⟨rfl, rfl⟩⟩

theorem keeping_machines_load (p : Program) :
    Mirror.keeping.Machines ((ofConfig ⟨stackSize, maxFrames, true⟩).request (.load p))
      ((ofConfig ⟨stackSize, maxFrames, false⟩).request (.load p)) := by
  by_cases hentry : p.entry.toNat < p.codes.size
  · have hcomparable := comparable_ofConfig stackSize maxFrames
    refine (Mirror.load_outcomes hcomparable (tracked_ofConfig _) hentry
      (Mirror.fits_keeping _)).machines ?_
    intro _ op expected m hl
    simpa using load_ofConfig_error hl
  · have hsize := Nat.le_of_not_lt hentry
    simp only [request, load_of_size_le hsize, Outcome.machine_error]
    exact keeping_machines_ofConfig stackSize maxFrames

/-- Let `a` clear on return and `b` not, and let both load one program. Until `a` faults on a
register that holds nothing, every step ends alike in both, and what `a` has on its stack, in
closed cells and in a report is what `b` has there, or nothing. If `a` runs to a report, then so
does `b`. -/
theorem scrubbing_only_clears (p : Program) :
    let a := (ofConfig ⟨stackSize, maxFrames, true⟩).request (.load p)
    let b := (ofConfig ⟨stackSize, maxFrames, false⟩).request (.load p)
    Outcome.result (load p (ofConfig ⟨stackSize, maxFrames, true⟩)) =
        Outcome.result (load p (ofConfig ⟨stackSize, maxFrames, false⟩)) ∧
      (∀ n, (∀ k < n, ¬ (a.stepped k).MissesValue) →
        (a.stepped n).ClearedFrom (b.stepped n) ∧
        (¬ (a.stepped n).MissesValue →
          SameEnd Report.ClearedFrom (Outcome.result (step (a.stepped n)))
            (Outcome.result (step (b.stepped n))))) ∧
      ∀ report m, interpret a = .ok report m →
        ∃ report' m', interpret b = .ok report' m' ∧ report.ClearedFrom report' := by
  intro a b
  have hloaded := keeping_machines_load stackSize maxFrames p
  refine ⟨?_, fun n hkept => ?_, fun report m hrun => ?_⟩
  · have hcomparable := comparable_ofConfig stackSize maxFrames
    rcases Mirror.load_alike hcomparable (tracked_ofConfig _) p (Mirror.fits_keeping _) with
      ⟨closure, m, m', ha, hb, -⟩ | ⟨e, m, m', ha, hb⟩
    · rw [ha, hb]
      rfl
    · rw [ha, hb]
      rfl
  · have hn := hloaded.stepped (Mirror.fits_keeping _) fun _ => hkept
    refine ⟨hn.clearedFrom, fun hfound => ?_⟩
    have hend :=
        hn.sameEnd (Mirror.fits_keeping _) (fun e _ _ => Mirror.fault_keeping e) fun _ => hfound
    exact hend.imp fun _ _ => Mirror.Reports.clearedFrom
  · obtain ⟨report', m', hb, hr⟩ := hloaded.interpret Mirror.fits_keeping hrun
    exact ⟨report', m', hb, hr.clearedFrom⟩

/-- A callee leaves a number above its result, and the caller copies it after the return. -/
def leaving : Program :=
  ⟨#[⟨"main", 4, #[.makeFunction 0 1, .call 0 1 0, .copy 3 2, .halt]⟩,
    ⟨"leave", 2, #[.loadConstant 1 ⟨5⟩, .ret 0]⟩], 0⟩

def leavingOn (scrubs : Bool) : Machine := (ofConfig ⟨4, 2, scrubs⟩).request (.load leaving)

theorem scrubbing_only_clears_leaving :
    let cleared : Report :=
      ⟨.halt, 0, #[.function 1, .uninitialized, .uninitialized, .uninitialized]⟩
    let kept : Report := ⟨.halt, 0, #[.function 1, .uninitialized, .number ⟨5⟩, .number ⟨5⟩]⟩
    step ((leavingOn true).stepped 5) = .ok (some cleared) ((leavingOn true).stepped 6) ∧
      step ((leavingOn false).stepped 5) = .ok (some kept) ((leavingOn false).stepped 6) ∧
      cleared.ClearedFrom kept := by
  intro cleared kept
  have hgoes : ∀ k < 5,
      step ((leavingOn true).stepped k) = .ok none ((leavingOn true).stepped (k + 1)) := by
    decide +kernel
  have hcleared : step ((leavingOn true).stepped 5) =
      .ok (some cleared) ((leavingOn true).stepped 6) := by decide +kernel
  have hkept : step ((leavingOn false).stepped 5) =
      .ok (some kept) ((leavingOn false).stepped 6) := by decide +kernel
  have hbefore : ∀ k < 5, ¬ ((leavingOn true).stepped k).MissesValue := by
    rintro k hk ⟨op, expected, m, hs⟩
    simp [hgoes k hk] at hs
  have hnow : ¬ ((leavingOn true).stepped 5).MissesValue := by
    rintro ⟨op, expected, m, hs⟩
    simp [hcleared] at hs
  have hend : SameEnd Report.ClearedFrom (Outcome.result (step ((leavingOn true).stepped 5)))
      (Outcome.result (step ((leavingOn false).stepped 5))) :=
    ((scrubbing_only_clears 4 2 leaving).2.1 5 hbefore).2 hnow
  rw [hcleared, hkept] at hend
  refine ⟨hcleared, hkept, ?_⟩
  cases hend with
  | stops h => exact h

end Machine

end ClosureMachine

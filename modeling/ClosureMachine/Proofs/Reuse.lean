import ClosureMachine.Proofs.Links
import ClosureMachine.Proofs.MirroredRuns

/-!
# A used machine runs programs like a new one

Closures of earlier programs stay on the heap, so those of a program loaded later have higher
handles, until there are none left. Nothing else is left of what ran before, in whatever state
it stopped: the used machine mirrors a new one. Faults show no handles, since none of them is
internal to the machine.
-/

namespace ClosureMachine

/-- The report with the closures that it names `k` positions further on. -/
def Report.shift (k : Nat) (r : Report) : Report :=
  { r with registers := r.registers.map (Value.shift k) }

-- ---------------------------------------------------------------------------
-- The used machine as a mirror
-- ---------------------------------------------------------------------------

theorem Reachable.size_stack {config : Config} {m : Machine} (h : Reachable config m) :
    m.stack.size = config.stackSize :=
  h.handled.invariant (I := fun m => m.stack.size = config.stackSize) Array.size_replicate
    fun hc hm => hc.size_stack.trans hm

theorem Reachable.comparable {config : Config} {m : Machine} (h : Reachable config m) :
    Mirror.Comparable config m false := by
  have hconfig : m.config = config := h.handled.config_eq
  exact ⟨h.size_stack, by rw [hconfig], .inl (by rw [hconfig])⟩

/-- Only internal faults name a handle. -/
theorem Mirror.fault_eq_of_not_internal (μ : Mirror) {e : Fault} (h : ¬ e.Internal) :
    μ.fault e = e := by
  cases e with
  | doubleClose cell => exact absurd (.doubleClose cell) h
  | functionNotFound closure => exact absurd (.functionNotFound closure) h
  | upvalueNotFound cell => exact absurd (.upvalueNotFound cell) h
  | malformed cause =>
    cases cause with
    | codeNotLoaded code => exact absurd (.codeNotLoaded code) h
    | _ => rfl
  | _ => rfl

theorem Mirror.Reports.eq_shift {μ : Mirror} {r r' : Report} (h : μ.Reports r r')
    (hclears : μ.clears = false) : r' = r.shift μ.closures := by
  obtain ⟨reason, base, registers⟩ := r
  obtain ⟨reason', base', registers'⟩ := r'
  obtain ⟨rfl, rfl, hregisters⟩ := h
  have heq : registers' = registers.map (Value.shift μ.closures) := by
    refine Array.ext_getElem? fun i => ?_
    have hi := hregisters i
    rw [Array.getElem?_map]
    generalize registers[i]? = x at hi ⊢
    generalize registers'[i]? = y at hi ⊢
    cases hi with
    | none => rfl
    | some hv =>
      rcases hv with rfl | ⟨hc, -⟩
      · rfl
      · simp [hclears] at hc
  rw [heq]
  rfl

namespace Machine

/-- Whatever a machine was asked before, it loads a program as a new machine with its
configuration does, and then every step ends as on the new one, as long as there are handles for
all that is on its heap. Closures that reports name are further on by the number of closures that
were there before. -/
theorem used_like_new {config : Config} {u : Machine} (h : Reachable config u) (p : Program)
    (hroom : (u.request (.load p)).heap.Addressable) :
    let new := ofConfig config
    let k := u.heap.closures.size
    (∃ closure, Outcome.result (load p new) = .ok closure ∧
        Outcome.result (load p u) = .ok (closure + k) ∧
        ∀ n, ((u.request (.load p)).stepped (n + 1)).heap.Addressable →
          SameEnd (fun r r' => r' = r.shift k)
            (Outcome.result (step ((new.request (.load p)).stepped n)))
            (Outcome.result (step ((u.request (.load p)).stepped n)))) ∨
      ∃ e, Outcome.result (load p new) = .error e ∧ Outcome.result (load p u) = .error e := by
  intro new k
  have ht : u.Tracked := h.tracked (Nat.le_trans (load_changes p u).grows.cells hroom.cells)
  rcases Mirror.load_alike h.comparable ht p (Mirror.fits_of_addressable hroom) with
    ⟨closure, m, m', hnew, hu, hm⟩ | ⟨e, m, m', hnew, hu⟩
  · have hreach : Reachable config (new.request (.load p)) := Reachable.new.request _
    refine .inl ⟨closure, by rw [hnew]; rfl, by rw [hu]; rfl, fun n hn => ?_⟩
    have hstart : (Mirror.ahead u false).Machines (new.request (.load p))
        (u.request (.load p)) := by
      simpa only [request, new, hnew, hu, Outcome.machine_ok] using hm
    have hfits : (Mirror.ahead u false).Fits ((u.request (.load p)).stepped (n + 1)) :=
      Mirror.fits_of_addressable hn
    have hgrows := (step_changes ((u.request (.load p)).stepped n)).grows
    have hmirror := hstart.stepped (hfits.of_grows hgrows) (by simp [Mirror.ahead])
    -- The new machine has fewer cells than the used one, so it does not fail internally either.
    have hfault : ∀ e m, step ((new.request (.load p)).stepped n) = .error e m →
        (Mirror.ahead u false).fault e = e := by
      intro e m hs
      refine Mirror.fault_eq_of_not_internal _ fun he => ?_
      obtain ⟨_, _, _, -, -, -, hsize⟩ := (hreach.stepped n).internal_fault hs he
      have hmore := hmirror.heap.sizeCells
      have hfew := Nat.le_trans hgrows.cells hn.cells
      omega
    have hend := hmirror.sameEnd hfits hfault (by simp [Mirror.ahead])
    exact hend.imp fun _ _ hr => hr.eq_shift rfl
  · exact .inr ⟨e, by rw [hnew]; rfl, by rw [hu]; rfl⟩

/-- A machine stopped in the middle of a run, with a closure pending and a cell open. -/
def interrupted : Machine :=
  ((ofConfig ⟨4, 2, true⟩).request (.load ⟨#[⟨"main", 2, #[.loadConstant 1 ⟨7⟩, .makeFunction 0 0,
    .bind 0 0, .halt]⟩], 0⟩)).stepped 3

def making : Program := ⟨#[⟨"main", 2, #[.makeFunction 0 0, .bind 0 0, .halt]⟩], 0⟩

theorem used_like_new_interrupted :
    interrupted.heap.closures.size = 2 ∧ interrupted.openCells.entries = [(0, 0)] ∧
      Outcome.result (step ((interrupted.request (.load making)).stepped 2)) =
        .ok (some ⟨.halt, 0, #[.function 3, .uninitialized]⟩) := by
  have hreach : Reachable ⟨4, 2, true⟩ interrupted := (Reachable.new.request (.load _)).stepped 3
  have hsize : interrupted.heap.closures.size = 2 := by decide +kernel
  have hhalt : Outcome.result (step (((ofConfig ⟨4, 2, true⟩).request (.load making)).stepped 2)) =
      .ok (some ⟨.halt, 0, #[.function 1, .uninitialized]⟩) := ok_of_toOption (by decide +kernel)
  refine ⟨hsize, by decide +kernel, ?_⟩
  have hloaded : (interrupted.request (.load making)).heap.Addressable :=
    ⟨⟨by decide +kernel, by decide +kernel⟩, by decide +kernel⟩
  have hrun : ((interrupted.request (.load making)).stepped 3).heap.Addressable :=
    ⟨⟨by decide +kernel, by decide +kernel⟩, by decide +kernel⟩
  rcases used_like_new hreach making hloaded with ⟨closure, -, -, hsteps⟩ | ⟨e, he, -⟩
  · have hend := hsteps 2 hrun
    rw [hhalt, hsize] at hend
    generalize Outcome.result (step ((interrupted.request (.load making)).stepped 2)) = x at hend ⊢
    cases hend with
    | stops hr =>
      rw [hr]
      simp [Report.shift, Value.shift]
  · have hload : Outcome.result (load making (ofConfig ⟨4, 2, true⟩)) = .ok 0 :=
      ok_of_toOption (by decide +kernel)
    simp [hload] at he

end Machine

end ClosureMachine

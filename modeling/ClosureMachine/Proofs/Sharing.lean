import ClosureMachine.Proofs.Exhaustion
import ClosureMachine.Proofs.HeapHistory
import ClosureMachine.Proofs.Links

/-!
# Which closures share a cell

Capturing a slot opens a cell, and later captures of the slot find it until a return closes it.
A return closes the cells from its frame's base on, whichever frame captured them: a callee's
window starts inside the registers of its caller. So two `bind`s share a cell exactly when they
capture one slot and no return between them gave it up: `Machine.same_cell_iff`.
-/

namespace ClosureMachine

namespace Machine

/-- The next step of `m` is a `bind` that succeeds: it captures `slot` and stores cell `r` in
the pending closure. -/
inductive Binds (m : Machine) (slot : Nat) (r : CellRef) : Prop
  | intro {f : Fetched} {index offset : UInt8} {closure : ClosureRef} {c : Closure}
      {report : Option Report} {m' : Machine} (hf : m.fetch = .ok f)
      (hi : f.instruction = .bind index offset) (hslot : f.frame.base + offset.toNat = slot)
      (hs : step m = .ok report m') (hpending : m.pending = some closure)
      (hc : m'.heap.closures[closure]? = some c) (hr : c.slot? index.toNat = some r)

/-- The next step of `m` is a return that succeeds, of a frame at `base`. -/
inductive Returns (m : Machine) (base : Nat) : Prop
  | intro {f : Fetched} {result : UInt8} {report : Option Report} {m' : Machine}
      (hf : m.fetch = .ok f) (hi : f.instruction = .ret result) (hbase : f.frame.base = base)
      (hs : step m = .ok report m')

variable {m m' : Machine} {w : Window} {closure : ClosureRef} {i : Instruction} {e : Fault}
  {report : Option Report} {r : CellRef} {slot base : Nat} {config : Config}

theorem Binds.not_returns (h : m.Binds slot r) : ¬ m.Returns base := by
  rintro ⟨hf, hi, -, -⟩
  cases h with
  | intro hf' hi' =>
    obtain rfl := Except.ok.inj (hf.symm.trans hf')
    simp [hi] at hi'

-- ---------------------------------------------------------------------------
-- Capturing
-- ---------------------------------------------------------------------------

theorem cellFor_opened (ht : m.Tracked) {slot : Nat}
    (hroom : (m.captured slot).heap.cells.size ≤ handleSpace) :
    (m.captured slot).heap.cells[m.cellFor slot]? = some (.opened slot) := by
  refine (ht.captured hroom slot _).mp ?_
  exact mem_entries_captured.mpr (.inl rfl)

/-- A closure finds the cell just bound to it. -/
theorem slot?_withBinding {index : UInt8} {c : Closure}
    (hc : (m.withBinding closure index r).heap.closures[closure]? = some c) :
    c.slot? index.toNat = some r := by
  have hc : (m.heap.closures.modify closure (·.bindSlot index.toNat r))[closure]? = some c := hc
  rw [Array.getElem?_modify, if_pos rfl] at hc
  obtain ⟨c₀, -, rfl⟩ := Option.map_eq_some_iff.mp hc
  rw [Closure.slot?_bindSlot, if_pos rfl]

theorem Binds.opened (h : m.Binds slot r) (hr : Reachable config m)
    (hroom : (m.request .step).heap.cells.size ≤ handleSpace) :
    (m.request .step).heap.cells[r]? = some (.opened slot) := by
  have ht : m.Tracked := hr.tracked (Nat.le_trans (step_changes m).grows.cells hroom)
  obtain @⟨f, index, offset, closure, c, report, m', hf, hi, hslot, hs, hpending, hc, hslot?⟩ := h
  obtain ⟨_, hf', hx⟩ := step_ok hs
  obtain rfl := Except.ok.inj (hf.symm.trans hf')
  obtain ⟨code, -, -, hw, -⟩ := fetch_ok hf
  have hnext : m.request .step = m' := by rw [request, hs]; rfl
  rw [hi] at hx
  rw [hnext] at hroom ⊢
  cases hx with
  | @bind _ _ pending captured hpending' hcaptured hbound =>
    obtain ⟨-, rfl⟩ := Window.slot_ok.mp hcaptured
    obtain rfl : f.window.base + offset.toNat = slot := by rw [hw]; exact hslot
    obtain rfl : closure = pending := by
      simpa [advance, hi, Instruction.isBind, hpending] using hpending'
    obtain rfl := Option.some.inj ((slot?_withBinding hc).symm.trans hslot?)
    exact cellFor_opened (m := m.advance f) ht hroom

-- ---------------------------------------------------------------------------
-- Closing
-- ---------------------------------------------------------------------------

/-- No change opens a closed cell. -/
theorem closed_changes (hc : Changes m m')
    (hr : ∃ value, m.heap.cells[r]? = some (.closed value)) :
    ∃ value, m'.heap.cells[r]? = some (.closed value) := by
  obtain ⟨value, hr⟩ := hr
  obtain ⟨cell, hcell, hbecomes⟩ := hc.extends.cells hr
  cases hbecomes with
  | closed _ new => exact ⟨new, hcell⟩

/-- An open cell is closed by a return from at or below its slot, and by nothing else. -/
theorem Executes.opened (hx : Executes closure w m i report m') (ht : m.Tracked)
    (hr : m.heap.cells[r]? = some (.opened slot)) :
    (m'.heap.cells[r]? = some (.opened slot) ∧ ∀ result, i = .ret result → slot < w.base) ∨
      (∃ value, m'.heap.cells[r]? = some (.closed value)) ∧
        (∃ result, i = .ret result) ∧ w.base ≤ slot := by
  have hlt := (Array.getElem?_eq_some_iff.mp hr).1
  cases hx with
  | bind hpending hslot hbound => exact .inl ⟨(captured_cell? hlt).trans hr, by simp⟩
  | @ret result value _ m₁ hvalue hbase hclose =>
    have htracked : (m.store w.base value).Tracked := ht
    rw [htracked.closeFrom_eq] at hclose
    obtain ⟨-, rfl⟩ := EStateM.Result.ok.inj hclose
    rw [leave_heap, closedFrom_cell?, store_heap, hr]
    by_cases hb : w.base ≤ slot
    · exact .inr ⟨⟨(m.store w.base value).stackAt slot, by simp [settled, hb]⟩, ⟨result, rfl⟩, hb⟩
    · exact .inl ⟨by simp [settled, hb], fun _ _ => Nat.lt_of_not_le hb⟩
  | @setClosed _ _ _ _ r' hvalue hcell =>
    obtain ⟨c, -, -, hr'⟩ := cellOf_ok.mp hcell
    have hne : r' ≠ r := by
      rintro rfl
      simp [hr] at hr'
    exact .inl ⟨by simpa [rewritten, Heap.setCell, hne] using hr, by simp⟩
  | _ => exact .inl ⟨hr, by simp⟩

theorem Faults.opened (hx : Faults closure w m i e m') (ht : m.Tracked)
    (hr : m.heap.cells[r]? = some (.opened slot)) : m'.heap.cells[r]? = some (.opened slot) := by
  have hlt := (Array.getElem?_eq_some_iff.mp hr).1
  cases hx with
  | bindMissing hpending hslot hmissing => exact (captured_cell? hlt).trans hr
  | @closing _ value _ _ hvalue hclose =>
    have htracked : (m.store w.base value).Tracked := ht
    simp [htracked.closeFrom_eq] at hclose
  | _ => exact hr

-- ---------------------------------------------------------------------------
-- Open cells along a run
-- ---------------------------------------------------------------------------

theorem opened_request_step (ht : m.Tracked) (hr : m.heap.cells[r]? = some (.opened slot)) :
    ((m.request .step).heap.cells[r]? = some (.opened slot) ∧
        ∀ base, m.Returns base → slot < base) ∨
      (∃ value, (m.request .step).heap.cells[r]? = some (.closed value)) ∧
        ∃ base, m.Returns base ∧ base ≤ slot := by
  rw [request]
  cases hs : step m with
  | ok report m' =>
    obtain ⟨f, hf, hx⟩ := step_ok hs
    obtain ⟨code, -, -, hw, -⟩ := fetch_ok hf
    have hbase : f.window.base = f.frame.base := by rw [hw]
    rcases hx.opened ht hr with ⟨hopen, hret⟩ | ⟨hclosed, ⟨result, hi⟩, hle⟩
    · refine .inl ⟨hopen, ?_⟩
      rintro base ⟨hf', hi, rfl, -⟩
      obtain rfl := Except.ok.inj (hf.symm.trans hf')
      exact hbase ▸ hret _ hi
    · exact .inr ⟨hclosed, _, ⟨hf, hi, rfl, hs⟩, hbase ▸ hle⟩
  | error e m' =>
    refine .inl ⟨?_, ?_⟩
    · rcases step_error hs with ⟨-, rfl⟩ | ⟨f, hf, hx⟩
      · exact hr
      · exact hx.opened ht hr
    · rintro base ⟨-, -, -, hs'⟩
      simp [hs] at hs'

/-- A cell open at `start` is open at a later time `t` if no return in between gave up its
slot, and closed if one did. -/
theorem opened_stepped (h : Reachable config m) {start t : Nat} (hle : start ≤ t)
    (hsize : (m.stepped t).heap.cells.size ≤ handleSpace)
    (hr : (m.stepped start).heap.cells[r]? = some (.opened slot)) :
    ((m.stepped t).heap.cells[r]? = some (.opened slot) ∧
        ∀ k, start ≤ k → k < t → ∀ base, (m.stepped k).Returns base → slot < base) ∨
      (∃ value, (m.stepped t).heap.cells[r]? = some (.closed value)) ∧
        ∃ k, start ≤ k ∧ k < t ∧ ∃ base, (m.stepped k).Returns base ∧ base ≤ slot := by
  induction hle with
  | refl => exact .inl ⟨hr, fun k hstart hk => absurd hk (Nat.not_lt.mpr hstart)⟩
  | @step t hle ih =>
    have hsize := Nat.le_trans (step_changes (m.stepped t)).grows.cells hsize
    have ht : (m.stepped t).Tracked := (h.stepped t).tracked hsize
    rcases ih hsize with ⟨hopen, hno⟩ | ⟨hclosed, k, hstart, hk, hreturn⟩
    · rcases opened_request_step ht hopen with ⟨hopen, hlast⟩ | ⟨hclosed, hreturn⟩
      · refine .inl ⟨hopen, fun k hstart hk => ?_⟩
        rcases Nat.lt_succ_iff_lt_or_eq.mp hk with hk | rfl
        · exact hno k hstart hk
        · exact hlast
      · exact .inr ⟨hclosed, t, hle, Nat.lt_succ_self t, hreturn⟩
    · have hlater := closed_changes (request_changes _ .step) hclosed
      exact .inr ⟨hlater, k, hstart, Nat.lt_succ_of_lt hk, hreturn⟩

/-- Of two `bind`s in the run of any program that has made no more cells than there are handles,
the later one stores the cell of the earlier one exactly when both capture one slot and every
return between them was of a frame above it. -/
theorem same_cell_iff {config : Config} {p : Program} {t₁ t₂ slot₁ slot₂ : Nat} {r₁ r₂ : CellRef}
    (hlt : t₁ < t₂)
    (h₁ : (((ofConfig config).request (.load p)).stepped t₁).Binds slot₁ r₁)
    (h₂ : (((ofConfig config).request (.load p)).stepped t₂).Binds slot₂ r₂)
    (hsize : (((ofConfig config).request (.load p)).stepped (t₂ + 1)).heap.cells.size ≤
      handleSpace) :
    r₁ = r₂ ↔ slot₁ = slot₂ ∧ ∀ t, t₁ < t → t < t₂ → ∀ base,
      (((ofConfig config).request (.load p)).stepped t).Returns base → slot₁ < base := by
  have hreach : Reachable config ((ofConfig config).request (.load p)) := Reachable.new.request _
  generalize (ofConfig config).request (.load p) = m at h₁ h₂ hreach hsize
  have hgrows := (stepped_grows m (Nat.succ_le_succ (Nat.le_of_lt hlt))).cells
  have hopen₁ : (m.stepped (t₁ + 1)).heap.cells[r₁]? = some (.opened slot₁) :=
    h₁.opened (hreach.stepped t₁) (Nat.le_trans hgrows hsize)
  have hopen₂ : (m.stepped (t₂ + 1)).heap.cells[r₂]? = some (.opened slot₂) :=
    h₂.opened (hreach.stepped t₂) hsize
  -- Both cells are compared right after the second `bind`, when its cell is open.
  have hrun := opened_stepped hreach (Nat.succ_le_succ (Nat.le_of_lt hlt)) hsize hopen₁
  constructor
  · rintro rfl
    rcases hrun with ⟨hopen, hno⟩ | ⟨⟨value, hclosed⟩, -⟩
    · rw [hopen₂] at hopen
      obtain rfl : slot₂ = slot₁ := by simpa using hopen
      exact ⟨rfl, fun t h₁ h₂ => hno t h₁ (by omega)⟩
    · simp [hopen₂] at hclosed
  · rintro ⟨rfl, hno⟩
    rcases hrun with ⟨hopen, -⟩ | ⟨-, t, hstart, ht, base, hreturn, hle⟩
    · exact ((hreach.stepped (t₂ + 1)).tracked hsize).unique hopen hopen₂
    · rcases Nat.lt_succ_iff_lt_or_eq.mp ht with ht | rfl
      · exact absurd (hno t hstart ht base hreturn) (Nat.not_lt.mpr hle)
      · exact absurd hreturn h₂.not_returns

/-- Captures of slot 2, with a return of a callee above it after the second and one of a callee
whose window starts there after the third. -/
def capturing : Machine :=
  (ofConfig ⟨6, 3, true⟩).request (.load ⟨#[
    ⟨"main", 4, #[.makeFunction 1 1, .bind 0 2, .call 1 3 0, .makeFunction 1 1, .bind 0 2,
      .call 1 2 0, .makeFunction 1 1, .bind 0 2, .halt]⟩,
    ⟨"back", 1, #[.ret 0]⟩], 0⟩)

theorem binds_capturing {t ip : Nat} {closure : ClosureRef} {r : CellRef}
    (hf : (capturing.stepped t).fetch.toOption = some ⟨⟨0, ip, 0⟩, ⟨0, 4⟩, .bind 0 2⟩)
    (hs : step (capturing.stepped t) = .ok none (capturing.stepped (t + 1)))
    (hpending : (capturing.stepped t).pending = some closure)
    (hc : (capturing.stepped (t + 1)).heap.closures[closure]? = some ⟨1, #[some r]⟩) :
    (capturing.stepped t).Binds 2 r :=
  ⟨ok_of_toOption hf, rfl, rfl, hs, hpending, hc, rfl⟩

theorem same_cell_iff_capturing :
    (capturing.stepped 1).Binds 2 0 ∧ (capturing.stepped 5).Binds 2 0 ∧
      (∀ t, 1 < t → t < 5 → ∀ base, (capturing.stepped t).Returns base → 2 < base) ∧
      (capturing.stepped 9).Binds 2 1 ∧
      ¬ ∀ t, 5 < t → t < 9 → ∀ base, (capturing.stepped t).Returns base → 2 < base := by
  have hfirst := @binds_capturing 1 1 1 0 (by decide +kernel) (by decide +kernel)
    (by decide +kernel) (by decide +kernel)
  have hsecond := @binds_capturing 5 4 2 0 (by decide +kernel) (by decide +kernel)
    (by decide +kernel) (by decide +kernel)
  have hthird := @binds_capturing 9 7 3 1 (by decide +kernel) (by decide +kernel)
    (by decide +kernel) (by decide +kernel)
  have hshared := (same_cell_iff (by decide) hfirst hsecond (by decide +kernel)).mp rfl
  refine ⟨hfirst, hsecond, hshared.2, hthird, fun hno => ?_⟩
  have hsame : (0 : CellRef) = 1 :=
    (same_cell_iff (by decide) hsecond hthird (by decide +kernel)).mpr ⟨rfl, hno⟩
  simp at hsame

/-- The first cell and the one after the last handle are stored under one handle, though they
capture different slots. -/
theorem handle_names_two_cells :
    (exhaustion.stepped 1).Binds 1 0 ∧ ∃ t > 1, (exhaustion.stepped t).Binds 5 0 := by
  obtain ⟨hfirst, hzero⟩ := exhaustion_opens
  obtain ⟨c₁, hc₁, hslot₁⟩ := hfirst.slot?
  rw [hzero] at hslot₁
  refine ⟨⟨hfirst.fetched, rfl, rfl, hfirst.step_eq.1, hfirst.pending, hc₁, hslot₁⟩, ?_⟩
  obtain ⟨n, h⟩ := exists_brimful
  obtain ⟨hlast, hnext⟩ := h.opens
  obtain ⟨c₂, hc₂, hslot₂⟩ := hlast.slot?
  rw [hnext] at hslot₂
  refine ⟨n + 2, by omega, ?_⟩
  rw [stepped_add]
  exact ⟨hlast.fetched, rfl, rfl, hlast.step_eq.1, hlast.pending, hc₂, hslot₂⟩

end Machine

end ClosureMachine

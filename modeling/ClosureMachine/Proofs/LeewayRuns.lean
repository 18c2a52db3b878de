import ClosureMachine.Proofs.Leeway
import ClosureMachine.Proofs.StackDiscipline

/-!
# Runs with leeway

Every operation takes machines that differ within a leeway to machines that still do, with the
same outcome, unless the first one runs out of room that the second has: `Leeway.load_ops` and
`Leeway.Machines.step`. A snapshot needs the window to lie on the smaller stack, which it does on
every machine that requests lead to. So whole runs go on alike: `Leeway.Machines.interpret`.
-/

namespace ClosureMachine

namespace Leeway

variable (l : Leeway)

inductive Outcomes {α β : Type} (R : α → β → Prop) : Outcome α → Outcome β → Prop
  | ok {x : α} {y : β} {a b : Machine} (hr : R x y) (h : l.Machines a b) :
      Outcomes R (.ok x a) (.ok y b)
  | error (e : Fault) {a b : Machine} (h : l.Machines a b) :
      Outcomes R (.error e a) (.error e b)
  | excused {e : Fault} {a : Machine} {outcome : Outcome β} (h : l.Excuses e) :
      Outcomes R (.error e a) outcome

/-- Operation `y` does in the second machine what `x` does in the first. -/
def Ops {α β : Type} (R : α → β → Prop) (x : Op α) (y : Op β) : Prop :=
  ∀ a b, l.Machines a b → l.Outcomes R (x a) (y b)

variable {l}

theorem Outcomes.machines {α β : Type} {R : α → β → Prop} {o : Outcome α} {o' : Outcome β}
    (h : l.Outcomes R o o') (hstrict : ∀ e, ¬ l.Excuses e) : l.Machines o.machine o'.machine := by
  cases h with
  | ok _ hm => exact hm
  | error e hm => exact hm
  | excused he => exact absurd he (hstrict _)

-- ---------------------------------------------------------------------------
-- Composing operations
-- ---------------------------------------------------------------------------

namespace Ops

variable {α β γ δ : Type} {R : α → β → Prop} {S : γ → δ → Prop}

theorem pure {u : α} {v : β} (h : R u v) : l.Ops R (Pure.pure u : Op α) (Pure.pure v : Op β) :=
  fun _ _ hm => .ok h hm

theorem modify {f g : Machine → Machine} (h : ∀ {a b}, l.Machines a b → l.Machines (f a) (g b)) :
    l.Ops Eq (modifyThe Machine f : Op Unit) (modifyThe Machine g : Op Unit) :=
  fun _ _ hm => .ok rfl (h hm)

theorem bind {x : Op α} {y : Op β} {f : α → Op γ} {g : β → Op δ} (hx : l.Ops R x y)
    (hf : ∀ u v, R u v → l.Ops S (f u) (g v)) : l.Ops S (x >>= f) (y >>= g) := by
  intro a b hm
  have hxy := hx a b hm
  rw [Op.bind_apply, Op.bind_apply]
  generalize x a = p at hxy ⊢
  generalize y b = q at hxy ⊢
  cases hxy with
  | ok hr hm => exact hf _ _ hr _ _ hm
  | error e hm => exact .error e hm
  | excused he => exact .excused he

theorem ask {query : Machine → Except Fault α} {query' : Machine → Except Fault β}
    (h : ∀ {a b}, l.Machines a b → l.Answers R (query a) (query' b)) :
    l.Ops R (Op.ask query) (Op.ask query') := by
  intro a b hm
  have hq := h hm
  unfold Op.ask
  generalize query a = p at hq ⊢
  generalize query' b = q at hq ⊢
  cases hq with
  | ok hr => exact .ok hr hm
  | error e => exact .error e hm
  | excused he => exact .excused he

end Ops

-- ---------------------------------------------------------------------------
-- Operations
-- ---------------------------------------------------------------------------

theorem getRegister_ops (w : Window) (reg : UInt8) :
    l.Ops (Value.Alike l.numbers) (Machine.getRegister w reg) (Machine.getRegister w reg) :=
  .ask fun h => h.register w reg

theorem setRegister_ops (w : Window) (reg : UInt8) {v v' : Value} (hv : v.Alike l.numbers v') :
    l.Ops Eq (Machine.setRegister w reg v) (Machine.setRegister w reg v') := by
  intro a b h
  have hr := h.resolve w reg
  unfold Machine.setRegister
  generalize a.resolve w reg = x at hr ⊢
  generalize b.resolve w reg = y at hr ⊢
  cases hr with
  | ok hs =>
    obtain ⟨rfl, hslot⟩ := hs
    exact .ok rfl (h.store hv hslot)
  | error e => exact .error e h
  | excused he => exact .excused he

theorem addClosure_ops (code : CodeRef) :
    l.Ops Eq (Machine.addClosure code) (Machine.addClosure code) := by
  intro a b h
  rw [Machine.addClosure_eq, Machine.addClosure_eq]
  exact .ok h.nextClosure.symm (h.withClosure code)

theorem makeFunction_ops (w : Window) (target : UInt8) (index : UInt16) :
    l.Ops Eq (Machine.makeFunction w target index) (Machine.makeFunction w target index) := by
  refine .bind (.ask fun h => h.prototype index) fun code _ hcode => ?_
  subst hcode
  refine .bind (addClosure_ops code) fun closure _ hc => ?_
  subst hc
  exact .bind (setRegister_ops w target (.function closure)) fun _ _ _ =>
    .modify fun h => { h with pending := rfl }

theorem bindUpvalue_ops (w : Window) (index offset : UInt8) :
    l.Ops Eq (Machine.bindUpvalue w index offset) (Machine.bindUpvalue w index offset) := by
  refine .bind (.ask fun h => h.pendingClosure) fun closure _ hc => ?_
  refine .bind (.ask fun _ => .refl _) fun slot _ hs => ?_
  subst hc hs
  intro a b h
  simp only [Op.bind_apply, Machine.capture_eq, Machine.bindSlot, h.cellFor,
    (h.captured slot).closures]
  split
  · exact .ok rfl ((h.captured slot).withBinding closure index _)
  · exact .error _ (h.captured slot)

theorem setUpvalue_ops (closure : ClosureRef) (index : UInt8) {v v' : Value}
    (hv : v.Alike l.numbers v') :
    l.Ops Eq (Machine.setUpvalue closure index v) (Machine.setUpvalue closure index v') := by
  intro a b h
  have hc := h.cellOf closure index
  unfold Machine.setUpvalue
  generalize a.cellOf closure index = x at hc ⊢
  generalize b.cellOf closure index = y at hc ⊢
  cases hc with
  | error e => exact .error e h
  | excused he => exact .excused he
  | @ok found found' hfound =>
    obtain ⟨_, c⟩ := found
    obtain ⟨r, c'⟩ := found'
    obtain ⟨rfl, hcell⟩ := hfound
    cases hcell with
    | closed _ => exact .ok rfl (h.setCell r (.closed hv))
    | opened slot =>
      by_cases hslot : slot < l.small.stackSize
      · have hlarge := Nat.lt_of_lt_of_le hslot l.stackSize_le
        simp only [h.sizeSmall, h.sizeLarge, hslot, hlarge, if_true]
        exact .ok rfl (h.store hv hslot)
      · rw [h.sizeSmall, h.sizeLarge]
        rcases Nat.lt_or_eq_of_le l.stackSize_le with hlt | heq
        · simp only [hslot, if_false]
          exact .excused hlt
        · simp only [← heq, hslot, if_false]
          exact .error _ h

theorem closeEntries_ops (entries : List OpenEntry) :
    l.Ops Eq (Machine.closeEntries entries) (Machine.closeEntries entries) := by
  induction entries with
  | nil => exact fun a b h => .ok rfl h
  | cons e rest ih =>
    intro a b h
    have hr := h.cells e.2
    simp only [Machine.closeEntries]
    generalize a.heap.cells[e.2]? = x at hr ⊢
    generalize b.heap.cells[e.2]? = y at hr ⊢
    cases hr with
    | none => exact .error _ h
    | some hc =>
      cases hc with
      | closed _ => exact .error _ h
      | opened _ => exact ih _ _ (h.setCell e.2 (.closed (h.stack e.1)))

theorem closeFrom_ops (start : Nat) :
    l.Ops Eq (Machine.closeFrom start) (Machine.closeFrom start) := by
  intro a b h
  have hc := closeEntries_ops (a.openCells.entriesFrom start) _ _ (h.below start)
  simp only [Machine.closeFrom, h.openCells] at hc ⊢
  generalize Machine.closeEntries (a.openCells.entriesFrom start) { a with openCells := _ } = x
    at hc ⊢
  generalize Machine.closeEntries (a.openCells.entriesFrom start) { b with openCells := _ } = y
    at hc ⊢
  cases hc with
  | ok _ h => exact .ok rfl h
  | error e h => exact .error e h
  | excused he => exact .excused he

theorem pushFrame_ops (closure : ClosureRef) (base : Nat) :
    l.Ops Eq (Machine.pushFrame closure base) (Machine.pushFrame closure base) := by
  intro a b h
  have hw := h.windowFor closure base
  unfold Machine.pushFrame
  generalize a.windowFor closure base = x at hw ⊢
  generalize b.windowFor closure base = y at hw ⊢
  cases hw with
  | ok hw => exact hw ▸ .ok rfl (h.entered closure base _)
  | error e => exact .error e h
  | excused he => exact .excused he

theorem call_ops (w : Window) (function argBase : UInt8) :
    l.Ops Eq (Machine.call w function argBase) (Machine.call w function argBase) := by
  refine .bind (.ask fun h => h.callee w function argBase) fun found _ hfound => ?_
  subst hfound
  exact pushFrame_ops found.1 found.2

theorem returnFrom_ops {w : Window} (result : UInt8) (hfit : w.finish ≤ l.small.stackSize) :
    l.Ops (Option.Rel (Report.Alike l.numbers)) (Machine.returnFrom w result)
      (Machine.returnFrom w result) := by
  have hand : l.Ops Eq (Machine.handOver w result) (Machine.handOver w result) :=
    .bind (getRegister_ops w result) fun _ _ hv => .bind (setRegister_ops w 0 hv) fun _ _ _ =>
      closeFrom_ops w.base
  refine .bind hand fun _ _ _ a b h => ?_
  rw [Machine.popFrame_eq, Machine.popFrame_eq, h.depth]
  refine .ok ?_ (h.leave w)
  split
  · exact .some (h.snapshot _ hfit)
  · exact .none

theorem load_ops {p p' : Program} (hp : p.Alike l.numbers p') :
    l.Ops Eq (Machine.load p) (Machine.load p') := by
  have hsize := hp.codes.size_eq
  by_cases hentry : p.entry.toNat < p.codes.size
  · have hentry' : p'.entry.toNat < p'.codes.size := by rwa [hp.entry, hsize]
    rw [Machine.load_of_entry_lt hentry, Machine.load_of_entry_lt hentry', hp.entry]
    have hreset : l.Ops Eq Machine.reset Machine.reset :=
      .bind (closeFrom_ops 0) fun _ _ _ => .modify fun h => h.clear
    refine .bind hreset fun _ _ _ => .bind (.modify fun h => h.install hp) fun _ _ _ => ?_
    refine .bind (.ask fun h => h.prototype p.entry) fun code _ hcode => ?_
    subst hcode
    refine .bind (addClosure_ops code) fun closure _ hc => ?_
    subst hc
    exact .bind (pushFrame_ops closure 0) fun _ _ _ => .pure rfl
  · intro a b h
    have hle := Nat.le_of_not_lt hentry
    have hle' : p'.codes.size ≤ p'.entry.toNat := by rwa [hp.entry, hsize]
    rw [Machine.load_of_size_le hle, Machine.load_of_size_le hle', hp.entry, hsize]
    exact .error _ h

-- ---------------------------------------------------------------------------
-- Steps
-- ---------------------------------------------------------------------------

theorem execute_ops (closure : ClosureRef) {w : Window} (hfit : w.finish ≤ l.small.stackSize)
    {i i' : Instruction} (hi : i.Alike l.numbers i') :
    l.Ops (Option.Rel (Report.Alike l.numbers)) (Machine.execute closure w i)
      (Machine.execute closure w i') := by
  have hnone : ∀ u v : Unit, u = v →
      l.Ops (Option.Rel (Report.Alike l.numbers)) (pure none) (pure none) :=
    fun _ _ _ => .pure .none
  cases hi with
  | loadConstant target hx => exact .bind (setRegister_ops w target (.number hx)) hnone
  | same =>
    cases i with
    | makeFunction target code => exact .bind (makeFunction_ops w target code) hnone
    | bind index offset => exact .bind (bindUpvalue_ops w index offset) hnone
    | add target left right =>
      have hadd : l.Ops Eq (Machine.addRegisters w target left right)
          (Machine.addRegisters w target left right) :=
        .bind (getRegister_ops w left) fun _ _ hx => .bind (getRegister_ops w right) fun _ _ hy =>
          .bind (.ask fun _ => add_answers hx hy) fun _ _ hv => setRegister_ops w target hv
      exact .bind hadd hnone
    | ret result => exact returnFrom_ops result hfit
    | getUpvalue target index =>
      exact .bind (.ask fun h => h.upvalue closure index) fun _ _ hv =>
        .bind (setRegister_ops w target hv) hnone
    | setUpvalue source index =>
      exact .bind (getRegister_ops w source) fun _ _ hv =>
        .bind (setUpvalue_ops closure index hv) hnone
    | loadConstant target value =>
      exact .bind (setRegister_ops w target (alike_self (.number value))) hnone
    | call function argBase count => exact .bind (call_ops w function argBase) hnone
    | copy target source =>
      have hcopy : l.Ops Eq (Machine.copyRegister w target source)
          (Machine.copyRegister w target source) :=
        .bind (getRegister_ops w source) fun _ _ hv => setRegister_ops w target hv
      exact .bind hcopy hnone
    | halt => exact fun a b h => .ok (.some (h.snapshot .halt hfit)) h

namespace Machines

variable {a b : Machine}

theorem step (h : l.Machines a b) (hfit : a.Fitted) :
    l.Outcomes (Option.Rel (Report.Alike l.numbers)) (Machine.step a) (Machine.step b) := by
  have hf := h.fetch
  unfold Machine.step
  generalize ha : a.fetch = x at hf ⊢
  generalize b.fetch = y at hf ⊢
  cases hf with
  | error e => exact .error e h
  | excused he => exact .excused he
  | @ok f f' hf =>
    have hwindow : f.window.finish ≤ l.small.stackSize := h.sizeSmall ▸ hfit.window ha
    simp only [hf.frame, hf.window]
    exact execute_ops f.frame.closure hwindow hf.instruction _ _ (h.advance hf)

/-- Without an excuse, the machines stay related however many steps they take. -/
theorem stepped (h : l.Machines a b) (hr : Reachable l.small a) (hstrict : ∀ e, ¬ l.Excuses e)
    (n : Nat) : l.Machines (a.stepped n) (b.stepped n) := by
  induction n with
  | zero => exact h
  | succ n ih =>
    have hs := ih.step (hr.stepped n).fitted
    exact hs.machines hstrict

theorem interpret (h : l.Machines a b) (hr : Reachable l.small a) :
    l.Outcomes (Report.Alike l.numbers) (Machine.interpret a) (Machine.interpret b) := by
  fun_induction Machine.interpret a generalizing b with
  | case1 a report a' hs =>
    have hstep := h.step hr.fitted
    rw [hs] at hstep
    generalize hb : Machine.step b = o at hstep
    cases hstep with
    | @ok _ _ _ b' hreport hm =>
      cases hreport with
      | @some _ report' hreport =>
        have hend : Machine.interpret b = .ok report' b' := by rw [Machine.interpret, hb]
        rw [hend]
        exact .ok hreport hm
  | case2 a a' hs ih =>
    have hstep := h.step hr.fitted
    rw [hs] at hstep
    generalize hb : Machine.step b = o at hstep
    cases hstep with
    | @ok _ _ _ b' hreport hm =>
      cases hreport with
      | none =>
        have hnext : Machine.interpret b = Machine.interpret b' := by rw [Machine.interpret, hb]
        rw [hnext]
        exact ih hm (hr.step_ok hs)
  | case3 a e a' hs =>
    have hstep := h.step hr.fitted
    rw [hs] at hstep
    generalize hb : Machine.step b = o at hstep
    cases hstep with
    | @error _ _ b' hm =>
      have hend : Machine.interpret b = .error e b' := by rw [Machine.interpret, hb]
      rw [hend]
      exact .error e hm
    | excused he => exact .excused he

end Machines

theorem machines_ofConfig : l.Machines (.ofConfig l.small) (.ofConfig l.large) := by
  refine ⟨rfl, rfl, Array.size_replicate, Array.size_replicate, fun slot => ?_, fun i => ?_, rfl,
    fun i => ?_, rfl, rfl, rfl, rfl, rfl⟩
  · rw [stackAt_of_replicate rfl, stackAt_of_replicate rfl]
    exact .uninitialized
  · exact .none
  · exact .none

end Leeway

end ClosureMachine

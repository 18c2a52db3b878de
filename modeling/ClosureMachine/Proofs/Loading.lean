import ClosureMachine.Proofs.CellValues
import ClosureMachine.Proofs.Exhaustion

/-!
# Loading is decided by three tests

Loading looks at the entry of the program before it touches the machine, and at the room for
the entry frame when everything else is done. `Machine.Installed` says what is done by then, and
it holds whether or not the entry frame fits. That the reset in between cannot fail is
`Tracked.load_eq`. All this takes a handle of its own for every item of the heap.
-/

namespace ClosureMachine.Machine

variable {m m' : Machine} {p : Program} {entry : CodeObject} {e : Fault}

-- ---------------------------------------------------------------------------
-- What loading does before the entry frame
-- ---------------------------------------------------------------------------

/-- `m'` is `m` with `p` in place of what ran there, up to frames and high-water mark. -/
structure Installed (m : Machine) (p : Program) (m' : Machine) : Prop where
  config : m'.config = m.config
  stack : m'.stack = Array.replicate m.stack.size .uninitialized
  pending : m'.pending = none
  noneOpen : m'.openCells.entries = []
  /-- Every cell owns what it showed. -/
  closed : ∀ r < m.heap.cells.size, ∃ value, m.seenThrough? r = some value ∧
    m'.heap.cells[r]? = some (.closed value)
  noneAdded : m'.heap.cells.size = m.heap.cells.size
  /-- The new code comes after the old, and each prototype is its code object's new place. -/
  codes : m'.heap.codes = m.heap.codes ++ p.codes
  prototypes : m'.prototypes.size = p.codes.size
  prototype : ∀ i code, p.codes[i]? = some code →
    m'.prototypes[i]? = some (m.heap.codes.size + i) ∧
      m'.heap.codes[m.heap.codes.size + i]? = some code
  /-- The entry closure is new and has captured nothing. -/
  closures : m'.heap.closures = m.heap.closures.push ⟨m.heap.codes.size + p.entry.toNat, #[]⟩

theorem Installed.entered (h : m.Installed p m') (closure : ClosureRef) (base finish : Nat) :
    m.Installed p (m'.entered closure base finish) :=
  { h with }

theorem closed_staged (hfit : m.Fitted) {r : CellRef} (hr : r < m.heap.cells.size) :
    ∃ value, m.seenThrough? r = some value ∧
      ((m.closedFrom 0).staged p).heap.cells[r]? = some (.closed value) := by
  have hlt : r < (m.closedFrom 0).heap.cells.size := by simpa [Machine.closedFrom] using hr
  cases hc : (m.closedFrom 0).heap.cells[r]? with
  | none => exact absurd (Array.getElem?_eq_none_iff.mp hc) (Nat.not_le.mpr hlt)
  | some cell =>
    cases cell with
    | opened slot => exact absurd (opened_closedFrom hc) (Nat.not_lt_zero _)
    | closed value =>
      refine ⟨value, ?_, hc⟩
      rw [← seenThrough?_cleared hfit]
      exact seenThrough?_closed (m := (m.closedFrom 0).clear) hc

theorem installed_staged (hfit : m.Fitted) (hentry : p.entry.toNat < p.codes.size)
    (hcodes : m.heap.codes.size + p.codes.size ≤ handleSpace) :
    m.Installed p ((m.closedFrom 0).staged p) where
  config := rfl
  stack := rfl
  pending := rfl
  noneOpen := by
    refine List.eq_nil_iff_forall_not_mem.mpr fun entry hmem => ?_
    exact Nat.not_lt_zero _ (OpenCells.mem_entries_below.mp hmem).2
  closed r hr := closed_staged hfit hr
  noneAdded := Array.size_map ..
  codes := rfl
  prototypes := by simp [staged, withClosure, install]
  prototype i code hi := by
    obtain ⟨hlt, -⟩ := Array.getElem?_eq_some_iff.mp hi
    have hplace : m.heap.codes.size ≤ m.heap.codes.size + i := Nat.le_add_right ..
    have hhandle : handleAt (m.heap.codes.size + i) = m.heap.codes.size + i :=
      handleAt_of_lt (by omega)
    constructor
    · simp [staged, withClosure, install, clear, Machine.closedFrom, hlt, hhandle]
    · show (m.heap.codes ++ p.codes)[m.heap.codes.size + i]? = _
      rw [Array.getElem?_append_right hplace, Nat.add_sub_cancel_left, hi]
  closures := by
    have hhandle : handleAt (m.heap.codes.size + p.entry.toNat) =
        m.heap.codes.size + p.entry.toNat := handleAt_of_lt (by omega)
    rw [← hhandle]
    rfl

-- ---------------------------------------------------------------------------
-- Room for the entry frame
-- ---------------------------------------------------------------------------

theorem windowFor_staged (hentry : p.codes[p.entry.toNat]? = some entry)
    (hcodes : m.heap.codes.size + p.codes.size ≤ handleSpace)
    (hclosures : m.heap.closures.size < handleSpace) :
    ((m.closedFrom 0).staged p).windowFor m.heap.nextClosure 0 =
      if m.config.maxFrames = 0 then .error (.frameOverflow 0)
      else if m.stack.size < entry.stackSize.toNat then
        .error (.stackOverflow entry.stackSize.toNat m.stack.size)
      else .ok ⟨0, entry.stackSize.toNat⟩ := by
  obtain ⟨hlt, rfl⟩ := Array.getElem?_eq_some_iff.mp hentry
  have hconfig : ((m.closedFrom 0).staged p).config = m.config := rfl
  have hdepth : ((m.closedFrom 0).staged p).depth = 0 := rfl
  have hsize : ((m.closedFrom 0).staged p).stack.size = m.stack.size := Array.size_replicate
  have hroom : m.heap.codes.size + p.entry.toNat < handleSpace := by omega
  have hcode : ((m.closedFrom 0).staged p).codeOf m.heap.nextClosure = .ok p.codes[p.entry.toNat] :=
    codeOf_staged (m := m.closedFrom 0) hlt hroom hclosures
  simp only [windowFor, hconfig, hdepth, hsize, hcode, Nat.le_zero, Window.finish, Nat.zero_add]
  by_cases hframes : m.config.maxFrames = 0 <;> simp [hframes]

theorem Tracked.load_refused (h : m.Tracked) (hentry : p.entry.toNat < p.codes.size)
    (hw : ((m.closedFrom 0).staged p).windowFor m.heap.nextClosure 0 = .error e) :
    load p m = .error e ((m.closedFrom 0).staged p) := by
  simp [h.load_eq hentry, pushFrame_error.mpr ⟨hw, rfl⟩]

theorem Tracked.load_entered (h : m.Tracked) (hentry : p.entry.toNat < p.codes.size) {w : Window}
    (hw : ((m.closedFrom 0).staged p).windowFor m.heap.nextClosure 0 = .ok w) :
    load p m = .ok m.heap.nextClosure
      (((m.closedFrom 0).staged p).entered m.heap.nextClosure 0 w.finish) := by
  have hpush : pushFrame m.heap.nextClosure 0 ((m.closedFrom 0).staged p) =
      .ok () (((m.closedFrom 0).staged p).entered m.heap.nextClosure 0 w.finish) :=
    pushFrame_ok.mpr ⟨w, hw, rfl⟩
  simp [h.load_eq hentry, hpush]

-- ---------------------------------------------------------------------------
-- The three tests
-- ---------------------------------------------------------------------------

/-- On every machine that requests lead to: a program whose entry does not exist is refused, and
nothing changes. Any other, if there are handles for all that is on the heap once it is loaded, is
installed. Then loading fails without a frame if the machine may have none, else if the stack is
too short for the entry, and otherwise it succeeds with the entry closure in the only frame. -/
theorem load_is_decided {config : Config} {m : Machine} (h : Reachable config m) (p : Program) :
    (p.codes.size ≤ p.entry.toNat →
      load p m = .error (.malformed (.entryOutOfRange p.entry p.codes.size)) m) ∧
    ((m.request (.load p)).heap.Addressable →
    ∀ entry, p.codes[p.entry.toNat]? = some entry → ∃ m', m.Installed p m' ∧
      (config.maxFrames = 0 →
        load p m = .error (.frameOverflow 0) m' ∧ m'.frames = #[] ∧ m'.highWater = 0) ∧
      (config.maxFrames ≠ 0 → m.stack.size < entry.stackSize.toNat →
        load p m = .error (.stackOverflow entry.stackSize.toNat m.stack.size) m' ∧
          m'.frames = #[] ∧ m'.highWater = 0) ∧
      (config.maxFrames ≠ 0 → entry.stackSize.toNat ≤ m.stack.size →
        load p m = .ok m.heap.closures.size m' ∧ m'.frames = #[⟨m.heap.closures.size, 0, 0⟩] ∧
          m'.highWater = entry.stackSize.toNat)) := by
  refine ⟨load_of_size_le, fun haddress entry hentry => ?_⟩
  obtain ⟨hlt, -⟩ := Array.getElem?_eq_some_iff.mp hentry
  have ht : m.Tracked := h.tracked (Nat.le_trans (load_changes p m).grows.cells haddress.cells)
  rw [ht.heap_load hlt] at haddress
  have hcodes : m.heap.codes.size + p.codes.size ≤ handleSpace := by
    have hsize : (m.heap.codes ++ p.codes).size ≤ handleSpace := haddress.codes
    rwa [Array.size_append] at hsize
  have hclosures : m.heap.closures.size < handleSpace := by
    have hsize : (m.heap.closures.push _).size ≤ handleSpace := haddress.closures
    rwa [Array.size_push] at hsize
  have hstaged := installed_staged h.fitted hlt hcodes
  have hw := windowFor_staged hentry hcodes hclosures
  rw [h.handled.config_eq] at hw
  by_cases hframes : config.maxFrames = 0
  · rw [if_pos hframes] at hw
    refine ⟨_, hstaged, fun _ => ⟨ht.load_refused hlt hw, rfl, rfl⟩, ?_, ?_⟩
    · exact fun hne => absurd hframes hne
    · exact fun hne => absurd hframes hne
  rw [if_neg hframes] at hw
  by_cases hroom : m.stack.size < entry.stackSize.toNat
  · rw [if_pos hroom] at hw
    refine ⟨_, hstaged, fun he => absurd he hframes, fun _ _ => ?_, fun _ hle => ?_⟩
    · exact ⟨ht.load_refused hlt hw, rfl, rfl⟩
    · exact absurd hroom (Nat.not_lt.mpr hle)
  · rw [if_neg hroom] at hw
    refine ⟨_, hstaged.entered m.heap.nextClosure 0 entry.stackSize.toNat,
      fun he => absurd he hframes, fun _ hlt => absurd hlt hroom, fun _ _ => ?_⟩
    have hmark : max 0 entry.stackSize.toNat = entry.stackSize.toNat := Nat.zero_max _
    have hhandle : m.heap.nextClosure = m.heap.closures.size := handleAt_of_lt hclosures
    rw [← hhandle]
    refine ⟨?_, rfl, hmark⟩
    rw [ht.load_entered hlt hw, Window.finish, Nat.zero_add]

/-- An entry of nine registers does not fit four slots; the cell that was open on slot 0 still
shows what it showed. An entry of three registers fits. -/
theorem load_is_decided_overwriting :
    let p (size : UInt16) : Program := ⟨#[⟨"main", size, #[]⟩], 0⟩
    overwriting.heap.cells[0]? = some (.opened 0) ∧
      (∃ m', load (p 9) overwriting = .error (.stackOverflow 9 4) m' ∧ m'.frames = #[] ∧
        m'.heap.cells[0]? = some (.closed (.number ⟨1⟩))) ∧
      ∃ m', load (p 3) overwriting = .ok 2 m' ∧ m'.frames = #[⟨2, 0, 0⟩] ∧ m'.highWater = 3 := by
  intro p
  have hreach : Reachable ⟨4, 2, true⟩ overwriting :=
    .request .step (.request .step (.request .step (.request (.load _) .new)))
  have hseen : overwriting.seenThrough? 0 = some (.number ⟨1⟩) := by decide +kernel
  have hsize : overwriting.stack.size = 4 := by decide +kernel
  have hclosures : overwriting.heap.closures.size = 2 := by decide +kernel
  have hrefused : (overwriting.request (.load (p 9))).heap.Addressable :=
    ⟨⟨by decide +kernel, by decide +kernel⟩, by decide +kernel⟩
  have hentered : (overwriting.request (.load (p 3))).heap.Addressable :=
    ⟨⟨by decide +kernel, by decide +kernel⟩, by decide +kernel⟩
  refine ⟨by decide +kernel, ?_, ?_⟩
  · obtain ⟨m', hinstalled, -, hsmall, -⟩ := (load_is_decided hreach (p 9)).2 hrefused _ rfl
    obtain ⟨hload, hframes, -⟩ := hsmall (by decide) (by rw [hsize]; decide)
    obtain ⟨value, hvalue, hcell⟩ := hinstalled.closed 0 (by decide +kernel)
    obtain rfl := Option.some.inj (hseen.symm.trans hvalue)
    exact ⟨m', by rw [hload, hsize]; rfl, hframes, hcell⟩
  · obtain ⟨m', -, -, -, hfits⟩ := (load_is_decided hreach (p 3)).2 hentered _ rfl
    obtain ⟨hload, hframes, hmark⟩ := hfits (by decide) (by rw [hsize]; decide)
    exact ⟨m', by rw [hload, hclosures], by rw [hframes, hclosures], hmark⟩

/-- Where there are more cells than handles, the reset that comes first can fail. -/
theorem load_closes_twice : exhausting.entry.toNat < exhausting.codes.size ∧
    ∃ n m', load exhausting (exhaustion.stepped n) = .error (.doubleClose 0) m' ∧
      m'.heap.cells[handleSpace]? = some (.opened 5) := by
  obtain ⟨n, h⟩ := exists_severed
  obtain ⟨-, hupper⟩ := OpenCells.split_entries 0 [] [(1, 0)] h.tracked (by decide) (by decide)
  have hnone : (exhaustion.stepped n).Closable [] := ⟨List.nodup_nil, by simp⟩
  obtain ⟨m', hclose, hclosed⟩ := h.blocks.closeFrom_error hnone hupper
  exact ⟨entry_exhausting, n, m', load_of_not_closed hclose entry_exhausting,
    (hclosed.kept handleSpace (by simp)).trans h.last⟩

end ClosureMachine.Machine

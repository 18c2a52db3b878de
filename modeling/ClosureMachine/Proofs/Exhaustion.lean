import ClosureMachine.Program.Check
import ClosureMachine.Proofs.Capturing

/-!
# A run that uses up the handles

A program can make more closures and cells than there are handles, with few frames and a small
stack. A layer makes a closure, captures a register, and calls the layer below it twice, so each
layer spends twice as much as the one below it and one more: `Machine.layer_returns`. On top of
31 layers, `Machine.exhausting` goes on until the cell at position 2^32 is known by handle 0 as
well, while the first cell is open too. One return closes cell 0 with a value that its slot never
held; the next finds it closed already and fails; and the last cell is never closed.
-/

namespace ClosureMachine

namespace Machine

variable {m m' : Machine} {callers : Array Frame} {closure callee : ClosureRef}
  {base count ip k : Nat} {code : CodeObject}

-- ---------------------------------------------------------------------------
-- Layers
-- ---------------------------------------------------------------------------

/-- Code that captures one register and calls the code of the layer below twice. -/
def layer : Nat → CodeObject
  | 0 => ⟨"leaf", 2, #[.makeFunction 0 0, .bind 0 1, .ret 1]⟩
  | k + 1 => ⟨"fork", 3, #[.makeFunction 0 (UInt16.ofNat k), .bind 0 1, .call 0 2 0, .call 0 2 0,
      .ret 1]⟩

/-- How many closures a call of a layer makes, and how many cells. -/
def spent : Nat → Nat
  | 0 => 1
  | k + 1 => 2 * spent k + 1

/-- There is room for a call of layer `k` whose frame starts at `base`. -/
structure Ready (k base : Nat) (m : Machine) : Prop where
  small : k < 65536
  stack : base + 2 * k + 2 ≤ m.stack.size
  depth : m.depth + k < m.config.maxFrames
  closures : m.heap.closures.size + spent k ≤ handleSpace + 1
  cells : m.heap.cells.size + spent k ≤ handleSpace
  layers : ∀ j ≤ k - 1, ∃ proto : CodeRef,
    m.prototypes[j]? = some proto ∧ m.heap.codes[proto]? = some (layer j)
  below : ∀ entry ∈ m.openCells.entries, entry.1 < base

/-- The top frame, which starts at `base`, is about to call the layer in its register 0. -/
structure Calling (callers : Array Frame) (closure : ClosureRef) (ip base k : Nat) (m : Machine) :
    Prop where
  frames : m.frames = callers.push ⟨closure, ip, base⟩
  next : ∃ code, m.codeOf closure = .ok code ∧ code.instructions[ip]? = some (.call 0 2 0) ∧
    3 ≤ code.stackSize.toNat
  callee : ∃ callee, m.stackAt base = .function callee ∧ m.codeOf callee = .ok (layer k)
  ready : Ready k (base + 2) m

/-- From `m` to `m'` so many closures were made, and as many cells. -/
structure Spent (count : Nat) (m m' : Machine) : Prop where
  closures : m'.heap.closures.size = m.heap.closures.size + count
  cells : m'.heap.cells.size = m.heap.cells.size + count
  /-- The closure made last captures in its slot 0. -/
  last : ∃ c cell, m'.heap.closures[handleAt (m'.heap.closures.size - 1)]? = some c ∧
    c.slot? 0 = some cell

/-- Between `m` and `m'` a call whose frame starts at `base` has returned. -/
structure Returned (callers : Array Frame) (base count : Nat) (m m' : Machine) : Prop
    extends Keeps base m m', Spent count m m' where
  frames : m'.frames = callers
  tracked : m'.openCells = m.openCells

/-- The frame at `base`, called in `m`, had captured its register in `m'`. In `m₁` it has come to
`ip` and the calls it made have returned. -/
structure Resumed (callers : Array Frame) (closure : ClosureRef) (ip base count : Nat)
    (m m' m₁ : Machine) : Prop extends Keeps (base + 2) m' m₁, Spent count m m₁ where
  frames : m₁.frames = callers.push ⟨closure, ip, base⟩
  tracked : m₁.openCells = m'.openCells

theorem spent_pos (k : Nat) : 0 < spent k := by
  cases k <;> simp [spent]

theorem layer_start {k : Nat} (h : k < 65536) : ∃ index : UInt16, index.toNat = k - 1 ∧
    (layer k).instructions[0]? = some (.makeFunction 0 index) ∧
    (layer k).instructions[1]? = some (.bind 0 1) := by
  cases k with
  | zero => exact ⟨0, rfl, rfl, rfl⟩
  | succ k =>
    exact ⟨UInt16.ofNat k, UInt16.toNat_ofNat_of_lt' (by simp only [UInt16.size]; omega), rfl, rfl⟩

theorem size_layer_zero : (layer 0).stackSize.toNat = 2 := rfl

theorem size_layer_succ (k : Nat) : (layer (k + 1)).stackSize.toNat = 3 := rfl

theorem layer_size (k : Nat) :
    2 ≤ (layer k).stackSize.toNat ∧ (layer k).stackSize.toNat ≤ 2 * k + 2 := by
  cases k with
  | zero => rw [size_layer_zero]; omega
  | succ k => rw [size_layer_succ]; omega

/-- The called layer makes its closure and captures its register. -/
theorem Calling.captured (h : Calling callers closure ip base k m) :
    ∃ callee proto, m.codeOf callee = .ok (layer k) ∧ m.heap.codes[proto]? = some (layer (k - 1)) ∧
      Captured (callers.push ⟨closure, ip + 1, base⟩) callee (base + 2) proto m (m.stepped 3) := by
  obtain ⟨callee, hfunction, hcallee⟩ := h.callee
  obtain ⟨code, hcode, hnext, hsize⟩ := h.next
  obtain ⟨index, hindex, hmake, hbind⟩ := layer_start h.ready.small
  obtain ⟨proto, hproto, hlayer⟩ := h.ready.layers (k - 1) Nat.le.refl
  obtain ⟨hleast, hmost⟩ := layer_size k
  have hstack := h.ready.stack
  have hdepth : m.depth < m.config.maxFrames :=
    Nat.lt_of_le_of_lt (Nat.le_add_right _ k) h.ready.depth
  exact ⟨callee, proto, hcallee, hlayer,
    captured_call h.frames hcode hnext hsize hfunction hcallee hmake hbind hleast hdepth (by omega)
      (hindex ▸ hproto) h.ready.below⟩

theorem Captured.spends {proto : CodeRef} (h : Captured callers closure base proto m m') :
    Spent 1 m m' where
  closures := h.made
  cells := by rw [h.opened, Array.size_push]
  last := by
    obtain ⟨c, hc, hslot⟩ := h.bound
    exact ⟨c, _, by rw [h.made]; exact hc, hslot⟩

/-- The return of a frame that has captured its register 1 and has opened nothing else since. -/
theorem Resumed.returned {proto : CodeRef} {m₁ : Machine}
    (h : Resumed callers closure ip base count m m' m₁)
    (hc : Captured callers closure base proto m m') (hcode : m.codeOf closure = .ok code)
    (hret : code.instructions[ip]? = some (.ret 1)) (hsize : 2 ≤ code.stackSize.toNat)
    (hfit : base + code.stackSize.toNat ≤ m.stack.size)
    (hbelow : ∀ entry ∈ m.openCells.entries, entry.1 < base)
    (hroom : m.heap.cells.size < handleSpace) :
    Returned callers base count m (m₁.request .step) := by
  have hkeeps := hc.toKeeps.trans h.toKeeps (Nat.le_add_right ..)
  have hf := fetch_eq h.frames (hkeeps.changes.codeOf_ok hcode) hret
  have hstack : m₁.stack.size = m.stack.size := hkeeps.changes.size_stack
  have hnext : m.heap.nextCell = m.heap.cells.size := handleAt_of_lt hroom
  have hopen : m₁.heap.cells[m.heap.nextCell]? = some (.opened (base + 1)) := by
    have hpushed : m'.heap.cells[m.heap.nextCell]? = some (.opened (base + 1)) := by
      rw [hc.opened, hnext, Array.getElem?_push_size]
    rw [h.cell _ (Array.getElem?_eq_some_iff.mp hpushed).1, hpushed]
  have hentries : m₁.openCells.entries = m.openCells.entries ++ [(base + 1, m.heap.nextCell)] := by
    rw [h.tracked, hc.tracked]
    exact OpenCells.entries_insert_above (fun e he => Nat.lt_succ_of_lt (hbelow e he)) _
  obtain ⟨hlower, hupper⟩ := OpenCells.split_entries base _ _ hentries hbelow (by simp)
  have hvalue : m₁.register ⟨base, code.stackSize.toNat⟩ 1 = .ok (m₁.stackAt (base + 1)) :=
    register_ok.mpr ⟨base + 1, resolve_ok.mpr ⟨by simp; omega, rfl, by omega⟩, rfl⟩
  obtain ⟨report, -, hreleased, -⟩ :=
    step_ret hf hvalue ⟨by simp [hupper], by simp [hupper, hopen]⟩
  refine
    { changes := hkeeps.changes.trans hreleased.changes
      prototypes := hreleased.prototypes.trans hkeeps.prototypes
      codes := hreleased.codes.trans hkeeps.codes
      slot := fun s hs => (hreleased.slot s hs).trans (hkeeps.slot s hs)
      cell := fun r hr => (hreleased.kept r ?_).trans (hkeeps.cell r hr)
      frames := by rw [hreleased.frames, h.frames, Array.pop_push]
      tracked := OpenCells.ext_entries (hreleased.tracked.trans hlower)
      closures := by rw [hreleased.closures, h.closures]
      cells := by rw [hreleased.size, h.cells]
      last := by rw [hreleased.closures]; exact h.last }
  have hother : r ≠ m.heap.nextCell := hnext ▸ Nat.ne_of_lt hr
  simpa [hupper] using hother

/-- The frame that has captured its register calls the layer that its closure is made of. -/
theorem Captured.calling {proto : CodeRef} (h : Captured callers closure base proto m m')
    (hready : Ready (k + 1) base m) (hcallers : callers.size = m.depth)
    (hcode : m.codeOf closure = .ok code) (hnext : code.instructions[2]? = some (.call 0 2 0))
    (hsize : 3 ≤ code.stackSize.toNat) (hlayer : m.heap.codes[proto]? = some (layer k)) :
    Calling callers closure 2 base k m' := by
  obtain ⟨hsmall, hstack, hdepth, hclosures, hcells, hlayers, hbelow⟩ := hready
  have hpos := spent_pos k
  simp only [spent] at hclosures hcells
  obtain ⟨c, hc, rfl⟩ := h.code (by omega)
  refine ⟨h.frames, ⟨code, h.changes.codeOf_ok hcode, hnext, hsize⟩, ⟨_, h.function, ?_⟩, ?_⟩
  · exact codeOf_ok.mpr ⟨c, hc, by rw [h.codes, hlayer]⟩
  · refine ⟨by omega, ?_, ?_, ?_, ?_, fun j hj => ?_, fun e he => ?_⟩
    · rw [h.changes.size_stack]
      omega
    · rw [depth, h.frames, Array.size_push, hcallers, h.changes.config_eq]
      omega
    · rw [h.made]
      omega
    · rw [h.opened, Array.size_push]
      omega
    · obtain ⟨proto, hproto, hcode⟩ := hlayers j (by omega)
      exact ⟨proto, by rw [h.prototypes, hproto], by rw [h.codes, hcode]⟩
    · rw [h.tracked,
        OpenCells.entries_insert_above fun e he => Nat.lt_succ_of_lt (hbelow e he)] at he
      rcases List.mem_append.mp he with he | he
      · exact Nat.lt_add_right 2 (hbelow e he)
      · obtain rfl := List.mem_singleton.mp he
        exact Nat.lt_succ_self _

/-- After the first call of a layer there is room for a second. -/
theorem Calling.again (h : Calling callers closure ip base k m)
    (hr : Returned (callers.push ⟨closure, ip + 1, base⟩) (base + 2) (spent k) m m')
    (hcode : m.codeOf closure = .ok code) (hnext : code.instructions[ip + 1]? = some (.call 0 2 0))
    (hsize : 3 ≤ code.stackSize.toNat)
    (hclosures : m.heap.closures.size + 2 * spent k ≤ handleSpace + 1)
    (hcells : m.heap.cells.size + 2 * spent k ≤ handleSpace) :
    Calling callers closure (ip + 1) base k m' := by
  obtain ⟨callee, hfunction, hcallee⟩ := h.callee
  obtain ⟨hsmall, hstack, hdepth, -, -, hlayers, hbelow⟩ := h.ready
  refine ⟨hr.frames, ⟨code, hr.changes.codeOf_ok hcode, hnext, hsize⟩,
    ⟨callee, (hr.slot base (by omega)).trans hfunction, hr.changes.codeOf_ok hcallee⟩, ?_⟩
  have hframes : m'.depth = m.depth := by simp [depth, hr.frames, h.frames]
  refine ⟨hsmall, ?_, ?_, ?_, ?_, fun j hj => ?_, fun e he => hbelow e (hr.tracked ▸ he)⟩
  · rw [hr.changes.size_stack]
    exact hstack
  · rw [hframes, hr.changes.config_eq]
    exact hdepth
  · rw [hr.closures]
    omega
  · rw [hr.cells]
    omega
  · obtain ⟨proto, hproto, hcode⟩ := hlayers j hj
    exact ⟨proto, by rw [hr.prototypes, hproto], by rw [hr.codes, hcode]⟩

/-- Every call of layer `k` returns, having spent what the layer spends. -/
def LayerReturns (k : Nat) : Prop :=
  ∀ {callers : Array Frame} {closure : ClosureRef} {ip base : Nat} {m : Machine},
    Calling callers closure ip base k m →
      ∃ n, Returned (callers.push ⟨closure, ip + 1, base⟩) (base + 2) (spent k) m (m.stepped n)

/-- A frame that has captured its register makes its two calls. -/
theorem Captured.resumed {proto : CodeRef} (h : Captured callers closure base proto m m')
    (hreturns : LayerReturns k) (hready : Ready (k + 1) base m) (hcallers : callers.size = m.depth)
    (hcode : m.codeOf closure = .ok code) (hfirst : code.instructions[2]? = some (.call 0 2 0))
    (hsecond : code.instructions[3]? = some (.call 0 2 0)) (hsize : 3 ≤ code.stackSize.toNat)
    (hlayer : m.heap.codes[proto]? = some (layer k)) :
    ∃ n, Resumed callers closure 4 base (spent (k + 1)) m m' (m'.stepped n) := by
  have hclosures := hready.closures
  have hcells := hready.cells
  rw [spent] at hclosures hcells
  have hmade := h.spends.closures
  have hopened := h.spends.cells
  have hcall := h.calling hready hcallers hcode hfirst hsize hlayer
  obtain ⟨n₁, h₁⟩ := hreturns hcall
  have hcall₁ := hcall.again h₁ (h.changes.codeOf_ok hcode) hsecond hsize (by omega) (by omega)
  obtain ⟨n₂, h₂⟩ := hreturns hcall₁
  refine ⟨n₁ + n₂, ?_⟩
  rw [stepped_add]
  refine
    { toKeeps := h₁.toKeeps.trans h₂.toKeeps Nat.le.refl, frames := h₂.frames
      tracked := h₂.tracked.trans h₁.tracked, closures := ?_, cells := ?_, last := h₂.last }
  · rw [h₂.closures, h₁.closures, hmade, spent]
    omega
  · rw [h₂.cells, h₁.cells, hopened, spent]
    omega

theorem layer_returns (k : Nat) : LayerReturns k := by
  induction k with
  | zero =>
    intro callers closure ip base m h
    obtain ⟨callee, proto, hcode, -, hcaptured⟩ := h.captured
    have hresumed : Resumed (callers.push ⟨closure, ip + 1, base⟩) callee 2 (base + 2) 1 m
        (m.stepped 3) (m.stepped 3) :=
      { toKeeps := .refl .., toSpent := hcaptured.spends
        frames := hcaptured.frames, tracked := rfl }
    exact ⟨4, hresumed.returned hcaptured hcode rfl (layer_size 0).1 h.ready.stack h.ready.below
      h.ready.cells⟩
  | succ k ih =>
    intro callers closure ip base m h
    obtain ⟨callee, proto, hcode, hlayer, hcaptured⟩ := h.captured
    have hdepth : (callers.push ⟨closure, ip + 1, base⟩).size = m.depth := by simp [depth, h.frames]
    have hstack := h.ready.stack
    have hcells := h.ready.cells
    have hpos := spent_pos (k + 1)
    obtain ⟨n, hresumed⟩ := hcaptured.resumed ih h.ready hdepth hcode rfl rfl
      (Nat.le_of_eq (size_layer_succ k).symm) hlayer
    refine ⟨3 + n + 1, ?_⟩
    rw [stepped, stepped_add]
    exact hresumed.returned hcaptured hcode rfl (layer_size _).1 (by rw [size_layer_succ]; omega)
      h.ready.below (by omega)

-- ---------------------------------------------------------------------------
-- A program that uses up the handles
-- ---------------------------------------------------------------------------

/-- With two calls of the topmost layer the handles are used up. The closure and the cell that
come next get handles that are taken. -/
def brim : CodeObject :=
  ⟨"brim", 4, #[.makeFunction 0 30, .bind 0 1, .call 0 2 0, .call 0 2 0, .loadConstant 3 ⟨7⟩,
    .makeFunction 0 0, .bind 1 3, .ret 3]⟩

def bottom : CodeObject :=
  ⟨"bottom", 3, #[.makeFunction 0 31, .bind 0 1, .call 0 2 0, .ret 1, .ret 1]⟩

def exhausting : Program := ⟨(Array.range 31).map layer ++ #[brim, bottom], 32⟩

def exhaustion : Machine := (ofConfig {}).request (.load exhausting)

theorem check_exhausting : exhausting.check = .ok () := by
  decide +kernel

/-- The two calls in `brim` bring the cells to the number of handles. -/
theorem spent_top : spent 31 = handleSpace - 1 := by
  simp [spent, handleSpace]

theorem size_exhausting : exhausting.codes.size = 33 := by
  simp [exhausting]

theorem entry_exhausting : exhausting.entry.toNat < exhausting.codes.size := by
  rw [size_exhausting]
  decide

theorem load_eq : load exhausting (ofConfig {}) =
    .ok 0 (((ofConfig {}).staged exhausting).entered 0 0 3) := by
  have hcode : ((ofConfig {}).staged exhausting).codeOf 0 = .ok bottom := by
    refine codeOf_ok.mpr ⟨.new 32, rfl, ?_⟩
    show (#[] ++ exhausting.codes)[32]? = _
    simp [exhausting]
  have hwindow : ((ofConfig {}).staged exhausting).windowFor 0 0 = .ok ⟨0, 3⟩ :=
    windowFor_ok.mpr ⟨by decide, bottom, hcode, rfl, by rw [size_staged]; decide +kernel⟩
  have hpush : pushFrame 0 0 ((ofConfig {}).staged exhausting) =
      .ok () (((ofConfig {}).staged exhausting).entered 0 0 3) := pushFrame_ok.mpr ⟨_, hwindow, rfl⟩
  have hclosed : closeFrom 0 (ofConfig {}) = .ok 0 (ofConfig {}) := rfl
  exact (load_of_closed hclosed entry_exhausting).trans (Op.bind_of_ok hpush rfl)

theorem exhaustion_eq : exhaustion = ((ofConfig {}).staged exhausting).entered 0 0 3 := by
  rw [exhaustion, request, load_eq]
  rfl

/-- The entry closure is closure 0. -/
theorem load_exhausting : load exhausting (ofConfig {}) = .ok 0 exhaustion := by
  rw [exhaustion_eq, load_eq]

theorem codes_exhaustion : exhaustion.heap.codes = exhausting.codes := by
  rw [exhaustion_eq]
  exact Array.empty_append

theorem layer_exhaustion {j : Nat} (h : j < 31) : exhaustion.heap.codes[j]? = some (layer j) := by
  simp [codes_exhaustion, exhausting, Array.getElem?_append, h]

theorem prototype_exhaustion {j : Nat} (h : j < 33) : exhaustion.prototypes[j]? = some j := by
  have hprototypes : exhaustion.prototypes =
      (Array.range exhausting.codes.size).map (handleAt <| 0 + ·) := by
    rw [exhaustion_eq]
    rfl
  rw [hprototypes, size_exhausting]
  simp [h, handleAt_of_lt (Nat.lt_trans h (by decide : 33 < handleSpace))]

theorem codeOf_exhaustion : exhaustion.codeOf 0 = .ok bottom := by
  refine codeOf_ok.mpr ⟨.new 32, by rw [exhaustion_eq]; rfl, ?_⟩
  simp [codes_exhaustion, exhausting, Closure.new]

theorem frames_exhaustion : exhaustion.frames = #[].push ⟨0, 0, 0⟩ := by rw [exhaustion_eq]; rfl

theorem config_exhaustion : exhaustion.config = {} := by rw [exhaustion_eq]; rfl

theorem closures_exhaustion : exhaustion.heap.closures = #[.new 32] := by rw [exhaustion_eq]; rfl

theorem cells_exhaustion : exhaustion.heap.cells = #[] := by rw [exhaustion_eq]; rfl

theorem openCells_exhaustion : exhaustion.openCells = .empty := by rw [exhaustion_eq]; rfl

theorem stack_exhaustion : exhaustion.stack = Array.replicate 1024 .uninitialized := by
  rw [exhaustion_eq]
  show Array.replicate (Array.replicate 1024 Value.uninitialized).size Value.uninitialized = _
  rw [Array.size_replicate]

theorem nextClosure_exhaustion : exhaustion.heap.nextClosure = 1 := by
  rw [Heap.nextClosure, closures_exhaustion]
  rfl

theorem fits_exhaustion : 0 + bottom.stackSize.toNat ≤ exhaustion.stack.size := by
  rw [stack_exhaustion, Array.size_replicate]
  decide +kernel

theorem untracked_exhaustion : ∀ entry ∈ exhaustion.openCells.entries, entry.1 < 0 := by
  rw [openCells_exhaustion]
  exact fun _ h => absurd h List.not_mem_nil

theorem exhaustion_captured : Captured #[] 0 0 31 exhaustion (exhaustion.stepped 2) :=
  captured_stepped frames_exhaustion codeOf_exhaustion rfl rfl (by decide +kernel)
    fits_exhaustion (prototype_exhaustion (by decide)) untracked_exhaustion

theorem exhaustion_opens :
    (exhaustion.stepped 1).Opens ⟨0, 1, 0⟩ ⟨0, 3⟩ 0 1 1 1 ∧
      (exhaustion.stepped 1).heap.nextCell = 0 := by
  have hopens := made_opens frames_exhaustion codeOf_exhaustion rfl rfl (by decide +kernel)
    fits_exhaustion (prototype_exhaustion (by decide)) untracked_exhaustion
  have hmade := request_made frames_exhaustion codeOf_exhaustion rfl (by decide +kernel)
    fits_exhaustion (prototype_exhaustion (by decide))
  rw [nextClosure_exhaustion] at hopens
  refine ⟨hopens, ?_⟩
  rw [stepped, stepped, hmade]
  show handleAt exhaustion.heap.cells.size = 0
  rw [cells_exhaustion]
  rfl

theorem ready_brim : Ready 31 2 (exhaustion.stepped 2) := by
  have hc := exhaustion_captured
  refine
    { small := by decide, stack := ?stack, depth := ?depth, closures := ?closures, cells := ?cells
      layers := fun j hj => ⟨j, ?prototype, ?layer⟩, below := ?below }
  case stack =>
    rw [hc.changes.size_stack, stack_exhaustion, Array.size_replicate]
    decide
  case depth =>
    rw [hc.changes.config_eq, config_exhaustion, depth, hc.frames]
    decide
  case closures =>
    rw [hc.made, closures_exhaustion, spent_top]
    decide
  case cells =>
    rw [hc.opened, cells_exhaustion, spent_top]
    decide
  case prototype => rw [hc.prototypes, prototype_exhaustion (by omega)]
  case layer => rw [hc.codes, layer_exhaustion (by omega)]
  case below =>
    rw [hc.tracked, openCells_exhaustion]
    decide

theorem codeOf_brim : (exhaustion.stepped 2).codeOf 1 = .ok brim := by
  have hc := exhaustion_captured
  have hroom : exhaustion.heap.closures.size < handleSpace := by
    rw [closures_exhaustion]
    decide
  obtain ⟨c, hmade, hproto⟩ := hc.code hroom
  rw [nextClosure_exhaustion] at hmade
  refine codeOf_ok.mpr ⟨c, hmade, ?_⟩
  rw [hc.codes, hproto, codes_exhaustion]
  simp [exhausting]

theorem brim_captured :
    Captured #[⟨0, 3, 0⟩] 1 2 30 (exhaustion.stepped 2) (exhaustion.stepped 5) := by
  have hc := exhaustion_captured
  have hready := ready_brim
  have hfunction : (exhaustion.stepped 2).stackAt 0 = .function 1 := by
    rw [hc.function, nextClosure_exhaustion]
  have hproto : (exhaustion.stepped 2).prototypes[30]? = some 30 := by
    rw [hc.prototypes, prototype_exhaustion (by decide)]
  have hdepth := Nat.lt_of_le_of_lt (Nat.le_add_right _ 31) hready.depth
  have hfit : 0 + 2 + brim.stackSize.toNat ≤ (exhaustion.stepped 2).stack.size :=
    Nat.le_trans (by decide +kernel) hready.stack
  exact captured_call hc.frames (hc.changes.codeOf_ok codeOf_exhaustion) rfl (by decide +kernel)
    hfunction codeOf_brim rfl rfl (by decide +kernel) hdepth hfit hproto hready.below

/-- The frame of `brim` has made both its calls, and no handle is left for a cell. -/
structure Brimful (m : Machine) : Prop where
  frames : m.frames = #[⟨0, 3, 0⟩, ⟨1, 4, 2⟩]
  bottom : m.codeOf 0 = .ok bottom
  brim : m.codeOf 1 = .ok brim
  prototype : m.prototypes[0]? = some 0
  stack : m.stack.size = 1024
  zero : m.stackAt 0 = .function 1
  one : m.stackAt 1 = .uninitialized
  tracked : m.openCells.entries = [(1, 0), (3, 1)]
  closures : m.heap.closures.size = handleSpace + 1
  cells : m.heap.cells.size = handleSpace
  first : m.heap.cells[0]? = some (.opened 1)
  second : m.heap.cells[1]? = some (.opened 3)
  entry : ∃ c cell, m.heap.closures[0]? = some c ∧ c.slot? 0 = some cell

theorem size_closures_captured : (exhaustion.stepped 2).heap.closures.size = 2 := by
  rw [exhaustion_captured.made, closures_exhaustion]
  rfl

theorem cells_captured : (exhaustion.stepped 2).heap.cells = #[.opened 1] := by
  rw [exhaustion_captured.opened, cells_exhaustion]
  rfl

theorem openCells_captured : (exhaustion.stepped 5).openCells.entries = [(1, 0), (3, 1)] := by
  have hzero : exhaustion.heap.nextCell = 0 := by rw [Heap.nextCell, cells_exhaustion]; rfl
  have hone : (exhaustion.stepped 2).heap.nextCell = 1 := by rw [Heap.nextCell, cells_captured]; rfl
  rw [brim_captured.tracked, exhaustion_captured.tracked, openCells_exhaustion, hzero, hone]
  decide +kernel

theorem exists_brimful : ∃ n, Brimful (exhaustion.stepped n) := by
  have hc := exhaustion_captured
  have hb := brim_captured
  have hlayer : (exhaustion.stepped 2).heap.codes[30]? = some (layer 30) := by
    rw [hc.codes, layer_exhaustion (by decide)]
  obtain ⟨n, hr⟩ := hb.resumed (layer_returns 30) ready_brim (by rw [depth, hc.frames]; rfl)
    codeOf_brim rfl rfl (by decide +kernel) hlayer
  rw [← stepped_add] at hr
  have hkeeps := hb.toKeeps.trans hr.toKeeps (by decide)
  have hclosures : (exhaustion.stepped (5 + n)).heap.closures.size = handleSpace + 1 := by
    rw [hr.closures, size_closures_captured, spent_top]
    rfl
  refine ⟨5 + n,
    { frames := hr.frames
      bottom := hkeeps.changes.codeOf_ok (hc.changes.codeOf_ok codeOf_exhaustion)
      brim := hkeeps.changes.codeOf_ok codeOf_brim
      prototype := ?prototype, stack := ?stack, zero := ?zero, one := ?one, tracked := ?tracked
      closures := hclosures, cells := ?cells, first := ?first, second := ?second, entry := ?entry }⟩
  case prototype => rw [hkeeps.prototypes, hc.prototypes, prototype_exhaustion (by decide)]
  case stack =>
    rw [hkeeps.changes.size_stack, hc.changes.size_stack, stack_exhaustion, Array.size_replicate]
  case zero => rw [hkeeps.slot 0 (by decide), hc.function, nextClosure_exhaustion]
  case one =>
    rw [hkeeps.slot 1 (by decide), hc.register, stackAt, stack_exhaustion]
    simp
  case tracked => rw [hr.tracked, openCells_captured]
  case cells =>
    rw [hr.cells, cells_captured, spent_top]
    rfl
  case first =>
    rw [hkeeps.cell 0 (by rw [cells_captured]; decide), cells_captured]
    rfl
  case second =>
    rw [hr.cell 1 (by rw [hb.opened, cells_captured]; decide), hb.opened, cells_captured]
    rfl
  case entry =>
    have hlast := hr.last
    rwa [hclosures] at hlast

/-- From the `bind` on that takes handle 0 for a second cell, the cell itself stays open. -/
structure Reused (frames : Array Frame) (entries : List OpenEntry) (first : Cell) (m : Machine) :
    Prop where
  frames : m.frames = frames
  bottom : m.codeOf 0 = .ok bottom
  stack : m.stack.size = 1024
  tracked : m.openCells.entries = entries
  first : m.heap.cells[0]? = some first
  last : m.heap.cells[handleSpace]? = some (.opened 5)

/-- Two slots are tracked with handle 0. -/
structure Aliased (m : Machine) : Prop
    extends Reused #[⟨0, 3, 0⟩, ⟨1, 7, 2⟩] [(1, 0), (3, 1), (5, 0)] (.opened 1) m where
  brim : m.codeOf 1 = .ok Machine.brim
  zero : m.stackAt 0 = .function 1
  one : m.stackAt 1 = .uninitialized
  five : m.stackAt 5 = .number ⟨7⟩
  second : m.heap.cells[1]? = some (.opened 3)

/-- A return has closed cell 0, which slot 1 is tracked with still. -/
structure Severed (m : Machine) : Prop
    extends Reused #[⟨0, 3, 0⟩] [(1, 0)] (.closed (.number ⟨7⟩)) m where
  zero : m.stackAt 0 = .function 1
  one : m.stackAt 1 = .uninitialized

theorem Brimful.stepped_two (h : Brimful m) : m.stepped 2 = { m with
    heap := m.heap.addClosure (.new 0)
    stack := (m.stack.setIfInBounds 5 (.number ⟨7⟩)).setIfInBounds 2 (.function 1)
    highWater := max (max m.highWater 6) 3
    frames := #[⟨0, 3, 0⟩, ⟨1, 6, 2⟩]
    pending := some 1 } := by
  have hframes : m.frames = #[⟨0, 3, 0⟩].push ⟨1, 4, 2⟩ := h.frames
  have hinside : m.resolve ⟨2, 4⟩ 3 = .ok 5 :=
    resolve_ok.mpr ⟨by decide, rfl, by rw [h.stack]; decide⟩
  have hload := request_loadConstant (fetch_eq hframes h.brim rfl) hinside
  rw [hframes, Array.pop_push] at hload
  have hframes₁ : (m.request .step).frames = #[⟨0, 3, 0⟩].push ⟨1, 5, 2⟩ := by rw [hload]
  have hproto : (m.request .step).prototypes[0]? = some 0 := by rw [hload, h.prototype]
  have hinside₁ : (m.request .step).resolve ⟨2, 4⟩ 0 = .ok 2 := by
    refine resolve_ok.mpr ⟨by decide, rfl, ?_⟩
    rw [(request_changes m .step).size_stack, h.stack]
    decide
  have hnext : m.heap.nextClosure = 1 := by
    rw [Heap.nextClosure, h.closures]
    rfl
  have hmake := request_makeFunction (fetch_eq hframes₁ ((step_changes m).codeOf_ok h.brim) rfl)
    hproto hinside₁
  show (m.request .step).request .step = _
  rw [hmake, hload]
  simp [hnext]

/-- The next `bind` finds that the cell after the last handle is known by handle 0. -/
theorem Brimful.opens (h : Brimful m) :
    (m.stepped 2).Opens ⟨1, 6, 2⟩ ⟨2, 4⟩ 1 3 1 5 ∧ (m.stepped 2).heap.nextCell = 0 := by
  have htwo := h.stepped_two
  have hcode : (m.stepped 2).codeOf 1 = .ok Machine.brim := (stepped_changes m 2).codeOf_ok h.brim
  have hframes : (m.stepped 2).frames = #[⟨0, 3, 0⟩].push ⟨1, 6, 2⟩ := by rw [htwo]; rfl
  refine ⟨
    { fetched := fetch_eq hframes hcode rfl
      pending := by rw [htwo]
      inside := rfl
      present := ?present
      free := ?free }, ?next⟩
  case present =>
    rw [htwo]
    show 1 < (m.heap.closures.push _).size
    rw [Array.size_push, h.closures]
    decide
  case free =>
    rw [htwo]
    refine OpenCells.find?_of_above ?_
    rw [h.tracked]
    decide
  case next =>
    rw [htwo]
    show handleAt m.heap.cells.size = 0
    rw [h.cells]
    rfl

theorem Brimful.aliased (h : Brimful m) : Aliased (m.stepped 3) := by
  obtain ⟨hopens, hnext⟩ := h.opens
  have hbound := hopens.step_eq.2
  have hchanges : Changes m (m.stepped 3) := stepped_changes m 3
  have hcells : (m.stepped 3).heap.cells = m.heap.cells.push (.opened 5) := by
    rw [stepped, hbound, h.stepped_two]
    rfl
  have hlow : ∀ {r : CellRef} {cell : Cell}, r < 2 → m.heap.cells[r]? = some cell →
      (m.stepped 3).heap.cells[r]? = some cell := by
    intro r cell hr hcell
    have hne : r ≠ m.heap.cells.size := by
      rw [h.cells]
      exact Nat.ne_of_lt (Nat.lt_trans hr (by decide))
    rw [hcells, Array.getElem?_push, if_neg hne, hcell]
  have hstack : ∀ slot, (m.stepped 3).stackAt slot =
      ((m.stack.setIfInBounds 5 (.number ⟨7⟩)).setIfInBounds 2 (.function 1)).getD slot
        .uninitialized := by
    intro slot
    rw [stepped, hbound, h.stepped_two]
    rfl
  refine
    { frames := ?frames, bottom := hchanges.codeOf_ok h.bottom
      brim := hchanges.codeOf_ok h.brim, stack := hchanges.size_stack.trans h.stack
      tracked := ?tracked, first := hlow (by decide) h.first
      second := hlow (by decide) h.second, last := ?last
      zero := ?zero, one := ?one, five := ?five }
  case frames =>
    rw [stepped, hbound, h.stepped_two]
    rfl
  case tracked =>
    rw [stepped, hbound, hnext, h.stepped_two,
      OpenCells.entries_insert_above (by rw [h.tracked]; decide), h.tracked]
    rfl
  case last =>
    rw [hcells, ← h.cells, Array.getElem?_push_size]
  case zero =>
    have hzero := h.zero
    rw [hstack]
    simpa [stackAt] using hzero
  case one =>
    have hone := h.one
    rw [hstack]
    simpa [stackAt] using hone
  case five =>
    rw [hstack]
    simp [h.stack]

theorem exists_aliased : ∃ n, Aliased (exhaustion.stepped n) := by
  obtain ⟨n, h⟩ := exists_brimful
  exact ⟨n + 3, stepped_add exhaustion n 3 ▸ h.aliased⟩

theorem Aliased.fetch (h : Aliased m) : m.fetch = .ok ⟨⟨1, 7, 2⟩, ⟨2, 4⟩, .ret 3⟩ := by
  have hframes : m.frames = #[⟨0, 3, 0⟩].push ⟨1, 7, 2⟩ := h.frames
  exact fetch_eq hframes h.brim rfl

/-- The value of slot 5 goes into the cell that captured slot 1, which holds nothing. -/
theorem Aliased.severed (h : Aliased m) :
    ∃ report, step m = .ok report (m.request .step) ∧ Severed (m.request .step) := by
  have hvalue : m.register ⟨2, 4⟩ 3 = .ok (.number ⟨7⟩) :=
    register_ok.mpr ⟨5, resolve_ok.mpr ⟨by decide, rfl, by rw [h.stack]; decide⟩, h.five⟩
  obtain ⟨hlower, hupper⟩ :=
    OpenCells.split_entries 2 [(1, 0)] [(3, 1), (5, 0)] h.tracked (by decide) (by decide)
  have hopen : m.Closable (m.openCells.entriesFrom 2) := by
    rw [hupper]
    exact ⟨by decide, by simp [h.first, h.second]⟩
  obtain ⟨report, hs, hreleased, -⟩ := step_ret h.fetch hvalue hopen
  refine ⟨report, hs,
    { frames := ?frames, bottom := hreleased.changes.codeOf_ok h.bottom
      stack := hreleased.changes.size_stack.trans h.stack, tracked := hreleased.tracked.trans hlower
      first := ?first, last := ?last, zero := (hreleased.slot 0 (by decide)).trans h.zero
      one := (hreleased.slot 1 (by decide)).trans h.one }⟩
  case frames =>
    rw [hreleased.frames, h.frames]
    rfl
  case first =>
    have hclosed := hreleased.closed (5, 0) (by simp [hupper])
    rwa [stackAt_store, if_neg (by simp), h.five] at hclosed
  case last =>
    rw [hreleased.kept handleSpace (by rw [hupper]; decide), h.last]

theorem exists_severed : ∃ n, Severed (exhaustion.stepped n) := by
  obtain ⟨n, h⟩ := exists_aliased
  obtain ⟨-, -, hsevered⟩ := h.severed
  exact ⟨n + 1, hsevered⟩

theorem Severed.fetch (h : Severed m) : m.fetch = .ok ⟨⟨0, 3, 0⟩, ⟨0, 3⟩, .ret 1⟩ := by
  have hframes : m.frames = #[].push ⟨0, 3, 0⟩ := h.frames
  exact fetch_eq hframes h.bottom rfl

theorem Severed.blocks (h : Severed m) : m.Blocks [] (1, 0) (.doubleClose 0) :=
  .closed h.first

/-- The return fails when it has written its result and lost track of slot 1. -/
theorem Severed.step_eq (h : Severed m) :
    step m = .error (.doubleClose 0) (m.request .step) ∧
      (m.request .step).stackAt 0 = .uninitialized ∧
      Reused #[⟨0, 4, 0⟩] [] (.closed (.number ⟨7⟩)) (m.request .step) := by
  have hvalue : m.register ⟨0, 3⟩ 1 = .ok .uninitialized :=
    register_ok.mpr ⟨1, resolve_ok.mpr ⟨by decide, rfl, by rw [h.stack]; decide⟩, h.one⟩
  obtain ⟨-, hupper⟩ := OpenCells.split_entries 0 [] [(1, 0)] h.tracked (by decide) (by decide)
  have hnone : m.Closable [] := ⟨List.nodup_nil, by simp⟩
  obtain ⟨m', hs, hclosed⟩ := step_ret_error h.fetch hvalue hnone h.blocks hupper
  have hrequest : m.request .step = m' := congrArg Outcome.machine hs
  have hchanges := request_changes m .step
  rw [hrequest] at hchanges ⊢
  refine ⟨hs, ?zero,
    { frames := ?frames, bottom := hchanges.codeOf_ok h.bottom
      stack := hchanges.size_stack.trans h.stack, tracked := ?tracked
      first := (hclosed.kept 0 (by simp)).trans h.first
      last := (hclosed.kept handleSpace (by simp)).trans h.last }⟩
  case zero =>
    rw [hclosed.rest]
    show (m.stack.setIfInBounds 0 .uninitialized).getD 0 .uninitialized = .uninitialized
    simp [h.stack]
  case frames =>
    rw [hclosed.rest]
    show m.frames.pop.push ⟨0, 4, 0⟩ = _
    rw [h.frames]
    rfl
  case tracked =>
    rw [hclosed.tracked]
    exact List.filter_eq_nil_iff.mpr (by simp)

theorem exists_stopping :
    ∃ n, Reused #[⟨0, 4, 0⟩] [] (.closed (.number ⟨7⟩)) (exhaustion.stepped n) := by
  obtain ⟨n, h⟩ := exists_severed
  exact ⟨n + 1, h.step_eq.2.2⟩

/-- The next return finds nothing to close and ends the run. -/
theorem Reused.stops (h : Reused #[⟨0, 4, 0⟩] [] (.closed (.number ⟨7⟩)) m) :
    ∃ report, step m = .ok (some report) (m.request .step) ∧ report.reason = .entryReturn ∧
      Reused #[] [] (.closed (.number ⟨7⟩)) (m.request .step) := by
  have hframes : m.frames = #[].push ⟨0, 4, 0⟩ := h.frames
  have hf := fetch_eq hframes h.bottom rfl
  have hvalue : m.register ⟨0, 3⟩ 1 = .ok (m.stackAt 1) :=
    register_ok.mpr ⟨1, resolve_ok.mpr ⟨by decide, rfl, by rw [h.stack]; decide⟩, rfl⟩
  obtain ⟨hlower, hupper⟩ := OpenCells.split_entries 0 [] [] h.tracked (by decide) (by decide)
  have hopen : m.Closable (m.openCells.entriesFrom 0) := by
    rw [hupper]
    exact ⟨List.nodup_nil, by simp⟩
  obtain ⟨report, hs, hreleased, hstop⟩ := step_ret hf hvalue hopen
  have hkept : ∀ r : CellRef, (m.request .step).heap.cells[r]? = m.heap.cells[r]? := by
    refine fun r => hreleased.kept r ?_
    show r ∉ (m.openCells.entriesFrom 0).map (·.2)
    simp [hupper]
  obtain ⟨stop, rfl, hreason⟩ := hstop (by rw [depth, h.frames]; rfl)
  refine ⟨stop, hs, hreason,
    { frames := by rw [hreleased.frames, h.frames]; rfl
      bottom := hreleased.changes.codeOf_ok h.bottom
      stack := hreleased.changes.size_stack.trans h.stack
      tracked := hreleased.tracked.trans hlower
      first := (hkept 0).trans h.first, last := (hkept handleSpace).trans h.last }⟩

end Machine

end ClosureMachine

import ClosureMachine.Proofs.Checking
import ClosureMachine.Proofs.Exhaustion
import ClosureMachine.Proofs.Links

/-!
# Runs of checked programs

The check looks at each code object on its own; a run goes back and forth between them, and
on after faults. What joins the two is `Machine.Conforms`: only the program's code is there,
a suspended frame never goes on in a run of `bind`s, and the running frame does so only while
a closure is pending. So a program that passes the check faults only where the check could
not have known better, or where the machine ran out of handles: `Machine.Excused`.
-/

namespace ClosureMachine

namespace Machine

/-- The faults that an instruction of a checked program can still end in. -/
inductive Excused (m : Machine) (f : Fetched) : Fault → Prop
  | add {target left right : UInt8} {found : ValueKind}
      (hi : f.instruction = .add target left right) (h : found ≠ .number) :
      Excused m f (.typeMismatch .add .number found)
  | notFunction {function argBase count : UInt8} {found : ValueKind}
      (hi : f.instruction = .call function argBase count) (h : found ≠ .function) :
      Excused m f (.typeMismatch .call .function found)
  | frameOverflow {function argBase count : UInt8}
      (hi : f.instruction = .call function argBase count) (h : m.config.maxFrames ≤ m.depth) :
      Excused m f (.frameOverflow m.config.maxFrames)
  | stackOverflow {function argBase count : UInt8} {callee : ClosureRef} {code : CodeObject}
      (hi : f.instruction = .call function argBase count)
      (hcallee : m.register f.window function = .ok (.function callee))
      (hcode : m.codeOf callee = .ok code)
      (h : m.stack.size < f.frame.base + argBase.toNat + code.stackSize.toNat) :
      Excused m f
        (.stackOverflow (f.frame.base + argBase.toNat + code.stackSize.toNat) m.stack.size)
  | getUpvalue {target index : UInt8} {count : Nat}
      (hi : f.instruction = .getUpvalue target index) :
      Excused m f (.upvalueOutOfBounds index count)
  | setUpvalue {source index : UInt8} {count : Nat}
      (hi : f.instruction = .setUpvalue source index) :
      Excused m f (.upvalueOutOfBounds index count)
  /-- Two cells have the same handle, and the return closes what it names a second time. -/
  | doubleClose {result : UInt8} {r : CellRef} (hi : f.instruction = .ret result)
      (h : handleSpace < m.heap.cells.size) : Excused m f (.doubleClose r)

/-- No `bind` may stand where `frame` goes on. -/
def AtRest (m : Machine) (frame : Frame) : Prop :=
  ∃ code, m.codeOf frame.closure = .ok code ∧ ¬ code.BindingAt frame.ip

structure Conforms (p : Program) (m : Machine) : Prop where
  codes : m.heap.codes = p.codes
  prototypes : m.prototypes.size = p.codes.size
  callers : ∀ frame ∈ m.frames.pop, m.AtRest frame
  running : ∀ frame, m.frames.back? = some frame → m.pending = none → m.AtRest frame

variable {config : Config} {p : Program} {m m' : Machine} {f : Fetched} {w : Window}
  {closure : ClosureRef} {i : Instruction} {e : Fault} {report : Option Report}

theorem AtRest.changes {frame : Frame} (h : m.AtRest frame) (hc : Changes m m') :
    m'.AtRest frame := by
  obtain ⟨code, hcode, hrest⟩ := h
  exact ⟨code, hc.codeOf_ok hcode, hrest⟩

-- ---------------------------------------------------------------------------
-- What the check says about the instruction that runs
-- ---------------------------------------------------------------------------

/-- The fetched instruction may stand where it does in the code of its frame. -/
theorem Conforms.admits (h : Conforms p m) (hp : p.WellFormed) (hf : m.fetch = .ok f) :
    ∃ code, m.codeOf f.frame.closure = .ok code ∧
      f.window = ⟨f.frame.base, code.stackSize.toNat⟩ ∧
      code.Admits p.codes.size f.frame.ip f.instruction := by
  obtain ⟨code, -, hcode, hw, hi⟩ := fetch_ok hf
  have hmem : code ∈ p.codes := h.codes ▸ Array.mem_toList_iff.mp (codeOf_mem hcode)
  have hwf := CodeObject.wellFormed_iff.mp (hp.codes code hmem)
  exact ⟨code, hcode, hw, hwf.2 _ _ hi⟩

theorem Conforms.not_bindingAt (h : Conforms p m) (hf : m.fetch = .ok f) {code : CodeObject}
    (hcode : m.codeOf f.frame.closure = .ok code) (hpending : m.pending = none) :
    ¬ code.BindingAt f.frame.ip := by
  obtain ⟨_, hback, -⟩ := fetch_ok hf
  obtain ⟨code', hcode', hrest⟩ := h.running f.frame hback hpending
  obtain rfl := Except.ok.inj (hcode.symm.trans hcode')
  exact hrest

/-- Where the frame goes on after its instruction no `bind` may stand, unless a closure has
been made or there is still one to bind. -/
theorem Conforms.atRest_next (h : Conforms p m) (hf : m.fetch = .ok f)
    (hmake : ∀ target prototype, f.instruction ≠ .makeFunction target prototype)
    (hbind : f.instruction.isBind = true → m.pending = none) :
    m.AtRest { f.frame with ip := f.frame.ip + 1 } := by
  obtain ⟨code, -, hcode, -, hi⟩ := fetch_ok hf
  refine ⟨code, hcode, fun hb => ?_⟩
  rcases (CodeObject.bindingAt_succ hi).mp hb with ⟨target, prototype, heq⟩ | ⟨⟨_, _, heq⟩, hb⟩
  · exact hmake target prototype heq
  · have hpending := hbind (by simp [heq, Instruction.isBind])
    exact h.not_bindingAt hf hcode hpending hb

-- ---------------------------------------------------------------------------
-- Faults
-- ---------------------------------------------------------------------------

/-- A fault of a checked program is excused. -/
theorem Faults.excused (hx : Faults f.frame.closure f.window (m.advance f) f.instruction e m')
    (hr : Reachable config m) (h : Conforms p m) (hp : p.WellFormed) (hf : m.fetch = .ok f) :
    m.Excused f e := by
  obtain ⟨code, hcode, hw, hadmits⟩ := h.admits hp hf
  have hregs : ∀ reg ∈ f.instruction.registers,
      ∃ slot, (m.advance f).resolve f.window reg = .ok slot := by
    intro reg hreg
    refine resolve_of_lt ?_ (hr.fitted.window hf)
    rw [hw]
    exact hadmits.registers reg hreg
  have hclosure : f.frame.closure < m.heap.closures.size := by
    obtain ⟨c, hc, -⟩ := codeOf_ok.mp hcode
    exact (Array.getElem?_eq_some_iff.mp hc).1
  generalize hi : f.instruction = i at hx hregs hadmits
  -- The check rules out the first four, and `bindMissing` cannot happen at all.
  cases hx with
  | register hreg hslot =>
    obtain ⟨slot, hok⟩ := hregs _ hreg
    simp [hok] at hslot
  | @unknownPrototype target index hnone =>
    have hlt : index.toNat < m.prototypes.size := by
      rw [h.prototypes]
      exact hadmits.prototypes target index rfl
    simp [hlt] at hnone
  | closureRegister hproto hslot =>
    obtain ⟨slot, hok⟩ := hregs _ (List.mem_singleton.mpr rfl)
    simp [hok] at hslot
  | @orphanBind index offset hnone =>
    have hpending : m.pending = none := by simpa [advance, hi, Instruction.isBind] using hnone
    exact absurd (hadmits.binds index offset rfl) (h.not_bindingAt hf hcode hpending)
  | bindMissing hpending hslot hmissing =>
    exact absurd ((hr.linked.advance f).pending hpending).exists_item (Nat.not_lt.mpr hmissing)
  | add hx hy herr =>
    obtain ⟨found, hfound, rfl⟩ := value_add_error herr
    exact .add hi hfound
  | closing hvalue hclose =>
    obtain ⟨⟨r, rfl⟩, hsize⟩ := hr.closing_error f hvalue hclose
    exact .doubleClose hi hsize
  | getUpvalue herr =>
    obtain ⟨count, rfl⟩ := hr.linked.upvalue_error hr.fitted hclosure herr
    exact .getUpvalue hi
  | setUpvalue herr =>
    obtain ⟨count, rfl⟩ := hr.linked.upvalue_error hr.fitted hclosure herr
    exact .setUpvalue hi
  | notFunction hvalue hkind => exact .notFunction hi hkind
  | callWindow hcallee hbase hwindow =>
    obtain ⟨-, rfl⟩ := Window.slot_ok.mp hbase
    rcases windowFor_error hwindow with ⟨hdepth, rfl⟩ | herr | ⟨callee, hcode', hroom, rfl⟩
    · exact .frameOverflow hi (advance_depth hf ▸ hdepth)
    · have hheld := hr.linked.register hcallee
      obtain ⟨code', hok⟩ := (hr.linked.advance f).codeOf hheld.exists_item
      simp [hok] at herr
    · have hbase : f.window.base = f.frame.base := by rw [hw]
      rw [hbase] at hroom ⊢
      exact .stackOverflow hi hcallee hcode' hroom

/-- Only instructions that neither make nor bind a closure fault in a checked program. -/
theorem Excused.not_binding (h : m.Excused f e) :
    (∀ target prototype, f.instruction ≠ .makeFunction target prototype) ∧
      f.instruction.isBind = false := by
  cases h with
  | _ hi => simp [hi, Instruction.isBind]

-- ---------------------------------------------------------------------------
-- Steps
-- ---------------------------------------------------------------------------

theorem Executes.program_eq (h : Executes closure w m i report m') :
    m'.heap.codes = m.heap.codes ∧ m'.prototypes = m.prototypes := by
  cases h with
  | bind hpending hslot hbound => simp [withBinding, Heap.bindSlot]
  | ret hvalue hbase hclose =>
    obtain ⟨cells, rfl⟩ := closeFrom_ok hclose
    exact ⟨leave_codes .., leave_prototypes ..⟩
  | _ => exact ⟨rfl, rfl⟩

/-- The running frame has moved on, and the frames below are as they were. -/
theorem Conforms.moved (h : Conforms p m) (f : Fetched) (hc : Changes m m')
    (hprogram : m'.heap.codes = m.heap.codes ∧ m'.prototypes = m.prototypes)
    (hframes : m'.frames = (m.advance f).frames)
    (hrest : m'.pending = none → m.AtRest { f.frame with ip := f.frame.ip + 1 }) :
    Conforms p m' := by
  refine ⟨hprogram.1.trans h.codes, hprogram.2 ▸ h.prototypes, fun frame hmem => ?_,
    fun frame hback hpending => ?_⟩
  · have hmem : frame ∈ m.frames.pop := by simpa [hframes, advance] using hmem
    exact (h.callers frame hmem).changes hc
  · obtain rfl : { f.frame with ip := f.frame.ip + 1 } = frame := by
      simpa [hframes, advance] using hback
    exact (hrest hpending).changes hc

/-- The frame that goes on after a return was suspended, so no `bind` may stand there. -/
theorem Conforms.returned (h : Conforms p m) (hc : Changes m m')
    (hprogram : m'.heap.codes = m.heap.codes ∧ m'.prototypes = m.prototypes)
    (hframes : m'.frames = m.frames.pop) : Conforms p m' := by
  refine ⟨hprogram.1.trans h.codes, hprogram.2 ▸ h.prototypes, fun frame hmem => ?_,
    fun frame hback _ => ?_⟩
  · rw [hframes] at hmem
    exact (h.callers frame (mem_of_mem_pop hmem)).changes hc
  · rw [hframes] at hback
    exact (h.callers frame (Array.mem_of_back? hback)).changes hc

theorem Conforms.executes (h : Conforms p m) (hf : m.fetch = .ok f)
    (hx : Executes f.frame.closure f.window (m.advance f) f.instruction report m') :
    Conforms p m' := by
  have hc : Changes m m' := (Relation.ReflTransGen.single (.control _ _)).trans hx.changes
  have hprogram := hx.program_eq
  generalize hi : f.instruction = i at hx
  cases hx with
  -- A `makeFunction` leaves a closure pending, and the `bind`s after it keep it.
  | makeFunction hcode hslot => exact h.moved f hc hprogram rfl (by simp)
  | bind hpending hslot hbound =>
    refine h.moved f hc hprogram (by simp [withBinding]) fun hnone => ?_
    simp [withBinding, hpending] at hnone
  | @ret _ _ _ m₁ hvalue hbase hclose =>
    obtain ⟨cells, hm₁⟩ := closeFrom_ok hclose
    refine h.returned hc hprogram ?_
    simp [leave_frames, hm₁, advance]
  | @call _ _ _ callee base code hcallee hbase hdepth hcode hfit =>
    have hnext := h.atRest_next hf (by simp [hi]) (by simp [hi, Instruction.isBind])
    refine ⟨hprogram.1.trans h.codes, h.prototypes, fun frame hmem => ?_, fun frame hback _ => ?_⟩
    · have hmem : frame ∈ (m.advance f).frames := by simpa [entered] using hmem
      rcases Array.mem_push.mp hmem with hmem | rfl
      · exact (h.callers frame hmem).changes hc
      · exact hnext.changes hc
    · obtain rfl : ⟨callee, 0, base⟩ = frame := by simpa [entered] using hback
      exact ⟨code, hcode, code.not_bindingAt_zero⟩
  | _ =>
    refine h.moved f hc hprogram rfl fun _ => h.atRest_next hf ?_ ?_
    · simp [hi]
    · simp [hi, Instruction.isBind]

theorem Conforms.request_step (h : Conforms p m) (hr : Reachable config m) (hp : p.WellFormed) :
    Conforms p (m.request .step) := by
  rcases request_step_cases m with hs | ⟨f, hf, ⟨report, hx⟩ | ⟨e, hx⟩⟩
  · rw [hs]
    exact h
  · exact h.executes hf hx
  · obtain ⟨hmake, hbind⟩ := (hx.excused hr h hp hf).not_binding
    have hc : Changes m (m.request .step) :=
      (Relation.ReflTransGen.single (.control _ _)).trans hx.changes
    exact h.moved f hc hx.program_eq hx.frames_eq fun _ =>
      h.atRest_next hf hmake (by simp [hbind])

theorem Conforms.stepped (h : Conforms p m) (hr : Reachable config m) (hp : p.WellFormed)
    (n : Nat) : Conforms p (m.stepped n) := by
  induction n with
  | zero => exact h
  | succ n ih => exact ih.request_step (hr.stepped n) hp

/-- Loading a checked program, whether or not there is room for its entry frame. -/
theorem conforms_load (config : Config) (hp : p.WellFormed) :
    Conforms p ((ofConfig config).request (.load p)) := by
  have hcodes : (((ofConfig config).closedFrom 0).staged p).heap.codes = p.codes :=
    Array.empty_append
  have hprototypes :
      (((ofConfig config).closedFrom 0).staged p).prototypes.size = p.codes.size := by
    simp [staged, withClosure, install]
  have hstaged : Conforms p (((ofConfig config).closedFrom 0).staged p) :=
    ⟨hcodes, hprototypes, by simp, by simp⟩
  rcases (tracked_ofConfig config).request_load_cases hp.entry with hl | ⟨code, hcode, hl⟩
  · rw [hl]
    exact hstaged
  · rw [hl]
    refine ⟨hcodes, hprototypes, by simp [entered], fun frame hback _ => ?_⟩
    obtain rfl : ⟨_, 0, 0⟩ = frame := by simpa [entered] using hback
    exact ⟨code, hcode, code.not_bindingAt_zero⟩

theorem conforms_stepped (config : Config) (hp : p.WellFormed) (n : Nat) :
    Conforms p (((ofConfig config).request (.load p)).stepped n) := by
  exact (conforms_load config hp).stepped (Reachable.new.request _) hp n

/-- However long a program that passes the check runs, on after faults and stops: a step of
it that fails found no frame or nothing left to run, or failed in one of the excused ways. -/
theorem checked_program_faults {p : Program} (h : p.check = .ok ()) (config : Config) (n : Nat) :
    let m := ((ofConfig config).request (.load p)).stepped n
    ∀ e m', step m = .error e m' →
      m.frames.back? = none ∧ e = .malformed .noActiveFrame ∨
      (∃ frame code, m.frames.back? = some frame ∧ m.codeOf frame.closure = .ok code ∧
        code.instructions[frame.ip]? = none ∧ e = .malformed (.ranPastEnd code.name)) ∨
      ∃ f, m.fetch = .ok f ∧ m.Excused f e := by
  intro m e m' hs
  have hp := Program.check_ok.mp h
  have hr : Reachable config m := (Reachable.new.request _).stepped n
  rcases step_error hs with ⟨hf, -⟩ | ⟨f, hf, hx⟩
  · rcases fetch_error hf with hnone | ⟨frame, hback, hcode | ⟨code, hend⟩⟩
    · exact .inl hnone
    · obtain ⟨code, hok, -⟩ := hr.fitted.windows frame (Array.mem_of_back? hback)
      simp [hok] at hcode
    · exact .inr (.inl ⟨frame, code, hback, hend⟩)
  · exact .inr (.inr ⟨f, hf, hx.excused hr (conforms_stepped config hp n) hp hf⟩)

/-- A program that calls itself without end. -/
def recursing : Program :=
  ⟨#[⟨"main", 1, #[.makeFunction 0 0, .bind 0 0, .call 0 0 0, .halt]⟩], 0⟩

/-- The third call finds no room for a third frame. -/
def exhausted : Machine := ((ofConfig ⟨4, 2, true⟩).request (.load recursing)).stepped 5

theorem checked_program_faults_recursing :
    recursing.check = .ok () ∧
      step exhausted = .error (.frameOverflow 2) (exhausted.request .step) ∧
      ∃ f, exhausted.fetch = .ok f ∧ exhausted.Excused f (.frameOverflow 2) := by
  have hcheck : recursing.check = .ok () := rfl
  have hs : step exhausted = .error (.frameOverflow 2) (exhausted.request .step) := by
    decide +kernel
  refine ⟨hcheck, hs, ?_⟩
  rcases checked_program_faults hcheck ⟨4, 2, true⟩ 5 _ _ hs with ⟨-, he⟩ | ⟨_, _, -, -, -, he⟩ | hx
  · simp at he
  · simp at he
  · exact hx

/-- Where there are more cells than handles, a cell is closed twice. -/
theorem checked_program_closes_twice :
    exhausting.check = .ok () ∧
      ∃ n m', step (exhaustion.stepped n) = .error (.doubleClose 0) m' := by
  obtain ⟨n, h⟩ := exists_severed
  exact ⟨check_exhausting, n, _, h.step_eq.1⟩

end Machine

end ClosureMachine

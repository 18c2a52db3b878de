import ClosureMachine.Number.Text

/-!
# Register values

The set of kinds is closed: an instruction that cannot use a kind reports it by name.

A function is held by its handle. A handle is 32 bits wide: it is the position in the heap
that its item got, narrowed to them, so far enough into a session it wraps around.
-/

namespace ClosureMachine

/-- As many handles as 32 bits can tell apart. -/
def handleSpace : Nat := 4294967296

/-- The handle that an item at `position` is known by. -/
def handleAt (position : Nat) : Nat := position % handleSpace

theorem handleAt_lt (position : Nat) : handleAt position < handleSpace :=
  Nat.mod_lt _ (by decide)

theorem handleAt_le (position : Nat) : handleAt position ≤ position := Nat.mod_le ..

theorem handleAt_of_lt {position : Nat} (h : position < handleSpace) :
    handleAt position = position := Nat.mod_eq_of_lt h

/-- Positions `k` apart have handles `k` apart, unless the second has wrapped around. -/
theorem handleAt_add {n k : Nat} (h : k = 0 ∨ n + k < handleSpace) :
    handleAt (n + k) = handleAt n + k := by
  rcases h with rfl | h
  · rfl
  · rw [handleAt_of_lt h, handleAt_of_lt (Nat.lt_of_le_of_lt (Nat.le_add_right n k) h)]

/-- Handle of a code object. -/
abbrev CodeRef := Nat

/-- Handle of a closure. -/
abbrev ClosureRef := Nat

/-- Handle of a capture cell. -/
abbrev CellRef := Nat

inductive Value where
  | number (n : Number)
  | function (closure : ClosureRef)
  | uninitialized
  deriving DecidableEq, Repr

inductive ValueKind where
  | number
  | function
  | uninitialized
  deriving DecidableEq, Repr

def ValueKind.name : ValueKind → String
  | .number => "Number"
  | .function => "Function"
  | .uninitialized => "Uninitialized"

namespace Value

/-- A register that nothing has written. -/
instance : Inhabited Value := ⟨.uninitialized⟩

def kind : Value → ValueKind
  | .number _ => .number
  | .function _ => .function
  | .uninitialized => .uninitialized

def number? : Value → Option Number
  | .number n => some n
  | _ => none

def function? : Value → Option ClosureRef
  | .function closure => some closure
  | _ => none

/-- Numbers are compared by value, so a NaN differs from itself. -/
def sameValue : Value → Value → Bool
  | .number x, .number y => x.sameValue y
  | .function f, .function g => f == g
  | .uninitialized, .uninitialized => true
  | _, _ => false

def text : Value → String
  | .number n => toString n
  | .function closure => s!"<function #{closure}>"
  | .uninitialized => "<uninitialized>"

/-- The text that also names the kind. -/
def describe : Value → String
  | .number n => s!"Number({n})"
  | .function closure => s!"Function(#{closure})"
  | .uninitialized => "Uninitialized"

instance : ToString Value := ⟨text⟩

end Value

end ClosureMachine

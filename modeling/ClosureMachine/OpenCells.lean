import ClosureMachine.Value

/-!
# Open cells

The machine tracks each open cell under the stack slot that it observes, at most one for
a slot. Cells are captured and closed near the top of the stack, so the entries are kept
with the topmost slot first. They are read through `entries`, which lists them in ascending
order: `find?` looks up an entry there, and a slot splits it into `below` and `entriesFrom`.
-/

namespace ClosureMachine

abbrev OpenEntry := Nat × CellRef

structure OpenCells where
  topFirst : List OpenEntry
  descending : topFirst.Pairwise (fun a b => b.1 < a.1)
  deriving DecidableEq, Repr

namespace OpenCells

def empty : OpenCells := ⟨[], .nil⟩

instance : Inhabited OpenCells := ⟨empty⟩

/-- All entries in ascending order of slots. -/
def entries (o : OpenCells) : List OpenEntry := o.topFirst.reverse

def size (o : OpenCells) : Nat := o.topFirst.length

theorem length_entries (o : OpenCells) : o.entries.length = o.size := by
  simp [entries, size]

theorem ascending_entries (o : OpenCells) : o.entries.Pairwise (fun a b => a.1 < b.1) :=
  List.pairwise_reverse.mpr o.descending

/-- The cell of `slot` among entries whose topmost slot is first. -/
def cellOf? (slot : Nat) : List OpenEntry → Option CellRef
  | [] => none
  | e :: rest =>
    if slot < e.1 then cellOf? slot rest
    else if slot = e.1 then some e.2
    else none

/-- The cell that observes `slot`. -/
def find? (o : OpenCells) (slot : Nat) : Option CellRef := cellOf? slot o.topFirst

theorem cellOf?_eq_some_iff {slot : Nat} {cell : CellRef} {entries : List OpenEntry}
    (h : entries.Pairwise (fun a b => b.1 < a.1)) :
    cellOf? slot entries = some cell ↔ (slot, cell) ∈ entries := by
  induction entries with
  | nil => simp [cellOf?]
  | cons a rest ih =>
    obtain ⟨ha, hr⟩ := List.pairwise_cons.mp h
    have hrest : (slot, cell) ∈ rest → slot < a.1 := fun hm => ha _ hm
    have hhead : (slot, cell) = a ↔ slot = a.1 ∧ a.2 = cell := by
      obtain ⟨s, c⟩ := a
      simp [eq_comm]
    rw [cellOf?, List.mem_cons, hhead]
    by_cases hlt : slot < a.1
    · simp [hlt, ih hr, Nat.ne_of_lt hlt]
    · have hn : (slot, cell) ∉ rest := fun hm => hlt (hrest hm)
      simp only [hlt, hn, if_false, or_false]
      by_cases heq : slot = a.1 <;> simp [heq]

theorem find?_eq_some_iff (o : OpenCells) (slot : Nat) (cell : CellRef) :
    o.find? slot = some cell ↔ (slot, cell) ∈ o.entries := by
  rw [find?, cellOf?_eq_some_iff o.descending, entries, List.mem_reverse]

def insertEntry (slot : Nat) (cell : CellRef) : List OpenEntry → List OpenEntry
  | [] => [(slot, cell)]
  | e :: rest =>
    if slot < e.1 then e :: insertEntry slot cell rest
    else if slot = e.1 then e :: rest
    else (slot, cell) :: e :: rest

theorem mem_insertEntry {slot : Nat} {cell : CellRef} {entries : List OpenEntry}
    {e : OpenEntry} (h : e ∈ insertEntry slot cell entries) :
    e = (slot, cell) ∨ e ∈ entries := by
  induction entries with
  | nil => simpa [insertEntry] using h
  | cons a rest ih => grind [insertEntry]

theorem descending_insertEntry (slot : Nat) (cell : CellRef) {entries : List OpenEntry}
    (h : entries.Pairwise (fun a b => b.1 < a.1)) :
    (insertEntry slot cell entries).Pairwise (fun a b => b.1 < a.1) := by
  induction entries with
  | nil => simp [insertEntry]
  | cons a rest ih =>
    obtain ⟨ha, hr⟩ := List.pairwise_cons.mp h
    unfold insertEntry
    split
    · next hlt =>
      refine List.pairwise_cons.mpr ⟨fun e he => ?_, ih hr⟩
      rcases mem_insertEntry he with rfl | he
      · exact hlt
      · exact ha e he
    · split
      · exact h
      · next hlt hne =>
        have hgt : a.1 < slot := by omega
        refine List.pairwise_cons.mpr ⟨fun e he => ?_, h⟩
        rcases List.mem_cons.mp he with rfl | he
        · exact hgt
        · exact Nat.lt_trans (ha e he) hgt

/-- Tracks `cell` under `slot`, unless a cell is tracked there already. -/
def insert? (o : OpenCells) (slot : Nat) (cell : CellRef) : Option OpenCells :=
  match o.find? slot with
  | some _ => none
  | none =>
    some ⟨insertEntry slot cell o.topFirst, descending_insertEntry slot cell o.descending⟩

/-- Like `insert?`, and unchanged where that gives nothing. -/
def insert (o : OpenCells) (slot : Nat) (cell : CellRef) : OpenCells :=
  (o.insert? slot cell).getD o

/-- The entries of the slots from `start` on, ascending. -/
def entriesFrom (o : OpenCells) (start : Nat) : List OpenEntry :=
  (o.topFirst.takeWhile (start ≤ ·.1)).reverse

/-- What is left without the slots from `start` on. -/
def below (o : OpenCells) (start : Nat) : OpenCells :=
  ⟨o.topFirst.dropWhile (start ≤ ·.1), o.descending.sublist (List.dropWhile_sublist _)⟩

/-- In descending order, no slot from `start` on follows one below it. -/
theorem takeWhile_dropWhile_eq_filter (start : Nat) {entries : List OpenEntry}
    (h : entries.Pairwise (fun a b => b.1 < a.1)) :
    entries.takeWhile (start ≤ ·.1) = entries.filter (start ≤ ·.1) ∧
      entries.dropWhile (start ≤ ·.1) = entries.filter (·.1 < start) := by
  induction entries with
  | nil => simp
  | cons a rest ih =>
    obtain ⟨ha, hr⟩ := List.pairwise_cons.mp h
    by_cases hs : start ≤ a.1
    · simp [hs, Nat.not_lt.mpr hs, ih hr]
    · have hlt : a.1 < start := by omega
      have hrest : ∀ e ∈ rest, e.1 < start := fun e he => Nat.lt_trans (ha e he) hlt
      have hfrom : rest.filter (start ≤ ·.1) = [] :=
        List.filter_eq_nil_iff.mpr fun e he => by simpa using hrest e he
      have hbelow : rest.filter (·.1 < start) = rest :=
        List.filter_eq_self.mpr fun e he => by simpa using hrest e he
      simp [hs, hlt, hfrom, hbelow]

theorem entriesFrom_eq_filter (o : OpenCells) (start : Nat) :
    o.entriesFrom start = o.entries.filter (start ≤ ·.1) := by
  rw [entriesFrom, (takeWhile_dropWhile_eq_filter start o.descending).1, entries,
    List.filter_reverse]

theorem entries_below (o : OpenCells) (start : Nat) :
    (o.below start).entries = o.entries.filter (·.1 < start) := by
  show (o.topFirst.dropWhile (start ≤ ·.1)).reverse = _
  rw [(takeWhile_dropWhile_eq_filter start o.descending).2, entries, List.filter_reverse]

end OpenCells

end ClosureMachine

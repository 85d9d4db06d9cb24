import Sentential.Argument.Basic

/-!
# The truth table of an argument

A row assigns truth values to the atoms of an argument and shows the values of its premises
and its conclusion.  `Rows` goes through the rows of an argument one by one and computes a row
when it is asked for, so that it serves for tables of any size.  The table of an argument holds
all rows that are met in this way, one for every assignment of truth values to the atoms.  An
argument is valid when no row is a counterexample, that is, makes all premises true and the
conclusion false.
-/

namespace Sentential

/-! ### Rows -/

/-- A row of a truth table. -/
structure Row where
  /-- The number of the row. -/
  index : Nat
  /-- The atoms in increasing order, each with its value. -/
  assignment : List (String × Bool)
  /-- The values of the premises, in order. -/
  premises : List Bool
  /-- The value of the conclusion. -/
  conclusion : Bool
  deriving DecidableEq, Repr

namespace Row

/-- The value of an atom in a row. -/
def value? (r : Row) (name : String) : Option Bool := r.assignment.lookup name

/-- The value of a premise in a row. -/
def premise? (r : Row) (i : Nat) : Option Bool := r.premises[i]?

/-- Whether a row makes every premise true. -/
def allPremisesTrue (r : Row) : Bool := r.premises.all id

/-- Whether a row makes every premise true and the conclusion false. -/
def isCounterexample (r : Row) : Bool := r.allPremisesTrue && !r.conclusion

end Row

namespace Argument

/-- The number of rows of the table: one for every assignment of values to the atoms. -/
def rowCount (a : Argument) : Nat := Nat.pow 2 a.atoms.length

/-- The values of the atoms in the row with a given number. -/
def assignment (a : Argument) (index : Nat) : List (String × Bool) :=
  a.atoms.mapIdx fun j name => (name, columnValue index a.atoms.length j)

/-- The row with a given number. -/
def row (a : Argument) (index : Nat) : Row where
  index := index
  assignment := a.assignment index
  premises := a.premiseCircuits.map (·.evalRow index)
  conclusion := a.conclusionCircuit.evalRow index

end Argument

/-! ### Going through the rows -/

/-- A place in the rows of an argument. -/
structure Rows where
  /-- The argument. -/
  argument : Argument
  /-- The number of the next row, or the number of rows if all have been passed. -/
  next : Nat
  deriving DecidableEq, Repr

/-- The place before the first row of an argument. -/
def Argument.rows (a : Argument) : Rows := ⟨a, 0⟩

namespace Rows

/-- The next row and the place after it, unless all rows have been passed. -/
def next? (it : Rows) : Option (Row × Rows) :=
  if it.next < it.argument.rowCount then
    some (it.argument.row it.next, { it with next := it.next + 1 })
  else none

/-- Pass `k` rows and then one more, which is the result, stopping early if no row is left. -/
def nth : Nat → Rows → Option Row × Rows
  | k, it =>
    match it.next?, k with
    | none, _ => (none, it)
    | some (r, it'), 0 => (some r, it')
    | some (_, it'), k + 1 => it'.nth k

/-- The number of rows that have not been passed. -/
def remaining (it : Rows) : Nat := it.argument.rowCount - it.next

/-- Bounds for the number of rows that have not been passed: both are that number. -/
def sizeHint (it : Rows) : Nat × Option Nat := (it.remaining, some it.remaining)

/-- The place after the last row. -/
def finish (it : Rows) : Rows := { it with next := it.next + it.remaining }

/-- The rows from one place up to a later one. -/
def upTo (it later : Rows) : List Row :=
  (List.range' it.next (later.next - it.next)).map it.argument.row

theorem next?_eq_none_iff {it : Rows} :
  it.next? = none ↔ it.remaining = 0
  := by
  simp only [next?, remaining, Nat.sub_eq_zero_iff_le, ite_eq_right_iff, reduceCtorEq, imp_false,
    Nat.not_lt]

theorem next?_eq_some_iff {it it' : Rows} {r : Row} :
  it.next? = some (r, it')
    ↔ 0 < it.remaining ∧ it.argument.row it.next = r ∧ { it with next := it.next + 1 } = it'
  := by
  simp only [next?, remaining, Nat.sub_pos_iff_lt, Option.ite_none_right_eq_some,
    Option.some.injEq, Prod.mk.injEq]

/-- One row less is left behind each row. -/
theorem remaining_of_next? {it it' : Rows} {r : Row} (h : it.next? = some (r, it')) :
  it.remaining = it'.remaining + 1
  := by
  obtain ⟨hpos, -, rfl⟩ := next?_eq_some_iff.1 h
  simp only [remaining] at hpos ⊢
  omega

/-- Pass all rows that are left and put them behind the rows met before. -/
def collectFrom (it : Rows) (rows : Array Row) : Array Row :=
  match _h : it.next? with
  | none => rows
  | some (r, it') => it'.collectFrom (rows.push r)
termination_by it.remaining
decreasing_by
  have := remaining_of_next? _h
  omega

/-- All rows that are left, in order. -/
def collect (it : Rows) : List Row := (it.collectFrom #[]).toList

/-- The rows collected are those with the numbers from the next one on. -/
theorem toList_collectFrom (it : Rows) (rows : Array Row) :
  (it.collectFrom rows).toList
    = rows.toList ++ (List.range' it.next it.remaining).map it.argument.row
  := by
  fun_induction collectFrom it rows with
  | case1 it rows h =>
    rw [next?_eq_none_iff.1 h, List.range'_zero, List.map_nil, List.append_nil]
  | case2 it rows r it' h ih =>
    obtain ⟨-, hr, hit⟩ := next?_eq_some_iff.1 h
    rw [ih, remaining_of_next? h, List.range'_succ, List.map_cons, hr, ← hit]
    simp

end Rows

/-! ### The table -/

namespace Argument

/-- The rows in order, as they are met on the way through all of them. -/
def table (a : Argument) : List Row := a.rows.collect

/-- Whether no row is a counterexample. -/
def isValid (a : Argument) : Bool := !a.table.any Row.isCounterexample

/-- The first row that is a counterexample, if there is one. -/
def counterexample? (a : Argument) : Option Row := a.table.find? Row.isCounterexample

/-- The table has a row for every number below the number of rows. -/
theorem table_eq_map_row (a : Argument) :
  a.table = (List.range a.rowCount).map a.row
  := by
  rw [table, Rows.collect, Rows.toList_collectFrom, List.nil_append, List.range_eq_range']
  rfl

end Argument

end Sentential

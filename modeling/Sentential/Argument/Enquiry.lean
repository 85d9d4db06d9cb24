import Sentential.Log.Reading

/-!
# Enquiries

An enquiry puts questions to one argument.  Its table is built at the first question that
needs it and kept, and so is the verdict on its validity; rows that are asked for one by one
are computed anew each time.  Every answer comes with the enquiry as it is afterwards, whose
log holds the events so far.
-/

namespace Sentential

/-- An argument with what has been found out about it so far. -/
structure Enquiry where
  /-- The argument. -/
  argument : Argument
  /-- The table, once it has been built. -/
  table? : Option (List Row)
  /-- Whether the argument is valid, once that has been decided. -/
  verdict? : Option Bool
  /-- The events so far. -/
  log : List Event
  deriving DecidableEq, Repr

namespace Enquiry

/-- The enquiry into an argument before the first question. -/
def start (a : Argument) : Enquiry := ⟨a, none, none, []⟩

/-- The table of the argument, built if it has not been. -/
def table (e : Enquiry) : List Row × Enquiry :=
  match e.table? with
  | some rows => (rows, e)
  | none =>
    let rows := e.argument.table
    let building := .generating e.argument.rowCount e.argument.atoms :: rows.map .row
    (rows, { e with table? := some rows, log := e.log ++ building })

/-- Whether the argument is valid, decided by its table if it has not been. -/
def isValid (e : Enquiry) : Bool × Enquiry :=
  match e.verdict? with
  | some valid => (valid, e)
  | none =>
    let (rows, e) := e.table
    let valid := !rows.any Row.isCounterexample
    (valid, { e with
      verdict? := some valid
      log := e.log ++ [.verdict e.argument.render valid] })

/-- The first counterexample in the table of the argument. -/
def counterexample? (e : Enquiry) : Option Row × Enquiry :=
  let (rows, e) := e.table
  (rows.find? Row.isCounterexample, e)

/-- The enquiry after the rows from one place up to a later one have been computed. -/
def passRows (e : Enquiry) (it later : Rows) : Enquiry :=
  { e with log := e.log ++ (it.upTo later).map .row }

/-- The row behind the next `k` rows, if there is one, and the place after it. -/
def nth (k : Nat) (it : Rows) (e : Enquiry) : (Option Row × Rows) × Enquiry :=
  let (row?, later) := it.nth k
  ((row?, later), e.passRows it later)

/-- The next row, if there is one, and the place after it. -/
def next (it : Rows) (e : Enquiry) : (Option Row × Rows) × Enquiry := e.nth 0 it

/-- All rows that are left, and the place after them. -/
def rest (it : Rows) (e : Enquiry) : (List Row × Rows) × Enquiry :=
  ((it.collect, it.finish), e.passRows it it.finish)

end Enquiry

end Sentential

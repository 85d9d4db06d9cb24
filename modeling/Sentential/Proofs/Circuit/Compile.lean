import Sentential.Proofs.Circuit.Value
import Mathlib.Data.List.Nodup
import Mathlib.Tactic.Use

/-!
# Circuits and the sentences they are compiled from

A sentence is compiled over the names of some columns exactly when it has a value in every row,
and both fail at the same atom.  The circuit then computes the value of the sentence, from the
bits of the row that stand for columns and from no others.
-/

namespace Sentential

variable {names : List String} {row row' : Nat} {env : Valuation}

/-- A valuation that gives to the names of columns the bits of a row, the most significant of
them to the first column, and no value to other names. -/
structure Valuation.OfRow (names : List String) (row : Nat) (env : Valuation) : Prop where
  column : ∀ (j : Nat) (h : j < names.length),
    env names[j] = some (row.testBit (names.length - 1 - j))
  other : ∀ a, a ∉ names → env a = none

/-- Only one valuation is that of a row. -/
theorem Valuation.OfRow.eq_rowValuation (h : env.OfRow names row) :
  env = rowValuation names row
  := by
  funext a
  rw [rowValuation]
  cases hj : names.idxOf? a with
  | none =>
      apply h.other
      apply List.idxOf?_eq_none_iff.mp hj
  | some j =>
      obtain ⟨hlt, rfl, -⟩ := List.idxOf?_eq_some_iff.mp hj
      apply h.column j hlt

/-- Every row of columns with distinct names has one. -/
theorem Valuation.ofRow_rowValuation (hnames : names.Nodup) (row : Nat) :
  (rowValuation names row).OfRow names row
  where
  column j h := by
    have hj : names.idxOf? names[j] = some j := by
      rw [List.idxOf?_eq_some_iff]
      use h, rfl
      intro i hi heq
      have hij := (List.Nodup.getElem_inj_iff hnames).mp heq
      omega
    rw [rowValuation, hj]
    rfl
  other a ha := by
    rw [rowValuation, List.idxOf?_eq_none_iff.mpr ha]
    rfl

/-- Rows with the same bits for the columns describe the same valuation. -/
theorem rowValuation_congr (h : ∀ i < names.length, row.testBit i = row'.testBit i) :
  rowValuation names row = rowValuation names row'
  := by
  funext a
  simp only [rowValuation]
  cases hj : names.idxOf? a with
  | none => rfl
  | some j =>
      have hlt := (List.idxOf?_eq_some_iff.mp hj).1
      have hbit := h (names.length - 1 - j) (by omega)
      simp only [Option.map_some, columnValue, hbit]

namespace Circuit

/-- The circuit of a sentence reads the bits of its columns only. -/
theorem evalRow_congr {s : Sentence} {c : Circuit} (hc : compile s names = .ok c)
    (h : ∀ i < names.length, row.testBit i = row'.testBit i) :
  c.evalRow row = c.evalRow row'
  := by
  have hvalue := evaluate_of_compile hc row
  rw [rowValuation_congr h, evaluate_of_compile hc row'] at hvalue
  apply (Except.ok.inj hvalue).symm

/-- A sentence is compiled over the names of some columns unless it has an atom without a column,
at which its evaluation in a row fails too.  Otherwise the circuit gives it the value that it has
in the row, whatever the bits of the row that stand for no column.  If the names are in increasing
order, it makes no difference that columns are found by halving. -/
theorem compile_agrees_evaluate (s : Sentence) (henv : env.OfRow names row) :
  (∀ a, compile s names = .error (.missingAtom a) ↔ s.evaluate env = .error (.missingAtom a))
    ∧ (∀ c, compile s names = .ok c → s.evaluate env = .ok (c.evalRow row)
      ∧ ∀ row', (∀ i < names.length, row'.testBit i = row.testBit i) →
        c.evalRow row' = c.evalRow row)
    ∧ (names.Pairwise (· < ·) → compileSorted s names = compile s names)
  := by
  rw [henv.eq_rowValuation, evaluate_eq_map_compile]
  refine ⟨?_, ?_, ?_⟩
  · intro a
    cases compile s names <;> simp [Except.map]
  · intro c hc
    constructor
    · rw [hc]
      rfl
    · intro row'
      apply evalRow_congr hc
  · intro hnames
    apply compileSorted_eq_compile hnames

/-- The circuit of `(Q->P)` over columns for `P` and `Q`. -/
def converse : Circuit where
  columns := 2
  gates := [.binary .implication (.column 1) (.column 0)]
  output := .gate 0

/-- Of the two columns, row 5 has the same bits as row 1. -/
theorem converse_agrees_evaluate :
  (rowValuation ["P", "Q"] 5).OfRow ["P", "Q"] 5
    ∧ compile (.binary .implication (.atom "Q") (.atom "P")) ["P", "Q"] = .ok converse
    ∧ (Sentence.binary .implication (.atom "Q") (.atom "P")).evaluate (rowValuation ["P", "Q"] 5)
      = .ok (converse.evalRow 5)
    ∧ converse.evalRow 1 = converse.evalRow 5
    ∧ compileSorted (.binary .implication (.atom "Q") (.atom "P")) ["P", "Q"] = .ok converse
  := by
  have henv : (rowValuation ["P", "Q"] 5).OfRow ["P", "Q"] 5 :=
    Valuation.ofRow_rowValuation (by decide) 5
  have hcompile :
      compile (.binary .implication (.atom "Q") (.atom "P")) ["P", "Q"] = .ok converse :=
    rfl
  obtain ⟨-, hcircuit, hsorted⟩ :=
    compile_agrees_evaluate (.binary .implication (.atom "Q") (.atom "P")) henv
  obtain ⟨hvalue, hbits⟩ := hcircuit _ hcompile
  exact ⟨henv, hcompile, hvalue, hbits 1 (by decide), (hsorted (by decide)).trans hcompile⟩

end Circuit

end Sentential

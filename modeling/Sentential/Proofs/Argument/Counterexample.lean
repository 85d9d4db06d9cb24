import Sentential.Proofs.Argument.Entailment
import Sentential.Proofs.Argument.Table
import Mathlib.Data.Bool.Basic
import Mathlib.Data.List.Lex

/-!
# Counterexamples

A valuation falsifies an argument when it makes the premises true and the conclusion false.  The
counterexample that the table of an argument yields is the first of its rows that falsifies it.
Since the rows stand in lexicographic order and every valuation agrees with one of them on the
atoms, it is also the least among all valuations that falsify the argument.
-/

namespace Sentential

/-- A valuation of some names that makes all premises true and the conclusion false. -/
def Valuation.Falsifies (ps : List Formula) (c : Formula) (env : Valuation) : Prop :=
  (∀ f ∈ ps, f.tree.evaluate env = .ok true) ∧ c.tree.evaluate env = .ok false

/-! ### Rows in order -/

/-- Of two rows, the one with the smaller number has the smaller bits. -/
theorem rowBits_le_rowBits_iff {n i k : Nat} (hi : i < 2 ^ n) (hk : k < 2 ^ n) :
  rowBits n i ≤ rowBits n k ↔ i ≤ k
  := by
  constructor
  · intro h
    apply Nat.le_of_not_lt
    intro hlt
    apply not_lt_of_ge h
    apply rowBits_lt_rowBits_of_lt hlt hi
  · intro h
    rcases Nat.lt_or_eq_of_le h with hlt | rfl
    · apply le_of_lt (rowBits_lt_rowBits_of_lt hlt hk)
    · apply le_refl

/-- The bits of a row are the values that it gives to the names of the columns. -/
theorem map_rowValuation {names : List String} (h : names.Nodup) (row : Nat) :
  names.map (rowValuation names row) = (rowBits names.length row).map some
  := by
  apply List.ext_getElem
  · simp [rowBits]
  · intro j hj _
    have hlt : j < names.length := by simpa using hj
    simp [rowBits, columnValue, (Valuation.ofRow_rowValuation h row).column j hlt]

/-- The bits of the row of a valuation are the values of the names of the columns. -/
theorem rowBits_rowNumber (names : List String) (v : String → Bool) :
  rowBits names.length (rowNumber names v) = names.map v
  := by
  apply List.ext_getElem
  · simp [rowBits]
  · intro j hj _
    have hlt : j < names.length := by simpa [rowBits] using hj
    simp [rowBits, columnValue_rowNumber v hlt]

namespace Argument

variable {lim : Limits} {ps : List Formula} {c : Formula} {a : Argument} {r : Row}

/-! ### The first counterexample -/

/-- No counterexample is found exactly in a valid argument. -/
theorem counterexample?_eq_none_iff (a : Argument) :
  a.counterexample? = none ↔ a.isValid = true
  := by
  simp [counterexample?, isValid]

/-- The counterexample found is the first among the rows. -/
theorem counterexample?_eq_some_iff (a : Argument) :
  a.counterexample? = some r ↔ ∃ i < 2 ^ a.atoms.length, r = a.row i
    ∧ (a.row i).isCounterexample = true ∧ ∀ k < i, (a.row k).isCounterexample = false
  := by
  rw [counterexample?_eq_map_find?, rowCount, Option.map_eq_some_iff]
  apply exists_congr
  intro i
  simp only [List.find?_range_eq_some, List.mem_range, Bool.not_eq_true']
  constructor
  · rintro ⟨⟨hyes, hi, hno⟩, rfl⟩
    simpa using ⟨hi, hyes, hno⟩
  · rintro ⟨hi, rfl, hyes, hno⟩
    simpa using ⟨hyes, hi, hno⟩

/-- A row is a counterexample exactly when its valuation falsifies the argument. -/
theorem Made.isCounterexample_iff_falsifies (h : Made lim ps c a) (i : Nat) :
  (a.row i).isCounterexample = true ↔ (rowValuation a.atoms i).Falsifies ps c
  := isCounterexample_row_iff h i

/-! ### All valuations -/

/-- A valuation that falsifies an argument has the values of a row that falsifies it. -/
theorem Made.exists_row_of_falsifies (h : Made lim ps c a) {env : Valuation}
    (henv : env.Falsifies ps c) :
  ∃ i < 2 ^ a.atoms.length, (rowValuation a.atoms i).Falsifies ps c
    ∧ a.atoms.map env = (rowBits a.atoms.length i).map some
  := by
  have hvalue : ∀ f ∈ ps ++ [c], ∃ b, f.tree.evaluate env = .ok b := by
    intro f hf
    rcases List.mem_append.mp hf with hf | hf
    · exact ⟨true, henv.1 f hf⟩
    · rw [List.mem_singleton.mp hf]
      exact ⟨false, henv.2⟩
  have hatom : ∀ name ∈ a.atoms, env name = some ((env name).getD false) := by
    intro name hname
    obtain ⟨f, hf, hleaf⟩ := h.mem_atoms_iff.mp hname
    have hsome := Sentence.exists_evaluate_eq_ok_iff.mp (hvalue f hf) name hleaf
    obtain ⟨b, hb⟩ := Option.isSome_iff_exists.mp hsome
    rw [hb, Option.getD_some]
  -- The valuation of all names that goes on with false has the same values and a row.
  let v : String → Bool := fun name => (env name).getD false
  have hsame : ∀ f ∈ ps ++ [c],
      f.tree.evaluate (rowValuation a.atoms (rowNumber a.atoms v)) = f.tree.evaluate env := by
    intro f hf
    rw [h.evaluate_rowNumber hf]
    symm
    apply Sentence.evaluate_eq_truth
    intro name hname
    apply hatom name (h.mem_atoms hf hname)
  use rowNumber a.atoms v, rowNumber_lt a.atoms v
  constructor
  · constructor
    · intro f hf
      rw [hsame f (List.mem_append_left _ hf), henv.1 f hf]
    · rw [hsame c (List.mem_append_right _ (List.mem_singleton.mpr rfl)), henv.2]
  · rw [rowBits_rowNumber, List.map_map]
    apply List.map_congr_left hatom

/-- A row that falsifies an argument is the first to do so exactly when its bits are the least
among the values that the valuations which falsify the argument give to the atoms. -/
theorem Made.forall_lt_iff_forall_le (h : Made lim ps c a) {i : Nat} (hi : i < 2 ^ a.atoms.length) :
  (∀ k < i, ¬ (rowValuation a.atoms k).Falsifies ps c)
    ↔ ∀ env : Valuation, env.Falsifies ps c →
      ∃ bs, a.atoms.map env = bs.map some ∧ rowBits a.atoms.length i ≤ bs
  := by
  constructor
  · intro hfirst env henv
    obtain ⟨k, hk, hfalsifies, hbits⟩ := h.exists_row_of_falsifies henv
    use rowBits a.atoms.length k, hbits
    rw [rowBits_le_rowBits_iff hi hk]
    apply Nat.le_of_not_lt
    intro hlt
    apply hfirst k hlt hfalsifies
  · intro hleast k hlt hfalsifies
    obtain ⟨bs, hbs, hle⟩ := hleast _ hfalsifies
    rw [map_rowValuation h.nodup_atoms] at hbs
    cases List.map_injective_iff.mpr (Option.some_injective _) hbs
    rw [rowBits_le_rowBits_iff hi (Nat.lt_trans hlt hi)] at hle
    apply Nat.not_lt_of_le hle hlt

/-- A valid argument has no counterexample.  Of any other, the row is found that falsifies it and
has the least number, which is the one with the lexicographically least values: every valuation
that falsifies the argument gives the atoms the same values or greater ones. -/
theorem counterexample?_least (h : ofFormulas lim ps c = .ok a) :
  (a.counterexample? = none ↔ a.isValid = true)
    ∧ (∀ r, a.counterexample? = some r ↔ ∃ i < 2 ^ a.atoms.length, r = a.row i
      ∧ (rowValuation a.atoms i).Falsifies ps c
      ∧ ∀ k < i, ¬ (rowValuation a.atoms k).Falsifies ps c)
    ∧ ∀ r, a.counterexample? = some r ↔ r ∈ a.table
      ∧ (Valuation.ofFirst r.assignment).Falsifies ps c
      ∧ ∀ env : Valuation, env.Falsifies ps c →
        ∃ bs, a.atoms.map env = bs.map some ∧ r.assignment.map (·.2) ≤ bs
  := by
  have hmade := made_of_ofFormulas h
  have hfirst : ∀ r, a.counterexample? = some r ↔ ∃ i < 2 ^ a.atoms.length, r = a.row i
      ∧ (rowValuation a.atoms i).Falsifies ps c
      ∧ ∀ k < i, ¬ (rowValuation a.atoms k).Falsifies ps c := by
    intro r
    simp only [counterexample?_eq_some_iff, ← Bool.not_eq_true, hmade.isCounterexample_iff_falsifies]
  refine ⟨counterexample?_eq_none_iff a, hfirst, ?_⟩
  intro r
  rw [hfirst, mem_table_iff]
  constructor
  · rintro ⟨i, hi, rfl, hfalsifies, hno⟩
    rw [hmade.forall_lt_iff_forall_le hi] at hno
    simpa only [row, ofFirst_assignment, map_snd_assignment] using ⟨⟨i, hi, rfl⟩, hfalsifies, hno⟩
  · rintro ⟨⟨i, hi, rfl⟩, hfalsifies, hleast⟩
    simp only [row, ofFirst_assignment, map_snd_assignment] at hfalsifies hleast
    rw [← hmade.forall_lt_iff_forall_le hi] at hleast
    exact ⟨i, hi, rfl, hfalsifies, hleast⟩

/-- A disjunction that is taken for a conjunction. -/
def strengthening : Argument where
  premises := [⟨"P | Q", .binary .disjunction (.atom "P") (.atom "Q"), .permissive⟩]
  conclusion := ⟨"(Q&P)", .binary .conjunction (.atom "Q") (.atom "P"), .strict⟩
  atoms := ["P", "Q"]
  premiseCircuits := [⟨2, [.binary .disjunction (.column 0) (.column 1)], .gate 0⟩]
  conclusionCircuit := ⟨2, [.binary .conjunction (.column 1) (.column 0)], .gate 0⟩

/-- Of the two rows that falsify the argument, the one in which `P` is false is found. -/
theorem strengthening_counterexample?_least :
  ofFormulas .standard strengthening.premises strengthening.conclusion = .ok strengthening
    ∧ strengthening.counterexample? = some ⟨1, [("P", false), ("Q", true)], [true], false⟩
    ∧ (Valuation.ofFirst [("P", false), ("Q", true)]).Falsifies strengthening.premises
      strengthening.conclusion
    ∧ (Valuation.ofFirst [("P", true), ("Q", false)]).Falsifies strengthening.premises
      strengthening.conclusion
    ∧ ∃ bs, strengthening.atoms.map (Valuation.ofFirst [("P", true), ("Q", false)]) = bs.map some
      ∧ [false, true] ≤ bs
  := by
  have hmade : ofFormulas .standard strengthening.premises strengthening.conclusion
      = .ok strengthening := by
    cbv
  have hfound :
      strengthening.counterexample? = some ⟨1, [("P", false), ("Q", true)], [true], false⟩ := by
    rw [counterexample?_eq_map_find?]
    decide
  have hother : (Valuation.ofFirst [("P", true), ("Q", false)]).Falsifies strengthening.premises
      strengthening.conclusion := by
    rw [Valuation.Falsifies]
    decide
  obtain ⟨-, hfalsifies, hle⟩ := ((counterexample?_least hmade).2.2 _).mp hfound
  use hmade, hfound, hfalsifies, hother
  apply hle _ hother

end Argument

end Sentential

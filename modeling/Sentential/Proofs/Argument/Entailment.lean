import Sentential.Proofs.Argument.Row

/-!
# Entailment

Sentences entail a sentence when every valuation of all names that makes them true makes it
true.  The table of an argument has rows for the atoms of the argument only; it decides
entailment nevertheless, since a valuation agrees on these atoms with some row.
-/

namespace Sentential

/-- Whether a sentence evaluates to true under a valuation of all names. -/
def Sentence.Holds (v : String → Bool) (s : Sentence) : Prop :=
  s.evaluate (fun a => some (v a)) = .ok true

/-- Every valuation of all names under which the sentences `ps` hold is one under which `c`
holds. -/
def Entails (ps : List Sentence) (c : Sentence) : Prop :=
  ∀ v : String → Bool, (∀ p ∈ ps, p.Holds v) → c.Holds v

/-- What sentences entail is entailed by all lists that they occur in. -/
theorem Entails.mono {ps qs : List Sentence} {c : Sentence} (h : Entails ps c) (hpq : ps ⊆ qs) :
  Entails qs c
  := by
  intro v hqs
  apply h
  intro p hp
  apply hqs p (hpq hp)

theorem Sentence.holds_iff_truth {v : String → Bool} {s : Sentence} :
  s.Holds v ↔ s.truth v = true
  := by
  rw [Holds, evaluate_some, Except.ok.injEq]

namespace Argument

variable {lim : Limits} {ps : List Formula} {c : Formula} {a : Argument}

/-- A valuation of all names and its row give the sentences of an argument the same values. -/
theorem Made.evaluate_rowNumber (h : Made lim ps c a) {f : Formula} (hf : f ∈ ps ++ [c])
    (v : String → Bool) :
  f.tree.evaluate (rowValuation a.atoms (rowNumber a.atoms v)) = .ok (f.tree.truth v)
  := by
  apply Sentence.evaluate_eq_truth
  intro name hname
  apply rowValuation_rowNumber v (h.mem_atoms hf hname)

/-- A row gives the sentences of an argument their values under a valuation of all names. -/
theorem Made.evaluate_row (h : Made lim ps c a) {f : Formula} (hf : f ∈ ps ++ [c]) (i : Nat) :
  f.tree.evaluate (rowValuation a.atoms i) = .ok (f.tree.truth (rowTruth a.atoms i))
  := by
  apply Sentence.evaluate_eq_truth
  intro name hname
  apply rowValuation_eq_rowTruth i (h.mem_atoms hf hname)

/-- An argument without a counterexample among its rows has none among all valuations. -/
theorem Made.entails_of_isValid (h : Made lim ps c a) (hvalid : a.isValid = true) :
  Entails (ps.map (·.tree)) c.tree
  := by
  intro v hv
  rw [List.forall_mem_map] at hv
  have hrow : rowNumber a.atoms v < a.rowCount := rowNumber_lt a.atoms v
  have hno := (isValid_iff_forall_row a).mp hvalid _ hrow
  rw [Sentence.holds_iff_truth]
  cases hc : c.tree.truth v with
  | true => rfl
  | false =>
      have hyes : (a.row (rowNumber a.atoms v)).isCounterexample = true := by
        rw [isCounterexample_row_iff h]
        constructor
        · intro f hf
          rw [h.evaluate_rowNumber (List.mem_append_left _ hf), Sentence.holds_iff_truth.mp (hv f hf)]
        · rw [h.evaluate_rowNumber (List.mem_append_right _ (List.mem_singleton.mpr rfl)), hc]
      rw [hno] at hyes
      cases hyes

/-- A counterexample among the rows is one among all valuations. -/
theorem Made.isValid_of_entails (h : Made lim ps c a)
    (hentails : Entails (ps.map (·.tree)) c.tree) :
  a.isValid = true
  := by
  rw [isValid_iff_forall_row]
  intro i _
  rw [Bool.eq_false_iff]
  intro hyes
  obtain ⟨hpremises, hconclusion⟩ := (isCounterexample_row_iff h i).mp hyes
  have hc : c.tree.Holds (rowTruth a.atoms i) := by
    apply hentails
    rw [List.forall_mem_map]
    intro f hf
    have htrue := hpremises f hf
    rw [h.evaluate_row (List.mem_append_left _ hf), Except.ok.injEq] at htrue
    apply Sentence.holds_iff_truth.mpr htrue
  rw [h.evaluate_row (List.mem_append_right _ (List.mem_singleton.mpr rfl)), Except.ok.injEq,
    Sentence.holds_iff_truth.mp hc] at hconclusion
  cases hconclusion

/-- The table of an argument decides whether the premises entail the conclusion. -/
theorem isValid_iff_entails (h : ofFormulas lim ps c = .ok a) :
  a.isValid = true ↔ Entails (ps.map (·.tree)) c.tree
  := by
  have hmade := made_of_ofFormulas h
  constructor
  · apply hmade.entails_of_isValid
  · apply hmade.isValid_of_entails

/-- Modus ponens, with its columns and circuits. -/
def modusPonens : Argument where
  premises := [⟨"P", .atom "P", .strict⟩,
    ⟨"(P->Q)", .binary .implication (.atom "P") (.atom "Q"), .strict⟩]
  conclusion := ⟨"Q", .atom "Q", .strict⟩
  atoms := ["P", "Q"]
  premiseCircuits := [⟨2, [], .column 0⟩,
    ⟨2, [.binary .implication (.column 0) (.column 1)], .gate 0⟩]
  conclusionCircuit := ⟨2, [], .column 1⟩

theorem modusPonens_isValid :
  ofFormulas .standard modusPonens.premises modusPonens.conclusion = .ok modusPonens
    ∧ modusPonens.isValid = true
    ∧ Entails (modusPonens.premises.map (·.tree)) modusPonens.conclusion.tree
  := by
  have hmade : ofFormulas .standard modusPonens.premises modusPonens.conclusion = .ok modusPonens := by
    cbv
  have hvalid : modusPonens.isValid = true := by
    rw [isValid_iff_forall_row]
    decide
  use hmade, hvalid
  apply (isValid_iff_entails hmade).mp hvalid

/-- An argument stays valid when its premises are put in another order or repeated, or when
others are added, whatever atoms these have. -/
theorem isValid_of_premises_subset {lim' : Limits} {ps' : List Formula} {c' : Formula}
    {a' : Argument} (h : ofFormulas lim ps c = .ok a) (h' : ofFormulas lim' ps' c' = .ok a')
    (hpremises : ps.map (·.tree) ⊆ ps'.map (·.tree)) (hconclusion : c.tree = c'.tree)
    (hvalid : a.isValid = true) :
  a'.isValid = true
  := by
  have hentails := (made_of_ofFormulas h).entails_of_isValid hvalid
  apply (made_of_ofFormulas h').isValid_of_entails
  rw [← hconclusion]
  apply hentails.mono hpremises

/-- Modus ponens with its premises in another order, one of them twice, and with a third
premise whose atom comes between the others. -/
def widenedModusPonens : Argument where
  premises := [⟨"[P -> Q]", .binary .implication (.atom "P") (.atom "Q"), .permissive⟩,
    ⟨"P_1", .atom "P_1", .strict⟩, ⟨"P", .atom "P", .strict⟩, ⟨"(P)", .atom "P", .permissive⟩]
  conclusion := ⟨"[Q]", .atom "Q", .permissive⟩
  atoms := ["P", "P_1", "Q"]
  premiseCircuits := [⟨3, [.binary .implication (.column 0) (.column 2)], .gate 0⟩,
    ⟨3, [], .column 1⟩, ⟨3, [], .column 0⟩, ⟨3, [], .column 0⟩]
  conclusionCircuit := ⟨3, [], .column 2⟩

theorem widenedModusPonens_isValid :
  ofFormulas .standard modusPonens.premises modusPonens.conclusion = .ok modusPonens
    ∧ ofFormulas .strict widenedModusPonens.premises widenedModusPonens.conclusion
      = .ok widenedModusPonens
    ∧ modusPonens.premises.map (·.tree) ⊆ widenedModusPonens.premises.map (·.tree)
    ∧ modusPonens.conclusion.tree = widenedModusPonens.conclusion.tree
    ∧ modusPonens.isValid = true
    ∧ widenedModusPonens.isValid = true
  := by
  have hmade : ofFormulas .standard modusPonens.premises modusPonens.conclusion = .ok modusPonens := by
    cbv
  have hmade' : ofFormulas .strict widenedModusPonens.premises widenedModusPonens.conclusion
      = .ok widenedModusPonens := by
    cbv
  have hpremises :
      modusPonens.premises.map (·.tree) ⊆ widenedModusPonens.premises.map (·.tree) := by
    decide
  have hvalid : modusPonens.isValid = true := by
    rw [isValid_iff_forall_row]
    decide
  use hmade, hmade', hpremises, rfl, hvalid
  apply isValid_of_premises_subset hmade hmade' hpremises rfl hvalid

end Argument

end Sentential

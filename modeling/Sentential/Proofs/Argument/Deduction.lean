import Sentential.Proofs.Argument.AtomBound
import Sentential.Proofs.Argument.Counterexample
import Mathlib.Data.List.Find

/-!
# The deduction theorem

A premise may be moved to the conclusion, which then becomes an implication.  The argument keeps
its atoms, and a row falsifies it before exactly when it does so afterwards: an implication is
false just where its antecedent is true and its consequent false.
-/

namespace Sentential

namespace Sentence

variable {env : Valuation} {l r : Sentence}

/-- An implication is false where its antecedent is true and its consequent false. -/
theorem evaluate_implication_eq_false_iff :
  (binary .implication l r).evaluate env = .ok false
    ↔ l.evaluate env = .ok true ∧ r.evaluate env = .ok false
  := by
  rw [evaluate]
  cases l.evaluate env with
  | error e => simp [bind, Except.bind]
  | ok x =>
      cases r.evaluate env with
      | error e => simp [bind, Except.bind]
      | ok y => cases x <;> cases y <;> simp [bind, Except.bind, pure, Except.pure, Connective.eval]

end Sentence

namespace Argument

variable {lim : Limits} {ps : List Formula} {p c d : Formula} {a b : Argument}

/-! ### Arguments with the same counterexamples -/

section SameCounterexamples

variable (hatoms : a.atoms = b.atoms)
  (hrow : ∀ i < 2 ^ a.atoms.length, (a.row i).isCounterexample = (b.row i).isCounterexample)
include hatoms hrow

theorem isValid_congr :
  a.isValid = b.isValid
  := by
  rw [Bool.eq_iff_iff, isValid_iff_forall_row, isValid_iff_forall_row]
  have hcount : b.rowCount = a.rowCount := by rw [rowCount, rowCount, hatoms]
  rw [hcount]
  constructor
  · intro h i hi
    rw [← hrow i hi, h i hi]
  · intro h i hi
    rw [hrow i hi, h i hi]

/-- The counterexamples found have the same number and the same assignment. -/
theorem counterexample?_congr :
  a.counterexample?.map (fun r => (r.index, r.assignment))
    = b.counterexample?.map fun r => (r.index, r.assignment)
  := by
  have hcount : b.rowCount = a.rowCount := by rw [rowCount, rowCount, hatoms]
  have hassignment : ∀ i, a.assignment i = b.assignment i := by
    intro i
    rw [assignment, assignment, hatoms]
  have hfind : ((List.range a.rowCount).find? fun i => (a.row i).isCounterexample)
      = (List.range a.rowCount).find? fun i => (b.row i).isCounterexample := by
    apply List.find?_congr
    intro i hi
    apply hrow i (List.mem_range.mp hi)
  rw [counterexample?_eq_map_find?, counterexample?_eq_map_find?, hcount, hfind, Option.map_map,
    Option.map_map]
  congr 1
  funext i
  simp only [Function.comp, row, hassignment]

end SameCounterexamples

/-! ### A premise moved to the conclusion -/

section Moved

variable (hd : d.tree = .binary .implication p.tree c.tree)
include hd

/-- A valuation falsifies an argument exactly when it falsifies the one whose last premise has
been moved to the conclusion. -/
theorem falsifies_concat_iff {env : Valuation} :
  env.Falsifies (ps ++ [p]) c ↔ env.Falsifies ps d
  := by
  rw [Valuation.Falsifies, Valuation.Falsifies, hd, Sentence.evaluate_implication_eq_false_iff,
    List.forall_mem_append, List.forall_mem_singleton, and_assoc]

/-- The atoms from left to right are the same wherever the premise stands. -/
theorem flatMap_leaves_concat :
  (ps ++ [p] ++ [c]).flatMap (·.tree.leaves) = (ps ++ [d]).flatMap (·.tree.leaves)
  := by
  simp [hd, Sentence.leaves]

theorem Made.atoms_eq_of_concat (ha : Made lim (ps ++ [p]) c a) (hb : Made lim ps d b) :
  a.atoms = b.atoms
  := by
  rw [ha.atoms, hb.atoms, atomsOf, atomsOf, flatMap_leaves_concat hd]

theorem Made.isCounterexample_eq_of_concat (ha : Made lim (ps ++ [p]) c a) (hb : Made lim ps d b)
    (i : Nat) :
  (a.row i).isCounterexample = (b.row i).isCounterexample
  := by
  rw [Bool.eq_iff_iff, ha.isCounterexample_iff_falsifies, hb.isCounterexample_iff_falsifies,
    ha.atoms_eq_of_concat hd hb, falsifies_concat_iff hd]

end Moved

/-- An argument from premises and one more, and the argument from the premises to the implication
of that one and the conclusion, have the same atoms, so that both are refused for their number or
both are made.  Then they have the same rows for counterexamples: they are both valid or have the
same first counterexample. -/
theorem deduction_row_by_row (lim : Limits) (ps : List Formula)
    (hd : d.tree = .binary .implication p.tree c.tree) :
  (∃ count max, ofFormulas lim (ps ++ [p]) c = .error (.tooManyAtoms count max)
      ∧ ofFormulas lim ps d = .error (.tooManyAtoms count max))
    ∨ ∃ a b, ofFormulas lim (ps ++ [p]) c = .ok a ∧ ofFormulas lim ps d = .ok b
      ∧ a.atoms = b.atoms
      ∧ (∀ i < 2 ^ a.atoms.length, (a.row i).isCounterexample = (b.row i).isCounterexample)
      ∧ a.isValid = b.isValid
      ∧ a.counterexample?.map (fun r => (r.index, r.assignment))
        = b.counterexample?.map fun r => (r.index, r.assignment)
  := by
  have hcount : atomCount (ps ++ [p] ++ [c]) = atomCount (ps ++ [d]) := by
    rw [atomCount, atomCount, flatMap_leaves_concat hd]
  rcases Nat.lt_or_ge lim.atomBound (atomCount (ps ++ [d])) with hlt | hle
  · left
    use atomCount (ps ++ [d]), lim.atomBound
    constructor
    · rw [← hcount] at hlt ⊢
      apply ofFormulas_of_lt hlt
    · apply ofFormulas_of_lt hlt
  · right
    obtain ⟨b, hb⟩ := exists_ofFormulas_eq_ok hle
    rw [← hcount] at hle
    obtain ⟨a, ha⟩ := exists_ofFormulas_eq_ok hle
    have hmade := made_of_ofFormulas ha
    have hmade' := made_of_ofFormulas hb
    have hatoms := hmade.atoms_eq_of_concat hd hmade'
    have hrow : ∀ i < 2 ^ a.atoms.length,
        (a.row i).isCounterexample = (b.row i).isCounterexample :=
      fun i _ => hmade.isCounterexample_eq_of_concat hd hmade' i
    use a, b, ha, hb, hatoms, hrow, isValid_congr hatoms hrow
    apply counterexample?_congr hatoms hrow

/-- From `P` or `Q` and not `P`, a conclusion that does not follow. -/
def strayConclusion : Argument where
  premises := [⟨"P | Q", .binary .disjunction (.atom "P") (.atom "Q"), .permissive⟩,
    ⟨"~P", .negation (.atom "P"), .strict⟩]
  conclusion := ⟨"R", .atom "R", .strict⟩
  atoms := ["P", "Q", "R"]
  premiseCircuits := [⟨3, [.binary .disjunction (.column 0) (.column 1)], .gate 0⟩,
    ⟨3, [.negation (.column 0)], .gate 0⟩]
  conclusionCircuit := ⟨3, [], .column 2⟩

/-- The same conclusion under the second premise. -/
def strayImplication : Argument where
  premises := [⟨"P | Q", .binary .disjunction (.atom "P") (.atom "Q"), .permissive⟩]
  conclusion := ⟨"(~P->R)", .binary .implication (.negation (.atom "P")) (.atom "R"), .strict⟩
  atoms := ["P", "Q", "R"]
  premiseCircuits := [⟨3, [.binary .disjunction (.column 0) (.column 1)], .gate 0⟩]
  conclusionCircuit :=
    ⟨3, [.negation (.column 0), .binary .implication (.gate 0) (.column 2)], .gate 1⟩

/-- Row 2, in which `Q` alone is true, is the first counterexample of both. -/
theorem strayConclusion_deduction :
  strayImplication.conclusion.tree
      = .binary .implication (.negation (.atom "P")) strayConclusion.conclusion.tree
    ∧ ofFormulas .standard strayConclusion.premises strayConclusion.conclusion
      = .ok strayConclusion
    ∧ ofFormulas .standard strayImplication.premises strayImplication.conclusion
      = .ok strayImplication
    ∧ strayConclusion.counterexample?.map (fun r => (r.index, r.assignment))
      = some (2, [("P", false), ("Q", true), ("R", false)])
    ∧ strayImplication.counterexample?.map (fun r => (r.index, r.assignment))
      = some (2, [("P", false), ("Q", true), ("R", false)])
  := by
  have htree : strayImplication.conclusion.tree
      = .binary .implication (.negation (.atom "P")) strayConclusion.conclusion.tree := rfl
  have hmade : ofFormulas .standard strayConclusion.premises strayConclusion.conclusion
      = .ok strayConclusion := by
    cbv
  have hmade' : ofFormulas .standard strayImplication.premises strayImplication.conclusion
      = .ok strayImplication := by
    cbv
  have hfound : strayConclusion.counterexample?.map (fun r => (r.index, r.assignment))
      = some (2, [("P", false), ("Q", true), ("R", false)]) := by
    rw [counterexample?_eq_map_find?]
    decide
  refine ⟨htree, hmade, hmade', hfound, ?_⟩
  obtain ⟨_, _, herror, -⟩ | ⟨a, b, ha, hb, -, -, -, hsame⟩ :=
    deduction_row_by_row (p := ⟨"~P", .negation (.atom "P"), .strict⟩) .standard
      strayImplication.premises htree
  · cases hmade.symm.trans herror
  · cases hmade.symm.trans ha
    cases hmade'.symm.trans hb
    rw [← hsame, hfound]

end Argument

end Sentential

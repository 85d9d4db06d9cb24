import Sentential.Argument.Table
import Sentential.Proofs.Circuit.Value
import Sentential.Proofs.Sentence.Evaluation
import Mathlib.Data.List.Forall2
import Mathlib.Data.Nat.Bitwise

/-!
# Rows and valuations

Every row of the table of an argument describes a valuation of its atoms, and every
valuation of all names agrees on the atoms with some row.  `Argument.Made` says what holds
of an argument that was made of formulas; from it, the values in a row are those of the
sentences under the valuation of the row.
-/

namespace Sentential

/-! ### The row of a valuation -/

/-- The number of the row in which every column has the value that `v` gives to its name.
The first column is the most significant. -/
def rowNumber (names : List String) (v : String → Bool) : Nat :=
  Nat.ofBits fun i : Fin names.length => v (names.get i.rev)

theorem rowNumber_lt (names : List String) (v : String → Bool) :
  rowNumber names v < 2 ^ names.length
  := Nat.ofBits_lt_two_pow _

theorem columnValue_rowNumber {names : List String} (v : String → Bool) {j : Nat}
    (h : j < names.length) :
  columnValue (rowNumber names v) names.length j = v (names.get ⟨j, h⟩)
  := by
  have hbit : names.length - 1 - j < names.length := by omega
  rw [columnValue, rowNumber, Nat.testBit_ofBits_lt _ _ hbit]
  congr 2
  apply Fin.ext
  simp only [Fin.val_rev]
  omega

/-- On the names of the columns, a valuation and its row agree. -/
theorem rowValuation_rowNumber {names : List String} (v : String → Bool) {a : String}
    (h : a ∈ names) :
  rowValuation names (rowNumber names v) a = some (v a)
  := by
  obtain ⟨j, hj⟩ := Option.isSome_iff_exists.mp (List.isSome_idxOf?.mpr h)
  obtain ⟨hlt, hget, -⟩ := List.idxOf?_eq_some_iff.mp hj
  rw [rowValuation, hj, Option.map_some, columnValue_rowNumber v hlt, List.get_eq_getElem, hget]

/-- The truth values that a row gives to all names, false where it has no column. -/
def rowTruth (names : List String) (row : Nat) (a : String) : Bool :=
  (rowValuation names row a).getD false

theorem rowValuation_eq_rowTruth {names : List String} (row : Nat) {a : String} (h : a ∈ names) :
  rowValuation names row a = some (rowTruth names row a)
  := by
  obtain ⟨j, hj⟩ := Option.isSome_iff_exists.mp (List.isSome_idxOf?.mpr h)
  simp only [rowTruth, rowValuation, hj, Option.map_some, Option.getD_some]

/-! ### The values in a row -/

/-- Mapping a list succeeds exactly by succeeding at every member. -/
theorem forall₂_of_mapM {α β ε : Type} {f : α → Except ε β} {as : List α} {bs : List β}
    (h : as.mapM f = .ok bs) :
  List.Forall₂ (fun a b => f a = .ok b) as bs
  := by
  induction as generalizing bs with
  | nil =>
      cases h
      apply List.Forall₂.nil
  | cons a as ih =>
      rw [List.mapM_cons] at h
      obtain ⟨b, hb, h⟩ := bind_eq_ok_iff.mp h
      obtain ⟨bs', hbs', hreturn⟩ := bind_eq_ok_iff.mp h
      cases hreturn
      exact List.Forall₂.cons hb (ih hbs')

/-- Mapping a list succeeds if it succeeds at every member. -/
theorem exists_mapM_eq_ok {α β ε : Type} {f : α → Except ε β} {as : List α}
    (h : ∀ a ∈ as, ∃ b, f a = .ok b) :
  ∃ bs, as.mapM f = .ok bs
  := by
  induction as with
  | nil => exact ⟨[], rfl⟩
  | cons a as ih =>
      rw [List.forall_mem_cons] at h
      obtain ⟨b, hb⟩ := h.1
      obtain ⟨bs, hbs⟩ := ih h.2
      use b :: bs
      rw [List.mapM_cons, hb, hbs]
      rfl

namespace Argument

variable {lim : Limits} {ps : List Formula} {c : Formula} {a : Argument}

/-- What holds of the argument that formulas make within limits. -/
structure Made (lim : Limits) (ps : List Formula) (c : Formula) (a : Argument) : Prop where
  premises : a.premises = ps
  conclusion : a.conclusion = c
  atoms : a.atoms = atomsOf (ps ++ [c])
  length_atoms_le : a.atoms.length ≤ lim.atomBound
  premiseCircuits :
    List.Forall₂ (fun f k => Circuit.compile f.tree a.atoms = .ok k) ps a.premiseCircuits
  conclusionCircuit : Circuit.compile c.tree a.atoms = .ok a.conclusionCircuit

/-- The atoms of formulas stand in increasing order, so that halving finds them. -/
theorem compileSorted_atomsOf (s : Sentence) (fs : List Formula) :
  Circuit.compileSorted s (atomsOf fs) = Circuit.compile s (atomsOf fs)
  := Circuit.compileSorted_eq_compile (pairwise_nameSet _) s

theorem made_of_ofFormulas (h : ofFormulas lim ps c = .ok a) :
  Made lim ps c a
  := by
  simp only [ofFormulas, compileSorted_atomsOf] at h
  split at h
  · cases h
  · rename_i hlength
    split at h
    · cases h
    · rename_i premiseCircuits hpremises
      split at h
      · cases h
      · rename_i conclusionCircuit hconclusion
        cases h
        exact
          { premises := rfl
            conclusion := rfl
            atoms := rfl
            length_atoms_le := Nat.le_of_not_lt hlength
            premiseCircuits := forall₂_of_mapM hpremises
            conclusionCircuit := hconclusion }

/-- The atoms of an argument are those of its sentences. -/
theorem Made.mem_atoms_iff (h : Made lim ps c a) {name : String} :
  name ∈ a.atoms ↔ ∃ f ∈ ps ++ [c], name ∈ f.tree.leaves
  := by
  rw [h.atoms, atomsOf, mem_nameSet, List.mem_flatMap]

theorem Made.mem_atoms (h : Made lim ps c a) {f : Formula} (hf : f ∈ ps ++ [c]) {name : String}
    (hname : name ∈ f.tree.leaves) :
  name ∈ a.atoms
  := h.mem_atoms_iff.mpr ⟨f, hf, hname⟩

/-- All circuits of some formulas are true in a row exactly when the formulas are under the
valuation of the row. -/
theorem all_evalRow_iff {names : List String} {fs : List Formula} {ks : List Circuit}
    (h : List.Forall₂ (fun f k => Circuit.compile f.tree names = .ok k) fs ks) (i : Nat) :
  (ks.map (·.evalRow i)).all id = true
    ↔ ∀ f ∈ fs, f.tree.evaluate (rowValuation names i) = .ok true
  := by
  induction h with
  | nil => simp
  | cons hk _ ih =>
      rw [List.map_cons, List.all_cons, Bool.and_eq_true, List.forall_mem_cons, ih,
        Circuit.evaluate_of_compile hk i, Except.ok.injEq, id]

/-- A row is a counterexample exactly when its valuation makes all premises true and the
conclusion false. -/
theorem isCounterexample_row_iff (h : Made lim ps c a) (i : Nat) :
  (a.row i).isCounterexample = true
    ↔ (∀ f ∈ ps, f.tree.evaluate (rowValuation a.atoms i) = .ok true)
      ∧ c.tree.evaluate (rowValuation a.atoms i) = .ok false
  := by
  rw [Row.isCounterexample, Bool.and_eq_true, Row.allPremisesTrue, row,
    all_evalRow_iff h.premiseCircuits i, Circuit.evaluate_of_compile h.conclusionCircuit i,
    Except.ok.injEq, Bool.not_eq_true']

/-- An argument is valid when none of its rows is a counterexample. -/
theorem isValid_iff_forall_row (a : Argument) :
  a.isValid = true ↔ ∀ i < a.rowCount, (a.row i).isCounterexample = false
  := by
  simp [isValid, table_eq_map_row]

/-- The first counterexample is the row with the first number at which there is one. -/
theorem counterexample?_eq_map_find? (a : Argument) :
  a.counterexample?
    = ((List.range a.rowCount).find? fun i => (a.row i).isCounterexample).map a.row
  := by
  rw [counterexample?, table_eq_map_row, List.find?_map]
  rfl

end Argument

end Sentential

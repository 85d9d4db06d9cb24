import Sentential.Sentence.Atoms
import Sentential.Sentence.Valuation
import Mathlib.Tactic.Use

/-!
# The value of a sentence

Evaluation of a sentence looks at its atoms from left to right and fails at the first without a
value.  If all of them have one, the sentence has the value that its connectives give it when they
are read classically.  In either case the outcome depends on the atoms of the sentence only.
-/

namespace Sentential

/-- The first atom of a sentence, from left to right, to which a valuation gives no value. -/
def Valuation.FirstMissing (env : Valuation) (s : Sentence) (a : String) : Prop :=
  ∃ before after, s.leaves = before ++ a :: after ∧ env a = none
    ∧ ∀ b ∈ before, (env b).isSome = true

namespace Sentence

variable {env env' : Valuation} {s : Sentence}

/-- Whether a sentence is true when its atoms stand for propositions and its signs are read as the
connectives of classical logic. -/
def IsTrue (v : String → Prop) : Sentence → Prop
  | atom name => v name
  | negation s => ¬ s.IsTrue v
  | binary .conjunction l r => l.IsTrue v ∧ r.IsTrue v
  | binary .disjunction l r => l.IsTrue v ∨ r.IsTrue v
  | binary .implication l r => l.IsTrue v → r.IsTrue v
  | binary .equivalence l r => (l.IsTrue v ↔ r.IsTrue v)

/-- The truth functions are those of classical logic. -/
theorem truth_eq_true_iff (v : String → Bool) (s : Sentence) :
  s.truth v = true ↔ s.IsTrue fun a => v a = true
  := by
  induction s with
  | atom name => rfl
  | negation s ih => rw [truth, IsTrue, ← ih, Bool.not_eq_true', Bool.not_eq_true]
  | binary c l r ihl ihr =>
      cases c with
      | conjunction => rw [truth, IsTrue, Connective.eval, Bool.and_eq_true, ihl, ihr]
      | disjunction => rw [truth, IsTrue, Connective.eval, Bool.or_eq_true, ihl, ihr]
      | implication =>
          rw [truth, IsTrue, ← ihl, ← ihr]
          cases l.truth v <;> simp [Connective.eval]
      | equivalence =>
          rw [truth, IsTrue, ← ihl, ← ihr]
          cases l.truth v <;> simp [Connective.eval]

/-- Only the values of the atoms of a sentence matter. -/
theorem evaluate_congr (h : ∀ a ∈ s.leaves, env a = env' a) :
  s.evaluate env = s.evaluate env'
  := by
  induction s with
  | atom name => simp only [evaluate, h name (List.mem_singleton.mpr rfl)]
  | negation s ih => simp only [evaluate, ih h]
  | binary c l r ihl ihr =>
      simp only [leaves, List.mem_append] at h
      have hl := ihl fun a ha => h a (.inl ha)
      have hr := ihr fun a ha => h a (.inr ha)
      simp only [evaluate, hl, hr]

/-- Where all atoms of a sentence have the values of a valuation of all names, so has the
sentence. -/
theorem evaluate_eq_truth {v : String → Bool} (h : ∀ a ∈ s.leaves, env a = some (v a)) :
  s.evaluate env = .ok (s.truth v)
  := by
  rw [evaluate_congr h, evaluate_some]

/-- Evaluation searches the atoms from left to right for one without a value. -/
theorem evaluate_eq_find? (env : Valuation) (s : Sentence) :
  s.evaluate env =
    match s.leaves.find? fun a => (env a).isNone with
    | some a => .error (.missingAtom a)
    | none => .ok (s.truth fun a => (env a).getD false)
  := by
  induction s with
  | atom name =>
      rw [evaluate, leaves, List.find?_singleton]
      cases henv : env name <;> simp [truth, henv]
  | negation s ih =>
      rw [evaluate, ih, leaves]
      cases s.leaves.find? fun a => (env a).isNone <;> rfl
  | binary c l r ihl ihr =>
      rw [evaluate, ihl, ihr, leaves, List.find?_append]
      cases l.leaves.find? fun a => (env a).isNone with
      | some a => rfl
      | none => cases r.leaves.find? fun a => (env a).isNone <;> rfl

/-- The error names the atom that the search finds. -/
theorem evaluate_eq_error_iff {a : String} :
  s.evaluate env = .error (.missingAtom a) ↔ s.leaves.find? (fun a => (env a).isNone) = some a
  := by
  rw [evaluate_eq_find?]
  cases s.leaves.find? fun a => (env a).isNone <;> simp

theorem find?_eq_some_iff_firstMissing {a : String} :
  s.leaves.find? (fun a => (env a).isNone) = some a ↔ env.FirstMissing s a
  := by
  rw [List.find?_eq_some_iff_append, Valuation.FirstMissing]
  constructor
  · rintro ⟨ha, before, after, hleaves, hbefore⟩
    use before, after, hleaves, Option.isNone_iff_eq_none.mp ha
    simpa using hbefore
  · rintro ⟨before, after, hleaves, ha, hbefore⟩
    use Option.isNone_iff_eq_none.mpr ha, before, after, hleaves
    simpa using hbefore

/-- A sentence has a value exactly when all of its atoms have. -/
theorem exists_evaluate_eq_ok_iff :
  (∃ b, s.evaluate env = .ok b) ↔ ∀ a ∈ s.leaves, (env a).isSome = true
  := by
  have hnone : (∀ a ∈ s.leaves, (env a).isSome = true)
      ↔ s.leaves.find? (fun a => (env a).isNone) = none := by
    simp [Option.isSome_iff_ne_none]
  rw [hnone, evaluate_eq_find?]
  cases s.leaves.find? fun a => (env a).isNone <;> simp

/-- The value of a sentence is its classical truth value. -/
theorem eq_true_iff_of_evaluate {b : Bool} (h : s.evaluate env = .ok b) :
  b = true ↔ s.IsTrue fun a => env a = some true
  := by
  have hv : (fun a => (env a).getD false = true) = fun a => env a = some true := by
    funext a
    cases env a <;> simp
  rw [evaluate_eq_find?] at h
  split at h
  · cases h
  · cases h
    rw [truth_eq_true_iff, hv]

/-! ### The outcome of an evaluation -/

/-- A sentence fails to have a value exactly at the first of its atoms without one, and otherwise
has its classical truth value.  It has a value just when all of its atoms have, and valuations that
agree on its atoms lead to the same outcome. -/
theorem evaluate_determined_by_atoms (env : Valuation) (s : Sentence) :
  (∀ a, s.evaluate env = .error (.missingAtom a) ↔ env.FirstMissing s a)
    ∧ ((∀ a ∈ s.atoms, (env a).isSome = true) →
      ∃ b, s.evaluate env = .ok b ∧ (b = true ↔ s.IsTrue fun a => env a = some true))
    ∧ ((∃ b, s.evaluate env = .ok b) ↔ ∀ a ∈ s.atoms, (env a).isSome = true)
    ∧ ∀ env' : Valuation, (∀ a ∈ s.atoms, env a = env' a) → s.evaluate env = s.evaluate env'
  := by
  simp only [mem_atoms]
  refine ⟨?_, ?_, exists_evaluate_eq_ok_iff, ?_⟩
  · intro a
    rw [evaluate_eq_error_iff, find?_eq_some_iff_firstMissing]
  · intro h
    obtain ⟨b, hb⟩ := exists_evaluate_eq_ok_iff.mpr h
    use b, hb
    apply eq_true_iff_of_evaluate hb
  · intro env' h
    apply evaluate_congr h

/-- A conjunction whose left part decides its value where `P` is false. -/
def guardedDisjunction : Sentence :=
  .binary .conjunction (.atom "P") (.binary .disjunction (.negation (.atom "S")) (.atom "Q"))

/-- Values that leave out an atom of `guardedDisjunction` behind its false conjunct. -/
def withoutS : Valuation := .ofFirst [("P", false), ("Q", true)]

/-- Values for the atoms of `guardedDisjunction` and for one more. -/
def withS : Valuation := .ofFirst [("S", false), ("P", true), ("Q", false), ("R", true)]

/-- The atom is missed although the conjunct before it is false. -/
theorem guardedDisjunction_determined_by_atoms :
  guardedDisjunction.evaluate withoutS = .error (.missingAtom "S")
    ∧ withoutS.FirstMissing guardedDisjunction "S"
    ∧ (∀ a ∈ guardedDisjunction.atoms, (withS a).isSome = true)
    ∧ (∃ b, guardedDisjunction.evaluate withS = .ok b
      ∧ (b = true ↔ guardedDisjunction.IsTrue fun a => withS a = some true))
    ∧ (∀ a ∈ guardedDisjunction.atoms, withoutS a = Valuation.ofLast [("Q", true), ("P", false)] a)
    ∧ guardedDisjunction.evaluate withoutS
      = guardedDisjunction.evaluate (.ofLast [("Q", true), ("P", false)])
  := by
  have herror : guardedDisjunction.evaluate withoutS = .error (.missingAtom "S") := rfl
  have hsome : ∀ a ∈ guardedDisjunction.atoms, (withS a).isSome = true := by decide
  have hagree : ∀ a ∈ guardedDisjunction.atoms,
      withoutS a = Valuation.ofLast [("Q", true), ("P", false)] a := by
    decide
  have hmissing := ((evaluate_determined_by_atoms _ _).1 _).mp herror
  use herror, hmissing, hsome, (evaluate_determined_by_atoms _ _).2.1 hsome, hagree
  apply (evaluate_determined_by_atoms _ _).2.2.2 _ hagree

end Sentence

end Sentential

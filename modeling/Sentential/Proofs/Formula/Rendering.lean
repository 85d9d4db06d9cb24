import Sentential.Proofs.Formula.Reading
import Sentential.Proofs.Sentence.Rendering

/-!
# Rendered formulas

Every formula that can be made has atom names only, for those of a text are among its tokens.
Its canonical text is therefore read again, with the usual vocabulary, as a strict formula of
the same sentence, under every depth limit that the sentence keeps.  A sentence of which no
formula can be made has a canonical text that is never read as that sentence.
-/

namespace Sentential

namespace Formula

variable {v : Vocabulary} {lim : Limits} {text : String} {ts : List Token} {s : Sentence}
  {f : Formula}

/-- The formulas that can be made: those read from a text, with any vocabulary and within any
limits, and those of a sentence. -/
inductive Constructed : Formula → Prop
  | parse {v : Vocabulary} {lim : Limits} {text : String} {f : Formula}
      (h : parse v lim text = .ok f) : Constructed f
  | ofSentence {s : Sentence} {f : Formula} (h : ofSentence s = .ok f) : Constructed f

/-! ### The atoms of a formula -/

/-- A text that makes a formula has tokens that the grammar of the formula accepts. -/
theorem exists_tokens_of_parse (h : parse v lim text = .ok f) :
  ∃ ts, v.tokenize text = .ok ts ∧ Sentence.parse f.grammar lim.maxDepth ts = .ok f.tree
  := by
  rw [parse] at h
  split at h
  · cases h
  · split at h
    · cases h
    · rename_i ts hts
      split at h
      · rename_i s hs
        cases h
        use ts
      · split at h
        · rename_i s hs
          cases h
          use ts
        · cases h

/-- A sentence that has been read has the atoms of its tokens. -/
theorem leaves_eq_of_parse {g : Grammar} {limit : Nat} (h : Sentence.parse g limit ts = .ok s) :
  s.leaves = Sentence.atomNames ts
  := by
  cases g with
  | strict => apply (Sentence.formal_of_parse h).derives.leaves_eq
  | permissive =>
      obtain ⟨n, -, hderives⟩ := Sentence.derives_of_parse h
      apply hderives.leaves_eq

/-- A sentence makes a formula if its names are atom names, with its canonical text. -/
theorem ofSentence_eq_ok_iff :
  ofSentence s = .ok f ↔ (∀ a ∈ s.leaves, IsAtomName a) ∧ f = ⟨s.render, s, .strict⟩
  := by
  rw [ofSentence]
  cases hfind : s.atoms.find? fun a => decide ¬ IsAtomName a with
  | some a =>
      have hmem := List.mem_of_find?_eq_some hfind
      have hname := List.find?_some hfind
      simp only [decide_eq_true_eq] at hname
      simp only [reduceCtorEq, false_iff, not_and]
      intro hs
      cases hname (hs a (Sentence.mem_atoms.mp hmem))
  | none =>
      simp only [List.find?_eq_none, decide_eq_true_eq, not_not, Sentence.mem_atoms] at hfind
      constructor
      · rintro ⟨⟩
        exact ⟨hfind, rfl⟩
      · rintro ⟨-, rfl⟩
        rfl

/-- Every formula has atom names only. -/
theorem Constructed.isAtomName (h : f.Constructed) {a : String} (ha : a ∈ f.tree.leaves) :
  IsAtomName a
  := by
  cases h with
  | parse h =>
      obtain ⟨ts, hts, hs⟩ := exists_tokens_of_parse h
      rw [leaves_eq_of_parse hs, Sentence.atomNames, List.mem_map] at ha
      obtain ⟨t, ht, rfl⟩ := ha
      rw [List.mem_filter, decide_eq_true_eq] at ht
      apply (Vocabulary.splits_of_tokenize hts).isAtomName ht.1 ht.2
  | ofSentence h =>
      obtain ⟨hs, rfl⟩ := ofSentence_eq_ok_iff.mp h
      apply hs a ha

/-! ### Reading a canonical text -/

/-- The canonical text of a sentence is read as that sentence, or else exceeds the limit. -/
theorem parse_render (lim : Limits) (hs : ∀ a ∈ s.leaves, IsAtomName a) :
  parse .standard lim s.render =
    if s.depth ≤ lim.maxDepth then .ok ⟨s.render, s, .strict⟩
    else .error (.malformed s.render (.depthExceeded lim.maxDepth))
  := by
  have htext := Sentence.isBlankText_render hs
  have hts := Sentence.tokenize_render hs
  have hparse := (Sentence.formal_tokens s).parse_eq lim.maxDepth
  rw [Sentence.within] at hparse
  split
  · rename_i hdepth
    rw [if_pos hdepth] at hparse
    apply parse_of_strict htext hts hparse
  · rename_i hdepth
    rw [if_neg hdepth] at hparse
    apply parse_of_strict_depthExceeded htext hts hparse

/-- Every formula has atom names only, and its canonical text is read as a strict formula of
the same sentence if the limit allows for the levels of the sentence, and otherwise exceeds it.
The formula of a sentence is the one that is read. -/
theorem Constructed.parse_render_eq (h : f.Constructed) (lim : Limits) :
  (∀ a ∈ f.atoms, IsAtomName a)
    ∧ Formula.parse .standard lim f.render =
      (if f.tree.depth ≤ lim.maxDepth then .ok ⟨f.render, f.tree, .strict⟩
        else .error (.malformed f.render (.depthExceeded lim.maxDepth)))
    ∧ ∀ s, Formula.ofSentence s = .ok f → f = ⟨f.render, f.tree, .strict⟩
  := by
  have hleaves : ∀ a ∈ f.tree.leaves, IsAtomName a := fun a ha => h.isAtomName ha
  refine ⟨?_, parse_render lim hleaves, ?_⟩
  · intro a ha
    apply hleaves a (Sentence.mem_atoms.mp ha)
  · intro s hs
    obtain ⟨-, rfl⟩ := ofSentence_eq_ok_iff.mp hs
    rfl

/-- An implication of three levels. -/
def negatedConsequent : Formula where
  input := "(P->~Q_1)"
  tree := .binary .implication (.atom "P") (.negation (.atom "Q_1"))
  grammar := .strict

theorem negatedConsequent_parse_render_eq :
  negatedConsequent.Constructed
    ∧ parse .standard ⟨3, 12⟩ "(P->~Q_1)" = .ok negatedConsequent
    ∧ parse .standard ⟨2, 12⟩ "(P->~Q_1)" = .error (.malformed "(P->~Q_1)" (.depthExceeded 2))
  := by
  have hconstructed : negatedConsequent.Constructed :=
    Constructed.ofSentence (s := negatedConsequent.tree) rfl
  use hconstructed
  constructor
  · apply (hconstructed.parse_render_eq ⟨3, 12⟩).2.1
  · apply (hconstructed.parse_render_eq ⟨2, 12⟩).2.1

/-! ### Sentences that are read back -/

/-- The first name that a search of the atoms of a sentence finds is the least of those that it
looks for. -/
theorem find?_atoms_eq_some_iff {p : String → Bool} {a : String} :
  s.atoms.find? p = some a
    ↔ a ∈ s.leaves ∧ p a = true ∧ ∀ b ∈ s.leaves, p b = true → a ≤ b
  := by
  have hleast : ∀ {a'}, s.atoms.find? p = some a' → ∀ b ∈ s.leaves, p b = true → a' ≤ b := by
    intro a' hfind b hb hpb
    obtain ⟨-, as, bs, hatoms, has⟩ := List.find?_eq_some_iff_append.mp hfind
    have hsorted : s.atoms.Pairwise (· < ·) := pairwise_nameSet s.leaves
    rw [hatoms, List.pairwise_append, List.pairwise_cons] at hsorted
    rw [← Sentence.mem_atoms, hatoms, List.mem_append, List.mem_cons] at hb
    rcases hb with hb | rfl | hb
    · have hno := has b hb
      simp [hpb] at hno
    · apply String.le_refl
    · apply String.not_lt.mp (String.lt_asymm (hsorted.2.1.1 b hb))
  constructor
  · intro hfind
    use Sentence.mem_atoms.mp (List.mem_of_find?_eq_some hfind), List.find?_some hfind
    apply hleast hfind
  · rintro ⟨ha, hpa, hmin⟩
    cases hfind : s.atoms.find? p with
    | none => cases List.find?_eq_none.mp hfind a (Sentence.mem_atoms.mpr ha) hpa
    | some a' =>
        have ha' := Sentence.mem_atoms.mp (List.mem_of_find?_eq_some hfind)
        rw [String.le_antisymm (hleast hfind a ha hpa) (hmin a' ha' (List.find?_some hfind))]

/-- A sentence that makes no formula has a name that is no atom name, and the error tells the
least of them. -/
theorem ofSentence_eq_error_iff {e : Error} :
  ofSentence s = .error e
    ↔ ∃ a ∈ s.leaves, e = .lexical (.invalidAtom a) ∧ ¬ IsAtomName a
      ∧ ∀ b ∈ s.leaves, ¬ IsAtomName b → a ≤ b
  := by
  have hfind : ofSentence s = .error e ↔
      ∃ a, s.atoms.find? (fun a => decide ¬ IsAtomName a) = some a
        ∧ e = .lexical (.invalidAtom a) := by
    rw [ofSentence]
    cases s.atoms.find? fun a => decide ¬ IsAtomName a <;> simp [eq_comm]
  rw [hfind]
  apply exists_congr
  intro a
  simp only [find?_atoms_eq_some_iff, decide_eq_true_eq]
  tauto

/-- A sentence makes a formula exactly when its canonical text is read as that sentence again
under some limits.  With a name that is no atom name the text may be read too, but never as the
same sentence; the error then tells the least such name. -/
theorem ofSentence_ok_iff_exists_parse (s : Sentence) :
  ((∃ f, ofSentence s = .ok f)
      ↔ ∃ lim g, Formula.parse .standard lim s.render = .ok g ∧ g.tree = s)
    ∧ ∀ e, ofSentence s = .error e
      ↔ ∃ a ∈ s.leaves, e = .lexical (.invalidAtom a) ∧ ¬ IsAtomName a
        ∧ ∀ b ∈ s.leaves, ¬ IsAtomName b → a ≤ b
  := by
  constructor
  · constructor
    · rintro ⟨f, hf⟩
      obtain ⟨hs, -⟩ := ofSentence_eq_ok_iff.mp hf
      use ⟨s.depth, 0⟩, ⟨s.render, s, .strict⟩
      constructor
      · rw [parse_render _ hs, if_pos (Nat.le_refl _)]
      · rfl
    · rintro ⟨lim, g, hg, rfl⟩
      use ⟨g.tree.render, g.tree, .strict⟩
      rw [ofSentence_eq_ok_iff]
      constructor
      · intro a
        apply (Constructed.parse hg).isAtomName
      · rfl
  · intro e
    apply ofSentence_eq_error_iff

end Formula

end Sentential

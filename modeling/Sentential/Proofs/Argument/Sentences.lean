import Sentential.Proofs.Argument.AtomBound
import Sentential.Proofs.Formula.Reading
import Sentential.Proofs.Vocabulary.Unknown
import Mathlib.Tactic.Use

/-!
# Arguments from texts

An argument is read from texts: the premises in their order, then the conclusion, and then their
atoms are counted.  The first of these steps that fails is the one that is reported.  A bad premise
is reported with its place, and it is the first one; a bad conclusion is reported only if all
premises are sentences, and too many atoms only if all texts are.  Otherwise the texts make an
argument, whose premises and conclusion are the formulas that were read.
-/

namespace Sentential

namespace Argument

/-- A text is read as a formula, with the standard vocabulary and within the standard limits. -/
def Reads (text : String) (f : Formula) : Prop := Formula.parse .standard .standard text = .ok f

variable {ps : List String} {c text : String} {fs : List Formula} {f : Formula} {a : Argument}
  {e : Formula.Error} {err : Error} {i k : Nat}

theorem not_reads_of_error (h : Formula.parse .standard .standard text = .error e) (f : Formula) :
  ¬ Reads text f
  := by
  simp [Reads, h]

/-- Of a text that is not read as a formula the error tells why. -/
theorem reads_or_error (text : String) :
  (∃ f, Reads text f) ∨ ∃ e, Formula.parse .standard .standard text = .error e
  := by
  cases h : Formula.parse .standard .standard text with
  | ok f => exact .inl ⟨f, h⟩
  | error e => exact .inr ⟨e, rfl⟩

/-! ### Premises -/

/-- Of the texts `ps`, number `i` is the first that is not read as a formula; it reads `text`, and
`e` tells why. -/
structure FirstBad (ps : List String) (i : Nat) (text : String) (e : Formula.Error) : Prop where
  text_eq : ps[i]? = some text
  error_eq : Formula.parse .standard .standard text = .error e
  reads : ∀ j < i, ∃ text f, ps[j]? = some text ∧ Reads text f

theorem FirstBad.head (h : Formula.parse .standard .standard text = .error e) (ps : List String) :
  FirstBad (text :: ps) 0 text e
  where
  text_eq := rfl
  error_eq := h
  reads _ hj := by cases hj

theorem FirstBad.eq_head {p : String} {e' : Formula.Error} (h : FirstBad (p :: ps) i text e')
    (hp : Formula.parse .standard .standard p = .error e) :
  i = 0 ∧ p = text ∧ e = e'
  := by
  cases i with
  | zero =>
      cases h.text_eq
      cases hp.symm.trans h.error_eq
      use rfl, rfl
  | succ i =>
      obtain ⟨text', f, ⟨⟩, hf⟩ := h.reads 0 (Nat.succ_pos i)
      cases not_reads_of_error hp f hf

/-- Behind a text that is read as a formula, the first bad one has its number among the texts that
follow, and one more. -/
theorem firstBad_cons_iff {p : String} (h : Reads p f) :
  FirstBad (p :: ps) i text e ↔ ∃ j, i = j + 1 ∧ FirstBad ps j text e
  := by
  constructor
  · intro hbad
    cases i with
    | zero =>
        cases hbad.text_eq
        cases not_reads_of_error hbad.error_eq f h
    | succ j =>
        use j, rfl, hbad.text_eq, hbad.error_eq
        intro m hm
        apply hbad.reads (m + 1) (Nat.succ_lt_succ hm)
  · rintro ⟨j, rfl, hbad⟩
    use hbad.text_eq, hbad.error_eq
    intro m hm
    cases m with
    | zero => exact ⟨p, f, rfl, h⟩
    | succ m => apply hbad.reads m (Nat.lt_of_succ_lt_succ hm)

theorem readPremises_of_reads {p : String} (h : Reads p f) (k : Nat) (ps : List String) :
  readPremises k (p :: ps) = (readPremises (k + 1) ps).map (f :: ·)
  := by
  rw [readPremises, h]
  cases readPremises (k + 1) ps <;> rfl

theorem readPremises_of_error {p : String} (h : Formula.parse .standard .standard p = .error e)
    (k : Nat) (ps : List String) :
  readPremises k (p :: ps) = .error (.illFormedPremise k p e)
  := by
  rw [readPremises, h]

/-- Premises are read when every one of them is, and the formulas are theirs in their order. -/
theorem readPremises_eq_ok_iff :
  readPremises k ps = .ok fs ↔ List.Forall₂ Reads ps fs
  := by
  induction ps generalizing k fs with
  | nil => rw [readPremises, List.forall₂_nil_left_iff, Except.ok.injEq, eq_comm]
  | cons p ps ih =>
      rw [List.forall₂_cons_left_iff]
      obtain ⟨f, hf⟩ | ⟨e, he⟩ := reads_or_error p
      · simp only [readPremises_of_reads hf, map_eq_ok_iff, ih]
        constructor
        · rintro ⟨gs, hgs, rfl⟩
          use f, gs, hf, hgs
        · rintro ⟨f', gs, hf', hgs, rfl⟩
          cases hf.symm.trans hf'
          use gs, hgs
      · rw [readPremises_of_error he]
        constructor
        · rintro ⟨⟩
        · rintro ⟨f, gs, hf, -⟩
          cases not_reads_of_error he f hf

/-- Premises are refused for the first bad one, which is told with its number and the reason. -/
theorem readPremises_eq_error_iff :
  readPremises k ps = .error err
    ↔ ∃ i text e, err = .illFormedPremise (k + i) text e ∧ FirstBad ps i text e
  := by
  induction ps generalizing k with
  | nil =>
      constructor
      · rintro ⟨⟩
      · rintro ⟨i, text, e, -, hbad⟩
        cases hbad.text_eq
  | cons p ps ih =>
      obtain ⟨f, hf⟩ | ⟨e, he⟩ := reads_or_error p
      · rw [readPremises_of_reads hf, map_eq_error_iff, ih]
        simp only [firstBad_cons_iff hf]
        constructor
        · rintro ⟨i, text, e, rfl, hbad⟩
          refine ⟨i + 1, text, e, ?_, i, rfl, hbad⟩
          rw [Nat.add_right_comm, Nat.add_assoc]
        · rintro ⟨_, text, e, rfl, i, rfl, hbad⟩
          refine ⟨i, text, e, ?_, hbad⟩
          rw [Nat.add_right_comm, Nat.add_assoc]
      · rw [readPremises_of_error he]
        constructor
        · rintro ⟨⟩
          exact ⟨0, p, e, rfl, FirstBad.head he ps⟩
        · rintro ⟨i, text, e', rfl, hbad⟩
          obtain ⟨rfl, rfl, rfl⟩ := hbad.eq_head he
          rfl

/-- Either all premises are read, or there is a first bad one. -/
theorem forall₂_reads_or_firstBad (ps : List String) :
  (∃ fs, List.Forall₂ Reads ps fs) ∨ ∃ i text e, FirstBad ps i text e
  := by
  cases h : readPremises 0 ps with
  | ok fs => exact .inl ⟨fs, readPremises_eq_ok_iff.mp h⟩
  | error err =>
      obtain ⟨i, text, e, -, hbad⟩ := readPremises_eq_error_iff.mp h
      exact .inr ⟨i, text, e, hbad⟩

theorem exists_forall₂_reads_iff :
  (∃ fs, List.Forall₂ Reads ps fs) ↔ ∀ p ∈ ps, ∃ f, Reads p f
  := by
  constructor
  · rintro ⟨fs, hfs⟩
    induction hfs with
    | nil => simp
    | cons hf _ ih =>
        rw [List.forall_mem_cons]
        use ⟨_, hf⟩, ih
  · intro h
    obtain hfs | ⟨i, text, e, hbad⟩ := forall₂_reads_or_firstBad ps
    · exact hfs
    · obtain ⟨f, hf⟩ := h text (List.mem_of_getElem? hbad.text_eq)
      cases not_reads_of_error hbad.error_eq f hf

/-! ### Whole arguments -/

theorem ofSentences_of_firstBad (h : FirstBad ps i text e) (c : String) :
  ofSentences ps c = .error (.illFormedPremise i text e)
  := by
  have hpremises : readPremises 0 ps = .error (.illFormedPremise (0 + i) text e) :=
    readPremises_eq_error_iff.mpr ⟨i, text, e, rfl, h⟩
  rw [ofSentences, hpremises, Nat.zero_add]

theorem ofSentences_of_error (hfs : List.Forall₂ Reads ps fs)
    (h : Formula.parse .standard .standard c = .error e) :
  ofSentences ps c = .error (.illFormedConclusion c e)
  := by
  simp only [ofSentences, readPremises_eq_ok_iff.mpr hfs, h]

theorem ofSentences_of_reads (hfs : List.Forall₂ Reads ps fs) (h : Reads c f) :
  ofSentences ps c = ofFormulas .standard fs f
  := by
  rw [Reads] at h
  simp only [ofSentences, readPremises_eq_ok_iff.mpr hfs, h]

/-- The standard limits allow for 63 atoms. -/
theorem atomBound_standard :
  Limits.standard.atomBound = 63
  := rfl

theorem ofSentences_of_lt (hfs : List.Forall₂ Reads ps fs) (hf : Reads c f)
    (h : 63 < atomCount (fs ++ [f])) :
  ofSentences ps c = .error (.tooManyAtoms (atomCount (fs ++ [f])) 63)
  := by
  rw [← atomBound_standard] at h ⊢
  rw [ofSentences_of_reads hfs hf]
  apply ofFormulas_of_lt h

theorem exists_ofSentences_eq_ok (hfs : List.Forall₂ Reads ps fs) (hf : Reads c f)
    (h : atomCount (fs ++ [f]) ≤ 63) :
  ∃ a, ofSentences ps c = .ok a ∧ a.premises = fs ∧ a.conclusion = f
  := by
  rw [← atomBound_standard] at h
  obtain ⟨a, ha⟩ := exists_ofFormulas_eq_ok h
  have hmade := made_of_ofFormulas ha
  rw [ofSentences_of_reads hfs hf]
  use a, ha, hmade.premises, hmade.conclusion

/-- The ways in which texts may fare, with the steps that lead there. -/
inductive Fares (ps : List String) (c : String) : Except Error Argument → Prop
  | premise {i : Nat} {text : String} {e : Formula.Error} (h : FirstBad ps i text e) :
      Fares ps c (.error (.illFormedPremise i text e))
  | conclusion {fs : List Formula} {e : Formula.Error} (hfs : List.Forall₂ Reads ps fs)
      (h : Formula.parse .standard .standard c = .error e) :
      Fares ps c (.error (.illFormedConclusion c e))
  | atoms {fs : List Formula} {f : Formula} (hfs : List.Forall₂ Reads ps fs) (hf : Reads c f)
      (h : 63 < atomCount (fs ++ [f])) :
      Fares ps c (.error (.tooManyAtoms (atomCount (fs ++ [f])) 63))
  | argument {a : Argument} (hfs : List.Forall₂ Reads ps a.premises) (hf : Reads c a.conclusion)
      (h : atomCount (a.premises ++ [a.conclusion]) ≤ 63) : Fares ps c (.ok a)

theorem fares_ofSentences (ps : List String) (c : String) :
  Fares ps c (ofSentences ps c)
  := by
  obtain ⟨fs, hfs⟩ | ⟨i, text, e, hbad⟩ := forall₂_reads_or_firstBad ps
  · obtain ⟨f, hf⟩ | ⟨e, he⟩ := reads_or_error c
    · rcases Nat.lt_or_ge 63 (atomCount (fs ++ [f])) with hlt | hle
      · rw [ofSentences_of_lt hfs hf hlt]
        apply Fares.atoms hfs hf hlt
      · obtain ⟨a, ha, rfl, rfl⟩ := exists_ofSentences_eq_ok hfs hf hle
        rw [ha]
        apply Fares.argument hfs hf hle
    · rw [ofSentences_of_error hfs he]
      apply Fares.conclusion hfs he
  · rw [ofSentences_of_firstBad hbad]
    apply Fares.premise hbad

theorem Fares.of_eq {x : Except Error Argument} (h : ofSentences ps c = x) :
  Fares ps c x
  := by
  rw [← h]
  apply fares_ofSentences

/-- The first text that is not read as a formula is reported, the conclusion being the last of the
texts; if all are read, too many atoms are reported; and otherwise the formulas that are read make
an argument in their order. -/
theorem ofSentences_reports_first (ps : List String) (c : String) :
  (∀ i text e, ofSentences ps c = .error (.illFormedPremise i text e) ↔ FirstBad ps i text e)
    ∧ (∀ text e, ofSentences ps c = .error (.illFormedConclusion text e)
      ↔ (∀ p ∈ ps, ∃ f, Reads p f)
        ∧ text = c ∧ Formula.parse .standard .standard c = .error e)
    ∧ (∀ count max, ofSentences ps c = .error (.tooManyAtoms count max)
      ↔ max = 63 ∧ 63 < count
        ∧ ∃ fs f, List.Forall₂ Reads ps fs ∧ Reads c f ∧ count = atomCount (fs ++ [f]))
    ∧ (∀ cause, ofSentences ps c ≠ .error (.evaluation cause))
    ∧ ((∃ a, ofSentences ps c = .ok a)
      ↔ ∃ fs f, List.Forall₂ Reads ps fs ∧ Reads c f ∧ atomCount (fs ++ [f]) ≤ 63)
    ∧ ∀ a, ofSentences ps c = .ok a → List.Forall₂ Reads ps a.premises ∧ Reads c a.conclusion
  := by
  refine ⟨?_, ?_, ?_, ?_, ?_, ?_⟩
  · intro i text e
    constructor
    · intro h
      obtain ⟨hbad⟩ := Fares.of_eq h
      apply hbad
    · intro hbad
      apply ofSentences_of_firstBad hbad
  · intro text e
    rw [← exists_forall₂_reads_iff]
    constructor
    · intro h
      obtain _ | ⟨hfs, he⟩ := Fares.of_eq h
      exact ⟨⟨_, hfs⟩, rfl, he⟩
    · rintro ⟨⟨fs, hfs⟩, rfl, he⟩
      apply ofSentences_of_error hfs he
  · intro count max
    constructor
    · intro h
      obtain _ | _ | ⟨hfs, hf, hlt⟩ := Fares.of_eq h
      exact ⟨rfl, hlt, _, _, hfs, hf, rfl⟩
    · rintro ⟨rfl, hlt, fs, f, hfs, hf, rfl⟩
      apply ofSentences_of_lt hfs hf hlt
  · intro cause h
    cases Fares.of_eq h
  · constructor
    · rintro ⟨a, h⟩
      obtain _ | _ | _ | ⟨hfs, hf, hle⟩ := Fares.of_eq h
      exact ⟨_, _, hfs, hf, hle⟩
    · rintro ⟨fs, f, hfs, hf, hle⟩
      obtain ⟨a, ha, -⟩ := exists_ofSentences_eq_ok hfs hf hle
      use a, ha
  · intro a h
    obtain _ | _ | _ | ⟨hfs, hf, -⟩ := Fares.of_eq h
    use hfs, hf

theorem reads_antecedent :
  Reads "P" ⟨"P", .atom "P", .strict⟩
  := by
  have htokens : Vocabulary.standard.tokenize "P" = .ok [⟨.atom, "P"⟩] := by
    apply Vocabulary.tokenize_of_splits Vocabulary.tight_standard
    simp only [Vocabulary.splits_cons_iff Vocabulary.tight_standard, Vocabulary.splits_nil_iff]
    decide
  apply Formula.parse_of_strict (by decide) htokens
  cbv

theorem reads_conditional :
  Reads "P->Q" ⟨"P->Q", .binary .implication (.atom "P") (.atom "Q"), .permissive⟩
  := by
  have htokens : Vocabulary.standard.tokenize "P->Q"
      = .ok [⟨.atom, "P"⟩, ⟨.connective .implication, "->"⟩, ⟨.atom, "Q"⟩] := by
    apply Vocabulary.tokenize_of_splits Vocabulary.tight_standard
    simp only [Vocabulary.splits_cons_iff Vocabulary.tight_standard, Vocabulary.splits_nil_iff]
    decide
  have hstrict : Sentence.parse .strict Limits.standard.maxDepth
      [⟨.atom, "P"⟩, ⟨.connective .implication, "->"⟩, ⟨.atom, "Q"⟩]
        = .error (.trailingTokens ⟨.connective .implication, "->"⟩) := by
    cbv
  apply Formula.parse_of_permissive (by decide) htokens hstrict
  cbv

theorem parse_unknown :
  Formula.parse .standard .standard "P#" = .error (.lexical (.unknownToken "#"))
  := by
  have hreaches : Vocabulary.Reaches .standard "P#".toList [⟨.atom, "P"⟩] "#".toList := by
    apply Vocabulary.Reaches.token (w := []) (t := ⟨.atom, "P"⟩) Vocabulary.blank_nil (by decide)
    apply Vocabulary.Reaches.blank (w := []) Vocabulary.blank_nil
  have hstretch : Vocabulary.Unknown .standard "#".toList "#".toList [] [] := by
    constructor
    case head | last => exact ⟨'#', by decide⟩
    all_goals decide
  have htokens : Vocabulary.standard.tokenize "P#" = .error (.unknownToken "#") :=
    Vocabulary.tokenize_of_unknown Vocabulary.tight_standard hreaches hstretch
  have htext : Text.isBlankText "P#" = false := by decide
  simp only [Formula.parse, htext, htokens]
  rfl

theorem parse_blank :
  Formula.parse .standard .standard " " = .error .empty
  := by
  rw [Formula.parse, if_pos (by decide)]

/-- Of an argument with two bad premises and a bad conclusion the first premise is reported, of one
with good premises the conclusion, and one with good texts only is made of them. -/
theorem conditional_reports_first :
  ofSentences ["P->Q", "P#", " "] " "
      = .error (.illFormedPremise 1 "P#" (.lexical (.unknownToken "#")))
    ∧ ofSentences ["P->Q", "P"] " " = .error (.illFormedConclusion " " .empty)
    ∧ ∃ a, ofSentences ["P->Q"] "P" = .ok a
      ∧ List.Forall₂ Reads ["P->Q"] a.premises ∧ Reads "P" a.conclusion
  := by
  have hbad : FirstBad ["P->Q", "P#", " "] 1 "P#" (.lexical (.unknownToken "#")) := by
    rw [firstBad_cons_iff reads_conditional]
    use 0, rfl
    apply FirstBad.head parse_unknown
  have hgood : ∀ p ∈ ["P->Q", "P"], ∃ f, Reads p f := by
    simp only [List.forall_mem_cons]
    exact ⟨⟨_, reads_conditional⟩, ⟨_, reads_antecedent⟩, by simp⟩
  have hmade : ∃ a, ofSentences ["P->Q"] "P" = .ok a := by
    obtain ⟨-, -, -, -, hok, -⟩ := ofSentences_reports_first ["P->Q"] "P"
    exact hok.mpr ⟨_, _, .cons reads_conditional .nil, reads_antecedent, by decide⟩
  obtain ⟨hpremise, -⟩ := ofSentences_reports_first ["P->Q", "P#", " "] " "
  obtain ⟨-, hconclusion, -⟩ := ofSentences_reports_first ["P->Q", "P"] " "
  obtain ⟨-, -, -, -, -, hparts⟩ := ofSentences_reports_first ["P->Q"] "P"
  obtain ⟨a, ha⟩ := hmade
  refine ⟨(hpremise _ _ _).mpr hbad, (hconclusion _ _).mpr ⟨hgood, rfl, parse_blank⟩, a, ha, ?_⟩
  apply hparts a ha

end Argument

end Sentential

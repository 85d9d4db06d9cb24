import Sentential.Proofs.Formula.Reading
import Sentential.Proofs.Sentence.Relabelling
import Sentential.Proofs.Sentence.Viable
import Sentential.Proofs.Vocabulary.Spacing

/-!
# Other spellings

Of the tokens of a text, the readers use the kinds and the names of atoms.  So texts may be read
with different vocabularies, and differ in their spellings and their blanks: as long as their tokens
are similar one by one, they make formulas of the same sentence and the same grammar, or none for
reasons that differ in the spelling of tokens only.
-/

namespace Sentential

/-- Tokens of the same kind, and with the same name if they are atoms. -/
def Token.Similar (t u : Token) : Prop := t.kind = u.kind ∧ (t.kind = .atom → t.text = u.text)

namespace Sentence

/-- Similar tokens play the same part in every grammar. -/
def Relabelling.spelling (g : Grammar) : Relabelling g where
  rel := Token.Similar
  kind := id
  bracket := id
  kind_eq h := h.1.symm
  text_eq h ht := (h.2 ht).symm
  kind_atom := rfl
  kind_negation := rfl
  kind_connective _ := rfl
  kind_opening _ := rfl
  kind_closing _ := rfl
  kind_injective := Function.injective_id
  admits_bracket _ := rfl

/-- Similar tokens form the same sentence, or none for the same reason. -/
theorem parse_of_similar (g : Grammar) (limit : Nat) {ts us : List Token}
    (h : List.Forall₂ Token.Similar ts us) :
  (∃ s, parse g limit ts = .ok s ∧ parse g limit us = .ok s)
    ∨ ∃ e e', parse g limit ts = .error e ∧ parse g limit us = .error e'
      ∧ ParseError.Alike id Token.Similar e e'
  := ((Relabelling.spelling g).parse_alike limit h).eq_ok_or_error

end Sentence

namespace Formula

open Vocabulary

variable {v v' : Vocabulary} {lim : Limits} {text text' : String} {ts us : List Token}

/-- Texts with similar tokens make formulas of the same sentence and the same grammar, or are
malformed for the same reason. -/
theorem parse_of_tokenize_similar (hts : v.tokenize text = .ok ts)
    (hus : v'.tokenize text' = .ok us) (hne : ts ≠ []) (h : List.Forall₂ Token.Similar ts us) :
  (∃ s g, parse v lim text = .ok ⟨text, s, g⟩ ∧ parse v' lim text' = .ok ⟨text', s, g⟩)
    ∨ ∃ e e', parse v lim text = .error (.malformed text e)
      ∧ parse v' lim text' = .error (.malformed text' e') ∧ ParseError.Alike id Token.Similar e e'
  := by
  have hne' : us ≠ [] := by
    rintro rfl
    cases h
    cases hne rfl
  have htext := isBlankText_of_tokenize hts hne
  have htext' := isBlankText_of_tokenize hus hne'
  obtain ⟨s, hs, hs'⟩ | ⟨e, e', he, he', -⟩ := Sentence.parse_of_similar .strict lim.maxDepth h
  · left
    use s, .strict, parse_of_strict htext hts hs, parse_of_strict htext' hus hs'
  · obtain ⟨s, hs, hs'⟩ | ⟨p, p', hp, hp', hsimilar⟩ :=
      Sentence.parse_of_similar .permissive lim.maxDepth h
    · left
      use s, .permissive, parse_of_permissive htext hts he hs,
        parse_of_permissive htext' hus he' hs'
    · right
      use p, p', parse_of_neither htext hts he hp, parse_of_neither htext' hus he' hp', hsimilar

/-- Spelling does not matter.  Similar tokens that remain form the same sentence, or none for
reasons that differ in the spelling of tokens only; and texts of similar tokens, whatever their
vocabularies, make formulas of the same sentence and the same grammar, or none for such reasons. -/
theorem parse_similar (v v' : Vocabulary) (lim : Limits) :
  (∀ (g : Grammar) (c c' : Cursor), List.Forall₂ Token.Similar c.remaining c'.remaining →
      (∃ s, Sentence.parse g lim.maxDepth c.remaining = .ok s
          ∧ Sentence.parse g lim.maxDepth c'.remaining = .ok s)
        ∨ ∃ e e', Sentence.parse g lim.maxDepth c.remaining = .error e
          ∧ Sentence.parse g lim.maxDepth c'.remaining = .error e'
          ∧ ParseError.Alike id Token.Similar e e')
    ∧ ∀ (text text' : String) (ts us : List Token), v.tokenize text = .ok ts →
      v'.tokenize text' = .ok us → ts ≠ [] → List.Forall₂ Token.Similar ts us →
      (∃ s g, parse v lim text = .ok ⟨text, s, g⟩ ∧ parse v' lim text' = .ok ⟨text', s, g⟩)
        ∨ ∃ e e', parse v lim text = .error (.malformed text e)
          ∧ parse v' lim text' = .error (.malformed text' e')
          ∧ ParseError.Alike id Token.Similar e e'
  := by
  constructor
  · intro g c c'
    apply Sentence.parse_of_similar g lim.maxDepth
  · intro text text' ts us
    apply parse_of_tokenize_similar

/-- Tokens that spell the junctions of `P&Q|R` in another way. -/
def respelledTokens : List Token :=
  [⟨.atom, "P"⟩, ⟨.connective .conjunction, ">"⟩, ⟨.atom, "Q"⟩, ⟨.connective .disjunction, "_1"⟩,
    ⟨.atom, "R"⟩]

theorem tokenize_mixed :
  Vocabulary.standard.tokenize "P&Q|R" = .ok Sentence.mixedJunctions
  := by
  apply tokenize_of_splits tight_standard
  simp only [Sentence.mixedJunctions, splits_cons_iff tight_standard, splits_nil_iff]
  decide

theorem parse_strict_mixedJunctions :
  Sentence.parse .strict 64 Sentence.mixedJunctions
    = .error (.trailingTokens ⟨.connective .conjunction, "&"⟩)
  := by
  cbv

theorem parse_mixed :
  parse .standard ⟨64, 12⟩ "P&Q|R" = .error (.malformed "P&Q|R"
    (.ambiguity ⟨.connective .conjunction, "&"⟩ ⟨.connective .disjunction, "|"⟩))
  := by
  apply parse_of_neither (by decide) tokenize_mixed parse_strict_mixedJunctions
  cbv

/-- Junctions that may not be mixed may not be mixed in other spellings, and the errors tell them
as they are spelled.  The strict grammar stops at the first one, also where a negation has been
passed. -/
theorem mixed_parse_similar :
  List.Forall₂ Token.Similar Sentence.mixedJunctions respelledTokens
    ∧ (∃ e', Sentence.parse .strict 64
        (Cursor.mk (⟨.negation, "-"⟩ :: respelledTokens) 1).remaining = .error e'
      ∧ ParseError.Alike id Token.Similar (.trailingTokens ⟨.connective .conjunction, "&"⟩) e')
    ∧ Vocabulary.standard.tokenize "P&Q|R" = .ok Sentence.mixedJunctions
    ∧ arrows.tokenize "\nP > Q _1 R" = .ok respelledTokens
    ∧ ∃ e', parse arrows ⟨64, 12⟩ "\nP > Q _1 R" = .error (.malformed "\nP > Q _1 R" e')
      ∧ ParseError.Alike id Token.Similar
        (.ambiguity ⟨.connective .conjunction, "&"⟩ ⟨.connective .disjunction, "|"⟩) e'
  := by
  have hsimilar : List.Forall₂ Token.Similar Sentence.mixedJunctions respelledTokens := by
    simp [Sentence.mixedJunctions, respelledTokens, Token.Similar]
  have hrespelled : arrows.tokenize "\nP > Q _1 R" = .ok respelledTokens := by
    apply tokenize_of_splits separable_arrows.tight
    simp only [respelledTokens, splits_cons_iff separable_arrows.tight, splits_nil_iff]
    decide
  obtain ⟨htokens, htexts⟩ := parse_similar .standard arrows ⟨64, 12⟩
  refine ⟨hsimilar, ?_, tokenize_mixed, hrespelled, ?_⟩
  · obtain ⟨s, hs, -⟩ | ⟨e, e', he, he', halike⟩ := htokens .strict ⟨Sentence.mixedJunctions, 0⟩
      ⟨⟨.negation, "-"⟩ :: respelledTokens, 1⟩ hsimilar
    · cases parse_strict_mixedJunctions.symm.trans hs
    · cases parse_strict_mixedJunctions.symm.trans he
      use e', he', halike
  · obtain ⟨s, g, hs, -⟩ | ⟨e, e', he, he', halike⟩ :=
      htexts _ _ _ _ tokenize_mixed hrespelled (by simp [Sentence.mixedJunctions]) hsimilar
    · cases parse_mixed.symm.trans hs
    · cases parse_mixed.symm.trans he
      use e', he', halike

end Formula

end Sentential

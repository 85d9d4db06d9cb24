import Sentential.Formula.Basic
import Sentential.Proofs.Sentence.DepthLimit

/-!
# Reading formulas

The three ways in which a text with tokens may fare: the strict grammar accepts it, the
permissive one alone does, or neither.  Under a larger depth limit it fares the same, unless
the smaller limit has been exceeded; in that case it has been exceeded in both grammars, so
that a text is never taken for a permissive formula for want of depth.
-/

namespace Sentential

namespace Formula

variable {v : Vocabulary} {lim lim' : Limits} {text : String} {ts : List Token}

theorem parse_of_strict {s : Sentence} (htext : Text.isBlankText text = false)
    (hts : v.tokenize text = .ok ts) (h : Sentence.parse .strict lim.maxDepth ts = .ok s) :
  parse v lim text = .ok ⟨text, s, .strict⟩
  := by
  simp only [parse, htext, hts, h]
  rfl

theorem parse_of_permissive {s : Sentence} {e : ParseError}
    (htext : Text.isBlankText text = false) (hts : v.tokenize text = .ok ts)
    (he : Sentence.parse .strict lim.maxDepth ts = .error e)
    (h : Sentence.parse .permissive lim.maxDepth ts = .ok s) :
  parse v lim text = .ok ⟨text, s, .permissive⟩
  := by
  simp only [parse, htext, hts, he, h]
  rfl

theorem parse_of_neither {e e' : ParseError} (htext : Text.isBlankText text = false)
    (hts : v.tokenize text = .ok ts) (he : Sentence.parse .strict lim.maxDepth ts = .error e)
    (he' : Sentence.parse .permissive lim.maxDepth ts = .error e') :
  parse v lim text = .error (.malformed text e')
  := by
  simp only [parse, htext, hts, he, he']
  rfl

/-- Tokens that exceed the limit for the strict grammar make a malformed text. -/
theorem parse_of_strict_depthExceeded {n : Nat} (htext : Text.isBlankText text = false)
    (hts : v.tokenize text = .ok ts)
    (h : Sentence.parse .strict lim.maxDepth ts = .error (.depthExceeded n)) :
  parse v lim text = .error (.malformed text (.depthExceeded lim.maxDepth))
  := parse_of_neither htext hts h (Sentence.parse_permissive_eq_depthExceeded h)

/-- The tokens of a text fare alike under two limits, unless they exceed the smaller. -/
theorem parse_agrees_of_tokenize (hdepth : lim.maxDepth ≤ lim'.maxDepth)
    (htext : Text.isBlankText text = false) (hts : v.tokenize text = .ok ts) :
  parse v lim' text = parse v lim text
    ∨ parse v lim text = .error (.malformed text (.depthExceeded lim.maxDepth))
  := by
  obtain hstrict | ⟨hstrict, -⟩ := Sentence.parse_agrees .strict hdepth ts
  · exact .inr (parse_of_strict_depthExceeded htext hts hstrict)
  · cases hs : Sentence.parse .strict lim.maxDepth ts with
    | ok s =>
        rw [hs] at hstrict
        rw [parse_of_strict htext hts hs, parse_of_strict htext hts hstrict]
        exact .inl rfl
    | error e =>
        rw [hs] at hstrict
        obtain hpermissive | ⟨hpermissive, -⟩ := Sentence.parse_agrees .permissive hdepth ts
        · exact .inr (parse_of_neither htext hts hs hpermissive)
        · cases hp : Sentence.parse .permissive lim.maxDepth ts with
          | ok s =>
              rw [hp] at hpermissive
              rw [parse_of_permissive htext hts hs hp,
                parse_of_permissive htext hts hstrict hpermissive]
              exact .inl rfl
          | error e' =>
              rw [hp] at hpermissive
              rw [parse_of_neither htext hts hs hp, parse_of_neither htext hts hstrict hpermissive]
              exact .inl rfl

/-- A text that is malformed for a reason other than depth, or that makes a formula, does so
under every larger depth limit.  Depth is never exceeded in the strict grammar only. -/
theorem parse_eq_or_depthExceeded (v : Vocabulary) (text : String)
    (hdepth : lim.maxDepth ≤ lim'.maxDepth) :
  (parse v lim' text = parse v lim text
      ∨ parse v lim text = .error (.malformed text (.depthExceeded lim.maxDepth)))
    ∧ ∀ (c : Cursor) (n : Nat),
      Sentence.parse .strict lim.maxDepth c.remaining = .error (.depthExceeded n) →
      Sentence.parse .permissive lim.maxDepth c.remaining = .error (.depthExceeded lim.maxDepth)
  := by
  constructor
  · cases htext : Text.isBlankText text with
    | true => simp [parse, htext]
    | false =>
        cases hts : v.tokenize text with
        | error e => simp [parse, htext, hts]
        | ok ts => apply parse_agrees_of_tokenize hdepth htext hts
  · intro c n
    apply Sentence.parse_permissive_eq_depthExceeded

/-- What two levels and what 64 levels make of two conjunctions. -/
theorem parse_conjunctions_eq_or_depthExceeded :
  2 ≤ 64
    ∧ (parse .standard ⟨64, 12⟩ "P & Q & R" = parse .standard ⟨2, 12⟩ "P & Q & R"
      ∨ parse .standard ⟨2, 12⟩ "P & Q & R" = .error (.malformed "P & Q & R" (.depthExceeded 2)))
    ∧ ∀ (c : Cursor) (n : Nat),
      Sentence.parse .strict 2 c.remaining = .error (.depthExceeded n) →
      Sentence.parse .permissive 2 c.remaining = .error (.depthExceeded 2)
  := by
  have hdepth : (⟨2, 12⟩ : Limits).maxDepth ≤ (⟨64, 12⟩ : Limits).maxDepth := by decide
  refine ⟨hdepth, ?_⟩
  apply parse_eq_or_depthExceeded .standard "P & Q & R" hdepth

end Formula

end Sentential

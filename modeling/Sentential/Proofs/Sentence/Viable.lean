import Sentential.Limits
import Sentential.Proofs.Sentence.DepthLimit
import Sentential.Proofs.Sentence.Lookahead

/-!
# Viable tokens

Tokens are viable under a limit when some tokens behind them complete them to a sentence that
the limit admits.  Every error of the grammars is found as early as can be: the tokens before
the offending one are viable, and with it they are not, under any limit; at the end of the
tokens all of them are viable; and tokens that exceed the depth are not viable under the limit.
-/

namespace Sentential

namespace Sentence

variable {g : Grammar} {limit : Nat} {t : Token} {us ts : List Token}

/-- Tokens that begin a list of tokens that a grammar accepts under a limit. -/
def Viable (g : Grammar) (limit : Nat) (us : List Token) : Prop :=
  ∃ vs s, parse g limit (us ++ vs) = .ok s

/-- What an outcome for a whole list of tokens entails for lists that begin alike. -/
inductive Diagnosed (g : Grammar) (limit : Nat) (ts : List Token) :
    Except ParseError Sentence → Prop
  | ok (s : Sentence) : Diagnosed g limit ts (.ok s)
  | token {e : ParseError} {t : Token} {us vs : List Token} (he : e.offending? = some t)
      (hts : ts = us ++ t :: vs) (hus : Viable g limit us)
      (h : ∀ vs', parse g limit (us ++ t :: vs') = .error e) : Diagnosed g limit ts (.error e)
  | atEnd {e : ParseError} (he : e.AtEnd) (hts : Viable g limit ts) :
      Diagnosed g limit ts (.error e)
  | depth (h : ∀ vs, parse g limit (ts ++ vs) = .error (.depthExceeded limit)) :
      Diagnosed g limit ts (.error (.depthExceeded limit))

/-! ### From a reader to whole lists of tokens -/

section Whole

variable {R : Reader Sentence} {k : Nat}

theorem parse_of_ok {s : Sentence} (hR : ∀ ts, parse g limit ts = (R ts).bind finish)
    (h : R ts = .ok (s, [])) :
  parse g limit ts = .ok s
  := by
  rw [hR, h, ok_bind, finish]

theorem parse_of_error {e : ParseError} (hR : ∀ ts, parse g limit ts = (R ts).bind finish)
    (h : R ts = .error e) :
  parse g limit ts = .error e
  := by
  rw [hR, h, error_bind]

/-- Tokens that can be completed for the reader of whole sentences are viable, for nothing need
follow. -/
theorem Completable.viable (hR : ∀ ts, parse g limit ts = (R ts).bind finish)
    (h : Completable R k us) :
  Viable g limit us
  := by
  obtain ⟨vs, s, hread⟩ := h
  use vs, s
  have hnil := hread [] (by simp [Free])
  rw [List.append_nil] at hnil
  apply parse_of_ok hR hnil

/-- A settled outcome of the reader of whole sentences carries over.  Tokens that are left over
make the first of them offend. -/
theorem Settled.diagnosed (hR : ∀ ts, parse g limit ts = (R ts).bind finish)
    (h : Settled limit R k ts (R ts)) :
  Diagnosed g limit ts (parse g limit ts)
  := by
  generalize hx : R ts = x at h
  cases h with
  | @ok s us rest hts hrest hread =>
      cases rest with
      | nil =>
          rw [parse_of_ok hR hx]
          apply Diagnosed.ok
      | cons t rest =>
          have htrailing : ∀ vs, parse g limit (us ++ t :: vs) = .error (.trailingTokens t) := by
            intro vs
            rw [hR, hread _ (hrest.cons_congr vs), ok_bind, finish]
          rw [hts, htrailing]
          apply Diagnosed.token rfl rfl _ htrailing
          use [], s
          apply parse_of_ok hR
          apply hread
          simp [Free]
  | token us he hts hus hread =>
      rw [parse_of_error hR hx]
      apply Diagnosed.token he hts (hus.viable hR)
      intro vs
      apply parse_of_error hR (hread vs)
  | atEnd he hcomplete =>
      rw [parse_of_error hR hx]
      apply Diagnosed.atEnd he (hcomplete.viable hR)
  | depth hdepth =>
      rw [parse_of_error hR hx]
      apply Diagnosed.depth
      intro vs
      apply parse_of_error hR (hdepth vs)

end Whole

theorem parse_diagnosed (g : Grammar) (limit : Nat) (ts : List Token) :
  Diagnosed g limit ts (parse g limit ts)
  := by
  cases g with
  | strict => apply ((reader_settled .strict limit).1 0 ts).diagnosed (parse_strict limit)
  | permissive =>
      apply ((reader_settled .permissive limit).2.2.1 0 0 ts).diagnosed (parse_permissive limit)

/-! ### Tokens that are not viable -/

/-- An error that is not of depth is the same under every limit that is not exceeded, so that
tokens with such an error, whatever follows them, are viable under no limit. -/
theorem not_viable_of_error {e : ParseError} (he : ∀ n, e ≠ .depthExceeded n)
    (h : ∀ vs, parse g limit (us ++ vs) = .error e) (limit' : Nat) :
  ¬ Viable g limit' us
  := by
  rintro ⟨vs, s, hs⟩
  have herror := h vs
  rcases Nat.le_total limit limit' with hle | hle
  · obtain hdepth | ⟨hagree, -⟩ := parse_agrees g hle (us ++ vs)
    · rw [herror] at hdepth
      cases hdepth
      cases he limit rfl
    · rw [herror, hs] at hagree
      cases hagree
  · obtain hdepth | ⟨hagree, -⟩ := parse_agrees g hle (us ++ vs)
    · rw [hs] at hdepth
      cases hdepth
    · rw [herror, hs] at hagree
      cases hagree

theorem ne_depthExceeded_of_offending? {e : ParseError} (he : e.offending? = some t) (n : Nat) :
  e ≠ .depthExceeded n
  := by
  rintro rfl
  cases he

/-! ### Diagnoses -/

/-- The offending token of an error is the first that no sentence has there: the tokens before it
are viable, and with it they are viable under no limit. -/
theorem viable_of_offending? {e : ParseError} (h : parse g limit ts = .error e)
    (he : e.offending? = some t) :
  ∃ us vs, ts = us ++ [t] ++ vs ∧ Viable g limit us ∧ ∀ limit', ¬ Viable g limit' (us ++ [t])
  := by
  have hdiagnosed := parse_diagnosed g limit ts
  rw [h] at hdiagnosed
  cases hdiagnosed with
  | @token _ u us vs hu hts hus hread =>
      rw [hu] at he
      cases he
      refine ⟨us, vs, by simpa using hts, hus, ?_⟩
      apply not_viable_of_error (ne_depthExceeded_of_offending? hu)
      intro vs'
      rw [List.append_assoc, List.singleton_append]
      apply hread
  | atEnd hend _ => cases hend <;> cases he
  | depth _ => cases he

/-- An error at the end of viable tokens, which want more behind them. -/
theorem viable_of_atEnd {e : ParseError} (h : parse g limit ts = .error e) (he : e.AtEnd) :
  Viable g limit ts
  := by
  have hdiagnosed := parse_diagnosed g limit ts
  rw [h] at hdiagnosed
  cases hdiagnosed with
  | token ht _ _ _ => cases he <;> cases ht
  | atEnd _ hts => apply hts
  | depth _ => cases he

/-- Tokens that exceed the limit exceed it whatever follows. -/
theorem not_viable_of_depthExceeded {n : Nat} (h : parse g limit ts = .error (.depthExceeded n)) :
  ¬ Viable g limit ts
  := by
  have hdiagnosed := parse_diagnosed g limit ts
  rw [h] at hdiagnosed
  cases hdiagnosed with
  | token ht _ _ _ => cases ht
  | atEnd hend _ => cases hend
  | depth hdepth =>
      rintro ⟨vs, s, hs⟩
      rw [hdepth vs] at hs
      cases hs

/-- Every error is found at the first token that can belong to no sentence, or behind tokens
that some sentence begins with, or for want of depth, without which no sentence begins so. -/
theorem viable_of_parse_eq_error {c : Cursor} {lim : Limits} {e : ParseError}
    (h : parse g lim.maxDepth c.remaining = .error e) :
  (∀ t, e.offending? = some t → ∃ us vs, c.remaining = us ++ [t] ++ vs
      ∧ Viable g lim.maxDepth us ∧ ∀ limit, ¬ Viable g limit (us ++ [t]))
    ∧ (e.AtEnd → Viable g lim.maxDepth c.remaining
      ∧ ∀ s, parse g lim.maxDepth c.remaining ≠ .ok s)
    ∧ ∀ n, e = .depthExceeded n → n = lim.maxDepth ∧ ¬ Viable g lim.maxDepth c.remaining
  := by
  refine ⟨?_, ?_, ?_⟩
  · intro t ht
    apply viable_of_offending? h ht
  · intro hend
    use viable_of_atEnd h hend
    intro s
    simp [h]
  · rintro n rfl
    use eq_of_parse_eq_depthExceeded h
    apply not_viable_of_depthExceeded h

/-- A conjunction with a disjunction behind it. -/
def mixedJunctions : List Token :=
  [⟨.atom, "P"⟩, ⟨.connective .conjunction, "&"⟩, ⟨.atom, "Q"⟩, ⟨.connective .disjunction, "|"⟩,
    ⟨.atom, "R"⟩]

theorem viable_of_mixedJunctions :
  parse .permissive 2 mixedJunctions
      = .error (.ambiguity ⟨.connective .conjunction, "&"⟩ ⟨.connective .disjunction, "|"⟩)
    ∧ ∃ us vs, mixedJunctions = us ++ [⟨.connective .disjunction, "|"⟩] ++ vs
      ∧ Viable .permissive 2 us
      ∧ ∀ limit, ¬ Viable .permissive limit (us ++ [⟨.connective .disjunction, "|"⟩])
  := by
  have herror :
      parse .permissive (⟨2, 12⟩ : Limits).maxDepth (Cursor.ofList mixedJunctions).remaining
        = .error (.ambiguity ⟨.connective .conjunction, "&"⟩ ⟨.connective .disjunction, "|"⟩) := by
    cbv
  use herror
  apply (viable_of_parse_eq_error herror).1
  rfl

end Sentence

end Sentential

import Sentential.Proofs.Sentence.Reader
import Mathlib.Data.List.Forall2

/-!
# Tokens that are read alike

Of a token the readers use its kind and, if it is an atom, its text.  A *relabelling* relates tokens
whose kinds play the same part in a grammar and which have the same text if they are atoms.  Lists
of tokens that are related one by one are read alike: as the same sentence, or with errors of one
form whose tokens are related.  Every reader hands this on to the readers that call it.
-/

namespace Sentential

/-- Errors of the same form.  Their kinds are related by the map `φ` and their tokens by `R`. -/
inductive ParseError.Alike (φ : Token.Kind → Token.Kind) (R : Token → Token → Prop) :
    ParseError → ParseError → Prop
  | unexpectedEnd : Alike φ R .unexpectedEnd .unexpectedEnd
  | unexpectedEndExpecting (k : Token.Kind) :
      Alike φ R (.unexpectedEndExpecting k) (.unexpectedEndExpecting (φ k))
  | mismatch (k : Token.Kind) {t u : Token} (h : R t u) :
      Alike φ R (.mismatch k t) (.mismatch (φ k) u)
  | expectedConnective {t u : Token} (h : R t u) :
      Alike φ R (.expectedConnective t) (.expectedConnective u)
  | unexpectedToken {t u : Token} (h : R t u) : Alike φ R (.unexpectedToken t) (.unexpectedToken u)
  | trailingTokens {t u : Token} (h : R t u) : Alike φ R (.trailingTokens t) (.trailingTokens u)
  | ambiguity {t t' u u' : Token} (h : R t u) (h' : R t' u') :
      Alike φ R (.ambiguity t t') (.ambiguity u u')
  | depthExceeded (n : Nat) : Alike φ R (.depthExceeded n) (.depthExceeded n)

namespace Sentence

/-- A relation between tokens that play the same part in a grammar.  Their kinds are related by a
map that changes the shapes of brackets only. -/
structure Relabelling (g : Grammar) where
  /-- The related tokens. -/
  rel : Token → Token → Prop
  /-- The kind that takes the place of a kind. -/
  kind : Token.Kind → Token.Kind
  /-- The shape of brackets that takes the place of a shape. -/
  bracket : Bracket → Bracket
  kind_eq {t u : Token} : rel t u → u.kind = kind t.kind
  text_eq {t u : Token} : rel t u → t.kind = .atom → u.text = t.text
  kind_atom : kind .atom = .atom
  kind_negation : kind .negation = .negation
  kind_connective (c : Connective) : kind (.connective c) = .connective c
  kind_opening (b : Bracket) : kind (.opening b) = .opening (bracket b)
  kind_closing (b : Bracket) : kind (.closing b) = .closing (bracket b)
  kind_injective : Function.Injective kind
  admits_bracket (b : Bracket) : g.admits (bracket b) = g.admits b

namespace Relabelling

variable {g : Grammar} (r : Relabelling g) {α β γ δ : Type}

/-- Outcomes that are alike: values that `S` relates, or errors of the same form. -/
inductive Alike (S : α → β → Prop) : Except ParseError α → Except ParseError β → Prop
  | ok {a : α} {b : β} (h : S a b) : Alike S (.ok a) (.ok b)
  | error {e e' : ParseError} (h : ParseError.Alike r.kind r.rel e e') :
      Alike S (.error e) (.error e')

/-- The same value, with related tokens behind it. -/
def Rest (p q : α × List Token) : Prop := p.1 = q.1 ∧ List.Forall₂ r.rel p.2 q.2

variable {r} {S : α → β → Prop} {S' : γ → δ → Prop} {x : Except ParseError α}
  {y : Except ParseError β}

theorem Alike.bind {f : α → Except ParseError γ} {f' : β → Except ParseError δ}
    (h : r.Alike S x y) (hf : ∀ a b, x = .ok a → S a b → r.Alike S' (f a) (f' b)) :
  r.Alike S' (x.bind f) (y.bind f')
  := by
  cases h with
  | ok hab => apply hf _ _ rfl hab
  | error he => apply Alike.error he

theorem Alike.map {f : α → γ} {f' : β → δ} (h : r.Alike S x y)
    (hf : ∀ a b, S a b → S' (f a) (f' b)) :
  r.Alike S' (x.map f) (y.map f')
  := by
  cases h with
  | ok hab => apply Alike.ok (hf _ _ hab)
  | error he => apply Alike.error he

/-- Outcomes that are alike are the same value or errors of the same form. -/
theorem Alike.eq_ok_or_error {x y : Except ParseError α} (h : r.Alike Eq x y) :
  (∃ a, x = .ok a ∧ y = .ok a)
    ∨ ∃ e e', x = .error e ∧ y = .error e' ∧ ParseError.Alike r.kind r.rel e e'
  := by
  cases h with
  | @ok a b hab =>
      left
      use a, rfl
      rw [hab]
  | @error e e' he =>
      right
      use e, e', rfl, rfl, he

variable {t u : Token} {ts us : List Token} {last? last?' : Option Token} {limit d least : Nat}
  {b : Bracket}

/-! ### Kinds -/

theorem connective?_kind (r : Relabelling g) (k : Token.Kind) :
  (r.kind k).connective? = k.connective?
  := by
  cases k with
  | atom => rw [r.kind_atom]
  | negation => rw [r.kind_negation]
  | connective c => rw [r.kind_connective]
  | opening b =>
      rw [r.kind_opening]
      rfl
  | closing b =>
      rw [r.kind_closing]
      rfl

theorem kind_eq_connective_iff (h : r.rel t u) {c : Connective} :
  u.kind = .connective c ↔ t.kind = .connective c
  := by
  rw [← connective?_eq_some_iff, ← connective?_eq_some_iff, r.kind_eq h, r.connective?_kind]

theorem kind_eq_closing_iff (h : r.rel t u) :
  u.kind = .closing (r.bracket b) ↔ t.kind = .closing b
  := by
  rw [r.kind_eq h, ← r.kind_closing, r.kind_injective.eq_iff]

theorem begins_iff (h : r.rel t u) :
  Begins g u.kind ↔ Begins g t.kind
  := by
  rw [r.kind_eq h]
  cases t.kind with
  | atom => rw [r.kind_atom]
  | negation => rw [r.kind_negation]
  | connective c => rw [r.kind_connective]
  | opening b => rw [r.kind_opening, Begins, Begins, r.admits_bracket]
  | closing b =>
      rw [r.kind_closing]
      rfl

theorem free_of_rel (h : List.Forall₂ r.rel ts us) (hfree : Free least ts) :
  Free least us
  := by
  cases h with
  | nil => simp [Free]
  | @cons t u ts us htu _ =>
      rintro _ ⟨⟩ c hc
      apply hfree t rfl c
      apply (kind_eq_connective_iff htu).mp hc

/-! ### The parts of readers -/

/-- The junctions that are remembered conflict with related connectives alike. -/
theorem rel_conflict? (hlast : Option.Rel r.rel last? last?') (h : r.rel t u) (c : Connective) :
  Option.Rel r.rel (conflict? last? c t) (conflict? last?' c u)
  := by
  cases hlast with
  | none => apply Option.Rel.none
  | @some v w hvw =>
      have hkind : w.kind = u.kind ↔ v.kind = t.kind := by
        rw [r.kind_eq hvw, r.kind_eq h, r.kind_injective.eq_iff]
      simp only [conflict?, Option.filter_some, ne_eq, hkind]
      split
      · apply Option.Rel.some hvw
      · apply Option.Rel.none

theorem rel_remember (h : r.rel t u) (c : Connective) :
  Option.Rel r.rel (remember c t) (remember c u)
  := by
  rw [remember, remember]
  split
  · apply Option.Rel.some h
  · apply Option.Rel.none

theorem alike_joint (h : List.Forall₂ r.rel ts us) :
  r.Alike r.Rest (joint ts) (joint us)
  := by
  cases h with
  | nil => apply Alike.error .unexpectedEnd
  | @cons t u ts us htu hrest =>
      rw [joint, joint, r.kind_eq htu, r.connective?_kind]
      cases t.kind.connective? with
      | none => apply Alike.error (.expectedConnective htu)
      | some c => apply Alike.ok ⟨rfl, hrest⟩

theorem alike_close (s : Sentence) (h : List.Forall₂ r.rel ts us) :
  r.Alike r.Rest (close b (s, ts)) (close (r.bracket b) (s, us))
  := by
  cases h with
  | nil =>
      have herror := ParseError.Alike.unexpectedEndExpecting (φ := r.kind) (R := r.rel) (.closing b)
      rw [r.kind_closing] at herror
      apply Alike.error herror
  | @cons t u ts us htu hrest =>
      rw [close, close]
      simp only [kind_eq_closing_iff htu]
      split
      · apply Alike.ok ⟨rfl, hrest⟩
      · have herror := ParseError.Alike.mismatch (φ := r.kind) (.closing b) htu
        rw [r.kind_closing] at herror
        apply Alike.error herror

theorem alike_finish {p q : Sentence × List Token} (h : r.Rest p q) :
  r.Alike Eq (finish p) (finish q)
  := by
  obtain ⟨s, ts⟩ := p
  obtain ⟨s', us⟩ := q
  obtain ⟨rfl, hrest⟩ := h
  cases hrest with
  | nil => apply Alike.ok rfl
  | cons htu _ => apply Alike.error (.trailingTokens htu)

/-! ### The readers -/

theorem alike_primary (d : Nat) (h : List.Forall₂ r.rel ts us)
    (ihP : ∀ vs, vs.length < ts.length → ∀ ws, List.Forall₂ r.rel vs ws →
      r.Alike r.Rest (primary g limit (d + 1) vs) (primary g limit (d + 1) ws))
    (ihG : ∀ vs, vs.length < ts.length → ∀ b ws, List.Forall₂ r.rel vs ws →
      r.Alike r.Rest (group g limit (d + 1) b vs) (group g limit (d + 1) (r.bracket b) ws)) :
  r.Alike r.Rest (primary g limit d ts) (primary g limit d us)
  := by
  rcases Nat.lt_or_ge d limit with hd | hd
  · cases h with
    | nil =>
        rw [primary_nil hd]
        apply Alike.error .unexpectedEnd
    | @cons t u ts us htu hrest =>
        have hu := r.kind_eq htu
        obtain ht | ht | ⟨b, ht, hb⟩ | ht := begins_cases g t.kind
        · rw [ht, r.kind_atom] at hu
          rw [primary_atom hd ht, primary_atom hd hu, r.text_eq htu ht]
          apply Alike.ok ⟨rfl, hrest⟩
        · rw [ht, r.kind_negation] at hu
          rw [primary_negation hd ht, primary_negation hd hu]
          apply (ihP ts (Nat.lt_succ_self _) us hrest).map
          rintro ⟨s, vs⟩ ⟨s', ws⟩ ⟨rfl, hvs⟩
          exact ⟨rfl, hvs⟩
        · rw [ht, r.kind_opening] at hu
          rw [primary_opening hd ht hb, primary_opening hd hu (by rw [r.admits_bracket, hb])]
          apply ihG ts (Nat.lt_succ_self _) b us hrest
        · have hu' : ¬ Begins g u.kind := fun h => ht ((begins_iff htu).mp h)
          rw [primary_of_not_begins hd ht, primary_of_not_begins hd hu']
          apply Alike.error (.unexpectedToken htu)
  · rw [primary_of_le hd, primary_of_le hd]
    apply Alike.error (.depthExceeded limit)

theorem alike_tail (left : Sentence) (hlast : Option.Rel r.rel last? last?')
    (h : List.Forall₂ r.rel ts us)
    (ihO : ∀ vs, vs.length < ts.length → ∀ least' ws, List.Forall₂ r.rel vs ws →
      r.Alike r.Rest (operands g limit (d + 1) least' vs) (operands g limit (d + 1) least' ws))
    (ihT : ∀ vs, vs.length < ts.length → ∀ left' last? last?' ws, Option.Rel r.rel last? last?' →
      List.Forall₂ r.rel vs ws →
      r.Alike r.Rest (tail g limit d least left' last? vs) (tail g limit d least left' last?' ws)) :
  r.Alike r.Rest (tail g limit d least left last? ts) (tail g limit d least left last?' us)
  := by
  obtain hfree | ⟨t, ts, c, rfl, ht, hc⟩ := free_or_connective least ts
  · rw [tail_of_free hfree, tail_of_free (free_of_rel h hfree)]
    apply Alike.ok ⟨rfl, h⟩
  · obtain _ | ⟨htu, hrest⟩ := h
    rename_i u us
    have hu := (kind_eq_connective_iff htu).mpr ht
    have hconflict := rel_conflict? hlast htu c
    cases hv : conflict? last? c t with
    | some v =>
        cases hw : conflict? last?' c u with
        | none =>
            rw [hv, hw] at hconflict
            cases hconflict
        | some w =>
            rw [hv, hw] at hconflict
            rw [tail_of_conflict ht hc hv, tail_of_conflict hu hc hw]
            cases hconflict with
            | some hvw => apply Alike.error (.ambiguity hvw htu)
    | none =>
        cases hw : conflict? last?' c u with
        | some w =>
            rw [hv, hw] at hconflict
            cases hconflict
        | none =>
            rw [tail_of_connective ht hc hv, tail_of_connective hu hc hw]
            apply (ihO ts (Nat.lt_succ_self _) _ us hrest).bind
            rintro ⟨s, vs⟩ ⟨s', ws⟩ hs ⟨rfl, hvs⟩
            apply ihT vs (Nat.lt_succ_of_lt (length_lt_of_operands hs)) _ _ _ ws
              (rel_remember htu c) hvs

/-- Every reader reads related tokens alike. -/
theorem reader_alike (r : Relabelling g) (limit : Nat) :
  (∀ d ts us, List.Forall₂ r.rel ts us →
      r.Alike r.Rest (primary g limit d ts) (primary g limit d us))
    ∧ (∀ d b ts us, List.Forall₂ r.rel ts us →
      r.Alike r.Rest (group g limit d b ts) (group g limit d (r.bracket b) us))
    ∧ (∀ d least ts us, List.Forall₂ r.rel ts us →
      r.Alike r.Rest (operands g limit d least ts) (operands g limit d least us))
    ∧ ∀ d least left last? ts last?' us, Option.Rel r.rel last? last?' →
      List.Forall₂ r.rel ts us →
      r.Alike r.Rest (tail g limit d least left last? ts) (tail g limit d least left last?' us)
  := by
  apply reader_induction
  · intro d ts ihP ihG us h
    apply alike_primary d h ihP ihG
  · intro d b ts ihP ihP' ihO us h
    cases g with
    | permissive =>
        rw [group_permissive, group_permissive]
        apply (ihO us h).bind
        rintro ⟨s, vs⟩ ⟨s', ws⟩ _ ⟨rfl, hvs⟩
        apply alike_close s hvs
    | strict =>
        rw [group_strict, group_strict]
        apply (ihP us h).bind
        rintro ⟨l, vs⟩ ⟨l', ws⟩ hl ⟨rfl, hvs⟩
        apply (alike_joint hvs).bind
        rintro ⟨c, vs'⟩ ⟨c', ws'⟩ hc ⟨rfl, hvs'⟩
        have hlt := Nat.lt_trans (length_lt_of_joint hc) (length_lt_of_primary hl)
        apply (ihP' vs' hlt ws' hvs').bind
        rintro ⟨s, vs''⟩ ⟨s', ws''⟩ _ ⟨rfl, hvs''⟩
        apply alike_close _ hvs''
  · intro d least ts ihP ihT us h
    rw [operands_eq, operands_eq]
    apply (ihP us h).bind
    rintro ⟨l, vs⟩ ⟨l', ws⟩ hl ⟨rfl, hvs⟩
    apply ihT vs (length_lt_of_primary hl) l none ws .none hvs
  · intro d least left last? ts ihO ihT last?' us hlast h
    apply alike_tail left hlast h ihO
    intro vs hvs left' v w ws hvw hws
    apply ihT vs hvs left' v w ws hvw hws

/-- Related tokens form the same sentence, or none for reasons that are alike. -/
theorem parse_alike (r : Relabelling g) (limit : Nat) (h : List.Forall₂ r.rel ts us) :
  r.Alike Eq (parse g limit ts) (parse g limit us)
  := by
  cases g with
  | strict =>
      rw [parse_strict, parse_strict]
      apply ((r.reader_alike limit).1 0 ts us h).bind
      intro p q _
      apply alike_finish
  | permissive =>
      rw [parse_permissive, parse_permissive]
      apply ((r.reader_alike limit).2.2.1 0 0 ts us h).bind
      intro p q _
      apply alike_finish

end Relabelling

end Sentence

end Sentential

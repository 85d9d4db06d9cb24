import Sentential.Proofs.Outcome
import Sentential.Sentence.Parser

/-!
# The readers without their bounds

The readers of sentences carry a proof that few tokens are left.  Here they are seen without
it: `primary`, `group`, `operands` and `tail` return a sentence and the tokens behind it.
The equations of this module say what each does in terms of the others, and
`reader_induction` is the induction that their recursion follows.
-/

namespace Sentential

namespace Sentence

/-- A sentence with the tokens behind it, or the reason why none could be read. -/
abbrev Outcome := Except ParseError (Sentence × List Token)

/-- The outcome of a reading, without the bound on the tokens that are left. -/
def Reading.outcome {n : Nat} (r : Except ParseError (Reading n)) : Outcome :=
  r.map fun r => (r.sentence, r.rest)

/-- An atom, a negated sentence or a group. -/
def primary (g : Grammar) (limit d : Nat) (ts : List Token) : Outcome :=
  Reading.outcome (readPrimary g limit d ts)

/-- The inside of a group and the bracket that closes it. -/
def group (g : Grammar) (limit d : Nat) (b : Bracket) (ts : List Token) : Outcome :=
  Reading.outcome (readGroup g limit d b ts)

/-- Operands joined by connectives, none of a level below `least`. -/
def operands (g : Grammar) (limit d least : Nat) (ts : List Token) : Outcome :=
  Reading.outcome (readBinary g limit d least ts)

/-- The connectives and operands that follow a sentence. -/
def tail (g : Grammar) (limit d least : Nat) (left : Sentence) (last? : Option Token)
    (ts : List Token) : Outcome :=
  Reading.outcome (readTail g limit d least left last? ts)

/-- The connective that must stand between the operands of a group. -/
def joint : List Token → Except ParseError (Connective × List Token)
  | [] => .error .unexpectedEnd
  | t :: ts =>
    match t.kind.connective? with
    | none => .error (.expectedConnective t)
    | some c => .ok (c, ts)

/-- The bracket that must stand behind the inside of a group. -/
def close (b : Bracket) : Sentence × List Token → Outcome
  | (_, []) => .error (.unexpectedEndExpecting (.closing b))
  | (s, t :: ts) => if t.kind = .closing b then .ok (s, ts) else .error (.mismatch (.closing b) t)

variable {g : Grammar} {limit d least : Nat} {b : Bracket} {left : Sentence}
  {last? : Option Token} {t : Token} {ts : List Token}

/-! ### The tokens that are left -/

theorem Reading.length_lt_of_outcome {n : Nat} {r : Except ParseError (Reading n)}
    {p : Sentence × List Token} (h : outcome r = .ok p) :
  p.2.length < n
  := by
  cases r with
  | error e => cases h
  | ok r =>
      cases h
      apply r.rest_lt

theorem length_lt_of_primary {p : Sentence × List Token} (h : primary g limit d ts = .ok p) :
  p.2.length < ts.length
  := Reading.length_lt_of_outcome h

theorem length_lt_of_operands {p : Sentence × List Token}
    (h : operands g limit d least ts = .ok p) :
  p.2.length < ts.length
  := Reading.length_lt_of_outcome h

/-! ### Primaries -/

theorem primary_of_le (h : limit ≤ d) :
  primary g limit d ts = .error (.depthExceeded limit)
  := by
  rw [primary, readPrimary.eq_def, if_pos h]
  rfl

theorem primary_nil (h : d < limit) :
  primary g limit d [] = .error .unexpectedEnd
  := by
  rw [primary, readPrimary, if_neg (Nat.not_le.mpr h)]
  rfl

theorem primary_atom (h : d < limit) (ht : t.kind = .atom) :
  primary g limit d (t :: ts) = .ok (.atom t.text, ts)
  := by
  rw [primary, readPrimary, if_neg (Nat.not_le.mpr h)]
  simp only [ht]
  rfl

theorem primary_negation (h : d < limit) (ht : t.kind = .negation) :
  primary g limit d (t :: ts) = (primary g limit (d + 1) ts).map fun p => (.negation p.1, p.2)
  := by
  rw [primary, readPrimary, if_neg (Nat.not_le.mpr h)]
  simp only [ht, primary]
  cases readPrimary g limit (d + 1) ts <;> rfl

theorem primary_opening (h : d < limit) (ht : t.kind = .opening b) (hb : g.admits b = true) :
  primary g limit d (t :: ts) = group g limit (d + 1) b ts
  := by
  rw [primary, readPrimary, if_neg (Nat.not_le.mpr h)]
  simp only [ht, hb, if_true, group]
  cases readGroup g limit (d + 1) b ts <;> rfl

/-- Whether a sentence may begin with a token of a kind. -/
def Begins (g : Grammar) : Token.Kind → Prop
  | .atom | .negation => True
  | .opening b => g.admits b = true
  | .connective _ | .closing _ => False

theorem begins_cases (g : Grammar) (k : Token.Kind) :
  k = .atom ∨ k = .negation ∨ (∃ b, k = .opening b ∧ g.admits b = true) ∨ ¬ Begins g k
  := by
  cases k with
  | atom => exact .inl rfl
  | negation => exact .inr (.inl rfl)
  | connective c => exact .inr (.inr (.inr id))
  | opening b =>
      cases hb : g.admits b with
      | true => exact .inr (.inr (.inl ⟨b, rfl, hb⟩))
      | false => exact .inr (.inr (.inr (by simp [Begins, hb])))
  | closing b => exact .inr (.inr (.inr id))

theorem primary_of_not_begins (h : d < limit) (ht : ¬ Begins g t.kind) :
  primary g limit d (t :: ts) = .error (.unexpectedToken t)
  := by
  rw [primary, readPrimary, if_neg (Nat.not_le.mpr h)]
  cases hk : t.kind with
  | atom => simp [hk, Begins] at ht
  | negation => simp [hk, Begins] at ht
  | connective c => rfl
  | opening b =>
      simp only [hk, Begins, Bool.not_eq_true] at ht
      simp only [ht]
      rfl
  | closing b => rfl

/-! ### Groups -/

theorem connective?_eq_some_iff {k : Token.Kind} {c : Connective} :
  k.connective? = some c ↔ k = .connective c
  := by
  cases k <;> simp [Token.Kind.connective?]

theorem joint_eq_ok_iff {c : Connective} {us : List Token} :
  joint ts = .ok (c, us) ↔ ∃ t, t.kind = .connective c ∧ ts = t :: us
  := by
  cases ts with
  | nil => simp [joint]
  | cons t ts =>
      rw [joint]
      constructor
      · intro h
        split at h
        · cases h
        · rename_i c' hc'
          cases h
          exact ⟨t, connective?_eq_some_iff.mp hc', rfl⟩
      · rintro ⟨u, hu, ⟨⟩⟩
        simp [hu, Token.Kind.connective?]

theorem length_lt_of_joint {p : Connective × List Token} (h : joint ts = .ok p) :
  p.2.length < ts.length
  := by
  obtain ⟨t, -, rfl⟩ := joint_eq_ok_iff.mp h
  apply Nat.lt_succ_self

theorem Reading.outcome_close {n : Nat} (b : Bracket) (r : Reading n) :
  outcome (r.close b) = Sentence.close b (r.sentence, r.rest)
  := by
  obtain ⟨s, rest, hrest⟩ := r
  cases rest with
  | nil => rfl
  | cons t ts =>
      simp only [Reading.close, Sentence.close]
      split <;> rfl

theorem close_eq_ok_iff {s s' : Sentence} {rest : List Token} :
  close b (s, ts) = .ok (s', rest) ↔ s = s' ∧ ∃ e, ts = e :: rest ∧ e.kind = .closing b
  := by
  cases ts with
  | nil => simp [close]
  | cons t us =>
      rw [close]
      constructor
      · intro h
        split at h
        · rename_i ht
          cases h
          exact ⟨rfl, t, rfl, ht⟩
        · cases h
      · rintro ⟨rfl, e, ⟨⟩, ht⟩
        apply if_pos ht

theorem group_permissive :
  group .permissive limit d b ts = (operands .permissive limit d 0 ts).bind (close b)
  := by
  rw [group, readGroup, operands]
  cases readBinary .permissive limit d 0 ts with
  | error e => rfl
  | ok r => apply Reading.outcome_close

theorem group_strict :
  group .strict limit d b ts =
    (primary .strict limit d ts).bind fun l =>
      (joint l.2).bind fun c =>
        (primary .strict limit d c.2).bind fun r => close b (.binary c.1 l.1 r.1, r.2)
  := by
  rw [group, readGroup, primary]
  cases readPrimary .strict limit d ts with
  | error e => rfl
  | ok l =>
      obtain ⟨l, rest, hrest⟩ := l
      cases rest with
      | nil => rfl
      | cons t us =>
          simp only [Reading.outcome, Except.map, ok_bind, joint]
          cases t.kind.connective? with
          | none => rfl
          | some c =>
              simp only [ok_bind, primary]
              cases readPrimary .strict limit d us with
              | error e => rfl
              | ok r => apply Reading.outcome_close

/-! ### Operands and connectives -/

theorem operands_eq :
  operands g limit d least ts =
    (primary g limit d ts).bind fun l => tail g limit d least l.1 none l.2
  := by
  rw [operands, readBinary, primary]
  cases readPrimary g limit d ts with
  | error e => rfl
  | ok l =>
      simp only [Reading.outcome, Except.map, ok_bind, tail]
      cases readTail g limit d least l.sentence none l.rest <;> rfl

/-- Tokens that do not begin with a connective of level `least` or above. -/
def Free (least : Nat) (ts : List Token) : Prop :=
  ∀ t ∈ ts.head?, ∀ c, t.kind = .connective c → c.precedence < least

theorem free_cons {c : Connective} (ht : t.kind = .connective c) (hc : c.precedence < least)
    (ts : List Token) :
  Free least (t :: ts)
  := by
  rintro u ⟨⟩ c' hc'
  rw [ht] at hc'
  cases hc'
  apply hc

theorem free_cons_of_not_connective (h : ∀ c, t.kind ≠ .connective c) (least : Nat)
    (ts : List Token) :
  Free least (t :: ts)
  := by
  rintro u ⟨⟩ c hc
  cases h c hc

/-- No connective is above level 2. -/
theorem free_three (ts : List Token) :
  Free 3 ts
  := by
  intro t _ c _
  cases c <;> decide

theorem free_or_connective (least : Nat) (ts : List Token) :
  Free least ts ∨ ∃ t us c, ts = t :: us ∧ t.kind = .connective c ∧ least ≤ c.precedence
  := by
  cases ts with
  | nil => exact .inl (by simp [Free])
  | cons t us =>
      cases hk : t.kind.connective? with
      | none =>
          apply Or.inl
          apply free_cons_of_not_connective
          intro c hc
          simp [connective?_eq_some_iff.mpr hc] at hk
      | some c =>
          have ht := connective?_eq_some_iff.mp hk
          rcases Nat.lt_or_ge c.precedence least with hc | hc
          · exact .inl (free_cons ht hc us)
          · exact .inr ⟨t, us, c, rfl, ht, hc⟩

theorem tail_of_free (h : Free least ts) :
  tail g limit d least left last? ts = .ok (left, ts)
  := by
  rw [tail, readTail.eq_def]
  cases ts with
  | nil => rfl
  | cons t us =>
      simp only
      split
      · rfl
      · rename_i c hc
        rw [if_pos (h t rfl c (connective?_eq_some_iff.mp hc))]
        rfl

theorem tail_of_conflict {c : Connective} {u : Token} (ht : t.kind = .connective c)
    (hc : least ≤ c.precedence) (hu : conflict? last? c t = some u) :
  tail g limit d least left last? (t :: ts) = .error (.ambiguity u t)
  := by
  rw [tail, readTail.eq_def]
  simp only [ht, Token.Kind.connective?, if_neg (Nat.not_lt.mpr hc), hu]
  rfl

/-- The memory of the last junction after one more connective. -/
def remember (c : Connective) (t : Token) : Option Token :=
  if c.isJunction then some t else none

theorem tail_of_connective {c : Connective} (ht : t.kind = .connective c)
    (hc : least ≤ c.precedence) (hu : conflict? last? c t = none) :
  tail g limit d least left last? (t :: ts) =
    (operands g limit (d + 1) (c.precedence + 1) ts).bind fun r =>
      tail g limit d least (.binary c left r.1) (remember c t) r.2
  := by
  rw [tail, readTail.eq_def]
  simp only [ht, Token.Kind.connective?, if_neg (Nat.not_lt.mpr hc), hu, operands]
  cases readBinary g limit (d + 1) (c.precedence + 1) ts with
  | error e => rfl
  | ok r =>
      simp only [Reading.outcome, Except.map, ok_bind, tail, remember]
      cases readTail g limit d least (.binary c left r.sentence) (if c.isJunction then some t else none)
        r.rest <;> rfl

/-! ### Readings taken apart -/

section Cases

variable {s : Sentence} {rest : List Token}

/-- A primary that has been read is an atom, a negated sentence or a group. -/
theorem primary_cases (h : primary g limit d ts = .ok (s, rest)) :
  d < limit ∧ ∃ t us, ts = t :: us
    ∧ (t.kind = .atom ∧ s = .atom t.text ∧ rest = us
      ∨ t.kind = .negation
        ∧ (∃ s', s = .negation s' ∧ primary g limit (d + 1) us = .ok (s', rest))
      ∨ ∃ b, t.kind = .opening b ∧ g.admits b = true ∧ group g limit (d + 1) b us = .ok (s, rest))
  := by
  rcases Nat.lt_or_ge d limit with hd | hd
  · refine ⟨hd, ?_⟩
    cases ts with
    | nil => simp [primary_nil hd] at h
    | cons t us =>
        refine ⟨t, us, rfl, ?_⟩
        obtain ht | ht | ⟨b, ht, hb⟩ | ht := begins_cases g t.kind
        · rw [primary_atom hd ht] at h
          cases h
          exact .inl ⟨ht, rfl, rfl⟩
        · rw [primary_negation hd ht, map_eq_ok_iff] at h
          obtain ⟨⟨s', rest'⟩, hs', heq⟩ := h
          cases heq
          exact .inr (.inl ⟨ht, s', rfl, hs'⟩)
        · rw [primary_opening hd ht hb] at h
          exact .inr (.inr ⟨b, ht, hb, h⟩)
        · simp [primary_of_not_begins hd ht] at h
  · simp [primary_of_le hd] at h

theorem group_permissive_cases (h : group .permissive limit d b ts = .ok (s, rest)) :
  ∃ e, operands .permissive limit d 0 ts = .ok (s, e :: rest) ∧ e.kind = .closing b
  := by
  rw [group_permissive, bind_eq_ok_iff] at h
  obtain ⟨⟨s', us⟩, hs', hclose⟩ := h
  obtain ⟨rfl, e, rfl, he⟩ := close_eq_ok_iff.mp hclose
  exact ⟨e, hs', he⟩

theorem group_strict_cases (h : group .strict limit d b ts = .ok (s, rest)) :
  ∃ c l r t e us, primary .strict limit d ts = .ok (l, t :: us) ∧ t.kind = .connective c
    ∧ primary .strict limit d us = .ok (r, e :: rest) ∧ e.kind = .closing b ∧ s = .binary c l r
  := by
  rw [group_strict, bind_eq_ok_iff] at h
  obtain ⟨⟨l, ts'⟩, hl, h⟩ := h
  obtain ⟨⟨c, us⟩, hc, h⟩ := bind_eq_ok_iff.mp h
  obtain ⟨t, ht, rfl⟩ := joint_eq_ok_iff.mp hc
  obtain ⟨⟨r, us'⟩, hr, hclose⟩ := bind_eq_ok_iff.mp h
  obtain ⟨rfl, e, rfl, he⟩ := close_eq_ok_iff.mp hclose
  exact ⟨c, l, r, t, e, us, hl, ht, hr, he, rfl⟩

theorem operands_cases (h : operands g limit d least ts = .ok (s, rest)) :
  ∃ l us, primary g limit d ts = .ok (l, us) ∧ tail g limit d least l none us = .ok (s, rest)
  := by
  rw [operands_eq, bind_eq_ok_iff] at h
  obtain ⟨⟨l, us⟩, hl, htail⟩ := h
  exact ⟨l, us, hl, htail⟩

/-- A tail that has been read is empty or goes on with a connective and an operand. -/
theorem tail_cases (h : tail g limit d least left last? ts = .ok (s, rest)) :
  (Free least ts ∧ s = left ∧ rest = ts)
    ∨ ∃ c t us r vs, ts = t :: us ∧ t.kind = .connective c ∧ least ≤ c.precedence
      ∧ conflict? last? c t = none ∧ operands g limit (d + 1) (c.precedence + 1) us = .ok (r, vs)
      ∧ tail g limit d least (.binary c left r) (remember c t) vs = .ok (s, rest)
  := by
  obtain hfree | ⟨t, us, c, rfl, ht, hc⟩ := free_or_connective least ts
  · rw [tail_of_free hfree] at h
    cases h
    exact .inl ⟨hfree, rfl, rfl⟩
  · cases hlast : conflict? last? c t with
    | some u => simp [tail_of_conflict ht hc hlast] at h
    | none =>
        rw [tail_of_connective ht hc hlast, bind_eq_ok_iff] at h
        obtain ⟨⟨r, vs⟩, hr, htail⟩ := h
        exact .inr ⟨c, t, us, r, vs, rfl, ht, hc, hlast, hr, htail⟩

end Cases

/-! ### Whole lists of tokens -/

/-- The sentence that has been read, if no tokens are left. -/
def finish : Sentence × List Token → Except ParseError Sentence
  | (s, []) => .ok s
  | (_, t :: _) => .error (.trailingTokens t)

theorem finish_eq_ok_iff {p : Sentence × List Token} {s : Sentence} :
  finish p = .ok s ↔ p = (s, [])
  := by
  obtain ⟨s', ts⟩ := p
  cases ts <;> simp [finish]

theorem parse_strict (limit : Nat) (ts : List Token) :
  parse .strict limit ts = (primary .strict limit 0 ts).bind finish
  := by
  rw [parse, primary]
  cases readPrimary .strict limit 0 ts with
  | error e => rfl
  | ok r =>
      obtain ⟨s, rest, hrest⟩ := r
      cases rest <;> rfl

theorem parse_permissive (limit : Nat) (ts : List Token) :
  parse .permissive limit ts = (operands .permissive limit 0 0 ts).bind finish
  := by
  rw [parse, operands]
  cases readBinary .permissive limit 0 0 ts with
  | error e => rfl
  | ok r =>
      obtain ⟨s, rest, hrest⟩ := r
      cases rest <;> rfl

/-! ### Levels that are needed -/

/-- An outcome that needs a depth of `k` levels. -/
def within {α : Type} (limit k : Nat) (x : Except ParseError α) : Except ParseError α :=
  if k ≤ limit then x else .error (.depthExceeded limit)

section Within

variable {α β : Type} {limit k m : Nat} {x : Except ParseError α}

theorem within_of_le (h : k ≤ limit) :
  within limit k x = x
  := if_pos h

theorem within_bind (f : α → Except ParseError β) :
  (within limit k x).bind f = within limit k (x.bind f)
  := by
  rw [within, within]
  split <;> rfl

theorem within_map (f : α → β) :
  (within limit k x).map f = within limit k (x.map f)
  := by
  rw [within, within]
  split <;> rfl

theorem within_within :
  within limit k (within limit m x) = within limit (max k m) x
  := by
  simp only [within, Nat.max_le]
  split
  · simp [*]
  · simp [*]

end Within

/-- A primary needs one level, whatever it needs beyond that. -/
theorem primary_eq_within {g : Grammar} {limit d k : Nat} {ts : List Token} {x : Outcome}
    (hk : 0 < k) (h : d < limit → primary g limit d ts = within limit (d + k) x) :
  primary g limit d ts = within limit (d + k) x
  := by
  rcases Nat.lt_or_ge d limit with hd | hd
  · apply h hd
  · rw [primary_of_le hd, within, if_neg (by omega)]

/-! ### Induction over readers -/

/-- What every reader inherits from the readers that it calls holds of all of them.  A primary
calls readers of fewer tokens only; so does a tail, and operands call a primary of the same
tokens. -/
theorem reader_induction {P : Nat → List Token → Prop} {G : Nat → Bracket → List Token → Prop}
    {O : Nat → Nat → List Token → Prop}
    {T : Nat → Nat → Sentence → Option Token → List Token → Prop}
    (hP : ∀ d ts, (∀ us, us.length < ts.length → P (d + 1) us) →
      (∀ us, us.length < ts.length → ∀ b, G (d + 1) b us) → P d ts)
    (hG : ∀ d b ts, P d ts → (∀ us, us.length < ts.length → P d us) → O d 0 ts → G d b ts)
    (hO : ∀ d least ts, P d ts →
      (∀ us, us.length < ts.length → ∀ left, T d least left none us) → O d least ts)
    (hT : ∀ d least left last? ts,
      (∀ us, us.length < ts.length → ∀ least', O (d + 1) least' us) →
      (∀ us, us.length < ts.length → ∀ left' last?', T d least left' last?' us) →
      T d least left last? ts) :
  (∀ d ts, P d ts) ∧ (∀ d b ts, G d b ts) ∧ (∀ d least ts, O d least ts)
    ∧ ∀ d least left last? ts, T d least left last? ts
  := by
  have h : ∀ n, ∀ ts : List Token, ts.length = n →
      (∀ d, P d ts) ∧ (∀ d b, G d b ts) ∧ (∀ d least, O d least ts)
        ∧ ∀ d least left last?, T d least left last? ts := by
    intro n
    induction n using Nat.strongRecOn with
    | ind n ih =>
        rintro ts rfl
        have hP' : ∀ d, P d ts := by
          intro d
          apply hP
          · intro us hus
            apply (ih _ hus us rfl).1
          · intro us hus
            apply (ih _ hus us rfl).2.1
        have hO' : ∀ d least, O d least ts := by
          intro d least
          apply hO d least ts (hP' d)
          intro us hus left
          apply (ih _ hus us rfl).2.2.2
        refine ⟨hP', ?_, hO', ?_⟩
        · intro d b
          apply hG d b ts (hP' d) _ (hO' d 0)
          intro us hus
          apply (ih _ hus us rfl).1
        · intro d least left last?
          apply hT
          · intro us hus
            apply (ih _ hus us rfl).2.2.1
          · intro us hus
            apply (ih _ hus us rfl).2.2.2
  refine ⟨?_, ?_, ?_, ?_⟩
  · intro d ts
    apply (h _ ts rfl).1
  · intro d b ts
    apply (h _ ts rfl).2.1
  · intro d least ts
    apply (h _ ts rfl).2.2.1
  · intro d least left last? ts
    apply (h _ ts rfl).2.2.2

end Sentence

end Sentential

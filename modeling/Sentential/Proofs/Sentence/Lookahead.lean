import Sentential.Proofs.Sentence.Reader
import Mathlib.Tactic.Use

/-!
# One token of lookahead

A reader looks at the tokens it passes and at the next one, and at no others.  `Settled` says
what this means for the outcome of a reader: a sentence is read alike before every token that
cannot continue it; an error at a token stays whatever follows the token, while the tokens
before it can be completed; an error at the end of the tokens leaves all of them to be
completed; and a depth that is exceeded stays exceeded.  Outcomes are settled for a reader that
runs another behind it when they are for both, and so they are for all readers of sentences.
-/

namespace Sentential

namespace ParseError

/-- The token at which an error was found: it cannot stand where it stands. -/
def offending? : ParseError → Option Token
  | mismatch _ t | expectedConnective t | unexpectedToken t | trailingTokens t | ambiguity _ t =>
    some t
  | unexpectedEnd | unexpectedEndExpecting _ | depthExceeded _ => none

/-- The errors that are found behind the last token. -/
inductive AtEnd : ParseError → Prop
  | unexpectedEnd : AtEnd .unexpectedEnd
  | unexpectedEndExpecting (k : Token.Kind) : AtEnd (.unexpectedEndExpecting k)

end ParseError

namespace Sentence

/-- A reader of tokens, which returns what it has read with the tokens behind it. -/
abbrev Reader (α : Type) := List Token → Except ParseError (α × List Token)

/-- A reader behind another, which may depend on what that has read. -/
def Reader.andThen {α β : Type} (R : Reader α) (K : α → Reader β) : Reader β :=
  fun ts => (R ts).bind fun p => K p.1 p.2

/-- Tokens that some others complete to what the reader reads, before all tokens that do not
begin with a connective of level `k` or above. -/
def Completable {α : Type} (R : Reader α) (k : Nat) (us : List Token) : Prop :=
  ∃ vs a, ∀ rest, Free k rest → R (us ++ (vs ++ rest)) = .ok (a, rest)

/-- An outcome of a reader for the tokens `ts`, with what it entails for other tokens that begin
alike.  No connective of level `k` or above follows what is read. -/
inductive Settled {α : Type} (limit : Nat) (R : Reader α) (k : Nat) (ts : List Token) :
    Except ParseError (α × List Token) → Prop
  | ok {a : α} (us : List Token) {rest : List Token} (hts : ts = us ++ rest) (hrest : Free k rest)
      (h : ∀ rest', Free k rest' → R (us ++ rest') = .ok (a, rest')) :
      Settled limit R k ts (.ok (a, rest))
  | token {e : ParseError} {t : Token} (us : List Token) {vs : List Token}
      (he : e.offending? = some t) (hts : ts = us ++ t :: vs) (hus : Completable R k us)
      (h : ∀ vs', R (us ++ t :: vs') = .error e) : Settled limit R k ts (.error e)
  | atEnd {e : ParseError} (he : e.AtEnd) (hts : Completable R k ts) :
      Settled limit R k ts (.error e)
  | depth (h : ∀ vs, R (ts ++ vs) = .error (.depthExceeded limit)) :
      Settled limit R k ts (.error (.depthExceeded limit))

/-! ### Tokens that follow -/

section Free

variable {k k' : Nat} {t : Token} {us vs ws : List Token}

theorem Free.mono (h : k ≤ k') (hus : Free k us) :
  Free k' us
  := by
  intro t ht c hc
  apply Nat.lt_of_lt_of_le (hus t ht c hc) h

/-- Only the first token matters. -/
theorem Free.append_congr (hus : us ≠ []) (h : Free k (us ++ vs)) (ws : List Token) :
  Free k (us ++ ws)
  := by
  cases us with
  | nil => cases hus rfl
  | cons t us => apply h

theorem Free.cons_congr (h : Free k (t :: us)) (vs : List Token) :
  Free k (t :: vs)
  := h

theorem free_closing {b : Bracket} (ht : t.kind = .closing b) (k : Nat) (us : List Token) :
  Free k (t :: us)
  := by
  apply free_cons_of_not_connective
  simp [ht]

end Free

/-! ### Readers in sequence -/

section AndThen

variable {α β : Type} {limit k k' : Nat} {R : Reader α} {K : α → Reader β} {t : Token}
  {ts us : List Token}

/-- Readers that can be run behind one that no connective of level `k` or above may follow, and
that are themselves followed by none of level `k'` or above: whatever has been read, tokens
exist that they read, and these may follow it; and if they read no token, what follows them may
follow it too. -/
structure Continues (K : α → Reader β) (k k' : Nat) : Prop where
  start : ∀ a, ∃ vs b, ∀ rest, Free k' rest → Free k (vs ++ rest) ∧ K a (vs ++ rest) = .ok (b, rest)
  stay : ∀ {a b rest}, Free k' rest → K a rest = .ok (b, rest) → Free k rest

theorem andThen_of_ok {a : α} (h : R ts = .ok (a, us)) :
  R.andThen K ts = K a us
  := by
  rw [Reader.andThen, h, ok_bind]

theorem andThen_of_error {e : ParseError} (h : R ts = .error e) :
  R.andThen K ts = .error e
  := by
  rw [Reader.andThen, h, error_bind]

/-- Tokens that can be completed for a reader can be completed with a reader behind it. -/
theorem Completable.andThen (h : Completable R k us) (hK : Continues K k k') :
  Completable (R.andThen K) k' us
  := by
  obtain ⟨vs, a, hR⟩ := h
  obtain ⟨ws, b, hstart⟩ := hK.start a
  use vs ++ ws, b
  intro rest hrest
  obtain ⟨hfree, hread⟩ := hstart rest hrest
  rw [List.append_assoc, andThen_of_ok (hR (ws ++ rest) hfree), hread]

/-- Tokens that can be completed for a reader can be completed with what is read before it, if
they may follow that. -/
theorem Completable.of_ok {a : α} {ws xs : List Token}
    (hR : ∀ rest, Free k rest → R (us ++ rest) = .ok (a, rest)) (hws : Free k (ws ++ xs))
    (h : Completable (K a) k' ws) (hK : Continues K k k') :
  Completable (R.andThen K) k' (us ++ ws)
  := by
  cases ws with
  | nil =>
      rw [List.append_nil]
      apply Completable.andThen _ hK
      use [], a
      apply hR
  | cons t ws =>
      obtain ⟨vs, b, hread⟩ := h
      use vs, b
      intro rest hrest
      have hfree : Free k (t :: ws ++ (vs ++ rest)) := hws.cons_congr _
      rw [List.append_assoc, andThen_of_ok (hR _ hfree), hread rest hrest]

/-- A reader that succeeds settles the outcome together with the reader behind it. -/
theorem Settled.of_ok {a : α} {rest : List Token} {x : Except ParseError (β × List Token)}
    (hR : ∀ rest', Free k rest' → R (us ++ rest') = .ok (a, rest')) (hrest : Free k rest)
    (h : Settled limit (K a) k' rest x) (hK : Continues K k k') :
  Settled limit (R.andThen K) k' (us ++ rest) x
  := by
  cases h with
  | @ok b vs rest' hts hrest' hread =>
      subst hts
      apply Settled.ok (us ++ vs) (List.append_assoc us vs rest').symm hrest'
      intro rest'' hrest''
      rw [List.append_assoc, andThen_of_ok (hR _ _), hread rest'' hrest'']
      cases vs with
      | nil => apply hK.stay hrest'' (hread rest'' hrest'')
      | cons t vs => apply hrest.cons_congr
  | @token e t vs ws he hts hvs hread =>
      subst hts
      apply Settled.token (us ++ vs) he (List.append_assoc us vs (t :: ws)).symm
      · apply Completable.of_ok hR hrest hvs hK
      · intro ws'
        have hfree : Free k (vs ++ t :: ws') := by
          rw [List.append_cons] at hrest ⊢
          apply hrest.append_congr (by simp)
        rw [List.append_assoc, andThen_of_ok (hR _ hfree), hread ws']
  | atEnd he hcomplete =>
      apply Settled.atEnd he
      rw [← List.append_nil rest] at hrest
      apply Completable.of_ok hR hrest hcomplete hK
  | depth hdepth =>
      apply Settled.depth
      intro vs
      cases rest with
      | nil =>
          -- The reader behind can start, so it does not exceed the depth whatever follows.
          obtain ⟨ws, b, hstart⟩ := hK.start a
          have hread := (hstart [] (by simp [Free])).2
          rw [← List.nil_append (ws ++ []), hdepth] at hread
          cases hread
      | cons t rest =>
          have hread := hR (t :: rest ++ vs) (hrest.cons_congr _)
          rw [List.append_assoc, andThen_of_ok hread, hdepth vs]

/-- A reader that succeeds reads the same before all tokens that may follow. -/
theorem Settled.exists_of_ok {a : α} {rest : List Token} (h : Settled limit R k ts (R ts))
    (hok : R ts = .ok (a, rest)) :
  ∃ us, ts = us ++ rest ∧ Free k rest ∧ ∀ rest', Free k rest' → R (us ++ rest') = .ok (a, rest')
  := by
  rw [hok] at h
  cases h with
  | ok us hts hrest hread => use us, hts, hrest, hread

/-- Outcomes of two readers in sequence are settled when those of both are. -/
theorem Settled.andThen (h : Settled limit R k ts (R ts))
    (hafter : ∀ a rest, R ts = .ok (a, rest) → Settled limit (K a) k' rest (K a rest))
    (hK : Continues K k k') :
  Settled limit (R.andThen K) k' ts (R.andThen K ts)
  := by
  generalize hx : R ts = x at h
  cases h with
  | @ok a us rest hts hrest hread =>
      rw [andThen_of_ok hx, hts]
      apply Settled.of_ok hread hrest (hafter a rest hx) hK
  | token us he hts hus hread =>
      rw [andThen_of_error hx]
      apply Settled.token us he hts (hus.andThen hK)
      intro vs'
      apply andThen_of_error (hread vs')
  | atEnd he hcomplete =>
      rw [andThen_of_error hx]
      apply Settled.atEnd he (hcomplete.andThen hK)
  | depth hdepth =>
      rw [andThen_of_error hx]
      apply Settled.depth
      intro vs
      apply andThen_of_error (hdepth vs)

/-- Tokens that can be completed can be completed behind a token that the reader passes. -/
theorem Completable.cons {R' : Reader α} (h : Completable R' k us)
    (hR : ∀ us, R (t :: us) = R' us) :
  Completable R k (t :: us)
  := by
  obtain ⟨vs, a, hread⟩ := h
  use vs, a
  intro rest hrest
  rw [List.cons_append, hR, hread rest hrest]

/-- A reader that passes one token and then does as another. -/
theorem Settled.cons {R' : Reader α} {x : Except ParseError (α × List Token)}
    (hR : ∀ us, R (t :: us) = R' us) (h : Settled limit R' k ts x) :
  Settled limit R k (t :: ts) x
  := by
  cases h with
  | @ok a us rest hts hrest hread =>
      subst hts
      apply Settled.ok (t :: us) rfl hrest
      intro rest' hrest'
      rw [List.cons_append, hR, hread rest' hrest']
  | @token e u us vs he hts hus hread =>
      subst hts
      apply Settled.token (t :: us) he rfl (hus.cons hR)
      intro vs'
      rw [List.cons_append, hR, hread vs']
  | atEnd he hcomplete => apply Settled.atEnd he (hcomplete.cons hR)
  | depth hdepth =>
      apply Settled.depth
      intro vs
      rw [List.cons_append, hR, hdepth vs]

end AndThen

/-! ### The readers of sentences -/

section Readers

variable {g : Grammar} {limit d least k : Nat} {b : Bracket}

/-- An atom completes no tokens at all to a primary. -/
theorem completable_primary (h : d < limit) :
  Completable (primary g limit d) 3 []
  := by
  use [⟨.atom, "P"⟩], .atom "P"
  intro rest _
  apply primary_atom h rfl

theorem completable_joint :
  Completable joint 3 []
  := by
  use [⟨.connective .conjunction, "&"⟩], .conjunction
  intro rest _
  rfl

theorem settled_joint (limit : Nat) (ts : List Token) :
  Settled limit joint 3 ts (joint ts)
  := by
  cases ts with
  | nil => apply Settled.atEnd .unexpectedEnd completable_joint
  | cons t ts =>
      cases hc : t.kind.connective? with
      | none =>
          have herror : ∀ us, joint (t :: us) = .error (.expectedConnective t) := by
            intro us
            rw [joint, hc]
          rw [herror]
          apply Settled.token [] rfl rfl completable_joint herror
      | some c =>
          have hok : ∀ us, joint (t :: us) = .ok (c, us) := by
            intro us
            rw [joint, hc]
          rw [hok]
          apply Settled.ok [t] rfl (free_three ts)
          intro us _
          apply hok

/-- The bracket behind the inside of a group, as a reader. -/
def closing (b : Bracket) (s : Sentence) : Reader Sentence := fun ts => close b (s, ts)

theorem closing_cons {e : Token} (he : e.kind = .closing b) (s : Sentence) (ts : List Token) :
  closing b s (e :: ts) = .ok (s, ts)
  := if_pos he

theorem completable_closing (b : Bracket) (s : Sentence) :
  Completable (closing b s) 3 []
  := by
  use [⟨.closing b, ")"⟩], s
  intro rest _
  apply closing_cons rfl

/-- A closing bracket may follow whatever has been read, and it is not left out. -/
theorem continues_closing {α : Type} (b : Bracket) (f : α → Sentence) (k : Nat) :
  Continues (fun a => closing b (f a)) k 3
  where
  start a := by
    use [⟨.closing b, ")"⟩], f a
    intro rest _
    constructor
    · apply free_closing rfl
    · apply closing_cons rfl
  stay := by
    intro a s rest _ h
    obtain ⟨-, e, hrest, -⟩ := close_eq_ok_iff.mp h
    cases List.cons_ne_self e rest hrest.symm

theorem settled_closing (limit : Nat) (b : Bracket) (s : Sentence) (ts : List Token) :
  Settled limit (closing b s) 3 ts (closing b s ts)
  := by
  cases ts with
  | nil => apply Settled.atEnd (.unexpectedEndExpecting _) (completable_closing b s)
  | cons t ts =>
      rcases Decidable.em (t.kind = .closing b) with ht | ht
      · rw [closing_cons ht]
        apply Settled.ok [t] rfl (free_three ts)
        intro us _
        apply closing_cons ht
      · have herror : ∀ us, closing b s (t :: us) = .error (.mismatch (.closing b) t) :=
          fun us => if_neg ht
        rw [herror]
        apply Settled.token [] rfl rfl (completable_closing b s) herror

/-- Behind a reader that every token may follow, only the start of another one matters. -/
theorem continues_of_completable {α β : Type} {K : α → Reader β}
    (h : ∀ a, Completable (K a) k []) :
  Continues K 3 k
  where
  start a := by
    obtain ⟨vs, b, hread⟩ := h a
    use vs, b
    intro rest hrest
    exact ⟨free_three _, hread rest hrest⟩
  stay _ _ := free_three _

/-- What stands behind a negated sentence reads nothing. -/
theorem continues_negation :
  Continues (fun s us => .ok (Sentence.negation s, us)) 3 3
  := by
  apply continues_of_completable
  intro s
  use [], .negation s
  intro rest _
  rfl

/-- A tail may read no token. -/
theorem completable_tail (left : Sentence) (last? : Option Token) :
  Completable (tail g limit d least left last?) least []
  := by
  use [], left
  intro rest hrest
  apply tail_of_free hrest

theorem continues_tail {α : Type} {left : α → Sentence} {last? : Option Token} (h : least ≤ k) :
  Continues (fun a => tail g limit d least (left a) last?) k least
  where
  start a := by
    use [], left a
    intro rest hrest
    exact ⟨hrest.mono h, tail_of_free hrest⟩
  stay hrest _ := hrest.mono h

/-! ### Readers as sequences of readers -/

theorem operands_eq_andThen :
  operands g limit d least
    = Reader.andThen (primary g limit d) fun l => tail g limit d least l none
  := by
  funext ts
  apply operands_eq

theorem group_permissive_eq_andThen :
  group .permissive limit d b = Reader.andThen (operands .permissive limit d 0) (closing b)
  := by
  funext ts
  apply group_permissive

/-- What stands behind the connective of a strict group. -/
def afterJoint (limit d : Nat) (b : Bracket) (l : Sentence) (c : Connective) : Reader Sentence :=
  Reader.andThen (primary .strict limit d) fun r => closing b (.binary c l r)

/-- What stands behind the left operand of a strict group. -/
def afterLeft (limit d : Nat) (b : Bracket) (l : Sentence) : Reader Sentence :=
  Reader.andThen joint (afterJoint limit d b l)

theorem group_strict_eq_andThen :
  group .strict limit d b = Reader.andThen (primary .strict limit d) (afterLeft limit d b)
  := by
  funext ts
  apply group_strict

theorem primary_negation_eq_andThen (h : d < limit) {t : Token} (ht : t.kind = .negation)
    (ts : List Token) :
  primary g limit d (t :: ts)
    = Reader.andThen (primary g limit (d + 1)) (fun s us => .ok (.negation s, us)) ts
  := by
  rw [primary_negation h ht, Reader.andThen]
  cases primary g limit (d + 1) ts <;> rfl

theorem tail_eq_andThen {left : Sentence} {last? : Option Token} {c : Connective} {t : Token}
    (ht : t.kind = .connective c) (hc : least ≤ c.precedence) (hlast : conflict? last? c t = none)
    (ts : List Token) :
  tail g limit d least left last? (t :: ts)
    = Reader.andThen (operands g limit (d + 1) (c.precedence + 1))
        (fun r => tail g limit d least (.binary c left r) (remember c t)) ts
  := tail_of_connective ht hc hlast

/-! ### Settled outcomes -/

/-- Between the brackets of a strict group, there is always a way on to the closing one. -/
theorem continues_afterJoint {l : Sentence} (h : d < limit) :
  Continues (afterJoint limit d b l) 3 3
  := by
  apply continues_of_completable
  intro c
  apply (completable_primary h).andThen (continues_closing b _ 3)

theorem continues_afterLeft (h : d < limit) :
  Continues (afterLeft limit d b) 3 3
  := by
  apply continues_of_completable
  intro l
  apply completable_joint.andThen (continues_afterJoint h)

section Steps

variable {ts : List Token}

theorem settled_afterLeft (h : d < limit) (l : Sentence)
    (ih : ∀ us, us.length < ts.length →
      Settled limit (primary .strict limit d) 3 us (primary .strict limit d us)) :
  Settled limit (afterLeft limit d b l) 3 ts (afterLeft limit d b l ts)
  := by
  apply (settled_joint limit ts).andThen _ (continues_afterJoint h)
  intro c us hc
  apply (ih us (length_lt_of_joint hc)).andThen _ (continues_closing b _ 3)
  intro r vs _
  apply settled_closing

theorem settled_primary (d : Nat)
    (ihP : ∀ us, us.length < ts.length →
      Settled limit (primary g limit (d + 1)) 3 us (primary g limit (d + 1) us))
    (ihG : ∀ us, us.length < ts.length → ∀ b,
      Settled limit (group g limit (d + 1) b) 3 us (group g limit (d + 1) b us)) :
  Settled limit (primary g limit d) 3 ts (primary g limit d ts)
  := by
  rcases Nat.lt_or_ge d limit with hd | hd
  · cases ts with
    | nil =>
        rw [primary_nil hd]
        apply Settled.atEnd .unexpectedEnd (completable_primary hd)
    | cons t ts =>
        obtain ht | ht | ⟨b, ht, hb⟩ | ht := begins_cases g t.kind
        · rw [primary_atom hd ht]
          apply Settled.ok [t] rfl (free_three ts)
          intro us _
          apply primary_atom hd ht
        · rw [primary_negation_eq_andThen hd ht]
          apply Settled.cons (primary_negation_eq_andThen hd ht)
          apply (ihP ts (Nat.lt_succ_self _)).andThen _ continues_negation
          intro s us _
          apply Settled.ok [] rfl (free_three us)
          intro vs _
          rfl
        · rw [primary_opening hd ht hb]
          apply Settled.cons _ (ihG ts (Nat.lt_succ_self _) b)
          intro us
          apply primary_opening hd ht hb
        · rw [primary_of_not_begins hd ht]
          apply Settled.token [] rfl rfl (completable_primary hd)
          intro us
          apply primary_of_not_begins hd ht
  · rw [primary_of_le hd]
    apply Settled.depth
    intro us
    apply primary_of_le hd

theorem settled_group_permissive (b : Bracket)
    (ih : Settled limit (operands .permissive limit d 0) 0 ts
      (operands .permissive limit d 0 ts)) :
  Settled limit (group .permissive limit d b) 3 ts (group .permissive limit d b ts)
  := by
  rw [group_permissive_eq_andThen]
  apply ih.andThen _ (continues_closing b id 0)
  intro s us _
  apply settled_closing

theorem settled_group_strict (b : Bracket)
    (ih : Settled limit (primary .strict limit d) 3 ts (primary .strict limit d ts))
    (ihlt : ∀ us, us.length < ts.length →
      Settled limit (primary .strict limit d) 3 us (primary .strict limit d us)) :
  Settled limit (group .strict limit d b) 3 ts (group .strict limit d b ts)
  := by
  rw [group_strict_eq_andThen]
  -- At the limit there is no way on behind the left operand, but it is not reached.
  rcases Nat.lt_or_ge d limit with hd | hd
  · apply ih.andThen _ (continues_afterLeft hd)
    intro l us hl
    apply settled_afterLeft hd
    intro vs hvs
    apply ihlt vs (Nat.lt_trans hvs (length_lt_of_primary hl))
  · rw [andThen_of_error (primary_of_le hd)]
    apply Settled.depth
    intro us
    apply andThen_of_error (primary_of_le hd)

theorem settled_operands
    (ihP : Settled limit (primary g limit d) 3 ts (primary g limit d ts))
    (ihT : ∀ us, us.length < ts.length → ∀ left,
      Settled limit (tail g limit d least left none) least us
        (tail g limit d least left none us)) :
  Settled limit (operands g limit d least) least ts (operands g limit d least ts)
  := by
  rw [operands_eq_andThen]
  apply ihP.andThen
  · intro l us hl
    apply ihT us (length_lt_of_primary hl)
  · apply continues_of_completable
    intro l
    apply completable_tail

theorem settled_tail (left : Sentence) (last? : Option Token)
    (ihO : ∀ us, us.length < ts.length → ∀ least',
      Settled limit (operands g limit (d + 1) least') least' us
        (operands g limit (d + 1) least' us))
    (ihT : ∀ us, us.length < ts.length → ∀ left' last?',
      Settled limit (tail g limit d least left' last?') least us
        (tail g limit d least left' last?' us)) :
  Settled limit (tail g limit d least left last?) least ts (tail g limit d least left last? ts)
  := by
  obtain hfree | ⟨t, ts, c, rfl, ht, hc⟩ := free_or_connective least ts
  · rw [tail_of_free hfree]
    apply Settled.ok [] rfl hfree
    intro us hus
    apply tail_of_free hus
  · cases hlast : conflict? last? c t with
    | some u =>
        -- Without the connective at fault, the tail ends here.
        rw [tail_of_conflict ht hc hlast]
        apply Settled.token [] rfl rfl (completable_tail _ _)
        intro us
        apply tail_of_conflict ht hc hlast
    | none =>
        rw [tail_eq_andThen ht hc hlast]
        apply Settled.cons (tail_eq_andThen ht hc hlast)
        apply (ihO ts (Nat.lt_succ_self _) _).andThen _ (continues_tail (Nat.le_succ_of_le hc))
        intro r us hr
        apply ihT us (Nat.lt_succ_of_lt (length_lt_of_operands hr))

end Steps

/-- The outcome of every reader is settled by the tokens it has looked at. -/
theorem reader_settled (g : Grammar) (limit : Nat) :
  (∀ d ts, Settled limit (primary g limit d) 3 ts (primary g limit d ts))
    ∧ (∀ d b ts, Settled limit (group g limit d b) 3 ts (group g limit d b ts))
    ∧ (∀ d least ts,
      Settled limit (operands g limit d least) least ts (operands g limit d least ts))
    ∧ ∀ d least left last? ts,
      Settled limit (tail g limit d least left last?) least ts (tail g limit d least left last? ts)
  := by
  apply reader_induction
  · intro d ts
    apply settled_primary
  · intro d b ts ihP ihP' ihO
    cases g with
    | permissive => apply settled_group_permissive b ihO
    | strict => apply settled_group_strict b ihP ihP'
  · intro d least ts
    apply settled_operands
  · intro d least left last? ts
    apply settled_tail

end Readers

end Sentence

end Sentential

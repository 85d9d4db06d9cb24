import Sentential.Limits
import Sentential.Proofs.Sentence.Descent
import Sentential.Proofs.Sentence.Lookahead

/-!
# Balanced descent

Every routine of the parser with a counter of levels follows its reader (`routine_follows`).
This goes by the induction over readers, one lemma for each routine, and it settles three things
at once.  The routines end, because the readers are functions.  The counter comes back to where
it was, whatever way has been taken through the levels below.  And what the readers say of the
tokens that are left is true of the cursor: where a sentence is read a token is passed, and no
token behind the next one is looked at.

`run_balanced` puts this together for a call from any state whose level is within the limit.
-/

namespace Sentential

namespace Descent

/-- A routine that follows a reader from every state at level `d` before the tokens `ts`. -/
def FollowsAt {α : Type} (limit d : Nat) (ts : List Token) (x : Nat → Action α)
    (y : Except ParseError (α × List Token)) : Prop :=
  ∀ s : Descent, s.depth = d → s.cursor.remaining = ts → Follows limit s x y

section Readers

open Sentence (Begins begins_cases conflict? free_or_connective)

variable {g : Grammar} {limit d least : Nat} {b : Bracket} {left : Sentence}
  {last? : Option Token} {ts : List Token}

/-- In the level that has been entered, the first token decides how the routine goes on, as it
does for the reader. -/
theorem followsAt_bare (hd : d < limit)
    (ihP : ∀ us, us.length < ts.length → d + 1 ≤ limit →
      FollowsAt limit (d + 1) us (primary g limit) (Sentence.primary g limit (d + 1) us))
    (ihG : ∀ us, us.length < ts.length → ∀ b, d + 1 ≤ limit → ∀ t, t.kind = .opening b →
      FollowsAt limit (d + 1) (t :: us) (group g limit b) (Sentence.group g limit (d + 1) b us)) :
  FollowsAt limit (d + 1) ts (bare g limit) (Sentence.primary g limit d ts)
  := by
  intro s hs hts
  apply Follows.succ
  simp only [bare]
  apply Follows.peek?
  cases ts with
  | nil =>
      rw [Sentence.primary_nil hd, peek?_of_remaining_nil hts]
      apply Follows.refuse
  | cons t ts =>
      rw [peek?_of_remaining hts]
      obtain ht | ht | ⟨b, ht, hb⟩ | ht := begins_cases g t.kind
      · rw [Sentence.primary_atom hd ht]
        simp only [ht]
        apply Follows.advance hts
        rw [← remaining_past hts]
        apply Follows.pure
      · rw [Sentence.primary_negation hd ht]
        simp only [ht]
        apply Follows.advance hts
        apply Follows.map Sentence.negation
        apply ihP ts (Nat.lt_succ_self _) hd s.past hs (remaining_past hts)
      · rw [Sentence.primary_opening hd ht hb]
        simp only [ht, if_pos hb]
        apply ihG ts (Nat.lt_succ_self _) b hd t ht s hs hts
      · rw [Sentence.primary_of_not_begins hd ht]
        cases hk : t.kind with
        | atom => simp [hk, Begins] at ht
        | negation => simp [hk, Begins] at ht
        | opening b =>
            rw [hk, Begins] at ht
            simp only [hk, if_neg ht]
            apply Follows.refuse
        | connective c =>
            simp only [hk]
            apply Follows.refuse
        | closing b =>
            simp only [hk]
            apply Follows.refuse

/-- A primary enters its level if the limit admits it, and leaves it. -/
theorem followsAt_primary (hd : d ≤ limit)
    (ihP : ∀ us, us.length < ts.length → d + 1 ≤ limit →
      FollowsAt limit (d + 1) us (primary g limit) (Sentence.primary g limit (d + 1) us))
    (ihG : ∀ us, us.length < ts.length → ∀ b, d + 1 ≤ limit → ∀ t, t.kind = .opening b →
      FollowsAt limit (d + 1) (t :: us) (group g limit b) (Sentence.group g limit (d + 1) b us)) :
  FollowsAt limit d ts (primary g limit) (Sentence.primary g limit d ts)
  := by
  rintro s rfl rfl
  apply Follows.succ
  simp only [primary]
  rcases Nat.lt_or_eq_of_le hd with hlt | heq
  · rw [← bind_pure (Sentence.primary g limit s.depth s.cursor.remaining)]
    apply Follows.level hlt
    · apply followsAt_bare hlt ihP ihG s.deeper rfl rfl
    · intro a s' _ _
      apply Follows.pure
  · rw [Sentence.primary_of_le (Nat.le_of_eq heq.symm)]
    apply Follows.enter_of_eq heq

theorem followsAt_group_permissive {t : Token} (ht : t.kind = .opening b)
    (ih : FollowsAt limit d ts (operands .permissive limit 0)
      (Sentence.operands .permissive limit d 0 ts)) :
  FollowsAt limit d (t :: ts) (group .permissive limit b)
    (Sentence.group .permissive limit d b ts)
  := by
  intro s hs hts
  rw [Sentence.group_permissive]
  apply Follows.succ
  simp only [group]
  apply Follows.expect hts ht
  apply (ih s.past hs (remaining_past hts)).bind
  intro a s' _ _
  apply Follows.close

theorem followsAt_group_strict {t : Token} (ht : t.kind = .opening b)
    (ih : FollowsAt limit d ts (primary .strict limit) (Sentence.primary .strict limit d ts))
    (ihlt : ∀ us, us.length < ts.length →
      FollowsAt limit d us (primary .strict limit) (Sentence.primary .strict limit d us)) :
  FollowsAt limit d (t :: ts) (group .strict limit b) (Sentence.group .strict limit d b ts)
  := by
  intro s hs hts
  rw [Sentence.group_strict]
  apply Follows.succ
  simp only [group, LawfulMonad.bind_assoc]
  apply Follows.expect hts ht
  apply (ih s.past hs (remaining_past hts)).bind
  intro l s₁ hl hs₁
  apply Follows.connective.bind
  intro c s₂ hc hs₂
  have hlt := Nat.lt_trans (Sentence.length_lt_of_joint hc) (Sentence.length_lt_of_primary hl)
  apply (ihlt _ hlt s₂ (hs₂.trans (hs₁.trans hs)) rfl).bind
  intro r s₃ _ _
  apply Follows.close

/-- Operands begin with a primary, and where that has been read there is room for one more
level. -/
theorem followsAt_operands
    (ihP : FollowsAt limit d ts (primary g limit) (Sentence.primary g limit d ts))
    (ihT : ∀ us, us.length < ts.length → ∀ left, d < limit →
      FollowsAt limit d us (tail g limit least left none)
        (Sentence.tail g limit d least left none us)) :
  FollowsAt limit d ts (operands g limit least) (Sentence.operands g limit d least ts)
  := by
  intro s hs hts
  rw [Sentence.operands_eq]
  apply Follows.succ
  simp only [operands]
  apply (ihP s hs hts).bind
  intro l s' hl hs'
  have hlt := (Sentence.primary_cases hl).1
  apply ihT _ (Sentence.length_lt_of_primary hl) l hlt s' (hs'.trans hs) rfl

/-- A tail ends where no connective of its level follows, and otherwise leaves the level of the
right operand before it goes on. -/
theorem followsAt_tail (hd : d < limit) (left : Sentence) (last? : Option Token)
    (ihO : ∀ us, us.length < ts.length → ∀ least', d + 1 ≤ limit →
      FollowsAt limit (d + 1) us (operands g limit least')
        (Sentence.operands g limit (d + 1) least' us))
    (ihT : ∀ us, us.length < ts.length → ∀ left' last?', d < limit →
      FollowsAt limit d us (tail g limit least left' last?')
        (Sentence.tail g limit d least left' last?' us)) :
  FollowsAt limit d ts (tail g limit least left last?)
    (Sentence.tail g limit d least left last? ts)
  := by
  intro s hs hts
  apply Follows.succ
  simp only [tail]
  apply Follows.peek?
  obtain hfree | ⟨t, ts, c, rfl, ht, hc⟩ := free_or_connective least ts
  · rw [Sentence.tail_of_free hfree]
    cases ts with
    | nil =>
        rw [peek?_of_remaining_nil hts, ← hts]
        apply Follows.pure
    | cons t ts =>
        rw [peek?_of_remaining hts, ← hts]
        cases hk : t.kind.connective? with
        | none =>
            simp only [hk]
            apply Follows.pure
        | some c =>
            simp only [hk, if_pos (hfree t rfl c (Sentence.connective?_eq_some_iff.mp hk))]
            apply Follows.pure
  · rw [peek?_of_remaining hts]
    simp only [Sentence.connective?_eq_some_iff.mpr ht, if_neg (Nat.not_lt.mpr hc)]
    cases hlast : conflict? last? c t with
    | some u =>
        rw [Sentence.tail_of_conflict ht hc hlast]
        apply Follows.refuse
    | none =>
        rw [Sentence.tail_of_connective ht hc hlast]
        apply Follows.advance hts
        have hpast : s.past.depth = d := hs
        apply Follows.level (hpast ▸ hd)
        · apply ihO ts (Nat.lt_succ_self _) _ hd s.past.deeper (hpast ▸ rfl) (remaining_past hts)
        · intro r s' hr hs'
          apply ihT _ _ _ _ hd s' (hs'.trans hpast) rfl
          apply Nat.lt_succ_of_lt (Sentence.length_lt_of_operands hr)

/-- Every routine follows its reader from a state within the limit, and the tail from one that
leaves room for a right operand. -/
theorem routine_follows (g : Grammar) (limit : Nat) :
  (∀ d ts, d ≤ limit → FollowsAt limit d ts (primary g limit) (Sentence.primary g limit d ts))
    ∧ (∀ d b ts, d ≤ limit → ∀ t : Token, t.kind = .opening b →
      FollowsAt limit d (t :: ts) (group g limit b) (Sentence.group g limit d b ts))
    ∧ (∀ d least ts, d ≤ limit →
      FollowsAt limit d ts (operands g limit least) (Sentence.operands g limit d least ts))
    ∧ ∀ d least left last? ts, d < limit →
      FollowsAt limit d ts (tail g limit least left last?)
        (Sentence.tail g limit d least left last? ts)
  := by
  apply Sentence.reader_induction
  · intro d ts ihP ihG hd
    apply followsAt_primary hd ihP ihG
  · intro d b ts ihP ihP' ihO hd t ht
    cases g with
    | permissive => apply followsAt_group_permissive ht (ihO hd)
    | strict =>
        apply followsAt_group_strict ht (ihP hd)
        intro us hus
        apply ihP' us hus hd
  · intro d least ts ihP ihT hd
    apply followsAt_operands (ihP hd) ihT
  · intro d least left last? ts ihO ihT hd
    apply followsAt_tail hd left last? ihO ihT

end Readers

/-! ### Calls -/

/-- A call of one of the routines that read sentences. -/
inductive Call where
  /-- An atom, a negated sentence or a group. -/
  | primary
  /-- A group with the brackets about it. -/
  | group (b : Bracket)
  /-- Operands joined by connectives of level `least` or above. -/
  | operands (least : Nat)
  deriving DecidableEq, Repr

/-- The bracket that must stand before the inside of a group. -/
def opening (b : Bracket) : List Token → Except ParseError (List Token)
  | [] => .error (.unexpectedEndExpecting (.opening b))
  | t :: ts => if t.kind = .opening b then .ok ts else .error (.mismatch (.opening b) t)

namespace Call

/-- The routine that is called. -/
def routine (g : Grammar) (limit : Nat) : Call → Nat → Action Sentence
  | primary => Descent.primary g limit
  | group b => Descent.group g limit b
  | operands least => Descent.operands g limit least

/-- The reader that the routine follows. -/
def reader (g : Grammar) (limit d : Nat) : Call → Sentence.Reader Sentence
  | primary => Sentence.primary g limit d
  | group b => fun ts => (opening b ts).bind (Sentence.group g limit d b)
  | operands least => Sentence.operands g limit d least

theorem reader_group (g : Grammar) (limit d : Nat) (b : Bracket) (ts : List Token) :
  (group b).reader g limit d ts = (opening b ts).bind (Sentence.group g limit d b)
  := rfl

end Call

section Calls

open Sentence (Free)

variable {g : Grammar} {limit d : Nat} {b : Bracket} {call : Call} {a : Sentence}
  {ts us rest : List Token}

theorem opening_eq_ok_iff :
  opening b ts = .ok us ↔ ∃ t : Token, t.kind = .opening b ∧ ts = t :: us
  := by
  cases ts with
  | nil => simp [opening]
  | cons t ts =>
      rw [opening]
      constructor
      · intro h
        split at h
        · rename_i ht
          cases h
          exact ⟨t, ht, rfl⟩
        · cases h
      · rintro ⟨u, hu, ⟨⟩⟩
        apply if_pos hu

/-- A call within the limit follows its reader. -/
theorem call_follows (call : Call) (h : d ≤ limit) :
  FollowsAt limit d ts (call.routine g limit) (call.reader g limit d ts)
  := by
  obtain ⟨hP, hG, hO, -⟩ := routine_follows g limit
  cases call with
  | primary => apply hP d ts h
  | operands least => apply hO d least ts h
  | group b =>
      intro s hs hts
      rw [Call.routine]
      cases ts with
      | nil =>
          rw [Call.reader_group, opening, error_bind]
          apply Follows.succ
          simp only [group]
          apply Follows.pass_error
          apply Cursor.expect_eq_error_iff.mpr (.inl ⟨rfl, peek?_of_remaining_nil hts⟩)
      | cons t ts =>
          rcases Decidable.em (t.kind = .opening b) with ht | ht
          · rw [Call.reader_group, opening, if_pos ht, ok_bind]
            apply hG d b ts h t ht s hs hts
          · rw [Call.reader_group, opening, if_neg ht, error_bind]
            apply Follows.succ
            simp only [group]
            apply Follows.pass_error
            apply Cursor.expect_eq_error_iff.mpr (.inr ⟨t, rfl, peek?_of_remaining hts, ht⟩)

/-- A reader passes at least one token. -/
theorem length_lt_of_reader (h : call.reader g limit d ts = .ok (a, rest)) :
  rest.length < ts.length
  := by
  cases call with
  | primary => exact Sentence.length_lt_of_primary (p := (a, rest)) h
  | operands least => exact Sentence.length_lt_of_operands (p := (a, rest)) h
  | group b =>
      obtain ⟨us, hus, hgroup⟩ := bind_eq_ok_iff.mp h
      obtain ⟨t, -, rfl⟩ := opening_eq_ok_iff.mp hus
      apply Nat.lt_succ_of_lt (Sentence.Reading.length_lt_of_outcome hgroup)

/-- A reader that succeeds passes the same tokens before all that may follow. -/
theorem exists_of_reader_eq_ok (h : call.reader g limit d ts = .ok (a, rest)) :
  ∃ k us, ts = us ++ rest ∧ Free k rest
    ∧ ∀ rest', Free k rest' → call.reader g limit d (us ++ rest') = .ok (a, rest')
  := by
  obtain ⟨hP, hG, hO, -⟩ := Sentence.reader_settled g limit
  cases call with
  | primary => exact ⟨3, (hP d ts).exists_of_ok h⟩
  | operands least => exact ⟨least, (hO d least ts).exists_of_ok h⟩
  | group b =>
      obtain ⟨vs, hvs, hgroup⟩ := bind_eq_ok_iff.mp h
      obtain ⟨t, ht, rfl⟩ := opening_eq_ok_iff.mp hvs
      obtain ⟨us, rfl, hrest, hread⟩ := (hG d b vs).exists_of_ok hgroup
      refine ⟨3, t :: us, rfl, hrest, ?_⟩
      intro rest' hrest'
      apply bind_eq_ok_iff.mpr
      exact ⟨us ++ rest', opening_eq_ok_iff.mpr ⟨t, ht, rfl⟩, hread rest' hrest'⟩

/-- What is read, and how many tokens are passed for it, depends on the tokens that are passed
and on the next one, if there is one. -/
theorem reader_eq_of_take_eq (h : call.reader g limit d ts = .ok (a, rest)) :
  ∃ n, n + rest.length = ts.length ∧ ∀ vs : List Token, vs.take (n + 1) = ts.take (n + 1) →
    n ≤ vs.length ∧ call.reader g limit d vs = .ok (a, vs.drop n)
  := by
  obtain ⟨k, us, rfl, hrest, hread⟩ := exists_of_reader_eq_ok h
  refine ⟨us.length, (List.length_append ..).symm, ?_⟩
  intro vs hvs
  have hpassed : vs.take us.length = us := by
    have := congrArg (List.take us.length) hvs
    simpa [List.take_take] using this
  have hnext : (vs.drop us.length).head? = rest.head? := by
    have := congrArg (fun ts => ts[us.length]?) hvs
    simpa [List.getElem?_append_right, List.head?_eq_getElem?] using this
  constructor
  · rw [← hpassed, List.length_take]
    apply Nat.min_le_right
  · have hfree : Free k (vs.drop us.length) := by
      rw [Free, hnext]
      apply hrest
    have hsplit : us ++ vs.drop us.length = vs := by
      have happend := List.take_append_drop us.length vs
      rwa [hpassed] at happend
    have hvs := hread _ hfree
    rwa [hsplit] at hvs

end Calls

/-- A call from a state whose level is within the limit ends.  It keeps the list of tokens, takes
the counter at most one above the limit, leaves no level that has not been entered, and fails
as its reader does.

If it returns a sentence, that is the sentence of its reader; the counter is back where it was,
and the cursor has moved by `n` tokens, at least one and none behind the last.  From any state
at the same level with the same `n + 1` tokens before it, or the same `n` if these are all, the
call returns the same sentence and moves by `n` tokens too. -/
theorem run_balanced (g : Grammar) (lim : Limits) (call : Call) (s : Descent)
    (h : s.depth ≤ lim.maxDepth) :
  ∃ x s', Ends (call.routine g lim.maxDepth) s x s'
    ∧ s'.cursor.tokens = s.cursor.tokens
    ∧ s'.peak ≤ max s.peak (lim.maxDepth + 1)
    ∧ x ≠ .error .unfinished
    ∧ x ≠ .error .underflow
    ∧ (∀ e, x = .error (.refused e) →
      call.reader g lim.maxDepth s.depth s.cursor.remaining = .error e)
    ∧ ∀ t, x = .ok t →
      call.reader g lim.maxDepth s.depth s.cursor.remaining = .ok (t, s'.cursor.remaining)
        ∧ s'.depth = s.depth
        ∧ ∃ n, 0 < n ∧ s'.cursor.pos = s.cursor.pos + n ∧ s'.cursor.pos ≤ s.cursor.tokens.length
          ∧ ∀ r : Descent, r.depth = s.depth →
            r.cursor.remaining.take (n + 1) = s.cursor.remaining.take (n + 1) →
            ∃ r', Ends (call.routine g lim.maxDepth) r (.ok t) r'
              ∧ r'.cursor.pos = r.cursor.pos + n
  := by
  have hfollows := call_follows (g := g) call h s rfl rfl
  generalize hy : call.reader g lim.maxDepth s.depth s.cursor.remaining = y at hfollows
  cases hfollows with
  | @error e s' hends hs =>
      refine ⟨_, s', hends, hs.tokens_eq, hs.peak_le, by simp, by simp, ?_, by simp⟩
      rintro _ ⟨⟩
      rfl
  | @ok t s' hends hs hdepth =>
      refine ⟨_, s', hends, hs.tokens_eq, hs.peak_le, by simp, by simp, by simp, ?_⟩
      rintro _ ⟨⟩
      obtain ⟨n, hlength, hread⟩ := reader_eq_of_take_eq hy
      have hlt := length_lt_of_reader hy
      have hpos := hs.pos_add_length
      have hremaining : s.cursor.remaining.length = s.cursor.tokens.length - s.cursor.pos :=
        List.length_drop
      refine ⟨rfl, hdepth, n, by omega, by omega, by omega, ?_⟩
      intro r hr htake
      obtain ⟨hle, hr'⟩ := hread _ htake
      have hfollows := call_follows (g := g) call (hr ▸ h) r rfl rfl
      rw [hr, hr'] at hfollows
      obtain ⟨r', hends', hs', -, hrest⟩ := hfollows.exists_of_ok
      use r', hends'
      have hpos' := hs'.pos_add_length
      rw [hrest, List.length_drop] at hpos'
      omega

/-- Within one level, behind the negation of `~P&Q->R`. -/
def midway : Descent where
  cursor :=
    { tokens := [⟨.negation, "~"⟩, ⟨.atom, "P"⟩, ⟨.connective .conjunction, "&"⟩, ⟨.atom, "Q"⟩,
        ⟨.connective .implication, "->"⟩, ⟨.atom, "R"⟩]
      pos := 1 }
  depth := 1
  peak := 1

/-- Within one level of other tokens, before the same conjunction and arrow, with a record of
greater depths. -/
def elsewhere : Descent where
  cursor :=
    { tokens := [⟨.atom, "P"⟩, ⟨.connective .conjunction, "&"⟩, ⟨.atom, "Q"⟩,
        ⟨.connective .implication, "->"⟩, ⟨.closing .square, "]"⟩]
      pos := 0 }
  depth := 1
  peak := 7

/-- Operands of level 2 are read up to the arrow, whatever stands behind it. -/
theorem midway_run_balanced :
  midway.depth ≤ 3
    ∧ (∃ s', Ends ((Call.operands 2).routine .permissive 3) midway
        (.ok (.binary .conjunction (.atom "P") (.atom "Q"))) s'
      ∧ s'.cursor.tokens = midway.cursor.tokens ∧ s'.cursor.pos = 4
      ∧ s'.depth = 1 ∧ s'.peak ≤ 4)
    ∧ ∃ r', Ends ((Call.operands 2).routine .permissive 3) elsewhere
        (.ok (.binary .conjunction (.atom "P") (.atom "Q"))) r'
      ∧ r'.cursor.pos = 3
  := by
  have hdepth : midway.depth ≤ 3 := by decide
  have hread : (Call.operands 2).reader .permissive 3 midway.depth midway.cursor.remaining
      = .ok (.binary .conjunction (.atom "P") (.atom "Q"),
          [⟨.connective .implication, "->"⟩, ⟨.atom, "R"⟩]) := by
    cbv
  obtain ⟨x, s', hends, htokens, hpeak, hfinished, hunder, herr, hok⟩ :=
    run_balanced .permissive ⟨3, 12⟩ (.operands 2) midway hdepth
  cases x with
  | error e =>
      cases e with
      | unfinished => cases hfinished rfl
      | underflow => cases hunder rfl
      | refused e => simp [hread] at herr
  | ok t =>
      obtain ⟨hreader, hs', n, -, hpos, -, hlook⟩ := hok t rfl
      rw [hread, Except.ok.injEq, Prod.mk.injEq] at hreader
      obtain ⟨rfl, hrest⟩ := hreader
      -- Two of six tokens are left, so three have been passed from the second on.
      have hlength := congrArg List.length hrest
      rw [Cursor.remaining, List.length_drop, htokens, hpos] at hlength
      obtain rfl : n = 3 := by
        simp only [midway, List.length_cons, List.length_nil] at hlength
        omega
      exact ⟨hdepth, ⟨s', hends, htokens, hpos, hs', hpeak⟩, hlook elsewhere rfl rfl⟩

end Descent

end Sentential

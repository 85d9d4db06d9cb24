import Sentential.Proofs.Sentence.Reader

/-!
# Depth limits

Two relations between outcomes.  `Agrees limit x y` says that `x` exceeds the depth `limit`,
or else that it exceeds no depth and `y` is the same; every reader agrees with itself under a
larger limit.  `Shadows limit x y` compares a strict outcome `x` with a permissive one `y` at
the same or a deeper level: if the strict reader succeeds or exceeds the limit, the permissive
one does the same or exceeds the limit.  The permissive reader goes one level deeper for the
right operand of a connective, so it never exceeds the limit later than the strict one.
-/

namespace Sentential

namespace Sentence

variable {α β : Type} {limit limit' d least : Nat} {ts : List Token}

/-! ### One grammar under two limits -/

/-- An outcome that exceeds the depth `limit`, or that exceeds no depth and is the same as
another. -/
def Agrees (limit : Nat) (x y : Except ParseError α) : Prop :=
  x = .error (.depthExceeded limit) ∨ y = x ∧ ∀ n, x ≠ .error (.depthExceeded n)

namespace Agrees

variable {x y : Except ParseError α}

theorem refl (h : ∀ n, x ≠ .error (.depthExceeded n)) :
  Agrees limit x x
  := .inr ⟨rfl, h⟩

theorem ok (a : α) :
  Agrees limit (.ok a) (.ok a)
  := refl (by simp)

theorem bind {f f' : α → Except ParseError β} (h : Agrees limit x y)
    (hf : ∀ a, x = .ok a → Agrees limit (f a) (f' a)) :
  Agrees limit (x.bind f) (y.bind f')
  := by
  obtain rfl | ⟨rfl, hx⟩ := h
  · exact .inl rfl
  · cases y with
    | error e => exact .inr ⟨rfl, by simpa using hx⟩
    | ok a => apply hf a rfl

theorem map {f : α → β} (h : Agrees limit x y) :
  Agrees limit (x.map f) (y.map f)
  := by
  obtain rfl | ⟨rfl, hx⟩ := h
  · exact .inl rfl
  · cases y with
    | error e => exact .inr ⟨rfl, by simpa [Except.map] using hx⟩
    | ok a => apply ok

end Agrees

theorem joint_ne_depthExceeded (ts : List Token) (n : Nat) :
  joint ts ≠ .error (.depthExceeded n)
  := by
  cases ts with
  | nil => simp [joint]
  | cons t ts => cases hc : t.kind.connective? <;> simp [joint, hc]

theorem close_ne_depthExceeded (b : Bracket) (p : Sentence × List Token) (n : Nat) :
  close b p ≠ .error (.depthExceeded n)
  := by
  obtain ⟨s, ts⟩ := p
  cases ts with
  | nil => simp [close]
  | cons t ts =>
      rw [close]
      split <;> simp

theorem finish_ne_depthExceeded (p : Sentence × List Token) (n : Nat) :
  finish p ≠ .error (.depthExceeded n)
  := by
  obtain ⟨s, ts⟩ := p
  cases ts <;> simp [finish]

/-- Every reader agrees with itself under a larger limit. -/
theorem reader_agrees (g : Grammar) (h : limit ≤ limit') :
  (∀ d ts, Agrees limit (primary g limit d ts) (primary g limit' d ts))
    ∧ (∀ d b ts, Agrees limit (group g limit d b ts) (group g limit' d b ts))
    ∧ (∀ d least ts, Agrees limit (operands g limit d least ts) (operands g limit' d least ts))
    ∧ ∀ d least left last? ts,
      Agrees limit (tail g limit d least left last? ts) (tail g limit' d least left last? ts)
  := by
  apply reader_induction
  · intro d ts ihP ihG
    rcases Nat.lt_or_ge d limit with hd | hd
    · have hd' := Nat.lt_of_lt_of_le hd h
      cases ts with
      | nil =>
          rw [primary_nil hd, primary_nil hd']
          apply Agrees.refl
          simp
      | cons t ts =>
          obtain ht | ht | ⟨b, ht, hb⟩ | ht := begins_cases g t.kind
          · rw [primary_atom hd ht, primary_atom hd' ht]
            apply Agrees.ok
          · rw [primary_negation hd ht, primary_negation hd' ht]
            apply (ihP ts (Nat.lt_succ_self _)).map
          · rw [primary_opening hd ht hb, primary_opening hd' ht hb]
            apply ihG ts (Nat.lt_succ_self _)
          · rw [primary_of_not_begins hd ht, primary_of_not_begins hd' ht]
            apply Agrees.refl
            simp
    · exact .inl (primary_of_le hd)
  · intro d b ts ihP ihP' ihO
    cases g with
    | permissive =>
        rw [group_permissive, group_permissive]
        apply ihO.bind
        intro p _
        apply Agrees.refl (close_ne_depthExceeded b p)
    | strict =>
        rw [group_strict, group_strict]
        apply ihP.bind
        intro l hl
        apply (Agrees.refl (joint_ne_depthExceeded l.2)).bind
        intro c hc
        apply (ihP' c.2 (Nat.lt_trans (length_lt_of_joint hc) (length_lt_of_primary hl))).bind
        intro r _
        apply Agrees.refl (close_ne_depthExceeded b _)
  · intro d least ts ihP ihT
    rw [operands_eq, operands_eq]
    apply ihP.bind
    intro l hl
    apply ihT l.2 (length_lt_of_primary hl)
  · intro d least left last? ts ihO ihT
    obtain hfree | ⟨t, ts, c, rfl, ht, hc⟩ := free_or_connective least ts
    · rw [tail_of_free hfree, tail_of_free hfree]
      apply Agrees.ok
    · cases hlast : conflict? last? c t with
      | some u =>
          rw [tail_of_conflict ht hc hlast, tail_of_conflict ht hc hlast]
          apply Agrees.refl
          simp
      | none =>
          rw [tail_of_connective ht hc hlast, tail_of_connective ht hc hlast]
          apply (ihO ts (Nat.lt_succ_self _) _).bind
          intro r hr
          apply ihT r.2 (Nat.lt_succ_of_lt (length_lt_of_operands hr))

/-- A list of tokens that does not exceed a limit is read alike under every larger one. -/
theorem parse_agrees (g : Grammar) (h : limit ≤ limit') (ts : List Token) :
  Agrees limit (parse g limit ts) (parse g limit' ts)
  := by
  cases g with
  | strict =>
      rw [parse_strict, parse_strict]
      apply ((reader_agrees .strict h).1 0 ts).bind
      intro p _
      apply Agrees.refl (finish_ne_depthExceeded p)
  | permissive =>
      rw [parse_permissive, parse_permissive]
      apply ((reader_agrees .permissive h).2.2.1 0 0 ts).bind
      intro p _
      apply Agrees.refl (finish_ne_depthExceeded p)

/-- The depth that is exceeded is the limit. -/
theorem eq_of_parse_eq_depthExceeded {g : Grammar} {n : Nat}
    (h : parse g limit ts = .error (.depthExceeded n)) :
  n = limit
  := by
  obtain hlimit | ⟨-, hne⟩ := parse_agrees g (Nat.le_refl limit) ts
  · rw [h] at hlimit
    cases hlimit
    rfl
  · cases hne n h

/-! ### Two grammars under one limit -/

/-- A permissive outcome that exceeds the depth `limit`, or is the same as a strict one, or
compares with a strict one that fails for a reason other than depth. -/
def Shadows (limit : Nat) (x y : Except ParseError α) : Prop :=
  y = .error (.depthExceeded limit) ∨ y = x ∨ ∃ e, x = .error e ∧ ∀ n, e ≠ .depthExceeded n

namespace Shadows

variable {x y : Except ParseError α}

theorem bind {f f' : α → Except ParseError β} (h : Shadows limit x y)
    (hf : ∀ a, x = .ok a → Shadows limit (f a) (f' a)) :
  Shadows limit (x.bind f) (y.bind f')
  := by
  obtain rfl | rfl | ⟨e, rfl, he⟩ := h
  · exact .inl rfl
  · cases y with
    | error e => exact .inr (.inl rfl)
    | ok a => apply hf a rfl
  · exact .inr (.inr ⟨e, rfl, he⟩)

theorem map {f : α → β} (h : Shadows limit x y) :
  Shadows limit (x.map f) (y.map f)
  := by
  obtain rfl | rfl | ⟨e, rfl, he⟩ := h
  · exact .inl rfl
  · exact .inr (.inl rfl)
  · exact .inr (.inr ⟨e, rfl, he⟩)

/-- A strict reader that exceeds the limit has a permissive one do so. -/
theorem depthExceeded {n : Nat} (h : Shadows limit x y) (hx : x = .error (.depthExceeded n))
    (hn : n = limit) :
  y = .error (.depthExceeded limit)
  := by
  obtain rfl | rfl | ⟨e, rfl, he⟩ := h
  · rfl
  · rw [hx, hn]
  · cases hx
    cases he n rfl

end Shadows

/-- A strict group is a permissive one with a single connective.  The permissive reader is at
level `d'`, which is the same as that of the strict one or deeper, and one level deeper for the
right operand. -/
theorem group_shadows {d' : Nat} (b : Bracket) (hd : d ≤ d')
    (ih : ∀ us : List Token, us.length ≤ ts.length → ∀ e e', e ≤ e' →
      Shadows limit (primary .strict limit e us) (primary .permissive limit e' us)) :
  Shadows limit (group .strict limit d b ts) (group .permissive limit d' b ts)
  := by
  rw [group_strict, group_permissive, operands_eq, bind_assoc]
  apply (ih ts (Nat.le_refl _) d d' hd).bind
  rintro ⟨l, ts'⟩ hl
  have hts' := length_lt_of_primary hl
  cases hjoint : joint ts' with
  | error e =>
      refine .inr (.inr ⟨e, rfl, ?_⟩)
      rintro n rfl
      apply joint_ne_depthExceeded ts' n hjoint
  | ok p =>
      obtain ⟨c, us⟩ := p
      have hus := length_lt_of_joint hjoint
      obtain ⟨t, ht, rfl⟩ := joint_eq_ok_iff.mp hjoint
      rw [tail_of_connective ht (Nat.zero_le _) rfl, operands_eq, bind_assoc, bind_assoc, ok_bind]
      apply (ih us (Nat.le_of_lt (Nat.lt_trans hus hts')) d (d' + 1) (Nat.le_succ_of_le hd)).bind
      rintro ⟨r, us'⟩ hr
      cases hclose : close b (.binary c l r, us') with
      | error e =>
          refine .inr (.inr ⟨e, rfl, ?_⟩)
          rintro n rfl
          apply close_ne_depthExceeded b _ n hclose
      | ok q =>
          obtain ⟨s, rest⟩ := q
          obtain ⟨-, e, rfl, he⟩ := close_eq_ok_iff.mp hclose
          have hfree : ∀ least, Free least (e :: rest) := by
            intro least
            apply free_cons_of_not_connective
            simp [he]
          rw [tail_of_free (hfree _), ok_bind, tail_of_free (hfree _), ok_bind, hclose]
          exact .inr (.inl rfl)

/-- A permissive primary at the same or a deeper level shadows a strict one. -/
theorem primary_shadows (limit : Nat) (ts : List Token) (d d' : Nat) (hd : d ≤ d') :
  Shadows limit (primary .strict limit d ts) (primary .permissive limit d' ts)
  := by
  induction h : ts.length using Nat.strongRecOn generalizing ts d d' with
  | ind n ih =>
      subst h
      rcases Nat.lt_or_ge d' limit with hlt' | hge
      · have hlt := Nat.lt_of_le_of_lt hd hlt'
        cases ts with
        | nil =>
            rw [primary_nil hlt, primary_nil hlt']
            exact .inr (.inl rfl)
        | cons t ts =>
            obtain ht | ht | ⟨b, ht, hb⟩ | ht := begins_cases .strict t.kind
            · rw [primary_atom hlt ht, primary_atom hlt' ht]
              exact .inr (.inl rfl)
            · rw [primary_negation hlt ht, primary_negation hlt' ht]
              apply (ih _ (Nat.lt_succ_self _) ts _ _ (Nat.succ_le_succ hd) rfl).map
            · rw [primary_opening hlt ht hb, primary_opening hlt' ht (by cases b <;> rfl)]
              apply group_shadows b (Nat.succ_le_succ hd)
              intro us hus e e' he
              apply ih _ (Nat.lt_succ_of_le hus) us e e' he rfl
            · rw [primary_of_not_begins hlt ht]
              exact .inr (.inr ⟨_, rfl, by simp⟩)
      · exact .inl (primary_of_le hge)

/-- Tokens that exceed the limit for the strict grammar exceed it for the permissive one. -/
theorem parse_permissive_eq_depthExceeded {n : Nat}
    (h : parse .strict limit ts = .error (.depthExceeded n)) :
  parse .permissive limit ts = .error (.depthExceeded limit)
  := by
  have hn := eq_of_parse_eq_depthExceeded h
  rw [parse_strict, bind_eq_error_iff] at h
  obtain hprimary | ⟨p, -, hfinish⟩ := h
  · have hpermissive := (primary_shadows limit ts 0 0 (Nat.le_refl 0)).depthExceeded hprimary hn
    rw [parse_permissive, operands_eq, hpermissive]
    rfl
  · cases finish_ne_depthExceeded p n hfinish

end Sentence

end Sentential

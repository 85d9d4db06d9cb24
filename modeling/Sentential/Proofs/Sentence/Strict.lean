import Sentential.Proofs.Sentence.Permissive

/-!
# The strict grammar

`Formal ts s` says that the tokens `ts` are the sentence `s` written with round brackets about
every binary sentence and nowhere else.  The strict reader accepts exactly these, and needs as
many levels as the sentence has.  They are primaries of the permissive grammar as well, which
needs one more level for the right operand of every connective.
-/

namespace Sentential

namespace Sentence

/-- Tokens that write a sentence with round brackets about every binary sentence. -/
inductive Formal : List Token → Sentence → Prop
  | atom {t : Token} (ht : t.kind = .atom) : Formal [t] (.atom t.text)
  | negation {t : Token} {ts : List Token} {s : Sentence} (ht : t.kind = .negation)
      (h : Formal ts s) : Formal (t :: ts) (.negation s)
  | binary {o t e : Token} {c : Connective} {ts us : List Token} {l r : Sentence}
      (ho : o.kind = .opening .round) (hl : Formal ts l) (ht : t.kind = .connective c)
      (hr : Formal us r) (he : e.kind = .closing .round) :
      Formal (o :: (ts ++ t :: us) ++ [e]) (.binary c l r)

/-! ### What is formal is read -/

/-- The strict reader reads a formal sentence, whatever follows it. -/
theorem Formal.primary_eq {us : List Token} {s : Sentence} (h : Formal us s) (limit d : Nat)
    (rest : List Token) :
  primary .strict limit d (us ++ rest) = within limit (d + s.depth) (.ok (s, rest))
  := by
  induction h generalizing d rest with
  | atom ht =>
      apply primary_eq_within (depth_pos _)
      intro hd
      rw [List.singleton_append, primary_atom hd ht, depth, within_of_le hd]
  | negation ht _ ih =>
      apply primary_eq_within (depth_pos _)
      intro hd
      rw [List.cons_append, primary_negation hd ht, ih, within_map, depth, Nat.add_right_comm]
      rfl
  | @binary o t e c ts us l r ho _ ht _ he ihl ihr =>
      apply primary_eq_within (depth_pos _)
      intro hd
      have hgroup : o :: (ts ++ t :: us) ++ [e] ++ rest = o :: (ts ++ t :: (us ++ e :: rest)) := by
        simp
      have hjoint : joint (t :: (us ++ e :: rest)) = .ok (c, us ++ e :: rest) := by
        apply joint_eq_ok_iff.mpr
        use t
      rw [hgroup, primary_opening hd ho rfl, group_strict, ihl, within_bind, ok_bind, hjoint,
        ok_bind, ihr, within_bind, ok_bind, close, if_pos he, within_within, depth]
      congr 1
      omega

/-- The strict reader accepts a formal sentence when the limit allows for its levels, and
otherwise exceeds it. -/
theorem Formal.parse_eq {ts : List Token} {s : Sentence} (h : Formal ts s) (limit : Nat) :
  parse .strict limit ts = within limit s.depth (.ok s)
  := by
  have hprimary := h.primary_eq limit 0 []
  rw [List.append_nil, Nat.zero_add] at hprimary
  rw [parse_strict, hprimary, within_bind]
  rfl

/-! ### What is read is formal -/

/-- The strict reader reads formal sentences only. -/
theorem formal_of_primary {limit d : Nat} {ts rest : List Token} {s : Sentence}
    (h : primary .strict limit d ts = .ok (s, rest)) :
  ∃ us, ts = us ++ rest ∧ Formal us s
  := by
  induction hn : ts.length using Nat.strongRecOn generalizing d ts s rest with
  | ind n ih =>
      subst hn
      obtain ⟨-, t, ts, rfl, ⟨ht, rfl, rfl⟩ | ⟨ht, s', rfl, hs⟩ | ⟨b, ht, hb, hgroup⟩⟩ :=
        primary_cases h
      · use [t], rfl, Formal.atom ht
      · obtain ⟨us, rfl, hus⟩ := ih _ (Nat.lt_succ_self _) hs rfl
        use t :: us, rfl, Formal.negation ht hus
      · cases b with
        | square => cases hb
        | round =>
            obtain ⟨c, l, r, k, e, us, hl, hk, hr, he, rfl⟩ := group_strict_cases hgroup
            have hlt := length_lt_of_primary hl
            rw [List.length_cons] at hlt
            obtain ⟨vs, rfl, hvs⟩ := ih _ (Nat.lt_succ_self _) hl rfl
            obtain ⟨ws, rfl, hws⟩ := ih us.length (by rw [List.length_cons]; omega) hr rfl
            use t :: (vs ++ k :: ws) ++ [e]
            constructor
            · simp
            · apply Formal.binary ht hvs hk hws he

/-- A list of tokens that the strict grammar accepts is a formal sentence. -/
theorem formal_of_parse {limit : Nat} {ts : List Token} {s : Sentence}
    (h : parse .strict limit ts = .ok s) :
  Formal ts s
  := by
  rw [parse_strict, bind_eq_ok_iff] at h
  obtain ⟨p, hp, hfinish⟩ := h
  cases finish_eq_ok_iff.mp hfinish
  obtain ⟨us, rfl, hus⟩ := formal_of_primary hp
  rw [List.append_nil]
  apply hus

/-- The strict grammar accepts the formal sentences that have no more levels than the limit. -/
theorem parse_strict_eq_ok_iff {limit : Nat} {ts : List Token} {s : Sentence} :
  parse .strict limit ts = .ok s ↔ Formal ts s ∧ s.depth ≤ limit
  := by
  constructor
  · intro h
    have hformal := formal_of_parse h
    rw [hformal.parse_eq, within] at h
    split at h
    · rename_i hdepth
      exact ⟨hformal, hdepth⟩
    · cases h
  · rintro ⟨hformal, hdepth⟩
    rw [hformal.parse_eq, within_of_le hdepth]

/-! ### Formal sentences are permissive ones -/

/-- The number of levels that the permissive grammar needs for a formal sentence. -/
def permissiveDepth : Sentence → Nat
  | atom _ => 1
  | negation s => s.permissiveDepth + 1
  | binary _ l r => max l.permissiveDepth (r.permissiveDepth + 1) + 1

theorem Formal.derives {ts : List Token} {s : Sentence} (h : Formal ts s) :
  Derives .primary s.permissiveDepth ts s
  := by
  induction h with
  | atom ht => apply Derives.atom ht
  | negation ht _ ih => apply Derives.negation ht ih
  | @binary o t e c ts us l r ho _ ht _ he ihl ihr =>
      apply Derives.group ho _ he
      cases hc : c.isJunction with
      | true => apply Derives.whole (Derives.junction (Derives.chain hc ihl) ht ihr)
      | false =>
          have hleft : Derives (.chain .conjunction) _ ts l := Derives.chain rfl ihl
          have hright : Derives (.chain .conjunction) _ us r := Derives.chain rfl ihr
          apply Derives.conditional (Derives.whole hleft) ht hc hright

/-- The permissive grammar accepts a formal sentence when the limit allows for the levels that
it needs there, and otherwise exceeds it. -/
theorem Formal.parse_permissive_eq {ts : List Token} {s : Sentence} (h : Formal ts s)
    (limit : Nat) :
  parse .permissive limit ts = within limit s.permissiveDepth (.ok s)
  := by
  have hchain : Derives (.chain .conjunction) s.permissiveDepth ts s := Derives.chain rfl h.derives
  apply (Derives.whole hchain).parse_eq

/-- The permissive grammar needs fewer than two levels for each level of a sentence. -/
theorem permissiveDepth_lt (s : Sentence) :
  s.permissiveDepth < 2 * s.depth
  := by
  induction s with
  | atom name => exact Nat.one_lt_two
  | negation s ih =>
      rw [permissiveDepth, depth]
      omega
  | binary c l r ihl ihr =>
      rw [permissiveDepth, depth]
      omega

/-! ### Whole lists of tokens -/

/-- The strict grammar accepts exactly the formal sentences that have no more levels than the
limit.  The permissive grammar accepts them as the same sentences, if the limit allows for the
levels that it needs, and never needs twice as many. -/
theorem parse_remaining_eq_ok_iff_formal (c : Cursor) (lim lim' : Limits) (s : Sentence) :
  (parse .strict lim.maxDepth c.remaining = .ok s
      ↔ Formal c.remaining s ∧ s.depth ≤ lim.maxDepth)
    ∧ (Formal c.remaining s →
      (s.permissiveDepth ≤ lim'.maxDepth → parse .permissive lim'.maxDepth c.remaining = .ok s)
        ∧ (lim'.maxDepth < s.permissiveDepth →
          parse .permissive lim'.maxDepth c.remaining = .error (.depthExceeded lim'.maxDepth)))
    ∧ s.permissiveDepth ≤ 2 * s.depth - 1
  := by
  refine ⟨parse_strict_eq_ok_iff, ?_, Nat.le_sub_one_of_lt s.permissiveDepth_lt⟩
  intro hformal
  rw [hformal.parse_permissive_eq]
  constructor
  · intro hdepth
    apply within_of_le hdepth
  · intro hdepth
    apply if_neg (Nat.not_le.mpr hdepth)

/-- An implication whose conclusion is an implication. -/
def nestedImplication : Sentence :=
  .binary .implication (.atom "P") (.binary .implication (.atom "Q") (.atom "R"))

/-- The tokens of `(P->(Q->R))`. -/
def nestedTokens : List Token :=
  [⟨.opening .round, "("⟩, ⟨.atom, "P"⟩, ⟨.connective .implication, "->"⟩,
    ⟨.opening .round, "("⟩, ⟨.atom, "Q"⟩, ⟨.connective .implication, "->"⟩, ⟨.atom, "R"⟩,
    ⟨.closing .round, ")"⟩, ⟨.closing .round, ")"⟩]

/-- The permissive grammar needs five levels where the strict one needs three. -/
theorem nestedTokens_parse_eq :
  Formal nestedTokens nestedImplication
    ∧ parse .strict 3 nestedTokens = .ok nestedImplication
    ∧ parse .permissive 4 nestedTokens = .error (.depthExceeded 4)
    ∧ parse .permissive 5 nestedTokens = .ok nestedImplication
  := by
  have hinner : Formal (nestedTokens.drop 3).dropLast
      (.binary .implication (.atom "Q") (.atom "R")) :=
    @Formal.binary _ _ _ _ [_] [_] _ _ rfl (Formal.atom rfl) rfl (Formal.atom rfl) rfl
  have hformal : Formal nestedTokens nestedImplication :=
    @Formal.binary _ _ _ _ [_] _ _ _ rfl (Formal.atom rfl) rfl hinner rfl
  have hlimit (limit : Nat) := parse_remaining_eq_ok_iff_formal (.ofList nestedTokens) ⟨3, 12⟩
    ⟨limit, 12⟩ nestedImplication
  have hstrict : parse .strict 3 nestedTokens = .ok nestedImplication :=
    (hlimit 3).1.mpr ⟨hformal, by decide⟩
  use hformal, hstrict, ((hlimit 4).2.1 hformal).2 (by decide)
  apply ((hlimit 5).2.1 hformal).1 (by decide)

end Sentence

end Sentential

import Sentential.Limits
import Sentential.Proofs.Sentence.Reader
import Mathlib.Tactic.Use

/-!
# The permissive grammar

`Derives p n ts s` says that the tokens `ts` are a phrase of sort `p` that stands for the
sentence `s`, nested `n` levels.  A whole sentence is a list of chains with implications and
equivalences between them, a chain a list of primaries with conjunctions or with disjunctions
between them, and both group to the left.  Every operand but the first of a list is one level
deeper than the list.  The permissive reader accepts exactly the whole sentences that are
nested no deeper than its limit.
-/

namespace Sentential

/-- A connective that is no junction is of level 1. -/
theorem Connective.precedence_of_not_junction {c : Connective} (h : c.isJunction = false) :
  c.precedence = 1
  := by
  cases c with
  | conjunction | disjunction => cases h
  | implication | equivalence => rfl

namespace Sentence

/-- The sorts of phrases. -/
inductive Phrase where
  | primary
  | chain (c : Connective)
  | whole

/-- Tokens that form a phrase of some sort, with its nesting and the sentence it stands for. -/
inductive Derives : Phrase → Nat → List Token → Sentence → Prop
  | atom {t : Token} (ht : t.kind = .atom) : Derives .primary 1 [t] (.atom t.text)
  | negation {t : Token} {n : Nat} {ts : List Token} {s : Sentence} (ht : t.kind = .negation)
      (h : Derives .primary n ts s) : Derives .primary (n + 1) (t :: ts) (.negation s)
  | group {o e : Token} {b : Bracket} {n : Nat} {ts : List Token} {s : Sentence}
      (ho : o.kind = .opening b) (h : Derives .whole n ts s) (he : e.kind = .closing b) :
      Derives .primary (n + 1) (o :: ts ++ [e]) s
  | chain {c : Connective} {n : Nat} {ts : List Token} {s : Sentence} (hc : c.isJunction = true)
      (h : Derives .primary n ts s) : Derives (.chain c) n ts s
  | junction {c : Connective} {t : Token} {m n : Nat} {ts us : List Token} {l r : Sentence}
      (hl : Derives (.chain c) m ts l) (ht : t.kind = .connective c)
      (hr : Derives .primary n us r) :
      Derives (.chain c) (max m (n + 1)) (ts ++ t :: us) (.binary c l r)
  | whole {c : Connective} {n : Nat} {ts : List Token} {s : Sentence}
      (h : Derives (.chain c) n ts s) : Derives .whole n ts s
  | conditional {c c' : Connective} {t : Token} {m n : Nat} {ts us : List Token} {l r : Sentence}
      (hl : Derives .whole m ts l) (ht : t.kind = .connective c) (hc : c.isJunction = false)
      (hr : Derives (.chain c') n us r) :
      Derives .whole (max m (n + 1)) (ts ++ t :: us) (.binary c l r)

theorem Derives.isJunction {c : Connective} {n : Nat} {ts : List Token} {s : Sentence}
    (h : Derives (.chain c) n ts s) :
  c.isJunction = true
  := by
  generalize hp : Phrase.chain c = p at h
  induction h with
  | chain hc h ih =>
      cases hp
      apply hc
  | junction hl ht hr ihl ihr =>
      cases hp
      apply ihl rfl
  | _ => cases hp

/-- The names of the atoms among some tokens, from left to right. -/
def atomNames (ts : List Token) : List String :=
  (ts.filter fun t => decide (t.kind = .atom)).map (·.text)

/-- The sentence of a phrase has the atoms of its tokens, in their order. -/
theorem Derives.leaves_eq {p : Phrase} {n : Nat} {ts : List Token} {s : Sentence}
    (h : Derives p n ts s) :
  s.leaves = atomNames ts
  := by
  induction h with
  | atom ht => simp [leaves, atomNames, ht]
  | negation ht _ ih => simp [leaves, ih, atomNames, ht]
  | group ho _ he ih => simp [ih, atomNames, ho, he]
  | chain _ _ ih => apply ih
  | whole _ ih => apply ih
  | junction _ ht _ ihl ihr => simp [leaves, ihl, ihr, atomNames, ht]
  | conditional _ ht _ _ ihl ihr => simp [leaves, ihl, ihr, atomNames, ht]

/-! ### What is derived is read -/

/-- What the permissive reader does with tokens that begin with a phrase.  It reads a primary
to its end.  Behind a chain or a whole sentence it has the state of a tail that has read it;
the last junction that it remembers is then one of the chain. -/
def Phrase.Read : Phrase → Nat → List Token → Sentence → Prop
  | primary, n, us, s => ∀ limit d rest,
      Sentence.primary .permissive limit d (us ++ rest) = within limit (d + n) (.ok (s, rest))
  | chain c, n, us, s => ∃ last? : Option Token, (∀ t ∈ last?, t.kind = .connective c) ∧
      ∀ limit d least rest, least ≤ 2 →
        operands .permissive limit d least (us ++ rest)
          = within limit (d + n) (tail .permissive limit d least s last? rest)
  | whole, n, us, s => ∃ last? : Option Token,
      ∀ limit d least rest, least ≤ 1 → Free 2 rest →
        operands .permissive limit d least (us ++ rest)
          = within limit (d + n) (tail .permissive limit d least s last? rest)

theorem conflict?_eq_none_of_kind {last? : Option Token} {c : Connective} {t : Token}
    (ht : t.kind = .connective c) (h : ∀ u ∈ last?, u.kind = .connective c) :
  conflict? last? c t = none
  := by
  cases last? with
  | none => rfl
  | some u => simp [conflict?, ht, h u rfl]

theorem conflict?_eq_none_of_not_junction {c : Connective} (hc : c.isJunction = false)
    (last? : Option Token) (t : Token) :
  conflict? last? c t = none
  := by
  cases last? with
  | none => rfl
  | some u => simp [conflict?, hc]

section Read

variable {c c' : Connective} {o t e : Token} {b : Bracket} {m n : Nat} {ts us : List Token}
  {l r s : Sentence}

theorem read_atom (ht : t.kind = .atom) :
  Phrase.primary.Read 1 [t] (.atom t.text)
  := by
  intro limit d rest
  apply primary_eq_within Nat.one_pos
  intro hd
  rw [List.singleton_append, primary_atom hd ht, within_of_le hd]

theorem read_negation (ht : t.kind = .negation) (h : Phrase.primary.Read n ts s) :
  Phrase.primary.Read (n + 1) (t :: ts) (.negation s)
  := by
  intro limit d rest
  apply primary_eq_within (Nat.succ_pos n)
  intro hd
  rw [List.cons_append, primary_negation hd ht, h, within_map, Nat.add_right_comm d 1 n]
  rfl

/-- No connective follows the inside of a group, so that its tail ends at the bracket. -/
theorem read_group (ho : o.kind = .opening b) (h : Phrase.whole.Read n ts s)
    (he : e.kind = .closing b) :
  Phrase.primary.Read (n + 1) (o :: ts ++ [e]) s
  := by
  obtain ⟨last?, hread⟩ := h
  intro limit d rest
  apply primary_eq_within (Nat.succ_pos n)
  intro hd
  have hfree : ∀ least, Free least (e :: rest) := by
    intro least
    apply free_cons_of_not_connective
    simp [he]
  have hgroup : o :: ts ++ [e] ++ rest = o :: (ts ++ e :: rest) := by simp
  rw [hgroup, primary_opening hd ho (by cases b <;> rfl), group_permissive,
    hread limit (d + 1) 0 (e :: rest) (by decide) (hfree 2), within_bind,
    tail_of_free (hfree 0), Nat.add_right_comm d 1 n, ok_bind, close, if_pos he, Nat.add_assoc]

theorem read_chain (h : Phrase.primary.Read n ts s) :
  (Phrase.chain c).Read n ts s
  := by
  use none
  refine ⟨by simp, ?_⟩
  intro limit d least rest _
  rw [operands_eq, h, within_bind, ok_bind]

/-- Of the operand of a junction no more than a primary is read, since no connective is above
level 2. -/
theorem read_junction (hl : (Phrase.chain c).Read m ts l) (hc : c.isJunction = true)
    (ht : t.kind = .connective c) (hr : Phrase.primary.Read n us r) :
  (Phrase.chain c).Read (max m (n + 1)) (ts ++ t :: us) (.binary c l r)
  := by
  obtain ⟨last?, hlast, hread⟩ := hl
  have hprec := Connective.isJunction_iff_precedence.mp hc
  use remember c t
  constructor
  · simp [remember, hc, ht]
  · intro limit d least rest hleast
    rw [List.append_assoc, List.cons_append, hread limit d least _ hleast,
      tail_of_connective ht (hprec ▸ hleast) (conflict?_eq_none_of_kind ht hlast), operands_eq,
      hr, within_bind, ok_bind, hprec, tail_of_free (free_three rest), within_bind, ok_bind,
      within_within]
    congr 1
    omega

theorem read_whole (h : (Phrase.chain c).Read n ts s) :
  Phrase.whole.Read n ts s
  := by
  obtain ⟨last?, -, hread⟩ := h
  use last?
  intro limit d least rest hleast _
  apply hread limit d least rest (Nat.le_succ_of_le hleast)

/-- The operand of an implication or equivalence is read up to the next connective of level 1,
so that all of its chain is read. -/
theorem read_conditional (hl : Phrase.whole.Read m ts l) (ht : t.kind = .connective c)
    (hc : c.isJunction = false) (hr : (Phrase.chain c').Read n us r) :
  Phrase.whole.Read (max m (n + 1)) (ts ++ t :: us) (.binary c l r)
  := by
  obtain ⟨last?, hread⟩ := hl
  obtain ⟨last?', -, hread'⟩ := hr
  have hprec := Connective.precedence_of_not_junction hc
  use remember c t
  intro limit d least rest hleast hfree
  have hstart : Free 2 (t :: (us ++ rest)) := by
    apply free_cons ht
    rw [hprec]
    exact Nat.one_lt_two
  rw [List.append_assoc, List.cons_append, hread limit d least _ hleast hstart,
    tail_of_connective ht (hprec ▸ hleast) (conflict?_eq_none_of_not_junction hc last? t), hprec,
    hread' limit (d + 1) 2 rest (Nat.le_refl 2), tail_of_free hfree, within_bind, ok_bind,
    within_within]
  congr 1
  omega

end Read

/-- The permissive reader reads every phrase. -/
theorem Derives.read {p : Phrase} {n : Nat} {us : List Token} {s : Sentence}
    (h : Derives p n us s) :
  p.Read n us s
  := by
  induction h with
  | atom ht => apply read_atom ht
  | negation ht _ ih => apply read_negation ht ih
  | group ho _ he ih => apply read_group ho ih he
  | chain _ _ ih => apply read_chain ih
  | junction hl ht _ ihl ihr => apply read_junction ihl hl.isJunction ht ihr
  | whole _ ih => apply read_whole ih
  | conditional _ ht hc _ ihl ihr => apply read_conditional ihl ht hc ihr

/-! ### What is read is derived -/

/-- The state of a tail.  The tokens `ts` that have been read make up the sentence `s`, nested
`n` levels, and `rest` follows.  They are a primary, or a chain whose last junction is
remembered, or a list of chains; in the last case no junction follows, since it would have been
read with the last of the chains. -/
inductive Folded (least : Nat) :
    Option Token → Nat → List Token → Sentence → List Token → Prop
  | primary {n : Nat} {ts rest : List Token} {s : Sentence} (h : Derives .primary n ts s) :
      Folded least none n ts s rest
  | chain {c : Connective} {t : Token} {n : Nat} {ts rest : List Token} {s : Sentence}
      (hleast : least ≤ 2) (ht : t.kind = .connective c) (h : Derives (.chain c) n ts s) :
      Folded least (some t) n ts s rest
  | whole {n : Nat} {ts rest : List Token} {s : Sentence} (hleast : least ≤ 1)
      (h : Derives .whole n ts s) (hrest : Free 2 rest) : Folded least none n ts s rest

section Folded

variable {least n : Nat} {last? : Option Token} {ts rest : List Token} {s : Sentence}

theorem Folded.derives_whole (h : Folded least last? n ts s rest) :
  Derives .whole n ts s
  := by
  cases h with
  | primary h =>
      apply Derives.whole
      apply Derives.chain (c := .conjunction) rfl h
  | chain _ _ h => apply Derives.whole h
  | whole _ h _ => apply h

/-- Operands of level 2 are a chain. -/
theorem Folded.derives_chain (h : Folded 2 last? n ts s rest) :
  ∃ c, Derives (.chain c) n ts s
  := by
  cases h with
  | primary h =>
      use .conjunction
      apply Derives.chain rfl h
  | @chain c _ _ _ _ _ _ _ h => use c
  | whole hleast _ _ => simp at hleast

/-- Operands above all levels are a primary. -/
theorem Folded.derives_primary (h : Folded 3 last? n ts s rest) :
  Derives .primary n ts s
  := by
  cases h with
  | primary h => apply h
  | chain hleast _ _ => simp at hleast
  | whole hleast _ _ => simp at hleast

/-- Unless a junction that follows is in conflict with the last one, it joins the chain. -/
theorem Folded.derives_chain_of_junction {c : Connective} {t : Token}
    (h : Folded least last? n ts s (t :: rest)) (ht : t.kind = .connective c)
    (hc : c.isJunction = true) (hlast : conflict? last? c t = none) :
  Derives (.chain c) n ts s
  := by
  cases h with
  | primary h => apply Derives.chain hc h
  | @chain c' u _ _ _ _ _ hu h =>
      have hkind : u.kind = t.kind := by simpa [conflict?, hc] using hlast
      rw [hu, ht] at hkind
      cases hkind
      apply h
  | whole _ _ hrest =>
      have hlt := hrest t rfl c ht
      rw [Connective.isJunction_iff_precedence.mp hc] at hlt
      cases Nat.lt_irrefl 2 hlt

/-- One more connective and operand are folded into what has been read. -/
theorem Folded.snoc {c : Connective} {t : Token} {last?' : Option Token} {m : Nat}
    {us rest' : List Token} {r : Sentence} (h : Folded least last? n ts s (t :: rest))
    (ht : t.kind = .connective c) (hc : least ≤ c.precedence) (hlast : conflict? last? c t = none)
    (hr : Folded (c.precedence + 1) last?' m us r rest') (hfree : Free (c.precedence + 1) rest') :
  Folded least (remember c t) (max n (m + 1)) (ts ++ t :: us) (.binary c s r) rest'
  := by
  cases hj : c.isJunction with
  | true =>
      rw [Connective.isJunction_iff_precedence.mp hj] at hr hc
      simp only [remember, hj, if_true]
      apply Folded.chain hc ht
      apply Derives.junction (h.derives_chain_of_junction ht hj hlast) ht hr.derives_primary
  | false =>
      rw [Connective.precedence_of_not_junction hj] at hr hc hfree
      obtain ⟨c', hr⟩ := hr.derives_chain
      simp only [remember, hj]
      apply Folded.whole hc (Derives.conditional h.derives_whole ht hj hr) hfree

end Folded

/-- Tokens `ts` behind some that have been read are read up to `rest`, within the limit `limit`
at level `d`. -/
def ReadsTo (limit d least : Nat) (us ts : List Token) (s : Sentence) (rest : List Token) : Prop :=
  ∃ last? n vs, ts = vs ++ rest ∧ Folded least last? n (us ++ vs) s rest ∧ Free least rest
    ∧ d + n ≤ limit

/-- The permissive reader reads phrases only. -/
theorem derives_of_read (limit : Nat) :
  (∀ d ts s rest, primary .permissive limit d ts = .ok (s, rest) →
      ∃ n us, ts = us ++ rest ∧ Derives .primary n us s ∧ d + n ≤ limit)
    ∧ (∀ d b ts s rest, group .permissive limit d b ts = .ok (s, rest) →
      ∃ n us e, ts = us ++ e :: rest ∧ e.kind = .closing b ∧ Derives .whole n us s
        ∧ d + n ≤ limit)
    ∧ (∀ d least ts s rest, operands .permissive limit d least ts = .ok (s, rest) →
      ReadsTo limit d least [] ts s rest)
    ∧ ∀ d least left last? ts, ∀ s rest n us, tail .permissive limit d least left last? ts = .ok (s, rest) →
      Folded least last? n us left ts → d + n ≤ limit → ReadsTo limit d least us ts s rest
  := by
  apply reader_induction
  · intro d ts ihP ihG s rest h
    obtain ⟨hd, t, ts, rfl, ⟨ht, rfl, rfl⟩ | ⟨ht, s', rfl, hs⟩ | ⟨b, ht, -, hgroup⟩⟩ :=
      primary_cases h
    · refine ⟨1, [t], rfl, Derives.atom ht, hd⟩
    · obtain ⟨n, us, rfl, hus, hn⟩ := ihP ts (Nat.lt_succ_self _) s' rest hs
      refine ⟨n + 1, t :: us, rfl, Derives.negation ht hus, by omega⟩
    · obtain ⟨n, us, e, rfl, he, hus, hn⟩ := ihG ts (Nat.lt_succ_self _) b s rest hgroup
      refine ⟨n + 1, t :: us ++ [e], by simp, Derives.group ht hus he, by omega⟩
  · intro d b ts _ _ ihO s rest h
    obtain ⟨e, hoperands, he⟩ := group_permissive_cases h
    obtain ⟨last?, n, vs, rfl, hfold, -, hn⟩ := ihO s (e :: rest) hoperands
    refine ⟨n, vs, e, rfl, he, hfold.derives_whole, hn⟩
  · intro d least ts ihP ihT s rest h
    obtain ⟨l, us, hl, htail⟩ := operands_cases h
    obtain ⟨n, vs, rfl, hprimary, hn⟩ := ihP l us hl
    obtain ⟨last?, m, ws, rfl, hfold, hfree, hm⟩ :=
      ihT us (length_lt_of_primary hl) l s rest n vs htail (.primary hprimary) hn
    refine ⟨last?, m, vs ++ ws, by simp, by simpa using hfold, hfree, hm⟩
  · intro d least left last? ts ihO ihT s rest n us h hfold hn
    obtain ⟨hfree, rfl, rfl⟩ | ⟨c, t, ts, r, ts', rfl, ht, hc, hlast, hr, htail⟩ := tail_cases h
    · refine ⟨last?, n, [], rfl, by simpa using hfold, hfree, hn⟩
    · have hlt := length_lt_of_operands hr
      obtain ⟨last?', m, vs, rfl, hfold', hfree', hm⟩ := ihO ts (Nat.lt_succ_self _) _ r ts' hr
      obtain ⟨last?'', k, ws, rfl, hfold'', hfree'', hk⟩ :=
        ihT ts' (Nat.lt_succ_of_lt hlt) _ _ s rest _ _ htail
          (hfold.snoc ht hc hlast hfold' hfree') (by omega)
      refine ⟨last?'', k, t :: vs ++ ws, by simp, by simpa using hfold'', hfree'', hk⟩

/-! ### Whole lists of tokens -/

/-- The tokens of a whole sentence are accepted when the limit allows for their nesting, and
otherwise exceed it. -/
theorem Derives.parse_eq {n : Nat} {ts : List Token} {s : Sentence} (h : Derives .whole n ts s)
    (limit : Nat) :
  parse .permissive limit ts = within limit n (.ok s)
  := by
  obtain ⟨last?, hread⟩ := h.read
  have hfree : ∀ least, Free least [] := by simp [Free]
  have hoperands := hread limit 0 0 [] (by decide) (hfree 2)
  rw [List.append_nil, tail_of_free (hfree 0), Nat.zero_add] at hoperands
  rw [parse_permissive, hoperands, within_bind]
  rfl

/-- A list of tokens that the permissive grammar accepts is a whole sentence. -/
theorem derives_of_parse {limit : Nat} {ts : List Token} {s : Sentence}
    (h : parse .permissive limit ts = .ok s) :
  ∃ n ≤ limit, Derives .whole n ts s
  := by
  rw [parse_permissive, bind_eq_ok_iff] at h
  obtain ⟨p, hp, hfinish⟩ := h
  cases finish_eq_ok_iff.mp hfinish
  obtain ⟨last?, n, us, rfl, hfold, -, hn⟩ := (derives_of_read limit).2.2.1 _ _ _ _ _ hp
  rw [Nat.zero_add] at hn
  use n, hn
  rw [List.append_nil]
  apply hfold.derives_whole

/-- From any place in a list of tokens on, the permissive grammar accepts exactly the whole
sentences that are nested no deeper than the limit. -/
theorem parse_remaining_eq_ok_iff_derives (c : Cursor) (lim : Limits) (s : Sentence) :
  parse .permissive lim.maxDepth c.remaining = .ok s
    ↔ ∃ n ≤ lim.maxDepth, Derives .whole n c.remaining s
  := by
  constructor
  · apply derives_of_parse
  · rintro ⟨n, hn, h⟩
    rw [h.parse_eq lim.maxDepth, within_of_le hn]

end Sentence

end Sentential

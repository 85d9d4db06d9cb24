import Sentential.Proofs.Sentence.Permissive
import Sentential.Proofs.Sentence.Viable

/-!
# Ambiguity

A conjunction and a disjunction may not stand about the same operand.  The permissive grammar
reports two such junctions exactly when a primary stands between them and the tokens before the
second are viable.  One half is that what a reader reports is `Justified`: the junctions clash
among its tokens, and those before the second can still be completed.  The other half takes a
reading that passes the first junction and puts the second behind its operand: the reader then
`Stops` there.  Both are proved of one reader behind another and so of all readers.
-/

namespace Sentential

namespace Sentence

/-- One of two tokens is a conjunction and the other a disjunction. -/
def Mixed (t u : Token) : Prop :=
  t.kind = .connective .conjunction ∧ u.kind = .connective .disjunction
    ∨ t.kind = .connective .disjunction ∧ u.kind = .connective .conjunction

/-- A token of a conjunction or a disjunction. -/
def IsJunction (t : Token) : Prop := ∃ c, t.kind = .connective c ∧ c.isJunction = true

variable {limit d least k k' : Nat} {t u : Token} {ts ws : List Token}

/-! ### Mixed junctions -/

theorem Mixed.symm (h : Mixed t u) :
  Mixed u t
  := by
  obtain ⟨ht, hu⟩ | ⟨ht, hu⟩ := h
  · exact .inr ⟨hu, ht⟩
  · exact .inl ⟨hu, ht⟩

theorem Mixed.isJunction (h : Mixed t u) :
  IsJunction t
  := by
  obtain ⟨ht, -⟩ | ⟨ht, -⟩ := h
  · use .conjunction, ht
    rfl
  · use .disjunction, ht
    rfl

theorem IsJunction.precedence (h : IsJunction t) {c : Connective} (ht : t.kind = .connective c) :
  c.precedence = 2
  := by
  obtain ⟨c', hc', hj⟩ := h
  rw [ht] at hc'
  cases hc'
  apply Connective.isJunction_iff_precedence.mp hj

theorem Mixed.kind_ne (h : Mixed t u) :
  t.kind ≠ u.kind
  := by
  obtain ⟨ht, hu⟩ | ⟨ht, hu⟩ := h <;> simp [ht, hu]

/-- Junctions of different kinds are mixed. -/
theorem mixed_of_kind_ne (ht : IsJunction t) (hu : IsJunction u) (h : t.kind ≠ u.kind) :
  Mixed t u
  := by
  obtain ⟨c, hc, hj⟩ := ht
  obtain ⟨c', hc', hj'⟩ := hu
  cases c <;> cases c' <;> simp_all [Mixed, Connective.isJunction]

theorem conflict?_eq_some_iff {last? : Option Token} {c : Connective} :
  conflict? last? c u = some t ↔ last? = some t ∧ c.isJunction = true ∧ t.kind ≠ u.kind
  := by
  simp [conflict?, Option.filter_eq_some_iff]

/-- What is remembered is the junction that has been read. -/
theorem remember_eq_some_iff {c : Connective} :
  remember c u = some t ↔ u = t ∧ c.isJunction = true
  := by
  rw [remember]
  split <;> simp [*]

theorem isJunction_of_remember {c : Connective} (hu : u.kind = .connective c) :
  ∀ x ∈ remember c u, IsJunction x
  := by
  intro x hx
  obtain ⟨rfl, hc⟩ := remember_eq_some_iff.mp hx
  use c

/-- Of the operand of a junction a primary is read, and nothing behind it. -/
theorem operands_of_derives {n : Nat} {s : Sentence} (h : Derives .primary n ws s)
    (limit d : Nat) (rest : List Token) :
  operands .permissive limit d 3 (ws ++ rest) = within limit (d + n) (.ok (s, rest))
  := by
  rw [operands_eq, h.read, within_bind, ok_bind, tail_of_free (free_three rest)]

/-- The operand of a junction is read within the limit only. -/
theorem le_of_operands_of_derives {n : Nat} {s : Sentence} {p : Sentence × List Token}
    {rest : List Token} (h : Derives .primary n ws s)
    (hp : operands .permissive limit d 3 (ws ++ rest) = .ok p) :
  d + n ≤ limit
  := by
  rw [operands_of_derives h, within] at hp
  split at hp
  · assumption
  · cases hp

/-! ### What has been read before an ambiguity -/

/-- Two mixed junctions stand about a primary among the tokens `ts`, and the reader `R` can
complete the tokens up to the second. -/
def Clashes {α : Type} (R : Reader α) (k : Nat) (ts : List Token) (t u : Token) : Prop :=
  ∃ us n ws s vs, ts = us ++ t :: (ws ++ u :: vs) ∧ Mixed t u ∧ Derives .primary n ws s
    ∧ Completable R k (us ++ t :: ws)

section Clashes

variable {α β : Type} {R R' : Reader α} {K : α → Reader β}

theorem Clashes.cons {x : Token} (h : Clashes R' k ts t u) (hR : ∀ us, R (x :: us) = R' us) :
  Clashes R k (x :: ts) t u
  := by
  obtain ⟨us, n, ws, s, vs, rfl, hmixed, hws, hcomplete⟩ := h
  use x :: us, n, ws, s, vs, rfl, hmixed, hws
  apply hcomplete.cons hR

theorem Clashes.andThen (h : Clashes R k ts t u) (hK : Continues K k k') :
  Clashes (R.andThen K) k' ts t u
  := by
  obtain ⟨us, n, ws, s, vs, hts, hmixed, hws, hcomplete⟩ := h
  use us, n, ws, s, vs, hts, hmixed, hws
  apply hcomplete.andThen hK

/-- A clash for the second of two readers, behind what the first has read. -/
theorem Clashes.of_ok {a : α} {ps rest : List Token}
    (hR : ∀ rest', Free k rest' → R (ps ++ rest') = .ok (a, rest')) (hrest : Free k rest)
    (h : Clashes (K a) k' rest t u) (hK : Continues K k k') :
  Clashes (R.andThen K) k' (ps ++ rest) t u
  := by
  obtain ⟨us, n, ws, s, vs, rfl, hmixed, hws, hcomplete⟩ := h
  use ps ++ us, n, ws, s, vs, by simp, hmixed, hws
  have hfree : Free k ((us ++ t :: ws) ++ u :: vs) := by simpa using hrest
  have hall := Completable.of_ok hR hfree hcomplete hK
  rw [List.append_assoc]
  apply hall

/-- What the reader `R` reports of the tokens `ts` as an ambiguity of `t` and `u` is a clash. -/
def Justified {α : Type} (R : Reader α) (k : Nat) (t u : Token) (ts : List Token) : Prop :=
  R ts = .error (.ambiguity t u) → Clashes R k ts t u

theorem Justified.andThen (hsettled : Settled limit R k ts (R ts)) (hR : Justified R k t u ts)
    (hafter : ∀ a rest, R ts = .ok (a, rest) → Justified (K a) k' t u rest)
    (hK : Continues K k k') :
  Justified (R.andThen K) k' t u ts
  := by
  intro h
  rw [Reader.andThen, bind_eq_error_iff] at h
  obtain h | ⟨⟨a, rest⟩, hok, h⟩ := h
  · apply (hR h).andThen hK
  · obtain ⟨us, rfl, hrest, hread⟩ := hsettled.exists_of_ok hok
    apply Clashes.of_ok hread hrest (hafter a rest hok h) hK

theorem Justified.cons {x : Token} (h : Justified R' k t u ts) (hR : ∀ us, R (x :: us) = R' us) :
  Justified R k t u (x :: ts)
  := by
  intro herror
  rw [hR] at herror
  apply (h herror).cons hR

end Clashes

theorem justified_closing (b : Bracket) (s : Sentence) (ts : List Token) :
  Justified (closing b s) 3 t u ts
  := by
  intro h
  cases ts with
  | nil => cases h
  | cons x ts =>
      rw [closing, close] at h
      split at h <;> cases h

theorem justified_primary (d : Nat)
    (ihP : ∀ us, us.length < ts.length → Justified (primary .permissive limit (d + 1)) 3 t u us)
    (ihG : ∀ us, us.length < ts.length → ∀ b,
      Justified (group .permissive limit (d + 1) b) 3 t u us) :
  Justified (primary .permissive limit d) 3 t u ts
  := by
  rcases Nat.lt_or_ge d limit with hd | hd
  · cases ts with
    | nil =>
        intro h
        simp [primary_nil hd] at h
    | cons x ts =>
        obtain hx | hx | ⟨b, hx, hb⟩ | hx := begins_cases .permissive x.kind
        · intro h
          simp [primary_atom hd hx] at h
        · apply Justified.cons _ (primary_negation_eq_andThen hd hx)
          apply Justified.andThen ((reader_settled .permissive limit).1 (d + 1) ts)
            (ihP ts (Nat.lt_succ_self _)) _ continues_negation
          intro s us _ h
          cases h
        · apply (ihG ts (Nat.lt_succ_self _) b).cons
          intro us
          apply primary_opening hd hx hb
        · intro h
          simp [primary_of_not_begins hd hx] at h
  · intro h
    simp [primary_of_le hd] at h

/-- Behind a junction that has been read with its operand, a mixed one clashes with it. -/
theorem clashes_of_remembered {c : Connective} {left r : Sentence} {last? : Option Token}
    {xs vs : List Token} (ht : t.kind = .connective c) (hc : least ≤ c.precedence)
    (hlast : conflict? last? c t = none) (hmixed : Mixed t u)
    (hr : operands .permissive limit (d + 1) (c.precedence + 1) xs = .ok (r, u :: vs)) :
  Clashes (tail .permissive limit d least left last?) least (t :: xs) t u
  := by
  have hprec := hmixed.isJunction.precedence ht
  rw [hprec] at hr
  obtain ⟨last?', n, ws, rfl, hfold, -, hn⟩ := (derives_of_read limit).2.2.1 _ _ _ _ _ hr
  have hws : Derives .primary n ws r := hfold.derives_primary
  use [], n, ws, r, vs, rfl, hmixed, hws, [], .binary c left r
  intro rest hrest
  rw [List.nil_append, List.cons_append, tail_of_connective ht hc hlast, hprec, List.nil_append,
    operands_of_derives hws, within_of_le hn, ok_bind, tail_of_free hrest]

/-- A tail may find the second junction at once, in conflict with the one that it remembers, or
behind junctions that it reads. -/
theorem clashes_of_tail {left : Sentence} {last? : Option Token}
    (ihO : ∀ us, us.length < ts.length → ∀ least',
      Justified (operands .permissive limit (d + 1) least') least' t u us)
    (ihT : ∀ us, us.length < ts.length → ∀ left' last?', (∀ x ∈ last?', IsJunction x) →
      tail .permissive limit d least left' last?' us = .error (.ambiguity t u) →
      (last?' = some t ∧ Mixed t u ∧ ∃ vs, us = u :: vs)
        ∨ Clashes (tail .permissive limit d least left' last?') least us t u)
    (hlast : ∀ x ∈ last?, IsJunction x)
    (h : tail .permissive limit d least left last? ts = .error (.ambiguity t u)) :
  (last? = some t ∧ Mixed t u ∧ ∃ vs, ts = u :: vs)
    ∨ Clashes (tail .permissive limit d least left last?) least ts t u
  := by
  obtain hfree | ⟨x, ts, c, rfl, hx, hc⟩ := free_or_connective least ts
  · simp [tail_of_free hfree] at h
  · cases hconflict : conflict? last? c x with
    | some y =>
        rw [tail_of_conflict hx hc hconflict] at h
        cases h
        obtain ⟨rfl, hj, hne⟩ := conflict?_eq_some_iff.mp hconflict
        left
        use rfl, mixed_of_kind_ne (hlast t rfl) ⟨c, hx, hj⟩ hne, ts
    | none =>
        have hcontinues : Continues
            (fun r => tail .permissive limit d least (.binary c left r) (remember c x))
            (c.precedence + 1) least :=
          continues_tail (Nat.le_succ_of_le hc)
        right
        rw [tail_eq_andThen hx hc hconflict, Reader.andThen, bind_eq_error_iff] at h
        obtain h | ⟨⟨r, us⟩, hr, h⟩ := h
        · apply Clashes.cons _ (tail_eq_andThen hx hc hconflict)
          apply (ihO ts (Nat.lt_succ_self _) _ h).andThen hcontinues
        · have hlt := Nat.lt_succ_of_lt (length_lt_of_operands hr)
          obtain ⟨hremember, hmixed, vs, rfl⟩ | hclash :=
            ihT us hlt (.binary c left r) (remember c x) (isJunction_of_remember hx) h
          · -- The junction read here is the one that the rest of the tail remembers.
            obtain ⟨rfl, -⟩ := remember_eq_some_iff.mp hremember
            apply clashes_of_remembered hx hc hconflict hmixed hr
          · apply Clashes.cons _ (tail_eq_andThen hx hc hconflict)
            obtain ⟨ps, rfl, hfree, hread⟩ :=
              ((reader_settled .permissive limit).2.2.1 (d + 1) _ ts).exists_of_ok hr
            apply Clashes.of_ok hread hfree hclash hcontinues

/-- Every ambiguity that a reader reports is a clash, unless the first of the junctions has been
read before the tokens of a tail. -/
theorem reader_justified (limit : Nat) (t u : Token) :
  (∀ d ts, Justified (primary .permissive limit d) 3 t u ts)
    ∧ (∀ d b ts, Justified (group .permissive limit d b) 3 t u ts)
    ∧ (∀ d least ts, Justified (operands .permissive limit d least) least t u ts)
    ∧ ∀ d least left last? ts, (∀ x ∈ last?, IsJunction x) →
      tail .permissive limit d least left last? ts = .error (.ambiguity t u) →
      (last? = some t ∧ Mixed t u ∧ ∃ vs, ts = u :: vs)
        ∨ Clashes (tail .permissive limit d least left last?) least ts t u
  := by
  obtain ⟨hsettledP, -, hsettledO, -⟩ := reader_settled .permissive limit
  apply reader_induction
  · intro d ts
    apply justified_primary
  · intro d b ts _ _ ihO
    rw [group_permissive_eq_andThen]
    apply Justified.andThen (hsettledO d 0 ts) ihO _ (continues_closing b id 0)
    intro s us _
    apply justified_closing
  · intro d least ts ihP ihT
    rw [operands_eq_andThen]
    apply Justified.andThen (hsettledP d ts) ihP
    · intro l us hl h
      obtain ⟨hnone, -⟩ | hclash := ihT us (length_lt_of_primary hl) l (by simp) h
      · cases hnone
      · apply hclash
    · apply continues_of_completable
      intro l
      apply completable_tail
  · intro d least left last? ts
    apply clashes_of_tail

/-! ### What stops at a second junction -/

/-- If the reader passes the junction `t` among the tokens `ts`, where the tokens `ws` follow it,
then it stops at the token `u` when that follows `ws`. -/
def Stops {α : Type} (R : Reader α) (t u : Token) (ws ts : List Token) : Prop :=
  ∀ us xs a rest, ts = us ++ t :: (ws ++ xs) → R ts = .ok (a, rest) →
    rest.length ≤ (ws ++ xs).length → ∀ vs, R (us ++ t :: (ws ++ u :: vs)) = .error (.ambiguity t u)

/-- Tokens behind which some are left have passed a token, or it is among those that are left. -/
theorem length_le_or_of_append_eq {us xs ps rest : List Token} (h : us ++ t :: xs = ps ++ rest) :
  rest.length ≤ xs.length ∨ ∃ bs, us = ps ++ bs ∧ rest = bs ++ t :: xs
  := by
  obtain ⟨as, rfl, has⟩ | hbs := List.append_eq_append_iff.mp h
  · cases as with
    | nil =>
        right
        use [], by simp
        simpa using has.symm
    | cons x as =>
        obtain ⟨-, rfl⟩ := List.cons_eq_cons.mp has
        left
        simp
  · right
    apply hbs

section Stops

variable {α β : Type} {R R' : Reader α} {K : α → Reader β}

/-- A reader that reads no more than one token, and not the junction, does not pass it. -/
theorem stops_of_single
    (h : ∀ a rest, R ts = .ok (a, rest) → rest = ts ∨ ∃ x, ts = x :: rest ∧ x ≠ t) :
  Stops R t u ws ts
  := by
  intro us xs a rest hts hok hlength
  obtain rfl | ⟨x, rfl, hx⟩ := h a rest hok
  · rw [hts] at hlength
    simp at hlength
    omega
  · cases us with
    | nil =>
        cases hts
        cases hx rfl
    | cons y us =>
        cases hts
        simp at hlength
        omega

/-- A reader stops behind a token that it passes, and the token itself may be the junction. -/
theorem Stops.cons {x : Token} (h : Stops R' t u ws ts) (hR : ∀ us, R (x :: us) = R' us)
    (hhead : x = t → ∀ xs a rest, R (t :: (ws ++ xs)) = .ok (a, rest) →
      ∀ vs, R (t :: (ws ++ u :: vs)) = .error (.ambiguity t u)) :
  Stops R t u ws (x :: ts)
  := by
  intro us xs a rest hts hok hlength vs
  cases us with
  | nil =>
      cases hts
      apply hhead rfl xs a rest hok
  | cons y us =>
      cases hts
      rw [hR] at hok
      rw [List.cons_append, hR]
      apply h us xs a rest rfl hok hlength

/-- Of two readers in sequence, one stops: the first if it passes the junction, and otherwise the
second, for the first reads alike before the tokens that are left. -/
theorem Stops.andThen (hsettled : Settled limit R k ts (R ts)) (hR : Stops R t u ws ts)
    (hafter : ∀ a rest, R ts = .ok (a, rest) → Stops (K a) t u ws rest) :
  Stops (R.andThen K) t u ws ts
  := by
  intro us xs b rest hts h hlength vs
  rw [Reader.andThen, bind_eq_ok_iff] at h
  obtain ⟨⟨a, mid⟩, ha, hb⟩ := h
  obtain ⟨ps, hps, hfree, hread⟩ := hsettled.exists_of_ok ha
  obtain hle | ⟨bs, rfl, rfl⟩ := length_le_or_of_append_eq (hts.symm.trans hps)
  · apply andThen_of_error (hR us xs a mid hts ha hle vs)
  · have hfree' : Free k (bs ++ t :: (ws ++ u :: vs)) := by
      rw [List.append_cons] at hfree ⊢
      apply hfree.append_congr (by simp)
    rw [List.append_assoc, andThen_of_ok (hread _ hfree')]
    apply hafter a _ ha bs xs b rest rfl hb hlength

end Stops

theorem stops_closing (hmixed : Mixed t u) (b : Bracket) (s : Sentence) (ts : List Token) :
  Stops (closing b s) t u ws ts
  := by
  apply stops_of_single
  intro s' rest h
  obtain ⟨-, e, rfl, he⟩ := close_eq_ok_iff.mp h
  right
  use e, rfl
  rintro rfl
  obtain ⟨c, hc, -⟩ := hmixed.isJunction
  simp [he] at hc

/-- Behind a junction with its operand, a tail stops at a mixed one. -/
theorem tail_of_mixed {c : Connective} {left s : Sentence} {last? : Option Token} {n : Nat}
    (hmixed : Mixed t u) (hws : Derives .primary n ws s) (ht : t.kind = .connective c)
    (hc : least ≤ c.precedence) (hlast : conflict? last? c t = none) (hn : d + 1 + n ≤ limit)
    (vs : List Token) :
  tail .permissive limit d least left last? (t :: (ws ++ u :: vs)) = .error (.ambiguity t u)
  := by
  have hprec := hmixed.isJunction.precedence ht
  obtain ⟨c', hu, hj⟩ := hmixed.symm.isJunction
  have hprec' := Connective.isJunction_iff_precedence.mp hj
  have hconflict : conflict? (remember c t) c' u = some t := by
    rw [conflict?_eq_some_iff, remember_eq_some_iff]
    exact ⟨⟨rfl, Connective.isJunction_iff_precedence.mpr hprec⟩, hj, hmixed.kind_ne⟩
  rw [tail_of_connective ht hc hlast, hprec, operands_of_derives hws, within_of_le hn, ok_bind]
  apply tail_of_conflict hu (hprec' ▸ hprec ▸ hc) hconflict

section Steps

variable {n : Nat} {s : Sentence}

theorem stops_primary (hmixed : Mixed t u) (d : Nat)
    (ihP : ∀ us, us.length < ts.length → Stops (primary .permissive limit (d + 1)) t u ws us)
    (ihG : ∀ us, us.length < ts.length → ∀ b,
      Stops (group .permissive limit (d + 1) b) t u ws us) :
  Stops (primary .permissive limit d) t u ws ts
  := by
  obtain ⟨c, ht, -⟩ := hmixed.isJunction
  rcases Nat.lt_or_ge d limit with hd | hd
  · cases ts with
    | nil =>
        apply stops_of_single
        simp [primary_nil hd]
    | cons x ts =>
        obtain hx | hx | ⟨b, hx, hb⟩ | hx := begins_cases .permissive x.kind
        · apply stops_of_single
          intro s us hs
          rw [primary_atom hd hx] at hs
          cases hs
          right
          use x, rfl
          rintro rfl
          simp [hx] at ht
        · apply Stops.cons _ (primary_negation_eq_andThen hd hx)
          · rintro rfl
            simp [hx] at ht
          · apply Stops.andThen ((reader_settled .permissive limit).1 (d + 1) ts)
              (ihP ts (Nat.lt_succ_self _))
            intro s us _
            apply stops_of_single
            intro s' vs hs
            cases hs
            left
            rfl
        · apply (ihG ts (Nat.lt_succ_self _) b).cons
          · intro us
            apply primary_opening hd hx hb
          · rintro rfl
            simp [hx] at ht
        · apply stops_of_single
          simp [primary_of_not_begins hd hx]
  · apply stops_of_single
    simp [primary_of_le hd]

theorem stops_tail (hmixed : Mixed t u) (hws : Derives .primary n ws s) (left : Sentence)
    (last? : Option Token)
    (ihO : ∀ us, us.length < ts.length → ∀ least',
      Stops (operands .permissive limit (d + 1) least') t u ws us)
    (ihT : ∀ us, us.length < ts.length → ∀ left' last?',
      Stops (tail .permissive limit d least left' last?') t u ws us) :
  Stops (tail .permissive limit d least left last?) t u ws ts
  := by
  obtain hfree | ⟨x, ts, c, rfl, hx, hc⟩ := free_or_connective least ts
  · apply stops_of_single
    intro s us hs
    rw [tail_of_free hfree] at hs
    cases hs
    left
    rfl
  · cases hlast : conflict? last? c x with
    | some y =>
        apply stops_of_single
        simp [tail_of_conflict hx hc hlast]
    | none =>
        apply Stops.cons _ (tail_eq_andThen hx hc hlast)
        · rintro rfl xs s' rest hs
          rw [tail_of_connective hx hc hlast, bind_eq_ok_iff] at hs
          obtain ⟨p, hp, -⟩ := hs
          rw [hmixed.isJunction.precedence hx] at hp
          apply tail_of_mixed hmixed hws hx hc hlast (le_of_operands_of_derives hws hp)
        · apply Stops.andThen ((reader_settled .permissive limit).2.2.1 (d + 1) _ ts)
            (ihO ts (Nat.lt_succ_self _) _)
          intro r us hr
          apply ihT us (Nat.lt_succ_of_lt (length_lt_of_operands hr))

/-- Every reader that passes a junction stops when a mixed one follows its operand. -/
theorem reader_stops (limit : Nat) (hmixed : Mixed t u) (hws : Derives .primary n ws s) :
  (∀ d ts, Stops (primary .permissive limit d) t u ws ts)
    ∧ (∀ d b ts, Stops (group .permissive limit d b) t u ws ts)
    ∧ (∀ d least ts, Stops (operands .permissive limit d least) t u ws ts)
    ∧ ∀ d least left last? ts, Stops (tail .permissive limit d least left last?) t u ws ts
  := by
  obtain ⟨hsettledP, -, hsettledO, -⟩ := reader_settled .permissive limit
  apply reader_induction
  · intro d ts
    apply stops_primary hmixed
  · intro d b ts _ _ ihO
    rw [group_permissive_eq_andThen]
    apply Stops.andThen (hsettledO d 0 ts) ihO
    intro s us _
    apply stops_closing hmixed
  · intro d least ts ihP ihT
    rw [operands_eq_andThen]
    apply Stops.andThen (hsettledP d ts) ihP
    intro l us hl
    apply ihT us (length_lt_of_primary hl)
  · intro d least left last? ts
    apply stops_tail hmixed hws

end Steps

/-! ### Whole lists of tokens -/

/-- The tokens before the second of two junctions in conflict are viable. -/
theorem exists_of_parse_eq_ambiguity
    (h : parse .permissive limit ts = .error (.ambiguity t u)) :
  ∃ us n ws s vs, ts = us ++ t :: (ws ++ u :: vs) ∧ Mixed t u ∧ Derives .primary n ws s
    ∧ Viable .permissive limit (us ++ t :: ws)
  := by
  rw [parse_permissive, bind_eq_error_iff] at h
  obtain h | ⟨⟨s, rest⟩, -, hfinish⟩ := h
  · obtain ⟨us, n, ws, s, vs, hts, hmixed, hws, hcomplete⟩ :=
      (reader_justified limit t u).2.2.1 0 0 ts h
    use us, n, ws, s, vs, hts, hmixed, hws
    apply hcomplete.viable (parse_permissive limit)
  · cases rest <;> cases hfinish

/-- A mixed junction behind viable tokens that end in a junction and its operand is reported,
whatever follows. -/
theorem parse_eq_ambiguity {us : List Token} {n : Nat} {s : Sentence} (hmixed : Mixed t u)
    (hws : Derives .primary n ws s) (h : Viable .permissive limit (us ++ t :: ws))
    (vs : List Token) :
  parse .permissive limit (us ++ t :: (ws ++ u :: vs)) = .error (.ambiguity t u)
  := by
  obtain ⟨xs, s', hs'⟩ := h
  rw [List.append_assoc, List.cons_append, parse_permissive, bind_eq_ok_iff] at hs'
  obtain ⟨p, hp, hfinish⟩ := hs'
  cases finish_eq_ok_iff.mp hfinish
  apply parse_of_error (parse_permissive limit)
  apply (reader_stops limit hmixed hws).2.2.1 0 0 _ us xs s' [] rfl hp
  simp

/-- From any place in a list of tokens on, an ambiguity is reported exactly when a conjunction and
a disjunction stand about one primary, and the tokens before the second of them begin a sentence
that the limit admits.  What follows the second makes no difference. -/
theorem parse_eq_ambiguity_iff (c : Cursor) (lim : Limits) (first second : Token) :
  parse .permissive lim.maxDepth c.remaining = .error (.ambiguity first second)
    ↔ ∃ us n ws s vs, c.remaining = us ++ [first] ++ ws ++ [second] ++ vs ∧ Mixed first second
      ∧ Derives .primary n ws s ∧ Viable .permissive lim.maxDepth (us ++ [first] ++ ws)
  := by
  constructor
  · intro h
    obtain ⟨us, n, ws, s, vs, hts, hmixed, hws, hviable⟩ := exists_of_parse_eq_ambiguity h
    use us, n, ws, s, vs, by simp [hts], hmixed, hws
    simpa using hviable
  · rintro ⟨us, n, ws, s, vs, hts, hmixed, hws, hviable⟩
    have hts' : c.remaining = us ++ first :: (ws ++ second :: vs) := by simp [hts]
    rw [hts']
    apply parse_eq_ambiguity hmixed hws
    simpa using hviable

/-- In `P&Q|R` a conjunction and a disjunction stand about the atom `Q`. -/
theorem ambiguity_of_mixedJunctions :
  ∃ us n ws s vs,
    mixedJunctions
        = us ++ [⟨.connective .conjunction, "&"⟩] ++ ws ++ [⟨.connective .disjunction, "|"⟩] ++ vs
      ∧ Mixed ⟨.connective .conjunction, "&"⟩ ⟨.connective .disjunction, "|"⟩
      ∧ Derives .primary n ws s
      ∧ Viable .permissive 2 (us ++ [⟨.connective .conjunction, "&"⟩] ++ ws)
      ∧ parse .permissive 2 mixedJunctions
        = .error (.ambiguity ⟨.connective .conjunction, "&"⟩ ⟨.connective .disjunction, "|"⟩)
  := by
  have hmixed : Mixed ⟨.connective .conjunction, "&"⟩ ⟨.connective .disjunction, "|"⟩ :=
    .inl ⟨rfl, rfl⟩
  have hatom : Derives .primary 1 [⟨.atom, "Q"⟩] (.atom "Q") := Derives.atom (t := ⟨.atom, "Q"⟩) rfl
  have hviable : Viable .permissive 2
      [⟨.atom, "P"⟩, ⟨.connective .conjunction, "&"⟩, ⟨.atom, "Q"⟩] := by
    use [], .binary .conjunction (.atom "P") (.atom "Q")
    cbv
  use [⟨.atom, "P"⟩], 1, [⟨.atom, "Q"⟩], .atom "Q", [⟨.atom, "R"⟩], rfl, hmixed, hatom, hviable
  apply (parse_eq_ambiguity_iff (Cursor.ofList mixedJunctions) ⟨2, 12⟩ _ _).mpr
  exact ⟨[⟨.atom, "P"⟩], 1, [⟨.atom, "Q"⟩], .atom "Q", [⟨.atom, "R"⟩], rfl, hmixed, hatom, hviable⟩

/-- An implication parts a conjunction from a disjunction. -/
example :
  parse .permissive 3 [⟨.atom, "P"⟩, ⟨.connective .conjunction, "&"⟩, ⟨.atom, "Q"⟩,
      ⟨.connective .implication, "->"⟩, ⟨.atom, "R"⟩, ⟨.connective .disjunction, "|"⟩,
      ⟨.atom, "S"⟩]
    = .ok (.binary .implication (.binary .conjunction (.atom "P") (.atom "Q"))
      (.binary .disjunction (.atom "R") (.atom "S")))
  := by
  cbv

end Sentence

end Sentential

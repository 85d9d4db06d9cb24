import Sentential.Proofs.Sentence.Strict

/-!
# Nesting

A depth limit bounds the nesting of tokens, which is not the depth of the sentence that they
form.  `nesting s` is the nesting of `s` when it is written with as few brackets as the
permissive grammar allows; a limit admits `s` exactly when it is at least that.  An operand on
the left of a connective adds no level unless it stands in brackets, so that a sentence can be
deeper than it is nested, by one level for every such operand on the way to an atom.
-/

namespace Sentential

namespace Sentence

/-! ### Operands and their brackets -/

/-- The levels of brackets that a sentence needs to be a phrase of some sort: one or none. -/
def Phrase.brackets : Phrase → Sentence → Nat
  | primary, .binary _ _ _ => 1
  | chain c, .binary c' _ _ => if c' = c then 0 else 1
  | _, _ => 0

/-- A sort that has phrases: chains are of conjunctions or of disjunctions. -/
def Phrase.Proper : Phrase → Prop
  | chain c => c.isJunction = true
  | _ => True

/-- The sort of the phrases that a connective forms, which is also that of its left operand. -/
def Phrase.left (c : Connective) : Phrase := if c.isJunction then chain c else whole

/-- The junction of the chain that a sentence is, which is a conjunction where either will do. -/
def chainJunction : Sentence → Connective
  | .binary .disjunction _ _ => .disjunction
  | _ => .conjunction

/-- The sort of the right operand `s` of a connective. -/
def Phrase.right (c : Connective) (s : Sentence) : Phrase :=
  if c.isJunction then primary else chain s.chainJunction

namespace Phrase

variable {c c' : Connective} {s : Sentence}

@[simp]
theorem brackets_atom (p : Phrase) (name : String) :
  p.brackets (.atom name) = 0
  := by
  cases p <;> rfl

@[simp]
theorem brackets_negation (p : Phrase) (s : Sentence) :
  p.brackets (.negation s) = 0
  := by
  cases p <;> rfl

@[simp]
theorem brackets_whole (s : Sentence) :
  whole.brackets s = 0
  := rfl

theorem brackets_chain_binary (c c' : Connective) (l r : Sentence) :
  (chain c).brackets (.binary c' l r) = if c' = c then 0 else 1
  := rfl

theorem brackets_le_one (p : Phrase) (s : Sentence) :
  p.brackets s ≤ 1
  := by
  cases s with
  | atom name => simp
  | negation s => simp
  | binary c' l r =>
      cases p with
      | primary => exact Nat.le_refl 1
      | chain c =>
          rw [brackets_chain_binary]
          split <;> simp
      | whole => exact Nat.zero_le 1

/-- A chain needs brackets only where a primary does. -/
theorem brackets_chain_le (c : Connective) (s : Sentence) :
  (chain c).brackets s ≤ primary.brackets s
  := by
  cases s with
  | atom name => simp
  | negation s => simp
  | binary c' l r => apply brackets_le_one

theorem left_of_junction (hc : c.isJunction = true) :
  left c = chain c
  := by
  rw [left, if_pos hc]

theorem left_of_not_junction (hc : c.isJunction = false) :
  left c = whole
  := by
  rw [left, hc]
  rfl

theorem right_of_junction (hc : c.isJunction = true) :
  right c s = primary
  := by
  rw [right, if_pos hc]

theorem right_of_not_junction (hc : c.isJunction = false) :
  right c s = chain s.chainJunction
  := by
  rw [right, hc]
  rfl

end Phrase

theorem isJunction_chainJunction (s : Sentence) :
  s.chainJunction.isJunction = true
  := by
  rcases s with _ | _ | ⟨_ | _, _, _⟩ <;> rfl

/-- No chain needs fewer brackets for a sentence than the one that the sentence is. -/
theorem brackets_chainJunction_le {c : Connective} (hc : c.isJunction = true) (s : Sentence) :
  (Phrase.chain s.chainJunction).brackets s ≤ (Phrase.chain c).brackets s
  := by
  cases s with
  | atom name => simp
  | negation s => simp
  | binary k l r =>
      cases c with
      | implication | equivalence => cases hc
      | conjunction | disjunction => cases k <;> simp [chainJunction, Phrase.brackets_chain_binary]

/-! ### The nesting of a sentence -/

/-- The nesting of a sentence that is written with as few brackets as possible. -/
def nesting : Sentence → Nat
  | atom _ => 1
  | negation s => s.nesting + Phrase.primary.brackets s + 1
  | binary c l r =>
    max (l.nesting + (Phrase.left c).brackets l) (r.nesting + (Phrase.right c r).brackets r + 1)

/-- The largest number of left operands without brackets on the way from a sentence to one of
its atoms. -/
def leftSteps : Sentence → Nat
  | atom _ => 0
  | negation s => s.leftSteps
  | binary c l r => max (l.leftSteps + (1 - (Phrase.left c).brackets l)) r.leftSteps

variable {c c' : Connective} {l r s : Sentence} {p : Phrase} {n : Nat} {ts : List Token}

/-- A sentence is deeper than it is nested by its left operands without brackets at most. -/
theorem depth_le_nesting_add_leftSteps (s : Sentence) :
  s.depth ≤ s.nesting + s.leftSteps
  := by
  induction s with
  | atom name => exact Nat.le_refl 1
  | negation s ih =>
      rw [depth, nesting, leftSteps]
      omega
  | binary c l r ihl ihr =>
      have hbrackets := (Phrase.left c).brackets_le_one l
      rw [depth, nesting, leftSteps]
      omega

theorem nesting_of_junction (hc : c.isJunction = true) :
  (binary c l r).nesting
    = max (l.nesting + (Phrase.chain c).brackets l) (r.nesting + Phrase.primary.brackets r + 1)
  := by
  rw [nesting, Phrase.left_of_junction hc, Phrase.right_of_junction hc]

theorem nesting_of_not_junction (hc : c.isJunction = false) :
  (binary c l r).nesting
    = max l.nesting (r.nesting + (Phrase.chain r.chainJunction).brackets r + 1)
  := by
  rw [nesting, Phrase.left_of_not_junction hc, Phrase.right_of_not_junction hc,
    Phrase.brackets_whole, Nat.add_zero]

/-- A phrase is nested no less than its sentence must be. -/
theorem Derives.nesting_le (h : Derives p n ts s) :
  s.nesting + p.brackets s ≤ n
  := by
  induction h with
  | atom ht => exact Nat.le_refl 1
  | negation ht _ ih => exact Nat.succ_le_succ ih
  | @group _ _ _ _ _ s _ _ _ ih => apply Nat.add_le_add ih (Phrase.primary.brackets_le_one s)
  | @chain c _ _ s _ _ ih =>
      have hbrackets := Phrase.brackets_chain_le c s
      apply Nat.le_trans (Nat.add_le_add_left hbrackets _) ih
  | junction hl _ _ ihl ihr =>
      rw [nesting_of_junction hl.isJunction, Phrase.brackets_chain_binary, if_pos rfl]
      omega
  | whole _ ih => apply Nat.le_trans (Nat.le_add_right _ _) ih
  | @conditional _ _ _ _ _ _ _ _ r _ _ hc hr ihl ihr =>
      have hbrackets := brackets_chainJunction_le hr.isJunction r
      rw [nesting_of_not_junction hc, Phrase.brackets_whole]
      rw [Phrase.brackets_whole] at ihl
      omega

/-! ### The least nesting is reached -/

/-- A primary is a phrase of every sort. -/
theorem Derives.of_primary (h : Derives .primary n ts s) (hp : p.Proper) :
  Derives p n ts s
  := by
  cases p with
  | primary => apply h
  | chain c => apply Derives.chain hp h
  | whole => apply Derives.whole (Derives.chain (c := .conjunction) rfl h)

/-- A phrase of the sort that its connective forms is a phrase of every sort when it is put in
brackets where it needs them. -/
theorem Derives.exists_of_left (h : Derives (.left c) n ts (.binary c l r)) (hp : p.Proper) :
  ∃ us, Derives p (n + p.brackets (.binary c l r)) us (.binary c l r)
  := by
  have hwhole : Derives .whole n ts (.binary c l r) := by
    cases hc : c.isJunction with
    | true =>
        rw [Phrase.left_of_junction hc] at h
        apply Derives.whole h
    | false =>
        rw [Phrase.left_of_not_junction hc] at h
        apply h
  have hprimary := Derives.group (o := ⟨.opening .round, "("⟩) rfl hwhole
    (e := ⟨.closing .round, ")"⟩) rfl
  cases p with
  | primary => exact ⟨_, hprimary⟩
  | whole => use ts, hwhole
  | chain c' =>
      rw [Phrase.brackets_chain_binary]
      split
      · rename_i heq
        subst heq
        rw [Phrase.left_of_junction hp] at h
        use ts, h
      · exact ⟨_, hprimary.of_primary hp⟩

/-- Every sentence is a phrase of every sort that is nested no more than it must be. -/
theorem exists_derives (s : Sentence) (hp : p.Proper) :
  ∃ ts, Derives p (s.nesting + p.brackets s) ts s
  := by
  induction s generalizing p with
  | atom name =>
      have hprimary : Derives .primary 1 [⟨.atom, name⟩] (.atom name) :=
        Derives.atom (t := ⟨.atom, name⟩) rfl
      rw [Phrase.brackets_atom]
      exact ⟨_, hprimary.of_primary hp⟩
  | negation s ih =>
      obtain ⟨ts, hs⟩ := ih (p := .primary) trivial
      have hprimary := Derives.negation (t := ⟨.negation, Connective.negationSymbol⟩) rfl hs
      rw [Phrase.brackets_negation]
      exact ⟨_, hprimary.of_primary hp⟩
  | binary c l r ihl ihr =>
      have hleft : ∃ ts, Derives (.left c) (binary c l r).nesting ts (.binary c l r) := by
        cases hc : c.isJunction with
        | true =>
            obtain ⟨ts, hl⟩ := ihl (p := .chain c) hc
            obtain ⟨us, hr⟩ := ihr (p := .primary) trivial
            rw [nesting_of_junction hc, Phrase.left_of_junction hc]
            exact ⟨_, Derives.junction hl (t := ⟨.connective c, c.symbol⟩) rfl hr⟩
        | false =>
            obtain ⟨ts, hl⟩ := ihl (p := .whole) trivial
            obtain ⟨us, hr⟩ := ihr (p := .chain r.chainJunction) r.isJunction_chainJunction
            rw [nesting_of_not_junction hc, Phrase.left_of_not_junction hc]
            exact ⟨_, Derives.conditional hl (t := ⟨.connective c, c.symbol⟩) rfl hc hr⟩
      obtain ⟨ts, hts⟩ := hleft
      apply hts.exists_of_left hp

/-- A limit admits a sentence, in some tokens that the permissive grammar reads, exactly when it
allows for the nesting of the sentence. -/
theorem exists_parse_eq_ok_iff {limit : Nat} :
  (∃ ts, parse .permissive limit ts = .ok s) ↔ s.nesting ≤ limit
  := by
  constructor
  · rintro ⟨ts, hts⟩
    obtain ⟨n, hn, hderives⟩ := derives_of_parse hts
    apply Nat.le_trans hderives.nesting_le hn
  · intro hnesting
    obtain ⟨ts, hderives⟩ := exists_derives (p := .whole) s trivial
    use ts
    rw [hderives.parse_eq]
    apply within_of_le hnesting

end Sentence

end Sentential

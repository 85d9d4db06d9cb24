import Sentential.Proofs.Sentence.Permissive
import Sentential.Proofs.Sentence.Relabelling
import Sentential.Proofs.Sentence.Viable

/-!
# The two shapes of brackets

In the permissive grammar round and square brackets do the same work.  If every bracket of some
tokens is given the other shape, the tokens form the same sentence, or none for the same reason told
of the other brackets and at the same place.  The two shapes are still told apart: going through
tokens that a grammar accepts, every closing bracket has the shape of the group that was opened last
and is not closed yet, and no such group is left at the end.
-/

namespace Sentential

/-! ### The other shape -/

/-- The other shape of brackets. -/
def Bracket.swap : Bracket → Bracket
  | round => square
  | square => round

@[simp]
theorem Bracket.swap_swap (b : Bracket) :
  b.swap.swap = b
  := by
  cases b <;> rfl

/-- The kind with brackets of the other shape. -/
def Token.Kind.swap : Token.Kind → Token.Kind
  | opening b => opening b.swap
  | closing b => closing b.swap
  | k => k

@[simp]
theorem Token.Kind.swap_swap (k : Token.Kind) :
  k.swap.swap = k
  := by
  cases k <;> simp [swap]

/-- The token with brackets of the other shape. -/
def Token.swap (t : Token) : Token := { t with kind := t.kind.swap }

@[simp]
theorem Token.swap_swap (t : Token) :
  t.swap.swap = t
  := by
  simp [swap]

@[simp]
theorem Token.map_swap_map_swap (ts : List Token) :
  (ts.map swap).map swap = ts
  := by
  simp [Function.comp_def]

/-- The cursor at the same place, before tokens with brackets of the other shape. -/
def Cursor.swap (c : Cursor) : Cursor := { c with tokens := c.tokens.map Token.swap }

theorem Cursor.remaining_swap (c : Cursor) :
  c.swap.remaining = c.remaining.map Token.swap
  := by
  rw [remaining, remaining, List.map_drop]
  rfl

/-- The error with brackets of the other shape in what it tells. -/
def ParseError.swap : ParseError → ParseError
  | unexpectedEnd => unexpectedEnd
  | unexpectedEndExpecting k => unexpectedEndExpecting k.swap
  | mismatch k t => mismatch k.swap t.swap
  | expectedConnective t => expectedConnective t.swap
  | unexpectedToken t => unexpectedToken t.swap
  | trailingTokens t => trailingTokens t.swap
  | ambiguity t u => ambiguity t.swap u.swap
  | depthExceeded n => depthExceeded n

namespace Sentence

variable {limit : Nat} {t : Token} {ts us : List Token}

/-- The permissive grammar admits both shapes, so that a token plays the part of the token with the
other shape. -/
def Relabelling.otherShape : Relabelling .permissive where
  rel t u := t.swap = u
  kind := Token.Kind.swap
  bracket := Bracket.swap
  kind_eq := by
    rintro t _ rfl
    rfl
  text_eq := by
    rintro t _ rfl _
    rfl
  kind_atom := rfl
  kind_negation := rfl
  kind_connective _ := rfl
  kind_opening _ := rfl
  kind_closing _ := rfl
  kind_injective := Function.LeftInverse.injective Token.Kind.swap_swap
  admits_bracket b := by cases b <;> rfl

theorem Relabelling.forall₂_otherShape (ts : List Token) :
  List.Forall₂ otherShape.rel ts (ts.map Token.swap)
  := by
  rw [List.forall₂_map_right_iff, List.forall₂_same]
  intro t _
  rfl

/-- Errors that are alike under the change of shapes are the same error with brackets of the other
shape. -/
theorem Relabelling.swap_eq_of_alike {e e' : ParseError}
    (h : ParseError.Alike otherShape.kind otherShape.rel e e') :
  e.swap = e'
  := by
  cases h with
  | unexpectedEnd => rfl
  | unexpectedEndExpecting k => rfl
  | depthExceeded n => rfl
  | mismatch k htu => exact congrArg (ParseError.mismatch k.swap) htu
  | expectedConnective htu => exact congrArg ParseError.expectedConnective htu
  | unexpectedToken htu => exact congrArg ParseError.unexpectedToken htu
  | trailingTokens htu => exact congrArg ParseError.trailingTokens htu
  | ambiguity htu htu' => exact congrArg₂ ParseError.ambiguity htu htu'

/-- Tokens with brackets of the other shape form the same sentence, or none for the same reason told
of the other brackets. -/
theorem parse_map_swap (limit : Nat) (ts : List Token) :
  parse .permissive limit (ts.map Token.swap)
    = (parse .permissive limit ts).mapError ParseError.swap
  := by
  have halike := Relabelling.otherShape.parse_alike limit (Relabelling.forall₂_otherShape ts)
  obtain ⟨s, hs, hs'⟩ | ⟨e, e', he, he', herror⟩ := halike.eq_ok_or_error
  · rw [hs, hs']
    rfl
  · rw [he, he', ← Relabelling.swap_eq_of_alike herror]
    rfl

/-- Tokens with brackets of the other shape can be completed where the tokens can. -/
theorem Viable.map_swap (h : Viable .permissive limit us) :
  Viable .permissive limit (us.map Token.swap)
  := by
  obtain ⟨vs, s, hs⟩ := h
  use vs.map Token.swap, s
  rw [← List.map_append, parse_map_swap, hs]
  rfl

theorem viable_map_swap_iff :
  Viable .permissive limit (us.map Token.swap) ↔ Viable .permissive limit us
  := by
  constructor
  · intro h
    rw [← Token.map_swap_map_swap us]
    apply h.map_swap
  · apply Viable.map_swap

/-! ### Groups that are open -/

/-- The groups that are open behind a token, the innermost first, unless the token closes a group
of another shape than that of the innermost, or none at all. -/
def openBehind : List Bracket → Token → Option (List Bracket)
  | bs, ⟨.opening b, _⟩ => some (b :: bs)
  | b' :: bs, ⟨.closing b, _⟩ => if b = b' then some bs else none
  | [], ⟨.closing _, _⟩ => none
  | bs, _ => some bs

/-- The groups that are open behind some tokens, unless a group is closed in another shape. -/
def openGroups (ts : List Token) : Option (List Bracket) := ts.foldlM openBehind []

theorem openBehind_opening {b : Bracket} (ht : t.kind = .opening b) (bs : List Bracket) :
  openBehind bs t = some (b :: bs)
  := by
  obtain ⟨k, text⟩ := t
  cases ht
  rfl

theorem openBehind_closing {b : Bracket} (ht : t.kind = .closing b) (b' : Bracket)
    (bs : List Bracket) :
  openBehind (b' :: bs) t = if b = b' then some bs else none
  := by
  obtain ⟨k, text⟩ := t
  cases ht
  rfl

/-- Tokens other than brackets open and close no group. -/
theorem openBehind_of_plain (ho : ∀ b, t.kind ≠ .opening b) (hc : ∀ b, t.kind ≠ .closing b)
    (bs : List Bracket) :
  openBehind bs t = some bs
  := by
  obtain ⟨k, text⟩ := t
  cases k with
  | opening b => cases ho b rfl
  | closing b => cases hc b rfl
  | atom | negation | connective c => cases bs <;> rfl

/-- A phrase closes the groups that it opens, and no other. -/
theorem Derives.foldlM_openBehind {p : Phrase} {n : Nat} {s : Sentence} (h : Derives p n ts s)
    (bs : List Bracket) :
  ts.foldlM openBehind bs = some bs
  := by
  induction h generalizing bs with
  | atom ht => simp [openBehind_of_plain, ht]
  | negation ht _ ih => simp [openBehind_of_plain, ht, ih]
  | group ho _ he ih => simp [openBehind_opening ho, openBehind_closing he, ih]
  | chain _ _ ih => apply ih
  | whole _ ih => apply ih
  | junction _ ht _ ihl ihr => simp [openBehind_of_plain, ht, ihl, ihr]
  | conditional _ ht _ _ ihl ihr => simp [openBehind_of_plain, ht, ihl, ihr]

/-- In a sentence every group is closed in its own shape. -/
theorem openGroups_of_parse {s : Sentence} (h : parse .permissive limit ts = .ok s) :
  openGroups ts = some []
  := by
  obtain ⟨n, -, hderives⟩ := derives_of_parse h
  apply hderives.foldlM_openBehind

/-- So it is at the beginning of a sentence. -/
theorem Viable.exists_openGroups (h : Viable .permissive limit us) :
  ∃ bs, openGroups us = some bs
  := by
  obtain ⟨vs, s, hs⟩ := h
  have hgroups := openGroups_of_parse hs
  rw [openGroups, List.foldlM_append] at hgroups
  obtain ⟨bs, hbs, -⟩ := Option.bind_eq_some_iff.mp hgroups
  use bs, hbs

/-- No sentence begins with tokens that close a group in another shape than its own. -/
theorem not_viable_of_closing {b b' : Bracket} {bs : List Bracket}
    (hus : openGroups us = some (b :: bs)) (ht : t.kind = .closing b') (hb : b' ≠ b) (limit : Nat) :
  ¬ Viable .permissive limit (us ++ [t])
  := by
  intro h
  obtain ⟨bs', hbs'⟩ := h.exists_openGroups
  rw [openGroups] at hus
  simp [openGroups, hus, openBehind_closing ht, hb] at hbs'

theorem offending?_swap (e : ParseError) :
  e.swap.offending? = e.offending?.map Token.swap
  := by
  cases e <;> rfl

/-- With brackets of the other shape, the tokens that remain form the same sentence, or none for the
same reason told of the other brackets: the offending token stands at the same place, before which
the tokens begin a sentence and with which they do not.  In a sentence every group is closed in its
own shape, however deep it is nested, and where one is closed in the other shape no sentence goes
on. -/
theorem parse_swap (lim : Limits) (c : Cursor) :
  parse .permissive lim.maxDepth c.swap.remaining
      = (parse .permissive lim.maxDepth c.remaining).mapError ParseError.swap
    ∧ (∀ s, parse .permissive lim.maxDepth c.remaining = .ok s → openGroups c.remaining = some [])
    ∧ (∀ us t b b' bs, openGroups us = some (b :: bs) → t.kind = .closing b' → b' ≠ b →
      ∀ limit, ¬ Viable .permissive limit (us ++ [t]))
    ∧ ∀ e t, parse .permissive lim.maxDepth c.remaining = .error e → e.offending? = some t →
      e.swap.offending? = some t.swap ∧ ∃ us vs, c.remaining = us ++ [t] ++ vs
        ∧ c.swap.remaining = us.map Token.swap ++ [t.swap] ++ vs.map Token.swap
        ∧ Viable .permissive lim.maxDepth us
        ∧ Viable .permissive lim.maxDepth (us.map Token.swap)
        ∧ ∀ limit, ¬ Viable .permissive limit (us ++ [t])
          ∧ ¬ Viable .permissive limit (us.map Token.swap ++ [t.swap])
  := by
  rw [c.remaining_swap]
  refine ⟨parse_map_swap lim.maxDepth c.remaining, ?_, ?_, ?_⟩
  · intro s
    apply openGroups_of_parse
  · intro us t b b' bs
    apply not_viable_of_closing
  · intro e t he ht
    obtain ⟨us, vs, hts, hus, hfirst⟩ := viable_of_offending? he ht
    have hlast : us.map Token.swap ++ [t.swap] = (us ++ [t]).map Token.swap := by simp
    constructor
    · rw [offending?_swap, ht]
      rfl
    · use us, vs, hts
      rw [hlast, hts, List.map_append]
      use rfl, hus, hus.map_swap
      intro limit
      rw [viable_map_swap_iff]
      use hfirst limit, hfirst limit

/-- An atom in a round group, which is in a square group. -/
def nestedGroups : List Token :=
  [⟨.opening .square, "["⟩, ⟨.opening .round, "("⟩, ⟨.atom, "P"⟩, ⟨.closing .round, ")"⟩,
    ⟨.closing .square, "]"⟩]

/-- A round group that is closed like the square group around it, behind a negation. -/
def crossedGroups : List Token :=
  [⟨.negation, "~"⟩, ⟨.opening .square, "["⟩, ⟨.opening .round, "("⟩, ⟨.atom, "P"⟩,
    ⟨.closing .square, "]"⟩, ⟨.closing .round, ")"⟩]

/-- A group may stand in a group of the other shape, but they may not be closed crosswise. -/
theorem nestedGroups_parse_swap :
  parse .permissive 3 nestedGroups = .ok (.atom "P")
    ∧ openGroups nestedGroups = some []
    ∧ parse .permissive 3 (Cursor.swap ⟨crossedGroups, 1⟩).remaining
      = .error (.mismatch (.closing .square) ⟨.closing .round, "]"⟩)
    ∧ openGroups [⟨.opening .square, "["⟩, ⟨.opening .round, "("⟩] = some [.round, .square]
    ∧ ¬ Viable .permissive 9
      [⟨.opening .square, "["⟩, ⟨.opening .round, "("⟩, ⟨.closing .square, "]"⟩]
    ∧ ∃ us vs, (Cursor.mk crossedGroups 1).remaining = us ++ [⟨.closing .square, "]"⟩] ++ vs
      ∧ (Cursor.swap ⟨crossedGroups, 1⟩).remaining
        = us.map Token.swap ++ [⟨.closing .round, "]"⟩] ++ vs.map Token.swap
      ∧ Viable .permissive 3 us
      ∧ Viable .permissive 3 (us.map Token.swap)
      ∧ ¬ Viable .permissive 9 (us ++ [⟨.closing .square, "]"⟩])
      ∧ ¬ Viable .permissive 9 (us.map Token.swap ++ [⟨.closing .round, "]"⟩])
  := by
  have hnested : parse .permissive 3 nestedGroups = .ok (.atom "P") := by cbv
  have hcrossed : parse .permissive 3 (Cursor.mk crossedGroups 1).remaining
      = .error (.mismatch (.closing .round) ⟨.closing .square, "]"⟩) := by
    cbv
  have hopen :
      openGroups [⟨.opening .square, "["⟩, ⟨.opening .round, "("⟩] = some [.round, .square] := rfl
  obtain ⟨-, hclosed, -, -⟩ := parse_swap ⟨3, 12⟩ (.ofList nestedGroups)
  obtain ⟨hswap, -, hstop, hplace⟩ := parse_swap ⟨3, 12⟩ ⟨crossedGroups, 1⟩
  refine ⟨hnested, hclosed _ hnested, ?_, hopen, ?_, ?_⟩
  · rw [hswap, hcrossed]
    rfl
  · exact hstop _ ⟨.closing .square, "]"⟩ _ _ _ hopen rfl (by decide) 9
  · obtain ⟨-, us, vs, hts, hswapped, hus, hus', hfirst⟩ := hplace _ _ hcrossed rfl
    exact ⟨us, vs, hts, hswapped, hus, hus', hfirst 9⟩

end Sentence

end Sentential

import Sentential.Token.Basic

/-!
# Cursors

A cursor is a list of tokens with a position in it.  Looking at the next token moves
nothing; `advance` passes it, and `expect` passes it if it has the wanted kind.  A move
that fails gives back no cursor, so the old one stays as it was.
-/

namespace Sentential

/-- A list of tokens and the number of them that have been passed. -/
structure Cursor where
  /-- All tokens, passed or not. -/
  tokens : List Token
  /-- The number of tokens that have been passed. -/
  pos : Nat
  deriving DecidableEq, Repr

namespace Cursor

/-- The cursor before the first of some tokens. -/
def ofList (ts : List Token) : Cursor := ⟨ts, 0⟩

/-- The tokens that have not been passed. -/
def remaining (c : Cursor) : List Token := c.tokens.drop c.pos

/-- The next token, if there is one. -/
def peek? (c : Cursor) : Option Token := c.tokens[c.pos]?

/-- The kind of the next token, if there is one. -/
def peekKind? (c : Cursor) : Option Token.Kind := c.peek?.map (·.kind)

/-- The number of all tokens, passed or not. -/
def length (c : Cursor) : Nat := c.tokens.length

/-- Whether there are no tokens at all. -/
def isEmpty (c : Cursor) : Bool := c.tokens.isEmpty

/-- Whether all tokens have been passed. -/
def isExhausted (c : Cursor) : Bool := decide (c.length ≤ c.pos)

/-- The cursor after one more token. -/
def step (c : Cursor) : Cursor := { c with pos := c.pos + 1 }

/-- Pass the next token, whatever its kind. -/
def advance (c : Cursor) : Except ParseError (Token × Cursor) :=
  match c.peek? with
  | none => .error .unexpectedEnd
  | some t => .ok (t, c.step)

/-- Pass the next token if it is of kind `k`. -/
def expect (k : Token.Kind) (c : Cursor) : Except ParseError (Token × Cursor) :=
  match c.peek? with
  | none => .error (.unexpectedEndExpecting k)
  | some t => if t.kind = k then .ok (t, c.step) else .error (.mismatch k t)

/-- Pass `n` tokens, or fail at the first that is missing. -/
def skip : Nat → Cursor → Except ParseError Cursor
  | 0, c => .ok c
  | n + 1, c =>
    match c.advance with
    | .error e => .error e
    | .ok (_, c') => skip n c'

@[simp]
theorem remaining_ofList (ts : List Token) :
  (ofList ts).remaining = ts
  := rfl

/-- The next token is the first of those that remain. -/
theorem peek?_eq_head?_remaining (c : Cursor) :
  c.peek? = c.remaining.head?
  := by
  simp [peek?, remaining]

theorem remaining_of_peek? {c : Cursor} {t : Token} (h : c.peek? = some t) :
  c.remaining = t :: c.step.remaining
  := by
  obtain ⟨hlt, ht⟩ := List.getElem?_eq_some_iff.mp h
  rw [remaining, List.drop_eq_getElem_cons hlt, ht]
  rfl

/-- All tokens have been passed when there is no next one. -/
theorem isExhausted_iff_peek?_eq_none {c : Cursor} :
  c.isExhausted = true ↔ c.peek? = none
  := by
  rw [isExhausted, decide_eq_true_iff, peek?, List.getElem?_eq_none_iff, length]

section Moves

variable {c c' : Cursor} {k : Token.Kind} {t : Token} {e : ParseError}

theorem advance_eq_ok_iff :
  c.advance = .ok (t, c') ↔ c.peek? = some t ∧ c' = c.step
  := by
  rw [advance]
  cases c.peek? with
  | none => simp
  | some u => simp [eq_comm]

theorem advance_eq_error_iff :
  c.advance = .error e ↔ e = .unexpectedEnd ∧ c.peek? = none
  := by
  rw [advance]
  cases c.peek? with
  | none => simp [eq_comm]
  | some u => simp

theorem expect_eq_ok_iff :
  c.expect k = .ok (t, c') ↔ c.peek? = some t ∧ t.kind = k ∧ c' = c.step
  := by
  rw [expect]
  cases c.peek? with
  | none => simp
  | some u => grind

/-- A token is refused for its kind, and its absence for the kind that is missing. -/
theorem expect_eq_error_iff :
  c.expect k = .error e
    ↔ (e = .unexpectedEndExpecting k ∧ c.peek? = none)
      ∨ ∃ t, e = .mismatch k t ∧ c.peek? = some t ∧ t.kind ≠ k
  := by
  rw [expect]
  cases c.peek? with
  | none => simp [eq_comm]
  | some u => grind

end Moves

end Cursor

end Sentential

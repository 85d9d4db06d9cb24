import Sentential.Sentence.Basic
import Sentential.Token.Cursor

/-!
# Reading sentences from tokens

There are two grammars.  In the *strict* grammar a sentence is an atom, a negated sentence,
or two sentences with a connective between them in round brackets.  The *permissive* grammar
lets brackets be left out where precedence decides: junctions bind tighter than implication
and equivalence, connectives of one level group to the left, and a conjunction may not
stand beside a disjunction without brackets.  It also admits square brackets, and brackets
about any sentence.

Each reader takes the number `d` of levels above it and a list of tokens, and returns a
sentence with the tokens behind it.  A reader at level `d` fails when the limit is not above
`d`; a negated sentence, the inside of a group and the right operand of a connective are one
level deeper.  `Reading n` carries the fact that fewer than `n` tokens are left, from which
the mutual recursion is seen to end.
-/

namespace Sentential

/-- The two grammars of sentences. -/
inductive Grammar where
  | strict
  | permissive
  deriving DecidableEq, Repr

namespace Grammar

/-- The name of a grammar. -/
def name : Grammar → String
  | strict => "Strict"
  | permissive => "Permissive"

/-- Whether a group may be enclosed in brackets of a shape. -/
def admits : Grammar → Bracket → Bool
  | _, .round => true
  | g, .square => decide (g = permissive)

end Grammar

namespace Sentence

/-- A sentence read from the front of a list of tokens, with fewer than `n` tokens left. -/
structure Reading (n : Nat) where
  /-- The sentence. -/
  sentence : Sentence
  /-- The tokens behind the sentence. -/
  rest : List Token
  /-- Fewer than `n` tokens are left. -/
  rest_lt : rest.length < n

namespace Reading

theorem length_lt_of_rest_eq {n : Nat} {r : Reading n} {t : Token} {ts : List Token}
    (h : r.rest = t :: ts) :
  ts.length < n
  := by
  have := r.rest_lt
  rw [h, List.length_cons] at this
  omega

/-- A reading of a sentence with the same tokens left. -/
def map {n : Nat} (f : Sentence → Sentence) (r : Reading n) : Reading n :=
  { r with sentence := f r.sentence }

/-- A reading that leaves fewer than `m` tokens leaves fewer than `n` if `m` is at most `n`. -/
def weaken {m n : Nat} (h : m ≤ n) (r : Reading m) : Reading n :=
  { r with rest_lt := Nat.lt_of_lt_of_le r.rest_lt h }

/-- The same sentence without the closing bracket that must stand behind it. -/
def close {n : Nat} (b : Bracket) (r : Reading n) : Except ParseError (Reading n) :=
  match h : r.rest with
  | [] => .error (.unexpectedEndExpecting (.closing b))
  | t :: ts =>
    if t.kind = .closing b then
      .ok
        { sentence := r.sentence
          rest := ts
          rest_lt := length_lt_of_rest_eq h }
    else .error (.mismatch (.closing b) t)

end Reading

/-- The last junction of the scope, if the token `t` of a connective `c` may not join it: both
are junctions, but not of one kind. -/
def conflict? (last? : Option Token) (c : Connective) (t : Token) : Option Token :=
  last?.filter fun u => c.isJunction && decide (u.kind ≠ t.kind)

mutual

/-- Read an atom, a negated sentence or a group. -/
def readPrimary (g : Grammar) (limit d : Nat) (ts : List Token) :
    Except ParseError (Reading ts.length) :=
  if limit ≤ d then .error (.depthExceeded limit)
  else
    match ts with
    | [] => .error .unexpectedEnd
    | t :: ts =>
      match t.kind with
      | .atom => .ok ⟨.atom t.text, ts, by simp⟩
      | .negation =>
        match readPrimary g limit (d + 1) ts with
        | .error e => .error e
        | .ok r => .ok ((r.map .negation).weaken (by simp))
      | .opening b =>
        if g.admits b then
          match readGroup g limit (d + 1) b ts with
          | .error e => .error e
          | .ok r => .ok (r.weaken (by simp))
        else .error (.unexpectedToken t)
      | _ => .error (.unexpectedToken t)
termination_by (ts.length, 0)
decreasing_by
  · exact Prod.Lex.left _ _ (Nat.lt_succ_self _)
  · exact Prod.Lex.left _ _ (Nat.lt_succ_self _)

/-- Read the inside of a group and the bracket that closes it. -/
def readGroup (g : Grammar) (limit d : Nat) (b : Bracket) (ts : List Token) :
    Except ParseError (Reading ts.length) :=
  match g with
  | .permissive =>
    match readBinary .permissive limit d 0 ts with
    | .error e => .error e
    | .ok r => r.close b
  | .strict =>
    match readPrimary .strict limit d ts with
    | .error e => .error e
    | .ok l =>
      match h : l.rest with
      | [] => .error .unexpectedEnd
      | t :: us =>
        match t.kind.connective? with
        | none => .error (.expectedConnective t)
        | some c =>
          match readPrimary .strict limit d us with
          | .error e => .error e
          | .ok r =>
            let s := r.map (.binary c l.sentence)
            (s.weaken (Nat.le_of_lt (Reading.length_lt_of_rest_eq h))).close b
termination_by (ts.length, 2)
decreasing_by
  · exact Prod.Lex.right _ (by decide)
  · exact Prod.Lex.right _ (by decide)
  · exact Prod.Lex.left _ _ (Reading.length_lt_of_rest_eq h)

/-- Read operands joined by connectives, none of a level below `least`. -/
def readBinary (g : Grammar) (limit d least : Nat) (ts : List Token) :
    Except ParseError (Reading ts.length) :=
  match readPrimary g limit d ts with
  | .error e => .error e
  | .ok l =>
    match readTail g limit d least l.sentence none l.rest with
    | .error e => .error e
    | .ok r => .ok (r.weaken l.rest_lt)
termination_by (ts.length, 1)
decreasing_by
  · exact Prod.Lex.right _ (by decide)
  · exact Prod.Lex.left _ _ l.rest_lt

/-- Read the connectives and operands that follow a sentence, joining each operand to all
that is on its left.  The last connective read is remembered if it is a junction. -/
def readTail (g : Grammar) (limit d least : Nat) (left : Sentence) (last? : Option Token)
    (ts : List Token) : Except ParseError (Reading (ts.length + 1)) :=
  match ts with
  | [] => .ok ⟨left, [], by simp⟩
  | t :: us =>
    match t.kind.connective? with
    | none => .ok ⟨left, t :: us, by simp⟩
    | some c =>
      if c.precedence < least then .ok ⟨left, t :: us, by simp⟩
      else
        match conflict? last? c t with
        | some u => .error (.ambiguity u t)
        | none =>
          match readBinary g limit (d + 1) (c.precedence + 1) us with
          | .error e => .error e
          | .ok r =>
            let last? := if c.isJunction then some t else none
            match readTail g limit d least (.binary c left r.sentence) last? r.rest with
            | .error e => .error e
            | .ok s =>
              .ok (s.weaken (Nat.succ_le_succ (Nat.le_succ_of_le (Nat.le_of_lt r.rest_lt))))
termination_by (ts.length, 0)
decreasing_by
  · exact Prod.Lex.left _ _ (Nat.lt_succ_self _)
  · exact Prod.Lex.left _ _ (Nat.lt_succ_of_lt r.rest_lt)

end

/-- The sentence that a list of tokens forms in a grammar, nested at most `limit` levels. -/
def parse (g : Grammar) (limit : Nat) (ts : List Token) : Except ParseError Sentence :=
  let reading :=
    match g with
    | .strict => readPrimary .strict limit 0 ts
    | .permissive => readBinary .permissive limit 0 0 ts
  match reading with
  | .error e => .error e
  | .ok r =>
    match r.rest with
    | [] => .ok r.sentence
    | t :: _ => .error (.trailingTokens t)

end Sentence

end Sentential

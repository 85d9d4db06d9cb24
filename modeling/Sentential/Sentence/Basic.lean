import Sentential.AtomName
import Sentential.Token.Basic

/-!
# Sentences

A sentence is an atom, a negation, or two sentences joined by a connective.  `render`
writes it in the canonical way, with round brackets about every binary sentence and nowhere
else.  `leaves` are the names of its atoms from left to right, with repetition.  The names
of a sentence built here may be any texts; `Sentence.atom?` admits atom names only.
-/

namespace Sentential

/-- A sentence of sentential logic. -/
inductive Sentence where
  | atom (name : String)
  | negation (s : Sentence)
  | binary (c : Connective) (left right : Sentence)
  deriving DecidableEq, Repr

namespace Sentence

/-- The atom with a given name, if the name is an atom name. -/
def atom? (name : String) : Except LexicalError Sentence :=
  if IsAtomName name then .ok (atom name) else .error (.invalidAtom name)

/-- The canonical text of a sentence. -/
def render : Sentence → String
  | atom name => name
  | negation s => Connective.negationSymbol ++ s.render
  | binary c l r => "(" ++ l.render ++ c.symbol ++ r.render ++ ")"

/-- The number of levels of a sentence: one for an atom, one more for every sign above. -/
def depth : Sentence → Nat
  | atom _ => 1
  | negation s => s.depth + 1
  | binary _ l r => max l.depth r.depth + 1

/-- The names of the atoms of a sentence from left to right, as often as they occur. -/
def leaves : Sentence → List String
  | atom name => [name]
  | negation s => s.leaves
  | binary _ l r => l.leaves ++ r.leaves

/-- The connective and the two parts of a binary sentence. -/
def parts? : Sentence → Option (Connective × Sentence × Sentence)
  | binary c l r => some (c, l, r)
  | _ => none

theorem depth_pos (s : Sentence) :
  0 < s.depth
  := by
  cases s <;> simp [depth]

theorem leaves_ne_nil (s : Sentence) :
  s.leaves ≠ []
  := by
  induction s with
  | atom name => simp [leaves]
  | negation s ih => exact ih
  | binary c l r ihl ihr => simp [leaves, ihl]

end Sentence

end Sentential

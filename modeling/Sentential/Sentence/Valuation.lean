import Sentential.Sentence.Basic

/-!
# Valuations

A valuation gives truth values to some names.  `Sentence.evaluate` computes the value of
a sentence and fails at an atom without one; both parts of a binary sentence are always
evaluated, the left part first.  `Sentence.truth` is the value under a valuation of all
names.
-/

namespace Sentential

/-- Truth values for some names. -/
abbrev Valuation := String → Option Bool

namespace Valuation

/-- The valuation that a list of pairs describes when the first pair with a name counts. -/
def ofFirst (pairs : List (String × Bool)) : Valuation := fun name => pairs.lookup name

/-- The valuation that a list of pairs describes when the last pair with a name counts. -/
def ofLast (pairs : List (String × Bool)) : Valuation := ofFirst pairs.reverse

end Valuation

/-- The reason why a sentence has no value. -/
inductive EvalError where
  /-- An atom to which the valuation gives no value. -/
  | missingAtom (name : String)
  deriving DecidableEq, Repr

/-- The wording of an error. -/
def EvalError.message : EvalError → String
  | missingAtom name => "missing value for atom " ++ name

namespace Sentence

/-- The value of a sentence, or the first of its atoms without a value. -/
def evaluate (env : Valuation) : Sentence → Except EvalError Bool
  | atom name =>
    match env name with
    | some b => .ok b
    | none => .error (.missingAtom name)
  | negation s => do
    let b ← s.evaluate env
    return !b
  | binary c l r => do
    let a ← l.evaluate env
    let b ← r.evaluate env
    return c.eval a b

/-- The value of a sentence under a valuation of all names. -/
def truth (v : String → Bool) : Sentence → Bool
  | atom name => v name
  | negation s => !s.truth v
  | binary c l r => c.eval (l.truth v) (r.truth v)

/-- A valuation of all names gives every sentence its value. -/
theorem evaluate_some (v : String → Bool) (s : Sentence) :
  s.evaluate (fun a => some (v a)) = .ok (s.truth v)
  := by
  induction s with
  | atom name => rfl
  | negation s ih => simp [evaluate, truth, ih, bind, Except.bind, pure, Except.pure]
  | binary c l r ihl ihr => simp [evaluate, truth, ihl, ihr, bind, Except.bind, pure, Except.pure]

end Sentence

end Sentential

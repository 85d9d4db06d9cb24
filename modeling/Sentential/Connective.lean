/-!
# Connectives

The four binary connectives, with their truth functions, the symbols that a rendered
sentence shows them by, and their precedence.  A conjunction or disjunction is a
*junction*; junctions bind tighter than implication and equivalence.
-/

namespace Sentential

/-- A binary connective. -/
inductive Connective where
  | conjunction
  | disjunction
  | implication
  | equivalence
  deriving DecidableEq, Repr

namespace Connective

/-- The truth function of a connective. -/
def eval : Connective → Bool → Bool → Bool
  | conjunction, a, b => a && b
  | disjunction, a, b => a || b
  | implication, a, b => !a || b
  | equivalence, a, b => a == b

/-- How tightly a connective binds: junctions at level 2, the other two at level 1. -/
def precedence : Connective → Nat
  | conjunction | disjunction => 2
  | implication | equivalence => 1

/-- Whether a connective is a conjunction or a disjunction. -/
def isJunction : Connective → Bool
  | conjunction | disjunction => true
  | implication | equivalence => false

/-- The symbol of a connective in a rendered sentence. -/
def symbol : Connective → String
  | conjunction => "&"
  | disjunction => "|"
  | implication => "->"
  | equivalence => "<->"

/-- The symbol of negation in a rendered sentence. -/
def negationSymbol : String := "~"

/-- The short name of a connective. -/
def name : Connective → String
  | conjunction => "And"
  | disjunction => "Or"
  | implication => "Implies"
  | equivalence => "Equiv"

/-- What a message calls a connective. -/
def description : Connective → String
  | conjunction => "conjunction"
  | disjunction => "disjunction"
  | implication => "implication"
  | equivalence => "equivalence"

/-- The junctions are the connectives of level 2. -/
theorem isJunction_iff_precedence {c : Connective} :
  c.isJunction = true ↔ c.precedence = 2
  := by
  cases c <;> simp [isJunction, precedence]

theorem precedence_pos (c : Connective) :
  0 < c.precedence
  := by
  cases c <;> simp [precedence]

end Connective

end Sentential

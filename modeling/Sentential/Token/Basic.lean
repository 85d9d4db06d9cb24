import Sentential.Connective

/-!
# Tokens

A token is a stretch of text together with its kind: an atom, a negation, a connective,
or a bracket of one of two shapes.  The kinds are ordered as `Kind.all` lists them.  A lexical
error tells why a text does not split into tokens, or a name names no atom; a parse error tells
why a list of tokens is no sentence: it names the token that cannot belong, the kind that was
missing at the end, or the depth that was exceeded.
-/

namespace Sentential

/-- The two shapes of brackets. -/
inductive Bracket where
  | round
  | square
  deriving DecidableEq, Repr

namespace Token

/-- The kind of a token. -/
inductive Kind where
  | atom
  | negation
  | connective (c : Connective)
  | opening (b : Bracket)
  | closing (b : Bracket)
  deriving DecidableEq, Repr

namespace Kind

/-- The kinds in their order. -/
def all : List Kind :=
  [atom, negation, connective .conjunction, connective .disjunction, connective .implication,
   connective .equivalence, opening .round, closing .round, opening .square, closing .square]

/-- The place of a kind in the order of kinds. -/
def rank (k : Kind) : Nat := all.idxOf k

/-- Kinds in increasing order, as often as the list has them. -/
def sort (ks : List Kind) : List Kind := ks.mergeSort fun k l => decide (k.rank ≤ l.rank)

/-- The connective that a kind stands for, if it is one. -/
def connective? : Kind → Option Connective
  | connective c => some c
  | _ => none

/-- The short name of a kind. -/
def name : Kind → String
  | atom => "Atom"
  | negation => "Not"
  | connective c => c.name
  | opening .round => "LParen"
  | closing .round => "RParen"
  | opening .square => "LBracket"
  | closing .square => "RBracket"

/-- What a message calls a kind. -/
def description : Kind → String
  | atom => "atom"
  | negation => "negation"
  | connective c => c.description
  | opening .round => "'('"
  | closing .round => "')'"
  | opening .square => "'['"
  | closing .square => "']'"

/-- The order misses no kind. -/
theorem mem_all (k : Kind) :
  k ∈ all
  := by
  rcases k with _ | _ | c | b | b
  · simp [all]
  · simp [all]
  · cases c <;> simp [all]
  · cases b <;> simp [all]
  · cases b <;> simp [all]

end Kind

end Token

/-- A token: a stretch of text and its kind. -/
structure Token where
  /-- The kind of the token. -/
  kind : Token.Kind
  /-- The text that the token was read from. -/
  text : String
  deriving DecidableEq, Repr

namespace Token

/-- A token as messages show it, in quotes and otherwise untouched. -/
def quoted (t : Token) : String := "'" ++ t.text ++ "'"

end Token

/-! ### Errors -/

/-- The reason why a text holds something that is no token. -/
inductive LexicalError where
  /-- A stretch of text at which neither a spelling nor an atom name begins. -/
  | unknownToken (text : String)
  /-- A name given to an atom that is not an atom name. -/
  | invalidAtom (name : String)
  deriving DecidableEq, Repr

namespace LexicalError

/-- The wording of an error. -/
def message : LexicalError → String
  | unknownToken text => "unknown token: '" ++ text ++ "'"
  | invalidAtom name => "invalid atom name: '" ++ name ++ "'"

end LexicalError

/-- The reason why tokens do not form a sentence. -/
inductive ParseError where
  /-- The tokens end where one more is needed. -/
  | unexpectedEnd
  /-- The tokens end where one of a certain kind is needed. -/
  | unexpectedEndExpecting (expected : Token.Kind)
  /-- A token of another kind stands where one of a certain kind is needed. -/
  | mismatch (expected : Token.Kind) (found : Token)
  /-- A token other than a connective stands between the operands of a group. -/
  | expectedConnective (found : Token)
  /-- A token stands where a sentence must begin, and no sentence begins with it. -/
  | unexpectedToken (found : Token)
  /-- A token follows a complete sentence. -/
  | trailingTokens (next : Token)
  /-- A conjunction and a disjunction meet in one scope with no bracket between them. -/
  | ambiguity (first second : Token)
  /-- The nesting is deeper than the limit allows. -/
  | depthExceeded (limit : Nat)
  deriving DecidableEq, Repr

namespace ParseError

/-- The tokens that an error carries, in text order. -/
def tokens : ParseError → List Token
  | unexpectedEnd | unexpectedEndExpecting _ | depthExceeded _ => []
  | mismatch _ t | expectedConnective t | unexpectedToken t | trailingTokens t => [t]
  | ambiguity t u => [t, u]

/-- The wording of an error. -/
def message : ParseError → String
  | unexpectedEnd => "unexpected end of input"
  | unexpectedEndExpecting k => "unexpected end of input: expected " ++ k.description
  | mismatch k t => "expected " ++ k.description ++ " but found " ++ t.quoted
  | expectedConnective t => "expected a binary connective but found " ++ t.quoted
  | unexpectedToken t => "unexpected token " ++ t.quoted
  | trailingTokens t => "extra tokens at end, starting at " ++ t.quoted
  | ambiguity t u =>
    "connectives " ++ t.quoted ++ " and " ++ u.quoted
      ++ " appear at the same precedence level; parentheses are required"
  | depthExceeded n => "maximum nesting depth exceeded (" ++ toString n ++ ")"

end ParseError

end Sentential

import Sentential.Circuit.Basic
import Sentential.Formula.Basic

/-!
# Arguments

An argument has premises and a conclusion.  It keeps the names of all its atoms and the
circuits of its sentences over them, so that every row of its truth table is computed from
circuits made once.  `Argument.ofFormulas` refuses more atoms than the limits allow, and
`Argument.ofSentences` reads the sentences first, the premises before the conclusion.  Every
formula is well formed, whether it was read from a text or made from a sentence.  So formulas are
not asked whether they are, only a text can be ill-formed, and its error always has a cause.
-/

namespace Sentential

/-- Premises and a conclusion, with the atoms of all of them and their circuits. -/
structure Argument where
  /-- The premises, in order. -/
  premises : List Formula
  /-- The conclusion. -/
  conclusion : Formula
  /-- The names of all atoms, in increasing order. -/
  atoms : List String
  /-- The circuits of the premises over the atoms. -/
  premiseCircuits : List Circuit
  /-- The circuit of the conclusion over the atoms. -/
  conclusionCircuit : Circuit
  deriving DecidableEq, Repr

namespace Argument

/-- The reason why sentences make no argument. -/
inductive Error where
  /-- The text of a premise is no sentence, for the cause given. -/
  | illFormedPremise (index : Nat) (sentence : String) (cause : Formula.Error)
  /-- The text of the conclusion is no sentence, for the cause given. -/
  | illFormedConclusion (sentence : String) (cause : Formula.Error)
  /-- There are more distinct atoms than the limits allow. -/
  | tooManyAtoms (count max : Nat)
  /-- A sentence has an atom that is not among the columns. -/
  | evaluation (cause : EvalError)
  deriving DecidableEq, Repr

namespace Error

/-- The wording of an error. -/
def message : Error → String
  | illFormedPremise index sentence _ =>
    "premise " ++ toString index ++ " is not well-formed: '" ++ sentence ++ "'"
  | illFormedConclusion sentence _ => "conclusion is not well-formed: '" ++ sentence ++ "'"
  | tooManyAtoms count max =>
    "too many atoms to enumerate (" ++ toString count ++ " > " ++ toString max ++ ")"
  | evaluation cause => cause.message

/-- The wordings of the causes of an error, the nearest first. -/
def causes : Error → List String
  | illFormedPremise _ _ cause | illFormedConclusion _ cause => cause.message :: cause.causes
  | tooManyAtoms _ _ | evaluation _ => []

end Error

/-- The names of the atoms of some formulas, in increasing order. -/
def atomsOf (fs : List Formula) : List String := nameSet (fs.flatMap fun f => f.tree.leaves)

/-- The argument from premises to a conclusion, unless it has too many atoms.  No formula is
refused: see `Formula`. -/
def ofFormulas (lim : Limits) (premises : List Formula) (conclusion : Formula) :
    Except Error Argument :=
  let atoms := atomsOf (premises ++ [conclusion])
  if lim.atomBound < atoms.length then .error (.tooManyAtoms atoms.length lim.atomBound)
  else
    match premises.mapM fun f => Circuit.compileSorted f.tree atoms with
    | .error e => .error (.evaluation e)
    | .ok premiseCircuits =>
      match Circuit.compileSorted conclusion.tree atoms with
      | .error e => .error (.evaluation e)
      | .ok conclusionCircuit =>
        .ok ⟨premises, conclusion, atoms, premiseCircuits, conclusionCircuit⟩

/-- Read premises in order, the first of which has number `i`. -/
def readPremises : Nat → List String → Except Error (List Formula)
  | _, [] => .ok []
  | i, text :: texts =>
    match Formula.parse .standard .standard text with
    | .error e => .error (.illFormedPremise i text e)
    | .ok f =>
      match readPremises (i + 1) texts with
      | .error e => .error e
      | .ok fs => .ok (f :: fs)

/-- The argument from premises to a conclusion, all given as texts. -/
def ofSentences (premises : List String) (conclusion : String) : Except Error Argument :=
  match readPremises 0 premises with
  | .error e => .error e
  | .ok fs =>
    match Formula.parse .standard .standard conclusion with
    | .error e => .error (.illFormedConclusion conclusion e)
    | .ok f => ofFormulas .standard fs f

/-- An argument in one line, the premises before the conclusion. -/
def render (a : Argument) : String :=
  ", ".intercalate (a.premises.map (·.render)) ++ " ⊢ " ++ a.conclusion.render

end Argument

end Sentential

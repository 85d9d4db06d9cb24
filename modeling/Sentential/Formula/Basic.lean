import Sentential.Limits
import Sentential.Sentence.Atoms
import Sentential.Sentence.Parser
import Sentential.Vocabulary.Scan

/-!
# Formulas

A formula is a sentence together with the text that it was read from and the grammar that
accepts the text.  `Formula.parse` tries the strict grammar first and the permissive one
after it, so that a formula is strict exactly when the strict grammar accepts its tokens; if
neither does, the error is that of the permissive grammar.  `Formula.ofSentence` makes a
formula of a sentence whose names are atom names, with its canonical text.
-/

namespace Sentential

/-- A sentence with the text that it was read from and the grammar that accepts the text.  An
ill-formed text makes no formula, so that every formula is well formed. -/
structure Formula where
  /-- The text, unchanged. -/
  input : String
  /-- The sentence. -/
  tree : Sentence
  /-- The first grammar, the strict one before the permissive one, that accepts the text. -/
  grammar : Grammar
  deriving DecidableEq, Repr

namespace Formula

/-- The reason why a text is no formula. -/
inductive Error where
  /-- The text is empty or blank. -/
  | empty
  /-- The spellings that the text is to be read with make no vocabulary. -/
  | vocabulary (cause : Vocabulary.Error)
  /-- The text does not split into tokens, or a name is no atom name. -/
  | lexical (cause : LexicalError)
  /-- Neither grammar accepts the tokens of the text; the cause is the permissive one's. -/
  | malformed (input : String) (cause : ParseError)
  deriving DecidableEq, Repr

namespace Error

/-- The wording of an error. -/
def message : Error → String
  | empty => "input is empty; not a sentence"
  | vocabulary cause => cause.message
  | lexical cause => "not a sentence: " ++ cause.message
  | malformed input cause => "not a sentence: '" ++ input ++ "': " ++ cause.message

/-- The wordings of the causes of an error, the nearest first.  An error of the vocabulary
speaks for itself. -/
def causes : Error → List String
  | empty | vocabulary _ => []
  | lexical cause => [cause.message]
  | malformed _ cause => [cause.message]

end Error

/-- Read a formula with a vocabulary, within limits. -/
def parse (v : Vocabulary) (lim : Limits) (text : String) : Except Error Formula :=
  if Text.isBlankText text then .error .empty
  else
    match v.tokenize text with
    | .error e => .error (.lexical e)
    | .ok ts =>
      match Sentence.parse .strict lim.maxDepth ts with
      | .ok s => .ok ⟨text, s, .strict⟩
      | .error _ =>
        match Sentence.parse .permissive lim.maxDepth ts with
        | .ok s => .ok ⟨text, s, .permissive⟩
        | .error e => .error (.malformed text e)

/-- The formula of a sentence, with its canonical text.  If the sentence has a name that is
no atom name, the error tells the least such name. -/
def ofSentence (s : Sentence) : Except Error Formula :=
  match s.atoms.find? fun a => decide ¬ IsAtomName a with
  | some a => .error (.lexical (.invalidAtom a))
  | none => .ok ⟨s.render, s, .strict⟩

/-- Whether the strict grammar accepts the text of a formula. -/
def isFormal (f : Formula) : Bool := decide (f.grammar = .strict)

/-- The canonical text of the sentence of a formula. -/
def render (f : Formula) : String := f.tree.render

/-- The names of the atoms of a formula, in increasing order. -/
def atoms (f : Formula) : List String := f.tree.atoms

end Formula

end Sentential

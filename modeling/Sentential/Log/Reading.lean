import Sentential.Argument.Table

/-!
# The log

What happens while sentences are read and tables are built is recorded as events.  An event
has a level, which says how close a look it belongs to, and a message.  The events of reading a
formula are those of its tokens, followed by the one that tells the formula.  If the strict
grammar refuses the text, that is an event, and the tokens are read once more.  Of an ill-formed
text the tokens before the first unknown stretch are events.
-/

namespace Sentential

/-- The two levels of events. -/
inductive Level where
  | trace
  | debug
  deriving DecidableEq, Repr

/-- The name of a level. -/
def Level.name : Level → String
  | trace => "TRACE"
  | debug => "DEBUG"

/-- Something that happens while sentences are read or tables are built. -/
inductive Event where
  /-- A token has been read. -/
  | token (t : Token)
  /-- The strict grammar has refused a text, and the permissive one is tried. -/
  | fallback (text : String) (cause : ParseError)
  /-- A formula has been read. -/
  | classified (f : Formula)
  /-- A table is about to be built. -/
  | generating (rowCount : Nat) (atoms : List String)
  /-- A row has been computed. -/
  | row (r : Row)
  /-- It has been decided whether an argument is valid. -/
  | verdict (argument : String) (valid : Bool)
  deriving DecidableEq, Repr

namespace Event

/-- The level of an event. -/
def level : Event → Level
  | token _ | row _ => .trace
  | fallback _ _ | classified _ | generating _ _ | verdict _ _ => .debug

/-- Texts as a list in square brackets. -/
def bracketed (xs : List String) : String := "[" ++ ", ".intercalate xs ++ "]"

/-- A name in double quotes. -/
def quoted (name : String) : String := "\"" ++ name ++ "\""

/-- The wording of an event. -/
def message : Event → String
  | token t => "token " ++ t.kind.name ++ " " ++ t.quoted
  | fallback text cause =>
    "'" ++ text ++ "' is not formal (" ++ cause.message ++ "); trying permissive grammar"
  | classified f => "parsed '" ++ f.input ++ "' as " ++ f.grammar.name ++ ": " ++ f.render
  | generating rowCount atoms =>
    "generating " ++ toString rowCount ++ " rows over atoms " ++ bracketed (atoms.map quoted)
  | row r =>
    let values := r.assignment.map fun p => quoted p.1 ++ ": " ++ toString p.2
    "row " ++ toString r.index ++ ": " ++ Text.braced (", ".intercalate values)
      ++ " premises=" ++ bracketed (r.premises.map toString)
      ++ " conclusion=" ++ toString r.conclusion
  | verdict argument valid => "inference " ++ argument ++ " valid: " ++ toString valid

end Event

/-! ### The events of reading -/

/-- The events of splitting a text into tokens. -/
def Vocabulary.events (v : Vocabulary) (text : String) : List Event :=
  (v.scan text.toList).tokens.map .token

namespace Formula

/-- The events of reading a formula. -/
def events (v : Vocabulary) (lim : Limits) (text : String) : List Event :=
  if Text.isBlankText text then []
  else
    match v.tokenize text with
    | .error _ => v.events text
    | .ok ts =>
      let refusal : List Event :=
        match Sentence.parse .strict lim.maxDepth ts with
        | .ok _ => []
        | .error e => .fallback text e :: v.events text
      let outcome : List Event :=
        match parse v lim text with
        | .ok f => [.classified f]
        | .error _ => []
      v.events text ++ refusal ++ outcome

/-- The events of reading formulas one after the other, up to the first that fails. -/
def eventsOfAll (v : Vocabulary) (lim : Limits) : List String → List Event
  | [] => []
  | text :: texts =>
    match parse v lim text with
    | .ok _ => events v lim text ++ eventsOfAll v lim texts
    | .error _ => events v lim text

end Formula

end Sentential

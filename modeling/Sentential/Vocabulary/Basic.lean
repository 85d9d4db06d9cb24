import Sentential.Text.Blank
import Sentential.Token.Basic

/-!
# Vocabularies

A vocabulary says how negation, the connectives and the brackets are spelled.  It is a
list of entries, each a spelling with its kind; no spelling is blank, none occurs twice,
and none spells an atom, since atoms are recognized by the form of their names.
`Vocabulary.ofDefinitions` builds a vocabulary from lists of spellings and reports the
first spelling that breaks a rule; `Vocabulary.standard` is the usual vocabulary.
-/

namespace Sentential

namespace Vocabulary

/-- A spelling together with the kind of token that it spells. -/
structure Entry where
  /-- The text of the spelling. -/
  spelling : String
  /-- The kind of token. -/
  kind : Token.Kind
  deriving DecidableEq, Repr

/-- The reason why definitions make no vocabulary. -/
inductive Error where
  /-- A spelling is given twice, the first time for `first`. -/
  | duplicateSpelling (spelling : String) (first second : Token.Kind)
  /-- A blank spelling is given for a kind. -/
  | emptySpelling (kind : Token.Kind)
  /-- A spelling is given for atoms. -/
  | atomSpelling (spelling : String)
  deriving DecidableEq, Repr

/-- The wording of an error. -/
def Error.message : Error → String
  | duplicateSpelling s k l =>
    "definition error: symbol '" ++ s ++ "' is registered for both " ++ k.description
      ++ " and " ++ l.description
  | emptySpelling k => "definition error: empty spelling registered for " ++ k.description
  | atomSpelling s => "definition error: atoms cannot have literal spelling '" ++ s ++ "'"

end Vocabulary

open Vocabulary in
/-- How the tokens other than atoms are spelled. -/
structure Vocabulary where
  /-- The spellings with their kinds, in the order in which they were given. -/
  entries : List Entry
  /-- No spelling occurs twice. -/
  nodup : (entries.map (·.spelling)).Nodup
  /-- No spelling is blank. -/
  nonblank : ∀ e ∈ entries, Text.isBlankText e.spelling = false
  /-- No spelling spells an atom. -/
  not_atom : ∀ e ∈ entries, e.kind ≠ .atom

namespace Vocabulary

/-- The vocabulary without spellings. -/
def empty : Vocabulary where
  entries := []
  nodup := List.nodup_nil
  nonblank := by simp
  not_atom := by simp

/-- The kind of token that a text spells, if it is a spelling. -/
def kind? (v : Vocabulary) (s : String) : Option Token.Kind :=
  (v.entries.find? fun e => decide (e.spelling = s)).map (·.kind)

/-- The number of spellings. -/
def size (v : Vocabulary) : Nat := v.entries.length

/-- Whether there are no spellings. -/
def isEmpty (v : Vocabulary) : Bool := v.entries.isEmpty

/-- One spelling is listed before another if it has more characters, or as many and comes
earlier in the order of code points. -/
def listedBefore (s t : String) : Bool :=
  decide (t.length < s.length) || (decide (s.length = t.length) && decide (s ≤ t))

/-- The spellings, the longest first. -/
def longestFirst (v : Vocabulary) : List String :=
  (v.entries.map (·.spelling)).mergeSort listedBefore

theorem kind?_eq_none_iff {v : Vocabulary} {s : String} :
  v.kind? s = none ↔ s ∉ v.entries.map (·.spelling)
  := by
  simp [kind?]

/-- Add one entry, or report the rule that it breaks. -/
def insert (v : Vocabulary) (e : Entry) : Except Error Vocabulary :=
  if hatom : e.kind = .atom then .error (.atomSpelling e.spelling)
  else if hblank : Text.isBlankText e.spelling = true then .error (.emptySpelling e.kind)
  else
    match hkind : v.kind? e.spelling with
    | some first => .error (.duplicateSpelling e.spelling first e.kind)
    | none =>
      .ok
        { entries := v.entries ++ [e]
          nodup := by
            rw [List.map_append, List.nodup_append]
            refine ⟨v.nodup, by simp, ?_⟩
            rintro s hs t ht rfl
            apply kind?_eq_none_iff.1 hkind
            simpa [List.mem_singleton.1 ht] using hs
          nonblank := by
            intro f hf
            rcases List.mem_append.1 hf with hf | hf
            · exact v.nonblank f hf
            · simpa [List.mem_singleton.1 hf] using hblank
          not_atom := by
            intro f hf
            rcases List.mem_append.1 hf with hf | hf
            · exact v.not_atom f hf
            · simpa [List.mem_singleton.1 hf] using hatom }

/-- Add entries in order, up to the first that breaks a rule. -/
def insertAll : Vocabulary → List Entry → Except Error Vocabulary
  | v, [] => .ok v
  | v, e :: es =>
    match v.insert e with
    | .error err => .error err
    | .ok w => insertAll w es

/-- The entries of definitions, each a kind with its spellings. -/
def entriesOf (defs : List (Token.Kind × List String)) : List Entry :=
  defs.flatMap fun d => d.2.map fun s => ⟨s, d.1⟩

/-- The vocabulary of definitions, each a kind with its spellings. -/
def ofDefinitions (defs : List (Token.Kind × List String)) : Except Error Vocabulary :=
  empty.insertAll (entriesOf defs)

/-- The usual spellings of each kind. -/
def standardDefinitions : List (Token.Kind × List String) :=
  [(.negation, ["!", "~", "～", "¬"]),
   (.connective .conjunction, ["&", "∧", "/\\"]),
   (.connective .disjunction, ["|", "∨", "\\/"]),
   (.connective .implication, ["->", "→", "=>"]),
   (.connective .equivalence, ["<->", "↔", "<=>"]),
   (.opening .round, ["("]),
   (.closing .round, [")"]),
   (.opening .square, ["["]),
   (.closing .square, ["]"])]

/-- The usual vocabulary. -/
def standard : Vocabulary where
  entries := entriesOf standardDefinitions
  nodup := by decide
  nonblank := by decide
  not_atom := by decide

/-- The usual spellings break no rule, and make the usual vocabulary. -/
theorem ofDefinitions_standardDefinitions :
  ofDefinitions standardDefinitions = .ok standard
  := rfl

end Vocabulary

end Sentential

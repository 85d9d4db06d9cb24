import Sentential.Sentence.Valuation

/-!
# Circuits

The rows of a truth table over `n` names are numbered from `0`; in row `i`, the name of
column `j` has the value of bit `n - 1 - j` of `i`, so that the first column is the most
significant.  A circuit is a list of gates, each of which negates or joins columns and
earlier gates.  `Circuit.compile` makes one from a sentence: a gate for every sign, the gates
of an operand before the gate that uses them and those of the left operand first.  If the names of
the columns are in increasing order, `Circuit.compileSorted` makes it too, and finds them by halving.
-/

namespace Sentential

/-- The value of column `j` among `n` columns in a row: bit `n - 1 - j` of its number. -/
def columnValue (row n j : Nat) : Bool := row.testBit (n - 1 - j)

/-- Where an operand comes from: a column of the table, or the value of an earlier gate. -/
inductive Source where
  | column (j : Nat)
  | gate (i : Nat)
  deriving DecidableEq, Repr

/-- A gate negates one operand or joins two. -/
inductive Gate where
  | negation (s : Source)
  | binary (c : Connective) (left right : Source)
  deriving DecidableEq, Repr

/-- A list of gates over the columns of a table, with the source of its value. -/
structure Circuit where
  /-- The number of columns. -/
  columns : Nat
  /-- The gates, operands before the gates that use them. -/
  gates : List Gate
  /-- The source of the value of the circuit. -/
  output : Source
  deriving DecidableEq, Repr

/-- The value of a source in a row, when the gates so far have the values `vs`. -/
def Source.value (n row : Nat) (vs : Array Bool) : Source → Bool
  | column j => columnValue row n j
  | gate i => vs.getD i false

/-- The value of a gate in a row, when the gates before it have the values `vs`. -/
def Gate.value (n row : Nat) (vs : Array Bool) : Gate → Bool
  | negation s => !s.value n row vs
  | binary c l r => c.eval (l.value n row vs) (r.value n row vs)

/-! ### The column of a name -/

/-- Of `size` names from place `base` on, give up the half that cannot hold a name if they are in
increasing order, until one is left; its place is the result. -/
def narrow (names : List String) (name : String) (base size : Nat) : Nat :=
  if size ≤ 1 then base
  else
    let half := size / 2
    let mid := base + half
    if name < names.getD mid "" then narrow names name base (size - half)
    else narrow names name mid (size - half)
termination_by size

/-- The place of a name among names in increasing order, if it is one of them. -/
def bisect? (names : List String) (name : String) : Option Nat :=
  let j := narrow names name 0 names.length
  if names[j]? = some name then some j else none

namespace Circuit

/-! ### Compilation -/

/-- The gates of a sentence, when `k` gates stand before them, and the source of its value. -/
def lower (column? : String → Option Nat) (k : Nat) :
    Sentence → Except EvalError (List Gate × Source)
  | .atom name =>
    match column? name with
    | some j => .ok ([], .column j)
    | none => .error (.missingAtom name)
  | .negation s => do
    let (gs, source) ← lower column? k s
    return (gs ++ [.negation source], .gate (k + gs.length))
  | .binary c l r => do
    let (gs, left) ← lower column? k l
    let (hs, right) ← lower column? (k + gs.length) r
    return (gs ++ hs ++ [.binary c left right], .gate (k + gs.length + hs.length))

/-- The circuit of a sentence over `n` columns, in which the columns of names are looked up. -/
def compileBy (column? : String → Option Nat) (n : Nat) (s : Sentence) :
    Except EvalError Circuit := do
  let (gates, output) ← lower column? 0 s
  return ⟨n, gates, output⟩

/-- The circuit of a sentence over columns with the given names. -/
def compile (s : Sentence) (names : List String) : Except EvalError Circuit :=
  compileBy (names.idxOf? ·) names.length s

/-- The circuit of a sentence over columns whose names are in increasing order, which makes it
possible to find them by halving. -/
def compileSorted (s : Sentence) (names : List String) : Except EvalError Circuit :=
  compileBy (bisect? names) names.length s

/-! ### Evaluation -/

/-- The values of the gates of a circuit in a row. -/
def values (c : Circuit) (row : Nat) : Array Bool :=
  c.gates.foldl (fun vs g => vs.push (g.value c.columns row vs)) #[]

/-- The value of a circuit in a row. -/
def evalRow (c : Circuit) (row : Nat) : Bool := c.output.value c.columns row (c.values row)

end Circuit

/-! ### Text -/

/-- A text in curly brackets. -/
def Text.braced (s : String) : String := String.singleton '{' ++ s ++ String.singleton '}'

/-- A source as text. -/
def Source.toText : Source → String
  | column j => "Column(" ++ toString j ++ ")"
  | gate i => "Gate(" ++ toString i ++ ")"

/-- A gate as text. -/
def Gate.toText : Gate → String
  | negation s => "Not(" ++ s.toText ++ ")"
  | binary c l r => "Binary(" ++ c.name ++ ", " ++ l.toText ++ ", " ++ r.toText ++ ")"

/-- A circuit as text. -/
def Circuit.toText (c : Circuit) : String :=
  "Circuit " ++ Text.braced (" columns: " ++ toString c.columns
    ++ ", gates: [" ++ ", ".intercalate (c.gates.map Gate.toText)
    ++ "], output: " ++ c.output.toText ++ " ")

end Sentential

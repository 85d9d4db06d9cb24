import Sentential.AtomName
import Sentential.Vocabulary.Basic

/-!
# Splitting a text into tokens

At a place in a text the spellings are tried in their order, the longer ones first, and an atom
name is looked for if none of them begins there.  What is found is the *lexeme*, which is then
classified.  `Vocabulary.token?` finds the token at a place, blanks before it included: it passes
all blanks first and goes back over them one by one while no lexeme begins where it stands, which
matters only for spellings that begin with a blank.  `Vocabulary.scan` reads token after token,
dropping the blanks behind each, until the text ends or no token stands at the place reached.  In
the latter case the text holds an unknown stretch, which extends to the next place with a token.
-/

namespace Sentential

namespace Vocabulary

/-! ### The lexeme at a place -/

/-- The first spelling that begins a text, in the order that tries the longer ones before the
shorter. -/
def leadingSpelling? (v : Vocabulary) (cs : List Char) : Option String :=
  v.longestFirst.find? fun s => s.toList.isPrefixOf cs

/-- The text of the lexeme at the front of a text.  A spelling is preferred to an atom name,
however long the name. -/
def leading? (v : Vocabulary) (cs : List Char) : Option String :=
  match v.leadingSpelling? cs with
  | some s => some s
  | none => (AtomName.leading? cs).map String.ofList

/-- The kind of token with a given text: that of the spelling, or else atom for an atom name. -/
def classify? (v : Vocabulary) (s : String) : Option Token.Kind :=
  match v.kind? s with
  | some k => some k
  | none => if IsAtomName s then some .atom else none

/-- The token whose lexeme begins a text, and the text behind it.  No lexeme is without a kind:
see `lexeme?_eq_none_iff`. -/
def lexeme? (v : Vocabulary) (cs : List Char) : Option (Token × List Char) := do
  let s ← v.leading? cs
  let k ← v.classify? s
  return (⟨k, s⟩, cs.drop s.length)

/-- The first token of a text that blanks may precede, and the text behind it. -/
def token? (v : Vocabulary) : List Char → Option (Token × List Char)
  | [] => none
  | c :: cs =>
    match (if Text.isBlank c then v.token? cs else none) with
    | some found => some found
    | none => v.lexeme? (c :: cs)

@[simp]
theorem mem_longestFirst {v : Vocabulary} {s : String} :
  s ∈ v.longestFirst ↔ s ∈ v.entries.map (·.spelling)
  := (List.mergeSort_perm _ listedBefore).mem_iff

/-- The spelling found is one of the vocabulary, and the text begins with it. -/
theorem mem_of_leadingSpelling? {v : Vocabulary} {cs : List Char} {s : String}
    (h : v.leadingSpelling? cs = some s) :
  s ∈ v.entries.map (·.spelling) ∧ s.toList <+: cs
  := by
  refine ⟨mem_longestFirst.1 (List.mem_of_find?_eq_some h), ?_⟩
  simpa using List.find?_some h

/-- The text of a lexeme is not empty, and the text begins with it. -/
theorem length_pos_of_leading? {v : Vocabulary} {cs : List Char} {s : String}
    (h : v.leading? cs = some s) :
  0 < s.length ∧ s.toList <+: cs
  := by
  rw [leading?] at h
  split at h
  · rename_i hs
    cases h
    obtain ⟨hmem, hpre⟩ := mem_of_leadingSpelling? hs
    obtain ⟨e, he, rfl⟩ := List.mem_map.1 hmem
    exact ⟨Text.length_pos_of_isBlankText_eq_false (v.nonblank e he), hpre⟩
  · obtain ⟨name, hname, rfl⟩ := Option.map_eq_some_iff.1 h
    rw [String.length_ofList, String.toList_ofList]
    exact ⟨AtomName.length_pos_of_leading? hname, AtomName.isPrefix_of_leading? hname⟩

/-- A lexeme is found by its text, which is then classified. -/
theorem lexeme?_eq_some_iff_leading? {v : Vocabulary} {cs rest : List Char} {t : Token} :
  v.lexeme? cs = some (t, rest)
    ↔ v.leading? cs = some t.text ∧ v.classify? t.text = some t.kind
      ∧ cs.drop t.text.length = rest
  := by
  obtain ⟨k, s⟩ := t
  simp only [lexeme?, Option.bind_eq_bind, Option.bind_eq_some_iff, Option.pure_def,
    Option.some.injEq, Prod.mk.injEq, Token.mk.injEq]
  constructor
  · rintro ⟨s, hs, k, hk, ⟨rfl, rfl⟩, rfl⟩
    exact ⟨hs, hk, rfl⟩
  · rintro ⟨hs, hk, rfl⟩
    exact ⟨s, hs, k, hk, ⟨rfl, rfl⟩, rfl⟩

/-- A lexeme is not empty. -/
theorem length_lt_of_lexeme? {v : Vocabulary} {cs rest : List Char} {t : Token}
    (h : v.lexeme? cs = some (t, rest)) :
  rest.length < cs.length
  := by
  obtain ⟨hleading, -, rfl⟩ := lexeme?_eq_some_iff_leading?.1 h
  obtain ⟨hpos, hpre⟩ := length_pos_of_leading? hleading
  have hle := hpre.length_le
  rw [String.length_toList] at hle
  rw [List.length_drop]
  omega

theorem length_lt_of_token? {v : Vocabulary} {cs rest : List Char} {t : Token}
    (h : v.token? cs = some (t, rest)) :
  rest.length < cs.length
  := by
  induction cs with
  | nil => simp [token?] at h
  | cons c cs ih =>
    simp only [token?] at h
    split at h
    · rename_i found hfound
      cases h
      split at hfound
      · have := ih hfound
        simp only [List.length_cons]
        omega
      · simp at hfound
    · exact length_lt_of_lexeme? h

/-! ### The scan of a text -/

/-- What a scan brings to light: tokens, and the unknown stretch that ended it, if any. -/
structure Scan where
  /-- The tokens read before the scan ended. -/
  tokens : List Token
  /-- The unknown stretch, without blanks on either side. -/
  unknown? : Option String
  deriving DecidableEq, Repr

/-- A text that no token begins, up to the next place with a token.  A blank is passed without
a look behind it, since a token there would have been the first token of the text. -/
def stretch (v : Vocabulary) : List Char → List Char
  | [] => []
  | c :: cs => if !Text.isBlank c && (v.token? cs).isSome then [c] else c :: v.stretch cs

/-- The stretch that begins a text, without blanks on either side, unless it is blank. -/
def unknown? (v : Vocabulary) (cs : List Char) : Option String :=
  match Text.trim (v.stretch cs) with
  | [] => none
  | d :: ds => some (String.ofList (d :: ds))

/-- Read tokens from a text until it ends or holds an unknown stretch. -/
def scan (v : Vocabulary) (cs : List Char) : Scan :=
  match _h : v.token? cs with
  | none => ⟨[], v.unknown? cs⟩
  | some (t, rest) =>
    let s := v.scan (Text.dropBlanks rest)
    ⟨t :: s.tokens, s.unknown?⟩
termination_by cs.length
decreasing_by
  have := length_lt_of_token? _h
  have := Text.length_dropBlanks_le rest
  omega

/-- The tokens of a text, if it holds no unknown stretch. -/
def tokenize (v : Vocabulary) (text : String) : Except LexicalError (List Token) :=
  let s := v.scan text.toList
  match s.unknown? with
  | none => .ok s.tokens
  | some u => .error (.unknownToken u)

theorem scan_of_token?_eq_none {v : Vocabulary} {cs : List Char} (h : v.token? cs = none) :
  v.scan cs = ⟨[], v.unknown? cs⟩
  := by
  rw [scan]
  split
  · rfl
  · rename_i h'
    simp [h] at h'

theorem scan_of_token?_eq_some {v : Vocabulary} {cs rest : List Char} {t : Token}
    (h : v.token? cs = some (t, rest)) :
  v.scan cs
    = ⟨t :: (v.scan (Text.dropBlanks rest)).tokens, (v.scan (Text.dropBlanks rest)).unknown?⟩
  := by
  rw [scan]
  split
  · rename_i h'
    simp [h] at h'
  · rename_i h'
    rw [h] at h'
    cases h'
    rfl

end Vocabulary

end Sentential

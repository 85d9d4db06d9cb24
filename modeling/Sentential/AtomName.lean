/-!
# Atom names

An atom is named by a letter from `P` to `Z`, which may carry a subscript: an underscore
and one or more decimal digits.  `IsAtomName` decides this for a text, and
`AtomName.leading?` finds the longest name that begins a text.
-/

namespace Sentential

namespace AtomName

/-- The letters that name atoms. -/
def isLetter (c : Char) : Bool := decide ('P' ≤ c) && decide (c ≤ 'Z')

/-- A subscript, or nothing: what may follow the letter of a name. -/
def isSubscript : List Char → Bool
  | [] => true
  | [_] => false
  | u :: d :: ds => u == '_' && (d :: ds).all Char.isDigit

/-- A letter and perhaps a subscript. -/
def isName : List Char → Bool
  | [] => false
  | c :: cs => isLetter c && isSubscript cs

/-- The longest subscript that begins a text, empty if none does. -/
def leadingSubscript : List Char → List Char
  | [] => []
  | c :: cs =>
    if c = '_' then
      match cs.takeWhile Char.isDigit with
      | [] => []
      | d :: ds => '_' :: d :: ds
    else []

/-- The longest name that begins a text, if one does. -/
def leading? : List Char → Option (List Char)
  | [] => none
  | c :: cs => if isLetter c then some (c :: leadingSubscript cs) else none

theorem isName_of_leading? {cs name : List Char} (h : leading? cs = some name) :
  isName name = true
  := by
  rcases cs with _ | ⟨c, cs⟩
  · simp [leading?] at h
  · simp only [leading?] at h
    split at h
    · rename_i hc
      cases h
      rcases cs with _ | ⟨u, cs⟩
      · simp [isName, leadingSubscript, isSubscript, hc]
      · simp only [isName, hc, leadingSubscript, Bool.true_and]
        split
        · rcases hd : cs.takeWhile Char.isDigit with _ | ⟨d, ds⟩
          · rfl
          · have hall : ∀ x ∈ d :: ds, x.isDigit = true := by
              rw [← hd]
              intro x hx
              exact List.all_eq_true.1 (List.all_takeWhile (p := Char.isDigit)) x hx
            simpa [isSubscript] using hall
        · rfl
    · simp at h

/-- What follows the letter of a name is read off the front of the text. -/
theorem leadingSubscript_isPrefix (cs : List Char) :
  leadingSubscript cs <+: cs
  := by
  rcases cs with _ | ⟨c, cs⟩
  · exact List.nil_prefix
  · simp only [leadingSubscript]
    split
    · rename_i hc
      rcases hd : cs.takeWhile Char.isDigit with _ | ⟨d, ds⟩
      · exact List.nil_prefix
      · rw [hc, List.cons_prefix_cons, ← hd]
        exact ⟨rfl, List.takeWhile_prefix _⟩
    · exact List.nil_prefix

/-- A name found at the front of a text is a part of it. -/
theorem isPrefix_of_leading? {cs name : List Char} (h : leading? cs = some name) :
  name <+: cs
  := by
  rcases cs with _ | ⟨c, cs⟩
  · simp [leading?] at h
  · simp only [leading?] at h
    split at h
    · cases h
      exact List.cons_prefix_cons.2 ⟨rfl, leadingSubscript_isPrefix cs⟩
    · simp at h

/-- A name found at the front of a text is not empty. -/
theorem length_pos_of_leading? {cs name : List Char} (h : leading? cs = some name) :
  0 < name.length
  := by
  rcases cs with _ | ⟨c, cs⟩
  · simp [leading?] at h
  · simp only [leading?] at h
    split at h
    · cases h
      simp
    · simp at h

end AtomName

/-- A text that names an atom. -/
def IsAtomName (s : String) : Prop := AtomName.isName s.toList = true

instance (s : String) : Decidable (IsAtomName s) :=
  inferInstanceAs (Decidable (_ = true))

end Sentential

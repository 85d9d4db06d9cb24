/-!
# Blank characters

Blanks separate tokens and carry no meaning.  A character is blank when it has the
`White_Space` property of Unicode; `blankRanges` lists the twenty-five such code points
as ranges.  `dropBlanks` removes the blanks that begin a text and `trim` those on both
sides.  Texts are lists of characters here, and `isBlankText` is the test on strings.
-/

namespace Sentential

namespace Text

/-- The code points with the `White_Space` property, as first and last of each range. -/
def blankRanges : List (Nat × Nat) :=
  [(0x0009, 0x000D), (0x0020, 0x0020), (0x0085, 0x0085), (0x00A0, 0x00A0),
   (0x1680, 0x1680), (0x2000, 0x200A), (0x2028, 0x2029), (0x202F, 0x202F),
   (0x205F, 0x205F), (0x3000, 0x3000)]

/-- A character is blank when its code point lies in one of the `blankRanges`. -/
def isBlank (c : Char) : Bool :=
  blankRanges.any fun r => decide (r.1 ≤ c.toNat) && decide (c.toNat ≤ r.2)

/-- The ranges hold twenty-five code points. -/
example : (blankRanges.map fun r => r.2 + 1 - r.1).sum = 25 := rfl

/-- The ranges stand in increasing order and do not touch. -/
example : (blankRanges.zip blankRanges.tail).all (fun p => decide (p.1.2 + 1 < p.2.1)) = true := rfl

/-- The white space of ASCII is blank. -/
theorem isBlank_of_isWhitespace {c : Char} (h : c.isWhitespace = true) :
  isBlank c = true
  := by
  simp only [Char.isWhitespace, Bool.or_eq_true, decide_eq_true_eq] at h
  rcases h with ((rfl | rfl) | rfl) | rfl <;> decide

/-- From the exclamation mark up to the control character that means a new line, no character is
blank. -/
theorem isBlank_of_mem_range {c : Char} (hlower : 33 ≤ c.toNat) (hupper : c.toNat ≤ 132) :
  isBlank c = false
  := by
  simp [isBlank, blankRanges]
  omega

/-- A text without the blanks that begin it. -/
def dropBlanks (cs : List Char) : List Char := cs.dropWhile isBlank

/-- A text without the blanks that end it. -/
def dropFinalBlanks (cs : List Char) : List Char := (dropBlanks cs.reverse).reverse

/-- A text without the blanks on either side of it. -/
def trim (cs : List Char) : List Char := dropFinalBlanks (dropBlanks cs)

/-- A text that is empty or holds blanks only. -/
def isBlankText (s : String) : Bool := s.toList.all isBlank

theorem length_dropBlanks_le (cs : List Char) :
  (dropBlanks cs).length ≤ cs.length
  := (List.dropWhile_suffix isBlank).sublist.length_le

/-- The empty text is blank, so a text that is not blank holds a character. -/
theorem length_pos_of_isBlankText_eq_false {s : String} (h : isBlankText s = false) :
  0 < s.toList.length
  := by
  rcases hs : s.toList with _ | ⟨c, cs⟩
  · simp [isBlankText, hs] at h
  · simp

end Text

end Sentential

/-!
# Limits

A reader of sentences stops at a nesting depth, and an argument with too many atoms is
refused before its table is begun.  `Limits` holds both bounds; rows of a table are
numbered by 64-bit words, so no limits admit more than `maxEnumerable` atoms.
-/

namespace Sentential

/-- The bounds on reading sentences and on the size of a truth table. -/
structure Limits where
  /-- The number of levels that a sentence may be nested. -/
  maxDepth : Nat
  /-- The number of distinct atoms that an argument may have. -/
  maxAtoms : Nat
  deriving DecidableEq, Repr

namespace Limits

/-- The largest number of atoms whose rows have 64-bit numbers. -/
def maxEnumerable : Nat := 63

/-- The limits used where none are given. -/
def standard : Limits where
  maxDepth := 1024
  maxAtoms := maxEnumerable

/-- Limits for work without a waiting reader. -/
def permissive : Limits where
  maxDepth := 2048
  maxAtoms := maxEnumerable

/-- Limits for interactive work and for texts of unknown origin. -/
def strict : Limits where
  maxDepth := 64
  maxAtoms := 12

instance : Inhabited Limits := ⟨standard⟩

/-- The number of atoms in force: at most `maxEnumerable`, whatever the limits admit. -/
def atomBound (lim : Limits) : Nat := min lim.maxAtoms maxEnumerable

theorem atomBound_le_maxEnumerable (lim : Limits) :
  lim.atomBound ≤ maxEnumerable
  := Nat.min_le_right _ _

end Limits

end Sentential

import Sentential.Sentence.Basic

/-!
# The atoms of a sentence

Sets of names are lists in increasing order of code points, without repetition.
`nameSet` makes one from any list of names, and `Sentence.atoms` is the set of the names
that occur in a sentence.
-/

namespace Sentential

/-- A name put into its place in an increasing list, unless it is there already. -/
def insertName (a : String) : List String → List String
  | [] => [a]
  | b :: bs => if a < b then a :: b :: bs else if a = b then b :: bs else b :: insertName a bs

/-- The names of a list in increasing order, each once. -/
def nameSet (names : List String) : List String := names.foldr insertName []

/-- The names of the atoms of a sentence, in increasing order. -/
def Sentence.atoms (s : Sentence) : List String := nameSet s.leaves

@[simp]
theorem mem_insertName {a b : String} {bs : List String} :
  b ∈ insertName a bs ↔ b = a ∨ b ∈ bs
  := by
  induction bs with
  | nil => simp [insertName]
  | cons c cs ih =>
    simp only [insertName]
    split
    · simp
    · split
      · rename_i h
        subst h
        simp
      · rw [List.mem_cons, ih, List.mem_cons]
        exact or_left_comm

/-- A set of names holds the names that it was made from. -/
@[simp]
theorem mem_nameSet {a : String} {names : List String} :
  a ∈ nameSet names ↔ a ∈ names
  := by
  induction names with
  | nil => simp [nameSet]
  | cons b bs ih => rw [nameSet, List.foldr_cons, mem_insertName, List.mem_cons, ← ih, nameSet]

theorem pairwise_insertName {a : String} {bs : List String} (h : bs.Pairwise (· < ·)) :
  (insertName a bs).Pairwise (· < ·)
  := by
  induction bs with
  | nil => simp [insertName]
  | cons c cs ih =>
    obtain ⟨hc, hcs⟩ := List.pairwise_cons.1 h
    simp only [insertName]
    split
    · rename_i hac
      rw [List.pairwise_cons]
      refine ⟨?_, h⟩
      intro b hb
      rcases List.mem_cons.1 hb with rfl | hb
      · exact hac
      · exact String.lt_trans hac (hc b hb)
    · split
      · exact h
      · rename_i hac hne
        rw [List.pairwise_cons]
        refine ⟨?_, ih hcs⟩
        intro b hb
        rcases mem_insertName.1 hb with rfl | hb
        · have hle : c ≤ b := String.not_lt.1 hac
          rcases Decidable.em (c < b) with hlt | hlt
          · exact hlt
          · exact absurd (String.le_antisymm (String.not_lt.1 hlt) hle) hne
        · exact hc b hb

/-- A set of names is in increasing order, so that none occurs twice. -/
theorem pairwise_nameSet (names : List String) :
  (nameSet names).Pairwise (· < ·)
  := by
  induction names with
  | nil => simp [nameSet]
  | cons a as ih => exact pairwise_insertName ih

theorem Sentence.mem_atoms {a : String} {s : Sentence} :
  a ∈ s.atoms ↔ a ∈ s.leaves
  := mem_nameSet

end Sentential

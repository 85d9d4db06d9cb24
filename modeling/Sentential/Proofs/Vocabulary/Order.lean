import Sentential.Proofs.Vocabulary.Definitions
import Mathlib.Data.List.Sort

/-!
# The order of definitions

Vocabularies with the same entries split every text alike, in whatever order they list them, since
their spellings are tried in one order only.  Definitions that list the same entries in
different orders therefore make vocabularies that cannot be told apart by the tokens or the errors
of a text, if they make vocabularies at all.
-/

namespace Sentential

namespace Vocabulary

variable {v w : Vocabulary}

/-! ### Vocabularies with the same entries -/

section SameEntries

variable (h : v.entries.Perm w.entries)
include h

/-- Spellings can be listed in one order only. -/
theorem longestFirst_eq_of_perm :
  v.longestFirst = w.longestFirst
  := by
  apply List.Perm.eq_of_pairwise _ v.pairwise_longestFirst w.pairwise_longestFirst
  · apply (List.mergeSort_perm _ _).trans
    apply (h.map _).trans (List.mergeSort_perm _ _).symm
  · intro s t _ _
    apply listedBefore_antisymm

theorem kind?_congr (s : String) :
  v.kind? s = w.kind? s
  := by
  ext k
  rw [kind?_eq_some_iff, kind?_eq_some_iff, h.mem_iff]

/-- The same lexeme is found, since the spellings are tried in the same order. -/
theorem lexeme?_congr (cs : List Char) :
  v.lexeme? cs = w.lexeme? cs
  := by
  simp only [lexeme?, leading?, leadingSpelling?, longestFirst_eq_of_perm h, classify?,
    kind?_congr h]

theorem token?_congr (cs : List Char) :
  v.token? cs = w.token? cs
  := by
  induction cs with
  | nil => rfl
  | cons c cs ih => simp only [token?, ih, lexeme?_congr h]

theorem stretch_congr (cs : List Char) :
  v.stretch cs = w.stretch cs
  := by
  induction cs with
  | nil => rfl
  | cons c cs ih => simp only [stretch, ih, token?_congr h]

/-- A scan reads the same tokens and ends with the same unknown stretch. -/
theorem scan_congr (cs : List Char) :
  v.scan cs = w.scan cs
  := by
  induction hn : cs.length using Nat.strongRecOn generalizing cs with
  | ind n ih =>
      subst hn
      have htoken := token?_congr h cs
      cases hw : w.token? cs with
      | none =>
          rw [hw] at htoken
          rw [scan_of_token?_eq_none hw, scan_of_token?_eq_none htoken, unknown?, unknown?,
            stretch_congr h]
      | some p =>
          obtain ⟨t, rest⟩ := p
          rw [hw] at htoken
          have hlt := Nat.lt_of_le_of_lt (Text.length_dropBlanks_le rest) (length_lt_of_token? hw)
          rw [scan_of_token?_eq_some hw, scan_of_token?_eq_some htoken, ih _ hlt _ rfl]

theorem tokenize_congr (text : String) :
  v.tokenize text = w.tokenize text
  := by
  simp only [tokenize, scan_congr h]

end SameEntries

/-! ### Definitions in any order -/

/-- Definitions make a vocabulary exactly when they give no spelling for atoms, no blank one and
none twice.  The vocabulary has the spellings that they list, with their kinds; an error is that of
the first spelling with a fault.  Definitions that list the same spellings for the same kinds in
any order make vocabularies that split all texts alike, or else neither makes one. -/
theorem ofDefinitions_determined_by_listed (defs : List (Token.Kind × List String)) :
  ((∃ v, ofDefinitions defs = .ok v)
      ↔ (∀ k ss, (k, ss) ∈ defs → ∀ s ∈ ss, k ≠ .atom ∧ ¬ Blank s.toList)
        ∧ (defs.flatMap (·.2)).Nodup)
    ∧ (∀ v, ofDefinitions defs = .ok v →
      (∀ s k, v.kind? s = some k ↔ ∃ ss, (k, ss) ∈ defs ∧ s ∈ ss)
        ∧ v.size = (defs.flatMap (·.2)).length)
    ∧ (∀ err, ofDefinitions defs = .error err
      ↔ ∃ before e after, entriesOf defs = before ++ e :: after ∧ Admissible before
        ∧ Fault before e err)
    ∧ ∀ defs', (entriesOf defs).Perm (entriesOf defs') →
      ((∃ v, ofDefinitions defs = .ok v) ↔ ∃ w, ofDefinitions defs' = .ok w)
        ∧ ∀ v w, ofDefinitions defs = .ok v → ofDefinitions defs' = .ok w →
          v.longestFirst = w.longestFirst ∧ ∀ text, v.tokenize text = w.tokenize text
  := by
  refine ⟨?_, ?_, ?_, ?_⟩
  · rw [exists_ofDefinitions_eq_ok_iff, admissible_entriesOf_iff]
  · intro v hv
    rw [ofDefinitions_eq_ok_iff] at hv
    constructor
    · intro s k
      rw [kind?_eq_some_iff, hv, mem_entriesOf_iff]
    · rw [size, hv, ← map_spelling_entriesOf, List.length_map]
  · intro err
    apply ofDefinitions_eq_error_iff
  · intro defs' hperm
    constructor
    · rw [exists_ofDefinitions_eq_ok_iff, exists_ofDefinitions_eq_ok_iff]
      exact ⟨fun h => h.of_perm hperm, fun h => h.of_perm hperm.symm⟩
    · intro v w hv hw
      rw [← ofDefinitions_eq_ok_iff.mp hv, ← ofDefinitions_eq_ok_iff.mp hw] at hperm
      use longestFirst_eq_of_perm hperm, tokenize_congr hperm

/-- Of several faults the first counts: `&` is given for disjunctions when it has been given for
conjunctions, before a spelling is given for atoms. -/
example :
  ofDefinitions [(.connective .conjunction, ["&"]), (.connective .disjunction, ["|", "&", " "]),
      (.atom, ["A"])]
    = .error (.duplicateSpelling "&" (.connective .conjunction) (.connective .disjunction))
  := rfl

/-- The definitions of `words`. -/
def wordDefinitions : List (Token.Kind × List String) :=
  [(.negation, ["not"]), (.connective .conjunction, ["and"]),
    (.connective .implication, ["and then"])]

theorem words_determined_by_listed :
  ofDefinitions wordDefinitions = .ok words
    ∧ words.kind? "and then" = some (.connective .implication)
    ∧ words.size = 3
    ∧ (entriesOf wordDefinitions).Perm (entriesOf wordDefinitions.reverse)
    ∧ ∃ w, ofDefinitions wordDefinitions.reverse = .ok w ∧ words.longestFirst = w.longestFirst
      ∧ ∀ text, words.tokenize text = w.tokenize text
  := by
  have hwords : ofDefinitions wordDefinitions = .ok words := rfl
  have hperm : (entriesOf wordDefinitions).Perm (entriesOf wordDefinitions.reverse) := by decide
  obtain ⟨-, hlisted, -, horder⟩ := ofDefinitions_determined_by_listed wordDefinitions
  obtain ⟨hkind, hsize⟩ := hlisted words hwords
  obtain ⟨hiff, hsame⟩ := horder _ hperm
  obtain ⟨w, hw⟩ := hiff.mp ⟨words, hwords⟩
  refine ⟨hwords, ?_, hsize, hperm, w, hw, hsame words w hwords hw⟩
  rw [hkind]
  use ["and then"]
  decide

end Vocabulary

end Sentential

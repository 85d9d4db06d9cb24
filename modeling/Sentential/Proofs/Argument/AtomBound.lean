import Sentential.Proofs.Argument.Entailment
import Mathlib.Data.Finset.Card

/-!
# The bound on atoms

Formulas make an argument unless there are more distinct atoms among them than the limits allow,
and this is the only way in which they fail to make one: the columns of an argument are all the
atoms of its sentences, so that every sentence has a circuit.  No limits allow for more atoms than
63, so that the number of rows is computed by shifting a bit of a word of 64 bits.
-/

namespace Sentential

/-! ### Circuits and words -/

/-- A sentence has a circuit over columns that are named for all of its atoms. -/
theorem Circuit.exists_compile_eq_ok {s : Sentence} {names : List String}
    (h : ∀ a ∈ s.leaves, a ∈ names) :
  ∃ c, compile s names = .ok c
  := by
  have hvalue : ∃ b, s.evaluate (rowValuation names 0) = .ok b := by
    rw [Sentence.exists_evaluate_eq_ok_iff]
    intro a ha
    rw [rowValuation_eq_rowTruth 0 (h a ha)]
    rfl
  obtain ⟨b, hb⟩ := hvalue
  rw [evaluate_eq_map_compile, map_eq_ok_iff] at hb
  obtain ⟨c, hc, -⟩ := hb
  use c

/-- A bit that is shifted inside a word is a power of two. -/
theorem toNat_one_shiftLeft {n : Nat} (h : n < 64) :
  ((1 : UInt64) <<< UInt64.ofNat n).toNat = 2 ^ n
  := by
  have hn : (UInt64.ofNat n).toNat = n := UInt64.toNat_ofNat_of_lt' (Nat.lt_trans h (by decide))
  have hpow : 2 ^ n < 2 ^ 64 := Nat.pow_lt_pow_right (by decide) h
  rw [UInt64.toNat_shiftLeft, hn, Nat.mod_eq_of_lt h, UInt64.toNat_one, Nat.one_shiftLeft,
    Nat.mod_eq_of_lt hpow]

namespace Argument

variable {lim : Limits} {ps : List Formula} {c : Formula} {a : Argument}

/-! ### The number of atoms -/

/-- The number of distinct atoms of some formulas. -/
def atomCount (fs : List Formula) : Nat := (fs.flatMap fun f => f.tree.leaves).toFinset.card

theorem length_atomsOf (fs : List Formula) :
  (atomsOf fs).length = atomCount fs
  := by
  have hnodup : (atomsOf fs).Nodup := (pairwise_nameSet _).imp String.ne_of_lt
  rw [atomCount, ← List.toFinset_card_of_nodup hnodup]
  congr 1
  ext name
  rw [List.mem_toFinset, List.mem_toFinset, atomsOf, mem_nameSet]

/-- Formulas have an atom if there are any. -/
theorem atomCount_pos {fs : List Formula} {f : Formula} (hf : f ∈ fs) :
  0 < atomCount fs
  := by
  obtain ⟨name, hname⟩ := List.exists_mem_of_ne_nil _ f.tree.leaves_ne_nil
  apply Finset.card_pos.mpr
  use name
  rw [List.mem_toFinset, List.mem_flatMap]
  use f

theorem Made.length_atoms (h : Made lim ps c a) :
  a.atoms.length = atomCount (ps ++ [c])
  := by
  rw [h.atoms, length_atomsOf]

/-! ### Arguments that are made and refused -/

theorem ofFormulas_of_lt (h : lim.atomBound < atomCount (ps ++ [c])) :
  ofFormulas lim ps c = .error (.tooManyAtoms (atomCount (ps ++ [c])) lim.atomBound)
  := by
  rw [← length_atomsOf] at h ⊢
  apply if_pos h

/-- All sentences of an argument have circuits over its atoms, so that nothing but the number of
atoms is in the way of making it. -/
theorem exists_ofFormulas_eq_ok (h : atomCount (ps ++ [c]) ≤ lim.atomBound) :
  ∃ a, ofFormulas lim ps c = .ok a
  := by
  have hcircuit : ∀ f ∈ ps ++ [c], ∃ k, Circuit.compile f.tree (atomsOf (ps ++ [c])) = .ok k := by
    intro f hf
    apply Circuit.exists_compile_eq_ok
    intro name hname
    rw [atomsOf, mem_nameSet, List.mem_flatMap]
    use f
  obtain ⟨premiseCircuits, hpremises⟩ :=
    exists_mapM_eq_ok fun f hf => hcircuit f (List.mem_append_left [c] hf)
  obtain ⟨conclusionCircuit, hconclusion⟩ := hcircuit c (by simp)
  rw [← length_atomsOf] at h
  simp only [ofFormulas, compileSorted_atomsOf, if_neg (Nat.not_lt.mpr h), hpremises, hconclusion]
  exact ⟨_, rfl⟩

/-- Formulas make an argument exactly when they have no more distinct atoms than the limits allow,
and never more than 63; otherwise the error tells both numbers.  An argument has at least one atom,
and the word that counts its rows does not overflow. -/
theorem ofFormulas_ok_iff_atomCount_le (lim : Limits) (ps : List Formula) (c : Formula) :
  ((∃ a, ofFormulas lim ps c = .ok a) ↔ atomCount (ps ++ [c]) ≤ min lim.maxAtoms 63)
    ∧ (∀ e, ofFormulas lim ps c = .error e ↔ min lim.maxAtoms 63 < atomCount (ps ++ [c])
      ∧ e = .tooManyAtoms (atomCount (ps ++ [c])) (min lim.maxAtoms 63))
    ∧ ∀ a, ofFormulas lim ps c = .ok a →
      1 ≤ atomCount (ps ++ [c]) ∧ atomCount (ps ++ [c]) ≤ 63
        ∧ a.rowCount = 2 ^ atomCount (ps ++ [c])
        ∧ ((1 : UInt64) <<< UInt64.ofNat a.atoms.length).toNat = a.rowCount
  := by
  have hbound : lim.atomBound = min lim.maxAtoms 63 := rfl
  rw [← hbound]
  refine ⟨?_, ?_, ?_⟩
  · constructor
    · rintro ⟨a, ha⟩
      have hmade := made_of_ofFormulas ha
      rw [← hmade.length_atoms]
      apply hmade.length_atoms_le
    · apply exists_ofFormulas_eq_ok
  · intro e
    rcases Nat.lt_or_ge lim.atomBound (atomCount (ps ++ [c])) with hlt | hle
    · rw [ofFormulas_of_lt hlt, Except.error.injEq, eq_comm]
      simp only [hlt, true_and]
    · obtain ⟨a, ha⟩ := exists_ofFormulas_eq_ok hle
      simp only [ha, reduceCtorEq, Nat.not_lt.mpr hle, false_and]
  · intro a ha
    have hmade := made_of_ofFormulas ha
    have hle := Nat.le_trans hmade.length_atoms_le lim.atomBound_le_maxEnumerable
    rw [← hmade.length_atoms]
    refine ⟨?_, hle, rfl, toNat_one_shiftLeft (Nat.lt_succ_of_le hle)⟩
    rw [hmade.length_atoms]
    apply atomCount_pos (List.mem_append_right ps (List.mem_singleton.mpr rfl))

/-- Modus ponens has two atoms and thus four rows; it is made under a limit of eight atoms, and
refused under a limit of one. -/
theorem modusPonens_ok_iff_atomCount_le :
  atomCount (modusPonens.premises ++ [modusPonens.conclusion]) = 2
    ∧ (∃ a, ofFormulas ⟨100, 8⟩ modusPonens.premises modusPonens.conclusion = .ok a)
    ∧ ofFormulas ⟨100, 1⟩ modusPonens.premises modusPonens.conclusion = .error (.tooManyAtoms 2 1)
    ∧ ofFormulas ⟨100, 8⟩ modusPonens.premises modusPonens.conclusion = .ok modusPonens
    ∧ modusPonens.rowCount = 2 ^ 2
    ∧ ((1 : UInt64) <<< UInt64.ofNat modusPonens.atoms.length).toNat = modusPonens.rowCount
  := by
  have hcount : atomCount (modusPonens.premises ++ [modusPonens.conclusion]) = 2 := by decide
  have hmade : ofFormulas ⟨100, 8⟩ modusPonens.premises modusPonens.conclusion
      = .ok modusPonens := by
    cbv
  obtain ⟨hok, -, hrows⟩ :=
    ofFormulas_ok_iff_atomCount_le ⟨100, 8⟩ modusPonens.premises modusPonens.conclusion
  obtain ⟨-, herror, -⟩ :=
    ofFormulas_ok_iff_atomCount_le ⟨100, 1⟩ modusPonens.premises modusPonens.conclusion
  obtain ⟨-, -, hpow, hshift⟩ := hrows modusPonens hmade
  rw [hcount] at hok herror hpow
  refine ⟨hcount, hok.mpr (by decide), (herror _).mpr ⟨by decide, rfl⟩, hmade, hpow, hshift⟩

end Argument

end Sentential

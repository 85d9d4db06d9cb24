import Sentential.Proofs.Argument.Row
import Sentential.Proofs.Circuit.Compile

/-!
# The rows of a truth table

The table of an argument has a row for every assignment of truth values to the atoms of the
argument, in lexicographic order: the first atom counts most, and false comes before true.
`rowBits n i` are the values of the `n` atoms in row `i`; that they increase with `i` is what
the order and the distinctness of the rows rest on.
-/

namespace Sentential

/-! ### The bits of a row -/

/-- The values of the columns in a row, from the first column to the last. -/
def rowBits (n row : Nat) : List Bool := (List.range n).map (columnValue row n)

/-- The first of the columns has the most significant bit. -/
theorem rowBits_succ (n row : Nat) :
  rowBits (n + 1) row = row.testBit n :: rowBits n row
  := by
  rw [rowBits, List.range_succ_eq_map, List.map_cons, List.map_map, rowBits]
  congr 1
  apply List.map_congr_left
  intro j _
  simp only [Function.comp, columnValue]
  congr 1
  omega

/-- Of two rows, the one with the larger number has the larger bits. -/
theorem rowBits_lt_rowBits {n i k : Nat} (h : i % 2 ^ n < k % 2 ^ n) :
  rowBits n i < rowBits n k
  := by
  induction n with
  | zero => simp [Nat.mod_one] at h
  | succ n ih =>
      rw [rowBits_succ, rowBits_succ, List.cons_lt_cons_iff]
      rw [Nat.mod_pow_succ, Nat.mod_pow_succ, ← Nat.toNat_testBit, ← Nat.toNat_testBit] at h
      have hi : i % 2 ^ n < 2 ^ n := Nat.mod_lt i (Nat.two_pow_pos n)
      have hk : k % 2 ^ n < 2 ^ n := Nat.mod_lt k (Nat.two_pow_pos n)
      -- Bit `n` decides unless it is the same in both rows.
      cases hbit : i.testBit n with
      | false =>
          cases hbit' : k.testBit n with
          | false =>
              simp only [hbit, hbit', Bool.toNat_false, Nat.mul_zero, Nat.add_zero] at h
              exact .inr ⟨rfl, ih h⟩
          | true => exact .inl rfl
      | true =>
          cases hbit' : k.testBit n with
          | false =>
              simp only [hbit, hbit', Bool.toNat_false, Bool.toNat_true] at h
              omega
          | true =>
              simp only [hbit, hbit', Bool.toNat_true] at h
              exact .inr ⟨rfl, ih (by omega)⟩

theorem rowBits_lt_rowBits_of_lt {n i k : Nat} (hlt : i < k) (hk : k < 2 ^ n) :
  rowBits n i < rowBits n k
  := by
  apply rowBits_lt_rowBits
  rw [Nat.mod_eq_of_lt (Nat.lt_trans hlt hk), Nat.mod_eq_of_lt hk]
  apply hlt

/-- Rows with the same bits are the same. -/
theorem rowBits_inj {n i k : Nat} (hi : i < 2 ^ n) (hk : k < 2 ^ n) :
  rowBits n i = rowBits n k ↔ i = k
  := by
  constructor
  · intro heq
    rcases Nat.lt_trichotomy i k with hlt | hik | hlt
    · cases List.lt_irrefl _ (heq ▸ rowBits_lt_rowBits_of_lt hlt hk)
    · apply hik
    · cases List.lt_irrefl _ (heq ▸ rowBits_lt_rowBits_of_lt hlt hi)
  · rintro rfl
    rfl

/-! ### The assignment of a row -/

/-- Looking up a name in a list of pairs, one for every name of a list. -/
theorem lookup_mapIdx {α : Type} (names : List String) (f : Nat → α) (name : String) :
  (names.mapIdx fun j a => (a, f j)).lookup name = (names.idxOf? name).map f
  := by
  induction names generalizing f with
  | nil => rfl
  | cons a as ih =>
      rw [List.mapIdx_cons, List.lookup_cons, List.idxOf?_cons, ih]
      cases h : name == a with
      | true => simp [beq_iff_eq.mp h]
      | false =>
          have hne : (a == name) = false := by
            rw [beq_eq_false_iff_ne] at h ⊢
            apply h.symm
          simp [hne, Function.comp_def]

namespace Argument

variable {lim : Limits} {ps : List Formula} {c : Formula} {a : Argument}

/-- The assignment of a row is the valuation that the row describes. -/
theorem ofFirst_assignment (a : Argument) (i : Nat) :
  Valuation.ofFirst (a.assignment i) = rowValuation a.atoms i
  := by
  funext name
  apply lookup_mapIdx

theorem map_fst_assignment (a : Argument) (i : Nat) :
  (a.assignment i).map (·.1) = a.atoms
  := by
  apply List.ext_getElem
  · simp [assignment]
  · intro j _ _
    simp [assignment]

theorem map_snd_assignment (a : Argument) (i : Nat) :
  (a.assignment i).map (·.2) = rowBits a.atoms.length i
  := by
  apply List.ext_getElem
  · simp [assignment, rowBits]
  · intro j _ _
    simp [assignment, rowBits]

/-- What a row shows that has number `i` in the table of some premises and a conclusion. -/
structure Shows (ps : List Formula) (c : Formula) (atoms : List String) (i : Nat) (r : Row) :
    Prop where
  index : r.index = i
  names : r.assignment.map (·.1) = atoms
  value : ∀ (j : Nat) (h : j < atoms.length),
    r.value? atoms[j] = some (i.testBit (atoms.length - 1 - j))
  premises : List.Forall₂ (fun f b => f.tree.evaluate (Valuation.ofFirst r.assignment) = .ok b) ps
    r.premises
  conclusion : c.tree.evaluate (Valuation.ofFirst r.assignment) = .ok r.conclusion

theorem Made.pairwise_atoms (h : Made lim ps c a) :
  a.atoms.Pairwise (· < ·)
  := by
  rw [h.atoms]
  apply pairwise_nameSet

theorem Made.nodup_atoms (h : Made lim ps c a) :
  a.atoms.Nodup
  := by
  apply h.pairwise_atoms.imp
  intro b d hlt heq
  apply String.lt_irrefl d (heq ▸ hlt)

theorem value?_row (a : Argument) (i : Nat) (name : String) :
  (a.row i).value? name = rowValuation a.atoms i name
  := by
  rw [← ofFirst_assignment]
  rfl

theorem Made.shows_row (h : Made lim ps c a) (i : Nat) :
  Shows ps c a.atoms i (a.row i)
  where
  index := rfl
  names := map_fst_assignment a i
  value j hj := by
    rw [value?_row]
    apply (Valuation.ofRow_rowValuation h.nodup_atoms i).column j hj
  premises := by
    simp only [row, ofFirst_assignment, List.forall₂_map_right_iff]
    apply h.premiseCircuits.imp
    intro f k hk
    apply Circuit.evaluate_of_compile hk i
  conclusion := by
    simp only [row, ofFirst_assignment]
    apply Circuit.evaluate_of_compile h.conclusionCircuit i

/-! ### The table -/

theorem length_table (a : Argument) :
  a.table.length = 2 ^ a.atoms.length
  := by
  simp [table_eq_map_row, rowCount]

theorem getElem_table (a : Argument) {i : Nat} (h : i < a.table.length) :
  a.table[i] = a.row i
  := by
  simp [table_eq_map_row]

theorem mem_table_iff {r : Row} :
  r ∈ a.table ↔ ∃ i < 2 ^ a.atoms.length, a.row i = r
  := by
  simp [table_eq_map_row, rowCount]

/-- The rows of a table stand in lexicographic order. -/
theorem pairwise_table (a : Argument) :
  a.table.Pairwise fun r r' => r.assignment.map (·.2) < r'.assignment.map (·.2)
  := by
  rw [table_eq_map_row, List.pairwise_map]
  apply List.pairwise_lt_range.imp_of_mem
  intro i k _ hk hlt
  simp only [row, map_snd_assignment]
  apply rowBits_lt_rowBits_of_lt hlt (List.mem_range.mp hk)

theorem nodup_map_assignment (a : Argument) :
  (a.table.map (·.assignment)).Nodup
  := by
  rw [List.nodup_iff_pairwise_ne, List.pairwise_map]
  apply (pairwise_table a).imp
  intro r r' hlt heq
  rw [heq] at hlt
  apply List.lt_irrefl _ hlt

/-- Rows that give the atoms the same values are the same. -/
theorem Made.eq_of_value?_eq (h : Made lim ps c a) {i k : Nat} (hi : i < 2 ^ a.atoms.length)
    (hk : k < 2 ^ a.atoms.length)
    (hvalue : ∀ name ∈ a.atoms, (a.row i).value? name = (a.row k).value? name) :
  i = k
  := by
  rw [← rowBits_inj hi hk]
  apply List.map_congr_left
  intro j hj
  have hlt := List.mem_range.mp hj
  have hname := hvalue a.atoms[j] (List.getElem_mem hlt)
  rw [(h.shows_row i).value j hlt, (h.shows_row k).value j hlt] at hname
  apply Option.some.inj hname

/-- Every assignment of truth values to the atoms is that of one row. -/
theorem Made.existsUnique_row (h : Made lim ps c a) (v : String → Bool) :
  ∃! r, r ∈ a.table ∧ ∀ name ∈ a.atoms, r.value? name = some (v name)
  := by
  have hvalue : ∀ name ∈ a.atoms, (a.row (rowNumber a.atoms v)).value? name = some (v name) := by
    intro name hname
    rw [value?_row]
    apply rowValuation_rowNumber v hname
  have hrow := rowNumber_lt a.atoms v
  refine ⟨a.row (rowNumber a.atoms v), ⟨mem_table_iff.mpr ⟨_, hrow, rfl⟩, hvalue⟩, ?_⟩
  rintro r ⟨hr, hvalue'⟩
  obtain ⟨k, hk, rfl⟩ := mem_table_iff.mp hr
  rw [h.eq_of_value?_eq hk hrow]
  intro name hname
  rw [hvalue' name hname, hvalue name hname]

/-- The table of an argument shows all assignments of truth values to its atoms, which are those
of its sentences, once each and in lexicographic order, with the values that they give to the
premises and the conclusion. -/
theorem table_enumerates_assignments (h : ofFormulas lim ps c = .ok a) :
  (a.atoms.Pairwise (· < ·) ∧ ∀ name, name ∈ a.atoms ↔ ∃ f ∈ ps ++ [c], name ∈ f.tree.leaves)
    ∧ a.table.length = 2 ^ a.atoms.length
    ∧ (∀ i (hi : i < a.table.length), Shows ps c a.atoms i a.table[i])
    ∧ a.table.Pairwise (fun r r' => r.assignment.map (·.2) < r'.assignment.map (·.2))
    ∧ (a.table.map (·.assignment)).Nodup
    ∧ ∀ v : String → Bool,
      ∃! r, r ∈ a.table ∧ ∀ name ∈ a.atoms, r.value? name = some (v name)
  := by
  have hmade := made_of_ofFormulas h
  refine ⟨⟨hmade.pairwise_atoms, fun _ => hmade.mem_atoms_iff⟩, length_table a, ?_,
    pairwise_table a, nodup_map_assignment a, hmade.existsUnique_row⟩
  intro i hi
  rw [getElem_table]
  apply hmade.shows_row

/-- An argument whose sentences name their atoms out of order. -/
def weakening : Argument where
  premises := [⟨"Q", .atom "Q", .strict⟩]
  conclusion := ⟨"(P->Q)", .binary .implication (.atom "P") (.atom "Q"), .strict⟩
  atoms := ["P", "Q"]
  premiseCircuits := [⟨2, [], .column 1⟩]
  conclusionCircuit := ⟨2, [.binary .implication (.column 0) (.column 1)], .gate 0⟩

theorem weakening_table_enumerates :
  ofFormulas .standard weakening.premises weakening.conclusion = .ok weakening
    ∧ weakening.table.length = 4
    ∧ ∃! r, r ∈ weakening.table
      ∧ ∀ name ∈ weakening.atoms, r.value? name = some (decide (name = "P"))
  := by
  have hmade : ofFormulas .standard weakening.premises weakening.conclusion = .ok weakening := by
    cbv
  obtain ⟨-, hlength, -, -, -, hunique⟩ := table_enumerates_assignments hmade
  use hmade, hlength
  apply hunique

end Argument

end Sentential

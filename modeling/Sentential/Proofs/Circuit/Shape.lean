import Sentential.Proofs.Circuit.Value
import Mathlib.Data.List.Count
import Mathlib.Tactic.Use

/-!
# The shape of a circuit

The gates of a circuit are the signs of the sentence that it was compiled from: one for every
sentence in it that is no atom, those of the left part before those of the right part and both
before their own.  A gate reads columns and earlier gates only, every gate is read once, by a later
gate or as the output, and reading back from the output gives the sentence again.  So a row can be
evaluated with a check at every step, and no check ever fails.
-/

namespace Sentential

/-- The sentences in a sentence that are no atoms, the parts of each before itself and the left part
first. -/
def Sentence.compounds : Sentence → List Sentence
  | atom _ => []
  | negation s => s.compounds ++ [negation s]
  | binary c l r => l.compounds ++ r.compounds ++ [binary c l r]

/-- The sources that a gate reads. -/
def Gate.operands : Gate → List Source
  | negation s => [s]
  | binary _ l r => [l, r]

theorem Source.Within.mono {n k m : Nat} {o : Source} (h : o.Within n k) (hle : k ≤ m) :
  o.Within n m
  := by
  cases o with
  | column j => apply h
  | gate i => apply Nat.lt_of_lt_of_le h hle

/-- Gates that stand behind `k` others and read only columns, of which there are `n`, and gates
before them. -/
def Backward (n k : Nat) (gs : List Gate) : Prop :=
  ∀ (i : Nat) (g : Gate), gs[i]? = some g → ∀ o ∈ g.operands, o.Within n (k + i)

/-! ### Checked evaluation -/

/-- The value of a column in a row that is a word of `w` bits, unless there is no such column or
the word has no such bit. -/
def columnValue? (w row n j : Nat) : Option Bool :=
  if j < n ∧ n - 1 - j < w then some (columnValue row n j) else none

/-- The value of a source, unless it is that of a gate without a value so far. -/
def Source.value? (w n row : Nat) (vs : Array Bool) : Source → Option Bool
  | column j => columnValue? w row n j
  | gate i => vs[i]?

/-- The value of a gate, unless an operand has none. -/
def Gate.value? (w n row : Nat) (vs : Array Bool) : Gate → Option Bool
  | negation s => (s.value? w n row vs).map (!·)
  | binary c l r => (l.value? w n row vs).bind fun a => (r.value? w n row vs).map (c.eval a)

/-- The values of gates behind the values `vs`, unless one of them has none. -/
def runGates? (w n row : Nat) (vs : Array Bool) (gs : List Gate) : Option (Array Bool) :=
  gs.foldlM (fun vs g => (g.value? w n row vs).map vs.push) vs

/-- The value of a circuit in a row that is a word of `w` bits, unless a source has none when it is
read. -/
def Circuit.evalRow? (c : Circuit) (w row : Nat) : Option Bool :=
  (runGates? w c.columns row #[] c.gates).bind fun vs => c.output.value? w c.columns row vs

section Checked

variable {n w : Nat} {vs : Array Bool}

theorem Source.value?_eq_value {o : Source} (hw : n ≤ w) (h : o.Within n vs.size) (row : Nat) :
  o.value? w n row vs = some (o.value n row vs)
  := by
  cases o with
  | column j =>
      rw [Within] at h
      have hbit : n - 1 - j < w := by omega
      apply if_pos ⟨h, hbit⟩
  | gate i =>
      rw [Within] at h
      simp [value?, value, h]

theorem Gate.value?_eq_value {g : Gate} (hw : n ≤ w) (h : ∀ o ∈ g.operands, o.Within n vs.size)
    (row : Nat) :
  g.value? w n row vs = some (g.value n row vs)
  := by
  cases g with
  | negation o =>
      rw [value?, Source.value?_eq_value hw (h o (by simp [operands]))]
      rfl
  | binary c o o' =>
      rw [value?, Source.value?_eq_value hw (h o (by simp [operands])),
        Source.value?_eq_value hw (h o' (by simp [operands]))]
      rfl

/-- Every gate finds the values that it reads. -/
theorem runGates?_eq_runGates {gs : List Gate} (hw : n ≤ w) (h : Backward n vs.size gs)
    (row : Nat) :
  runGates? w n row vs gs = some (runGates n row vs gs)
  := by
  induction gs generalizing vs with
  | nil => rfl
  | cons g gs ih =>
      have hg := Gate.value?_eq_value hw (h 0 g rfl) row
      have hgs : runGates? w n row (vs.push (g.value n row vs)) gs
          = some (runGates n row (vs.push (g.value n row vs)) gs) := by
        apply ih
        intro i g' hi
        rw [Array.size_push, Nat.add_assoc, Nat.add_comm 1 i]
        apply h (i + 1) g' hi
      rw [runGates?, List.foldlM_cons, hg]
      apply hgs

end Checked

namespace Circuit

/-- The sentence that a source stands for: a column for its name, and a gate for the sign that it is
put to what its operands stand for. -/
inductive Unfolds (names : List String) (gates : List Gate) : Source → Sentence → Prop
  | column {j : Nat} {a : String} (h : names[j]? = some a) :
      Unfolds names gates (.column j) (.atom a)
  | negation {i : Nat} {o : Source} {s : Sentence} (hi : gates[i]? = some (.negation o))
      (h : Unfolds names gates o s) : Unfolds names gates (.gate i) (.negation s)
  | binary {i : Nat} {c : Connective} {o o' : Source} {l r : Sentence}
      (hi : gates[i]? = some (.binary c o o')) (hl : Unfolds names gates o l)
      (hr : Unfolds names gates o' r) : Unfolds names gates (.gate i) (.binary c l r)

variable {α β : Type} {names : List String} {gates gs : List Gate} {o : Source} {s t : Sentence}
  {c : Circuit} {i k : Nat}

/-- The gates of a circuit stand behind no others. -/
theorem lowered_of_compile (h : compile s names = .ok c) :
  c.columns = names.length ∧ Lowered names 0 s c.gates c.output
  := by
  obtain ⟨⟨gs, o⟩, hlower, hreturn⟩ := bind_eq_ok_iff.mp h
  cases hreturn
  use rfl
  apply lowered_of_lower hlower

/-! ### Reading back -/

/-- A source stands for one sentence only. -/
theorem Unfolds.eq (h : Unfolds names gates o s) (h' : Unfolds names gates o t) :
  s = t
  := by
  induction h generalizing t with
  | column hj =>
      cases h' with
      | column hj' =>
          cases hj.symm.trans hj'
          rfl
  | negation hi _ ih =>
      cases h' with
      | negation hi' h' =>
          cases hi.symm.trans hi'
          rw [ih h']
      | binary hi' _ _ => cases hi.symm.trans hi'
  | binary hi _ _ ihl ihr =>
      cases h' with
      | negation hi' _ => cases hi.symm.trans hi'
      | binary hi' hl' hr' =>
          cases hi.symm.trans hi'
          rw [ihl hl', ihr hr']

theorem Unfolds.iff_eq (h : Unfolds names gates o s) (t : Sentence) :
  Unfolds names gates o t ↔ t = s
  := by
  constructor
  · intro h'
    apply h'.eq h
  · rintro rfl
    apply h

/-! ### Gates behind others -/

theorem getElem?_concat_eq_some_iff {xs : List α} {x y : α} :
  (xs ++ [x])[i]? = some y ↔ xs[i]? = some y ∨ i = xs.length ∧ x = y
  := by
  rw [List.getElem?_append, List.getElem?_singleton]
  split
  · simp only [Nat.ne_of_lt ‹_›, false_and, or_false]
  · rename_i hi
    rw [List.getElem?_eq_none (Nat.not_lt.mp hi), Option.ite_none_right_eq_some, Option.some.injEq]
    have hlast : i - xs.length = 0 ↔ i = xs.length := by omega
    simp [hlast]

theorem getElem?_append_eq_some_iff {xs ys : List α} {y : α} :
  (xs ++ ys)[i]? = some y ↔ xs[i]? = some y ∨ ∃ j, i = xs.length + j ∧ ys[j]? = some y
  := by
  rw [List.getElem?_append]
  split
  · rename_i hi
    constructor
    · exact .inl
    · rintro (h | ⟨j, rfl, -⟩)
      · exact h
      · omega
  · rename_i hi
    rw [List.getElem?_eq_none (Nat.not_lt.mp hi)]
    constructor
    · intro h
      exact .inr ⟨i - xs.length, by omega, h⟩
    · rintro (⟨⟨⟩⟩ | ⟨j, rfl, h⟩)
      rw [Nat.add_sub_cancel_left, h]

/-- Gates that stand behind `k` others among all the gates. -/
def StandAt (k : Nat) (gs gates : List Gate) : Prop :=
  ∀ i g, gs[i]? = some g → gates[k + i]? = some g

theorem StandAt.left {hs : List Gate} (h : StandAt k (gs ++ hs) gates) :
  StandAt k gs gates
  := by
  intro i g hi
  apply h
  apply getElem?_append_eq_some_iff.mpr (.inl hi)

theorem StandAt.right {hs : List Gate} (h : StandAt k (gs ++ hs) gates) :
  StandAt (k + gs.length) hs gates
  := by
  intro i g hi
  rw [Nat.add_assoc]
  apply h
  apply getElem?_append_eq_some_iff.mpr (.inr ⟨i, rfl, hi⟩)

theorem StandAt.last {g : Gate} (h : StandAt k (gs ++ [g]) gates) :
  gates[k + gs.length]? = some g
  := by
  apply h
  apply List.getElem?_concat_length

/-- The source of a sentence stands for it, wherever its gates stand. -/
theorem Lowered.unfolds (h : Lowered names k s gs o) (hgs : StandAt k gs gates) :
  Unfolds names gates o s
  := by
  induction h with
  | atom hj => apply Unfolds.column hj
  | negation _ ih => apply Unfolds.negation hgs.last (ih hgs.left)
  | binary _ _ ihl ihr =>
      have hlast := hgs.last
      rw [List.length_append, ← Nat.add_assoc] at hlast
      apply Unfolds.binary hlast (ihl hgs.left.left) (ihr hgs.left.right)

/-- There are as many gates as sentences that are no atoms. -/
theorem Lowered.length_eq (h : Lowered names k s gs o) :
  gs.length = s.compounds.length
  := by
  induction h with
  | atom _ => rfl
  | negation _ ih => simp [Sentence.compounds, ih]
  | binary _ _ ihl ihr => simp [Sentence.compounds, ihl, ihr]

/-- The gates stand for the sentences that are no atoms, in their order. -/
theorem Lowered.unfolds_compounds (h : Lowered names k s gs o) (hgs : StandAt k gs gates)
    (ht : s.compounds[i]? = some t) :
  Unfolds names gates (.gate (k + i)) t
  := by
  induction h generalizing i with
  | atom _ => cases ht
  | negation h ih =>
      obtain ht | ⟨rfl, rfl⟩ := getElem?_concat_eq_some_iff.mp ht
      · apply ih hgs.left ht
      · rw [← h.length_eq]
        apply (Lowered.negation h).unfolds hgs
  | binary hl hr ihl ihr =>
      obtain ht | ⟨rfl, rfl⟩ := getElem?_concat_eq_some_iff.mp ht
      · obtain htl | ⟨j, rfl, htr⟩ := getElem?_append_eq_some_iff.mp ht
        · apply ihl hgs.left.left htl
        · rw [← hl.length_eq, ← Nat.add_assoc]
          apply ihr hgs.left.right htr
      · rw [List.length_append, ← hl.length_eq, ← hr.length_eq, ← Nat.add_assoc]
        apply (Lowered.binary hl hr).unfolds hgs

/-! ### What gates read -/

/-- The source of a sentence with gates is the last of them. -/
theorem Lowered.eq_gate_iff (h : Lowered names k s gs o) :
  o = .gate i ↔ 0 < gs.length ∧ i + 1 = k + gs.length
  := by
  cases h with
  | atom _ => simp
  | negation _ =>
      simp only [Source.gate.injEq, List.length_append, List.length_singleton]
      omega
  | binary _ _ =>
      simp only [Source.gate.injEq, List.length_append, List.length_singleton]
      omega

theorem Lowered.backward (h : Lowered names k s gs o) :
  Backward names.length k gs
  := by
  induction h with
  | atom _ =>
      rintro i g ⟨⟩
  | negation h ih =>
      intro i g hi
      obtain hi | ⟨rfl, rfl⟩ := getElem?_concat_eq_some_iff.mp hi
      · apply ih i g hi
      · simpa [Gate.operands] using h.within
  | binary hl hr ihl ihr =>
      intro i g hi
      obtain hi | ⟨rfl, rfl⟩ := getElem?_concat_eq_some_iff.mp hi
      · obtain hil | ⟨j, rfl, hir⟩ := getElem?_append_eq_some_iff.mp hi
        · apply ihl i g hil
        · rw [← Nat.add_assoc]
          apply ihr j g hir
      · rw [List.length_append, ← Nat.add_assoc]
        simp only [Gate.operands, List.mem_cons, List.not_mem_nil, or_false, forall_eq_or_imp,
          forall_eq]
        use hl.within.mono (Nat.le_add_right _ _), hr.within

/-- Every gate is read once, by the gates or as the source of the sentence, and no other gate is
read. -/
theorem Lowered.count_reads (h : Lowered names k s gs o) (i : Nat) :
  (o :: gs.flatMap Gate.operands).count (.gate i) = if k ≤ i ∧ i < k + gs.length then 1 else 0
  := by
  induction h with
  | atom _ => simp
  | negation h ih =>
      simp only [List.count_cons, beq_iff_eq] at ih
      simp only [List.flatMap_append, List.flatMap_singleton, Gate.operands, List.count_cons,
        List.count_append, List.count_nil, beq_iff_eq, Source.gate.injEq, List.length_append,
        List.length_singleton, Nat.zero_add, ih]
      split_ifs <;> omega
  | binary hl hr ihl ihr =>
      simp only [List.count_cons, beq_iff_eq] at ihl ihr
      simp only [List.flatMap_append, List.flatMap_singleton, Gate.operands, List.count_cons,
        List.count_append, List.count_nil, beq_iff_eq, Source.gate.injEq, List.length_append,
        List.length_singleton, Nat.zero_add]
      rw [Nat.add_comm (ite _ _ _), Nat.add_add_add_comm, ihl, ihr]
      split_ifs <;> omega

/-- What is read once in all is read at one place only. -/
theorem exists_forall_iff_of_count_eq_one [DecidableEq β] {xs : List α} {f : α → List β} {b : β}
    (h : (xs.flatMap f).count b = 1) :
  ∃ j : Nat, ∀ i : Nat, (∃ x, xs[i]? = some x ∧ b ∈ f x) ↔ i = j
  := by
  induction xs with
  | nil => simp at h
  | cons x xs ih =>
      rw [List.flatMap_cons, List.count_append] at h
      rcases Nat.eq_zero_or_pos ((f x).count b) with hx | hx
      · rw [hx, Nat.zero_add] at h
        obtain ⟨j, hj⟩ := ih h
        use j + 1
        intro i
        cases i with
        | zero => simp [List.count_eq_zero.mp hx]
        | succ i =>
            rw [List.getElem?_cons_succ, hj]
            omega
      · have hxs : (xs.flatMap f).count b = 0 := by omega
        rw [List.count_eq_zero, List.mem_flatMap] at hxs
        use 0
        intro i
        cases i with
        | zero => simp [List.count_pos_iff.mp hx]
        | succ i =>
            rw [List.getElem?_cons_succ]
            constructor
            · rintro ⟨y, hy, hb⟩
              cases hxs ⟨y, List.mem_of_getElem? hy, hb⟩
            · rintro ⟨⟩

/-- The gates read every one of them once, apart from the source of the sentence. -/
theorem Lowered.count_operands (h : Lowered names 0 s gs o) (hi : i < gs.length)
    (ho : o ≠ .gate i) :
  (gs.flatMap Gate.operands).count (.gate i) = 1
  := by
  have hcount := h.count_reads i
  rwa [List.count_cons_of_ne ho, if_pos ⟨Nat.zero_le i, by omega⟩] at hcount

/-- A gate that is not the source of the sentence is read by one gate, which stands behind it. -/
theorem Lowered.exists_reader (h : Lowered names 0 s gs o) (hi : i < gs.length) (ho : o ≠ .gate i) :
  ∃ j, i < j ∧ ∀ m : Nat, (∃ g, gs[m]? = some g ∧ .gate i ∈ g.operands) ↔ m = j
  := by
  obtain ⟨j, hj⟩ := exists_forall_iff_of_count_eq_one (h.count_operands hi ho)
  obtain ⟨g, hg, hmem⟩ := (hj j).mpr rfl
  have hlt := h.backward j g hg _ hmem
  rw [Nat.zero_add] at hlt
  use j, hlt, hj

/-! ### The whole circuit -/

theorem Lowered.evalRow?_eq {w : Nat} (h : Lowered names 0 s c.gates c.output)
    (hcolumns : c.columns = names.length) (hw : names.length ≤ w) (row : Nat) :
  c.evalRow? w row = some (c.evalRow row)
  := by
  have hbackward : Backward names.length (#[] : Array Bool).size c.gates := h.backward
  have hwithin : c.output.Within names.length (runGates names.length row #[] c.gates).size := by
    rw [size_runGates]
    apply h.within
  rw [evalRow?, hcolumns, runGates?_eq_runGates hw hbackward, Option.bind_some,
    Source.value?_eq_value hw hwithin, ← hcolumns]
  rfl

/-- The circuit of a sentence has a gate for every sentence in it that is no atom, in their order,
and the last is the output; if there are none, a column is.  Every gate reads columns and earlier
gates, and every gate but the output is read once, by a later one.  From the output the sentence is
read back, and no other.  In a row that is a word with a bit for every column, every value is there
when it is read.  Over names in increasing order, finding columns by halving makes this circuit. -/
theorem compile_shape (h : compile s names = .ok c) :
  (∀ (i : Nat) (g : Gate), c.gates[i]? = some g → ∀ o ∈ g.operands, o.Within names.length i)
    ∧ c.output.Within names.length c.gates.length
    ∧ c.gates.length = s.compounds.length
    ∧ (∀ (i : Nat) (t : Sentence), s.compounds[i]? = some t →
      ∀ u, Unfolds names c.gates (.gate i) u ↔ u = t)
    ∧ (∀ i, c.output = .gate i ↔ i + 1 = c.gates.length)
    ∧ (∀ i < c.gates.length, c.output ≠ .gate i →
      (c.gates.flatMap Gate.operands).count (.gate i) = 1
        ∧ ∃ j, i < j ∧ ∀ m : Nat, (∃ g, c.gates[m]? = some g ∧ .gate i ∈ g.operands) ↔ m = j)
    ∧ (∀ u, Unfolds names c.gates c.output u ↔ u = s)
    ∧ (∀ w row, names.length ≤ w → c.evalRow? w row = some (c.evalRow row))
    ∧ (names.Pairwise (· < ·) → compileSorted s names = .ok c)
  := by
  obtain ⟨hcolumns, hlowered⟩ := lowered_of_compile h
  have hgates : StandAt 0 c.gates c.gates := by
    intro i g hi
    rw [Nat.zero_add, hi]
  refine ⟨?_, ?_, hlowered.length_eq, ?_, ?_, ?_, ?_, ?_, ?_⟩
  · intro i g hi o ho
    have hwithin := hlowered.backward i g hi o ho
    rwa [Nat.zero_add] at hwithin
  · have hwithin := hlowered.within
    rwa [Nat.zero_add] at hwithin
  · intro i t ht
    have hunfolds := hlowered.unfolds_compounds hgates ht
    rw [Nat.zero_add] at hunfolds
    apply hunfolds.iff_eq
  · intro i
    rw [hlowered.eq_gate_iff]
    omega
  · intro i hi ho
    use hlowered.count_operands hi ho
    apply hlowered.exists_reader hi ho
  · apply (hlowered.unfolds hgates).iff_eq
  · intro w row hw
    apply hlowered.evalRow?_eq hcolumns hw
  · intro hnames
    rw [compileSorted_eq_compile hnames, h]

/-- The circuit of `~(P->Q)` over columns for `P` and `Q`. -/
def denial : Circuit where
  columns := 2
  gates := [.binary .implication (.column 0) (.column 1), .negation (.gate 0)]
  output := .gate 1

/-- The denied conditional has two gates, of which the second alone reads the first. -/
theorem denial_shape :
  compile (.negation (.binary .implication (.atom "P") (.atom "Q"))) ["P", "Q"] = .ok denial
    ∧ (∃ j, 0 < j ∧ ∀ m : Nat, (∃ g, denial.gates[m]? = some g ∧ .gate 0 ∈ g.operands) ↔ m = j)
    ∧ Unfolds ["P", "Q"] denial.gates (.gate 0) (.binary .implication (.atom "P") (.atom "Q"))
    ∧ Unfolds ["P", "Q"] denial.gates (.gate 1)
      (.negation (.binary .implication (.atom "P") (.atom "Q")))
    ∧ denial.evalRow? 64 2 = some (denial.evalRow 2)
    ∧ compileSorted (.negation (.binary .implication (.atom "P") (.atom "Q"))) ["P", "Q"]
      = .ok denial
  := by
  have hcompile : compile (.negation (.binary .implication (.atom "P") (.atom "Q"))) ["P", "Q"]
      = .ok denial :=
    rfl
  obtain ⟨-, -, -, hcompounds, -, hreader, hwhole, hchecked, hsorted⟩ :=
    compile_shape hcompile
  exact ⟨hcompile, (hreader 0 (by decide) (by decide)).2, (hcompounds 0 _ rfl _).mpr rfl,
    (hwhole _).mpr rfl, hchecked 64 2 (by decide), hsorted (by decide)⟩

end Circuit

end Sentential

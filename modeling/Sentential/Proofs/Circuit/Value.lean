import Sentential.Circuit.Basic
import Sentential.Proofs.Outcome
import Mathlib.Data.List.Sort
import Mathlib.Data.String.Basic

/-!
# The values of a circuit

A row describes a valuation, which gives the name of a column the value of that column.  The
gates of a sentence may be appended to any gates that have been run: they leave the values
so far alone, and the source of the sentence then has the value of the sentence under the
valuation of the row.  Columns whose names are in increasing order may be found by halving.
-/

namespace Sentential

/-- The valuation that a row describes: a name has the value of its column. -/
def rowValuation (names : List String) (row : Nat) : Valuation :=
  fun name => (names.idxOf? name).map (columnValue row names.length)

/-- The values of gates in a row, computed behind the values `vs`. -/
def runGates (n row : Nat) (vs : Array Bool) (gs : List Gate) : Array Bool :=
  gs.foldl (fun vs g => vs.push (g.value n row vs)) vs

/-! ### Running gates -/

theorem runGates_append (n row : Nat) (vs : Array Bool) (gs hs : List Gate) :
  runGates n row vs (gs ++ hs) = runGates n row (runGates n row vs gs) hs
  := List.foldl_append

/-- Every gate adds one value. -/
theorem size_runGates (n row : Nat) (vs : Array Bool) (gs : List Gate) :
  (runGates n row vs gs).size = vs.size + gs.length
  := by
  induction gs generalizing vs with
  | nil => rfl
  | cons g gs ih =>
      apply Eq.trans (ih _)
      rw [Array.size_push, List.length_cons]
      omega

/-- Gates leave the values before them as they are. -/
theorem getD_runGates (n row : Nat) {vs : Array Bool} (gs : List Gate) {i : Nat} (h : i < vs.size) :
  (runGates n row vs gs).getD i false = vs.getD i false
  := by
  induction gs generalizing vs with
  | nil => rfl
  | cons g gs ih =>
      have hi : i < (vs.push (g.value n row vs)).size := by
        rw [Array.size_push]
        omega
      apply Eq.trans (ih hi)
      simp only [Array.getD_eq_getD_getElem?, Array.getElem?_push_lt h, Array.getElem?_eq_getElem h]

/-- A source among `n` columns and `k` gates. -/
def Source.Within (n k : Nat) : Source → Prop
  | column j => j < n
  | gate i => i < k

/-- A source keeps its value when more gates are run. -/
theorem Source.value_runGates {n row : Nat} {vs : Array Bool} {s : Source}
    (h : s.Within n vs.size) (gs : List Gate) :
  s.value n row (runGates n row vs gs) = s.value n row vs
  := by
  cases s with
  | column j => rfl
  | gate i => apply getD_runGates n row gs h

/-- The last of some gates computes its value from the values of the others. -/
theorem value_runGates_concat (n row : Nat) (vs : Array Bool) (gs : List Gate) (g : Gate) :
  Source.value n row (runGates n row vs (gs ++ [g])) (.gate (vs.size + gs.length))
    = g.value n row (runGates n row vs gs)
  := by
  rw [runGates_append, ← size_runGates n row]
  simp [runGates, Source.value]

/-! ### The column of a name -/

section Columns

variable {names : List String} {name : String} {base size j : Nat}

/-- If a name stands among those that are searched, its place is found. -/
theorem narrow_eq (hnames : names.Pairwise (· < ·)) (hj : names[j]? = some name)
    (hbase : base ≤ j) (hsize : j < base + size) (hle : base + size ≤ names.length) :
  narrow names name base size = j
  := by
  obtain ⟨hlt, rfl⟩ := List.getElem?_eq_some_iff.mp hj
  -- In increasing order, comparing names is comparing their places.
  have hless : ∀ mid < names.length, names[j] < names.getD mid "" ↔ j < mid := by
    intro mid hmid
    rw [List.getD_eq_getElem?_getD, List.getElem?_eq_getElem hmid, Option.getD_some]
    apply hnames.sortedLT.getElem_lt_getElem_iff
  fun_induction narrow names names[j] base size with
  | case1 base size hsmall => omega
  | case2 base size hlarge half mid hbefore ih =>
      rw [hless mid (by omega)] at hbefore
      apply ih <;> omega
  | case3 base size hlarge half mid hbehind ih =>
      rw [hless mid (by omega)] at hbehind
      apply ih <;> omega

/-- Among names in increasing order, the place found by halving is the first at which the name
stands. -/
theorem bisect?_eq_idxOf? (hnames : names.Pairwise (· < ·)) (name : String) :
  bisect? names name = names.idxOf? name
  := by
  simp only [bisect?]
  cases hj : names.idxOf? name with
  | none =>
      rw [if_neg]
      intro h
      apply List.idxOf?_eq_none_iff.mp hj (List.mem_of_getElem? h)
  | some j =>
      obtain ⟨hlt, hget, -⟩ := List.idxOf?_eq_some_iff.mp hj
      have hname : names[j]? = some name := by rw [List.getElem?_eq_getElem hlt, hget]
      have hfound : narrow names name 0 names.length = j :=
        narrow_eq hnames hname (Nat.zero_le j) (by omega) (by omega)
      rw [hfound, if_pos hname]

end Columns

/-! ### The gates of a sentence -/

namespace Circuit

/-- Over names in increasing order, finding columns by halving makes the same circuit. -/
theorem compileSorted_eq_compile {names : List String} (h : names.Pairwise (· < ·))
    (s : Sentence) :
  compileSorted s names = compile s names
  := by
  rw [compileSorted, compile, funext (bisect?_eq_idxOf? h)]

/-- The gates of a sentence behind `k` others, and its source. -/
inductive Lowered (names : List String) : Nat → Sentence → List Gate → Source → Prop
  | atom {k j : Nat} {a : String} (h : names[j]? = some a) :
      Lowered names k (.atom a) [] (.column j)
  | negation {k : Nat} {s : Sentence} {gs : List Gate} {o : Source} (h : Lowered names k s gs o) :
      Lowered names k (.negation s) (gs ++ [.negation o]) (.gate (k + gs.length))
  | binary {k : Nat} {c : Connective} {l r : Sentence} {gs hs : List Gate} {o o' : Source}
      (hl : Lowered names k l gs o) (hr : Lowered names (k + gs.length) r hs o') :
      Lowered names k (.binary c l r) (gs ++ hs ++ [.binary c o o'])
        (.gate (k + gs.length + hs.length))

section Lowered

variable {names : List String} {k : Nat} {s : Sentence} {gs : List Gate} {o : Source}

theorem lowered_of_lower (h : lower (names.idxOf? ·) k s = .ok (gs, o)) :
  Lowered names k s gs o
  := by
  induction s generalizing k gs o with
  | atom a =>
      rw [lower] at h
      split at h
      · rename_i j hj
        cases h
        obtain ⟨hlt, rfl, -⟩ := List.idxOf?_eq_some_iff.mp hj
        apply Lowered.atom (List.getElem?_eq_getElem hlt)
      · cases h
  | negation s ih =>
      obtain ⟨⟨gs', o'⟩, hs, hreturn⟩ := bind_eq_ok_iff.mp h
      cases hreturn
      apply Lowered.negation (ih hs)
  | binary c l r ihl ihr =>
      obtain ⟨⟨gs', o'⟩, hl, h⟩ := bind_eq_ok_iff.mp h
      obtain ⟨⟨hs', o''⟩, hr, hreturn⟩ := bind_eq_ok_iff.mp h
      cases hreturn
      apply Lowered.binary (ihl hl) (ihr hr)

/-- The source of a sentence is a column or one of the gates up to its own. -/
theorem Lowered.within (h : Lowered names k s gs o) :
  o.Within names.length (k + gs.length)
  := by
  cases h with
  | atom hj => apply (List.getElem?_eq_some_iff.mp hj).1
  | negation _ => simp [Source.Within]
  | binary _ _ =>
      simp only [Source.Within, List.length_append, List.length_singleton]
      omega

end Lowered

/-- A sentence has a value in a row exactly when it has gates, and its value is that of its
source after the gates have been run behind any values. -/
theorem evaluate_eq_map_lower (names : List String) (row : Nat) (s : Sentence) (vs : Array Bool) :
  s.evaluate (rowValuation names row)
    = (lower (names.idxOf? ·) vs.size s).map fun p =>
        p.2.value names.length row (runGates names.length row vs p.1)
  := by
  induction s generalizing vs with
  | atom name =>
      simp only [Sentence.evaluate, lower, rowValuation]
      cases names.idxOf? name with
      | none => rfl
      | some j => rfl
  | negation s ih =>
      simp only [Sentence.evaluate, lower, ih vs]
      cases lower (names.idxOf? ·) vs.size s with
      | error e => rfl
      | ok p =>
          apply congrArg Except.ok
          symm
          apply value_runGates_concat
  | binary c l r ihl ihr =>
      simp only [Sentence.evaluate, lower, ihl vs]
      cases hl : lower (names.idxOf? ·) vs.size l with
      | error e => rfl
      | ok p =>
          have hr := ihr (runGates names.length row vs p.1)
          rw [size_runGates] at hr
          simp only [Except.map, bind, Except.bind, pure, Except.pure, hr]
          cases lower (names.idxOf? ·) (vs.size + p.1.length) r with
          | error e => rfl
          | ok q =>
              have hp : p.2.Within names.length (runGates names.length row vs p.1).size := by
                rw [size_runGates]
                apply (lowered_of_lower hl).within
              have hvalue := value_runGates_concat names.length row vs (p.1 ++ q.1)
                (.binary c p.2 q.2)
              rw [List.length_append, ← Nat.add_assoc, Gate.value, runGates_append _ _ _ p.1,
                Source.value_runGates hp] at hvalue
              apply congrArg Except.ok hvalue.symm

/-- Compiling a sentence and running its circuit is evaluating the sentence, errors included. -/
theorem evaluate_eq_map_compile (s : Sentence) (names : List String) (row : Nat) :
  s.evaluate (rowValuation names row) = (compile s names).map (·.evalRow row)
  := by
  rw [evaluate_eq_map_lower names row s #[], compile, compileBy, List.size_toArray, List.length_nil]
  cases lower (names.idxOf? ·) 0 s with
  | error e => rfl
  | ok p => rfl

/-- A circuit computes in every row the value of the sentence that it was compiled from. -/
theorem evaluate_of_compile {s : Sentence} {names : List String} {c : Circuit}
    (h : compile s names = .ok c) (row : Nat) :
  s.evaluate (rowValuation names row) = .ok (c.evalRow row)
  := by
  rw [evaluate_eq_map_compile, h]
  rfl

end Circuit

end Sentential

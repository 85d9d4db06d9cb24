import Sentential.Proofs.Formula.Rendering
import Sentential.Proofs.Sentence.Nesting

/-!
# The depth of formulas

A strict formula is no deeper than the limit under which it was read.  Of a permissive formula
the limit bounds the nesting only, so that it can be deeper by one level for every left operand
without brackets on the way to an atom.  Conjunctions without brackets are nested two levels,
however many there are, so that a limit of two levels admits formulas of any depth.
-/

namespace Sentential

namespace Formula

open AtomName Vocabulary

variable {v : Vocabulary} {lim : Limits} {text : String} {f : Formula}

/-! ### Conjunctions without brackets -/

/-- The conjunction of an atom with itself, over and over again. -/
def conjunctions : Nat → Sentence
  | 0 => .atom "P"
  | n + 1 => .binary .conjunction (conjunctions n) (.atom "P")

/-- The text of a conjunction without brackets. -/
def conjunctionsText : Nat → String
  | 0 => "P"
  | n + 1 => conjunctionsText n ++ (Connective.symbol .conjunction ++ "P")

/-- The tokens of a conjunction without brackets. -/
def conjunctionsTokens : Nat → List Token
  | 0 => [⟨.atom, "P"⟩]
  | n + 1 =>
    conjunctionsTokens n
      ++ [⟨.connective .conjunction, Connective.symbol .conjunction⟩, ⟨.atom, "P"⟩]

theorem depth_conjunctions (n : Nat) :
  (conjunctions n).depth = n + 1
  := by
  induction n with
  | zero => rfl
  | succ n ih =>
      rw [conjunctions, Sentence.depth, Sentence.depth, ih]
      omega

theorem splits_conjunctionsText (n : Nat) {cs : List Char} {ts : List Token} (hcs : EndsName cs)
    (h : Splits .standard cs ts) :
  Splits .standard ((conjunctionsText n).toList ++ cs) (conjunctionsTokens n ++ ts)
  := by
  induction n generalizing cs ts with
  | zero => apply h.cons (t := ⟨.atom, "P"⟩) (lexeme_atom (by decide) hcs)
  | succ n ih =>
      have hatom := h.cons (t := ⟨.atom, "P"⟩) (lexeme_atom (by decide) hcs)
      have hsymbol := hatom.cons ((Sentence.symbol_connective .conjunction).lexeme _)
      have hall := ih (Sentence.endsName_symbol .conjunction _) hsymbol
      simpa [conjunctionsText, conjunctionsTokens] using hall

theorem tokenize_conjunctionsText (n : Nat) :
  Vocabulary.standard.tokenize (conjunctionsText n) = .ok (conjunctionsTokens n)
  := by
  have hblank : Splits .standard [] [] := Splits.blank blank_nil
  have hsplits := splits_conjunctionsText n (by simp [EndsName]) hblank
  rw [List.append_nil, List.append_nil] at hsplits
  apply tokenize_of_splits tight_standard hsplits

/-- Conjunctions without brackets are nested two levels at most. -/
theorem derives_conjunctionsTokens (n : Nat) :
  ∃ m ≤ 2, Sentence.Derives (.chain .conjunction) m (conjunctionsTokens n) (conjunctions n)
  := by
  have hatom : Sentence.Derives .primary 1 [⟨.atom, "P"⟩] (.atom "P") :=
    Sentence.Derives.atom (t := ⟨.atom, "P"⟩) rfl
  induction n with
  | zero =>
      use 1, Nat.le_succ 1
      apply Sentence.Derives.chain rfl hatom
  | succ n ih =>
      obtain ⟨m, hm, hchain⟩ := ih
      use max m 2, Nat.max_le.mpr ⟨hm, Nat.le_refl 2⟩
      apply Sentence.Derives.junction hchain rfl hatom

theorem parse_conjunctionsTokens (n : Nat) {limit : Nat} (h : 2 ≤ limit) :
  Sentence.parse .permissive limit (conjunctionsTokens n) = .ok (conjunctions n)
  := by
  obtain ⟨m, hm, hchain⟩ := derives_conjunctionsTokens n
  rw [(Sentence.Derives.whole hchain).parse_eq]
  apply Sentence.within_of_le (Nat.le_trans hm h)

theorem isBlankText_conjunctionsText (n : Nat) :
  Text.isBlankText (conjunctionsText n) = false
  := by
  apply isBlankText_of_tokenize (tokenize_conjunctionsText n)
  cases n <;> simp [conjunctionsTokens]

/-! ### The limit and the depth -/

/-- A formula is bounded by its limit in depth if it is strict and in nesting if it is
permissive; its depth is more than the limit by its left operands without brackets at most. -/
theorem depth_le_of_parse (h : parse v lim text = .ok f) :
  (f.grammar = .strict → f.tree.depth ≤ lim.maxDepth)
    ∧ (f.grammar = .permissive → f.tree.nesting ≤ lim.maxDepth)
    ∧ f.tree.depth ≤ lim.maxDepth + f.tree.leftSteps
  := by
  obtain ⟨ts, -, hts⟩ := exists_tokens_of_parse h
  cases hg : f.grammar with
  | strict =>
      rw [hg] at hts
      have hdepth := (Sentence.parse_strict_eq_ok_iff.mp hts).2
      refine ⟨fun _ => hdepth, by simp, ?_⟩
      apply Nat.le_trans hdepth (Nat.le_add_right _ _)
  | permissive =>
      rw [hg] at hts
      have hnesting := Sentence.exists_parse_eq_ok_iff.mp ⟨ts, hts⟩
      refine ⟨by simp, fun _ => hnesting, ?_⟩
      apply Nat.le_trans f.tree.depth_le_nesting_add_leftSteps
      apply Nat.add_le_add_right hnesting

theorem parse_threeConjuncts :
  parse .standard ⟨2, 12⟩ "P&P&P" = .ok ⟨"P&P&P", conjunctions 2, .permissive⟩
  := by
  have hstrict : Sentence.parse .strict 2 (conjunctionsTokens 2)
      = .error (.trailingTokens ⟨.connective .conjunction, "&"⟩) := by
    cbv
  apply parse_of_permissive (isBlankText_conjunctionsText 2) (tokenize_conjunctionsText 2) hstrict
  apply parse_conjunctionsTokens 2 (Nat.le_refl 2)

/-- Two levels admit a formula that takes two steps to the left. -/
theorem threeConjuncts_depth_le :
  parse .standard ⟨2, 12⟩ "P&P&P" = .ok ⟨"P&P&P", conjunctions 2, .permissive⟩
    ∧ (conjunctions 2).nesting ≤ 2
    ∧ (conjunctions 2).leftSteps = 2
    ∧ (conjunctions 2).depth ≤ 2 + 2
  := by
  obtain ⟨-, hnesting, hdepth⟩ := depth_le_of_parse parse_threeConjuncts
  use parse_threeConjuncts, hnesting rfl, rfl
  apply hdepth

/-- Two levels do not bound the depth of a formula that they admit. -/
theorem threeConjuncts_depth_gt :
  parse .standard ⟨2, 12⟩ "P&P&P" = .ok ⟨"P&P&P", conjunctions 2, .permissive⟩
    ∧ ¬ (conjunctions 2).depth ≤ 2
  := by
  use parse_threeConjuncts
  rw [depth_conjunctions]
  decide

/-- A text whose tokens the permissive grammar accepts makes a formula of the same sentence. -/
theorem exists_parse_of_permissive {ts : List Token} {s : Sentence}
    (htext : Text.isBlankText text = false) (hts : v.tokenize text = .ok ts)
    (h : Sentence.parse .permissive lim.maxDepth ts = .ok s) :
  ∃ f, parse v lim text = .ok f ∧ f.tree = s
  := by
  cases hstrict : Sentence.parse .strict lim.maxDepth ts with
  | ok s' =>
      have hformal := (Sentence.parse_strict_eq_ok_iff.mp hstrict).1
      have hs : s' = s := by
        rw [hformal.parse_permissive_eq, Sentence.within] at h
        split at h
        · cases h
          rfl
        · cases h
      use ⟨text, s', .strict⟩, parse_of_strict htext hts hstrict
  | error e => use ⟨text, s, .permissive⟩, parse_of_permissive htext hts hstrict h

/-- Two levels admit formulas of any depth. -/
theorem exists_parse_depth_gt (hlim : 2 ≤ lim.maxDepth) (n : Nat) :
  ∃ text f, parse .standard lim text = .ok f ∧ n < f.tree.depth
  := by
  obtain ⟨f, hf, htree⟩ := exists_parse_of_permissive (isBlankText_conjunctionsText n)
    (tokenize_conjunctionsText n) (parse_conjunctionsTokens n hlim)
  use conjunctionsText n, f, hf
  rw [htree, depth_conjunctions]
  apply Nat.lt_succ_self

end Formula

end Sentential

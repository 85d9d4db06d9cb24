import Sentential.Limits
import Sentential.Proofs.Sentence.DepthLimit
import Mathlib.Data.Nat.Find
import Mathlib.Tactic.Use

/-!
# The levels that tokens need

Every list of tokens needs some number of levels.  A limit below that number is exceeded, and
all limits from it on give one and the same outcome.  A reader passes a token on its way to a
deeper level, so that the levels are at most one more than the tokens.
-/

namespace Sentential

namespace Sentence

variable {α β : Type} {limit : Nat} {ts : List Token}

/-! ### Outcomes that exceed no depth -/

/-- An outcome that does not exceed any depth. -/
def Spared (x : Except ParseError α) : Prop := ∀ n, x ≠ .error (.depthExceeded n)

namespace Spared

variable {x : Except ParseError α}

theorem ok (a : α) :
  Spared (.ok a)
  := by
  simp [Spared]

theorem bind {f : α → Except ParseError β} (h : Spared x) (hf : ∀ a, x = .ok a → Spared (f a)) :
  Spared (x.bind f)
  := by
  cases x with
  | error e => simpa [Spared] using h
  | ok a => apply hf a rfl

theorem map {f : α → β} (h : Spared x) :
  Spared (x.map f)
  := by
  cases x with
  | error e => simpa [Spared, Except.map] using h
  | ok a => apply ok

end Spared

/-! ### Levels and tokens -/

/-- No reader exceeds a limit that is above its level by more than the number of its tokens: for
every level that it goes deeper it has passed a token. -/
theorem reader_spared (g : Grammar) (limit : Nat) :
  (∀ d ts, d + ts.length < limit → Spared (primary g limit d ts))
    ∧ (∀ d b ts, d + ts.length < limit → Spared (group g limit d b ts))
    ∧ (∀ d least ts, d + ts.length < limit → Spared (operands g limit d least ts))
    ∧ ∀ d least left last? ts,
      d + ts.length < limit → Spared (tail g limit d least left last? ts)
  := by
  apply reader_induction
  · intro d ts ihP ihG h
    have hd : d < limit := by omega
    cases ts with
    | nil =>
        rw [primary_nil hd]
        simp [Spared]
    | cons t ts =>
        rw [List.length_cons] at h
        obtain ht | ht | ⟨b, ht, hb⟩ | ht := begins_cases g t.kind
        · rw [primary_atom hd ht]
          apply Spared.ok
        · rw [primary_negation hd ht]
          apply (ihP ts (Nat.lt_succ_self _) (by omega)).map
        · rw [primary_opening hd ht hb]
          apply ihG ts (Nat.lt_succ_self _) b (by omega)
        · rw [primary_of_not_begins hd ht]
          simp [Spared]
  · intro d b ts ihP ihP' ihO h
    cases g with
    | permissive =>
        rw [group_permissive]
        apply (ihO h).bind
        intro p _
        apply close_ne_depthExceeded
    | strict =>
        rw [group_strict]
        apply (ihP h).bind
        intro l hl
        apply Spared.bind (joint_ne_depthExceeded l.2)
        intro c hc
        have hlt := Nat.lt_trans (length_lt_of_joint hc) (length_lt_of_primary hl)
        apply (ihP' c.2 hlt (by omega)).bind
        intro r _
        apply close_ne_depthExceeded
  · intro d least ts ihP ihT h
    rw [operands_eq]
    apply (ihP h).bind
    intro l hl
    have hlt := length_lt_of_primary hl
    apply ihT l.2 hlt
    omega
  · intro d least left last? ts ihO ihT h
    obtain hfree | ⟨t, ts, c, rfl, ht, hc⟩ := free_or_connective least ts
    · rw [tail_of_free hfree]
      apply Spared.ok
    · rw [List.length_cons] at h
      cases hlast : conflict? last? c t with
      | some u =>
          rw [tail_of_conflict ht hc hlast]
          simp [Spared]
      | none =>
          rw [tail_of_connective ht hc hlast]
          apply (ihO ts (Nat.lt_succ_self _) _ (by omega)).bind
          intro r hr
          have hlt := length_lt_of_operands hr
          apply ihT r.2 (Nat.lt_succ_of_lt hlt)
          omega

/-- A limit above the number of tokens is not exceeded. -/
theorem parse_spared (g : Grammar) (h : ts.length < limit) :
  Spared (parse g limit ts)
  := by
  have hlimit : 0 + ts.length < limit := by omega
  cases g with
  | strict =>
      rw [parse_strict]
      apply ((reader_spared .strict limit).1 0 ts hlimit).bind
      intro p _
      apply finish_ne_depthExceeded
  | permissive =>
      rw [parse_permissive]
      apply ((reader_spared .permissive limit).2.2.1 0 0 ts hlimit).bind
      intro p _
      apply finish_ne_depthExceeded

/-- A list of tokens needs a number of levels, at most one more than it has tokens.  It exceeds
all limits below that number and has the same outcome under all others. -/
theorem exists_parse_eq_within (g : Grammar) (ts : List Token) :
  ∃ k x, k ≤ ts.length + 1 ∧ Spared x ∧ ∀ limit, parse g limit ts = within limit k x
  := by
  classical
  have hspared : ∃ k, Spared (parse g k ts) := ⟨ts.length + 1, parse_spared g (Nat.lt_succ_self _)⟩
  use Nat.find hspared, parse g (Nat.find hspared) ts
  refine ⟨?_, Nat.find_spec hspared, ?_⟩
  · apply Nat.find_le
    apply parse_spared g (Nat.lt_succ_self _)
  · intro limit
    rw [within]
    split
    · rename_i hle
      obtain hexceeded | ⟨hsame, -⟩ := parse_agrees g hle ts
      · cases Nat.find_spec hspared _ hexceeded
      · apply hsame
    · rename_i hlt
      obtain hexceeded | ⟨-, hne⟩ := parse_agrees g (Nat.le_refl limit) ts
      · apply hexceeded
      · cases Nat.find_min hspared (Nat.lt_of_not_le hlt) hne

/-! ### Two limits -/

/-- Tokens that do not exceed a limit have the same outcome under every larger one, and those that
exceed it exceed the depth that it allows.  No limit above the number of the tokens that remain is
exceeded. -/
theorem parse_eq_of_maxDepth_le (g : Grammar) (c : Cursor) {lim lim' : Limits}
    (h : lim.maxDepth ≤ lim'.maxDepth) :
  ((∀ n, parse g lim.maxDepth c.remaining ≠ .error (.depthExceeded n)) →
      parse g lim'.maxDepth c.remaining = parse g lim.maxDepth c.remaining)
    ∧ (∀ n, parse g lim.maxDepth c.remaining = .error (.depthExceeded n) → n = lim.maxDepth)
    ∧ (c.remaining.length < lim.maxDepth →
      ∀ n, parse g lim.maxDepth c.remaining ≠ .error (.depthExceeded n))
  := by
  obtain ⟨k, x, hk, hx, hparse⟩ := exists_parse_eq_within g c.remaining
  rw [hparse, hparse]
  rcases Nat.lt_or_ge lim.maxDepth k with hlt | hle
  · rw [within, if_neg (Nat.not_le_of_lt hlt)]
    refine ⟨?_, ?_, ?_⟩
    · intro hne
      cases hne _ rfl
    · rintro n ⟨⟩
      rfl
    · intro hlength
      omega
  · rw [within_of_le hle, within_of_le (Nat.le_trans hle h)]
    refine ⟨fun _ => rfl, ?_, fun _ => hx⟩
    intro n hn
    cases hx n hn

/-- A conjunction of an atom and a conditional in square brackets. -/
def groupedConditional : List Token :=
  [⟨.atom, "P"⟩, ⟨.connective .conjunction, "&"⟩, ⟨.opening .square, "["⟩, ⟨.atom, "Q"⟩,
    ⟨.connective .implication, "->"⟩, ⟨.negation, "~"⟩, ⟨.atom, "R"⟩, ⟨.closing .square, "]"⟩]

/-- Five levels are what it needs, and the nine above its eight tokens are enough. -/
theorem groupedConditional_parse_eq :
  5 ≤ 9
    ∧ parse .permissive 4 groupedConditional = .error (.depthExceeded 4)
    ∧ (∀ n, parse .permissive 5 groupedConditional ≠ .error (.depthExceeded n))
    ∧ parse .permissive 9 groupedConditional = parse .permissive 5 groupedConditional
    ∧ groupedConditional.length < 9
    ∧ ∀ n, parse .permissive 9 groupedConditional ≠ .error (.depthExceeded n)
  := by
  have hfour : parse .permissive 4 groupedConditional = .error (.depthExceeded 4) := by cbv
  have hfive : parse .permissive 5 groupedConditional
      = .ok (.binary .conjunction (.atom "P")
        (.binary .implication (.atom "Q") (.negation (.atom "R")))) := by
    cbv
  have hspared : ∀ n, parse .permissive 5 groupedConditional ≠ .error (.depthExceeded n) := by
    simp [hfive]
  have hlimits : (⟨5, 12⟩ : Limits).maxDepth ≤ (⟨9, 12⟩ : Limits).maxDepth := by decide
  have hlength : groupedConditional.length < 9 := by decide
  have hsame := (parse_eq_of_maxDepth_le .permissive (.ofList groupedConditional) hlimits).1 hspared
  use hlimits, hfour, hspared, hsame, hlength
  apply (parse_eq_of_maxDepth_le .permissive (.ofList groupedConditional)
    (Nat.le_refl (⟨9, 12⟩ : Limits).maxDepth)).2.2 hlength

end Sentence

end Sentential

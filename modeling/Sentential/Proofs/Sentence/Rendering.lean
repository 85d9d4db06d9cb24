import Sentential.Proofs.Sentence.Strict
import Sentential.Proofs.Vocabulary.Splitting

/-!
# Rendered sentences

The canonical text of a sentence has no blanks, so its tokens must not run together.  They do
not: no standard spelling is longer than a canonical symbol and begins as that does, none begins
like a name, and what stands behind a name is no underscore and no digit.  Hence the standard
vocabulary splits the text into the tokens that the sentence was written with, and these are
formal.
-/

namespace Sentential

namespace Vocabulary

variable {cs : List Char} {t : Token}

/-- A token that is spelled in the usual way, by a spelling that no other with the same first
character exceeds. -/
def Symbol (t : Token) : Prop :=
  ⟨t.text, t.kind⟩ ∈ standard.entries
    ∧ ∀ e ∈ standard.entries, e.spelling.toList.head? = t.text.toList.head? →
      e.spelling.length ≤ t.text.length

instance (t : Token) : Decidable (Symbol t) :=
  inferInstanceAs (Decidable (_ ∧ _))

/-- A symbol is the lexeme where it stands. -/
theorem Symbol.lexeme (h : Symbol t) (cs : List Char) :
  Lexeme standard (t.text.toList ++ cs) t
  := by
  obtain ⟨hmem, hlongest⟩ := h
  apply Lexeme.spelling hmem (List.prefix_append _ cs)
  intro e he hfront
  apply hlongest e he
  have htext : t.text.toList ≠ [] := toList_ne_nil hmem
  rw [head?_eq_of_isPrefix hfront (toList_ne_nil he), List.head?_append_of_ne_nil _ htext]

/-- An atom name is the lexeme where it stands and ends. -/
theorem lexeme_atom {name : String} (h : IsAtomName name) (hcs : AtomName.EndsName cs) :
  Lexeme standard (name.toList ++ cs) ⟨.atom, name⟩
  := unlettered_standard.lexeme_name h hcs

end Vocabulary

namespace Sentence

open AtomName Vocabulary

/-- The tokens that the canonical text of a sentence consists of. -/
def tokens : Sentence → List Token
  | atom name => [⟨.atom, name⟩]
  | negation s => ⟨.negation, Connective.negationSymbol⟩ :: s.tokens
  | binary c l r =>
    ⟨.opening .round, "("⟩ :: (l.tokens ++ ⟨.connective c, c.symbol⟩ :: r.tokens)
      ++ [⟨.closing .round, ")"⟩]

theorem formal_tokens (s : Sentence) :
  Formal s.tokens s
  := by
  induction s with
  | atom name => apply Formal.atom (t := ⟨.atom, name⟩) rfl
  | negation s ih => apply Formal.negation rfl ih
  | binary c l r ihl ihr => apply Formal.binary rfl ihl rfl ihr rfl

theorem symbol_negation :
  Symbol ⟨.negation, Connective.negationSymbol⟩
  := by
  decide

theorem symbol_connective (c : Connective) :
  Symbol ⟨.connective c, c.symbol⟩
  := by
  cases c <;> decide

theorem symbol_opening :
  Symbol ⟨.opening .round, "("⟩
  := by
  decide

theorem symbol_closing :
  Symbol ⟨.closing .round, ")"⟩
  := by
  decide

theorem endsName_symbol (c : Connective) (cs : List Char) :
  EndsName (c.symbol.toList ++ cs)
  := by
  cases c <;> simp [EndsName, Connective.symbol]

/-- The canonical text of a sentence with atom names splits into its tokens, before every text
that ends a name. -/
theorem splits_render (s : Sentence) (hs : ∀ a ∈ s.leaves, IsAtomName a) {cs : List Char}
    {ts : List Token} (hcs : EndsName cs) (h : Splits .standard cs ts) :
  Splits .standard (s.render.toList ++ cs) (s.tokens ++ ts)
  := by
  induction s generalizing cs ts with
  | atom name =>
      apply h.cons (t := ⟨.atom, name⟩)
      apply lexeme_atom (hs name (List.mem_singleton_self name)) hcs
  | negation s ih =>
      rw [render, tokens, String.toList_append, List.append_assoc, List.cons_append]
      apply (ih hs hcs h).cons (symbol_negation.lexeme _)
  | binary c l r ihl ihr =>
      have hclosing := h.cons (symbol_closing.lexeme cs)
      have hright := ihr (fun a ha => hs a (List.mem_append_right _ ha)) (by simp [EndsName]) hclosing
      have hconnective := hright.cons ((symbol_connective c).lexeme _)
      have hleft :=
        ihl (fun a ha => hs a (List.mem_append_left _ ha)) (endsName_symbol c _) hconnective
      have hopening := hleft.cons (symbol_opening.lexeme _)
      simpa [render, tokens] using hopening

/-- The canonical text of a sentence with atom names is split into its tokens. -/
theorem tokenize_render {s : Sentence} (hs : ∀ a ∈ s.leaves, IsAtomName a) :
  Vocabulary.standard.tokenize s.render = .ok s.tokens
  := by
  apply tokenize_of_splits tight_standard
  have hblank : Splits .standard [] [] := Splits.blank blank_nil
  have hsplits := splits_render s hs (by simp [EndsName]) hblank
  rw [List.append_nil, List.append_nil] at hsplits
  apply hsplits

/-- The canonical text of a sentence with atom names is not blank. -/
theorem isBlankText_render {s : Sentence} (hs : ∀ a ∈ s.leaves, IsAtomName a) :
  Text.isBlankText s.render = false
  := by
  apply isBlankText_of_tokenize (tokenize_render hs)
  cases s <;> simp [tokens]

end Sentence

end Sentential

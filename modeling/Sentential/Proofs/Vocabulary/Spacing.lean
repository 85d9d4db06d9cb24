import Sentential.Proofs.Vocabulary.Definitions

/-!
# Tokens written apart

Tokens that are written with blanks between them are read again as they were written, if no
spelling has a blank and none begins like a name.  A blank ends every spelling and every name, so
that what is read at the place of a token is neither more nor less than the token, whichever
spellings begin or end others.
-/

namespace Sentential

namespace Vocabulary

variable {v : Vocabulary} {cs w : List Char} {t : Token} {ts : List Token}

/-- A token that can be written: a spelling with its kind, or an atom with an atom name. -/
def Writable (v : Vocabulary) (t : Token) : Prop :=
  v.kind? t.text = some t.kind ∨ t.kind = .atom ∧ IsAtomName t.text

/-- Texts of tokens in order, each with blanks behind it, and with some if another token follows. -/
inductive Spaced : List Token → List Char → Prop
  | nil : Spaced [] []
  | cons {t : Token} {ts : List Token} {w cs : List Char} (hw : Blank w) (hnext : ts ≠ [] → w ≠ [])
      (h : Spaced ts cs) : Spaced (t :: ts) (t.text.toList ++ (w ++ cs))

/-- The spellings of a vocabulary whose tokens blanks keep apart. -/
structure Separable (v : Vocabulary) : Prop where
  solid : ∀ e ∈ v.entries, ∀ c ∈ e.spelling.toList, Text.isBlank c = false
  unlettered : Unlettered v

theorem Separable.tight (hv : Separable v) :
  Tight v
  := fun e he c hc => hv.solid e he c (List.mem_of_mem_head? hc)

theorem separable_standard :
  Separable standard
  where
  solid e he c hc := by
    have hall : (standard.entries.all fun e => e.spelling.toList.all fun c => !Text.isBlank c)
        = true := by
      decide
    simpa using List.all_eq_true.mp (List.all_eq_true.mp hall e he) c hc
  unlettered := unlettered_standard

/-! ### Where a token ends -/

/-- A text that is empty or begins with a blank. -/
def Parted (cs : List Char) : Prop := ∀ c ∈ cs.head?, Text.isBlank c = true

theorem isBlank_of_isDigit {c : Char} (h : c.isDigit = true) :
  Text.isBlank c = false
  := by
  simp only [Char.isDigit, Bool.and_eq_true, decide_eq_true_eq] at h
  have hlower : 48 ≤ c.toNat := h.1
  have hupper : c.toNat ≤ 57 := h.2
  apply Text.isBlank_of_mem_range
  · omega
  · omega

/-- Behind a name a blank is no underscore and no digit. -/
theorem Parted.endsName (h : Parted cs) :
  AtomName.EndsName cs
  := by
  intro c hc
  have hblank := h c hc
  constructor
  · rintro rfl
    cases hblank
  · rw [Bool.eq_false_iff]
    intro hdigit
    rw [isBlank_of_isDigit hdigit] at hblank
    cases hblank

/-- A text without blanks that begins another goes no further than to a blank of that. -/
theorem Parted.length_le {as bs : List Char} (h : Parted cs)
    (has : ∀ c ∈ as, Text.isBlank c = false) (hfront : as <+: bs ++ cs) :
  as.length ≤ bs.length
  := by
  rcases Nat.le_total as.length bs.length with hle | hle
  · apply hle
  · obtain ⟨ds, rfl⟩ := List.prefix_of_prefix_length_le (List.prefix_append bs cs) hfront hle
    rw [List.prefix_append_right_inj] at hfront
    cases ds with
    | nil => rw [List.append_nil]
    | cons d ds =>
        have hblank := h d (head?_eq_of_isPrefix hfront (List.cons_ne_nil d ds) ▸ rfl)
        rw [has d (List.mem_append_right bs List.mem_cons_self)] at hblank
        cases hblank

/-- Behind a token stands a blank, or nothing. -/
theorem Spaced.parted (h : Spaced ts cs) (hw : Blank w) (hnext : ts ≠ [] → w ≠ []) :
  Parted (w ++ cs)
  := by
  cases w with
  | nil =>
      cases h with
      | nil => simp [Parted]
      | cons _ _ _ => cases hnext (List.cons_ne_nil _ _) rfl
  | cons c w =>
      rintro d ⟨⟩
      apply hw c List.mem_cons_self

/-! ### Reading what is written -/

/-- Before a blank, every token that can be written is the lexeme. -/
theorem Separable.lexeme (hv : Separable v) (ht : Writable v t) (hcs : Parted cs) :
  Lexeme v (t.text.toList ++ cs) t
  := by
  obtain ⟨k, s⟩ := t
  obtain hkind | ⟨rfl, hname⟩ := ht
  · apply Lexeme.spelling (kind?_eq_some_iff.mp hkind) (List.prefix_append _ _)
    intro f hf hfront
    rw [← String.length_toList, ← String.length_toList]
    apply hcs.length_le (hv.solid f hf) hfront
  · apply hv.unlettered.lexeme_name hname hcs.endsName

theorem Separable.splits (hv : Separable v) (hts : ∀ t ∈ ts, Writable v t) (h : Spaced ts cs) :
  Splits v cs ts
  := by
  induction h with
  | nil => apply Splits.blank blank_nil
  | cons hw hnext h ih =>
      rw [List.forall_mem_cons] at hts
      apply ((ih hts.2).blank_append hw).cons
      apply hv.lexeme hts.1 (h.parted hw hnext)

/-- If no spelling has a blank and none begins with the letter of a name, as in the usual
vocabulary, tokens that are written apart, with any blanks about them, are what the text is split
into. -/
theorem tokenize_spaced (v : Vocabulary) :
  (Separable v → ∀ (ts : List Token) (w cs : List Char), (∀ t ∈ ts, Writable v t) → Blank w →
      Spaced ts cs → v.tokenize (String.ofList (w ++ cs)) = .ok ts)
    ∧ Separable standard
  := by
  refine ⟨?_, separable_standard⟩
  intro hv ts w cs hts hw hcs
  apply tokenize_of_splits hv.tight
  rw [String.toList_ofList]
  apply (hv.splits hts hcs).blank_append hw

/-- A vocabulary in which spellings begin and end others and one looks like a subscript. -/
def arrows : Vocabulary where
  entries := [⟨"-", .negation⟩, ⟨"->", .connective .implication⟩, ⟨">", .connective .conjunction⟩,
    ⟨"_1", .connective .disjunction⟩]
  nodup := by decide
  nonblank := by decide
  not_atom := by decide

theorem separable_arrows :
  Separable arrows
  where
  solid := by simp [arrows, Text.isBlank, Text.blankRanges]
  unlettered := by simp [Unlettered, arrows, AtomName.isLetter]

/-- The blanks keep `_1` from being a subscript of `P`, and `-` and `>` from being an arrow. -/
theorem arrows_tokenize_spaced :
  Separable arrows
    ∧ Spaced [⟨.atom, "P"⟩, ⟨.connective .disjunction, "_1"⟩, ⟨.negation, "-"⟩,
        ⟨.connective .conjunction, ">"⟩] "P _1 -\u3000>".toList
    ∧ arrows.tokenize " P _1 -\u3000>"
      = .ok [⟨.atom, "P"⟩, ⟨.connective .disjunction, "_1"⟩, ⟨.negation, "-"⟩,
        ⟨.connective .conjunction, ">"⟩]
  := by
  have hspace : Blank [' '] := by simp [Blank, Text.isBlank, Text.blankRanges]
  have hwide : Blank ['\u3000'] := by simp [Blank, Text.isBlank, Text.blankRanges]
  have hspaced : Spaced [⟨.atom, "P"⟩, ⟨.connective .disjunction, "_1"⟩, ⟨.negation, "-"⟩,
      ⟨.connective .conjunction, ">"⟩] "P _1 -\u3000>".toList := by
    have hlast := Spaced.nil.cons (t := ⟨.connective .conjunction, ">"⟩) blank_nil (by simp)
    have hminus := hlast.cons (t := ⟨.negation, "-"⟩) hwide (by simp)
    have hsubscript := hminus.cons (t := ⟨.connective .disjunction, "_1"⟩) hspace (by simp)
    apply hsubscript.cons (t := ⟨.atom, "P"⟩) hspace (by simp)
  have hwritable : ∀ t ∈ [(⟨.atom, "P"⟩ : Token), ⟨.connective .disjunction, "_1"⟩,
      ⟨.negation, "-"⟩, ⟨.connective .conjunction, ">"⟩], Writable arrows t := by
    simp only [Writable]
    decide
  use separable_arrows, hspaced
  apply (tokenize_spaced arrows).1 separable_arrows _ [' '] _ hwritable hspace hspaced

end Vocabulary

end Sentential

import Sentential.Proofs.Vocabulary.Lexeme
import Mathlib.Data.List.TakeWhile

/-!
# Splitting a text

`Splits v cs ts` says that the text `cs` consists of the tokens `ts`, each of them the lexeme
at its place, with blanks between, before and behind them.  A text that a scan reads to its end
splits into the tokens read.  If no spelling begins with a blank, a text splits in one way only,
and a scan finds it.
-/

namespace Sentential

namespace Vocabulary

variable {v : Vocabulary} {cs rest w : List Char} {t : Token} {ts : List Token}

/-- Characters that are all blank. -/
def Blank (w : List Char) : Prop := ∀ c ∈ w, Text.isBlank c = true

instance (w : List Char) : Decidable (Blank w) :=
  decidable_of_iff (w.all Text.isBlank = true) List.all_eq_true

/-- A text that consists of tokens with blanks about them. -/
inductive Splits (v : Vocabulary) : List Char → List Token → Prop
  | blank {w : List Char} (hw : Blank w) : Splits v w []
  | token {w cs : List Char} {t : Token} {ts : List Token} (hw : Blank w)
      (ht : Lexeme v (t.text.toList ++ cs) t) (h : Splits v cs ts) :
      Splits v (w ++ (t.text.toList ++ cs)) (t :: ts)

/-! ### Blanks -/

theorem blank_nil :
  Blank []
  := by
  simp [Blank]

theorem blank_append {w' : List Char} (hw : Blank w) (hw' : Blank w') :
  Blank (w ++ w')
  := by
  intro c hc
  rcases List.mem_append.mp hc with hc | hc
  · apply hw c hc
  · apply hw' c hc

theorem dropBlanks_append (hw : Blank w) (cs : List Char) :
  Text.dropBlanks (w ++ cs) = Text.dropBlanks cs
  := List.dropWhile_append_of_pos hw

/-- The blanks that begin a text. -/
theorem exists_blank_append_dropBlanks (cs : List Char) :
  ∃ w, Blank w ∧ cs = w ++ Text.dropBlanks cs
  := by
  use cs.takeWhile Text.isBlank
  constructor
  · intro c hc
    apply List.all_eq_true.mp List.all_takeWhile c hc
  · symm
    apply List.takeWhile_append_dropWhile

theorem dropBlanks_eq_nil_iff :
  Text.dropBlanks cs = [] ↔ Blank cs
  := List.dropWhile_eq_nil_iff

/-- A text is trimmed to nothing when it is blank. -/
theorem trim_eq_nil_iff :
  Text.trim cs = [] ↔ Blank cs
  := by
  obtain ⟨w, hw, hcs⟩ := exists_blank_append_dropBlanks cs
  rw [Text.trim, Text.dropFinalBlanks, List.reverse_eq_nil_iff, dropBlanks_eq_nil_iff]
  constructor
  · intro h
    rw [hcs]
    apply blank_append hw
    intro c hc
    apply h c (List.mem_reverse.mpr hc)
  · intro h c hc
    apply h c
    rw [hcs]
    apply List.mem_append_right w (List.mem_reverse.mp hc)

theorem unknown?_eq_none_iff :
  v.unknown? cs = none ↔ Blank (v.stretch cs)
  := by
  rw [← trim_eq_nil_iff, unknown?]
  split
  · simp [*]
  · simp [*]

/-- Blanks before a text may be taken as part of it. -/
theorem Splits.blank_append (hw : Blank w) (h : Splits v cs ts) :
  Splits v (w ++ cs) ts
  := by
  cases h with
  | blank hw' =>
      apply Splits.blank
      apply Vocabulary.blank_append hw hw'
  | token hw' ht h =>
      rw [← List.append_assoc]
      apply Splits.token (Vocabulary.blank_append hw hw') ht h

/-- A text that splits into tokens goes on where a lexeme stands before it. -/
theorem Splits.cons (h : Splits v cs ts)
    (ht : Lexeme v (t.text.toList ++ cs) t) :
  Splits v (t.text.toList ++ cs) (t :: ts)
  := Splits.token (w := []) blank_nil ht h

/-! ### What a scan reads -/

/-- The token found at a place is the lexeme behind some blanks. -/
theorem exists_blank_of_token? (h : v.token? cs = some (t, rest)) :
  ∃ w, Blank w ∧ cs = w ++ (t.text.toList ++ rest) ∧ Lexeme v (t.text.toList ++ rest) t
  := by
  induction cs with
  | nil => cases h
  | cons c cs ih =>
      rw [token?] at h
      split at h
      · rename_i found hfound
        cases h
        split at hfound
        · rename_i hc
          obtain ⟨w, hw, rfl, ht⟩ := ih hfound
          refine ⟨c :: w, ?_, rfl, ht⟩
          rw [Blank, List.forall_mem_cons]
          exact ⟨hc, hw⟩
        · cases hfound
      · obtain ⟨ht, hcs⟩ := lexeme?_eq_some_iff.mp h
        refine ⟨[], blank_nil, hcs, ?_⟩
        rw [← hcs]
        apply ht

/-- A stretch of blanks is the whole text, since it ends at a place that is not blank. -/
theorem stretch_eq_of_blank (h : Blank (v.stretch cs)) :
  v.stretch cs = cs
  := by
  induction cs with
  | nil => rfl
  | cons c cs ih =>
      rw [stretch] at h ⊢
      split at h
      · rename_i hc
        simp only [Blank, List.forall_mem_singleton] at h
        simp [h] at hc
      · rename_i hc
        rw [if_neg hc, ih fun d hd => h d (List.mem_cons_of_mem c hd)]

/-- A text without an unknown stretch splits into the tokens that a scan reads. -/
theorem splits_of_scan (h : (v.scan cs).unknown? = none) :
  Splits v cs (v.scan cs).tokens
  := by
  induction hn : cs.length using Nat.strongRecOn generalizing cs with
  | ind n ih =>
      subst hn
      cases htoken : v.token? cs with
      | none =>
          rw [scan_of_token?_eq_none htoken] at h ⊢
          have hblank := unknown?_eq_none_iff.mp h
          rw [stretch_eq_of_blank hblank] at hblank
          apply Splits.blank hblank
      | some p =>
          obtain ⟨t, rest⟩ := p
          rw [scan_of_token?_eq_some htoken] at h ⊢
          obtain ⟨w, hw, rfl, ht⟩ := exists_blank_of_token? htoken
          apply Splits.token hw ht
          obtain ⟨w', hw', hrest⟩ := exists_blank_append_dropBlanks rest
          have hlt := Nat.lt_of_le_of_lt (Text.length_dropBlanks_le rest) (length_lt_of_token? htoken)
          have hsplits := (ih _ hlt h rfl).blank_append hw'
          rw [← hrest] at hsplits
          apply hsplits

/-! ### What splits is read -/

/-- No spelling begins with a blank. -/
def Tight (v : Vocabulary) : Prop :=
  ∀ e ∈ v.entries, ∀ c ∈ e.spelling.toList.head?, Text.isBlank c = false

/-- Whether no spelling begins with a blank can be computed. -/
theorem all_head?_iff_tight :
  (v.entries.all fun e => e.spelling.toList.head?.all fun c => !Text.isBlank c) = true ↔ Tight v
  := by
  simp [Tight, Option.all_eq_true]

instance (v : Vocabulary) : Decidable (Tight v) := decidable_of_iff _ all_head?_iff_tight

/-- The spellings of the usual vocabulary begin with neither a blank nor the letter of a name. -/
theorem head?_of_standard {e : Entry} (he : e ∈ standard.entries) {c : Char}
    (hc : c ∈ e.spelling.toList.head?) :
  Text.isBlank c = false ∧ AtomName.isLetter c = false
  := by
  have hall : (standard.entries.all fun e => e.spelling.toList.head?.all fun c =>
      !Text.isBlank c && !AtomName.isLetter c) = true := by decide
  have hhead := List.all_eq_true.mp hall e he
  rw [Option.mem_def.mp hc] at hhead
  simpa using hhead

theorem tight_standard :
  Tight standard
  := fun _ he _ hc => (head?_of_standard he hc).1

theorem unlettered_standard :
  Unlettered standard
  := fun _ he _ hc => (head?_of_standard he hc).2

/-- The letter of an atom name is not blank. -/
theorem isBlank_of_isLetter {c : Char} (h : AtomName.isLetter c = true) :
  Text.isBlank c = false
  := by
  simp only [AtomName.isLetter, Bool.and_eq_true, decide_eq_true_eq] at h
  have hlower : 80 ≤ c.toNat := h.1
  have hupper : c.toNat ≤ 90 := h.2
  apply Text.isBlank_of_mem_range
  · omega
  · omega

/-- A lexeme begins with a character that is not blank. -/
theorem Lexeme.exists_cons (hv : Tight v) (h : Lexeme v cs t) :
  ∃ c ds, t.text.toList = c :: ds ∧ Text.isBlank c = false
  := by
  cases h with
  | @spelling e he _ _ =>
      have hlength := Text.length_pos_of_isBlankText_eq_false (v.nonblank e he)
      cases hs : e.spelling.toList with
      | nil => simp [hs] at hlength
      | cons c ds =>
          refine ⟨c, ds, rfl, ?_⟩
          apply hv e he
          rw [hs]
          rfl
  | name _ hname _ _ =>
      obtain ⟨c, ds, hds, hc, -⟩ := AtomName.exists_cons_of_isName hname
      exact ⟨c, ds, hds, isBlank_of_isLetter hc⟩

/-- A lexeme is not blank, whichever vocabulary it is of. -/
theorem Lexeme.isBlankText_eq_false (h : Lexeme v cs t) :
  Text.isBlankText t.text = false
  := by
  cases h with
  | spelling he _ _ => apply v.nonblank _ he
  | name _ hname _ _ =>
      obtain ⟨c, ds, hds, hc, -⟩ := AtomName.exists_cons_of_isName hname
      simp [Text.isBlankText, hds, isBlank_of_isLetter hc]

/-- A text that splits into tokens, and into some, is not blank. -/
theorem Splits.isBlankText_eq_false {text : String} (h : Splits v text.toList ts) (hne : ts ≠ []) :
  Text.isBlankText text = false
  := by
  generalize hcs : text.toList = cs at h
  cases h with
  | blank _ => cases hne rfl
  | token _ ht _ =>
      have hblank := ht.isBlankText_eq_false
      rw [Text.isBlankText] at hblank
      rw [Text.isBlankText, hcs, List.all_append, List.all_append, hblank]
      simp

theorem dropBlanks_of_lexeme (hv : Tight v) (hw : Blank w)
    (h : Lexeme v (t.text.toList ++ cs) t) :
  Text.dropBlanks (w ++ (t.text.toList ++ cs)) = t.text.toList ++ cs
  := by
  obtain ⟨c, ds, hds, hc⟩ := h.exists_cons hv
  rw [dropBlanks_append hw, hds]
  simp [Text.dropBlanks, hc]

theorem splits_nil_iff :
  Splits v cs [] ↔ Blank cs
  := by
  constructor
  · rintro ⟨hw⟩
    apply hw
  · apply Splits.blank

/-- The tokens of a text can be taken off it one after the other, with the blanks before each. -/
theorem splits_cons_iff (hv : Tight v) :
  Splits v cs (t :: ts)
    ↔ Lexeme v (Text.dropBlanks cs) t ∧ Splits v ((Text.dropBlanks cs).drop t.text.length) ts
  := by
  constructor
  · rintro (_ | ⟨hw, ht, h⟩)
    rw [dropBlanks_of_lexeme hv hw ht, ← String.length_toList, List.drop_left]
    exact ⟨ht, h⟩
  · rintro ⟨ht, h⟩
    obtain ⟨w, hw, hcs⟩ := exists_blank_append_dropBlanks cs
    have hfront := append_drop_of_isPrefix ht.isPrefix
    rw [String.length_toList] at hfront
    rw [hcs, hfront]
    rw [hfront] at ht
    apply Splits.token hw ht h

/-- Behind blanks, the token found is the lexeme. -/
theorem token?_of_lexeme (hv : Tight v) (hw : Blank w) (h : Lexeme v (t.text.toList ++ cs) t) :
  v.token? (w ++ (t.text.toList ++ cs)) = some (t, cs)
  := by
  have hlexeme := lexeme?_eq_some_iff.mpr ⟨h, rfl⟩
  induction w with
  | nil =>
      obtain ⟨c, ds, hds, hc⟩ := h.exists_cons hv
      rw [hds] at hlexeme ⊢
      simp only [List.nil_append, List.cons_append, token?, hc] at hlexeme ⊢
      apply hlexeme
  | cons c w ih =>
      rw [Blank, List.forall_mem_cons] at hw
      rw [List.cons_append, token?, if_pos hw.1, ih hw.2]

theorem token?_of_blank (hv : Tight v) (hw : Blank w) :
  v.token? w = none
  := by
  induction w with
  | nil => rfl
  | cons c w ih =>
      rw [Blank, List.forall_mem_cons] at hw
      rw [token?, if_pos hw.1, ih hw.2]
      cases hlexeme : v.lexeme? (c :: w) with
      | none => rfl
      | some p =>
          obtain ⟨t, rest⟩ := p
          obtain ⟨h, hcs⟩ := lexeme?_eq_some_iff.mp hlexeme
          obtain ⟨d, ds, hds, hd⟩ := h.exists_cons hv
          rw [hds] at hcs
          cases hcs
          rw [hw.1] at hd
          cases hd

theorem stretch_of_blank (hw : Blank w) :
  v.stretch w = w
  := by
  induction w with
  | nil => rfl
  | cons c w ih =>
      rw [Blank, List.forall_mem_cons] at hw
      rw [stretch, ih hw.2]
      simp [hw.1]

/-- The blanks that begin a text that splits do not matter, and a scan reads its tokens. -/
theorem scan_of_splits (hv : Tight v) (h : Splits v cs ts) :
  v.scan cs = ⟨ts, none⟩ ∧ v.scan (Text.dropBlanks cs) = ⟨ts, none⟩
  := by
  induction h with
  | @blank w hw =>
      have hblank : ∀ {w : List Char}, Blank w → v.scan w = ⟨[], none⟩ := by
        intro w hw
        rw [scan_of_token?_eq_none (token?_of_blank hv hw), unknown?_eq_none_iff.mpr]
        rw [stretch_of_blank hw]
        apply hw
      rw [dropBlanks_eq_nil_iff.mpr hw]
      exact ⟨hblank hw, hblank blank_nil⟩
  | @token w cs t ts hw ht _ ih =>
      have hscan : ∀ {w : List Char}, Blank w →
          v.scan (w ++ (t.text.toList ++ cs)) = ⟨t :: ts, none⟩ := by
        intro w hw
        rw [scan_of_token?_eq_some (token?_of_lexeme hv hw ht), ih.2]
      rw [dropBlanks_of_lexeme hv hw ht]
      exact ⟨hscan hw, hscan (w := []) blank_nil⟩

/-- A text that splits into tokens is split into them. -/
theorem tokenize_of_splits (hv : Tight v) {text : String} (h : Splits v text.toList ts) :
  v.tokenize text = .ok ts
  := by
  rw [tokenize, (scan_of_splits hv h).1]

/-- A text that is split into tokens splits into them. -/
theorem splits_of_tokenize {text : String} (h : v.tokenize text = .ok ts) :
  Splits v text.toList ts
  := by
  rw [tokenize] at h
  split at h
  · rename_i hunknown
    cases h
    apply splits_of_scan hunknown
  · cases h

theorem isBlankText_of_tokenize {text : String} (h : v.tokenize text = .ok ts) (hne : ts ≠ []) :
  Text.isBlankText text = false
  := (splits_of_tokenize h).isBlankText_eq_false hne

/-- The atoms among the tokens of a text have atom names. -/
theorem Splits.isAtomName (h : Splits v cs ts) (ht : t ∈ ts) (hkind : t.kind = .atom) :
  IsAtomName t.text
  := by
  induction h with
  | blank _ => cases ht
  | token _ hlexeme _ ih =>
      rcases List.mem_cons.mp ht with rfl | ht
      · apply hlexeme.isAtomName hkind
      · apply ih ht

/-! ### Texts and their tokens -/

/-- A text that is split into tokens consists of them and of blanks, each token the lexeme at its
place.  If no spelling begins with a blank, as in the usual vocabulary, a text that consists of
lexemes and blanks is split into these lexemes. -/
theorem tokenize_lossless (v : Vocabulary) (text : String) (ts : List Token) :
  (v.tokenize text = .ok ts → Splits v text.toList ts)
    ∧ (Tight v → Splits v text.toList ts → v.tokenize text = .ok ts)
    ∧ Tight standard
  := by
  refine ⟨?_, ?_, tight_standard⟩
  · apply splits_of_tokenize
  · intro hv
    apply tokenize_of_splits hv

/-- A vocabulary of words, one of which begins another and goes on with a blank. -/
def words : Vocabulary where
  entries := [⟨"not", .negation⟩, ⟨"and", .connective .conjunction⟩,
    ⟨"and then", .connective .implication⟩]
  nodup := by decide
  nonblank := by decide
  not_atom := by decide

theorem words_tokenize_lossless :
  words.tokenize "P and then not Q_1"
      = .ok [⟨.atom, "P"⟩, ⟨.connective .implication, "and then"⟩, ⟨.negation, "not"⟩,
          ⟨.atom, "Q_1"⟩]
    ∧ Splits words "P and then not Q_1".toList
        [⟨.atom, "P"⟩, ⟨.connective .implication, "and then"⟩, ⟨.negation, "not"⟩, ⟨.atom, "Q_1"⟩]
    ∧ Tight words
  := by
  have htight : Tight words := by decide
  have hsplits : Splits words "P and then not Q_1".toList
      [⟨.atom, "P"⟩, ⟨.connective .implication, "and then"⟩, ⟨.negation, "not"⟩,
        ⟨.atom, "Q_1"⟩] := by
    simp only [splits_cons_iff htight, splits_nil_iff]
    decide
  use (tokenize_lossless _ _ _).2.1 htight hsplits, hsplits, htight

end Vocabulary

end Sentential

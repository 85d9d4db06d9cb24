import Sentential.Vocabulary.Scan
import Mathlib.Data.List.Nodup
import Mathlib.Data.List.Sort

/-!
# Lexemes

The lexeme at a place in a text is the longest spelling that begins there or, where none does,
the longest atom name.  `Lexeme v cs t` says so without telling how it is found.  It is found by
trying the spellings in their order: since longer ones come before shorter ones, the first that
begins at the place is the longest.
-/

namespace Sentential

/-! ### The longest name -/

namespace AtomName

/-- A name is a letter and a subscript, which may be empty. -/
theorem exists_cons_of_isName {name : List Char} (h : isName name = true) :
  ∃ c ds, name = c :: ds ∧ isLetter c = true ∧ isSubscript ds = true
  := by
  cases name with
  | nil => cases h
  | cons c ds =>
      rw [isName, Bool.and_eq_true] at h
      use c, ds, rfl, h.1, h.2

/-- A subscript that is not empty is an underscore with digits. -/
theorem eq_nil_or_of_isSubscript {ds : List Char} (h : isSubscript ds = true) :
  ds = [] ∨ ∃ e es, ds = '_' :: e :: es ∧ ∀ d ∈ e :: es, d.isDigit = true
  := by
  rcases ds with _ | ⟨u, _ | ⟨e, es⟩⟩
  · exact .inl rfl
  · cases h
  · rw [isSubscript, Bool.and_eq_true, beq_iff_eq] at h
    obtain ⟨rfl, hdigits⟩ := h
    right
    use e, es, rfl
    apply List.all_eq_true.mp hdigits

/-- Behind its letter, a name has underscores and digits only. -/
theorem of_mem_tail {c d : Char} {ds : List Char} (h : isName (c :: ds) = true) (hd : d ∈ ds) :
  d = '_' ∨ d.isDigit = true
  := by
  rw [isName, Bool.and_eq_true] at h
  obtain rfl | ⟨e, es, rfl, hdigits⟩ := eq_nil_or_of_isSubscript h.2
  · cases hd
  · rcases List.mem_cons.mp hd with rfl | hd
    · exact .inl rfl
    · exact .inr (hdigits d hd)

/-- Every subscript that begins a text is a part of the longest one. -/
theorem prefix_leadingSubscript {cs ds : List Char} (h : isSubscript ds = true) (hds : ds <+: cs) :
  ds <+: leadingSubscript cs
  := by
  obtain rfl | ⟨e, es, rfl, hdigits⟩ := eq_nil_or_of_isSubscript h
  · apply List.nil_prefix
  · obtain ⟨rest, rfl⟩ := hds
    have htake : (e :: es ++ rest).takeWhile Char.isDigit = e :: es ++ rest.takeWhile Char.isDigit :=
      List.takeWhile_append_of_pos hdigits
    simp only [List.cons_append, leadingSubscript, if_true] at htake ⊢
    rw [htake]
    apply List.prefix_append ('_' :: e :: es)

/-- Every name that begins a text is a part of the one found. -/
theorem exists_leading?_of_isName {cs name : List Char} (h : isName name = true)
    (hname : name <+: cs) :
  ∃ name', leading? cs = some name' ∧ name <+: name'
  := by
  obtain ⟨c, ds, rfl, hc, hds⟩ := exists_cons_of_isName h
  obtain ⟨rest, rfl⟩ := hname
  rw [List.cons_append, leading?, if_pos hc]
  refine ⟨_, rfl, ?_⟩
  rw [List.cons_prefix_cons]
  exact ⟨rfl, prefix_leadingSubscript hds (List.prefix_append ds rest)⟩

/-- The name found is the longest that begins a text. -/
theorem leading?_eq_some_iff {cs name : List Char} :
  leading? cs = some name ↔ isName name = true ∧ name <+: cs
    ∧ ∀ name', isName name' = true → name' <+: cs → name'.length ≤ name.length
  := by
  constructor
  · intro h
    refine ⟨isName_of_leading? h, isPrefix_of_leading? h, ?_⟩
    intro name' hname' hfront
    obtain ⟨name'', hleading, hle⟩ := exists_leading?_of_isName hname' hfront
    rw [h] at hleading
    cases hleading
    apply hle.length_le
  · rintro ⟨hname, hfront, hlongest⟩
    obtain ⟨name', hleading, hle⟩ := exists_leading?_of_isName hname hfront
    have hlength := hlongest name' (isName_of_leading? hleading) (isPrefix_of_leading? hleading)
    rw [hleading, hle.eq_of_length_le hlength]

theorem leading?_eq_some_toList_iff {cs : List Char} {s : String} :
  leading? cs = some s.toList ↔ IsAtomName s ∧ s.toList <+: cs
    ∧ ∀ s' : String, IsAtomName s' → s'.toList <+: cs → s'.length ≤ s.length
  := by
  rw [leading?_eq_some_iff]
  constructor
  · rintro ⟨hname, hfront, hlongest⟩
    refine ⟨hname, hfront, ?_⟩
    intro s' hs' hfront'
    rw [← String.length_toList, ← String.length_toList]
    apply hlongest _ hs' hfront'
  · rintro ⟨hname, hfront, hlongest⟩
    refine ⟨hname, hfront, ?_⟩
    intro name' hname' hfront'
    have hle := hlongest (String.ofList name')
    rw [IsAtomName, String.toList_ofList, String.length_ofList] at hle
    rw [String.length_toList]
    apply hle hname' hfront'

/-- A text that does not go on with an underscore or a digit, and so ends the names before it. -/
def EndsName (cs : List Char) : Prop := ∀ c ∈ cs.head?, c ≠ '_' ∧ c.isDigit = false

theorem leading?_append {name cs : List Char} (h : isName name = true) (hcs : EndsName cs) :
  leading? (name ++ cs) = some name
  := by
  obtain ⟨name', hleading, ds, rfl⟩ := exists_leading?_of_isName h (List.prefix_append name cs)
  rw [hleading]
  cases ds with
  | nil => rw [List.append_nil]
  | cons d ds =>
      obtain ⟨rest, hrest⟩ := isPrefix_of_leading? hleading
      rw [List.append_assoc, List.append_cancel_left_eq] at hrest
      subst hrest
      obtain ⟨hne, hdigit⟩ := hcs d rfl
      obtain ⟨c, name, rfl, -, -⟩ := exists_cons_of_isName h
      have hmem : d ∈ name ++ d :: ds := by simp
      rcases of_mem_tail (isName_of_leading? hleading) hmem with hd | hd
      · cases hne hd
      · rw [hdigit] at hd
        cases hd

end AtomName

namespace Vocabulary

/-! ### The order of the spellings -/

theorem listedBefore_iff {s t : String} :
  listedBefore s t = true ↔ t.length < s.length ∨ s.length = t.length ∧ s ≤ t
  := by
  simp [listedBefore]

theorem listedBefore_trans {s t u : String} (hst : listedBefore s t = true)
    (htu : listedBefore t u = true) :
  listedBefore s u = true
  := by
  rw [listedBefore_iff] at hst htu ⊢
  rcases hst with hst | ⟨hst, hle⟩
  · omega
  · rcases htu with htu | ⟨htu, hle'⟩
    · omega
    · exact .inr ⟨hst.trans htu, String.le_trans hle hle'⟩

theorem listedBefore_total (s t : String) :
  (listedBefore s t || listedBefore t s) = true
  := by
  rw [Bool.or_eq_true, listedBefore_iff, listedBefore_iff]
  rcases String.le_total s t with hle | hle
  · simp only [hle, and_true]
    omega
  · simp only [hle, and_true]
    omega

theorem listedBefore_antisymm {s t : String} (hst : listedBefore s t = true)
    (hts : listedBefore t s = true) :
  s = t
  := by
  rw [listedBefore_iff] at hst hts
  rcases hst with hst | ⟨hst, hle⟩
  · omega
  · rcases hts with hts | ⟨hts, hle'⟩
    · omega
    · apply String.le_antisymm hle hle'

theorem pairwise_longestFirst (v : Vocabulary) :
  v.longestFirst.Pairwise fun s t => listedBefore s t = true
  := by
  apply List.pairwise_mergeSort
  · intro s t u
    apply listedBefore_trans
  · apply listedBefore_total

theorem length_le_of_listedBefore {s t : String} (h : listedBefore s t = true) :
  t.length ≤ s.length
  := by
  rw [listedBefore_iff] at h
  omega

/-! ### The longest spelling -/

variable {v : Vocabulary} {cs rest : List Char} {s : String} {t : Token}

theorem leadingSpelling?_eq_none_iff :
  v.leadingSpelling? cs = none ↔ ∀ f ∈ v.entries, ¬ f.spelling.toList <+: cs
  := by
  rw [leadingSpelling?, List.find?_eq_none]
  simp

/-- The first spelling that begins a text is the longest: those listed before it do not begin the
text, and those behind it are not longer. -/
theorem length_le_of_leadingSpelling? {f : Entry} (h : v.leadingSpelling? cs = some s)
    (hf : f ∈ v.entries) (hfront : f.spelling.toList <+: cs) :
  f.spelling.length ≤ s.length
  := by
  obtain ⟨-, before, behind, hlist, hbefore⟩ := List.find?_eq_some_iff_append.mp h
  have hmem : f.spelling ∈ before ++ s :: behind := by
    rw [← hlist, mem_longestFirst]
    apply List.mem_map_of_mem hf
  have hsorted := v.pairwise_longestFirst
  rw [hlist, List.pairwise_append, List.pairwise_cons] at hsorted
  rcases List.mem_append.mp hmem with hmem | hmem
  · have hnot := hbefore _ hmem
    rw [List.isPrefixOf_iff_prefix.mpr hfront] at hnot
    cases hnot
  · rcases List.mem_cons.mp hmem with heq | hmem
    · rw [heq]
    · apply length_le_of_listedBefore (hsorted.2.1.1 _ hmem)

theorem leadingSpelling?_eq_some_iff :
  v.leadingSpelling? cs = some s
    ↔ ∃ e ∈ v.entries, e.spelling = s ∧ s.toList <+: cs
      ∧ ∀ f ∈ v.entries, f.spelling.toList <+: cs → f.spelling.length ≤ s.length
  := by
  constructor
  · intro h
    obtain ⟨hmem, hfront⟩ := mem_of_leadingSpelling? h
    obtain ⟨e, he, hspelling⟩ := List.mem_map.mp hmem
    refine ⟨e, he, hspelling, hfront, ?_⟩
    intro f
    apply length_le_of_leadingSpelling? h
  · rintro ⟨e, he, rfl, hfront, hlongest⟩
    cases hfound : v.leadingSpelling? cs with
    | none => cases leadingSpelling?_eq_none_iff.mp hfound e he hfront
    | some s =>
        -- Both begin the text and neither is shorter, so that they are spelled alike.
        obtain ⟨hmem, hfront'⟩ := mem_of_leadingSpelling? hfound
        obtain ⟨f, hf, rfl⟩ := List.mem_map.mp hmem
        have hlength : f.spelling.toList.length = e.spelling.toList.length := by
          rw [String.length_toList, String.length_toList]
          apply Nat.le_antisymm
          · apply hlongest f hf hfront'
          · apply length_le_of_leadingSpelling? hfound he hfront
        rw [Option.some.injEq]
        apply String.toList_injective
        apply List.IsPrefix.eq_of_length _ hlength
        apply List.prefix_of_prefix_length_le hfront' hfront (Nat.le_of_eq hlength)

/-! ### The kind of a text -/

theorem eq_of_spelling_eq {e f : Entry} (he : e ∈ v.entries) (hf : f ∈ v.entries)
    (h : e.spelling = f.spelling) :
  e = f
  := List.inj_on_of_nodup_map v.nodup he hf h

theorem kind?_eq_some_iff {k : Token.Kind} :
  v.kind? s = some k ↔ ⟨s, k⟩ ∈ v.entries
  := by
  rw [kind?, Option.map_eq_some_iff]
  constructor
  · rintro ⟨e, he, rfl⟩
    have hspelling := List.find?_some he
    rw [decide_eq_true_eq] at hspelling
    rw [← hspelling]
    apply List.mem_of_find?_eq_some he
  · intro h
    cases hfind : v.entries.find? fun e => decide (e.spelling = s) with
    | none => simpa using List.find?_eq_none.mp hfind _ h
    | some e =>
        have hspelling := List.find?_some hfind
        rw [decide_eq_true_eq] at hspelling
        rw [eq_of_spelling_eq (List.mem_of_find?_eq_some hfind) h hspelling]
        use ⟨s, k⟩

theorem classify?_spelling {e : Entry} (he : e ∈ v.entries) :
  v.classify? e.spelling = some e.kind
  := by
  rw [classify?, kind?_eq_some_iff.mpr he]

/-- A name that no spelling is equal to is classified as an atom. -/
theorem classify?_name (hnone : s ∉ v.entries.map (·.spelling)) (hname : IsAtomName s) :
  v.classify? s = some .atom
  := by
  simp only [classify?, kind?_eq_none_iff.mpr hnone, if_pos hname]

/-! ### The lexeme -/

/-- The tokens whose lexeme begins a text. -/
inductive Lexeme (v : Vocabulary) (cs : List Char) : Token → Prop
  /-- The longest of the spellings that begin the text. -/
  | spelling {e : Entry} (he : e ∈ v.entries) (hfront : e.spelling.toList <+: cs)
      (hlongest : ∀ f ∈ v.entries, f.spelling.toList <+: cs →
        f.spelling.length ≤ e.spelling.length) :
      Lexeme v cs ⟨e.kind, e.spelling⟩
  /-- The longest of the names that begin the text, if no spelling does. -/
  | name {s : String} (hnone : ∀ f ∈ v.entries, ¬ f.spelling.toList <+: cs) (hname : IsAtomName s)
      (hfront : s.toList <+: cs)
      (hlongest : ∀ s' : String, IsAtomName s' → s'.toList <+: cs → s'.length ≤ s.length) :
      Lexeme v cs ⟨.atom, s⟩

/-- No spelling is for atoms, so the text of an atom is an atom name. -/
theorem Lexeme.isAtomName (h : Lexeme v cs t) (ht : t.kind = .atom) :
  IsAtomName t.text
  := by
  cases h with
  | spelling he _ _ => cases v.not_atom _ he ht
  | name _ hname _ _ => apply hname

theorem leading?_eq_none_iff :
  v.leading? cs = none ↔ v.leadingSpelling? cs = none ∧ AtomName.leading? cs = none
  := by
  rw [leading?]
  cases v.leadingSpelling? cs with
  | none => simp
  | some s => simp

theorem Lexeme.isPrefix (h : Lexeme v cs t) :
  t.text.toList <+: cs
  := by
  cases h with
  | spelling _ hfront _ => apply hfront
  | name _ _ hfront _ => apply hfront

/-- The kind of a lexeme is that of its text. -/
theorem Lexeme.classify?_eq_some (h : Lexeme v cs t) :
  v.classify? t.text = some t.kind
  := by
  cases h with
  | spelling he _ _ => apply classify?_spelling he
  | name hnone hname hfront _ =>
      apply classify?_name _ hname
      intro hmem
      obtain ⟨e, he, rfl⟩ := List.mem_map.mp hmem
      apply hnone e he hfront

theorem Lexeme.leading?_eq_some (h : Lexeme v cs t) :
  v.leading? cs = some t.text
  := by
  cases h with
  | spelling he hfront hlongest =>
      rw [leading?, leadingSpelling?_eq_some_iff.mpr ⟨_, he, rfl, hfront, hlongest⟩]
  | name hnone hname hfront hlongest =>
      have hleading := AtomName.leading?_eq_some_toList_iff.mpr ⟨hname, hfront, hlongest⟩
      rw [leading?, leadingSpelling?_eq_none_iff.mpr hnone]
      simp only [hleading, Option.map_some, String.ofList_toList]

/-- The text found at the front of a text is that of its lexeme. -/
theorem exists_lexeme_of_leading? (h : v.leading? cs = some s) :
  ∃ k, Lexeme v cs ⟨k, s⟩
  := by
  rw [leading?] at h
  split at h
  · rename_i hs
    cases h
    obtain ⟨e, he, rfl, hfront, hlongest⟩ := leadingSpelling?_eq_some_iff.mp hs
    use e.kind
    apply Lexeme.spelling he hfront hlongest
  · rename_i hs
    obtain ⟨name, hleading, rfl⟩ := Option.map_eq_some_iff.mp h
    rw [← String.toList_ofList (l := name)] at hleading
    obtain ⟨hname, hfront, hlongest⟩ := AtomName.leading?_eq_some_toList_iff.mp hleading
    use .atom
    apply Lexeme.name (leadingSpelling?_eq_none_iff.mp hs) hname hfront hlongest

/-- The text of a lexeme never fails to be classified. -/
theorem lexeme?_eq_none_iff :
  v.lexeme? cs = none ↔ v.leading? cs = none
  := by
  rw [lexeme?]
  cases hs : v.leading? cs with
  | none => simp
  | some s =>
      obtain ⟨k, h⟩ := exists_lexeme_of_leading? hs
      simp [h.classify?_eq_some]

theorem append_drop_of_isPrefix {as : List Char} (h : as <+: cs) :
  cs = as ++ cs.drop as.length
  := by
  obtain ⟨rest, rfl⟩ := h
  rw [List.drop_left]

/-- The token at the front of a text is its lexeme, and the text behind it is left. -/
theorem lexeme?_eq_some_iff :
  v.lexeme? cs = some (t, rest) ↔ Lexeme v cs t ∧ cs = t.text.toList ++ rest
  := by
  rw [lexeme?_eq_some_iff_leading?]
  constructor
  · rintro ⟨hleading, hkind, rfl⟩
    constructor
    · obtain ⟨k, h⟩ := exists_lexeme_of_leading? hleading
      rw [h.classify?_eq_some, Option.some.injEq] at hkind
      subst hkind
      apply h
    · rw [← String.length_toList]
      apply append_drop_of_isPrefix (length_pos_of_leading? hleading).2
  · rintro ⟨h, rfl⟩
    use h.leading?_eq_some, h.classify?_eq_some
    rw [← String.length_toList, List.drop_left]

/-- A token is the lexeme of a text if it is a spelling and no longer one begins the text, or if no
spelling begins the text and it is the name found there. -/
theorem lexeme_iff :
  Lexeme v cs t
    ↔ (⟨t.text, t.kind⟩ ∈ v.entries ∧ t.text.toList <+: cs
        ∧ ∀ f ∈ v.entries, f.spelling.toList <+: cs → f.spelling.length ≤ t.text.length)
      ∨ (∀ f ∈ v.entries, ¬ f.spelling.toList <+: cs) ∧ t.kind = .atom
        ∧ AtomName.leading? cs = some t.text.toList
  := by
  constructor
  · rintro (⟨he, hfront, hlongest⟩ | ⟨hnone, hname, hfront, hlongest⟩)
    · exact .inl ⟨he, hfront, hlongest⟩
    · exact .inr ⟨hnone, rfl, AtomName.leading?_eq_some_toList_iff.mpr ⟨hname, hfront, hlongest⟩⟩
  · obtain ⟨k, s⟩ := t
    rintro (⟨he, hfront, hlongest⟩ | ⟨hnone, rfl, hleading⟩)
    · apply Lexeme.spelling he hfront hlongest
    · obtain ⟨hname, hfront, hlongest⟩ := AtomName.leading?_eq_some_toList_iff.mp hleading
      apply Lexeme.name hnone hname hfront hlongest

instance (v : Vocabulary) (cs : List Char) (t : Token) : Decidable (Lexeme v cs t) :=
  decidable_of_iff _ lexeme_iff.symm

/-! ### Names and spellings -/

theorem head?_eq_of_isPrefix {as bs : List Char} (h : as <+: bs) (has : as ≠ []) :
  as.head? = bs.head?
  := by
  obtain ⟨cs, rfl⟩ := h
  rw [List.head?_append_of_ne_nil as has]

theorem toList_ne_nil {e : Entry} (he : e ∈ v.entries) :
  e.spelling.toList ≠ []
  := List.ne_nil_of_length_pos (Text.length_pos_of_isBlankText_eq_false (v.nonblank e he))

/-- No spelling begins with the letter of a name. -/
def Unlettered (v : Vocabulary) : Prop :=
  ∀ e ∈ v.entries, ∀ c ∈ e.spelling.toList.head?, AtomName.isLetter c = false

/-- If no spelling begins like a name, a name is the lexeme where it stands and ends. -/
theorem Unlettered.lexeme_name (hv : Unlettered v) {name : String} (h : IsAtomName name)
    (hcs : AtomName.EndsName cs) :
  Lexeme v (name.toList ++ cs) ⟨.atom, name⟩
  := by
  obtain ⟨-, -, hlongest⟩ := AtomName.leading?_eq_some_iff.mp (AtomName.leading?_append h hcs)
  refine Lexeme.name ?_ h (List.prefix_append name.toList cs) ?_
  · intro e he hfront
    obtain ⟨c, ds, hname, hc, -⟩ := AtomName.exists_cons_of_isName h
    have hmem : c ∈ e.spelling.toList.head? := by
      rw [head?_eq_of_isPrefix hfront (toList_ne_nil he), hname]
      rfl
    rw [hv e he c hmem] at hc
    cases hc
  · intro name' hname' hfront
    rw [← String.length_toList, ← String.length_toList]
    apply hlongest _ hname' hfront

end Vocabulary

end Sentential

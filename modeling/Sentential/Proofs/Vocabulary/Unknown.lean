import Sentential.Log.Reading
import Sentential.Proofs.Vocabulary.Splitting
import Mathlib.Data.List.Infix

/-!
# Unknown stretches

A text does not split into tokens when reading it from the left leads to a place that is not
blank and at which neither a spelling nor an atom name begins.  `Reaches v cs ts q` says that the
tokens `ts` are read from the text `cs` before the place `q`, `Stuck v q` that reading cannot go
on there, and `Unknown v q s w rest` that the text `s` is unknown from there on: it is what
precedes the next spelling or atom name, or the end of the text, without the blanks that end it.
If no spelling begins with a blank, the error of a text tells the unknown stretch at the place
where reading is stuck.
-/

namespace Sentential

namespace Vocabulary

variable {v : Vocabulary} {cs q rest rest' s s' w w' : List Char} {t : Token} {ts : List Token}

/-- What is left of a text when some tokens have been read from its front, each of them the lexeme
behind the blanks at its place. -/
inductive Reaches (v : Vocabulary) : List Char → List Token → List Char → Prop
  | blank {w q : List Char} (hw : Blank w) : Reaches v (w ++ q) [] q
  | token {w cs q : List Char} {t : Token} {ts : List Token} (hw : Blank w)
      (ht : Lexeme v (t.text.toList ++ cs) t) (h : Reaches v cs ts q) :
      Reaches v (w ++ (t.text.toList ++ cs)) (t :: ts) q

/-- A text that some spelling or some atom name begins. -/
def Opens (v : Vocabulary) (cs : List Char) : Prop :=
  (∃ e ∈ v.entries, e.spelling.toList <+: cs) ∨ ∃ name, IsAtomName name ∧ name.toList <+: cs

/-- A place that is not blank and at which neither a spelling nor an atom name begins. -/
def Stuck (v : Vocabulary) (q : List Char) : Prop :=
  (∃ c ∈ q.head?, Text.isBlank c = false) ∧ ¬ Opens v q

/-- At no place in the text `cs`, which `rest` follows, does a spelling or an atom name begin. -/
def Silent (v : Vocabulary) (cs rest : List Char) : Prop :=
  ∀ ds, ds <:+ cs → ds ≠ [] → ¬ Opens v (ds ++ rest)

/-- The text `s` that is unknown from the place `q` on.  Behind it are blanks `w` and then `rest`,
which is where the next spelling or atom name begins or where the text ends. -/
structure Unknown (v : Vocabulary) (q s w rest : List Char) : Prop where
  text : q = s ++ (w ++ rest)
  head : ∃ c ∈ s.head?, Text.isBlank c = false
  last : ∃ c ∈ s.getLast?, Text.isBlank c = false
  blank : Blank w
  silent : Silent v (s ++ w) rest
  next : rest = [] ∨ Opens v rest

/-! ### Places without a lexeme -/

/-- A lexeme stays the lexeme of every text that begins alike and that it fits into. -/
theorem Lexeme.of_isPrefix {as : List Char} (h : Lexeme v cs t) (has : as <+: cs)
    (ht : t.text.toList <+: as) :
  Lexeme v as t
  := by
  cases h with
  | spelling he _ hlongest =>
      apply Lexeme.spelling he ht
      intro f hf hfront
      apply hlongest f hf (hfront.trans has)
  | name hnone hname _ hlongest =>
      apply Lexeme.name _ hname ht
      · intro s' hs' hfront
        apply hlongest s' hs' (hfront.trans has)
      · intro f hf hfront
        apply hnone f hf (hfront.trans has)

theorem Lexeme.opens (h : Lexeme v cs t) :
  Opens v cs
  := by
  cases h with
  | spelling he hfront _ => exact .inl ⟨_, he, hfront⟩
  | name _ hname hfront _ => exact .inr ⟨_, hname, hfront⟩

/-- Where an atom name begins, the longest one is found. -/
theorem opens_iff :
  Opens v cs
    ↔ (∃ e ∈ v.entries, e.spelling.toList <+: cs) ∨ (AtomName.leading? cs).isSome = true
  := by
  rw [Option.isSome_iff_exists]
  constructor
  · rintro (hspelling | ⟨name, hname, hfront⟩)
    · exact .inl hspelling
    · obtain ⟨name', hleading, -⟩ := AtomName.exists_leading?_of_isName hname hfront
      exact .inr ⟨name', hleading⟩
  · rintro (hspelling | ⟨name, hleading⟩)
    · exact .inl hspelling
    · rw [← String.toList_ofList (l := name), AtomName.leading?_eq_some_toList_iff] at hleading
      exact .inr ⟨_, hleading.1, hleading.2.1⟩

instance (v : Vocabulary) (cs : List Char) : Decidable (Opens v cs) :=
  decidable_of_iff _ opens_iff.symm

instance (v : Vocabulary) (cs rest : List Char) : Decidable (Silent v cs rest) :=
  decidable_of_iff (∀ ds ∈ cs.tails, ds ≠ [] → ¬ Opens v (ds ++ rest)) (by simp [Silent])

/-- Where a spelling or an atom name begins, the longest of them is the lexeme. -/
theorem opens_iff_exists_lexeme :
  Opens v cs ↔ ∃ t, Lexeme v cs t
  := by
  constructor
  · intro h
    cases hleading : v.leading? cs with
    | some s =>
        obtain ⟨k, hlexeme⟩ := exists_lexeme_of_leading? hleading
        use ⟨k, s⟩
    | none =>
        rw [leading?_eq_none_iff, leadingSpelling?_eq_none_iff] at hleading
        rw [opens_iff, hleading.2] at h
        obtain ⟨e, he, hfront⟩ | hname := h
        · cases hleading.1 e he hfront
        · cases hname
  · rintro ⟨t, ht⟩
    apply ht.opens

theorem not_opens_of_blank (hv : Tight v) {c : Char} (hc : Text.isBlank c = true)
    (cs : List Char) :
  ¬ Opens v (c :: cs)
  := by
  rw [opens_iff_exists_lexeme]
  rintro ⟨t, ht⟩
  obtain ⟨d, ds, hds, hd⟩ := ht.exists_cons hv
  have hfront := ht.isPrefix
  rw [hds, List.cons_prefix_cons] at hfront
  rw [hfront.1, hc] at hd
  cases hd

/-- No token is found exactly where no spelling and no atom name begins behind the blanks. -/
theorem token?_eq_none_iff (hv : Tight v) :
  v.token? cs = none ↔ ¬ Opens v (Text.dropBlanks cs)
  := by
  rw [opens_iff_exists_lexeme]
  constructor
  · rintro h ⟨t, ht⟩
    obtain ⟨w, hw, hcs⟩ := exists_blank_append_dropBlanks cs
    obtain ⟨rest, hrest⟩ := ht.isPrefix
    rw [← hrest] at hcs ht
    rw [hcs, token?_of_lexeme hv hw ht] at h
    cases h
  · intro h
    cases htoken : v.token? cs with
    | none => rfl
    | some p =>
        obtain ⟨t, rest⟩ := p
        obtain ⟨w, hw, rfl, ht⟩ := exists_blank_of_token? htoken
        rw [dropBlanks_of_lexeme hv hw ht] at h
        cases h ⟨t, ht⟩

theorem dropBlanks_of_head {c : Char} (hc : c ∈ q.head?) (hblank : Text.isBlank c = false) :
  Text.dropBlanks q = q
  := by
  cases q with
  | nil => cases hc
  | cons d ds =>
      cases hc
      simp [Text.dropBlanks, hblank]

theorem Stuck.dropBlanks_append (h : Stuck v q) (hw : Blank w) :
  Text.dropBlanks (w ++ q) = q
  := by
  obtain ⟨⟨c, hc, hblank⟩, -⟩ := h
  rw [Vocabulary.dropBlanks_append hw, dropBlanks_of_head hc hblank]

/-! ### The stretch up to the next lexeme -/

theorem silent_nil :
  Silent v [] rest
  := by
  intro ds hds hne
  cases hne (List.suffix_nil.mp hds)

theorem Silent.cons {c : Char} (h : Silent v cs rest) (hno : ¬ Opens v (c :: cs ++ rest)) :
  Silent v (c :: cs) rest
  := by
  intro ds hds hne
  rcases List.suffix_cons_iff.mp hds with rfl | hds
  · apply hno
  · apply h ds hds hne

theorem silent_of_blank (hv : Tight v) (hw : Blank w) (rest : List Char) :
  Silent v w rest
  := by
  induction w with
  | nil => apply silent_nil
  | cons c w ih =>
      rw [Blank, List.forall_mem_cons] at hw
      apply (ih hw.2).cons
      apply not_opens_of_blank hv hw.1

/-- The stretch of a text that no token begins extends to the blanks before the next lexeme, or to
the end of the text. -/
theorem exists_next (hv : Tight v) (h : v.token? cs = none) :
  ∃ w rest, cs = v.stretch cs ++ (w ++ rest) ∧ Blank w ∧ Silent v (v.stretch cs ++ w) rest
    ∧ (rest = [] ∨ Opens v rest)
  := by
  induction cs with
  | nil => exact ⟨[], [], rfl, blank_nil, silent_nil, .inl rfl⟩
  | cons c cs ih =>
      have hno : ¬ Opens v (c :: cs) := by
        cases hc : Text.isBlank c with
        | true => apply not_opens_of_blank hv hc
        | false =>
            have hbehind := (token?_eq_none_iff hv).mp h
            rw [dropBlanks_of_head rfl hc] at hbehind
            apply hbehind
      cases htoken : v.token? cs with
      | none =>
          obtain ⟨w, rest, hcs, hw, hsilent, hnext⟩ := ih htoken
          have hstretch : v.stretch (c :: cs) = c :: v.stretch cs := by
            simp [stretch, htoken]
          rw [hstretch]
          refine ⟨w, rest, ?_, hw, ?_, hnext⟩
          · rw [List.cons_append, ← hcs]
          · apply hsilent.cons
            simpa [← hcs] using hno
      | some p =>
          obtain ⟨t, rest⟩ := p
          have hc : Text.isBlank c = false := by
            rw [← Bool.not_eq_true]
            intro hc
            rw [token?, if_pos hc, htoken] at h
            cases h
          obtain ⟨w, hw, rfl, ht⟩ := exists_blank_of_token? htoken
          have hstretch : v.stretch (c :: (w ++ (t.text.toList ++ rest))) = [c] := by
            simp [stretch, htoken, hc]
          rw [hstretch]
          refine ⟨w, t.text.toList ++ rest, rfl, hw, ?_, .inr ht.opens⟩
          apply (silent_of_blank hv hw _).cons
          simpa using hno

/-! ### The unknown stretch of a stuck place -/

theorem stretch_blank_append (hw : Blank w) (cs : List Char) :
  v.stretch (w ++ cs) = w ++ v.stretch cs
  := by
  induction w with
  | nil => rfl
  | cons c w ih =>
      rw [Blank, List.forall_mem_cons] at hw
      rw [List.cons_append, stretch, ih hw.2]
      simp [hw.1]

/-- Blanks before a stretch are no part of it. -/
theorem unknown?_blank_append (hw : Blank w) (cs : List Char) :
  v.unknown? (w ++ cs) = v.unknown? cs
  := by
  rw [unknown?, unknown?, stretch_blank_append hw, Text.trim, dropBlanks_append hw, ← Text.trim]

/-- The blanks that end a text. -/
theorem exists_dropFinalBlanks_append_blank (cs : List Char) :
  ∃ w, Blank w ∧ cs = Text.dropFinalBlanks cs ++ w
  := by
  obtain ⟨w, hw, hcs⟩ := exists_blank_append_dropBlanks cs.reverse
  use w.reverse
  constructor
  · intro c hc
    apply hw c (List.mem_reverse.mp hc)
  · rw [Text.dropFinalBlanks, ← List.reverse_append, ← hcs, List.reverse_reverse]

/-- What is left of a text that is not blank without the blanks that begin it. -/
theorem exists_head?_dropBlanks (h : ¬ Blank cs) :
  ∃ c ∈ (Text.dropBlanks cs).head?, Text.isBlank c = false
  := by
  have hhead := List.head?_dropWhile_not Text.isBlank cs
  rw [← Text.dropBlanks] at hhead
  cases hc : (Text.dropBlanks cs).head? with
  | some c =>
      rw [hc] at hhead
      use c, rfl, hhead
  | none =>
      rw [List.head?_eq_none_iff, dropBlanks_eq_nil_iff] at hc
      cases h hc

theorem exists_getLast?_dropFinalBlanks (h : ¬ Blank cs) :
  ∃ c ∈ (Text.dropFinalBlanks cs).getLast?, Text.isBlank c = false
  := by
  rw [Text.dropFinalBlanks, List.getLast?_reverse]
  apply exists_head?_dropBlanks
  intro hall
  apply h
  intro c hc
  apply hall c (List.mem_reverse.mpr hc)

theorem head?_stretch (v : Vocabulary) (cs : List Char) :
  (v.stretch cs).head? = cs.head?
  := by
  cases cs with
  | nil => rfl
  | cons c cs =>
      rw [stretch]
      split <;> rfl

theorem unknown?_eq_some (h : Text.trim (v.stretch cs) ≠ []) :
  v.unknown? cs = some (String.ofList (Text.trim (v.stretch cs)))
  := by
  rw [unknown?]
  split
  · rename_i hnil
    cases h hnil
  · rename_i hcons
    rw [hcons]

/-- Where reading is stuck, the text up to the next lexeme is unknown. -/
theorem Stuck.exists_unknown (hv : Tight v) (h : Stuck v q) :
  ∃ s w rest, v.unknown? q = some (String.ofList s) ∧ Unknown v q s w rest
  := by
  obtain ⟨⟨c, hc, hblank⟩, hno⟩ := h
  have htoken : v.token? q = none := by
    rw [token?_eq_none_iff hv, dropBlanks_of_head hc hblank]
    apply hno
  obtain ⟨w, rest, hq, hw, hsilent, hnext⟩ := exists_next hv htoken
  -- The stretch begins as the place does, so that blanks are trimmed from its end only.
  have hhead : c ∈ (v.stretch q).head? := by
    rw [head?_stretch]
    apply hc
  have htrim : Text.trim (v.stretch q) = Text.dropFinalBlanks (v.stretch q) := by
    rw [Text.trim, dropBlanks_of_head hhead hblank]
  have hlast : ∃ d ∈ (Text.trim (v.stretch q)).getLast?, Text.isBlank d = false := by
    rw [htrim]
    apply exists_getLast?_dropFinalBlanks
    intro hall
    rw [hall c (List.mem_of_mem_head? hhead)] at hblank
    cases hblank
  have hne : Text.trim (v.stretch q) ≠ [] := by
    intro hnil
    simp [hnil] at hlast
  obtain ⟨w', hw', hstretch⟩ := exists_dropFinalBlanks_append_blank (v.stretch q)
  rw [← htrim] at hstretch
  use Text.trim (v.stretch q), w' ++ w, rest, unknown?_eq_some hne
  exact
    { text := by rw [List.append_assoc, ← List.append_assoc, ← hstretch, ← hq]
      head := by
        use c
        rw [hstretch, List.head?_append_of_ne_nil _ hne] at hhead
        exact ⟨hhead, hblank⟩
      last := hlast
      blank := Vocabulary.blank_append hw' hw
      silent := by
        rw [← List.append_assoc, ← hstretch]
        apply hsilent
      next := hnext }

/-- At a place with an unknown stretch reading is stuck. -/
theorem Unknown.stuck (h : Unknown v q s w rest) :
  Stuck v q
  := by
  obtain ⟨c, hc, hblank⟩ := h.head
  have hne : s ≠ [] := by
    rintro rfl
    cases hc
  constructor
  · use c
    rw [h.text, List.head?_append_of_ne_nil s hne]
    exact ⟨hc, hblank⟩
  · rw [h.text, ← List.append_assoc]
    apply h.silent _ List.suffix_rfl (List.append_ne_nil_of_left_ne_nil hne w)

/-- No silent text goes on behind the place where the unknown stretch ends, since a lexeme begins
there or nothing is left. -/
theorem Unknown.eq_nil_of_append {as : List Char} (h : Unknown v q s w rest)
    (h' : Unknown v q s' w' rest') (has : s' ++ w' = s ++ w ++ as) :
  as = []
  := by
  by_contra hne
  have hsame : s ++ w ++ rest = s ++ w ++ (as ++ rest') := by
    rw [← List.append_assoc, ← has, List.append_assoc, List.append_assoc, ← h.text, ← h'.text]
  have hrest : rest = as ++ rest' := List.append_cancel_left hsame
  rcases h.next with hnil | hopens
  · rw [hnil] at hrest
    apply hne (List.append_eq_nil_iff.mp hrest.symm).1
  · rw [hrest] at hopens
    apply h'.silent as _ hne hopens
    rw [has]
    apply List.suffix_append

/-- The blanks behind a text that ends with none are the ones that are dropped. -/
theorem dropFinalBlanks_append (h : ∃ c ∈ s.getLast?, Text.isBlank c = false) (hw : Blank w) :
  Text.dropFinalBlanks (s ++ w) = s
  := by
  obtain ⟨c, hc, hblank⟩ := h
  have hhead : c ∈ s.reverse.head? := by
    rw [List.head?_reverse]
    apply hc
  have hw' : Blank w.reverse := by
    intro d hd
    apply hw d (List.mem_reverse.mp hd)
  rw [Text.dropFinalBlanks, List.reverse_append, Vocabulary.dropBlanks_append hw',
    dropBlanks_of_head hhead hblank, List.reverse_reverse]

/-- A place has one unknown stretch at most. -/
theorem Unknown.unique (h : Unknown v q s w rest) (h' : Unknown v q s' w' rest') :
  s = s'
  := by
  -- Both end before the same lexeme, and are left when the blanks there are taken away.
  have hsame : s ++ w = s' ++ w' := by
    have htext := h.text.symm.trans h'.text
    rw [← List.append_assoc, ← List.append_assoc] at htext
    obtain ⟨as, has, -⟩ | ⟨as, has, -⟩ := List.append_eq_append_iff.mp htext
    · rw [has, h.eq_nil_of_append h' has, List.append_nil]
    · rw [has, h'.eq_nil_of_append h has, List.append_nil]
  calc
    s = Text.dropFinalBlanks (s ++ w) := (dropFinalBlanks_append h.last h.blank).symm
    _ = Text.dropFinalBlanks (s' ++ w') := by rw [hsame]
    _ = s' := dropFinalBlanks_append h'.last h'.blank

/-! ### Reading up to a stuck place -/

/-- Blanks before a text do not keep reading from a place in it. -/
theorem Reaches.blank_append (hw : Blank w) (h : Reaches v cs ts q) :
  Reaches v (w ++ cs) ts q
  := by
  cases h with
  | blank hw' =>
      rw [← List.append_assoc]
      apply Reaches.blank (Vocabulary.blank_append hw hw')
  | token hw' ht h =>
      rw [← List.append_assoc]
      apply Reaches.token (Vocabulary.blank_append hw hw') ht h

/-- The text before a place that is reached splits into the tokens that are read. -/
theorem Reaches.exists_splits (h : Reaches v cs ts q) :
  ∃ before, cs = before ++ q ∧ Splits v before ts
  := by
  induction h with
  | @blank w q hw => exact ⟨w, rfl, Splits.blank hw⟩
  | @token w cs q t ts hw ht _ ih =>
      obtain ⟨before, rfl, hsplits⟩ := ih
      use w ++ (t.text.toList ++ before)
      constructor
      · simp only [List.append_assoc]
      · apply Splits.token hw _ hsplits
        apply ht.of_isPrefix
        · rw [← List.append_assoc]
          apply List.prefix_append
        · apply List.prefix_append

theorem scan_of_stuck (hv : Tight v) (hq : Stuck v q) (hw : Blank w) :
  v.scan (w ++ q) = ⟨[], v.unknown? q⟩
  := by
  rw [scan_of_token?_eq_none, unknown?_blank_append hw]
  rw [token?_eq_none_iff hv, hq.dropBlanks_append hw]
  apply hq.2

/-- A scan reads the tokens before a stuck place and ends there. -/
theorem scan_of_reaches (hv : Tight v) (h : Reaches v cs ts q) (hq : Stuck v q) :
  v.scan cs = ⟨ts, v.unknown? q⟩ ∧ v.scan (Text.dropBlanks cs) = ⟨ts, v.unknown? q⟩
  := by
  induction h with
  | blank hw =>
      rw [hq.dropBlanks_append hw]
      exact ⟨scan_of_stuck hv hq hw, scan_of_stuck hv hq (w := []) blank_nil⟩
  | @token w cs q t ts hw ht _ ih =>
      have hscan : ∀ {w}, Blank w →
          v.scan (w ++ (t.text.toList ++ cs)) = ⟨t :: ts, v.unknown? q⟩ := by
        intro w hw
        rw [scan_of_token?_eq_some (token?_of_lexeme hv hw ht), (ih hq).2]
      rw [dropBlanks_of_lexeme hv hw ht]
      exact ⟨hscan hw, hscan (w := []) blank_nil⟩

/-- A scan that ends with an unknown stretch has reached a stuck place. -/
theorem exists_reaches_of_scan (hv : Tight v) (h : (v.scan cs).unknown? ≠ none) :
  ∃ ts q, Reaches v cs ts q ∧ Stuck v q
  := by
  induction hn : cs.length using Nat.strongRecOn generalizing cs with
  | ind n ih =>
      subst hn
      cases htoken : v.token? cs with
      | none =>
          rw [scan_of_token?_eq_none htoken, ne_eq, unknown?_eq_none_iff] at h
          have hcs : ¬ Blank cs := by
            intro hall
            rw [stretch_of_blank hall] at h
            apply h hall
          obtain ⟨w, hw, hsplit⟩ := exists_blank_append_dropBlanks cs
          use [], Text.dropBlanks cs
          constructor
          · nth_rewrite 1 [hsplit]
            apply Reaches.blank hw
          · exact ⟨exists_head?_dropBlanks hcs, (token?_eq_none_iff hv).mp htoken⟩
      | some p =>
          obtain ⟨t, rest⟩ := p
          rw [scan_of_token?_eq_some htoken] at h
          obtain ⟨w, hw, rfl, ht⟩ := exists_blank_of_token? htoken
          have hlt := Nat.lt_of_le_of_lt (Text.length_dropBlanks_le rest) (length_lt_of_token? htoken)
          obtain ⟨ts, q, hreaches, hq⟩ := ih _ hlt h rfl
          obtain ⟨w', hw', hrest⟩ := exists_blank_append_dropBlanks rest
          use t :: ts, q
          constructor
          · apply Reaches.token hw ht
            rw [hrest]
            apply hreaches.blank_append hw'
          · apply hq

/-! ### The error of a text -/

/-- A text that leads to a place with an unknown stretch does not split into tokens, and the error
tells the stretch. -/
theorem tokenize_of_unknown (hv : Tight v) {text : String} (h : Reaches v text.toList ts q)
    (hq : Unknown v q s w rest) :
  v.tokenize text = .error (.unknownToken (String.ofList s))
  := by
  obtain ⟨s', w', rest', hunknown, hq'⟩ := hq.stuck.exists_unknown hv
  rw [hq.unique hq']
  simp only [tokenize, (scan_of_reaches hv h hq.stuck).1, hunknown]

/-- If no spelling begins with a blank, a text does not split into tokens exactly when reading it
gets stuck.  The error then tells the unknown stretch at that place, the events before it are the
tokens that have been read, and these are the tokens of the text before the place. -/
theorem tokenize_error_iff_stuck (hv : Tight v) (text : String) :
  ((∃ e, v.tokenize text = .error e) ↔ ∃ ts q, Reaches v text.toList ts q ∧ Stuck v q)
    ∧ ∀ ts q, Reaches v text.toList ts q → Stuck v q →
      (∃ s w rest, v.tokenize text = .error (.unknownToken (String.ofList s))
        ∧ Unknown v q s w rest)
      ∧ v.events text = ts.map .token
      ∧ ∃ before, text.toList = before ++ q ∧ v.tokenize (String.ofList before) = .ok ts
  := by
  have herror : ∀ ts q, Reaches v text.toList ts q → Stuck v q →
      ∃ s w rest, v.tokenize text = .error (.unknownToken (String.ofList s))
        ∧ Unknown v q s w rest := by
    intro ts q hreaches hq
    obtain ⟨s, w, rest, -, hs⟩ := hq.exists_unknown hv
    use s, w, rest, tokenize_of_unknown hv hreaches hs
  constructor
  · constructor
    · rintro ⟨e, he⟩
      apply exists_reaches_of_scan hv
      intro hnone
      rw [tokenize, hnone] at he
      cases he
    · rintro ⟨ts, q, hreaches, hq⟩
      obtain ⟨s, w, rest, htokenize, -⟩ := herror ts q hreaches hq
      exact ⟨_, htokenize⟩
  · intro ts q hreaches hq
    use herror ts q hreaches hq
    constructor
    · rw [events, (scan_of_reaches hv hreaches hq).1]
    · obtain ⟨before, htext, hsplits⟩ := hreaches.exists_splits
      use before, htext
      apply tokenize_of_splits hv
      rw [String.toList_ofList]
      apply hsplits

/-- Two unknown words between atoms are one stretch, the blank between them included. -/
theorem standard_error_iff_stuck :
  Tight standard
    ∧ Reaches standard "P <- # Q".toList [⟨.atom, "P"⟩] "<- # Q".toList
    ∧ Stuck standard "<- # Q".toList
    ∧ standard.tokenize "P <- # Q" = .error (.unknownToken "<- #")
    ∧ (∃ s w rest, standard.tokenize "P <- # Q" = .error (.unknownToken (String.ofList s))
      ∧ Unknown standard "<- # Q".toList s w rest)
    ∧ standard.events "P <- # Q" = [.token ⟨.atom, "P"⟩]
  := by
  have htext : "P <- # Q".toList = "P".toList ++ ([' '] ++ "<- # Q".toList) := by decide
  have hatom : Lexeme standard "P <- # Q".toList ⟨.atom, "P"⟩ := by decide
  have hreaches : Reaches standard "P <- # Q".toList [⟨.atom, "P"⟩] "<- # Q".toList := by
    rw [htext] at hatom ⊢
    apply Reaches.token (w := []) (t := ⟨.atom, "P"⟩) blank_nil hatom
    apply Reaches.blank (w := [' '])
    decide
  have hstretch : Unknown standard "<- # Q".toList "<- #".toList [' '] "Q".toList := by
    constructor
    case head => exact ⟨'<', by decide⟩
    case last => exact ⟨'#', by decide⟩
    all_goals decide
  have hstuck := hstretch.stuck
  have herror : standard.tokenize "P <- # Q" = .error (.unknownToken "<- #") :=
    tokenize_of_unknown tight_standard hreaches hstretch
  obtain ⟨hunknown, hevents, -⟩ :=
    (tokenize_error_iff_stuck tight_standard _).2 _ _ hreaches hstuck
  use tight_standard, hreaches, hstuck, herror, hunknown
  apply hevents

end Vocabulary

end Sentential

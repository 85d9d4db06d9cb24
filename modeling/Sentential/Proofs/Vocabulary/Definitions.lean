import Sentential.Proofs.Outcome
import Sentential.Proofs.Vocabulary.Splitting

/-!
# Definitions that make a vocabulary

Entries are *admissible* when none of them is for atoms, none is blank and no spelling occurs
twice.  Definitions make a vocabulary exactly when the entries that they list are admissible, and
the vocabulary then has these entries in order.  Otherwise there is a first entry with a fault,
behind entries that are admissible, and the error is that of this entry.
-/

namespace Sentential

namespace Vocabulary

variable {v w : Vocabulary} {es before after : List Entry} {e : Entry} {err : Error}

/-- Entries that break no rule: a vocabulary can be made of them. -/
structure Admissible (es : List Entry) : Prop where
  not_atom : ∀ e ∈ es, e.kind ≠ .atom
  nonblank : ∀ e ∈ es, ¬ Blank e.spelling.toList
  nodup : (es.map (·.spelling)).Nodup

/-- The rule that an entry breaks behind others, if it breaks one.  It is first asked whether the
entry is for atoms, then whether it is blank, and then whether its spelling has been given before. -/
inductive Fault (before : List Entry) (e : Entry) : Error → Prop
  | atom (hkind : e.kind = .atom) : Fault before e (.atomSpelling e.spelling)
  | blank (hkind : e.kind ≠ .atom) (hblank : Blank e.spelling.toList) :
      Fault before e (.emptySpelling e.kind)
  | duplicate {f : Entry} (hkind : e.kind ≠ .atom) (hblank : ¬ Blank e.spelling.toList)
      (hf : f ∈ before) (hspelling : f.spelling = e.spelling) :
      Fault before e (.duplicateSpelling e.spelling f.kind e.kind)

/-! ### Entries of a vocabulary -/

theorem isBlankText_eq_true_iff {s : String} :
  Text.isBlankText s = true ↔ Blank s.toList
  := List.all_eq_true

theorem eq_of_entries_eq (h : v.entries = w.entries) :
  v = w
  := by
  obtain ⟨_, _, _, _⟩ := v
  obtain ⟨_, _, _, _⟩ := w
  cases h
  rfl

/-- The entries of a vocabulary are admissible. -/
theorem admissible_entries (v : Vocabulary) :
  Admissible v.entries
  where
  not_atom := v.not_atom
  nonblank e he := by
    rw [← isBlankText_eq_true_iff, v.nonblank e he]
    exact Bool.false_ne_true
  nodup := v.nodup

/-- Whether entries are admissible does not depend on their order. -/
theorem Admissible.of_perm {fs : List Entry} (h : Admissible es) (hperm : es.Perm fs) :
  Admissible fs
  where
  not_atom e he := h.not_atom e (hperm.mem_iff.mpr he)
  nonblank e he := h.nonblank e (hperm.mem_iff.mpr he)
  nodup := (hperm.map _).nodup_iff.mp h.nodup

/-- Every list of admissible entries is that of a vocabulary. -/
theorem Admissible.exists_entries_eq (h : Admissible es) :
  ∃ v : Vocabulary, v.entries = es
  := by
  have hnonblank : ∀ e ∈ es, Text.isBlankText e.spelling = false := by
    intro e he
    rw [Bool.eq_false_iff, ne_eq, isBlankText_eq_true_iff]
    apply h.nonblank e he
  use ⟨es, h.nodup, hnonblank, h.not_atom⟩

/-- Behind an entry with a fault, no list of entries is admissible. -/
theorem Fault.not_admissible (h : Fault before e err) (after : List Entry) :
  ¬ Admissible (before ++ e :: after)
  := by
  intro hall
  have he : e ∈ before ++ e :: after := List.mem_append_right before List.mem_cons_self
  cases h with
  | atom hkind => cases hall.not_atom e he hkind
  | blank _ hblank => cases hall.nonblank e he hblank
  | @duplicate f _ _ hf hspelling =>
      have hnodup := hall.nodup
      rw [List.map_append, List.map_cons, List.nodup_append] at hnodup
      apply hnodup.2.2 _ (List.mem_map_of_mem hf) _ List.mem_cons_self hspelling

/-! ### One more entry -/

/-- An entry is refused for the rule that it breaks. -/
theorem insert_eq_error_iff :
  v.insert e = .error err ↔ Fault v.entries e err
  := by
  constructor
  · intro h
    rw [insert] at h
    split at h
    · rename_i hkind
      cases h
      apply Fault.atom hkind
    · rename_i hkind
      split at h
      · rename_i hblank
        cases h
        apply Fault.blank hkind (isBlankText_eq_true_iff.mp hblank)
      · rename_i hblank
        split at h
        · rename_i first hfirst
          cases h
          rw [isBlankText_eq_true_iff] at hblank
          apply Fault.duplicate hkind hblank (kind?_eq_some_iff.mp hfirst) rfl
        · cases h
  · intro h
    cases h with
    | atom hkind => rw [insert, dif_pos hkind]
    | blank hkind hblank =>
        rw [insert, dif_neg hkind, dif_pos (isBlankText_eq_true_iff.mpr hblank)]
    | @duplicate f hkind hblank hf hspelling =>
        have hfirst : v.kind? e.spelling = some f.kind := by
          rw [kind?_eq_some_iff, ← hspelling]
          apply hf
        rw [← isBlankText_eq_true_iff] at hblank
        rw [insert, dif_neg hkind, dif_neg hblank]
        split
        · rename_i first hfirst'
          rw [hfirst] at hfirst'
          cases hfirst'
          rfl
        · rename_i hnone
          rw [hfirst] at hnone
          cases hnone

/-- An entry that is added stands behind the others. -/
theorem entries_of_insert (h : v.insert e = .ok w) :
  w.entries = v.entries ++ [e]
  := by
  rw [insert] at h
  split at h
  · cases h
  · split at h
    · cases h
    · split at h
      · cases h
      · cases h
        rfl

/-! ### Entries one after the other -/

/-- Entries are added when a vocabulary has the entries together, and this is the result. -/
theorem insertAll_eq_ok_iff :
  v.insertAll es = .ok w ↔ w.entries = v.entries ++ es
  := by
  induction es generalizing v with
  | nil =>
      rw [insertAll, List.append_nil, Except.ok.injEq]
      constructor
      · rintro rfl
        rfl
      · intro h
        apply eq_of_entries_eq h.symm
  | cons e es ih =>
      rw [insertAll]
      cases hinsert : v.insert e with
      | ok v' =>
          rw [ih, entries_of_insert hinsert, List.append_assoc, List.singleton_append]
      | error err =>
          have hfault := insert_eq_error_iff.mp hinsert
          constructor
          · rintro ⟨⟩
          · intro h
            cases hfault.not_admissible es (h ▸ w.admissible_entries)

theorem insertAll_append (v : Vocabulary) (es fs : List Entry) :
  v.insertAll (es ++ fs) = (v.insertAll es).bind fun w => w.insertAll fs
  := by
  induction es generalizing v with
  | nil => rfl
  | cons e es ih =>
      rw [List.cons_append, insertAll, insertAll]
      cases v.insert e with
      | ok v' => apply ih
      | error err => rfl

/-- Entries that are refused have a first one with a fault. -/
theorem exists_fault_of_insertAll (h : v.insertAll es = .error err) :
  ∃ before e after, es = before ++ e :: after ∧ Admissible (v.entries ++ before)
    ∧ Fault (v.entries ++ before) e err
  := by
  induction es generalizing v with
  | nil => cases h
  | cons e es ih =>
      rw [insertAll] at h
      cases hinsert : v.insert e with
      | ok v' =>
          rw [hinsert] at h
          obtain ⟨before, e', after, rfl, hbefore, hfault⟩ := ih h
          rw [entries_of_insert hinsert, List.append_assoc] at hbefore hfault
          exact ⟨e :: before, e', after, rfl, hbefore, hfault⟩
      | error err' =>
          rw [hinsert] at h
          cases h
          use [], e, es, rfl
          rw [List.append_nil]
          use v.admissible_entries
          apply insert_eq_error_iff.mp hinsert

/-- Entries are refused for the first of them with a fault. -/
theorem insertAll_eq_error_iff :
  v.insertAll es = .error err ↔ ∃ before e after, es = before ++ e :: after
    ∧ Admissible (v.entries ++ before) ∧ Fault (v.entries ++ before) e err
  := by
  constructor
  · apply exists_fault_of_insertAll
  · rintro ⟨before, e, after, rfl, hbefore, hfault⟩
    obtain ⟨w, hw⟩ := hbefore.exists_entries_eq
    rw [← hw, ← insert_eq_error_iff] at hfault
    rw [insertAll_append, insertAll_eq_ok_iff.mpr hw, ok_bind, insertAll, hfault]

/-! ### Definitions -/

variable {defs : List (Token.Kind × List String)}

/-- Definitions make the vocabulary that has the entries which they list. -/
theorem ofDefinitions_eq_ok_iff :
  ofDefinitions defs = .ok v ↔ v.entries = entriesOf defs
  := insertAll_eq_ok_iff

theorem exists_ofDefinitions_eq_ok_iff :
  (∃ v, ofDefinitions defs = .ok v) ↔ Admissible (entriesOf defs)
  := by
  constructor
  · rintro ⟨v, hv⟩
    rw [← ofDefinitions_eq_ok_iff.mp hv]
    apply v.admissible_entries
  · intro h
    obtain ⟨v, hv⟩ := h.exists_entries_eq
    use v, ofDefinitions_eq_ok_iff.mpr hv

/-- Definitions are refused for the first entry with a fault that they list. -/
theorem ofDefinitions_eq_error_iff :
  ofDefinitions defs = .error err ↔ ∃ before e after, entriesOf defs = before ++ e :: after
    ∧ Admissible before ∧ Fault before e err
  := insertAll_eq_error_iff

theorem mem_entriesOf_iff {s : String} {k : Token.Kind} :
  ⟨s, k⟩ ∈ entriesOf defs ↔ ∃ ss, (k, ss) ∈ defs ∧ s ∈ ss
  := by
  simp only [entriesOf, List.mem_flatMap, List.mem_map, Entry.mk.injEq, Prod.exists]
  constructor
  · rintro ⟨_, ss, hdef, _, hs, rfl, rfl⟩
    exact ⟨ss, hdef, hs⟩
  · rintro ⟨ss, hdef, hs⟩
    exact ⟨k, ss, hdef, s, hs, rfl, rfl⟩

theorem map_spelling_entriesOf (defs : List (Token.Kind × List String)) :
  (entriesOf defs).map (·.spelling) = defs.flatMap (·.2)
  := by
  simp [entriesOf, List.map_flatMap, Function.comp_def]

/-- The rules for entries, as they read for definitions. -/
theorem admissible_entriesOf_iff :
  Admissible (entriesOf defs)
    ↔ (∀ k ss, (k, ss) ∈ defs → ∀ s ∈ ss, k ≠ .atom ∧ ¬ Blank s.toList)
      ∧ (defs.flatMap (·.2)).Nodup
  := by
  rw [← map_spelling_entriesOf]
  constructor
  · intro h
    refine ⟨?_, h.nodup⟩
    intro k ss hdef s hs
    have hmem := mem_entriesOf_iff.mpr ⟨ss, hdef, hs⟩
    use h.not_atom _ hmem
    apply h.nonblank _ hmem
  · rintro ⟨hrules, hnodup⟩
    refine ⟨?_, ?_, hnodup⟩
    · rintro ⟨s, k⟩ hmem
      obtain ⟨ss, hdef, hs⟩ := mem_entriesOf_iff.mp hmem
      apply (hrules k ss hdef s hs).1
    · rintro ⟨s, k⟩ hmem
      obtain ⟨ss, hdef, hs⟩ := mem_entriesOf_iff.mp hmem
      apply (hrules k ss hdef s hs).2

end Vocabulary

end Sentential

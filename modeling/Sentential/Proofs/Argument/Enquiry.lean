import Sentential.Argument.Enquiry
import Mathlib.Algebra.Group.Nat.Defs
import Mathlib.Data.List.Basic
import Mathlib.Tactic.Use

/-!
# The phases of an enquiry

An enquiry begins without a table, has the table from the first question on that needs it, and
has the verdict from the first time on that it is asked for.  `Enquiry.Phase` says this together
with what the log holds: the table and the verdict once each, in this order, and single rows
before, between and after them.  In every phase a question has the answer that the argument
alone determines.
-/

namespace Sentential

/-! ### Events that occur at most once -/

namespace Event

/-- Whether an event is the beginning of a table. -/
def isGenerating : Event → Bool
  | generating _ _ => true
  | _ => false

/-- Whether an event is a verdict. -/
def isVerdict : Event → Bool
  | verdict _ _ => true
  | _ => false

/-- At most one event of a log satisfies `p`, and the events before it, itself and the events
after it satisfy `P`. -/
structure Once (p : Event → Bool) (P : List Event → Event → List Event → Prop)
    (log : List Event) : Prop where
  countP_le : log.countP p ≤ 1
  split : ∀ es e es', log = es ++ e :: es' → p e = true → P es e es'

variable {p : Event → Bool} {P : List Event → Event → List Event → Prop} {e : Event}
  {es es' log : List Event}

theorem once_of_none (h : ∀ e ∈ log, p e = false) :
  Once p P log
  where
  countP_le := by
    rw [List.countP_eq_zero.mpr (by simpa using h)]
    exact Nat.zero_le 1
  split es e es' hlog he := by
    rw [h e (by simp [hlog])] at he
    cases he

theorem once_of_sole (hes : ∀ e ∈ es, p e = false) (he : p e = true)
    (hes' : ∀ e ∈ es', p e = false) (hP : P es e es') :
  Once p P (es ++ e :: es')
  where
  countP_le := by
    have hbefore : es.countP p = 0 := List.countP_eq_zero.mpr (by simpa using hes)
    have hafter : es'.countP p = 0 := List.countP_eq_zero.mpr (by simpa using hes')
    rw [List.countP_append, List.countP_cons_of_pos he]
    omega
  split us d us' hlog hd := by
    have hnotMem : d ∉ es := fun hmem => by simp [hes d hmem] at hd
    have hnotMem' : d ∉ es' := fun hmem => by simp [hes' d hmem] at hd
    obtain ⟨rfl, rfl, rfl⟩ := (List.append_cons_inj_of_notMem hnotMem hnotMem').mp hlog
    apply hP

/-- Events that are rows. -/
def RowsOnly (es : List Event) : Prop := ∀ e ∈ es, ∃ r, e = row r

theorem rowsOnly_nil :
  RowsOnly []
  := by
  simp [RowsOnly]

theorem rowsOnly_map (rows : List Row) :
  RowsOnly (rows.map row)
  := by
  intro e he
  obtain ⟨r, -, rfl⟩ := List.mem_map.mp he
  use r

theorem RowsOnly.append (h : RowsOnly es) (h' : RowsOnly es') :
  RowsOnly (es ++ es')
  := by
  intro e he
  rcases List.mem_append.mp he with he | he
  · apply h e he
  · apply h' e he

theorem RowsOnly.isGenerating (h : RowsOnly es) :
  ∀ e ∈ es, e.isGenerating = false
  := by
  intro e he
  obtain ⟨r, rfl⟩ := h e he
  rfl

theorem RowsOnly.isVerdict (h : RowsOnly es) :
  ∀ e ∈ es, e.isVerdict = false
  := by
  intro e he
  obtain ⟨r, rfl⟩ := h e he
  rfl

end Event

/-- The events of building the table of an argument. -/
def Argument.building (a : Argument) : List Event :=
  .generating a.rowCount a.atoms :: a.table.map .row

/-- The event of deciding whether an argument is valid. -/
def Argument.decision (a : Argument) : Event := .verdict a.render a.isValid

namespace Enquiry

open Event

/-! ### Phases -/

/-- The enquiries into an argument, by what has been found out.  The events `us`, `vs` and `ws`
are rows that have been computed one by one. -/
inductive Phase (a : Argument) : Enquiry → Prop
  | untouched {us : List Event} (hu : RowsOnly us) : Phase a ⟨a, none, none, us⟩
  | tabled {us vs : List Event} (hu : RowsOnly us) (hv : RowsOnly vs) :
      Phase a ⟨a, some a.table, none, us ++ a.building ++ vs⟩
  | decided {us vs ws : List Event} (hu : RowsOnly us) (hv : RowsOnly vs) (hw : RowsOnly ws) :
      Phase a ⟨a, some a.table, some a.isValid, us ++ a.building ++ vs ++ a.decision :: ws⟩

theorem phase_start (a : Argument) :
  Phase a (start a)
  := Phase.untouched rowsOnly_nil

variable {a : Argument} {e : Enquiry}

theorem Phase.argument_eq (h : Phase a e) :
  e.argument = a
  := by
  cases h <;> rfl

/-- In every phase the table is that of the argument. -/
theorem Phase.table (h : Phase a e) :
  e.table.1 = a.table ∧ Phase a e.table.2
  := by
  cases h with
  | @untouched us hu =>
      have hphase := Phase.tabled (a := a) hu rowsOnly_nil
      rw [List.append_nil] at hphase
      exact ⟨rfl, hphase⟩
  | tabled hu hv => exact ⟨rfl, Phase.tabled hu hv⟩
  | decided hu hv hw => exact ⟨rfl, Phase.decided hu hv hw⟩

/-- In every phase the verdict is that of the argument. -/
theorem Phase.isValid (h : Phase a e) :
  e.isValid.1 = a.isValid ∧ Phase a e.isValid.2
  := by
  cases h with
  | @untouched us hu =>
      have hphase := Phase.decided (a := a) hu rowsOnly_nil rowsOnly_nil
      rw [List.append_nil] at hphase
      exact ⟨rfl, hphase⟩
  | tabled hu hv => exact ⟨rfl, Phase.decided hu hv rowsOnly_nil⟩
  | decided hu hv hw => exact ⟨rfl, Phase.decided hu hv hw⟩

/-- In every phase the first counterexample is that of the argument. -/
theorem Phase.counterexample? (h : Phase a e) :
  e.counterexample?.1 = a.counterexample? ∧ Phase a e.counterexample?.2
  := by
  obtain ⟨htable, hphase⟩ := h.table
  refine ⟨?_, hphase⟩
  rw [Enquiry.counterexample?, Argument.counterexample?, ← htable]

/-- Rows that are computed one by one change no phase. -/
theorem Phase.passRows (h : Phase a e) (it later : Rows) :
  Phase a (e.passRows it later)
  := by
  have hrows := rowsOnly_map (it.upTo later)
  cases h with
  | untouched hu => apply Phase.untouched (hu.append hrows)
  | @tabled us vs hu hv =>
      have hphase := Phase.tabled (a := a) hu (hv.append hrows)
      rw [← List.append_assoc] at hphase
      apply hphase
  | @decided us vs ws hu hv hw =>
      have hphase := Phase.decided (a := a) hu hv (hw.append hrows)
      rw [← List.cons_append, ← List.append_assoc] at hphase
      apply hphase

theorem Phase.next (h : Phase a e) (it : Rows) :
  (e.next it).1 = it.nth 0 ∧ Phase a (e.next it).2
  := ⟨rfl, h.passRows it _⟩

/-! ### The log -/

/-- The events of the table and of the verdict are in their places: each once, the rows of the
table directly behind its beginning, and the verdict behind the table. -/
structure Orderly (a : Argument) (log : List Event) : Prop where
  generating : Once isGenerating (fun _ e es => e = .generating a.rowCount a.atoms
    ∧ (List.range (2 ^ a.atoms.length)).map (fun i => Event.row (a.row i)) <+: es) log
  verdict : Once isVerdict (fun es e _ => e = .verdict a.render a.isValid ∧ a.building <:+: es) log

theorem building_append (a : Argument) (es : List Event) :
  a.building ++ es = .generating a.rowCount a.atoms :: (a.table.map .row ++ es)
  := rfl

theorem map_row_table (a : Argument) :
  a.table.map Event.row = (List.range (2 ^ a.atoms.length)).map fun i => Event.row (a.row i)
  := by
  rw [Argument.table_eq_map_row, List.map_map]
  rfl

/-- Until the verdict is asked for, the log has none. -/
theorem isVerdict_of_tabled {us vs : List Event} (hu : RowsOnly us) (hv : RowsOnly vs) :
  ∀ e ∈ us ++ a.building ++ vs, e.isVerdict = false
  := by
  rw [List.forall_mem_append, List.forall_mem_append, Argument.building, List.forall_mem_cons]
  exact ⟨⟨hu.isVerdict, rfl, (rowsOnly_map a.table).isVerdict⟩, hv.isVerdict⟩

/-- The log of an enquiry that has the table begins it once. -/
theorem once_generating {us es : List Event} (hu : RowsOnly us)
    (hes : ∀ e ∈ es, e.isGenerating = false) :
  Once isGenerating (fun _ e es => e = .generating a.rowCount a.atoms
    ∧ (List.range (2 ^ a.atoms.length)).map (fun i => Event.row (a.row i)) <+: es)
    (us ++ a.building ++ es)
  := by
  rw [List.append_assoc, building_append]
  apply once_of_sole hu.isGenerating rfl
  · rw [List.forall_mem_append]
    exact ⟨(rowsOnly_map a.table).isGenerating, hes⟩
  · rw [map_row_table]
    exact ⟨rfl, List.prefix_append _ _⟩

/-- In every phase the log is in order. -/
theorem Phase.orderly (h : Phase a e) :
  Orderly a e.log
  := by
  cases h with
  | untouched hu =>
      exact
        { generating := once_of_none hu.isGenerating
          verdict := once_of_none hu.isVerdict }
  | tabled hu hv =>
      exact
        { generating := once_generating hu hv.isGenerating
          verdict := once_of_none (isVerdict_of_tabled hu hv) }
  | @decided us vs ws hu hv hw =>
      have hgenerating : ∀ e ∈ vs ++ a.decision :: ws, e.isGenerating = false := by
        rw [List.forall_mem_append, List.forall_mem_cons]
        exact ⟨hv.isGenerating, rfl, hw.isGenerating⟩
      exact
        { generating := by
            rw [List.append_assoc]
            apply once_generating hu hgenerating
          verdict := once_of_sole (isVerdict_of_tabled hu hv) rfl hw.isVerdict ⟨rfl, us, vs, rfl⟩ }

end Enquiry

end Sentential

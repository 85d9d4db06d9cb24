import Sentential.Proofs.Argument.Enquiry
import Sentential.Proofs.Argument.Rows
import Mathlib.Data.List.Induction

/-!
# Sequences of questions

A session is an enquiry with the places in the rows of its argument that have been asked for;
each place goes on by itself.  Whatever questions have been asked before, a question has the
answer that it has when it is put to the argument afresh, and the next row at a place depends
only on the number of rows that have been asked for there.
-/

namespace Sentential

/-- A question to an enquiry. -/
inductive Question where
  /-- The table. -/
  | table
  /-- Whether the argument is valid. -/
  | isValid
  /-- The first counterexample. -/
  | counterexample
  /-- A new place before the first row. -/
  | rows
  /-- The next row at the place that was asked for after `j` others. -/
  | next (j : Nat)
  deriving DecidableEq, Repr

/-- The answer to a question. -/
inductive Answer where
  | table (rows : List Row)
  | isValid (valid : Bool)
  | counterexample (row? : Option Row)
  | rows (place : Rows)
  | next (row? : Option Row)
  deriving DecidableEq, Repr

/-- An enquiry with the places in the rows that have been asked for, in order. -/
structure Session where
  /-- The enquiry. -/
  enquiry : Enquiry
  /-- The places. -/
  places : List Rows
  deriving DecidableEq, Repr

namespace Session

/-- The session before the first question. -/
def start (a : Argument) : Session := ⟨.start a, []⟩

/-- The answer to a question, unless it is asked at a place that there is not, and the session
as it is afterwards. -/
def ask (s : Session) : Question → Option Answer × Session
  | .table =>
    let (rows, e) := s.enquiry.table
    (some (.table rows), { s with enquiry := e })
  | .isValid =>
    let (valid, e) := s.enquiry.isValid
    (some (.isValid valid), { s with enquiry := e })
  | .counterexample =>
    let (row?, e) := s.enquiry.counterexample?
    (some (.counterexample row?), { s with enquiry := e })
  | .rows =>
    let place := s.enquiry.argument.rows
    (some (.rows place), { s with places := s.places ++ [place] })
  | .next j =>
    match s.places[j]? with
    | none => (none, s)
    | some place =>
      let ((row?, later), e) := s.enquiry.next place
      (some (.next row?), ⟨e, s.places.set j later⟩)

/-- The session after some questions. -/
def after (s : Session) (qs : List Question) : Session := qs.foldl (fun s q => (s.ask q).2) s

theorem after_concat (s : Session) (qs : List Question) (q : Question) :
  s.after (qs ++ [q]) = ((s.after qs).ask q).2
  := by
  rw [after, after, List.foldl_append]
  rfl

/-- The answer to a question that is put to an argument afresh.  The next row at a place is
that of a new place at which `k` rows have been asked for. -/
def fresh (a : Argument) (k : Nat) : Question → Option Answer
  | .next _ => (((start a).after (.rows :: List.replicate k (.next 0))).ask (.next 0)).1
  | q => ((start a).ask q).1

end Session

/-! ### Legal questions -/

/-- Whether a question may follow others: rows are asked for at places that there are. -/
def Question.Follows (qs : List Question) : Question → Prop
  | next j => j < qs.count .rows
  | _ => True

instance (qs : List Question) : DecidablePred (Question.Follows qs)
  | .next j => inferInstanceAs (Decidable (j < qs.count .rows))
  | .table | .isValid | .counterexample | .rows => inferInstanceAs (Decidable True)

/-- Sequences of questions each of which may follow those before it. -/
def Legal (qs : List Question) : Prop :=
  ∀ (i : Nat) (h : i < qs.length), qs[i].Follows (qs.take i)

instance (qs : List Question) : Decidable (Legal qs) :=
  inferInstanceAs (Decidable (∀ (i : Nat) (h : i < qs.length), qs[i].Follows (qs.take i)))

example : Legal [.counterexample, .rows, .next 0, .rows, .next 1, .next 0] ∧ ¬ Legal [.next 0] := by
  decide

variable {qs : List Question}

theorem legal_concat_iff {q : Question} :
  Legal (qs ++ [q]) ↔ Legal qs ∧ q.Follows qs
  := by
  constructor
  · intro h
    constructor
    · intro i hi
      have hfollows := h i (by rw [List.length_append]; omega)
      rw [List.getElem_append_left hi, List.take_append_of_le_length (Nat.le_of_lt hi)] at hfollows
      apply hfollows
    · have hfollows := h qs.length (by simp)
      rw [List.getElem_concat_length rfl, List.take_left] at hfollows
      apply hfollows
  · rintro ⟨h, hq⟩ i hi
    rw [List.length_append, List.length_singleton, Nat.lt_succ_iff_lt_or_eq] at hi
    rcases hi with hi | rfl
    · rw [List.getElem_append_left hi, List.take_append_of_le_length (Nat.le_of_lt hi)]
      apply h i hi
    · rw [List.getElem_concat_length rfl, List.take_left]
      apply hq

theorem Legal.take (h : Legal qs) (n : Nat) :
  Legal (qs.take n)
  := by
  intro i hi
  rw [List.length_take, Nat.lt_min] at hi
  rw [List.getElem_take, List.take_take, Nat.min_eq_left (Nat.le_of_lt hi.1)]
  apply h i hi.2

theorem count_concat_of_ne {q q' : Question} (h : q ≠ q') :
  (qs ++ [q]).count q' = qs.count q'
  := by
  rw [List.count_append, List.count_singleton, if_neg (by simpa using h), Nat.add_zero]

/-- No row has been asked for at a place that there is not yet. -/
theorem Legal.count_next_eq_zero (h : Legal qs) {j : Nat} (hj : qs.count .rows ≤ j) :
  qs.count (.next j) = 0
  := by
  induction qs using List.reverseRecOn with
  | nil => rfl
  | append_singleton qs q ih =>
      obtain ⟨hqs, hq⟩ := legal_concat_iff.mp h
      have hle : qs.count .rows ≤ j := by
        rw [List.count_append] at hj
        omega
      have hne : q ≠ .next j := by
        rintro rfl
        exact Nat.not_lt.mpr hle hq
      rw [count_concat_of_ne hne, ih hqs hle]

theorem next_follows_rows (qs : List Question) :
  Question.Follows (.rows :: qs) (.next 0)
  := by
  rw [Question.Follows, List.count_cons_self]
  apply Nat.succ_pos

/-- Any number of rows may be asked for at the first place. -/
theorem legal_rows_replicate (k : Nat) :
  Legal (.rows :: List.replicate k (.next 0))
  := by
  induction k with
  | zero => decide
  | succ k ih =>
      rw [List.replicate_succ', ← List.cons_append, legal_concat_iff]
      exact ⟨ih, next_follows_rows _⟩

/-! ### Places -/

namespace Argument

variable (a : Argument)

/-- The places in the rows of an argument after some questions. -/
def places (qs : List Question) : List Rows :=
  (List.range (qs.count .rows)).map fun j => a.place (qs.count (.next j))

theorem places_concat_of_ne {q : Question} (hrows : q ≠ .rows) (hnext : ∀ j, q ≠ .next j) :
  a.places (qs ++ [q]) = a.places qs
  := by
  rw [places, places, count_concat_of_ne hrows]
  simp only [count_concat_of_ne (hnext _)]

theorem places_concat_rows (h : Legal qs) :
  a.places (qs ++ [.rows]) = a.places qs ++ [a.rows]
  := by
  have hnext : ∀ j, Question.rows ≠ .next j := by simp
  rw [places, places, List.count_append, List.count_singleton_self, List.range_succ,
    List.map_append]
  simp only [count_concat_of_ne (hnext _), List.map_singleton,
    h.count_next_eq_zero (Nat.le_refl _), place_zero]

theorem places_concat_next (j : Nat) :
  a.places (qs ++ [.next j]) = (a.places qs).set j (a.place (qs.count (.next j) + 1))
  := by
  rw [places, places, count_concat_of_ne (by simp)]
  apply List.ext_getElem (by simp)
  intro i hi hi'
  rw [List.getElem_set]
  split
  next hij =>
    subst hij
    simp
  next hij =>
    simp [List.count_singleton, hij]

/-- The answer to a question that is put to an argument, the next row at a place being the one
behind the first `k`. -/
def answer (k : Nat) : Question → Answer
  | .table => .table a.table
  | .isValid => .isValid a.isValid
  | .counterexample => .counterexample a.counterexample?
  | .rows => .rows a.rows
  | .next _ => .next a.table[k]?

end Argument

namespace Session

open Enquiry (Phase phase_start Orderly)

/-! ### Sessions after questions -/

/-- What some questions have made of a session. -/
structure Reached (a : Argument) (qs : List Question) (s : Session) : Prop where
  phase : s.enquiry.Phase a
  places : s.places = a.places qs

theorem reached_start (a : Argument) :
  Reached a [] (start a)
  where
  phase := phase_start a
  places := rfl

variable {a : Argument} {s : Session}

theorem ask_table (s : Session) :
  s.ask .table = (some (.table s.enquiry.table.1), { s with enquiry := s.enquiry.table.2 })
  := rfl

theorem ask_isValid (s : Session) :
  s.ask .isValid = (some (.isValid s.enquiry.isValid.1), { s with enquiry := s.enquiry.isValid.2 })
  := rfl

theorem ask_counterexample (s : Session) :
  s.ask .counterexample = (some (.counterexample s.enquiry.counterexample?.1),
    { s with enquiry := s.enquiry.counterexample?.2 })
  := rfl

theorem ask_rows (s : Session) :
  s.ask .rows = (some (.rows s.enquiry.argument.rows),
    { s with places := s.places ++ [s.enquiry.argument.rows] })
  := rfl

theorem ask_next {j : Nat} {place : Rows} (h : s.places[j]? = some place) :
  s.ask (.next j) = (some (.next (s.enquiry.next place).1.1),
    ⟨(s.enquiry.next place).2, s.places.set j (s.enquiry.next place).1.2⟩)
  := by
  rw [ask]
  simp only [h]

/-- A question that concerns no place may change the enquiry only. -/
theorem Reached.of_phase (h : Reached a qs s) {e : Enquiry} (he : e.Phase a) {q : Question}
    (hrows : q ≠ .rows) (hnext : ∀ j, q ≠ .next j) :
  Reached a (qs ++ [q]) { s with enquiry := e }
  where
  phase := he
  places := by rw [h.places, a.places_concat_of_ne hrows hnext]

/-- Whatever has been asked before, a question that may be asked has its answer. -/
theorem Reached.ask (h : Reached a qs s) (hqs : Legal qs) {q : Question} (hq : q.Follows qs) :
  (s.ask q).1 = some (a.answer (qs.count q) q) ∧ Reached a (qs ++ [q]) (s.ask q).2
  := by
  cases q with
  | table =>
      obtain ⟨htable, hphase⟩ := h.phase.table
      rw [ask_table, htable]
      exact ⟨rfl, h.of_phase hphase (by simp) (by simp)⟩
  | isValid =>
      obtain ⟨hvalid, hphase⟩ := h.phase.isValid
      rw [ask_isValid, hvalid]
      exact ⟨rfl, h.of_phase hphase (by simp) (by simp)⟩
  | counterexample =>
      obtain ⟨hrow, hphase⟩ := h.phase.counterexample?
      rw [ask_counterexample, hrow]
      exact ⟨rfl, h.of_phase hphase (by simp) (by simp)⟩
  | rows =>
      rw [ask_rows, h.phase.argument_eq]
      exact ⟨rfl, h.phase, by rw [h.places, a.places_concat_rows hqs]⟩
  | next j =>
      have hplace : s.places[j]? = some (a.place (qs.count (.next j))) := by
        rw [h.places, Argument.places, List.getElem?_map, List.getElem?_range hq, Option.map_some]
      obtain ⟨hrow, hphase⟩ := h.phase.next (a.place (qs.count (.next j)))
      rw [ask_next hplace, hrow, a.place_nth]
      exact ⟨rfl, hphase, by rw [h.places, a.places_concat_next]⟩

/-- Legal questions leave a session in order. -/
theorem reached_after (a : Argument) (h : Legal qs) :
  Reached a qs ((start a).after qs)
  := by
  induction qs using List.reverseRecOn with
  | nil => apply reached_start
  | append_singleton qs q ih =>
      obtain ⟨hqs, hq⟩ := legal_concat_iff.mp h
      rw [after_concat]
      exact ((ih hqs).ask hqs hq).2

theorem fresh_eq (a : Argument) (k : Nat) (q : Question) :
  fresh a k q = some (a.answer k q)
  := by
  cases q with
  | next j =>
      have hlegal := legal_rows_replicate k
      have hcount : (Question.rows :: List.replicate k (.next 0)).count (.next 0) = k := by
        rw [List.count_cons_of_ne (by simp), List.count_replicate_self]
      have hanswer := ((reached_after a hlegal).ask hlegal (next_follows_rows _)).1
      rw [hcount] at hanswer
      exact hanswer
  | _ =>
      refine ((reached_start a).ask (by decide) ?_).1
      trivial

/-- Each of any sequence of legal questions is answered, and as it is answered when it is put to
the argument afresh; and afterwards the log is in order. -/
theorem ask_eq_fresh (a : Argument) (h : Legal qs) :
  (∀ (i : Nat) (hi : i < qs.length), ∃ answer,
    (((start a).after (qs.take i)).ask qs[i]).1 = some answer
      ∧ fresh a ((qs.take i).count qs[i]) qs[i] = some answer)
    ∧ Orderly a ((start a).after qs).enquiry.log
  := by
  constructor
  · intro i hi
    have hask := (reached_after a (h.take i)).ask (h.take i) (h i hi)
    exact ⟨_, hask.1, fresh_eq a _ _⟩
  · exact (reached_after a h).phase.orderly

/-- An argument that has a counterexample. -/
def affirmedConsequent : Argument where
  premises := [⟨"(P->Q)", .binary .implication (.atom "P") (.atom "Q"), .strict⟩,
    ⟨"Q", .atom "Q", .strict⟩]
  conclusion := ⟨"P", .atom "P", .strict⟩
  atoms := ["P", "Q"]
  premiseCircuits := [⟨2, [.binary .implication (.column 0) (.column 1)], .gate 0⟩,
    ⟨2, [], .column 1⟩]
  conclusionCircuit := ⟨2, [], .column 0⟩

/-- Rows are asked for at two places between the other questions. -/
def interleaved : List Question :=
  [.counterexample, .rows, .next 0, .isValid, .rows, .next 1, .table, .next 0, .isValid]

theorem interleaved_ask_eq_fresh :
  Legal interleaved
    ∧ (∃ answer,
      (((start affirmedConsequent).after (interleaved.take 7)).ask (.next 0)).1 = some answer
        ∧ fresh affirmedConsequent 1 (.next 0) = some answer)
    ∧ Orderly affirmedConsequent ((start affirmedConsequent).after interleaved).enquiry.log
  := by
  have hlegal : Legal interleaved := by decide
  obtain ⟨hanswers, horderly⟩ := ask_eq_fresh affirmedConsequent hlegal
  exact ⟨hlegal, hanswers 7 (by decide), horderly⟩

end Session

end Sentential

import Sentential.Argument.Enquiry
import Sentential.Proofs.Argument.Table

/-!
# Going through the rows

A walk goes through the rows of an argument, in an enquiry that computes them.  It may be asked
for the next row, for the row behind some others, and for the number of the rows that are left.
What it replies depends only on how many rows it has passed: it never goes beyond the last row, and
it stays there.
-/

namespace Sentential

/-! ### Places -/

namespace Rows

variable {it it' : Rows} {r : Row}

theorem nth_of_none (h : it.next? = none) (k : Nat) :
  it.nth k = (none, it)
  := by
  unfold nth
  rw [h]

theorem nth_zero (h : it.next? = some (r, it')) :
  it.nth 0 = (some r, it')
  := by
  unfold nth
  rw [h]

theorem nth_succ (h : it.next? = some (r, it')) (k : Nat) :
  it.nth (k + 1) = it'.nth k
  := by
  rw [nth.eq_def]
  simp only [h]

end Rows

namespace Argument

variable (a : Argument)

/-- The place at which `k` rows of an argument have been asked for.  A place behind the last row
stays there. -/
def place (k : Nat) : Rows := ⟨a, min k a.rowCount⟩

theorem place_zero :
  a.place 0 = a.rows
  := by
  rw [place, Nat.zero_min, rows]

theorem place_of_le {p : Nat} (h : a.rowCount ≤ p) :
  a.place p = ⟨a, a.rowCount⟩
  := by
  rw [place, Nat.min_eq_right h]

theorem table_getElem?_of_lt {p : Nat} (h : p < a.rowCount) :
  a.table[p]? = some (a.row p)
  := by
  rw [table_eq_map_row, List.getElem?_map, List.getElem?_range h, Option.map_some]

theorem table_getElem?_of_le {p : Nat} (h : a.rowCount ≤ p) :
  a.table[p]? = none
  := by
  rw [List.getElem?_eq_none_iff, table_eq_map_row, List.length_map, List.length_range]
  apply h

theorem place_next?_of_lt {p : Nat} (h : p < a.rowCount) :
  (a.place p).next? = some (a.row p, a.place (p + 1))
  := by
  rw [place, place, Nat.min_eq_left h, Nat.min_eq_left (Nat.le_of_lt h), Rows.next?, if_pos h]

/-- Behind the last row nothing is found, however many rows are to be passed. -/
theorem place_nth_of_le {p : Nat} (h : a.rowCount ≤ p) (k : Nat) :
  (a.place p).nth k = (none, a.place p)
  := by
  apply Rows.nth_of_none
  rw [a.place_of_le h, Rows.next?, if_neg (Nat.lt_irrefl _)]

/-- Behind the next `k` rows stands the row whose number is larger by `k`. -/
theorem place_nth (p k : Nat) :
  (a.place p).nth k = (a.table[p + k]?, a.place (p + k + 1))
  := by
  induction k generalizing p with
  | zero =>
      simp only [Nat.add_zero]
      rcases Nat.lt_or_ge p a.rowCount with hp | hp
      · rw [Rows.nth_zero (a.place_next?_of_lt hp), a.table_getElem?_of_lt hp]
      · rw [a.place_nth_of_le hp, a.table_getElem?_of_le hp, a.place_of_le hp,
          a.place_of_le (Nat.le_succ_of_le hp)]
  | succ k ih =>
      have hadd : p + (k + 1) = p + 1 + k := by omega
      rw [hadd]
      rcases Nat.lt_or_ge p a.rowCount with hp | hp
      · rw [Rows.nth_succ (a.place_next?_of_lt hp), ih]
      · rw [a.place_nth_of_le hp, ← ih, a.place_nth_of_le (Nat.le_succ_of_le hp), a.place_of_le hp,
          a.place_of_le (Nat.le_succ_of_le hp)]

end Argument

/-! ### Walks -/

/-- A place in the rows of an argument, with the enquiry that computes the rows. -/
structure Walk where
  /-- The enquiry. -/
  enquiry : Enquiry
  /-- The place. -/
  place : Rows
  deriving DecidableEq, Repr

namespace Walk

/-- A call in the course of a walk. -/
inductive Call where
  /-- The next row. -/
  | next
  /-- The row behind the next `k` rows. -/
  | nth (k : Nat)
  /-- Bounds for the number of rows that are left. -/
  | sizeHint
  deriving DecidableEq, Repr

/-- The reply to a call. -/
inductive Reply where
  | row (row? : Option Row)
  | size (bounds : Nat × Option Nat)
  deriving DecidableEq, Repr

/-- The number of rows that a call passes if as many are left. -/
def Call.passes : Call → Nat
  | next => 1
  | nth k => k + 1
  | sizeHint => 0

/-- The walk before the first row. -/
def start (e : Enquiry) : Walk := ⟨e, e.argument.rows⟩

/-- The reply to a call, and the walk as it is afterwards. -/
def call (w : Walk) : Call → Reply × Walk
  | .next =>
    let ((row?, later), e) := w.enquiry.next w.place
    (.row row?, ⟨e, later⟩)
  | .nth k =>
    let ((row?, later), e) := w.enquiry.nth k w.place
    (.row row?, ⟨e, later⟩)
  | .sizeHint => (.size w.place.sizeHint, w)

/-- The walk after some calls. -/
def after (w : Walk) (cs : List Call) : Walk := cs.foldl (fun w c => (w.call c).2) w

/-- The replies to some calls. -/
def replies (w : Walk) : List Call → List Reply
  | [] => []
  | c :: cs => (w.call c).1 :: (w.call c).2.replies cs

/-- The number of rows that some calls pass if as many are left. -/
def passed (cs : List Call) : Nat := (cs.map Call.passes).sum

variable {a : Argument} {w : Walk} {p : Nat}

/-- What holds of a walk through the rows of an argument that has passed `p` rows. -/
structure At (a : Argument) (p : Nat) (w : Walk) : Prop where
  argument : w.enquiry.argument = a
  place : w.place = a.place p

theorem at_start {e : Enquiry} (h : e.argument = a) :
  At a 0 (start e)
  where
  argument := h
  place := by rw [start, h, a.place_zero]

/-- The reply to a call when `p` rows have been passed. -/
def reply (a : Argument) (p : Nat) : Call → Reply
  | .next => .row a.table[p]?
  | .nth k => .row a.table[p + k]?
  | .sizeHint => .size (a.place p).sizeHint

theorem call_next (w : Walk) :
  w.call .next = (.row (w.place.nth 0).1, ⟨(w.enquiry.next w.place).2, (w.place.nth 0).2⟩)
  := rfl

theorem call_nth (w : Walk) (k : Nat) :
  w.call (.nth k) = (.row (w.place.nth k).1, ⟨(w.enquiry.nth k w.place).2, (w.place.nth k).2⟩)
  := rfl

theorem call_sizeHint (w : Walk) :
  w.call .sizeHint = (.size w.place.sizeHint, w)
  := rfl

/-- A call is replied to according to the number of rows that have been passed, and adds to it. -/
theorem At.call (h : At a p w) (c : Call) :
  (w.call c).1 = reply a p c ∧ At a (p + c.passes) (w.call c).2
  := by
  cases c with
  | next =>
      rw [call_next, h.place, a.place_nth]
      exact ⟨rfl, h.argument, rfl⟩
  | nth k =>
      rw [call_nth, h.place, a.place_nth]
      exact ⟨rfl, h.argument, rfl⟩
  | sizeHint =>
      rw [call_sizeHint, h.place]
      exact ⟨rfl, h⟩

/-- Calls add up. -/
theorem At.after (h : At a p w) (cs : List Call) :
  At a (p + passed cs) (w.after cs)
  := by
  induction cs generalizing p w with
  | nil => apply h
  | cons c cs ih =>
      have hcs := ih (h.call c).2
      rw [Nat.add_assoc] at hcs
      apply hcs

/-- The replies depend on the rows that have been passed only. -/
theorem At.replies_eq {w' : Walk} (h : At a p w) (h' : At a p w') (cs : List Call) :
  w.replies cs = w'.replies cs
  := by
  induction cs generalizing p w w' with
  | nil => rfl
  | cons c cs ih =>
      rw [replies, replies, (h.call c).1, (h'.call c).1, ih (h.call c).2 (h'.call c).2]

/-- A walk does not tell how many rows have been asked for behind the last one. -/
theorem At.min (h : At a p w) :
  At a (min p a.rowCount) w
  where
  argument := h.argument
  place := by rw [h.place, Argument.place, Argument.place, Nat.min_assoc, Nat.min_self]

/-! ### Behind the last row -/

/-- A call that finds no row passes the last one. -/
theorem le_of_reply_eq_none {c : Call} (h : reply a p c = .row none) :
  a.rowCount ≤ p + c.passes
  := by
  cases c with
  | next =>
      have hnone : a.table[p]? = none := by simpa [reply] using h
      rw [List.getElem?_eq_none_iff, Argument.length_table] at hnone
      apply Nat.le_succ_of_le hnone
  | nth k =>
      have hnone : a.table[p + k]? = none := by simpa [reply] using h
      rw [List.getElem?_eq_none_iff, Argument.length_table] at hnone
      apply Nat.le_succ_of_le hnone
  | sizeHint => cases h

/-- Behind the last row no call finds one. -/
theorem reply_of_le (h : a.rowCount ≤ p) {c : Call} (hc : c ≠ .sizeHint) :
  reply a p c = .row none
  := by
  cases c with
  | next => rw [reply, a.table_getElem?_of_le h]
  | nth k => rw [reply, a.table_getElem?_of_le (Nat.le_trans h (Nat.le_add_right p k))]
  | sizeHint => cases hc rfl

/-- Once a call has found no row, none finds one. -/
theorem At.call_eq_none (h : At a p w) {c d : Call} (hc : (w.call c).1 = .row none)
    (hd : d ≠ .sizeHint) (cs : List Call) :
  (((w.call c).2.after cs).call d).1 = .row none
  := by
  obtain ⟨hreply, hlater⟩ := h.call c
  rw [hreply] at hc
  rw [((hlater.after cs).call d).1]
  apply reply_of_le _ hd
  apply Nat.le_trans (le_of_reply_eq_none hc) (Nat.le_add_right _ _)

/-! ### Any calls -/

/-- A smaller number is taken away from a word as it is from a number. -/
theorem toNat_sub_ofNat {m n : Nat} (hle : n ≤ m) (hm : m < 2 ^ 64) :
  (UInt64.ofNat m - UInt64.ofNat n).toNat = m - n
  := by
  have hword : (UInt64.ofNat m).toNat = m := UInt64.toNat_ofNat_of_lt' hm
  have hword' : (UInt64.ofNat n).toNat = n := UInt64.toNat_ofNat_of_lt' (Nat.lt_of_le_of_lt hle hm)
  have hle' : UInt64.ofNat n ≤ UInt64.ofNat m := by
    rw [UInt64.le_iff_toNat_le, hword, hword']
    apply hle
  rw [UInt64.toNat_sub_of_le _ _ hle', hword, hword']

/-- After any calls in the course of a walk, `p` rows have been passed, which is the number that
the calls add up to, or the number of all rows if that is less.  The next row is then row `p` of the
table and the row behind the next `k` is row `p + k`, if there are such rows; if not, the walk is
behind the last row, and no later call finds one.  The number of rows that are left is told exactly,
by a subtraction of words of 64 bits that does not underflow.  Another walk in the same enquiry
starts from the first row, and the replies are those of a walk in a new enquiry. -/
theorem call_after {lim : Limits} {ps : List Formula} {c : Formula}
    (h : Argument.ofFormulas lim ps c = .ok a) {e : Enquiry} (he : e.argument = a) (cs : List Call)
    (hw : w = (start e).after cs) (hp : p = min (passed cs) (2 ^ a.atoms.length)) :
  a.table.length = 2 ^ a.atoms.length
    ∧ (w.call .next).1 = .row a.table[p]?
    ∧ (∀ k, (w.call (.nth k)).1 = .row a.table[p + k]?
      ∧ (2 ^ a.atoms.length ≤ p + k → (w.call (.nth k)).2.place = ⟨a, 2 ^ a.atoms.length⟩))
    ∧ (w.call .sizeHint).1 = .size (2 ^ a.atoms.length - p, some (2 ^ a.atoms.length - p))
    ∧ (w.place.next = p ∧ p ≤ 2 ^ a.atoms.length ∧ 2 ^ a.atoms.length < 2 ^ 64
      ∧ (UInt64.ofNat (2 ^ a.atoms.length) - UInt64.ofNat p).toNat = 2 ^ a.atoms.length - p)
    ∧ (∀ d, (w.call d).1 = .row none →
      ∀ ds d', d' ≠ .sizeHint → (((w.call d).2.after ds).call d').1 = .row none)
    ∧ (start w.enquiry).place = ⟨a, 0⟩
    ∧ ∀ ds, (start w.enquiry).replies ds = (start (.start a)).replies ds
  := by
  have hat : At a p w := by
    have hafter := ((at_start he).after cs).min
    rw [Nat.zero_add, ← hw] at hafter
    rw [hp]
    apply hafter
  have hle : p ≤ a.rowCount := by
    rw [hp]
    apply Nat.min_le_right
  have hplace : a.place p = ⟨a, p⟩ := by rw [Argument.place, Nat.min_eq_left hle]
  have hword : a.rowCount < 2 ^ 64 := by
    have hatoms := (Argument.made_of_ofFormulas h).length_atoms_le
    apply Nat.pow_lt_pow_right (by decide)
    apply Nat.lt_succ_of_le (Nat.le_trans hatoms lim.atomBound_le_maxEnumerable)
  refine ⟨a.length_table, (hat.call .next).1, ?_, ?_, ⟨?_, hle, hword, toNat_sub_ofNat hle hword⟩,
    ?_, ?_, ?_⟩
  · intro k
    use (hat.call (.nth k)).1
    intro hk
    rw [(hat.call (.nth k)).2.place]
    apply a.place_of_le (Nat.le_succ_of_le hk)
  · rw [(hat.call .sizeHint).1, reply, hplace]
    rfl
  · rw [hat.place, hplace]
  · intro d hd ds d' hd'
    apply hat.call_eq_none hd hd'
  · rw [start, hat.argument]
    rfl
  · apply (at_start hat.argument).replies_eq
    apply at_start
    rfl

/-- The second row has been asked for, and then the number of rows that are left: two.  Two rows
further there is none. -/
theorem weakening_call_after :
  Argument.ofFormulas .standard Argument.weakening.premises Argument.weakening.conclusion
      = .ok Argument.weakening
    ∧ (Enquiry.start Argument.weakening).argument = Argument.weakening
    ∧ min (passed [.nth 1, .sizeHint]) (2 ^ Argument.weakening.atoms.length) = 2
    ∧ (((start (.start Argument.weakening)).after [.nth 1, .sizeHint]).call .next).1
      = .row (some ⟨2, [("P", true), ("Q", false)], [false], false⟩)
    ∧ (((start (.start Argument.weakening)).after [.nth 1, .sizeHint]).call .sizeHint).1
      = .size (2, some 2)
    ∧ (((start (.start Argument.weakening)).after [.nth 1, .sizeHint]).call (.nth 2)).1 = .row none
    ∧ (((start (.start Argument.weakening)).after [.nth 1, .sizeHint]).call (.nth 2)).2.place
      = ⟨Argument.weakening, 4⟩
  := by
  have hmade : Argument.ofFormulas .standard Argument.weakening.premises
      Argument.weakening.conclusion = .ok Argument.weakening := by
    cbv
  have hargument : (Enquiry.start Argument.weakening).argument = Argument.weakening := rfl
  have hpassed :
      min (passed [.nth 1, .sizeHint]) (2 ^ Argument.weakening.atoms.length) = 2 := by
    decide
  obtain ⟨-, hnext, hnth, hsize, -⟩ :=
    call_after hmade hargument [.nth 1, .sizeHint] rfl hpassed.symm
  obtain ⟨hnone, hplace⟩ := hnth 2
  rw [Argument.table_getElem?_of_lt Argument.weakening (by decide)] at hnext
  rw [Argument.table_getElem?_of_le Argument.weakening (by decide)] at hnone
  exact ⟨hmade, hargument, hpassed, hnext, hsize, hnone, hplace (by decide)⟩

end Walk

end Sentential

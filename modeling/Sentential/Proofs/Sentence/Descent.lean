import Sentential.Proofs.Sentence.Reader
import Mathlib.Tactic.Use

/-!
# Descent with a counter of levels

The readers of sentences take the number of levels above them and the tokens before them as
arguments.  Here sentences are read by a parser with a state: a cursor in a list of tokens, and
a counter that goes up where a level is entered and down where it is left.  Its routines call
each other without making anything smaller at every call, so they are given fuel, of which a
call takes one unit and hands on the rest.  `Ends x s o s'` says that with enough fuel, and
whatever more, the routine `x` ends from the state `s` with the outcome `o` in the state `s'`.

`Follows limit s x y` relates a routine to the outcome of a reader: from the state `s` it ends
as `y` says, at the level where it started if `y` is a sentence.  The relation is closed under
sequence and under levels, and the single moves of the cursor follow what a reader does with
the first of its tokens.
-/

namespace Sentential

/-- The state of a parser that counts its levels. -/
structure Descent where
  /-- The tokens, with the position reached in them. -/
  cursor : Cursor
  /-- The number of levels that have been entered and not left. -/
  depth : Nat
  /-- The greatest number that the counter of levels has shown. -/
  peak : Nat
  deriving DecidableEq, Repr

namespace Descent

open Sentence (conflict? remember)

/-- Why a parser stops before it has a sentence. -/
inductive Stop where
  /-- The tokens are refused. -/
  | refused (e : ParseError)
  /-- A level is left where none has been entered. -/
  | underflow
  /-- The fuel is spent. -/
  | unfinished
  deriving DecidableEq, Repr

/-- What a parser does from a state: it returns a value or stops, and leaves a state behind. -/
abbrev Action := ExceptT Stop (StateM Descent)

/-- The end of an action, with the state that it leaves behind. -/
def run {α : Type} (x : Action α) (s : Descent) : Except Stop α × Descent :=
  StateT.run (ExceptT.run x) s

/-- The state one level deeper. -/
def deeper (s : Descent) : Descent :=
  { s with depth := s.depth + 1, peak := max s.peak (s.depth + 1) }

/-! ### Actions -/

/-- Refuse the tokens. -/
def refuse {α : Type} (e : ParseError) : Action α := throw (.refused e)

/-- Enter a level.  The counter goes up before it is compared with the limit. -/
def enter (limit : Nat) : Action Unit := do
  modify deeper
  if limit < (← get).depth then refuse (.depthExceeded limit)

/-- Leave a level. -/
def leave : Action Unit := do
  match (← get).depth with
  | 0 => throw .underflow
  | d + 1 => modify fun s => { s with depth := d }

/-- The next token, if there is one. -/
def peek? : Action (Option Token) := do
  return (← get).cursor.peek?

/-- Move the cursor past a token. -/
def pass (move : Cursor → Except ParseError (Token × Cursor)) : Action Token := do
  match move (← get).cursor with
  | .error e => refuse e
  | .ok (t, c) =>
    modify fun s => { s with cursor := c }
    return t

/-- Parse one connective. -/
def connective : Action Connective := do
  let t ← pass Cursor.advance
  match t.kind.connective? with
  | none => refuse (.expectedConnective t)
  | some c => return c

mutual

/-- Parse an atom, a negated sentence or a group, in a level of its own. -/
def primary (g : Grammar) (limit : Nat) : Nat → Action Sentence
  | 0 => throw .unfinished
  | fuel + 1 => do
    enter limit
    let s ← bare g limit fuel
    leave
    return s

/-- Parse an atom, a negated sentence or a group, in the level that has been entered. -/
def bare (g : Grammar) (limit : Nat) : Nat → Action Sentence
  | 0 => throw .unfinished
  | fuel + 1 => do
    match ← peek? with
    | none => refuse .unexpectedEnd
    | some t =>
      match t.kind with
      | .atom =>
        let _ ← pass Cursor.advance
        return .atom t.text
      | .negation =>
        let _ ← pass Cursor.advance
        let s ← primary g limit fuel
        return .negation s
      | .opening b =>
        if g.admits b then group g limit b fuel else refuse (.unexpectedToken t)
      | _ => refuse (.unexpectedToken t)

/-- Parse a group with the brackets about it. -/
def group (g : Grammar) (limit : Nat) (b : Bracket) : Nat → Action Sentence
  | 0 => throw .unfinished
  | fuel + 1 => do
    let _ ← pass (Cursor.expect (.opening b))
    let s ←
      match g with
      | .permissive => operands .permissive limit 0 fuel
      | .strict => (do
        let l ← primary .strict limit fuel
        let c ← connective
        let r ← primary .strict limit fuel
        return .binary c l r)
    let _ ← pass (Cursor.expect (.closing b))
    return s

/-- Parse operands joined by connectives, none of a level below `least`. -/
def operands (g : Grammar) (limit least : Nat) : Nat → Action Sentence
  | 0 => throw .unfinished
  | fuel + 1 => do
    let l ← primary g limit fuel
    tail g limit least l none fuel

/-- Parse the connectives and operands that follow a sentence, the right operands one level
deeper. -/
def tail (g : Grammar) (limit least : Nat) (left : Sentence) (last? : Option Token) :
    Nat → Action Sentence
  | 0 => throw .unfinished
  | fuel + 1 => do
    match ← peek? with
    | none => return left
    | some t =>
      match t.kind.connective? with
      | none => return left
      | some c =>
        if c.precedence < least then return left
        else
          match conflict? last? c t with
          | some u => refuse (.ambiguity u t)
          | none =>
            let t ← pass Cursor.advance
            enter limit
            let r ← operands g limit (c.precedence + 1) fuel
            leave
            tail g limit least (.binary c left r) (remember c t) fuel

end

/-! ### Ends -/

section Runs

variable {α β : Type} {x : Action α} {k : α → Action β} {s s' : Descent} {limit : Nat}

/-- An action that returns hands its value and its state to the next. -/
theorem run_bind_of_ok {a : α} (h : run x s = (.ok a, s')) :
  run (x >>= k) s = run (k a) s'
  := by
  simp only [run, ExceptT.run_bind, StateT.run_bind] at h ⊢
  rw [h]
  rfl

/-- An action that stops is the last. -/
theorem run_bind_of_error {e : Stop} (h : run x s = (.error e, s')) :
  run (x >>= k) s = (.error e, s')
  := by
  simp only [run, ExceptT.run_bind, StateT.run_bind] at h ⊢
  rw [h]
  rfl

/-- The counter goes up whether or not the level is admitted. -/
theorem run_enter (limit : Nat) (s : Descent) :
  run (enter limit) s =
    (if limit ≤ s.depth then .error (.refused (.depthExceeded limit)) else .ok (), s.deeper)
  := by
  change run (if limit < s.depth + 1 then refuse _ else pure ()) s.deeper = _
  simp only [Nat.lt_succ_iff]
  split <;> rfl

theorem run_leave {d : Nat} (h : s.depth = d + 1) :
  run leave s = (.ok (), { s with depth := d })
  := by
  obtain ⟨c, d', p⟩ := s
  cases h
  rfl

/-- A move that succeeds leaves the cursor where it has come to. -/
theorem run_pass (move : Cursor → Except ParseError (Token × Cursor)) (s : Descent) :
  run (pass move) s =
    match move s.cursor with
    | .error e => (.error (.refused e), s)
    | .ok (t, c) => (.ok t, { s with cursor := c })
  := by
  have hget : run (get : Action Descent) s = (.ok s, s) := rfl
  rw [pass, run_bind_of_ok hget]
  split <;> rfl

end Runs

/-- With enough fuel, and whatever more, the routine `x` ends from the state `s` with the outcome
`o` in the state `s'`. -/
def Ends {α : Type} (x : Nat → Action α) (s : Descent) (o : Except Stop α) (s' : Descent) :
    Prop :=
  ∃ enough, ∀ fuel, enough ≤ fuel → run (x fuel) s = (o, s')

namespace Ends

variable {α β : Type} {x : Nat → Action α} {k : α → Nat → Action β} {s s' s'' : Descent}

/-- An action takes no fuel. -/
theorem of_run {o : Except Stop α} {x : Action α} (h : run x s = (o, s')) :
  Ends (fun _ => x) s o s'
  := ⟨0, fun _ _ => h⟩

/-- A call takes one unit of fuel. -/
theorem succ {o : Except Stop α} (h : Ends (fun fuel => x (fuel + 1)) s o s') :
  Ends x s o s'
  := by
  obtain ⟨enough, h⟩ := h
  use enough + 1
  intro fuel hfuel
  cases fuel with
  | zero => omega
  | succ fuel => apply h fuel (Nat.le_of_succ_le_succ hfuel)

theorem bind {a : α} {o : Except Stop β} (h : Ends x s (.ok a) s') (hk : Ends (k a) s' o s'') :
  Ends (fun fuel => x fuel >>= fun a => k a fuel) s o s''
  := by
  obtain ⟨enough, h⟩ := h
  obtain ⟨enough', hk⟩ := hk
  use max enough enough'
  intro fuel hfuel
  rw [run_bind_of_ok (h fuel (by omega)), hk fuel (by omega)]

theorem bind_error {e : Stop} (h : Ends x s (.error e) s') :
  Ends (fun fuel => x fuel >>= fun a => k a fuel) s (.error e) s'
  := by
  obtain ⟨enough, h⟩ := h
  use enough
  intro fuel hfuel
  apply run_bind_of_error (h fuel hfuel)

end Ends

/-! ### Moves -/

/-- What every part of a run does to the state: the tokens are the same, those that have been
passed and those that are left add up as before, and the counter of levels does not show more
than `limit + 1`. -/
structure Moves (limit : Nat) (s s' : Descent) : Prop where
  tokens_eq : s'.cursor.tokens = s.cursor.tokens
  pos_add_length :
    s'.cursor.pos + s'.cursor.remaining.length = s.cursor.pos + s.cursor.remaining.length
  peak_le : s'.peak ≤ max s.peak (limit + 1)

section Moves

variable {limit : Nat} {s s' s'' : Descent} {t : Token} {ts : List Token}

namespace Moves

theorem refl (limit : Nat) (s : Descent) :
  Moves limit s s
  := ⟨rfl, rfl, Nat.le_max_left _ _⟩

theorem trans (h : Moves limit s s') (h' : Moves limit s' s'') :
  Moves limit s s''
  where
  tokens_eq := h'.tokens_eq.trans h.tokens_eq
  pos_add_length := h'.pos_add_length.trans h.pos_add_length
  peak_le := Nat.le_trans h'.peak_le (Nat.max_le.mpr ⟨h.peak_le, Nat.le_max_right _ _⟩)

/-- One level deeper, the counter is at most one above the limit. -/
theorem deeper (h : s.depth ≤ limit) :
  Moves limit s s.deeper
  where
  tokens_eq := rfl
  pos_add_length := rfl
  peak_le := by
    simp only [Descent.deeper]
    omega

end Moves

/-- The state behind the next token. -/
def past (s : Descent) : Descent := { s with cursor := s.cursor.step }

theorem peek?_of_remaining (h : s.cursor.remaining = t :: ts) :
  s.cursor.peek? = some t
  := by
  rw [Cursor.peek?_eq_head?_remaining, h, List.head?_cons]

theorem peek?_of_remaining_nil (h : s.cursor.remaining = []) :
  s.cursor.peek? = none
  := by
  rw [Cursor.peek?_eq_head?_remaining, h, List.head?_nil]

theorem remaining_past (h : s.cursor.remaining = t :: ts) :
  s.past.cursor.remaining = ts
  := by
  simp only [past, Cursor.step, Cursor.remaining] at h ⊢
  rw [← List.drop_drop, h, List.drop_one, List.tail_cons]

theorem Moves.past (h : s.cursor.remaining = t :: ts) :
  Moves limit s s.past
  where
  tokens_eq := rfl
  pos_add_length := by
    rw [remaining_past h, h, List.length_cons]
    simp only [Descent.past, Cursor.step]
    omega
  peak_le := Nat.le_max_left _ _

end Moves

/-! ### Routines that follow readers -/

/-- From the state `s`, the routine `x` ends as the outcome `y` of a reader says: with the same
sentence before the same tokens and at the level of the start, or with the same error. -/
inductive Follows {α : Type} (limit : Nat) (s : Descent) (x : Nat → Action α) :
    Except ParseError (α × List Token) → Prop
  | ok {a : α} {s' : Descent} (h : Ends x s (.ok a) s') (hs : Moves limit s s')
      (hdepth : s'.depth = s.depth) : Follows limit s x (.ok (a, s'.cursor.remaining))
  | error {e : ParseError} {s' : Descent} (h : Ends x s (.error (.refused e)) s')
      (hs : Moves limit s s') : Follows limit s x (.error e)

namespace Follows

variable {α β : Type} {limit : Nat} {s s' : Descent} {x : Nat → Action α}
  {y : Except ParseError (α × List Token)} {t : Token} {ts : List Token}

theorem exists_of_ok {a : α} (h : Follows limit s x (.ok (a, ts))) :
  ∃ s', Ends x s (.ok a) s' ∧ Moves limit s s' ∧ s'.depth = s.depth ∧ s'.cursor.remaining = ts
  := by
  cases h with
  | ok h hs hdepth => exact ⟨_, h, hs, hdepth, rfl⟩

theorem pure (a : α) :
  Follows limit s (fun _ => pure a) (.ok (a, s.cursor.remaining))
  := ok (.of_run rfl) (.refl limit s) rfl

theorem refuse (e : ParseError) :
  Follows limit s (fun _ => refuse e : Nat → Action α) (.error e)
  := error (.of_run rfl) (.refl limit s)

theorem succ (h : Follows limit s (fun fuel => x (fuel + 1)) y) :
  Follows limit s x y
  := by
  cases h with
  | ok h hs hdepth => exact ok h.succ hs hdepth
  | error h hs => exact error h.succ hs

/-- What ends as another routine does from a state ahead at the same level. -/
theorem of_ends {x' : Nat → Action α} (hs : Moves limit s s') (hdepth : s'.depth = s.depth)
    (hends : ∀ o s'', Ends x' s' o s'' → Ends x s o s'') (h : Follows limit s' x' y) :
  Follows limit s x y
  := by
  cases h with
  | ok h hs' hdepth' => exact ok (hends _ _ h) (hs.trans hs') (hdepth'.trans hdepth)
  | error h hs' => exact error (hends _ _ h) (hs.trans hs')

/-- Routines in sequence follow readers in sequence. -/
theorem bind {k : α → Nat → Action β} {f : α × List Token → Except ParseError (β × List Token)}
    (h : Follows limit s x y)
    (hk : ∀ a s', y = .ok (a, s'.cursor.remaining) → s'.depth = s.depth →
      Follows limit s' (k a) (f (a, s'.cursor.remaining))) :
  Follows limit s (fun fuel => x fuel >>= fun a => k a fuel) (y.bind f)
  := by
  cases h with
  | error h hs => exact error h.bind_error hs
  | @ok a s' h hs hdepth =>
      apply of_ends hs hdepth
      · intro o s'' hk
        apply h.bind hk
      · apply hk a s' rfl hdepth

theorem map (f : α → β) (h : Follows limit s x y) :
  Follows limit s (fun fuel => x fuel >>= fun a => Pure.pure (f a))
    (y.map fun p => (f p.1, p.2))
  := by
  have hmap : (y.map fun p => (f p.1, p.2)) = y.bind fun p => .ok (f p.1, p.2) := by
    cases y <;> rfl
  rw [hmap]
  apply h.bind
  intro a s' _ _
  apply pure

/-- A routine within a level follows what it does one level deeper: the level that is entered
before it is left behind it. -/
theorem level {k : α → Nat → Action β} {f : α × List Token → Except ParseError (β × List Token)}
    (hs : s.depth < limit) (h : Follows limit s.deeper x y)
    (hk : ∀ a s', y = .ok (a, s'.cursor.remaining) → s'.depth = s.depth →
      Follows limit s' (k a) (f (a, s'.cursor.remaining))) :
  Follows limit s
    (fun fuel => enter limit >>= fun _ => x fuel >>= fun a => leave >>= fun _ => k a fuel)
    (y.bind f)
  := by
  have henter : Ends (fun _ => enter limit) s (.ok ()) s.deeper := by
    apply Ends.of_run
    rw [run_enter, if_neg (Nat.not_le.mpr hs)]
  have hdeeper := Moves.deeper (Nat.le_of_lt hs)
  cases h with
  | error h hs' => exact error (henter.bind h.bind_error) (hdeeper.trans hs')
  | @ok a s' h hs' hdepth =>
      have hleave : Moves limit s' { s' with depth := s.depth } :=
        ⟨rfl, rfl, Nat.le_max_left _ _⟩
      apply of_ends ((hdeeper.trans hs').trans hleave) rfl
      · intro o s'' hk
        apply henter.bind
        apply h.bind
        apply (Ends.of_run (run_leave hdepth)).bind hk
      · apply hk a { s' with depth := s.depth } rfl rfl

/-- A level that the limit does not admit is not entered. -/
theorem enter_of_eq {k : Unit → Nat → Action α} (h : s.depth = limit) :
  Follows limit s (fun fuel => enter limit >>= fun u => k u fuel) (.error (.depthExceeded limit))
  := by
  have hrun := run_enter limit s
  rw [if_pos (Nat.le_of_eq h.symm)] at hrun
  exact error (Ends.of_run hrun).bind_error (Moves.deeper (Nat.le_of_eq h))

theorem peek? {k : Option Token → Nat → Action α} (h : Follows limit s (k s.cursor.peek?) y) :
  Follows limit s (fun fuel => peek? >>= fun t? => k t? fuel) y
  := by
  apply of_ends (.refl limit s) rfl _ h
  intro o s' hk
  have hpeek : Ends (fun _ => Descent.peek?) s (.ok s.cursor.peek?) s := .of_run rfl
  apply hpeek.bind hk

/-- A move past the next token, whatever comes behind it. -/
theorem pass {move : Cursor → Except ParseError (Token × Cursor)} {k : Token → Nat → Action α}
    (hts : s.cursor.remaining = t :: ts) (hmove : move s.cursor = .ok (t, s.cursor.step))
    (h : Follows limit s.past (k t) y) :
  Follows limit s (fun fuel => pass move >>= fun t => k t fuel) y
  := by
  have hrun := run_pass move s
  rw [hmove] at hrun
  apply of_ends (.past hts) rfl _ h
  intro o s' hk
  apply (Ends.of_run hrun).bind hk

/-- A move that fails. -/
theorem pass_error {move : Cursor → Except ParseError (Token × Cursor)}
    {k : Token → Nat → Action α} {e : ParseError} (hmove : move s.cursor = .error e) :
  Follows limit s (fun fuel => Descent.pass move >>= fun t => k t fuel) (.error e)
  := by
  have hrun := run_pass move s
  rw [hmove] at hrun
  exact error (Ends.of_run hrun).bind_error (.refl limit s)

theorem advance {k : Token → Nat → Action α} (hts : s.cursor.remaining = t :: ts)
    (h : Follows limit s.past (k t) y) :
  Follows limit s (fun fuel => Descent.pass Cursor.advance >>= fun t => k t fuel) y
  := by
  apply pass hts _ h
  apply Cursor.advance_eq_ok_iff.mpr ⟨peek?_of_remaining hts, rfl⟩

theorem expect {k : Token → Nat → Action α} {e : Token.Kind}
    (hts : s.cursor.remaining = t :: ts) (ht : t.kind = e) (h : Follows limit s.past (k t) y) :
  Follows limit s (fun fuel => Descent.pass (Cursor.expect e) >>= fun t => k t fuel) y
  := by
  apply pass hts _ h
  apply Cursor.expect_eq_ok_iff.mpr ⟨peek?_of_remaining hts, ht, rfl⟩

/-- The connective that must stand between the operands of a group. -/
theorem connective :
  Follows limit s (fun _ => Descent.connective) (Sentence.joint s.cursor.remaining)
  := by
  cases hts : s.cursor.remaining with
  | nil =>
      apply pass_error
      apply Cursor.advance_eq_error_iff.mpr ⟨rfl, peek?_of_remaining_nil hts⟩
  | cons t ts =>
      apply advance hts
      rw [Sentence.joint]
      cases hc : t.kind.connective? with
      | none => apply refuse
      | some c =>
          rw [← remaining_past hts]
          apply pure

/-- The bracket that must stand behind the inside of a group. -/
theorem close (b : Bracket) (a : Sentence) :
  Follows limit s (fun _ => Descent.pass (Cursor.expect (.closing b)) >>= fun _ => Pure.pure a)
    (Sentence.close b (a, s.cursor.remaining))
  := by
  cases hts : s.cursor.remaining with
  | nil =>
      apply pass_error
      apply Cursor.expect_eq_error_iff.mpr (.inl ⟨rfl, peek?_of_remaining_nil hts⟩)
  | cons t ts =>
      rw [Sentence.close]
      split
      · rename_i ht
        apply expect hts ht
        rw [← remaining_past hts]
        apply pure
      · rename_i ht
        apply pass_error
        apply Cursor.expect_eq_error_iff.mpr (.inr ⟨t, rfl, peek?_of_remaining hts, ht⟩)

end Follows

end Descent

end Sentential

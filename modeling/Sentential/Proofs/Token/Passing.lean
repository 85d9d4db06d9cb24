import Sentential.Token.Cursor
import Mathlib.Tactic.Use

/-!
# Passing tokens in place

The moves of a cursor give back a new one.  Here a cursor is the state of a program that looks at
it and moves it in steps, and may refuse after any of them: `pass` and `passKind` do in place what
`advance` and `expect` do.  That nothing has moved where they refuse is a fact about them
(`call_advance`, `call_expect`).

`Yields c us c'` says that on the way from the cursor `c` to the cursor `c'` the tokens `us` are
passed, one for each place in the list.  A call passes one token or none, and calls in sequence pass
their tokens in sequence.  So what has been passed since the start is the part of the list before
the position, whatever calls have failed in between.
-/

namespace Sentential

namespace Cursor

/-! ### Calls -/

/-- A call on a cursor that is moved in place. -/
inductive Call where
  /-- The next token. -/
  | peek
  /-- The kind of the next token. -/
  | peekKind
  /-- Pass the next token. -/
  | advance
  /-- Pass the next token if it is of kind `k`. -/
  | expect (k : Token.Kind)
  /-- Whether all tokens have been passed. -/
  | isExhausted
  /-- Whether there are no tokens at all. -/
  | isEmpty
  /-- The number of all tokens, passed or not. -/
  | length
  /-- All tokens, passed or not. -/
  | tokens
  deriving DecidableEq, Repr

/-- Whether a call only asks. -/
def Call.isQuery : Call → Bool
  | advance | expect _ => false
  | peek | peekKind | isExhausted | isEmpty | length | tokens => true

/-- The reply to a call. -/
inductive Reply where
  | token (t? : Option Token)
  | kind (k? : Option Token.Kind)
  | passed (t : Token)
  | refused (e : ParseError)
  | truth (b : Bool)
  | number (n : Nat)
  | tokens (ts : List Token)
  deriving DecidableEq, Repr

namespace Reply

/-- The reply of a program that passes a token or refuses to. -/
def ofOutcome : Except ParseError Token → Reply
  | .error e => refused e
  | .ok t => passed t

/-- The token that has been passed, if one has. -/
def passed? : Reply → Option Token
  | passed t => some t
  | _ => none

end Reply

/-- The tokens that have been passed, in order. -/
def passedTokens (rs : List Reply) : List Token := rs.filterMap Reply.passed?

/-- A program that moves a cursor in place: it returns a value or refuses to, and leaves a cursor
behind. -/
abbrev Action := ExceptT ParseError (StateM Cursor)

/-- The end of a program, with the cursor that it leaves behind. -/
def run {α : Type} (x : Action α) (c : Cursor) : Except ParseError α × Cursor :=
  StateT.run (ExceptT.run x) c

/-- Pass the next token, which is looked at before the cursor moves. -/
def pass : Action Token := do
  match (← get).peek? with
  | none => throw .unexpectedEnd
  | some t =>
    modify step
    return t

/-- Pass the next token once it has been seen to be of kind `k`. -/
def passKind (k : Token.Kind) : Action Token := do
  match (← get).peek? with
  | none => throw (.unexpectedEndExpecting k)
  | some t => if t.kind ≠ k then throw (.mismatch k t) else pass

/-- What is done at a call. -/
def Call.perform : Call → StateM Cursor Reply
  | peek => do return .token (← get).peek?
  | peekKind => do return .kind (← get).peekKind?
  | advance => do return .ofOutcome (← ExceptT.run pass)
  | expect k => do return .ofOutcome (← ExceptT.run (passKind k))
  | isExhausted => do return .truth (← get).isExhausted
  | isEmpty => do return .truth (← get).isEmpty
  | length => do return .number (← get).length
  | tokens => do return .tokens (← get).tokens

/-- The reply to a call, and the cursor as it is afterwards. -/
def call (c : Cursor) (d : Call) : Reply × Cursor := StateT.run d.perform c

/-- The cursor after some calls. -/
def after (c : Cursor) (ds : List Call) : Cursor := ds.foldl (fun c d => (c.call d).2) c

/-- The replies to some calls. -/
def replies (c : Cursor) : List Call → List Reply
  | [] => []
  | d :: ds => (c.call d).1 :: (c.call d).2.replies ds

/-- What a move comes to in place: if it fails, the cursor stays where it is. -/
def settle (c : Cursor) : Except ParseError (Token × Cursor) → Reply × Cursor
  | .error e => (.refused e, c)
  | .ok (t, c') => (.passed t, c')

section Moves

variable (c : Cursor)

/-- A program that looks at the cursor goes on with what it has seen. -/
theorem run_get_bind {α : Type} (k : Cursor → Action α) :
  run (get >>= k) c = run (k c) c
  := rfl

theorem run_pass :
  run pass c =
    match c.peek? with
    | none => (.error .unexpectedEnd, c)
    | some t => (.ok t, c.step)
  := by
  rw [pass, run_get_bind]
  split <;> rfl

theorem run_passKind (k : Token.Kind) :
  run (passKind k) c =
    match c.peek? with
    | none => (.error (.unexpectedEndExpecting k), c)
    | some t => if t.kind ≠ k then (.error (.mismatch k t), c) else run pass c
  := by
  rw [passKind, run_get_bind]
  split
  · rfl
  · split <;> rfl

/-- The next token is passed in place as the move of the cursor passes it. -/
theorem call_advance :
  c.call .advance = c.settle c.advance
  := by
  have hcall : c.call .advance = (.ofOutcome (run pass c).1, (run pass c).2) := rfl
  rw [hcall, run_pass, advance]
  cases c.peek? <;> rfl

/-- A token of a wanted kind is passed in place as the move of the cursor passes it: the second look
at the next token finds what the first has found. -/
theorem call_expect (k : Token.Kind) :
  c.call (.expect k) = c.settle (c.expect k)
  := by
  have hcall : c.call (.expect k)
      = (.ofOutcome (run (passKind k) c).1, (run (passKind k) c).2) := rfl
  rw [hcall, run_passKind, run_pass, expect]
  cases c.peek? with
  | none => rfl
  | some t =>
      simp only [ite_not]
      split <;> rfl

theorem settle_eq_passed_iff {x : Except ParseError (Token × Cursor)} {t : Token} :
  (c.settle x).1 = .passed t ↔ ∃ c', x = .ok (t, c')
  := by
  rcases x with e | ⟨u, c'⟩
  · simp [settle]
  · simp [settle]

theorem settle_eq_refused_iff {x : Except ParseError (Token × Cursor)} {e : ParseError} :
  (c.settle x).1 = .refused e ↔ x = .error e
  := by
  rcases x with e | ⟨u, c'⟩
  · simp [settle]
  · simp [settle]

/-- A call passes the next token, or it passes none and the cursor stays as it was. -/
theorem call_cases (d : Call) :
  (∃ t, c.peek? = some t ∧ c.call d = (.passed t, c.step))
    ∨ (c.call d).1.passed? = none ∧ (c.call d).2 = c
  := by
  cases d with
  | advance =>
      rw [call_advance, advance]
      cases c.peek? with
      | none => exact .inr ⟨rfl, rfl⟩
      | some t => exact .inl ⟨t, rfl, rfl⟩
  | expect k =>
      rw [call_expect, expect]
      cases c.peek? with
      | none => exact .inr ⟨rfl, rfl⟩
      | some t =>
          simp only
          split
          · exact .inl ⟨t, rfl, rfl⟩
          · exact .inr ⟨rfl, rfl⟩
  | peek | peekKind | isExhausted | isEmpty | length | tokens => exact .inr ⟨rfl, rfl⟩

end Moves

/-! ### What calls yield -/

/-- On the way from `c` to `c'` the tokens `us` are passed, one for each place. -/
structure Yields (c : Cursor) (us : List Token) (c' : Cursor) : Prop where
  tokens_eq : c'.tokens = c.tokens
  pos_eq : c'.pos = c.pos + us.length
  remaining_eq : c.remaining = us ++ c'.remaining

section Yields

variable {c c' c'' : Cursor} {us vs : List Token} {t : Token}

theorem Yields.refl (c : Cursor) :
  Yields c [] c
  := ⟨rfl, rfl, rfl⟩

theorem Yields.trans (h : Yields c us c') (h' : Yields c' vs c'') :
  Yields c (us ++ vs) c''
  where
  tokens_eq := h'.tokens_eq.trans h.tokens_eq
  pos_eq := by rw [h'.pos_eq, h.pos_eq, List.length_append, Nat.add_assoc]
  remaining_eq := by rw [h.remaining_eq, h'.remaining_eq, List.append_assoc]

theorem Yields.step (h : c.peek? = some t) :
  Yields c [t] c.step
  where
  tokens_eq := rfl
  pos_eq := rfl
  remaining_eq := remaining_of_peek? h

/-- A call passes the token that it returns, and nothing else. -/
theorem yields_call (c : Cursor) (d : Call) :
  Yields c (c.call d).1.passed?.toList (c.call d).2
  := by
  obtain ⟨t, ht, hcall⟩ | ⟨hnone, hstay⟩ := c.call_cases d
  · rw [hcall]
    apply Yields.step ht
  · rw [hnone, hstay]
    apply Yields.refl

theorem passedTokens_cons (r : Reply) (rs : List Reply) :
  passedTokens (r :: rs) = r.passed?.toList ++ passedTokens rs
  := by
  rw [passedTokens, List.filterMap_cons]
  cases r.passed? <;> rfl

/-- Calls in sequence pass the tokens that they return, in sequence. -/
theorem yields_after (c : Cursor) (ds : List Call) :
  Yields c (passedTokens (c.replies ds)) (c.after ds)
  := by
  induction ds generalizing c with
  | nil => apply Yields.refl
  | cons d ds ih =>
      rw [replies, passedTokens_cons]
      apply (yields_call c d).trans (ih (c.call d).2)

end Yields

/-! ### Any calls -/

section Replies

variable {c : Cursor} {d : Call} {k : Token.Kind} {t : Token} {e : ParseError}

theorem call_of_isQuery (h : d.isQuery) :
  (c.call d).2 = c
  := by
  cases d with
  | advance | expect k => cases h
  | peek | peekKind | isExhausted | isEmpty | length | tokens => rfl

/-- A call that refuses leaves the cursor as it was. -/
theorem call_of_refused (h : (c.call d).1 = .refused e) :
  (c.call d).2 = c
  := by
  obtain ⟨t, -, hcall⟩ | ⟨-, hstay⟩ := c.call_cases d
  · rw [hcall] at h
    cases h
  · apply hstay

/-- A call that passes a token passes the next one. -/
theorem call_of_passed (h : (c.call d).1 = .passed t) :
  c.peek? = some t ∧ (c.call d).2 = c.step
  := by
  obtain ⟨u, hu, hcall⟩ | ⟨hnone, -⟩ := c.call_cases d
  · rw [hcall] at h ⊢
    cases h
    exact ⟨hu, rfl⟩
  · rw [h] at hnone
    cases hnone

theorem call_isExhausted_eq_true_iff :
  (c.call .isExhausted).1 = .truth true ↔ (c.call .peek).1 = .token none
  := by
  have htruth : (c.call .isExhausted).1 = .truth c.isExhausted := rfl
  have htoken : (c.call .peek).1 = .token c.peek? := rfl
  rw [htruth, htoken, Reply.truth.injEq, Reply.token.injEq]
  apply isExhausted_iff_peek?_eq_none

theorem call_advance_eq_passed_iff :
  (c.call .advance).1 = .passed t ↔ c.peek? = some t
  := by
  rw [call_advance]
  simp only [settle_eq_passed_iff, advance_eq_ok_iff, exists_and_left, exists_eq, and_true]

theorem call_advance_eq_refused_iff :
  (c.call .advance).1 = .refused e ↔ e = .unexpectedEnd ∧ c.peek? = none
  := by
  rw [call_advance, settle_eq_refused_iff, advance_eq_error_iff]

theorem call_expect_eq_passed_iff :
  (c.call (.expect k)).1 = .passed t ↔ c.peek? = some t ∧ t.kind = k
  := by
  rw [call_expect]
  simp only [settle_eq_passed_iff, expect_eq_ok_iff, exists_and_left, exists_eq, and_true]

theorem call_expect_eq_refused_iff :
  (c.call (.expect k)).1 = .refused e
    ↔ (e = .unexpectedEndExpecting k ∧ c.peek? = none)
      ∨ ∃ t, e = .mismatch k t ∧ c.peek? = some t ∧ t.kind ≠ k
  := by
  rw [call_expect, settle_eq_refused_iff, expect_eq_error_iff]

end Replies

/-- After any calls on a cursor that began before the first of the tokens `ts`, the tokens that
have been passed are those of `ts` before the position, which is not behind the end of `ts`; with
those that remain they are all of `ts`.  The tokens and their number are still the same, and all
have been passed exactly if there is no next token.

A call that only asks leaves the cursor as it was, and so does a call that refuses to pass a token.
A call that passes one passes the next of `ts`, and moves the cursor behind it.  The next token is
refused only if there is none.  A token of kind `k` is refused as an unexpected end if there is no
next token, as a mismatch if the next token has another kind, and not otherwise. -/
theorem passedTokens_eq_take {ts us : List Token} {c : Cursor} (ds : List Call)
    (hc : c = (ofList ts).after ds) (hus : us = passedTokens ((ofList ts).replies ds)) :
  us = ts.take c.pos
    ∧ us ++ c.remaining = ts
    ∧ c.pos ≤ ts.length
    ∧ (c.tokens = ts ∧ (c.call .tokens).1 = .tokens ts ∧ (c.call .length).1 = .number ts.length)
    ∧ (c.call .peek).1 = .token ts[c.pos]?
    ∧ (c.call .peekKind).1 = .kind (ts[c.pos]?.map Token.kind)
    ∧ ((c.call .isExhausted).1 = .truth true ↔ (c.call .peek).1 = .token none)
    ∧ (∀ d, d.isQuery → (c.call d).2 = c)
    ∧ (∀ d e, (c.call d).1 = .refused e → (c.call d).2 = c)
    ∧ (∀ d t, (c.call d).1 = .passed t → ts[c.pos]? = some t ∧ (c.call d).2 = ⟨ts, c.pos + 1⟩)
    ∧ (c.call .advance = c.settle c.advance
      ∧ (∀ t, (c.call .advance).1 = .passed t ↔ ts[c.pos]? = some t)
      ∧ ∀ e, (c.call .advance).1 = .refused e ↔ e = .unexpectedEnd ∧ ts[c.pos]? = none)
    ∧ ∀ k, c.call (.expect k) = c.settle (c.expect k)
      ∧ (∀ t, (c.call (.expect k)).1 = .passed t ↔ ts[c.pos]? = some t ∧ t.kind = k)
      ∧ ∀ e, (c.call (.expect k)).1 = .refused e
        ↔ (e = .unexpectedEndExpecting k ∧ ts[c.pos]? = none)
          ∨ ∃ t, e = .mismatch k t ∧ ts[c.pos]? = some t ∧ t.kind ≠ k
  := by
  have hyields : Yields (ofList ts) us c := by
    rw [hc, hus]
    apply yields_after
  have htokens : c.tokens = ts := hyields.tokens_eq
  have hall : us ++ c.remaining = ts := hyields.remaining_eq.symm
  have hpos : c.pos = us.length := by
    rw [hyields.pos_eq]
    apply Nat.zero_add
  have hpeek : c.peek? = ts[c.pos]? := by rw [peek?, htokens]
  have hstep : c.step = ⟨ts, c.pos + 1⟩ := by rw [step, htokens]
  rw [← hpeek]
  have hlength : c.length = ts.length := by rw [length, htokens]
  refine ⟨?_, hall, ?_, ⟨htokens, congrArg Reply.tokens htokens, congrArg Reply.number hlength⟩,
    rfl, rfl, call_isExhausted_eq_true_iff, fun d => call_of_isQuery,
    fun d e => call_of_refused, ?_, ⟨c.call_advance, ?_, ?_⟩, ?_⟩
  · rw [← hall, hpos, List.take_left]
  · rw [← hall, hpos, List.length_append]
    apply Nat.le_add_right
  · intro d t h
    rw [← hstep]
    apply call_of_passed h
  · intro t
    apply call_advance_eq_passed_iff
  · intro e
    apply call_advance_eq_refused_iff
  · intro k
    use c.call_expect k
    constructor
    · intro t
      apply call_expect_eq_passed_iff
    · intro e
      apply call_expect_eq_refused_iff

/-- An opening bracket and an atom. -/
def openedAtom : List Token := [⟨.opening .round, "("⟩, ⟨.atom, "P"⟩]

/-- Behind the bracket, a closing bracket has been asked for in vain and is refused again.  The atom
is still the next token, and can be passed. -/
theorem openedAtom_passedTokens_eq_take :
  ⟨openedAtom, 1⟩ = (ofList openedAtom).after
        [.peekKind, .expect (.opening .round), .expect (.closing .round), .isExhausted]
    ∧ [⟨.opening .round, "("⟩] = passedTokens ((ofList openedAtom).replies
        [.peekKind, .expect (.opening .round), .expect (.closing .round), .isExhausted])
    ∧ [⟨.opening .round, "("⟩] = openedAtom.take 1
    ∧ call ⟨openedAtom, 1⟩ (.expect (.closing .round))
      = (.refused (.mismatch (.closing .round) ⟨.atom, "P"⟩), ⟨openedAtom, 1⟩)
    ∧ call ⟨openedAtom, 1⟩ (.expect .atom) = (.passed ⟨.atom, "P"⟩, ⟨openedAtom, 2⟩)
  := by
  have hc : (⟨openedAtom, 1⟩ : Cursor) = (ofList openedAtom).after
      [.peekKind, .expect (.opening .round), .expect (.closing .round), .isExhausted] := by
    decide
  have hus : [⟨.opening .round, "("⟩] = passedTokens ((ofList openedAtom).replies
      [.peekKind, .expect (.opening .round), .expect (.closing .round), .isExhausted]) := by
    decide
  obtain ⟨htake, -, -, -, -, -, -, -, hrefused, hpassed, -, hexpect⟩ :=
    passedTokens_eq_take _ hc hus
  have hmismatch := ((hexpect (.closing .round)).2.2 _).mpr
    (.inr ⟨⟨.atom, "P"⟩, rfl, rfl, by decide⟩)
  have hatom := ((hexpect .atom).2.1 ⟨.atom, "P"⟩).mpr ⟨rfl, rfl⟩
  refine ⟨hc, hus, htake, Prod.ext hmismatch (hrefused _ _ hmismatch), Prod.ext hatom ?_⟩
  apply (hpassed _ _ hatom).2

end Cursor

end Sentential

/-!
# Outcomes

What is computed in steps that may fail has a value when every step has one, and its error is
that of the first step that fails.
-/

namespace Sentential

variable {ε α β : Type} {x : Except ε α} {f : α → Except ε β}

@[simp]
theorem ok_bind (a : α) (f : α → Except ε β) :
  (Except.ok a).bind f = f a
  := rfl

@[simp]
theorem error_bind (e : ε) (f : α → Except ε β) :
  (Except.error e : Except ε α).bind f = .error e
  := rfl

theorem bind_assoc {γ : Type} {g : β → Except ε γ} :
  (x.bind f).bind g = x.bind fun a => (f a).bind g
  := by
  cases x <;> rfl

theorem bind_eq_ok_iff {b : β} :
  x.bind f = .ok b ↔ ∃ a, x = .ok a ∧ f a = .ok b
  := by
  cases x <;> simp

theorem map_eq_ok_iff {h : α → β} {b : β} :
  x.map h = .ok b ↔ ∃ a, x = .ok a ∧ h a = b
  := by
  cases x <;> simp [Except.map]

theorem map_eq_error_iff {h : α → β} {e : ε} :
  x.map h = .error e ↔ x = .error e
  := by
  cases x <;> simp [Except.map]

theorem bind_eq_error_iff {e : ε} :
  x.bind f = .error e ↔ x = .error e ∨ ∃ a, x = .ok a ∧ f a = .error e
  := by
  cases x <;> simp

end Sentential

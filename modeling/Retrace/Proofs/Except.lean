/-!
# Computations that succeed or fail

What must have happened in a computation in `Except` that gave a value: every step of it gave one.
If it fails, one of its steps has failed, so whatever is known of the errors of all steps is known
of the error of the computation.
-/

namespace Except

universe u v w

variable {ε ε' : Type u} {α β : Type v}

/-- A computation in two steps succeeds if both steps do. -/
theorem bind_eq_ok {first : Except ε α} {second : α → Except ε β} {b : β} :
    first >>= second = .ok b ↔ ∃ a, first = .ok a ∧ second a = .ok b := by
  cases first <;> simp [bind, Except.bind]

theorem mapError_ok (change : ε → ε') (a : α) :
    (.ok a : Except ε α).mapError change = .ok a :=
  rfl

theorem mapError_error (change : ε → ε') (error : ε) :
    (.error error : Except ε α).mapError change = .error (change error) :=
  rfl

/-- Telling another error changes nothing about success. -/
theorem mapError_eq_ok {change : ε → ε'} {result : Except ε α} {a : α} :
    result.mapError change = .ok a ↔ result = .ok a := by
  cases result <;> simp [mapError_ok, mapError_error]

theorem map_eq_ok {change : α → β} {result : Except ε α} {b : β} :
    result.map change = .ok b ↔ ∃ a, result = .ok a ∧ change a = b := by
  cases result <;> simp [Except.map]

/-- Telling another error changes nothing about failure. -/
theorem mapError_eq_error {change : ε → ε'} {result : Except ε α} {error' : ε'} :
    result.mapError change = .error error' ↔
      ∃ error, result = .error error ∧ change error = error' := by
  cases result <;> simp [mapError_ok, mapError_error]

theorem map_eq_error {change : α → β} {result : Except ε α} {error : ε} :
    result.map change = .error error ↔ result = .error error := by
  cases result <;> simp [Except.map]

theorem toOption_eq_some {result : Except ε α} {a : α} :
    result.toOption = some a ↔ result = .ok a := by
  cases result <;> simp [Except.toOption]

/-- A computation with a state that gives no value fails. -/
theorem exists_eq_error {σ : Type w} (result : Except ε α × σ) (h : result.1.toOption = none) :
    ∃ error after, result = (.error error, after) := by
  obtain ⟨first, after⟩ := result
  cases first with
  | ok a => cases h
  | error error => exact ⟨error, after, rfl⟩

/-! ## Errors -/

/-- The error of a computation has a property, if there is one. -/
def FailsWith (property : ε → Prop) (result : Except ε α) : Prop :=
  ∀ error, result = .error error → property error

variable {property : ε → Prop}

theorem failsWith_ok (a : α) : (.ok a : Except ε α).FailsWith property :=
  nofun

theorem failsWith_error {error : ε} (h : property error) :
    (.error error : Except ε α).FailsWith property := by
  rintro _ ⟨⟩
  exact h

/-- A computation in two steps fails with the error of one of them. -/
theorem FailsWith.bind {first : Except ε α} {second : α → Except ε β}
    (h : first.FailsWith property) (h' : ∀ a, first = .ok a → (second a).FailsWith property) :
    (first >>= second).FailsWith property := by
  cases first with
  | ok a => exact h' a rfl
  | error error => exact failsWith_error (h error rfl)

theorem FailsWith.map {result : Except ε α} (h : result.FailsWith property) (change : α → β) :
    (result.map change).FailsWith property := by
  cases result with
  | ok a => exact failsWith_ok (change a)
  | error error => exact failsWith_error (h error rfl)

/-- Telling another error changes what is known of it. -/
theorem FailsWith.mapError {property' : ε' → Prop} {result : Except ε α} {change : ε → ε'}
    (h : result.FailsWith fun error => property' (change error)) :
    (result.mapError change).FailsWith property' := by
  cases result with
  | ok a => exact failsWith_ok a
  | error error => exact failsWith_error (h error rfl)

end Except

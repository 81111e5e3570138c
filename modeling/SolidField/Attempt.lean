/-!
# Attempts

An attempt is a step on a state that may fail.  It returns the state that it
has reached whether it fails or not, so that what happened before a failure
stays visible.
-/

universe u v w

namespace SolidField

/-- A step on a state `σ` with a result `β` or an error `ε`. -/
def Attempt (σ : Type u) (ε : Type v) (β : Type w) :=
  σ → Except ε β × σ

namespace Attempt

variable {σ : Type u} {ε : Type v}

def succeed {β : Type w} (result : β) : Attempt σ ε β :=
  fun state => (.ok result, state)

def fail {β : Type w} (error : ε) : Attempt σ ε β :=
  fun state => (.error error, state)

/-- One step after another; a failure ends the sequence. -/
def andThen {β : Type w} {γ : Type w} (first : Attempt σ ε β)
    (next : β → Attempt σ ε γ) : Attempt σ ε γ :=
  fun state =>
    match first state with
    | (.ok result, state) => next result state
    | (.error error, state) => (.error error, state)

instance : Monad (Attempt σ ε) where
  pure := succeed
  bind := andThen

@[simp]
theorem pure_apply {β : Type w} (result : β) (state : σ) :
    (pure result : Attempt σ ε β) state = (.ok result, state) := rfl

/-- After a success the next step runs on its result. -/
theorem bind_apply_ok {β γ : Type w} {first : Attempt σ ε β}
    {next : β → Attempt σ ε γ} {state reached : σ} {result : β}
    (succeeded : first state = (.ok result, reached)) :
    (first >>= next) state = next result reached := by
  simp only [bind, andThen, succeeded]

/-- After a failure nothing runs. -/
theorem bind_apply_error {β γ : Type w} {first : Attempt σ ε β}
    {next : β → Attempt σ ε γ} {state reached : σ} {error : ε}
    (failed : first state = (.error error, reached)) :
    (first >>= next) state = (.error error, reached) := by
  simp only [bind, andThen, failed]

/-- A sequence succeeds if and only if both of its steps do. -/
theorem bind_apply_eq_ok_iff {β γ : Type w} {first : Attempt σ ε β}
    {next : β → Attempt σ ε γ} {state reached : σ} {result : γ} :
    (first >>= next) state = (.ok result, reached) ↔
      ∃ value between, first state = (.ok value, between) ∧
        next value between = (.ok result, reached) := by
  constructor
  · intro succeeded
    rcases attempted : first state with ⟨error | value, between⟩
    · rw [bind_apply_error attempted] at succeeded
      cases succeeded
    · rw [bind_apply_ok attempted] at succeeded
      exact ⟨value, between, rfl, succeeded⟩
  · rintro ⟨value, between, attempted, succeeded⟩
    rw [bind_apply_ok attempted, succeeded]

theorem pure_apply_eq_ok_iff {β : Type w} {result other : β}
    {state reached : σ} :
    (pure result : Attempt σ ε β) state = (.ok other, reached) ↔
      result = other ∧ state = reached := by
  rw [pure_apply, Prod.mk.injEq, Except.ok.injEq]

end Attempt

/-! ## Results that are computed -/

section Results

variable {ε : Type u} {β : Type v} {γ : Type w} {tried : Except ε β}

/-- What is seen of a result shows that there is one. -/
theorem exists_eq_ok_of_map {view : β → γ} {seen : γ}
    (found : tried.toOption.map view = some seen) :
    ∃ result, tried = .ok result ∧ view result = seen := by
  cases tried with
  | error error => cases found
  | ok result => exact ⟨result, rfl, Option.some.inj found⟩

/-- A result can be computed as an option, without comparing errors. -/
theorem eq_ok_of_toOption {result : β} (found : tried.toOption = some result) :
    tried = .ok result := by
  have seen : tried.toOption.map id = some result := by
    rw [found]
    rfl
  rcases exists_eq_ok_of_map seen with ⟨other, succeeded, rfl⟩
  exact succeeded

end Results

end SolidField

import Mathlib.Tactic.TypeStar

/-!
# Coroutines, run to their end

A coroutine changes a state, and then it returns a value or raises an exception: `EStateM` of core,
which keeps the state that an exception leaves behind.  Its `tryFinally` is `try … finally`: an
exception of the last part replaces the one before.

* `Coro σ ε α`     a coroutine on the states `σ`, with the exceptions `ε` and the value `α`;
* `mapError f x`   `x`, raising `f e` in place of `e`;
* `final r`        the state at the end, however it came about.

The rules `…_eq_ok` say when a coroutine returns, the rules `final_…` where it ends.
-/

namespace Aio

abbrev Coro (σ ε α : Type) := EStateM ε σ α

section
variable {σ ε α β : Type}

def mapError (f : ε → ε) (x : Coro σ ε α) : Coro σ ε α := fun s =>
  match x s with
  | .ok a s => .ok a s
  | .error e s => .error (f e) s

def final : EStateM.Result ε σ α → σ
  | .ok _ s => s
  | .error _ s => s

variable {x : Coro σ ε α} {f : α → Coro σ ε β} {s s' : σ} {a : α} {b : β} {e : ε}

/-! ## one after the other -/

theorem bind_of_ok {s₁ : σ} (h : x s = .ok a s₁) : (x >>= f) s = f a s₁ := by
  show EStateM.bind x f s = _
  unfold EStateM.bind
  rw [h]

theorem bind_of_error (h : x s = .error e s') : (x >>= f) s = .error e s' := by
  show EStateM.bind x f s = _
  unfold EStateM.bind
  rw [h]

theorem bind_eq_ok :
    (x >>= f) s = .ok b s' ↔ ∃ a s₁, x s = .ok a s₁ ∧ f a s₁ = .ok b s' := by
  constructor
  · intro h
    cases hx : x s with
    | ok a s₁ =>
      rw [bind_of_ok hx] at h
      exact ⟨a, s₁, rfl, h⟩
    | error e s₁ =>
      rw [bind_of_error hx] at h
      cases h
  · rintro ⟨a, s₁, hx, hf⟩
    rw [bind_of_ok hx, hf]

theorem bind_get (f : σ → Coro σ ε β) : (get >>= f) s = f s s := rfl
theorem bind_modify (g : σ → σ) (f : PUnit → Coro σ ε β) :
    (modify g >>= f) s = f ⟨⟩ (g s) := rfl

theorem final_bind {I : σ → Prop} (hx : I (final (x s))) (hf : ∀ a s, I s → I (final (f a s))) :
    I (final ((x >>= f) s)) := by
  cases h : x s with
  | ok a s₁ =>
    rw [h] at hx
    rw [bind_of_ok h]
    exact hf a s₁ hx
  | error e s₁ =>
    rw [h] at hx
    rw [bind_of_error h]
    exact hx

theorem final_bind_pure (g : α → β) : final ((x >>= fun a => pure (g a)) s) = final (x s) := by
  cases h : x s with
  | ok a s₁ =>
    rw [bind_of_ok h]
    rfl
  | error e s₁ =>
    rw [bind_of_error h]
    rfl

/-! ## exceptions -/

theorem mapError_eq_ok {g : ε → ε} : mapError g x s = .ok a s' ↔ x s = .ok a s' := by
  unfold mapError
  cases x s with
  | ok b s₁ => exact Iff.rfl
  | error e s₁ => exact ⟨nofun, nofun⟩

theorem final_mapError (g : ε → ε) : final (mapError g x s) = final (x s) := by
  unfold mapError
  cases x s <;> rfl

/-- after a return the last part decides, after an exception it only can raise another one -/
theorem tryFinally_eq (y : Coro σ ε β) : tryFinally x y s = match x s with
    | .ok a s₁ => match y s₁ with
      | .ok _ s₂ => .ok a s₂
      | .error e s₂ => .error e s₂
    | .error e s₁ => match y s₁ with
      | .ok _ s₂ => .error e s₂
      | .error e s₂ => .error e s₂ := by
  cases hx : x s with
  | ok a s₁ =>
    cases hy : y s₁ <;> simp [tryFinally, tryFinally', Functor.map, EStateM.map, hx, hy]
  | error e s₁ =>
    cases hy : y s₁ <;> simp [tryFinally, tryFinally', Functor.map, EStateM.map, hx, hy]

theorem tryFinally_eq_ok {y : Coro σ ε β} :
    tryFinally x y s = .ok a s' ↔ ∃ b s₁, x s = .ok a s₁ ∧ y s₁ = .ok b s' := by
  rw [tryFinally_eq]
  constructor
  · intro h
    cases hx : x s with
    | ok c s₁ =>
      rw [hx] at h
      cases hy : y s₁ with
      | ok b s₂ =>
        simp only [hy] at h
        cases h
        exact ⟨b, s₁, rfl, hy⟩
      | error e s₂ =>
        simp only [hy] at h
        cases h
    | error e s₁ =>
      rw [hx] at h
      cases hy : y s₁ <;> simp only [hy] at h <;> cases h
  · rintro ⟨b, s₁, hx, hy⟩
    simp only [hx, hy]

/-- the last part runs in any case -/
theorem final_tryFinally (y : Coro σ ε β) :
    final (tryFinally x y s) = final (y (final (x s))) := by
  rw [tryFinally_eq]
  cases hx : x s with
  | ok a s₁ => cases hy : y s₁ <;> simp only [final, hy]
  | error e s₁ => cases hy : y s₁ <;> simp only [final, hy]

end

end Aio

import LazyFormula.Evaluation
/-!
# Computations with a state that may fail

Evaluations, sheets, sessions and their runs are all computations of this kind. One step after another starts in the
state that the first one left, and is left out if that failed (`bind_apply`).
-/
namespace LazyFormula

variable {ε σ α β : Type}

theorem bind_apply (x : ExceptT ε (StateM σ) α) (f : α → ExceptT ε (StateM σ) β) (s : σ) :
    (x >>= f) s = match x s with
      | (.ok a, s') => f a s'
      | (.error e, s') => (.error e, s') := by
  show ExceptT.bindCont f (x s).1 (x s).2 = _
  rcases x s with ⟨r, s'⟩
  cases r <;> rfl

theorem get_apply (f : σ → ExceptT ε (StateM σ) β) (s : σ) : (MonadState.get >>= f) s = f s s := rfl

/-- Two steps succeed if the first one does, and the second one in what it leaves. -/
theorem bind_eq_ok {x : ExceptT ε (StateM σ) α} {f : α → ExceptT ε (StateM σ) β} {s s' : σ} {b : β} :
    (x >>= f) s = (.ok b, s') ↔ ∃ a s₁, x s = (.ok a, s₁) ∧ f a s₁ = (.ok b, s') := by
  rw [bind_apply]
  rcases x s with ⟨r, s₁⟩
  cases r with
  | error e => exact ⟨fun h => (by cases h), fun ⟨_, _, h, _⟩ => by cases h⟩
  | ok a => exact ⟨fun h => ⟨a, s₁, rfl, h⟩, fun ⟨_, _, h, hf⟩ => by cases h; exact hf⟩

end LazyFormula

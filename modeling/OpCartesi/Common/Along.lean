import OpCartesi.Common.Exec

/-!
# Computations that move along a preorder

`Along R x`: wherever `x` starts and however it ends, its last state is `R`-after its first. For a
reflexive and transitive `R` the property passes through every way of putting computations
together, so that it has to be proved of the primitives only. It says nothing about answers, and
it holds of a computation that stops half-way.
-/

namespace OpCartesi.Exec

variable {ε ε' σ τ α β : Type} {R : σ → σ → Prop} {x : EStateM ε σ α}

/-- Every run of `x` ends, normally or with an exception, in a state `R`-after its first. -/
def Along (R : σ → σ → Prop) (x : EStateM ε σ α) : Prop := ∀ s, R s (endState (x.run s))

namespace Along

section

variable [Std.Refl R]

theorem of_same (h : ∀ s, endState (x.run s) = s) : Along R x := by
  intro s
  rw [h s]
  exact Std.Refl.refl s

theorem pure (a : α) : Along R (pure a : EStateM ε σ α) := of_same fun _ => rfl

theorem throw (e : ε) : Along R (throw e : EStateM ε σ α) := of_same fun _ => rfl

theorem get : Along R (get : EStateM ε σ σ) := of_same fun _ => rfl

theorem check (x : Except ε α) : Along R (check x : EStateM ε σ α) := by
  refine of_same fun s => ?_
  cases x <;> rfl

end

theorem modify {f : σ → σ} (h : ∀ s, R s (f s)) : Along R (modify f : EStateM ε σ PUnit) := h

theorem bind [IsTrans σ R] {f : α → EStateM ε σ β} (hx : Along R x) (hf : ∀ a, Along R (f a)) :
    Along R (x >>= f) := by
  intro s
  have h₁ := hx s
  cases h : x.run s with
  | ok a t =>
    rw [h] at h₁
    rw [bind_ok h]
    exact IsTrans.trans _ _ _ h₁ (hf a t)
  | error e t =>
    rw [h] at h₁
    rw [bind_error h]
    exact h₁

/-- Run on a part of the state. -/
theorem zoom {Q : τ → τ → Prop} {part : τ → σ} {put : σ → τ → τ} {wrap : ε → ε'} (hx : Along R x)
    (h : ∀ t s, R (part t) s → Q t (put s t)) : Along Q (zoom part put wrap x) := by
  intro t
  have h₁ := hx (part t)
  cases hr : x.run (part t) with
  | ok a s =>
    rw [hr] at h₁
    rw [zoom_ok hr]
    exact h t s h₁
  | error e s =>
    rw [hr] at h₁
    rw [zoom_error hr]
    exact h t s h₁

end Along

end OpCartesi.Exec

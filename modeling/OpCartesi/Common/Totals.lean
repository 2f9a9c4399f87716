import Mathlib.Algebra.BigOperators.Group.Finset.Basic
import Mathlib.Algebra.BigOperators.Ring.Finset
import Mathlib.Tactic

/-!
# Totals of finite maps

The sum of the values of a map with natural values over a finite type, and what a change of
one value does to it.
-/

namespace OpCartesi

open Finset

variable {α : Type*} [Fintype α] [DecidableEq α]

/-- The sum of all values. -/
def total (f : α → ℕ) : ℤ := ∑ a, (f a : ℤ)

omit [DecidableEq α] in
theorem total_zero : total (fun _ : α => 0) = 0 := by
  simp [total]

theorem total_update (f : α → ℕ) (a : α) (n : ℕ) :
    total (Function.update f a n) = total f - f a + n := by
  have hcast : ∀ x, ((Function.update f a n x : ℕ) : ℤ) =
      Function.update (fun x => (f x : ℤ)) a (n : ℤ) x := by
    intro x
    simp only [Function.update_apply]
    split_ifs <;> rfl
  rw [total, total, sum_congr rfl fun x _ => hcast x, sum_update_of_mem (mem_univ a),
    ← add_sum_erase univ (fun x => (f x : ℤ)) (mem_univ a), sdiff_singleton_eq_erase]
  ring

/-- A change of one value by `delta`, when the value stays a natural number. -/
theorem total_add (f : α → ℕ) (a : α) (delta : ℤ) (h : 0 ≤ f a + delta) :
    total (Function.update f a (f a + delta).toNat) = total f + delta := by
  rw [total_update, Int.toNat_of_nonneg h]
  ring

end OpCartesi

import Mathlib.Algebra.BigOperators.Group.List.Basic
import Mathlib.Algebra.GroupWithZero.Nat
import Mathlib.Algebra.Order.BigOperators.Group.List
import Mathlib.Data.List.Enum
import Mathlib.Tactic.Common

/-! # Fair shares

A budget is split over the positions of a list: `fairShare` gives each the quotient and one of the
remainder to the first ones. The shares add up to the budget (`sum_fairShare`).
-/
namespace Concurrency
set_option autoImplicit false

/-- The share of position `i` among `n`. -/
def fairShare (budget n i : ℕ) : ℕ := budget / n + if i < budget % n then 1 else 0

/-- A sum over positions, of the first `k` of which each counts for one. -/
theorem sum_range_indicator (n k : ℕ) :
    ((List.range n).map fun i => if i < k then 1 else 0).sum = min n k := by
  induction n with
  | zero => simp
  | succ n ih =>
    rw [List.range_succ, List.map_append, List.sum_append, ih]
    simp only [List.map_cons, List.map_nil, List.sum_cons, List.sum_nil]
    split <;> omega

theorem sum_fairShare {n : ℕ} (hn : 0 < n) (budget : ℕ) :
    ((List.range n).map (fairShare budget n)).sum = budget := by
  have hquotient : ((List.range n).map fun _ => budget / n).sum = n * (budget / n) := by
    simp
  have hremainder := sum_range_indicator n (budget % n)
  have hsplit : ((List.range n).map (fairShare budget n)).sum =
      ((List.range n).map fun _ => budget / n).sum +
        ((List.range n).map fun i => if i < budget % n then 1 else 0).sum := by
    rw [← List.sum_map_add]
    rfl
  have hlt := Nat.mod_lt budget hn
  have hdiv := Nat.div_add_mod budget n
  omega

theorem fairShare_pos {budget n : ℕ} (hn : 0 < n) (hle : n ≤ budget) (i : ℕ) :
    0 < fairShare budget n i := by
  have hquotient : 0 < budget / n := Nat.div_pos hle hn
  unfold fairShare
  omega

end Concurrency

import Mathlib.Algebra.Order.BigOperators.Group.List
import Mathlib.Tactic.Linarith
import Mathlib.Tactic.Ring

/-!
# Shares that are rounded down

Amounts are divided by the same number, each of them rounded down. What their sum loses is the sum of the
remainders.
-/

namespace PiKachulm.Core

variable {n r : ℕ} {amounts : List ℕ}

/-- Division with remainder, summed up. -/
lemma sum_div_mod (n : ℕ) (amounts : List ℕ) :
    n * (amounts.map (· / n)).sum + (amounts.map (· % n)).sum = amounts.sum := by
  induction amounts with
  | nil => simp
  | cons t amounts ih =>
    have ht := Nat.div_add_mod t n
    simp only [List.map_cons, List.sum_cons, Nat.mul_add]
    omega

lemma sum_div_le_iff (hn : 0 < n) :
    (amounts.map (· / n)).sum ≤ r ↔ amounts.sum ≤ r * n + (amounts.map (· % n)).sum := by
  have hsum := sum_div_mod n amounts
  rw [← Nat.mul_le_mul_left_iff hn, Nat.mul_comm n r]
  omega

lemma lt_sum_div_add_iff (hn : 0 < n) :
    r < (amounts.map (· / n)).sum + n ↔ r * n + (amounts.map (· % n)).sum < amounts.sum + n * n := by
  have hsum := sum_div_mod n amounts
  rw [← Nat.mul_lt_mul_left hn, Nat.mul_add, Nat.mul_comm n r]
  omega

end PiKachulm.Core

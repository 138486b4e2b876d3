import Mathlib.Algebra.Order.Group.Nat
import Mathlib.Tactic.Common
import Mathlib.Tactic.Ring

/-!
# Aligned slots

For a base `b`, the slots of height `k` are the aligned runs of `b ^ k` consecutive numbers.
`slot b k p` is the number of the slot of height `k` that contains `p`; `lo b k n` and `hi b k n`
are the first and last elements of slot `n`.
-/

namespace PiKachulm.Core

variable {b k h m n p q : ℕ}

def slot (b k p : ℕ) : ℕ := p / b ^ k

def lo (b k n : ℕ) : ℕ := n * b ^ k

def hi (b k n : ℕ) : ℕ := n * b ^ k + (b ^ k - 1)

@[simp] lemma slot_zero : slot b 0 p = p := by simp [slot]

@[simp] lemma lo_zero : lo b 0 n = n := by simp [lo]

@[simp] lemma hi_zero : hi b 0 n = n := by simp [hi]

lemma slot_succ : slot b (k + 1) p = slot b k p / b := by
  rw [slot, slot, Nat.div_div_eq_div_mul, pow_succ]

lemma slot_le_slot (hpq : p ≤ q) : slot b k p ≤ slot b k q := Nat.div_le_div_right hpq

lemma lo_le_hi : lo b k n ≤ hi b k n := Nat.le_add_right _ _

lemma lo_le_lo (hmn : m ≤ n) : lo b k m ≤ lo b k n := Nat.mul_le_mul_right _ hmn

lemma hi_le_hi (hmn : m ≤ n) : hi b k m ≤ hi b k n := Nat.add_le_add_right (lo_le_lo hmn) _

lemma slot_eq_of_le (hk : h ≤ k) (hpq : slot b h p = slot b h q) : slot b k p = slot b k q := by
  induction hk with
  | refl => exact hpq
  | @step k _ ih => rw [slot_succ, slot_succ, ih]

/-- A slot starts with the first of the `b` slots of the height below that it is cut into. -/
lemma lo_mul : lo b k (n * b) = lo b (k + 1) n := by
  rw [lo, lo, pow_succ]
  ring

lemma lo_div_le : lo b (k + 1) (n / b) ≤ lo b k n := by
  rw [← lo_mul]
  exact lo_le_lo (Nat.div_mul_le_self n b)

/-- Slots are nested: a slot lies in the slot of any greater height with the same elements. -/
lemma lo_slot_anti (hk : h ≤ k) : lo b k (slot b k p) ≤ lo b h (slot b h p) := by
  induction hk with
  | refl => exact le_rfl
  | @step k _ ih =>
    rw [slot_succ]
    exact lo_div_le.trans ih

section Positive

variable [NeZero b]

/-- The elements of slot `n`. -/
lemma slot_eq_iff : slot b k p = n ↔ lo b k n ≤ p ∧ p ≤ hi b k n := by
  have hpow : 0 < b ^ k := Nat.pow_pos (NeZero.pos b)
  rw [slot, Nat.div_eq_iff hpow, lo, hi]
  omega

lemma lo_slot_le : lo b k (slot b k p) ≤ p := (slot_eq_iff.mp rfl).1

lemma le_hi_slot : p ≤ hi b k (slot b k p) := (slot_eq_iff.mp rfl).2

@[simp] lemma slot_lo : slot b k (lo b k n) = n := slot_eq_iff.mpr ⟨le_rfl, lo_le_hi⟩

@[simp] lemma slot_hi : slot b k (hi b k n) = n := slot_eq_iff.mpr ⟨lo_le_hi, le_rfl⟩

/-- Distinct slots of one height follow each other. -/
lemma hi_lt_lo (hmn : m < n) : hi b k m < lo b k n := by
  have hpow : 0 < b ^ k := Nat.pow_pos (NeZero.pos b)
  have hmul : (m + 1) * b ^ k ≤ n * b ^ k := Nat.mul_le_mul_right _ hmn
  rw [Nat.succ_mul] at hmul
  rw [hi, lo]
  omega

lemma hi_succ_eq : hi b k n + 1 = lo b k (n + 1) := by
  have hpow : 0 < b ^ k := Nat.pow_pos (NeZero.pos b)
  rw [hi, lo, Nat.succ_mul]
  omega

/-! ### Nesting -/

/-- A slot ends with the last of the slots of the height below. -/
lemma hi_mul_add : hi b k (n * b + (b - 1)) = hi b (k + 1) n := by
  have hlo : lo b k (n * b + (b - 1) + 1) = lo b (k + 1) (n + 1) := by
    have := NeZero.pos b
    rw [← lo_mul, Nat.succ_mul]
    congr 1
    omega
  have h₁ := hi_succ_eq (b := b) (k := k) (n := n * b + (b - 1))
  have h₂ := hi_succ_eq (b := b) (k := k + 1) (n := n)
  omega

lemma hi_le_hi_div : hi b k n ≤ hi b (k + 1) (n / b) := by
  rw [← hi_mul_add]
  apply hi_le_hi
  have := Nat.div_add_mod n b
  have := Nat.mod_lt n (NeZero.pos b)
  rw [Nat.mul_comm (n / b)]
  omega

lemma hi_slot_mono (hk : h ≤ k) : hi b h (slot b h p) ≤ hi b k (slot b k p) := by
  induction hk with
  | refl => exact le_rfl
  | @step k _ ih =>
    rw [slot_succ]
    exact ih.trans hi_le_hi_div

end Positive

end PiKachulm.Core

import Mathlib.Algebra.Order.Group.Nat
import Mathlib.Data.Nat.Bitwise
import Mathlib.Tactic.Common

/-!
# Fields of bits

A sequence of bytes is a sequence of bits, the lowest bit of each byte first. A field is a number that some
of the bits make up, wherever it starts; fields are joined, cut and moved to other bytes.
-/

namespace PiKachulm.Core

variable {bytes bytes' : ℕ → UInt8} {start m n v w i : ℕ}

def bit (bytes : ℕ → UInt8) (i : ℕ) : Bool := (bytes (i / 8)).toNat.testBit (i % 8)

/-- The number consists of the `n` bits from `start` on. -/
def Field (bytes : ℕ → UInt8) (start n v : ℕ) : Prop :=
  ∀ j, v.testBit j = (decide (j < n) && bit bytes (start + j))

namespace Field

lemma unique (hv : Field bytes start n v) (hw : Field bytes start n w) : v = w := by
  apply Nat.eq_of_testBit_eq
  intro j
  rw [hv j, hw j]

/-- A field depends on the bytes that have bits of it. -/
lemma congr (h : Field bytes start n v) (hbytes : ∀ j < n, bytes ((start + j) / 8) = bytes' ((start + j) / 8)) :
    Field bytes' start n v := by
  intro j
  rw [h j]
  by_cases hj : j < n
  · rw [bit, bit, hbytes j hj]
  · simp [hj]

lemma lt (h : Field bytes start n v) : v < 2 ^ n := by
  apply Nat.lt_pow_two_of_testBit
  intro j hj
  rw [h j, decide_eq_false (Nat.not_lt.mpr hj), Bool.false_and]

lemma byte (bytes : ℕ → UInt8) (i : ℕ) : Field bytes (8 * i) 8 (bytes i).toNat := by
  intro j
  by_cases hj : j < 8
  · rw [decide_eq_true hj, Bool.true_and, bit, Nat.mul_add_div (by decide), Nat.mul_add_mod,
      Nat.div_eq_of_lt hj, Nat.mod_eq_of_lt hj, Nat.add_zero]
  · rw [decide_eq_false hj, Bool.false_and]
    apply Nat.testBit_lt_two_pow
    exact (bytes i).toNat_lt.trans_le (Nat.pow_le_pow_right (by decide) (Nat.not_lt.mp hj))

/-- The higher bits are put in front of the lower ones. -/
lemma append (hlow : Field bytes start m v) (hhigh : Field bytes (start + m) n w) :
    Field bytes start (m + n) (w <<< m ||| v) := by
  intro j
  rw [Nat.testBit_lor, Nat.testBit_shiftLeft, hlow j]
  by_cases hj : j < m
  · simp [hj, Nat.lt_add_right n hj, Nat.not_le.mpr hj]
  · have hle := Nat.not_lt.mp hj
    rw [hhigh, Nat.add_assoc, Nat.add_sub_cancel' hle]
    simp [hj, hle, Nat.sub_lt_iff_lt_add' hle]

lemma shiftRight (h : Field bytes start (m + n) v) : Field bytes (start + m) n (v >>> m) := by
  intro j
  rw [Nat.testBit_shiftRight, h, Nat.add_assoc]
  simp

lemma mask (h : Field bytes start n v) (hle : m ≤ n) : Field bytes start m (v &&& (2 ^ m - 1)) := by
  intro j
  rw [Nat.testBit_and, h, Nat.testBit_two_pow_sub_one]
  by_cases hj : j < m
  · simp [hj, hj.trans_le hle]
  · simp [hj]

end Field

/-- The bits from `m` on are kept. -/
lemma and_two_pow_sub_two_pow (hn : v < 2 ^ n) (hm : m ≤ n) : v &&& (2 ^ n - 2 ^ m) = v / 2 ^ m * 2 ^ m := by
  have hmask : 2 ^ n - 2 ^ m = 2 ^ m * (2 ^ (n - m) - 1) := by
    rw [Nat.mul_sub, ← Nat.pow_add, Nat.add_sub_cancel' hm, Nat.mul_one]
  apply Nat.eq_of_testBit_eq
  intro j
  rw [Nat.testBit_and, hmask, Nat.testBit_two_pow_mul, Nat.testBit_two_pow_sub_one, Nat.testBit_mul_two_pow,
    Nat.testBit_div_two_pow]
  by_cases hj : m ≤ j
  · by_cases hlt : j < n
    · have : j - m < n - m := by omega
      simp [hj, this]
    · have : v.testBit j = false :=
        Nat.testBit_lt_two_pow (hn.trans_le (Nat.pow_le_pow_right (by decide) (Nat.not_lt.mp hlt)))
      simp [hj, this]
  · simp [hj]

end PiKachulm.Core

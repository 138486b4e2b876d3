import Mathlib.Algebra.Order.Ring.Nat
import Mathlib.Data.BitVec
import Mathlib.Data.Nat.Sqrt
import Mathlib.Tactic.Linarith
import Mathlib.Tactic.NormNum
import Mathlib.Tactic.Ring

/-!
# The integer square root

`isqrt` runs Newton's method from an estimate that must be too high. The estimates are of type
`unsigned int`, whatever the type of the argument, which is a `size_t` here.
-/

namespace PiKachulm.Libk

/-- The next value of Newton's method; the variables are of type `unsigned int`, the sum is a
`size_t`. -/
def isqrtStep (s x0 : ℕ) : ℕ := (x0 + s / x0) % 2 ^ 64 / 2 % 2 ^ 32

def isqrtFrom (s x0 : ℕ) : ℕ :=
  if isqrtStep s x0 < x0 then isqrtFrom s (isqrtStep s x0) else x0
termination_by x0

/-- `isqrt` on values of type `size_t`. -/
def isqrt (s : ℕ) : ℕ := if s ≤ 1 then s else isqrtFrom s (s / 2 % 2 ^ 32)

/-- The loop, with its divisions checked; `none` when it divides by zero. -/
def isqrtCheckedFrom (s x0 : ℕ) : Option ℕ :=
  if x0 = 0 then none
  else if isqrtStep s x0 < x0 then isqrtCheckedFrom s (isqrtStep s x0)
  else some x0
termination_by x0

/-- `isqrt` with its divisions checked. -/
def isqrtChecked (s : ℕ) : Option ℕ := if s ≤ 1 then some s else isqrtCheckedFrom s (s / 2 % 2 ^ 32)

variable {s x0 r : ℕ}

/-! ### Checked divisions -/

lemma isqrtFrom_of_checked (h : isqrtCheckedFrom s x0 = some r) : isqrtFrom s x0 = r := by
  induction x0 using Nat.strong_induction_on with
  | _ x0 ih =>
    rw [isqrtCheckedFrom] at h
    rw [isqrtFrom]
    split_ifs at h with hzero hlt
    · rw [if_pos hlt]
      exact ih _ hlt h
    · rw [if_neg hlt]
      exact Option.some_inj.mp h

lemma isqrt_of_checked (h : isqrtChecked s = some r) : isqrt s = r := by
  rw [isqrtChecked] at h
  rw [isqrt]
  split_ifs at h ⊢ with hone
  · exact Option.some_inj.mp h
  · exact isqrtFrom_of_checked h

/-! ### The loop -/

/-- An estimate that is too high gives a mean that fits into an `unsigned int`, unless everything is as
large as it can be. -/
lemma isqrtStep_eq (hs : s < 2 ^ 64 - 1) (hx : x0 < 2 ^ 32) (hhigh : s < (x0 + 1) * (x0 + 1)) :
    isqrtStep s x0 = (x0 + s / x0) / 2 := by
  have hquotient : x0 * (s / x0) ≤ s := Nat.mul_div_le s x0
  rcases Nat.eq_zero_or_pos x0 with rfl | hpos
  · rw [isqrtStep, Nat.div_zero]
    rfl
  have hle : s / x0 ≤ x0 + 2 := by
    by_contra hgt
    have hmul : x0 * (x0 + 3) ≤ x0 * (s / x0) := Nat.mul_le_mul_left x0 (by omega)
    nlinarith
  have hsum : (x0 + s / x0) / 2 < 2 ^ 32 := by
    by_contra hge
    -- the mean is `x0 + 1`, and the estimate the largest there is
    obtain rfl : x0 = 2 ^ 32 - 1 := by omega
    have hq : s / (2 ^ 32 - 1) = 2 ^ 32 + 1 := by omega
    rw [hq] at hquotient
    omega
  rw [isqrtStep, Nat.mod_eq_of_lt (b := 2 ^ 64) (by omega), Nat.mod_eq_of_lt hsum]

/-- The mean of an estimate and the quotient is not below the root. -/
lemma lt_mean_succ (hpos : 0 < x0) :
    s < ((x0 + s / x0) / 2 + 1) * ((x0 + s / x0) / 2 + 1) := by
  have hquotient : s < x0 * (s / x0 + 1) := Nat.lt_mul_div_succ s hpos
  generalize s / x0 = q at *
  have hmean : x0 + (q + 1) ≤ 2 * ((x0 + q) / 2 + 1) := by omega
  generalize (x0 + q) / 2 = m at *
  nlinarith [sq_nonneg ((x0 : ℤ) - (q + 1))]

/-- An estimate that is not below the root leads to it. -/
lemma isqrtCheckedFrom_of_high (hone : 1 < s) (hs : s < 2 ^ 64 - 1) (hx : x0 < 2 ^ 32)
    (hhigh : s < (x0 + 1) * (x0 + 1)) :
    ∃ r, isqrtCheckedFrom s x0 = some r ∧ r * r ≤ s ∧ s < (r + 1) * (r + 1) := by
  induction x0 using Nat.strong_induction_on with
  | _ x0 ih =>
    have hpos : 0 < x0 := by
      by_contra hzero
      obtain rfl : x0 = 0 := by omega
      omega
    have hstep := isqrtStep_eq hs hx hhigh
    rw [isqrtCheckedFrom, if_neg hpos.ne']
    split_ifs with hlt
    · apply ih _ hlt (hlt.trans hx)
      rw [hstep]
      exact lt_mean_succ hpos
    · refine ⟨x0, rfl, ?_, hhigh⟩
      rw [hstep, not_lt] at hlt
      have hle : x0 ≤ s / x0 := by omega
      calc x0 * x0 ≤ x0 * (s / x0) := Nat.mul_le_mul_left x0 hle
        _ ≤ s := Nat.mul_div_le s x0

/-- The estimates never grow. -/
lemma le_of_isqrtCheckedFrom (h : isqrtCheckedFrom s x0 = some r) : r ≤ x0 := by
  induction x0 using Nat.strong_induction_on with
  | _ x0 ih =>
    rw [isqrtCheckedFrom] at h
    split_ifs at h with hzero hlt
    · exact (ih _ hlt h).trans hlt.le
    · exact (Option.some_inj.mp h).ge

/-! ### The root -/

/-- The function returns the integer square root, and does not divide by zero. -/
def ComputesRoot (s : BitVec 64) : Prop :=
  ∃ r, isqrtChecked s.toNat = some r ∧ r * r ≤ s.toNat ∧ s.toNat < (r + 1) * (r + 1)

/-- The first estimate is half of the argument, of which 32 bits are kept. -/
def estimate (s : BitVec 64) : ℕ := s.toNat / 2 % 2 ^ 32

/-- The mean of the largest estimate and its quotient becomes 0. -/
lemma isqrtChecked_max : isqrtChecked (2 ^ 64 - 1) = none := by
  have hstep : isqrtStep (2 ^ 64 - 1) (2 ^ 32 - 1) = 0 := by decide
  have hzero : isqrtCheckedFrom (2 ^ 64 - 1) 0 = none := by rw [isqrtCheckedFrom, if_pos rfl]
  rw [isqrtChecked, if_neg (by norm_num), show (2 ^ 64 - 1) / 2 % 2 ^ 32 = 2 ^ 32 - 1 by norm_num,
    isqrtCheckedFrom, if_neg (by norm_num), hstep, if_pos (by norm_num), hzero]

/-- The root is computed when the first estimate is not below it, and the argument is not the largest. -/
theorem computesRoot_iff (s : BitVec 64) : ComputesRoot s ↔
    s.toNat ≤ 1 ∨ (s.toNat < (estimate s + 1) * (estimate s + 1) ∧ s.toNat ≠ 2 ^ 64 - 1) := by
  rw [ComputesRoot, isqrtChecked]
  have hs := s.isLt
  by_cases hone : s.toNat ≤ 1
  · refine ⟨fun _ => .inl hone, fun _ => ⟨s.toNat, if_pos hone, ?_, ?_⟩⟩
    · exact (Nat.mul_le_mul_left _ hone).trans_eq (Nat.mul_one _)
    · exact (Nat.lt_succ_self _).trans_le (Nat.le_mul_of_pos_left _ (Nat.succ_pos _))
  rw [if_neg hone]
  constructor
  · rintro ⟨r, hr, -, hlt⟩
    refine .inr ⟨?_, fun hmax => ?_⟩
    · have hle : r + 1 ≤ estimate s + 1 := Nat.succ_le_succ (le_of_isqrtCheckedFrom hr)
      exact hlt.trans_le (Nat.mul_le_mul hle hle)
    · have hnone := isqrtChecked_max
      rw [← hmax, isqrtChecked, if_neg hone, hr] at hnone
      cases hnone
  · rintro (hle | ⟨hhigh, hmax⟩)
    · exact absurd hle hone
    · exact isqrtCheckedFrom_of_high (not_le.mp hone) (by omega) (Nat.mod_lt _ (by norm_num)) hhigh

/-- Of `2 ^ 33` nothing is left in the first estimate, and it is divided by. -/
theorem not_computesRoot : ¬ComputesRoot (2 ^ 33) := by
  rintro ⟨r, hr, -⟩
  have hzero : isqrtCheckedFrom (2 ^ 33) 0 = none := by rw [isqrtCheckedFrom, if_pos rfl]
  have hnone : isqrtChecked (2 ^ 33) = none := by
    rw [isqrtChecked, if_neg (by norm_num), show 2 ^ 33 / 2 % 2 ^ 32 = 0 by norm_num, hzero]
  have hnat : (2 ^ 33 : BitVec 64).toNat = 2 ^ 33 := by decide
  rw [hnat, hnone] at hr
  cases hr

/-- The loop computes the root of every value of 32 bits. -/
theorem isqrt_eq_sqrt {s : ℕ} (hs : s < 2 ^ 32) : isqrt s = Nat.sqrt s := by
  by_cases hone : s ≤ 1
  · rw [isqrt, if_pos hone]
    obtain rfl | rfl : s = 0 ∨ s = 1 := by omega
    · exact Nat.sqrt_zero.symm
    · exact Nat.sqrt_one.symm
  · have hhalf : s / 2 % 2 ^ 32 = s / 2 := Nat.mod_eq_of_lt (by omega)
    have hhigh : s < (s / 2 + 1) * (s / 2 + 1) := by
      have hs' : s ≤ 2 * (s / 2) + 1 := by omega
      nlinarith
    obtain ⟨r, hr, hroot⟩ := isqrtCheckedFrom_of_high (not_le.mp hone) (by omega) (by omega) hhigh
    have hchecked : isqrtChecked s = some r := by rw [isqrtChecked, if_neg hone, hhalf, hr]
    rw [isqrt_of_checked hchecked]
    exact Nat.eq_sqrt.mpr hroot

end PiKachulm.Libk

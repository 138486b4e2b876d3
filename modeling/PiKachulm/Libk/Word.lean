import PiKachulm.Libk.Utils

/-!
# Words as numbers

Addition and subtraction of 64-bit words that are given as natural numbers, and `align_to_next`.
-/

namespace PiKachulm.Libk

def wadd (a c : ℕ) : ℕ := (a + c) % 2 ^ 64

def wsub (a c : ℕ) : ℕ := (a + 2 ^ 64 - c) % 2 ^ 64

/-- `is_power_of_two`. -/
def isPowerOfTwo (n : ℕ) : Bool := decide (n > 0 ∧ n &&& (n - 1) = 0)

/-- `align_to_next`; `none` when its assertion fails. -/
def alignToNext (value alignment : ℕ) : Option ℕ :=
  if isPowerOfTwo alignment then
    let mask := alignment - 1
    some (wadd value mask &&& (2 ^ 64 - 1 - mask))
  else none

variable {a c n value alignment : ℕ}

lemma wadd_of_lt (h : a + c < 2 ^ 64) : wadd a c = a + c := Nat.mod_eq_of_lt h

lemma wsub_of_le (hle : c ≤ a) (ha : a < 2 ^ 64) : wsub a c = a - c := by
  have heq : a + 2 ^ 64 - c = a - c + 2 ^ 64 := by omega
  rw [wsub, heq, Nat.add_mod_right, Nat.mod_eq_of_lt (by omega)]

/-- Adding a difference that may have wrapped. -/
lemma wadd_wsub (ha : a < 2 ^ 64) (hc : c < 2 ^ 64) : wadd a (wsub c a) = c := by
  rw [wadd, wsub]
  omega

lemma isPowerOfTwo_iff : isPowerOfTwo n = true ↔ ∃ k, n = 2 ^ k := by
  rw [isPowerOfTwo, decide_eq_true_iff, gt_iff_lt, Nat.pos_iff_ne_zero]
  exact Nat.ne_zero_and_sub_one_eq_zero_iff_isPowerOfTwo

/-- Clearing the low bits of a word. -/
lemma and_not_mask {x k : ℕ} (hk : k ≤ 64) (hx : x < 2 ^ 64) :
    x &&& (2 ^ 64 - 1 - (2 ^ k - 1)) = x / 2 ^ k * 2 ^ k := by
  have hpow : 2 ^ (64 - k) * 2 ^ k = 2 ^ 64 := by rw [← pow_add, Nat.sub_add_cancel hk]
  have hmask : 2 ^ 64 - 1 - (2 ^ k - 1) = (2 ^ (64 - k) - 1) <<< k := by
    have hpos := Nat.two_pow_pos k
    rw [Nat.shiftLeft_eq, Nat.sub_mul, hpow, Nat.one_mul]
    omega
  rw [hmask, nat_and_mask, Nat.mod_eq_of_lt]
  exact Nat.div_lt_of_lt_mul (by rwa [Nat.mul_comm, hpow])

/-- `align_to_next` returns the first multiple from `value` on. -/
lemma alignToNext_spec (value : ℕ) (hpow : isPowerOfTwo alignment = true) (h : value + alignment ≤ 2 ^ 64) :
    ∃ r, alignToNext value alignment = some r ∧ value ≤ r ∧ r < value + alignment ∧
      r % alignment = 0 ∧ ∀ q, value ≤ q → q % alignment = 0 → r ≤ q := by
  obtain ⟨k, rfl⟩ := isPowerOfTwo_iff.mp hpow
  have hpos := Nat.two_pow_pos k
  have hk : k ≤ 64 := by
    by_contra hgt
    have hlt : 2 ^ 64 < 2 ^ k := Nat.pow_lt_pow_right (by decide) (Nat.lt_of_not_le hgt)
    omega
  have hadd : wadd value (2 ^ k - 1) = value + (2 ^ k - 1) := wadd_of_lt (by omega)
  have hmod := Nat.mod_lt (value + (2 ^ k - 1)) hpos
  have hdiv := Nat.div_add_mod (value + (2 ^ k - 1)) (2 ^ k)
  rw [Nat.mul_comm] at hdiv
  refine ⟨(value + (2 ^ k - 1)) / 2 ^ k * 2 ^ k, ?_, ?_, ?_, Nat.mul_mod_left _ _, ?_⟩
  · rw [alignToNext, if_pos hpow]
    simp only [hadd]
    rw [and_not_mask hk (by omega)]
  · omega
  · omega
  · intro q hq hmul
    have hdvd : q / 2 ^ k * 2 ^ k = q := Nat.div_mul_cancel (Nat.dvd_of_mod_eq_zero hmul)
    have hle : (value + (2 ^ k - 1)) / 2 ^ k ≤ q / 2 ^ k := by
      have hlt : value + (2 ^ k - 1) < (q / 2 ^ k + 1) * 2 ^ k := by
        rw [Nat.succ_mul, hdvd]
        omega
      exact Nat.lt_succ_iff.mp (Nat.div_lt_of_lt_mul (by rwa [Nat.mul_comm]))
    calc _ ≤ q / 2 ^ k * 2 ^ k := Nat.mul_le_mul_right _ hle
      _ = q := hdvd

/-- The result is a word, and at most the sum that is rounded down. -/
lemma alignToNext_le {r : ℕ} (h : alignToNext value alignment = some r) :
    r ≤ wadd value (alignment - 1) := by
  rw [alignToNext] at h
  split_ifs at h
  rw [Option.some.injEq] at h
  exact h ▸ Nat.and_le_left

lemma alignToNext_lt {r : ℕ} (h : alignToNext value alignment = some r) : r < 2 ^ 64 :=
  (alignToNext_le h).trans_lt (Nat.mod_lt _ (Nat.two_pow_pos 64))

/-- The first multiple of the alignment from `value` on, which may not be a word. -/
def alignUp (value alignment : ℕ) : ℕ := (value + (alignment - 1)) / alignment * alignment

lemma alignUp_mod : alignUp value alignment % alignment = 0 := Nat.mul_mod_left _ _

lemma le_alignUp (hpos : 0 < alignment) : value ≤ alignUp value alignment := by
  have hmod := Nat.mod_lt (value + (alignment - 1)) hpos
  have hdiv := Nat.div_add_mod (value + (alignment - 1)) alignment
  rw [Nat.mul_comm] at hdiv
  rw [alignUp]
  omega

lemma alignUp_lt (hpos : 0 < alignment) : alignUp value alignment < value + alignment := by
  have hle := Nat.div_mul_le_self (value + (alignment - 1)) alignment
  rw [alignUp]
  omega

/-- When the first multiple is a word, the sum of `align_to_next` does not wrap. -/
lemma add_le_of_alignUp_lt (hpow : isPowerOfTwo alignment = true) (h : alignUp value alignment < 2 ^ 64)
    (hvalue : 0 < value) : value + alignment ≤ 2 ^ 64 := by
  obtain ⟨k, rfl⟩ := isPowerOfTwo_iff.mp hpow
  have hpos := Nat.two_pow_pos k
  have hk : k < 64 := by
    by_contra hge
    have hle : 2 ^ 64 ≤ 2 ^ k := Nat.pow_le_pow_right (by decide) (Nat.le_of_not_lt hge)
    have hone : 1 ≤ (value + (2 ^ k - 1)) / 2 ^ k := Nat.div_pos (by omega) hpos
    have hmul := Nat.mul_le_mul_right (2 ^ k) hone
    rw [alignUp] at h
    omega
  have hsplit : 2 ^ (64 - k) * 2 ^ k = 2 ^ 64 := by rw [← pow_add, Nat.sub_add_cancel hk.le]
  rw [alignUp, ← hsplit] at h
  have hlt := Nat.lt_of_mul_lt_mul_right h
  rw [Nat.div_lt_iff_lt_mul hpos, hsplit] at hlt
  omega

lemma alignToNext_eq (hpow : isPowerOfTwo alignment = true) (h : alignUp value alignment < 2 ^ 64)
    (hvalue : 0 < value) : alignToNext value alignment = some (alignUp value alignment) := by
  have hpos : 0 < alignment := by
    obtain ⟨k, rfl⟩ := isPowerOfTwo_iff.mp hpow
    exact Nat.two_pow_pos k
  obtain ⟨r, hr, hge, hlt, hmod, hleast⟩ :=
    alignToNext_spec value hpow (add_le_of_alignUp_lt hpow h hvalue)
  have hle := hleast _ (le_alignUp hpos) alignUp_mod
  obtain ⟨m, rfl⟩ := Nat.dvd_of_mod_eq_zero hmod
  have hup : alignUp value alignment ≤ alignment * m := by
    rw [alignUp, Nat.mul_comm alignment m]
    refine Nat.mul_le_mul_right _ (Nat.lt_succ_iff.mp (Nat.div_lt_of_lt_mul ?_))
    rw [Nat.mul_succ]
    omega
  rw [hr, le_antisymm hle hup]

end PiKachulm.Libk

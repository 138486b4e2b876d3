import Mathlib.Logic.Function.Basic
import Mathlib.Algebra.Order.Group.Nat
import Mathlib.Tactic.Common

/-!
# memmove

`libk::memmove` copies byte after byte. It goes up when the destination is not behind the source and
down otherwise, so that no byte is overwritten before it has been copied.
-/

namespace PiKachulm.Libk

/-- The loop that goes up. -/
def copyUp (mem : ℕ → UInt8) (d s : ℕ) : ℕ → ℕ → UInt8
  | 0          => mem
  | length + 1 => copyUp (Function.update mem d (mem s)) (d + 1) (s + 1) length

/-- The loop that goes down, from the ends of the two ranges. -/
def copyDown (mem : ℕ → UInt8) (d s : ℕ) : ℕ → ℕ → UInt8
  | 0          => mem
  | length + 1 => copyDown (Function.update mem (d + length) (mem (s + length))) d s length

def memmove (mem : ℕ → UInt8) (dst src length : ℕ) : ℕ → UInt8 :=
  if dst ≤ src then copyUp mem dst src length else copyDown mem dst src length

/-- What a copy leaves: the bytes that the source had, and the memory as it was outside the destination. -/
def moved (mem : ℕ → UInt8) (dst src length : ℕ) : ℕ → UInt8 :=
  fun a => if dst ≤ a ∧ a < dst + length then mem (a - dst + src) else mem a

variable {mem : ℕ → UInt8} {d s dst src length a i : ℕ}

lemma moved_add (h : i < length) : moved mem dst src length (dst + i) = mem (src + i) := by
  rw [moved, if_pos ⟨Nat.le_add_right .., Nat.add_lt_add_left h dst⟩, Nat.add_sub_cancel_left, Nat.add_comm]

lemma moved_of_outside (h : a < dst ∨ dst + length ≤ a) : moved mem dst src length a = mem a := by
  rw [moved, if_neg]
  rintro ⟨hle, hlt⟩
  exact h.elim (Nat.not_lt.mpr hle) (Nat.not_le.mpr hlt)

/-- Going up, the source of a later byte is behind the byte that is written. -/
lemma copyUp_eq (h : d ≤ s) : copyUp mem d s length = moved mem d s length := by
  induction length generalizing mem d s with
  | zero => exact funext fun a => (moved_of_outside (Nat.lt_or_ge a d)).symm
  | succ length ih =>
    funext a
    rw [copyUp, ih (Nat.succ_le_succ h), moved, moved]
    by_cases hd : a = d
    · subst hd
      rw [if_neg fun hle => Nat.not_succ_le_self a hle.1, if_pos (by omega), Function.update_self,
        Nat.sub_self, Nat.zero_add]
    · by_cases hin : d + 1 ≤ a ∧ a < d + 1 + length
      · have hsrc : a - (d + 1) + (s + 1) = a - d + s := by omega
        rw [if_pos hin, if_pos (by omega), hsrc, Function.update_of_ne (by omega)]
      · rw [if_neg hin, if_neg (by omega), Function.update_of_ne hd]

/-- Going down, the source of a later byte is before the byte that is written. -/
lemma copyDown_eq (h : s < d) : copyDown mem d s length = moved mem d s length := by
  induction length generalizing mem with
  | zero => exact funext fun a => (moved_of_outside (Nat.lt_or_ge a d)).symm
  | succ length ih =>
    funext a
    rw [copyDown, ih, moved, moved]
    by_cases hd : a = d + length
    · subst hd
      rw [if_neg fun hlt => Nat.lt_irrefl _ hlt.2, if_pos (by omega), Function.update_self,
        Nat.add_sub_cancel_left, Nat.add_comm]
    · by_cases hin : d ≤ a ∧ a < d + length
      · rw [if_pos hin, if_pos (by omega), Function.update_of_ne (by omega)]
      · rw [if_neg hin, if_neg (by omega), Function.update_of_ne hd]

/-- The destination has the bytes of the source, however they overlap. -/
theorem memmove_eq : memmove mem dst src length = moved mem dst src length := by
  rw [memmove]
  split_ifs with h
  · exact copyUp_eq h
  · exact copyDown_eq (Nat.lt_of_not_le h)

end PiKachulm.Libk

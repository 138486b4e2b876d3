import Mathlib.Data.Nat.Bitwise
import Mathlib.Logic.Function.Basic
import Mathlib.Tactic.Common
import Mathlib.Tactic.NormNum

/-!
# Bit arrays

`libk::BitArray`: an array of 64-bit words, read and written bit by bit. `fill_array` writes bytes,
and leaves the bits of the last word that are beyond the array alone.
-/

namespace PiKachulm.Libk

/-- `libk::BitArray`; the array is null or the words it points to. -/
structure BitArray where
  array : Option (ℕ → BitVec 64)
  bytesSize : ℕ

/-- Write byte `i` of a word. -/
def setByte (word : BitVec 64) (i : ℕ) (value : BitVec 8) : BitVec 64 :=
  (word &&& ~~~((0xff : BitVec 64) <<< (8 * i))) ||| (value.zeroExtend 64 <<< (8 * i))

/-- `libk::memset`, on words. -/
def memset (a : ℕ → BitVec 64) (value : BitVec 8) : ℕ → ℕ → BitVec 64
  | 0          => a
  | length + 1 =>
    let a := memset a value length
    Function.update a (length / 8) (setByte (a (length / 8)) (length % 8) value)

namespace BitArray

/-- The array at an address that is not null. -/
def init (words : ℕ → BitVec 64) (bytesSize : ℕ) : BitArray where
  array := some words
  bytesSize := bytesSize

def getBit (m : BitArray) (index : ℕ) : Bool :=
  match m.array with
  | none   => false
  | some a => a (index / 64) &&& ((1 : BitVec 64) <<< (index % 64)) ≠ 0

def setBit (m : BitArray) (index : ℕ) (value : Bool) : BitArray :=
  match m.array with
  | none   => m
  | some a =>
    let v := a (index / 64)
    let v := if value then v ||| ((1 : BitVec 64) <<< (index % 64))
      else v &&& ~~~((1 : BitVec 64) <<< (index % 64))
    { m with array := some (Function.update a (index / 64) v) }

def fillArray (m : BitArray) (value : Bool) : BitArray :=
  match m.array with
  | none   => m
  | some a => { m with array := some (memset a (if value then 0xff else 0x00) m.bytesSize) }

variable {m : BitArray} {i j : ℕ} {value : Bool} {a : ℕ → BitVec 64}

/-- The array is not null. -/
def Valid (m : BitArray) : Prop := m.array.isSome = true

lemma getBit_eq (ha : m.array = some a) : m.getBit i = (a (i / 64)).getLsbD (i % 64) := by
  have hlt : i % 64 < 64 := Nat.mod_lt _ (by norm_num)
  have hpow : (1 : BitVec 64) <<< (i % 64) = BitVec.twoPow 64 (i % 64) := rfl
  have hne : BitVec.twoPow 64 (i % 64) ≠ 0 := by
    intro h0
    have hbit := BitVec.getLsbD_twoPow (w := 64) (i % 64) (i % 64)
    rw [h0] at hbit
    simp [hlt] at hbit
  simp only [getBit, ha, hpow, BitVec.and_twoPow]
  cases (a (i / 64)).getLsbD (i % 64) with
  | true => exact decide_eq_true hne
  | false => simp

@[simp] lemma setBit_valid : (m.setBit i value).Valid ↔ m.Valid := by
  rw [setBit, Valid, Valid]
  cases ha : m.array <;> simp [ha]

/-- Setting a bit sets this bit and no other. -/
lemma getBit_setBit (hm : m.Valid) :
    (m.setBit i value).getBit = Function.update m.getBit i value := by
  obtain ⟨a, ha⟩ := Option.isSome_iff_exists.mp hm
  funext j
  have hlt : ∀ k, k % 64 < 64 := fun k => Nat.mod_lt _ (by norm_num)
  have hbit : ∀ k, ((1 : BitVec 64) <<< (i % 64)).getLsbD k = decide (k = i % 64) := by
    intro k
    have hpow : (1 : BitVec 64) <<< (i % 64) = BitVec.twoPow 64 (i % 64) := rfl
    rw [hpow, BitVec.getLsbD_twoPow]
    simp [hlt i, eq_comm]
  have hword : ∀ k, (if value then a (i / 64) ||| ((1 : BitVec 64) <<< (i % 64))
      else a (i / 64) &&& ~~~((1 : BitVec 64) <<< (i % 64))).getLsbD (k % 64) =
        if k % 64 = i % 64 then value else (a (i / 64)).getLsbD (k % 64) := by
    intro k
    cases value with
    | true =>
      rw [if_pos rfl, BitVec.getLsbD_or, hbit]
      by_cases hk : k % 64 = i % 64 <;> simp [hk]
    | false =>
      rw [if_neg Bool.false_ne_true, BitVec.getLsbD_and, BitVec.getLsbD_not, hbit]
      by_cases hk : k % 64 = i % 64 <;> simp [hk, hlt]
  rw [getBit_eq (m := m.setBit i value) (by rw [setBit, ha])]
  by_cases hdiv : j / 64 = i / 64
  · rw [hdiv, Function.update_self, hword]
    by_cases hj : j = i
    · subst hj
      rw [Function.update_self, if_pos rfl]
    · have hmod : j % 64 ≠ i % 64 := by omega
      rw [Function.update_of_ne hj, getBit_eq ha, hdiv, if_neg hmod]
  · have hj : j ≠ i := by
      rintro rfl
      exact hdiv rfl
    rw [Function.update_of_ne hdiv, Function.update_of_ne hj, getBit_eq ha]

lemma getLsbD_setByte {w : BitVec 64} {k : ℕ} {v : BitVec 8} (hi : i < 8) (hk : k < 64) :
    (setByte w i v).getLsbD k = if k / 8 = i then v.getLsbD (k % 8) else w.getLsbD k := by
  have hff : ∀ j < 64, (0xff : BitVec 64).getLsbD j = decide (j < 8) := by decide
  have hmask : ((0xff : BitVec 64) <<< (8 * i)).getLsbD k = decide (k / 8 = i) := by
    rw [BitVec.getLsbD_shiftLeft]
    by_cases hle : k < 8 * i
    · have hne : k / 8 ≠ i := by omega
      simp [hle, hne]
    · have hiff : k - 8 * i < 8 ↔ k / 8 = i := by omega
      rw [hff _ (by omega)]
      simp [hk, hle, hiff]
  have hvalue : (v.zeroExtend 64 <<< (8 * i)).getLsbD k =
      (decide (k / 8 = i) && v.getLsbD (k % 8)) := by
    rw [BitVec.getLsbD_shiftLeft]
    by_cases hki : k / 8 = i
    · have hsub : k - 8 * i = k % 8 := by omega
      have hge : ¬k < 8 * i := by omega
      have hlt : k % 8 < 64 := by omega
      simp [hki, hsub, hge, hk, hlt]
    · rcases lt_or_ge k (8 * i) with hlt | hge
      · simp [hlt, hki]
      · have hout : 8 ≤ k - 8 * i := by omega
        simp [hki, BitVec.getLsbD_of_ge v _ hout]
  rw [setByte, BitVec.getLsbD_or, BitVec.getLsbD_and, BitVec.getLsbD_not, hmask, hvalue]
  by_cases hki : k / 8 = i
  · simp [hki]
  · simp [hki, hk]

lemma getLsbD_memset {v : BitVec 8} {length : ℕ} :
    (memset a v length (i / 64)).getLsbD (i % 64) =
      if i / 8 < length then v.getLsbD (i % 8) else (a (i / 64)).getLsbD (i % 64) := by
  have hlt : i % 64 < 64 := Nat.mod_lt _ (by norm_num)
  induction length with
  | zero => simp [memset]
  | succ length ih =>
    rw [memset]
    by_cases hword : i / 64 = length / 8
    · rw [← hword, Function.update_self, getLsbD_setByte (Nat.mod_lt _ (by norm_num)) hlt, ih]
      have hmod : i % 64 % 8 = i % 8 := by omega
      by_cases hbyte : i / 8 = length
      · have hin : i % 64 / 8 = length % 8 := by omega
        rw [if_pos hin, if_pos (by omega), hmod]
      · have hout : i % 64 / 8 ≠ length % 8 := by omega
        have hiff : i / 8 < length ↔ i / 8 < length + 1 := by omega
        rw [if_neg hout]
        simp only [hiff]
    · have hiff : i / 8 < length ↔ i / 8 < length + 1 := by omega
      rw [Function.update_of_ne hword, ih]
      simp only [hiff]

/-- Filling sets the bits of the bytes of the array. -/
lemma getBit_fillArray (hm : m.Valid) (hi : i < 8 * m.bytesSize) :
    (m.fillArray value).getBit i = value := by
  obtain ⟨a, ha⟩ := Option.isSome_iff_exists.mp hm
  have hbyte : ∀ j < 8, (if value then (0xff : BitVec 8) else 0x00).getLsbD j = value := by
    cases value <;> decide
  rw [getBit_eq (m := m.fillArray value) (by rw [fillArray, ha]), getLsbD_memset,
    if_pos (by omega)]
  exact hbyte _ (Nat.mod_lt _ (by norm_num))

@[simp] lemma fillArray_valid : (m.fillArray value).Valid ↔ m.Valid := by
  rw [fillArray, Valid, Valid]
  cases ha : m.array <;> simp [ha]

end BitArray

end PiKachulm.Libk

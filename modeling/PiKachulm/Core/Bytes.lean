import Mathlib.Data.List.Basic
import Mathlib.Algebra.Order.Group.Nat

/-!
# Words in a memory of bytes

A memory gives a byte for some addresses and nothing for the others. Words are stored with their
lowest byte first; what is stored is what is read back, and a read that meets an address without a
byte fails.
-/

namespace PiKachulm.Core

variable {α : Type*}

/-- What holds of the 256 bytes holds of every byte. -/
lemma forall_uint8 {P : UInt8 → Prop} (h : ∀ n < 256, P (UInt8.ofNat n)) (c : UInt8) : P c := by
  have hc := h c.toNat c.toNat_lt
  rwa [UInt8.ofNat_toNat] at hc

/-- The memory holds the list from an address on. -/
def Reads (mem : ℕ → Option α) (a : ℕ) (l : List α) : Prop :=
  ∀ i (hi : i < l.length), mem (a + i) = some l[i]

/-- The `n` bytes from an address on. -/
def readBytes (mem : ℕ → Option α) : ℕ → ℕ → Option (List α)
  | 0, _     => some []
  | n + 1, a => do
    let b ← mem a
    let l ← readBytes mem n (a + 1)
    pure (b :: l)

/-- The `k` lowest bytes of a number. -/
def leBytes : ℕ → ℕ → List UInt8
  | 0, _     => []
  | k + 1, n => UInt8.ofNat n :: leBytes k (n / 256)

/-- The number with the given bytes. -/
def leWord : List UInt8 → ℕ
  | []     => 0
  | b :: l => b.toNat + 256 * leWord l

/-- The word of `k` bytes at an address. -/
def readWord (mem : ℕ → Option UInt8) (k a : ℕ) : Option ℕ := (readBytes mem k a).map leWord

/-- The memory that has only these bytes, from an address on. -/
def segment (a : ℕ) (l : List α) : ℕ → Option α := fun x => if a ≤ x then l[x - a]? else none

/-! ### Lists in memory -/

section

variable {mem mem' : ℕ → Option α} {l l' : List α} {a n : ℕ}

lemma reads_cons {b : α} : Reads mem a (b :: l) ↔ mem a = some b ∧ Reads mem (a + 1) l := by
  constructor
  · intro h
    refine ⟨h 0 (Nat.zero_lt_succ _), fun i hi => ?_⟩
    rw [Nat.add_right_comm, Nat.add_assoc]
    exact h (i + 1) (Nat.succ_lt_succ hi)
  · rintro ⟨hb, hl⟩ i hi
    cases i with
    | zero => exact hb
    | succ i =>
      rw [show a + (i + 1) = a + 1 + i by omega]
      exact hl i (Nat.lt_of_succ_lt_succ hi)

lemma reads_append : Reads mem a (l ++ l') ↔ Reads mem a l ∧ Reads mem (a + l.length) l' := by
  induction l generalizing a with
  | nil => simp [Reads]
  | cons b l ih =>
    rw [List.cons_append, reads_cons, reads_cons, ih, List.length_cons, and_assoc,
      Nat.add_assoc, Nat.add_comm 1]

lemma Reads.congr (h : Reads mem a l) (heq : ∀ i < l.length, mem' (a + i) = mem (a + i)) :
    Reads mem' a l :=
  fun i hi => (heq i hi).trans (h i hi)

lemma segment_add (l : List α) (a i : ℕ) : segment a l (a + i) = l[i]? := by
  rw [segment, if_pos (Nat.le_add_right a i), Nat.add_sub_cancel_left]

lemma reads_segment_drop (l : List α) (a i : ℕ) : Reads (segment a l) (a + i) (l.drop i) := by
  intro j hj
  rw [Nat.add_assoc, segment_add, List.getElem?_eq_getElem, List.getElem_drop]

lemma readBytes_eq_some_iff : readBytes mem n a = some l ↔ l.length = n ∧ Reads mem a l := by
  induction n generalizing a l with
  | zero =>
    rw [readBytes, Option.some.injEq, eq_comm, ← List.length_eq_zero_iff]
    refine (and_iff_left_of_imp fun h i hi => ?_).symm
    exact absurd (h ▸ hi) (Nat.not_lt_zero i)
  | succ n ih =>
    rw [readBytes]
    cases l with
    | nil => simp [Option.bind_eq_some_iff]
    | cons b l =>
      rw [reads_cons, List.length_cons, Nat.succ_inj, and_left_comm, ← ih]
      simp [Option.bind_eq_some_iff]

/-- The bytes can be read when each of them can. -/
lemma readBytes_isSome_iff : (readBytes mem n a).isSome ↔ ∀ i < n, (mem (a + i)).isSome := by
  induction n generalizing a with
  | zero => exact ⟨fun _ i hi => absurd hi (Nat.not_lt_zero i), fun _ => rfl⟩
  | succ n ih =>
    have hrest : (∀ i < n, (mem (a + (i + 1))).isSome) ↔ (readBytes mem n (a + 1)).isSome := by
      rw [ih]
      exact forall₂_congr fun i _ => by rw [Nat.add_assoc, Nat.add_comm 1]
    rw [Nat.forall_lt_succ_left', hrest, readBytes, Nat.add_zero]
    cases mem a with
    | none => simp
    | some b => cases readBytes mem n (a + 1) <;> simp

end

/-! ### Words -/

variable {mem : ℕ → Option UInt8} {a i k n : ℕ}

@[simp] lemma length_leBytes (k n : ℕ) : (leBytes k n).length = k := by
  induction k generalizing n with
  | zero => rfl
  | succ k ih => rw [leBytes, List.length_cons, ih]

lemma leWord_leBytes (k n : ℕ) : leWord (leBytes k n) = n % 256 ^ k := by
  induction k generalizing n with
  | zero => rw [leBytes, leWord, Nat.pow_zero, Nat.mod_one]
  | succ k ih =>
    rw [leBytes, leWord, ih, Nat.pow_succ, Nat.mul_comm _ 256, Nat.mod_mul]
    rfl

/-- A word that is stored is read back. -/
lemma Reads.readWord_eq (h : Reads mem a (leBytes k n)) : readWord mem k a = some (n % 256 ^ k) := by
  rw [readWord, readBytes_eq_some_iff.mpr ⟨length_leBytes k n, h⟩, Option.map_some, leWord_leBytes]

/-- A word can be read when all of its bytes can. -/
lemma readWord_isSome_iff : (readWord mem k a).isSome ↔ ∀ i < k, (mem (a + i)).isSome := by
  rw [readWord, Option.isSome_map, readBytes_isSome_iff]

lemma readWord_eq_none (hi : i < k) (h : mem (a + i) = none) : readWord mem k a = none := by
  rw [← Option.not_isSome_iff_eq_none, readWord_isSome_iff]
  intro hall
  have hsome := hall i hi
  rw [h] at hsome
  cases hsome

end PiKachulm.Core

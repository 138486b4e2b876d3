import PiKachulm.Core.Ring
import Mathlib.Tactic.Common

/-!
# Arrays of records in a memory

A record is stored as a list of bytes of a fixed length, and the elements of an array follow one
another. An element that is stored behind the others is added to them, and moving the memory down by one
element drops the first one.
-/

namespace PiKachulm.Core

/-- How records are stored. -/
structure Layout (α β : Type*) where
  size : ℕ
  encode : α → List β
  decode : List β → α
  length_encode (x : α) : (encode x).length = size
  decode_encode (x : α) : decode (encode x) = x

namespace Layout

variable {α β : Type*} (L : Layout α β) (m : ℕ → β) (base : ℕ)

attribute [simp] length_encode decode_encode

/-- The address of an element. -/
def address (i : ℕ) : ℕ := base + i * L.size

def get (i : ℕ) : α := L.decode (slice m (L.address base i) L.size)

def put (i : ℕ) (x : α) : ℕ → β := blit m (L.address base i) (L.encode x)

/-- The first `n` elements. -/
def elements (n : ℕ) : List α := (List.range n).map (L.get m base)

variable {L m base} {m' : ℕ → β} {i j n a : ℕ} {x : α}

lemma address_succ : L.address base (i + 1) = L.address base i + L.size := by
  rw [address, address, Nat.succ_mul, Nat.add_assoc]

/-- The elements do not overlap. -/
lemma address_add_size_le (h : i < j) : L.address base i + L.size ≤ L.address base j := by
  rw [← address_succ]
  exact Nat.add_le_add_left (Nat.mul_le_mul_right _ h) base

@[simp] lemma length_elements : (L.elements m base n).length = n := by simp [elements]

@[simp] lemma elements_zero : L.elements m base 0 = [] := rfl

lemma elements_succ : L.elements m base (n + 1) = L.elements m base n ++ [L.get m base n] := by
  simp [elements, List.range_succ]

lemma elements_succ' :
    L.elements m base (n + 1) = L.get m base 0 :: (List.range n).map fun i => L.get m base (i + 1) := by
  simp [elements, List.range_succ_eq_map, Function.comp_def]

/-- An element is determined by its bytes. -/
lemma get_congr (h : ∀ k < L.size, m' (L.address base i + k) = m (L.address base j + k)) :
    L.get m' base i = L.get m base j := by
  rw [get, get]
  congr 1
  exact List.map_congr_left fun k hk => h k (List.mem_range.mp hk)

/-! ### Storing -/

lemma get_put : L.get (L.put m base i x) base i = x := by
  have hslice : slice (L.put m base i x) (L.address base i) L.size = L.encode x := by
    apply List.ext_getElem
    · simp
    · intro k _ hk
      simp only [slice, List.getElem_map, List.getElem_range]
      exact blit_add hk
  rw [get, hslice, decode_encode]

/-- Storing an element changes no byte of those before it. -/
lemma get_put_of_lt (h : j < i) : L.get (L.put m base i x) base j = L.get m base j := by
  apply get_congr
  intro k hk
  apply blit_of_lt
  exact (Nat.add_lt_add_left hk _).trans_le (address_add_size_le h)

/-- What is stored behind the elements is added to them. -/
lemma elements_put : L.elements (L.put m base n x) base (n + 1) = L.elements m base n ++ [x] := by
  rw [elements_succ, get_put]
  congr 1
  exact List.map_congr_left fun i hi => get_put_of_lt (List.mem_range.mp hi)

/-- The bytes outside an element are kept. -/
lemma put_of_outside (h : a < L.address base i ∨ L.address base (i + 1) ≤ a) :
    L.put m base i x a = m a := by
  rcases h with hlt | hge
  · exact blit_of_lt hlt
  · apply blit_of_ge
    rwa [length_encode, ← address_succ]

/-! ### Moving -/

/-- A byte of one of `n` elements. -/
lemma offset_lt {k : ℕ} (hi : i < n) (hk : k < L.size) : i * L.size + k < n * L.size := by
  calc i * L.size + k < (i + 1) * L.size := by
        rw [Nat.succ_mul]
        exact Nat.add_lt_add_left hk _
    _ ≤ n * L.size := Nat.mul_le_mul_right _ hi

lemma elements_congr (h : ∀ k < n * L.size, m' (base + k) = m (base + k)) :
    L.elements m' base n = L.elements m base n := by
  refine List.map_congr_left fun i hi => get_congr fun k hk => ?_
  rw [address, Nat.add_assoc]
  exact h _ (offset_lt (List.mem_range.mp hi) hk)

/-- A memory that is moved down by one element loses the first one. -/
lemma elements_shift (h : ∀ k < n * L.size, m' (base + k) = m (base + L.size + k)) :
    L.elements m base (n + 1) = L.get m base 0 :: L.elements m' base n := by
  rw [elements_succ']
  congr 1
  refine List.map_congr_left fun i hi => (get_congr fun k hk => ?_).symm
  rw [address_succ, address, Nat.add_assoc, h _ (offset_lt (List.mem_range.mp hi) hk), ← Nat.add_assoc,
    Nat.add_right_comm base]

end Layout

end PiKachulm.Core

import Mathlib.Data.Nat.Bitwise
import Mathlib.Logic.Function.Basic
import Mathlib.Tactic.Common
import Mathlib.Tactic.NormNum

/-!
# Binary trees of bits

A function on `1, …, 2 * n - 1` read as a binary tree: the children of `i` are `2 * i` and
`2 * i + 1`, and the leaves are the numbers from `n` on, for any `n`. In an `OrTree` the bit of an
inner node says whether one of its children has its bit set. `Clearing` and `Setting` are the
states between the writes that repair a tree from a leaf up to the root.
-/

namespace PiKachulm.Core

variable {n i j : ℕ} {f : ℕ → Bool}

/-- The bit of node `i` is that of one of its children. -/
def OrNode (f : ℕ → Bool) (i : ℕ) : Prop := f i = (f (2 * i) || f (2 * i + 1))

/-- Every inner node has the bit of one of its children. -/
def OrTree (n : ℕ) (f : ℕ → Bool) : Prop := ∀ i, 1 ≤ i → i < n → OrNode f i

/-! ### The root and the leaves -/

/-- Below a node that is set there is a leaf that is set. -/
lemma OrTree.exists_leaf (ht : OrTree n f) (h₁ : 1 ≤ i) (h₂ : i < 2 * n) (hi : f i = true) :
    ∃ l, n ≤ l ∧ l < 2 * n ∧ f l = true := by
  induction hd : 2 * n - i using Nat.strong_induction_on generalizing i with
  | _ d ih =>
    rcases le_or_gt n i with hle | hlt
    · exact ⟨i, hle, h₂, hi⟩
    · have hor := ht i h₁ hlt
      rw [OrNode, hi, eq_comm, Bool.or_eq_true] at hor
      rcases hor with hleft | hright
      · exact ih (2 * n - 2 * i) (by omega) (by omega) (by omega) hleft rfl
      · exact ih (2 * n - (2 * i + 1)) (by omega) (by omega) (by omega) hright rfl

/-- Above a node that is set everything is set. -/
lemma OrTree.root_of_node (ht : OrTree n f) (h₁ : 1 ≤ i) (h₂ : i < 2 * n) (hi : f i = true) :
    f 1 = true := by
  induction i using Nat.strong_induction_on with
  | _ i ih =>
    rcases Nat.eq_or_lt_of_le h₁ with rfl | hlt
    · exact hi
    · refine ih (i / 2) (by omega) (by omega) (by omega) ?_
      rw [ht (i / 2) (by omega) (by omega), Bool.or_eq_true]
      rcases Nat.mod_two_eq_zero_or_one i with hmod | hmod
      · left
        rwa [Nat.mul_div_cancel' (Nat.dvd_of_mod_eq_zero hmod)]
      · right
        rwa [Nat.two_mul_div_two_add_one_of_odd (Nat.odd_iff.mpr hmod)]

/-- The root tells whether a leaf is set. -/
lemma OrTree.root_iff (ht : OrTree n f) (hn : 1 ≤ n) :
    f 1 = true ↔ ∃ l, n ≤ l ∧ l < 2 * n ∧ f l = true := by
  constructor
  · exact ht.exists_leaf le_rfl (by omega)
  · rintro ⟨l, h₁, h₂, hl⟩
    exact ht.root_of_node (hn.trans h₁) h₂ hl

/-! ### Siblings -/

lemma xor_one_of_mod (hi : i % 2 = 0) : i ^^^ 1 = i + 1 := Nat.xor_one_of_even (Nat.even_iff.mpr hi)

lemma xor_one_of_mod_one (hi : i % 2 = 1) : i ^^^ 1 = i - 1 := Nat.xor_one_of_odd (Nat.odd_iff.mpr hi)

lemma xor_one_ne : i ^^^ 1 ≠ i := by
  rcases Nat.mod_two_eq_zero_or_one i with hmod | hmod
  · rw [xor_one_of_mod hmod]
    omega
  · rw [xor_one_of_mod_one hmod]
    omega

/-- The children of the parent of `i` are `i` and its sibling. -/
lemma orNode_parent : OrNode f (i / 2) ↔ f (i / 2) = (f i || f (i ^^^ 1)) := by
  rcases Nat.mod_two_eq_zero_or_one i with hmod | hmod
  · have h₁ : 2 * (i / 2) = i := by omega
    rw [OrNode, h₁, xor_one_of_mod hmod]
  · have h₁ : 2 * (i / 2) = i - 1 := by omega
    have h₂ : i - 1 + 1 = i := by omega
    rw [OrNode, h₁, h₂, xor_one_of_mod_one hmod, Bool.or_comm]

/-- A write at `i` leaves alone the nodes that are neither `i` nor its parent. -/
lemma orNode_update {v : Bool} (hji : j ≠ i) (hjp : j ≠ i / 2) :
    OrNode (Function.update f i v) j ↔ OrNode f j := by
  have h₁ : 2 * j ≠ i := by omega
  have h₂ : 2 * j + 1 ≠ i := by omega
  rw [OrNode, OrNode, Function.update_of_ne hji, Function.update_of_ne h₁,
    Function.update_of_ne h₂]

/-! ### Clearing a bit -/

/-- Every inner node but `i` is right, and the children of `i` are clear. -/
structure Clearing (n : ℕ) (f : ℕ → Bool) (i : ℕ) : Prop where
  rest : ∀ j, 1 ≤ j → j < n → j ≠ i → OrNode f j
  children : 1 ≤ i → i < n → f (2 * i) = false ∧ f (2 * i + 1) = false

lemma OrTree.clearing (ht : OrTree n f) (hi : n ≤ i) : Clearing n f i :=
  ⟨fun j h₁ h₂ _ => ht j h₁ h₂, fun _ hlt => absurd hlt (not_lt.mpr hi)⟩

lemma Clearing.orTree_of_zero (hc : Clearing n f 0) : OrTree n f :=
  fun i h₁ h₂ => hc.rest i h₁ h₂ (by omega)

section Clear

variable (hc : Clearing n f i) (hi : i ≠ 0)

include hc hi

/-- Clearing `i` puts the inner nodes right, except for its parent. -/
lemma Clearing.update_rest (hj₁ : 1 ≤ j) (hj : j < n) (hjp : j ≠ i / 2) :
    OrNode (Function.update f i false) j := by
  by_cases hji : j = i
  · subst hji
    obtain ⟨hleft, hright⟩ := hc.children hj₁ hj
    have h₁ : 2 * j ≠ j := by omega
    have h₂ : 2 * j + 1 ≠ j := by omega
    rw [OrNode, Function.update_self, Function.update_of_ne h₁, Function.update_of_ne h₂, hleft,
      hright]
    rfl
  · exact (orNode_update hji hjp).mpr (hc.rest j hj₁ hj hji)

/-- When the sibling is set, the parent was right already. -/
lemma Clearing.stop (hs : Function.update f i false (i ^^^ 1) = true) :
    OrTree n (Function.update f i false) := by
  intro j hj₁ hj
  by_cases hjp : j = i / 2
  · have hne : j ≠ i := by omega
    have hor := hc.rest j hj₁ hj hne
    have hsib : f (i ^^^ 1) = true := by rwa [Function.update_of_ne xor_one_ne] at hs
    rw [hjp, orNode_parent, hsib, Bool.or_true] at hor
    rw [hjp, orNode_parent, hs, Bool.or_true, Function.update_of_ne (hjp ▸ hne)]
    exact hor
  · exact hc.update_rest hi hj₁ hj hjp

/-- Otherwise the parent is next. -/
lemma Clearing.next (hs : Function.update f i false (i ^^^ 1) = false) :
    Clearing n (Function.update f i false) (i / 2) := by
  refine ⟨fun j hj₁ hj hjp => hc.update_rest hi hj₁ hj hjp, fun _ _ => ?_⟩
  have hself : Function.update f i false i = false := Function.update_self i false f
  rcases Nat.mod_two_eq_zero_or_one i with hmod | hmod
  · have h₁ : 2 * (i / 2) = i := by omega
    rw [xor_one_of_mod hmod] at hs
    rw [h₁]
    exact ⟨hself, hs⟩
  · have h₁ : 2 * (i / 2) = i - 1 := by omega
    have h₂ : i - 1 + 1 = i := by omega
    rw [xor_one_of_mod_one hmod] at hs
    rw [h₁, h₂]
    exact ⟨hs, hself⟩

end Clear

/-! ### Setting a bit -/

/-- Every inner node but `i` is right, and one of the children of `i` is set. -/
structure Setting (n : ℕ) (f : ℕ → Bool) (i : ℕ) : Prop where
  rest : ∀ j, 1 ≤ j → j < n → j ≠ i → OrNode f j
  children : 1 ≤ i → i < n → (f (2 * i) || f (2 * i + 1)) = true

lemma OrTree.setting (ht : OrTree n f) (hi : n ≤ i) : Setting n f i :=
  ⟨fun j h₁ h₂ _ => ht j h₁ h₂, fun _ hlt => absurd hlt (not_lt.mpr hi)⟩

lemma Setting.orTree_of_zero (hc : Setting n f 0) : OrTree n f :=
  fun i h₁ h₂ => hc.rest i h₁ h₂ (by omega)

/-- When `i` is set there is nothing to repair. -/
lemma Setting.stop (hc : Setting n f i) (hi : f i = true) : OrTree n f := by
  intro j hj₁ hj
  by_cases hji : j = i
  · subst hji
    rw [OrNode, hi, hc.children hj₁ hj]
  · exact hc.rest j hj₁ hj hji

/-- Otherwise it is set, and the parent is next. -/
lemma Setting.next (hc : Setting n f i) (hi : i ≠ 0) :
    Setting n (Function.update f i true) (i / 2) := by
  constructor
  · intro j hj₁ hj hjp
    by_cases hji : j = i
    · subst hji
      have h₁ : 2 * j ≠ j := by omega
      have h₂ : 2 * j + 1 ≠ j := by omega
      rw [OrNode, Function.update_self, Function.update_of_ne h₁, Function.update_of_ne h₂,
        hc.children hj₁ hj]
    · exact (orNode_update hji hjp).mpr (hc.rest j hj₁ hj hji)
  · intro _ _
    have hself : Function.update f i true i = true := Function.update_self i true f
    rcases Nat.mod_two_eq_zero_or_one i with hmod | hmod
    · have h₁ : 2 * (i / 2) = i := by omega
      rw [h₁, hself, Bool.true_or]
    · have h₁ : 2 * (i / 2) = i - 1 := by omega
      have h₂ : i - 1 + 1 = i := by omega
      rw [h₁, h₂, hself, Bool.or_true]

end PiKachulm.Core

import PiKachulm.Core.Slot
import Mathlib.Data.Set.Lattice
import Mathlib.Order.CompletePartialOrder

/-!
# Radix trees

Trees of tables with `b` entries each. An entry of height `k` covers a slot of `b ^ k` numbers:
it is empty, a leaf for the whole slot, or a table whose entries cover the slots of height
`k - 1`. Every table lives in a page of its own, and `Node.Sep` says that no page occurs twice.
-/

namespace PiKachulm.Core

variable {P V : Type*}

/-- An entry of a radix tree; a table carries the page that holds it. -/
inductive Node (P V : Type*) where
  | empty
  | leaf (v : V)
  | table (page : P) (sub : ℕ → Node P V)

namespace Node

variable (b : ℕ)

/-- The leaf found for `p` under an entry of height `k`, with its height. -/
def find : ℕ → Node P V → ℕ → Option (ℕ × V)
  | _, .empty, _           => none
  | k, .leaf v, _          => some (k, v)
  | 0, .table _ _, _       => none
  | k + 1, .table _ sub, p => (sub (slot b k p % b)).find k p

/-- Tables only above height `0`, and leaves that satisfy `ok` at their height. -/
def Wf (ok : ℕ → V → Prop) : ℕ → Node P V → Prop
  | _, .empty           => True
  | k, .leaf v          => ok k v
  | 0, .table _ _       => False
  | k + 1, .table _ sub => ∀ i < b, (sub i).Wf ok k

/-- The pages of the tables at or below an entry. -/
def pages : Node P V → Set P
  | .empty       => ∅
  | .leaf _      => ∅
  | .table q sub => {p | p = q ∨ ∃ i < b, p ∈ (sub i).pages}

/-- No page is used for two tables at or below an entry. -/
def Sep : Node P V → Prop
  | .empty       => True
  | .leaf _      => True
  | .table q sub => (∀ i < b, q ∉ (sub i).pages b) ∧ (∀ i < b, (sub i).Sep) ∧
      ∀ i < b, ∀ j < b, i ≠ j → Disjoint ((sub i).pages b) ((sub j).pages b)

end Node

/-! ### Tables -/

/-- The entries of a table. -/
abbrev Entries (P V : Type*) := ℕ → Node P V

namespace Entries

variable (b : ℕ)

/-- The leaf found for `p` in a table whose entries have height `k`. -/
def find (k : ℕ) (t : Entries P V) (p : ℕ) : Option (ℕ × V) := (t (slot b k p % b)).find b k p

def Wf (ok : ℕ → V → Prop) (k : ℕ) (t : Entries P V) : Prop := ∀ i < b, (t i).Wf b ok k

def pages (t : Entries P V) : Set P := {p | ∃ i < b, p ∈ (t i).pages b}

def Sep (t : Entries P V) : Prop :=
  (∀ i < b, (t i).Sep b) ∧ ∀ i < b, ∀ j < b, i ≠ j → Disjoint ((t i).pages b) ((t j).pages b)

/-- A table with no entry. -/
def empty : Entries P V := fun _ => .empty

end Entries

variable {b k h p : ℕ} {v : V} {q : P} {e : Node P V} {t : Entries P V} {ok : ℕ → V → Prop}

@[simp] lemma Node.find_empty : (Node.empty : Node P V).find b k p = none := by
  cases k <;> rfl

@[simp] lemma Node.find_leaf : (Node.leaf v : Node P V).find b k p = some (k, v) := by
  cases k <;> rfl

@[simp] lemma Node.find_table : (Node.table q t).find b (k + 1) p = t.find b k p := by
  simp [Node.find, Entries.find]

@[simp] lemma Node.wf_empty : (Node.empty : Node P V).Wf b ok k := by
  cases k <;> trivial

@[simp] lemma Node.wf_leaf : (Node.leaf v : Node P V).Wf b ok k ↔ ok k v := by
  cases k <;> exact Iff.rfl

@[simp] lemma Node.wf_table : (Node.table q t).Wf b ok (k + 1) ↔ t.Wf b ok k := by
  simp [Node.Wf, Entries.Wf]

@[simp] lemma Node.pages_empty : (Node.empty : Node P V).pages b = ∅ := by simp [Node.pages]

@[simp] lemma Node.pages_leaf : (Node.leaf v : Node P V).pages b = ∅ := by simp [Node.pages]

@[simp] lemma Node.pages_table : (Node.table q t).pages b = insert q (t.pages b) := by
  simp only [Node.pages]
  rfl

@[simp] lemma Node.sep_empty : (Node.empty : Node P V).Sep b := by simp [Node.Sep]

@[simp] lemma Node.sep_leaf : (Node.leaf v : Node P V).Sep b := by simp [Node.Sep]

@[simp] lemma Node.sep_table : (Node.table q t).Sep b ↔ q ∉ t.pages b ∧ t.Sep b := by
  simp [Node.Sep, Entries.Sep, Entries.pages]

@[simp] lemma Entries.find_empty : (Entries.empty : Entries P V).find b k p = none := by
  simp [Entries.find, Entries.empty]

@[simp] lemma Entries.wf_empty : (Entries.empty : Entries P V).Wf b ok k := by
  simp [Entries.Wf, Entries.empty]

@[simp] lemma Entries.pages_empty : (Entries.empty : Entries P V).pages b = ∅ := by
  simp [Entries.pages, Entries.empty]

@[simp] lemma Entries.sep_empty : (Entries.empty : Entries P V).Sep b := by
  simp [Entries.Sep, Entries.empty]

/-- A leaf is no higher than the entry it is found under. -/
lemma Node.find_height_le {v : V} (hf : e.find b k p = some (h, v)) : h ≤ k := by
  induction k generalizing e with
  | zero => cases e <;> simp_all [Node.find]
  | succ k ih =>
    cases e with
    | empty => simp at hf
    | leaf w =>
      simp only [find_leaf, Option.some.injEq, Prod.mk.injEq] at hf
      exact hf.1.ge
    | table q sub => exact (ih hf).trans (Nat.le_succ k)

/-- A leaf found in a well-formed tree is as the leaves of that tree are. -/
lemma Node.ok_of_find [NeZero b] (hw : e.Wf b ok k) (hf : e.find b k p = some (h, v)) :
    ok h v := by
  induction k generalizing e with
  | zero =>
    cases e with
    | empty => simp at hf
    | leaf w =>
      simp only [find_leaf, Option.some.injEq, Prod.mk.injEq] at hf
      obtain ⟨rfl, rfl⟩ := hf
      simpa using hw
    | table q sub => simp [Node.Wf] at hw
  | succ k ih =>
    cases e with
    | empty => simp at hf
    | leaf w =>
      simp only [find_leaf, Option.some.injEq, Prod.mk.injEq] at hf
      obtain ⟨rfl, rfl⟩ := hf
      simpa using hw
    | table q sub => exact ih (wf_table.mp hw _ (Nat.mod_lt _ (NeZero.pos b))) hf

lemma Entries.ok_of_find [NeZero b] (hw : t.Wf b ok k) (hf : t.find b k p = some (h, v)) :
    ok h v :=
  Node.ok_of_find (hw _ (Nat.mod_lt _ (NeZero.pos b))) hf

lemma Entries.find_height_le (hf : t.find b k p = some (h, v)) : h ≤ k :=
  Node.find_height_le hf

/-- A leaf is found for every number of its slot. -/
lemma Node.find_congr {q : ℕ} (hf : e.find b k p = some (h, v)) (hpq : slot b h p = slot b h q) :
    e.find b k q = some (h, v) := by
  induction k generalizing e with
  | zero => cases e <;> simp_all [Node.find]
  | succ k ih =>
    cases e with
    | empty => simp at hf
    | leaf w => simpa using hf
    | table page sub =>
      have hk : h ≤ k := Node.find_height_le (e := sub (slot b k p % b)) hf
      have hslot : slot b k p = slot b k q := slot_eq_of_le hk hpq
      simp only [Node.find] at hf ⊢
      rw [← hslot]
      exact ih hf

lemma Entries.find_congr {q : ℕ} (hf : t.find b k p = some (h, v)) (hpq : slot b h p = slot b h q) :
    t.find b k q = some (h, v) := by
  have hslot : slot b k p = slot b k q := slot_eq_of_le (find_height_le hf) hpq
  rw [Entries.find, ← hslot]
  exact Node.find_congr hf hpq

lemma mul_add_div_of_lt {N i : ℕ} (hi : i < b) : (N * b + i) / b = N := by
  rw [Nat.mul_comm, Nat.mul_add_div (Nat.zero_lt_of_lt hi), Nat.div_eq_of_lt hi, Nat.add_zero]

/-- A tree whose leaves satisfy `ok'` wherever they are found is well formed for `ok'`. -/
lemma Entries.wf_of_find [NeZero b] {ok' : ℕ → V → Prop} {N : ℕ} (hw : t.Wf b ok k)
    (hfind : ∀ p h v, slot b (k + 1) p = N → t.find b k p = some (h, v) → ok' h v) :
    t.Wf b ok' k := by
  induction k generalizing t N with
  | zero =>
    intro i hi
    have hwi := hw i hi
    have hslot : slot b 0 (N * b + i) % b = i := by
      rw [slot_zero, Nat.mul_add_mod_of_lt hi]
    have hN : slot b (0 + 1) (N * b + i) = N := by
      rw [slot_succ, slot_zero, mul_add_div_of_lt hi]
    cases hti : t i with
    | empty => exact Node.wf_empty
    | leaf v =>
      refine Node.wf_leaf.mpr (hfind _ 0 v hN ?_)
      rw [Entries.find, hslot, hti, Node.find_leaf]
    | table q sub =>
      rw [hti] at hwi
      exact hwi
  | succ k ih =>
    intro i hi
    have hwi := hw i hi
    have hentry : ∀ p, slot b (k + 1) p = N * b + i → slot b (k + 1 + 1) p = N ∧
        t.find b (k + 1) p = (t i).find b (k + 1) p := by
      intro p hp
      rw [slot_succ, hp, Entries.find, hp, Nat.mul_add_mod_of_lt hi, mul_add_div_of_lt hi]
      exact ⟨rfl, rfl⟩
    cases hti : t i with
    | empty => exact Node.wf_empty
    | leaf v =>
      obtain ⟨hN, heq⟩ := hentry (lo b (k + 1) (N * b + i)) slot_lo
      refine Node.wf_leaf.mpr (hfind _ (k + 1) v hN ?_)
      rw [heq, hti, Node.find_leaf]
    | table q sub =>
      rw [hti] at hwi hentry
      refine Node.wf_table.mpr (ih (N := N * b + i) (Node.wf_table.mp hwi) fun p h v hp hf => ?_)
      obtain ⟨hN, heq⟩ := hentry p hp
      exact hfind p h v hN (heq.trans hf)

/-! ### Rewriting one entry -/

section Update

variable {i : ℕ}

lemma Entries.wf_update (hw : t.Wf b ok k) (he : e.Wf b ok k) :
    Entries.Wf b ok k (Function.update t i e) := by
  intro j hj
  by_cases hji : j = i
  · subst hji
    simpa using he
  · simpa [Function.update_of_ne hji] using hw j hj

/-- Rewriting an entry replaces its pages. -/
lemma Entries.mem_pages_update {x : P} (hi : i < b) :
    x ∈ Entries.pages b (Function.update t i e) ↔
      x ∈ e.pages b ∨ ∃ j < b, j ≠ i ∧ x ∈ (t j).pages b := by
  constructor
  · rintro ⟨j, hj, hx⟩
    by_cases hji : j = i
    · subst hji
      exact Or.inl (by simpa using hx)
    · exact Or.inr ⟨j, hj, hji, by simpa [Function.update_of_ne hji] using hx⟩
  · rintro (hx | ⟨j, hj, hji, hx⟩)
    · exact ⟨i, hi, by simpa using hx⟩
    · exact ⟨j, hj, by simpa [Function.update_of_ne hji] using hx⟩

lemma Entries.sep_update (hs : t.Sep b) (he : e.Sep b)
    (hd : ∀ j < b, j ≠ i → Disjoint ((t j).pages b) (e.pages b)) :
    Entries.Sep b (Function.update t i e) := by
  constructor
  · intro j hj
    by_cases hji : j = i
    · subst hji
      simpa using he
    · simpa [Function.update_of_ne hji] using hs.1 j hj
  · intro j hj l hl hjl
    by_cases hji : j = i
    · subst hji
      have hlj : l ≠ j := hjl.symm
      simpa [Function.update_of_ne hlj] using (hd l hl hlj).symm
    · by_cases hli : l = i
      · subst hli
        simpa [Function.update_of_ne hji] using hd j hj hji
      · simpa [Function.update_of_ne hji, Function.update_of_ne hli] using hs.2 j hj l hl hjl

end Update

end PiKachulm.Core

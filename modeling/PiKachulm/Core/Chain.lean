import Mathlib.Data.List.Nodup
import Mathlib.Logic.Function.Basic
import Mathlib.Tactic.Common

/-!
# Chains

A list whose elements are found by going from each one to the next. The last one leads to nothing, so a
chain is finite and goes through no element twice.
-/

namespace PiKachulm.Core

variable {α : Type*}

/-- Going on by `next` from `a` leads through the elements of the list, to the end. -/
def Chain (next : α → Option α) : Option α → List α → Prop
  | a, []      => a = none
  | a, x :: xs => a = some x ∧ Chain next (next x) xs

/-- The elements that are met, for at most as many steps as the fuel allows. -/
def follow (next : α → Option α) : ℕ → Option α → Option (List α)
  | _, none          => some []
  | 0, some _        => none
  | fuel + 1, some x => (follow next fuel (next x)).map (x :: ·)

/-- The link that leads to what comes after `w`, or the first one, is set to `v`. -/
def relink [DecidableEq α] (next : α → Option α) (head w v : Option α) :
    (α → Option α) × Option α :=
  match w with
  | none   => (next, v)
  | some w => (Function.update next w v, head)

variable {next next' : α → Option α} {a b head : Option α} {x y : α} {xs ys l l' : List α}

@[simp] lemma chain_nil : Chain next a [] ↔ a = none := Iff.rfl

@[simp] lemma chain_cons : Chain next a (x :: xs) ↔ a = some x ∧ Chain next (next x) xs := Iff.rfl

namespace Chain

lemma head_eq (h : Chain next a l) : a = l.head? := by
  cases l with
  | nil => exact h
  | cons x xs => exact h.1

lemma eq_nil_iff (h : Chain next a l) : l = [] ↔ a = none := by
  rw [h.head_eq, List.head?_eq_none_iff]

/-- The part behind an element is the chain that it leads to. -/
lemma behind (h : Chain next a (xs ++ x :: ys)) : Chain next (next x) ys := by
  induction xs generalizing a with
  | nil => exact h.2
  | cons w xs ih => exact ih h.2

lemma next_eq (h : Chain next a (xs ++ x :: ys)) : next x = ys.head? := h.behind.head_eq

lemma congr (h : Chain next a l) (heq : ∀ x ∈ l, next' x = next x) : Chain next' a l := by
  induction l generalizing a with
  | nil => exact h
  | cons x l ih =>
    refine ⟨h.1, ?_⟩
    rw [heq x List.mem_cons_self]
    exact ih h.2 fun y hy => heq y (List.mem_cons_of_mem x hy)

/-- From one place there is one chain. -/
lemma unique (h : Chain next a l) (h' : Chain next a l') : l = l' := by
  induction l generalizing a l' with
  | nil =>
    obtain rfl := chain_nil.mp h
    exact (h'.eq_nil_iff.mpr rfl).symm
  | cons x l ih =>
    cases l' with
    | nil =>
      obtain rfl := chain_nil.mp h'
      cases h.1
    | cons y l' =>
      obtain rfl := Option.some_inj.mp (h.1.symm.trans h'.1)
      rw [ih h.2 h'.2]

/-- No element is met twice. -/
lemma nodup (h : Chain next a l) : l.Nodup := by
  induction l generalizing a with
  | nil => exact List.nodup_nil
  | cons x l ih =>
    refine List.nodup_cons.mpr ⟨fun hx => ?_, ih h.2⟩
    -- what is behind `x` the second time is what was behind it the first time
    obtain ⟨xs, ys, rfl⟩ := List.append_of_mem hx
    have hlength := congrArg List.length (h.2.behind.unique h.2)
    simp at hlength
    omega

lemma follow_eq (h : Chain next a l) {fuel : ℕ} (hfuel : l.length ≤ fuel) :
    follow next fuel a = some l := by
  induction l generalizing a fuel with
  | nil =>
    obtain rfl := chain_nil.mp h
    cases fuel <;> rfl
  | cons x l ih =>
    obtain ⟨rfl, hrest⟩ := h
    cases fuel with
    | zero => cases hfuel
    | succ fuel => rw [follow, ih hrest (Nat.le_of_succ_le_succ hfuel), Option.map_some]

/-- An element leads to another one when it stands right before it. -/
lemma mem_and_next_eq_iff (h : Chain next a l) :
    x ∈ l ∧ next x = some y ↔ ∃ xs ys, l = xs ++ x :: y :: ys := by
  constructor
  · rintro ⟨hx, hnext⟩
    obtain ⟨xs, ys, rfl⟩ := List.append_of_mem hx
    have hhead := h.next_eq.symm.trans hnext
    obtain ⟨ys, rfl⟩ := List.head?_eq_some_iff.mp hhead
    exact ⟨xs, ys, rfl⟩
  · rintro ⟨xs, ys, rfl⟩
    exact ⟨List.mem_append_right _ List.mem_cons_self, h.next_eq⟩

/-! ### One element more or less -/

variable [DecidableEq α]

lemma update (h : Chain next a l) (hx : x ∉ l) : Chain (Function.update next x b) a l := by
  refine h.congr fun y hy => Function.update_of_ne ?_ _ _
  rintro rfl
  exact hx hy

/-- An element is led to another second part. -/
lemma setNext (h : Chain next a (xs ++ x :: ys)) (hx : x ∉ l) (hl : Chain next b l) :
    Chain (Function.update next x b) a (xs ++ x :: l) := by
  have hnodup := h.nodup
  induction xs generalizing a with
  | nil =>
    refine ⟨h.1, ?_⟩
    rw [Function.update_self]
    exact hl.update hx
  | cons w xs ih =>
    obtain ⟨hw, hrest⟩ := List.nodup_cons.mp hnodup
    have hne : w ≠ x := by
      rintro rfl
      exact hw (List.mem_append_right _ List.mem_cons_self)
    refine ⟨h.1, ?_⟩
    rw [Function.update_of_ne hne]
    exact ih h.2 hrest

/-- The first part is led to another second part. -/
lemma relink (h : Chain next head (xs ++ ys)) (hdisj : ∀ x ∈ xs, x ∉ l) (hl : Chain next b l) :
    Chain (relink next head xs.getLast? b).1 (relink next head xs.getLast? b).2 (xs ++ l) := by
  cases hlast : xs.getLast? with
  | none =>
    obtain rfl := List.getLast?_eq_none_iff.mp hlast
    exact hl
  | some w =>
    obtain ⟨xs, rfl⟩ := List.getLast?_eq_some_iff.mp hlast
    rw [List.append_assoc] at h ⊢
    exact h.setNext (hdisj w (List.mem_append_right _ List.mem_cons_self)) hl

/-- An element is left out. -/
lemma unlink (h : Chain next head (xs ++ x :: ys)) :
    Chain (Core.relink next head xs.getLast? (next x)).1 (Core.relink next head xs.getLast? (next x)).2
      (xs ++ ys) := by
  refine h.relink (fun y hy hmem => ?_) h.behind
  exact (List.nodup_append.mp h.nodup).2.2 y hy y (List.mem_cons_of_mem x hmem) rfl

/-- An element that leads to the second part already is put before it. -/
lemma link (h : Chain next head (xs ++ ys)) (hx : x ∉ xs ++ ys) (hnext : next x = ys.head?) :
    Chain (Core.relink next head xs.getLast? (some x)).1
      (Core.relink next head xs.getLast? (some x)).2 (xs ++ x :: ys) := by
  have hys : Chain next ys.head? ys := by
    cases ys with
    | nil => exact rfl
    | cons y ys => exact ⟨rfl, h.behind⟩
  refine h.relink (fun y hy hmem => ?_) ⟨rfl, hnext ▸ hys⟩
  rcases List.mem_cons.mp hmem with rfl | hmem
  · exact hx (List.mem_append_left _ hy)
  · exact (List.nodup_append.mp h.nodup).2.2 y hy y hmem rfl

end Chain

end PiKachulm.Core

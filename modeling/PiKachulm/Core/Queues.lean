import Mathlib.Algebra.BigOperators.Group.Finset.Basic
import Mathlib.Algebra.BigOperators.Pi
import Mathlib.Algebra.Order.BigOperators.Group.Finset
import Mathlib.Data.Fintype.Basic

/-!
# Families of queues

One queue for each key, and a slot outside of the queues. `Placed` says that the active elements
are those in the slot and in the queues, each of them once and in the queue of its key.
-/

namespace PiKachulm.Core

variable {ι α : Type*}

/-! ### Places -/

section Places

variable [Fintype ι] [DecidableEq α] {slot slot' : Option α} {q q' : ι → List α} {key key' : α → ι}
  {active active' : α → Prop} {i : ι} {a c : α}

/-- How often an element occurs in the slot and in the queues. -/
def occurrences (slot : Option α) (q : ι → List α) (a : α) : ℕ :=
  slot.toList.count a + ∑ i, (q i).count a

lemma occurrences_some : occurrences (some a) q c = occurrences none q c + [a].count c := by
  rw [occurrences, occurrences, Option.toList_some, Option.toList_none, List.count_nil, Nat.zero_add,
    Nat.add_comm]

lemma occurrences_pos_of_mem (ha : a ∈ q i) : 0 < occurrences slot q a := by
  have hle := Finset.single_le_sum (f := fun i => (q i).count a) (fun _ _ => Nat.zero_le _)
    (Finset.mem_univ i)
  exact Nat.add_pos_right _ ((List.count_pos_iff.mpr ha).trans_le hle)

/-- The active elements are in the slot and in the queues of their keys. -/
structure Placed (slot : Option α) (q : ι → List α) (key : α → ι) (active : α → Prop) : Prop where
  once : ∀ a, active a → occurrences slot q a = 1
  absent : ∀ a, ¬active a → occurrences slot q a = 0
  key : ∀ i, ∀ a ∈ q i, key a = i

namespace Placed

lemma congr (h : Placed slot q key active) (hactive : ∀ c, active' c ↔ active c) :
    Placed slot q key active' :=
  ⟨fun a ha => h.once a ((hactive a).mp ha), fun a ha => h.absent a (mt (hactive a).mpr ha), h.key⟩

lemma active_of_pos (h : Placed slot q key active) (hpos : 0 < occurrences slot q a) : active a := by
  by_contra hna
  rw [h.absent a hna] at hpos
  exact Nat.lt_irrefl 0 hpos

lemma active_of_mem (h : Placed slot q key active) (ha : a ∈ q i) : active a :=
  h.active_of_pos (occurrences_pos_of_mem ha)

lemma active_of_slot (h : Placed (some a) q key active) : active a := by
  apply h.active_of_pos
  rw [occurrences_some, List.count_singleton_self]
  exact Nat.succ_pos _

/-- What is in the slot is in no queue. -/
lemma not_mem_of_slot (h : Placed (some a) q key active) : a ∉ q i := by
  intro ha
  have hone := h.once a h.active_of_slot
  have hpos : 0 < occurrences none q a := occurrences_pos_of_mem ha
  rw [occurrences_some, List.count_singleton_self] at hone
  omega

lemma mem_of_active (h : Placed slot q key active) (ha : active a) : slot = some a ∨ a ∈ q (key a) := by
  by_contra hno
  rw [not_or] at hno
  have hone := h.once a ha
  have hslot : slot.toList.count a = 0 := by
    rw [List.count_eq_zero, Option.mem_toList]
    exact hno.1
  have hsum : ∑ i, (q i).count a = 0 := by
    apply Finset.sum_eq_zero
    intro i _
    rw [List.count_eq_zero]
    intro hi
    rw [h.key i a hi] at hno
    exact hno.2 hi
  rw [occurrences, hslot, hsum] at hone
  exact Nat.zero_ne_one hone

/-- The key of an element that is in no queue may change. -/
lemma rekey (h : Placed slot q key active) (hkey : ∀ i, ∀ c ∈ q i, key' c = key c) :
    Placed slot q key' active :=
  ⟨h.once, h.absent, fun i c hc => (hkey i c hc).trans (h.key i c hc)⟩

/-- One occurrence more, of an element that was not active. -/
lemma add (h : Placed slot q key active) (hna : ¬active a)
    (hocc : ∀ c, occurrences slot' q' c = occurrences slot q c + [a].count c)
    (hkey : ∀ i, ∀ c ∈ q' i, key c = i) : Placed slot' q' key (fun c => active c ∨ c = a) where
  once c hc := by
    rw [hocc]
    by_cases hca : c = a
    · rw [hca, h.absent a hna, List.count_singleton_self]
    · rw [h.once c (hc.resolve_right hca), List.count_singleton, beq_false_of_ne (Ne.symm hca)]
      rfl
  absent c hc := by
    rw [not_or] at hc
    rw [hocc, h.absent c hc.1, List.count_singleton, beq_false_of_ne (Ne.symm hc.2)]
    rfl
  key := hkey

/-- One occurrence less. -/
lemma drop (h : Placed slot q key active)
    (hocc : ∀ c, occurrences slot' q' c + [a].count c = occurrences slot q c)
    (hkey : ∀ i, ∀ c ∈ q' i, key c = i) : Placed slot' q' key (fun c => active c ∧ c ≠ a) where
  once c hc := by
    have hc' := hocc c
    rw [h.once c hc.1, List.count_singleton, beq_false_of_ne (Ne.symm hc.2)] at hc'
    exact hc'
  absent c hc := by
    have hc' := hocc c
    by_cases hact : active c
    · rw [not_and_not_right] at hc
      rw [hc hact, List.count_singleton_self, h.once a (hc hact ▸ hact)] at hc'
      rw [hc hact]
      exact Nat.succ_injective hc'
    · rw [h.absent c hact] at hc'
      exact (Nat.add_eq_zero_iff.mp hc').1
  key := hkey

/-- The slot is given to an element that was not active. -/
lemma fill (h : Placed none q key active) (hna : ¬active a) :
    Placed (some a) q key (fun c => active c ∨ c = a) :=
  h.add hna (fun _ => occurrences_some) h.key

/-- The slot is emptied. -/
lemma vacate (h : Placed (some a) q key active) : Placed none q key (fun c => active c ∧ c ≠ a) :=
  h.drop (fun _ => occurrences_some.symm) h.key

end Placed

end Places

/-! ### Queues -/

variable [DecidableEq ι]

/-- Adds `a` at the end of the queue of `i`. -/
def pushBack (q : ι → List α) (i : ι) (a : α) : ι → List α := Function.update q i (q i ++ [a])

/-- Removes the first `a` of the queue of `i`. -/
def eraseFrom [DecidableEq α] (q : ι → List α) (i : ι) (a : α) : ι → List α :=
  Function.update q i ((q i).erase a)

/-- Takes the first element of the first queue that has one, among those of a list. -/
def popFirst (q : ι → List α) : List ι → Option (α × (ι → List α))
  | []      => none
  | i :: is =>
    match q i with
    | []        => popFirst q is
    | a :: rest => some (a, Function.update q i rest)

variable {q q' : ι → List α} {i : ι} {is : List ι} {a c : α} {rest l : List α}

lemma popFirst_eq_none : popFirst q is = none ↔ ∀ i ∈ is, q i = [] := by
  induction is with
  | nil          => simp [popFirst]
  | cons i is ih =>
    rw [popFirst, List.forall_mem_cons]
    cases hq : q i <;> simp [ih]

/-- The element comes from the first queue of the list that is not empty. -/
lemma popFirst_eq_some : popFirst q is = some (a, q') ↔
    ∃ pre i post rest, is = pre ++ i :: post ∧ (∀ j ∈ pre, q j = []) ∧ q i = a :: rest ∧
      q' = Function.update q i rest := by
  constructor
  · intro h
    induction is with
    | nil          => cases h
    | cons i is ih =>
      rw [popFirst] at h
      split at h
      · rename_i hq
        obtain ⟨pre, j, post, rest, rfl, hpre, hj, hq'⟩ := ih h
        exact ⟨i :: pre, j, post, rest, rfl, List.forall_mem_cons.mpr ⟨hq, hpre⟩, hj, hq'⟩
      · rename_i hq
        cases h
        exact ⟨[], i, is, _, rfl, by simp, hq, rfl⟩
  · rintro ⟨pre, i, post, rest, rfl, hpre, hi, rfl⟩
    induction pre with
    | nil          => simp [popFirst, hi]
    | cons j pre ih =>
      rw [List.forall_mem_cons] at hpre
      rw [List.cons_append, popFirst, hpre.1]
      exact ih hpre.2

/-- Along a decreasing list the element comes from the highest queue that is not empty. -/
lemma popFirst_eq_some_of_sorted [LinearOrder ι] (hsorted : is.Pairwise (· > ·)) :
    popFirst q is = some (a, q') ↔ ∃ i rest, i ∈ is ∧ q i = a :: rest ∧
      (∀ j ∈ is, i < j → q j = []) ∧ q' = Function.update q i rest := by
  rw [popFirst_eq_some]
  constructor
  · rintro ⟨pre, i, post, rest, rfl, hpre, hi, rfl⟩
    refine ⟨i, rest, by simp, hi, fun j hj hlt => ?_, rfl⟩
    rw [List.pairwise_append, List.pairwise_cons] at hsorted
    rcases List.mem_append.mp hj with hj | hj
    · exact hpre j hj
    · rcases List.mem_cons.mp hj with rfl | hj
      · exact (lt_irrefl _ hlt).elim
      · exact (lt_asymm hlt (hsorted.2.1.1 j hj)).elim
  · rintro ⟨i, rest, hmem, hi, hhigher, rfl⟩
    obtain ⟨pre, post, rfl⟩ := List.append_of_mem hmem
    rw [List.pairwise_append] at hsorted
    exact ⟨pre, i, post, rest, rfl, fun j hj => hhigher j (List.mem_append_left _ hj)
      (hsorted.2.2 j hj i List.mem_cons_self), hi, rfl⟩

omit [DecidableEq ι] in
/-- The elements of a decreasing list that are above one. -/
lemma mem_takeWhile_of_sorted [LinearOrder ι] {p : ι} (hsorted : is.Pairwise (· > ·)) :
    i ∈ is.takeWhile (fun j => decide (j > p)) ↔ i ∈ is ∧ p < i := by
  induction is with
  | nil => simp
  | cons j is ih =>
    rw [List.pairwise_cons] at hsorted
    rw [List.takeWhile_cons]
    by_cases hj : p < j
    · rw [if_pos (decide_eq_true hj), List.mem_cons, List.mem_cons, ih hsorted.2]
      constructor
      · rintro (rfl | ⟨hmem, hlt⟩)
        · exact ⟨.inl rfl, hj⟩
        · exact ⟨.inr hmem, hlt⟩
      · rintro ⟨rfl | hmem, hlt⟩
        · exact .inl rfl
        · exact .inr ⟨hmem, hlt⟩
    · rw [if_neg (mt of_decide_eq_true hj)]
      refine iff_of_false List.not_mem_nil ?_
      rintro ⟨hmem, hlt⟩
      rcases List.mem_cons.mp hmem with rfl | hmem
      · exact hj hlt
      · exact hj (hlt.trans (hsorted.1 i hmem))

/-- A list that repeats one key. -/
lemma popFirst_map_const {β : Type*} {l : List β} (hl : l ≠ []) (hi : q i = a :: rest) :
    popFirst q (l.map fun _ => i) = some (a, Function.update q i rest) := by
  cases l with
  | nil      => exact (hl rfl).elim
  | cons _ _ => simp [popFirst, hi]

lemma mem_update {j : ι} (hc : c ∈ Function.update q i l j) : (j = i ∧ c ∈ l) ∨ c ∈ q j := by
  by_cases hj : j = i
  · subst hj
    rw [Function.update_self] at hc
    exact .inl ⟨rfl, hc⟩
  · rw [Function.update_of_ne hj] at hc
    exact .inr hc

variable [Fintype ι] [DecidableEq α] {slot : Option α} {key : α → ι} {active : α → Prop}

lemma sum_update_count (q : ι → List α) (i : ι) (l : List α) (c : α) :
    ∑ j, (Function.update q i l j).count c + (q i).count c = ∑ j, (q j).count c + l.count c := by
  have hupd : ∀ l : List α, ∑ j, (Function.update q i l j).count c =
      l.count c + ∑ j ∈ Finset.univ.erase i, (q j).count c := by
    intro l
    rw [← Finset.add_sum_erase _ _ (Finset.mem_univ i), Function.update_self]
    congr 1
    apply Finset.sum_congr rfl
    intro j hj
    rw [Function.update_of_ne (Finset.ne_of_mem_erase hj)]
  have hself := hupd (q i)
  rw [Function.update_eq_self] at hself
  rw [hupd, hself]
  omega

lemma occurrences_pushBack :
    occurrences slot (pushBack q i a) c = occurrences slot q c + [a].count c := by
  have h := sum_update_count q i (q i ++ [a]) c
  rw [List.count_append] at h
  rw [occurrences, occurrences, pushBack]
  omega

lemma occurrences_update (hperm : (q i).Perm (a :: l)) :
    occurrences slot (Function.update q i l) c + [a].count c = occurrences slot q c := by
  have h := sum_update_count q i l c
  rw [hperm.count_eq c, ← List.singleton_append, List.count_append] at h
  rw [occurrences, occurrences]
  omega

namespace Placed

/-- An element that was not active enters the queue of its key. -/
lemma push (h : Placed slot q key active) (hna : ¬active a) :
    Placed slot (pushBack q (key a) a) key (fun c => active c ∨ c = a) := by
  refine h.add hna (fun _ => occurrences_pushBack) fun i c hc => ?_
  rcases mem_update hc with ⟨rfl, hl⟩ | hq
  · rw [List.mem_append, List.mem_singleton] at hl
    rcases hl with hq | rfl
    · exact h.key _ c hq
    · rfl
  · exact h.key i c hq

/-- An element leaves its queue. -/
lemma leave (h : Placed slot q key active) (hperm : (q i).Perm (a :: l)) :
    Placed slot (Function.update q i l) key (fun c => active c ∧ c ≠ a) := by
  refine h.drop (fun _ => occurrences_update hperm) fun j c hc => ?_
  rcases mem_update hc with ⟨rfl, hl⟩ | hq
  · exact h.key _ c (hperm.mem_iff.mpr (List.mem_cons_of_mem _ hl))
  · exact h.key j c hq

lemma erase (h : Placed slot q key active) (ha : a ∈ q i) :
    Placed slot (eraseFrom q i a) key (fun c => active c ∧ c ≠ a) :=
  h.leave (List.perm_cons_erase ha)

lemma pop (h : Placed slot q key active) (hpop : popFirst q is = some (a, q')) :
    active a ∧ Placed slot q' key (fun c => active c ∧ c ≠ a) := by
  obtain ⟨pre, i, post, rest, -, -, hi, rfl⟩ := popFirst_eq_some.mp hpop
  exact ⟨h.active_of_mem (hi ▸ List.mem_cons_self), h.leave (hi ▸ List.Perm.refl _)⟩

end Placed

end PiKachulm.Core

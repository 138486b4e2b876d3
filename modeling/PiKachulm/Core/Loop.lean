import Mathlib.Logic.Function.Basic
import Mathlib.Tactic.Common

/-!
# Loops that may fail

A counted loop over a partial step function is `List.foldlM` in the `Option` monad. This file
gives the rules such loops are reasoned with: an invariant rule, a simulation rule between two
loops, and the behaviour of a loop whose every iteration rewrites one cell of an array.
-/

namespace PiKachulm.Core

variable {σ τ α E C : Type*}

/-! ### Invariants and simulations -/

/-- What every iteration preserves, a loop that does not fail preserves. -/
lemma foldlM_induct {f : σ → α → Option σ} {l : List α} {s s' : σ} (I : σ → Prop)
    (h : l.foldlM f s = some s') (h0 : I s)
    (hstep : ∀ a ∈ l, ∀ t t', I t → f t a = some t' → I t') : I s' := by
  induction l generalizing s with
  | nil =>
    cases h
    exact h0
  | cons a l ih =>
    rw [List.foldlM_cons, Option.bind_eq_bind, Option.bind_eq_some_iff] at h
    obtain ⟨t, ha, hl⟩ := h
    exact ih hl (hstep a (by simp) s t h0 ha)
      fun b hb => hstep b (List.mem_cons_of_mem a hb)

/-- Two loops over the same indices stay related when each pair of iterations does. -/
lemma foldlM_rel {f : σ → α → Option σ} {g : τ → α → Option τ} {R : σ → τ → Prop} {l : List α}
    {s : σ} {t : τ} (h0 : R s t)
    (hstep : ∀ a ∈ l, ∀ s t, R s t → Option.Rel R (f s a) (g t a)) :
    Option.Rel R (l.foldlM f s) (l.foldlM g t) := by
  induction l generalizing s t with
  | nil => exact .some h0
  | cons a l ih =>
    rw [List.foldlM_cons, List.foldlM_cons]
    have ha := hstep a (by simp) s t h0
    cases hf : f s a <;> cases hg : g t a <;> rw [hf, hg] at ha <;> cases ha
    · exact .none
    · rename_i h
      exact ih h fun b hb => hstep b (List.mem_cons_of_mem a hb)

/-- Related computations followed by computations that keep related results related. -/
lemma rel_bind {σ' τ' : Type*} {R : σ → τ → Prop} {Q : σ' → τ' → Prop} {a : Option σ}
    {b : Option τ} {f : σ → Option σ'} {g : τ → Option τ'} (hab : Option.Rel R a b)
    (hfg : ∀ x y, R x y → Option.Rel Q (f x) (g y)) : Option.Rel Q (a.bind f) (b.bind g) := by
  cases hab with
  | none => exact .none
  | some hxy => exact hfg _ _ hxy

lemma rel_map_right {τ' : Type*} {R : σ → τ → Prop} {Q : σ → τ' → Prop} {a : Option σ}
    {b : Option τ} {g : τ → τ'} (hab : Option.Rel R a b) (hg : ∀ x y, R x y → Q x (g y)) :
    Option.Rel Q a (b.map g) := by
  cases hab with
  | none => exact .none
  | some hxy => exact .some (hg _ _ hxy)

lemma rel_map_eq {ρ : Type*} {R : σ → τ → Prop} {a : Option σ} {b : Option τ} {f : σ → ρ} {g : τ → ρ}
    (hab : Option.Rel R a b) (hfg : ∀ x y, R x y → f x = g y) : a.map f = b.map g := by
  cases hab with
  | none => rfl
  | some hxy => exact congrArg some (hfg _ _ hxy)

lemma rel_none_iff {R : σ → τ → Prop} {a : Option σ} {b : Option τ} (hab : Option.Rel R a b) :
    a = none ↔ b = none := by
  cases hab with
  | none => simp
  | some hxy => simp

lemma rel_map_right_bind {σ' τ' : Type*} {R : σ → τ → Prop} {Q : σ' → τ' → Prop} {a : Option σ}
    {b : Option τ} {f : σ → Option σ'} {g : τ → τ'} (hab : Option.Rel R a b)
    (hfg : ∀ x y, R x y → Option.Rel Q (f x) (some (g y))) :
    Option.Rel Q (a.bind f) (b.map g) := by
  cases hab with
  | none => exact .none
  | some hxy => exact hfg _ _ hxy

/-! ### One cell per iteration -/

/-- Run `op` on the cells `l` of an array in order, threading a context through the calls. -/
def updateCells (op : ℕ → E × C → Option (E × C)) (l : List ℕ) (x : (ℕ → E) × C) :
    Option ((ℕ → E) × C) :=
  l.foldlM (fun x i => (op i (x.1 i, x.2)).map fun y => (Function.update x.1 i y.1, y.2)) x

@[simp] lemma updateCells_nil (op : ℕ → E × C → Option (E × C)) (x : (ℕ → E) × C) :
    updateCells op [] x = some x := rfl

lemma updateCells_cons {op : ℕ → E × C → Option (E × C)} {i : ℕ} {l : List ℕ}
    {x y : (ℕ → E) × C} :
    updateCells op (i :: l) x = some y ↔ ∃ e c, op i (x.1 i, x.2) = some (e, c) ∧
      updateCells op l (Function.update x.1 i e, c) = some y := by
  simp only [updateCells, List.foldlM_cons, Option.bind_eq_bind, Option.bind_eq_some_iff,
    Option.map_eq_some_iff]
  constructor
  · rintro ⟨_, ⟨⟨e, c⟩, h, rfl⟩, hl⟩
    exact ⟨e, c, h, hl⟩
  · rintro ⟨e, c, h, hl⟩
    exact ⟨_, ⟨⟨e, c⟩, h, rfl⟩, hl⟩

/-- A loop whose every iteration returns, returns. -/
lemma updateCells_total {op : ℕ → E × C → Option (E × C)} (hop : ∀ i x, ∃ y, op i x = some y)
    (l : List ℕ) (x : (ℕ → E) × C) : ∃ y, updateCells op l x = some y := by
  induction l generalizing x with
  | nil => exact ⟨x, rfl⟩
  | cons i l ih =>
    obtain ⟨⟨e, c⟩, ha⟩ := hop i (x.1 i, x.2)
    obtain ⟨y, hy⟩ := ih (Function.update x.1 i e, c)
    exact ⟨y, updateCells_cons.mpr ⟨e, c, ha, hy⟩⟩

/-- An invariant of the array and the context, when each iteration meets its cell untouched. -/
lemma updateCells_induct {op : ℕ → E × C → Option (E × C)} {l : List ℕ} {x y : (ℕ → E) × C}
    (I : (ℕ → E) → C → Prop) (hl : l.Nodup) (h : updateCells op l x = some y) (h0 : I x.1 x.2)
    (hstep : ∀ i ∈ l, ∀ t c e' c', I t c → t i = x.1 i → op i (t i, c) = some (e', c') →
      I (Function.update t i e') c') : I y.1 y.2 := by
  induction l generalizing x with
  | nil =>
    cases h
    exact h0
  | cons i l ih =>
    obtain ⟨e, c, ha, hrest⟩ := updateCells_cons.mp h
    obtain ⟨hi, hl⟩ := List.nodup_cons.mp hl
    refine ih hl hrest (hstep i (by simp) _ _ _ _ h0 rfl ha) ?_
    intro j hj t c' e' c'' hI htj
    have hji : j ≠ i := fun heq => hi (heq ▸ hj)
    exact hstep j (List.mem_cons_of_mem i hj) t c' e' c'' hI
      (htj.trans (Function.update_of_ne hji _ _))

/-- Cells outside `l` are left alone; each cell of `l` is the result of its own iteration. -/
lemma updateCells_cell {op : ℕ → E × C → Option (E × C)} {l : List ℕ} {x y : (ℕ → E) × C}
    (hl : l.Nodup) (h : updateCells op l x = some y) :
    (∀ i ∉ l, y.1 i = x.1 i) ∧ ∀ i ∈ l, ∃ c c', op i (x.1 i, c) = some (y.1 i, c') := by
  induction l generalizing x with
  | nil =>
    cases h
    simp
  | cons i l ih =>
    obtain ⟨e, c, ha, hrest⟩ := updateCells_cons.mp h
    obtain ⟨hi, hl⟩ := List.nodup_cons.mp hl
    obtain ⟨hout, hin⟩ := ih hl hrest
    constructor
    · intro j hj
      obtain ⟨hji, hjl⟩ := List.ne_and_not_mem_of_not_mem_cons hj
      exact (hout j hjl).trans (Function.update_of_ne hji _ _)
    · intro j hj
      rcases List.mem_cons.mp hj with rfl | hj
      · refine ⟨x.2, c, ?_⟩
        rw [hout j hi]
        simpa using ha
      · obtain ⟨c₁, c₂, hop⟩ := hin j hj
        have hji : j ≠ i := fun heq => hi (heq ▸ hj)
        exact ⟨c₁, c₂, by simpa [Function.update_of_ne hji] using hop⟩

end PiKachulm.Core

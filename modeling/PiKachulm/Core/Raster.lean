import Mathlib.Logic.Function.Basic
import Mathlib.Logic.Function.Iterate
import Mathlib.Tactic.Common

/-!
# Writing to a buffer

Drawing is a list of accesses, each of which replaces one cell of a buffer by a function of what the
cell held. What a list does to a cell is the composition of the accesses to this cell: it does
nothing, leaves a value that does not depend on the old one, or blends.
-/

namespace PiKachulm.Core

variable {V : Type*}

/-- One cell is read and written. -/
structure Access (V : Type*) where
  index : ℕ
  write : V → V

namespace Access

/-- A cell is written without being read. -/
def put (index : ℕ) (v : V) : Access V := ⟨index, fun _ => v⟩

/-- The effect of the accesses, in their order, on cell `i`. -/
def effect (l : List (Access V)) (i : ℕ) (v : V) : V :=
  l.foldl (fun v a => if a.index = i then a.write v else v) v

/-- The buffer after the accesses. -/
def run (l : List (Access V)) (buffer : ℕ → V) : ℕ → V :=
  l.foldl (fun buffer a => Function.update buffer a.index (a.write (buffer a.index))) buffer

variable {l l' : List (Access V)} {a : Access V} {i : ℕ} {v c : V} {buffer : ℕ → V}

@[simp] lemma effect_nil : effect ([] : List (Access V)) i v = v := rfl

@[simp] lemma effect_cons :
    effect (a :: l) i v = effect l i (if a.index = i then a.write v else v) := rfl

@[simp] lemma effect_append : effect (l ++ l') i v = effect l' i (effect l i v) := by
  simp [effect, List.foldl_append]

@[simp] lemma run_nil : run [] buffer = buffer := rfl

/-- The cells do not depend on each other. -/
lemma run_apply : run l buffer i = effect l i (buffer i) := by
  induction l generalizing buffer with
  | nil => rfl
  | cons a l ih =>
    rw [effect_cons]
    change run l (Function.update buffer a.index (a.write (buffer a.index))) i = _
    rw [ih]
    split_ifs with h
    · rw [← h, Function.update_self]
    · rw [Function.update_of_ne (Ne.symm h)]

/-- A cell after several runs. -/
lemma iterate_run_apply (n : ℕ) : (run l)^[n] buffer i = (effect l i)^[n] (buffer i) :=
  Function.Semiconj.iterate_right (f := fun buffer : ℕ → V => buffer i) (fun _ => run_apply) n buffer

/-- A cell that no access is about. -/
lemma effect_of_untouched (h : ∀ a ∈ l, a.index ≠ i) : effect l i v = v := by
  induction l generalizing v with
  | nil => rfl
  | cons a l ih =>
    rw [effect_cons, if_neg (h a List.mem_cons_self)]
    exact ih fun b hb => h b (List.mem_cons_of_mem _ hb)

/-- The cell gets the value `c`, whatever it held. -/
def Sets (l : List (Access V)) (i : ℕ) (c : V) : Prop := ∀ v, effect l i v = c

/-- All accesses to a cell write the same value, and there is one. -/
lemma sets_of_writes (hall : ∀ a ∈ l, a.index = i → ∀ v, a.write v = c) (hany : ∃ a ∈ l, a.index = i) :
    Sets l i c := by
  intro v
  induction l generalizing v with
  | nil => exact absurd hany (by simp)
  | cons a l ih =>
    have hrest := fun b hb => hall b (List.mem_cons_of_mem a hb)
    rw [effect_cons]
    by_cases hl : ∃ b ∈ l, b.index = i
    · exact ih hrest hl _
    · obtain ⟨b, hb, hi⟩ := hany
      rcases List.mem_cons.mp hb with rfl | hb
      · rw [if_pos hi, hall b List.mem_cons_self hi]
        exact effect_of_untouched fun a ha hai => hl ⟨a, ha, hai⟩
      · exact absurd ⟨b, hb, hi⟩ hl

/-- Accesses that do not read hide what was in the cell. -/
lemma effect_eq_iff {v' : V} (h : ∀ a ∈ l, ∀ u u', a.write u = a.write u') :
    effect l i v = effect l i v' ↔ (∃ a ∈ l, a.index = i) ∨ v = v' := by
  induction l generalizing v v' with
  | nil => simp
  | cons a l ih =>
    rw [effect_cons, effect_cons, ih fun b hb => h b (List.mem_cons_of_mem _ hb)]
    by_cases hindex : a.index = i
    · simp [hindex, h a List.mem_cons_self v v']
    · simp [hindex]

end Access

end PiKachulm.Core

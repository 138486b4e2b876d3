import Mathlib.Data.Set.Insert
import Mathlib.Tactic.Common

/-!
# Histories of an allocator

The calls made to an allocator, most recent first, and the resources they leave in use.
-/

namespace PiKachulm.Core

variable {P : Type*}

/-- One call to the allocator, with the resource it returned or was given back. -/
inductive AllocEvent (P : Type*) where
  | alloc (p : P)
  | free (p : P)
  deriving DecidableEq, Repr

/-- The calls made so far, most recent first. -/
abbrev History (P : Type*) := List (AllocEvent P)

/-- The resources obtained and not yet given back. -/
def live : History P → Set P
  | []            => ∅
  | .alloc p :: h => insert p (live h)
  | .free p :: h  => live h \ {p}

@[simp] lemma live_nil : live ([] : History P) = ∅ := rfl

@[simp] lemma live_alloc (p : P) (h : History P) : live (.alloc p :: h) = insert p (live h) := rfl

@[simp] lemma live_free (p : P) (h : History P) : live (.free p :: h) = live h \ {p} := rfl

/-- Which resources are in use can be computed. -/
def decidableMemLive [DecidableEq P] : (h : History P) → (p : P) → Decidable (p ∈ live h)
  | [], _            => .isFalse id
  | .alloc q :: h, p =>
    have := decidableMemLive h p
    inferInstanceAs (Decidable (p = q ∨ p ∈ live h))
  | .free q :: h, p  =>
    have := decidableMemLive h p
    inferInstanceAs (Decidable (p ∈ live h ∧ ¬p = q))

instance [DecidableEq P] (h : History P) (p : P) : Decidable (p ∈ live h) := decidableMemLive h p

/-- Nothing is handed out while in use, and nothing is given back twice. -/
def Disciplined : History P → Prop
  | []            => True
  | .alloc p :: h => p ∉ live h ∧ Disciplined h
  | .free p :: h  => p ∈ live h ∧ Disciplined h

@[simp] lemma disciplined_nil : Disciplined ([] : History P) := trivial

@[simp] lemma disciplined_alloc {p : P} {h : History P} :
    Disciplined (.alloc p :: h) ↔ p ∉ live h ∧ Disciplined h := Iff.rfl

@[simp] lemma disciplined_free {p : P} {h : History P} :
    Disciplined (.free p :: h) ↔ p ∈ live h ∧ Disciplined h := Iff.rfl

open Classical in
/-- Each resource has been given back as often as it was obtained, once less when in use. -/
lemma Disciplined.count_alloc {h : History P} (hd : Disciplined h) (p : P) :
    h.count (.alloc p) = h.count (.free p) + if p ∈ live h then 1 else 0 := by
  induction h with
  | nil => simp
  | cons e h ih =>
    cases e with
    | alloc q =>
      obtain ⟨hq, hd⟩ := hd
      by_cases hpq : q = p
      · subst hpq
        simp [ih hd, hq]
      · have hpq' : p ≠ q := fun heq => hpq heq.symm
        simp [ih hd, hpq, hpq']
    | free q =>
      obtain ⟨hq, hd⟩ := hd
      by_cases hpq : q = p
      · subst hpq
        simp [ih hd, hq]
      · have hpq' : p ≠ q := fun heq => hpq heq.symm
        simp [ih hd, hpq, hpq']

/-- With nothing in use, everything obtained has been given back exactly as often. -/
lemma Disciplined.count_eq_of_live_empty {h : History P} [DecidableEq P] (hd : Disciplined h)
    (hl : live h = ∅) (p : P) : h.count (.alloc p) = h.count (.free p) := by
  classical
  have hp : p ∉ live h := hl ▸ Set.notMem_empty p
  have hcount := hd.count_alloc p
  rw [if_neg hp, Nat.add_zero] at hcount
  convert hcount

end PiKachulm.Core

import Mathlib.Tactic.Common

/-!
# Runs of a machine

A machine takes steps that may be impossible. A property of its states holds throughout a run when
every step that is taken meets the condition under which it keeps an invariant.
-/

namespace PiKachulm.Core

variable {σ α : Type*} {step : σ → α → Option σ} {I P : σ → Prop} {C : σ → α → Prop} {s : σ}

/-- The property holds of all states that a run goes through. The run ends at an impossible step. -/
def AllStates (step : σ → α → Option σ) (P : σ → Prop) (s : σ) : List α → Prop
  | []      => P s
  | a :: as => P s ∧ ∀ s', step s a = some s' → AllStates step P s' as

/-- The condition holds of all steps that a run takes. -/
def AllSteps (step : σ → α → Option σ) (C : σ → α → Prop) (s : σ) : List α → Prop
  | []      => True
  | a :: as => ∀ s', step s a = some s' → C s a ∧ AllSteps step C s' as

lemma AllStates.first {as : List α} (h : AllStates step P s as) : P s := by
  cases as with
  | nil => exact h
  | cons a as => exact h.1

/-- What every step that meets the condition keeps, a run of such steps keeps. -/
lemma AllSteps.allStates (hP : ∀ s, I s → P s)
    (hstep : ∀ s a s', I s → step s a = some s' → C s a → I s') {as : List α} (hs : I s)
    (h : AllSteps step C s as) : AllStates step P s as := by
  induction as generalizing s with
  | nil => exact hP s hs
  | cons a as ih =>
    refine ⟨hP s hs, fun s' hrun => ?_⟩
    obtain ⟨hcond, hrest⟩ := h s' hrun
    exact ih (hstep s a s' hs hrun hcond) hrest

/-- When any other step breaks the property, the condition is exact. -/
lemma allStates_iff_allSteps (hP : ∀ s, I s → P s)
    (hstep : ∀ s a s', I s → step s a = some s' → C s a → I s')
    (hbreak : ∀ s a s', I s → step s a = some s' → P s' → C s a) {as : List α} (hs : I s) :
    AllStates step P s as ↔ AllSteps step C s as := by
  constructor
  · intro h
    induction as generalizing s with
    | nil => trivial
    | cons a as ih =>
      intro s' hrun
      have hrest := h.2 s' hrun
      have hcond := hbreak s a s' hs hrun hrest.first
      exact ⟨hcond, ih (hstep s a s' hs hrun hcond) hrest⟩
  · exact AllSteps.allStates hP hstep hs

end PiKachulm.Core

import Mathlib.Tactic.Common

/-!
# Programs that may end early

A program with a state has a result or ends with an error, and the state is kept in both cases. `Meets` says
that a program has a result with a property. `Lockstep` compares two programs, which may have states of
different types: either both have results that are related, or both end with the same error.
-/

namespace PiKachulm.Core

variable {ε σ τ α β γ δ : Type} {P : σ → Prop} {Q : α → σ → Prop} {R : σ → τ → Prop}
  {S : α → β → σ → τ → Prop} {T : σ → τ → Prop} {p p' : EStateM ε σ α} {q q' : EStateM ε τ β}

/-! ### One program -/

/-- From a state with `P`, the program has a result with `Q`. -/
def Meets (P : σ → Prop) (p : EStateM ε σ α) (Q : α → σ → Prop) : Prop :=
  ∀ s, P s → ∃ a s', p s = .ok a s' ∧ Q a s'

namespace Meets

lemma pure {a : α} (h : ∀ s, P s → Q a s) : Meets P (Pure.pure a : EStateM ε σ α) Q :=
  fun s hs => ⟨a, s, rfl, h s hs⟩

lemma bind {f : α → EStateM ε σ β} {Q' : β → σ → Prop} (h : Meets P p Q)
    (hf : ∀ a, Meets (Q a) (f a) Q') : Meets P (p >>= f) Q' := by
  intro s hs
  obtain ⟨a, s', ha, hQ⟩ := h s hs
  obtain ⟨b, s'', hb, hQ'⟩ := hf a s' hQ
  refine ⟨b, s'', ?_, hQ'⟩
  change EStateM.bind p f s = _
  rw [EStateM.bind, ha]
  exact hb

/-- The state is looked at. -/
lemma get_bind {f : σ → EStateM ε σ β} {Q' : β → σ → Prop} (h : ∀ s, P s → Meets (· = s) (f s) Q') :
    Meets P (get >>= f) Q' := fun s hs => h s hs s rfl

/-- From one state. -/
lemma here {s : σ} (h : Meets P p Q) (hs : P s) : Meets (· = s) p Q := by
  rintro s rfl
  exact h s hs

lemma modify {g : σ → σ} {Q : Unit → σ → Prop} (h : ∀ s, P s → Q () (g s)) :
    Meets P (modify g : EStateM ε σ Unit) Q := fun s hs => ⟨(), g s, rfl, h s hs⟩

lemma ite {c : Prop} [Decidable c] (hp : c → Meets P p Q) (hq : ¬c → Meets P p' Q) :
    Meets P (if c then p else p') Q := by
  split_ifs with hc
  · exact hp hc
  · exact hq hc

lemma mono {P' : σ → Prop} {Q' : α → σ → Prop} (h : Meets P p Q) (hP : ∀ s, P' s → P s)
    (hQ : ∀ a s, Q a s → Q' a s) : Meets P' p Q' := by
  intro s hs
  obtain ⟨a, s', ha, h'⟩ := h s (hP s hs)
  exact ⟨a, s', ha, hQ a s' h'⟩

end Meets

lemma tryCatch_of_ok {handle : ε → EStateM ε σ α} {s s' : σ} {a : α} (h : p s = .ok a s') :
    (tryCatch p handle : EStateM ε σ α) s = .ok a s' := by
  change EStateM.tryCatch p handle s = _
  rw [EStateM.tryCatch, h]

/-- The state at the error is kept. -/
lemma tryCatch_of_error {handle : ε → EStateM ε σ α} {s s' : σ} {e : ε} (h : p s = .error e s') :
    (tryCatch p handle : EStateM ε σ α) s = handle e s' := by
  change EStateM.tryCatch p handle s = _
  rw [EStateM.tryCatch, h]
  rfl

lemma bind_of_ok {f : α → EStateM ε σ β} {s s' : σ} {a : α} (h : p s = .ok a s') : (p >>= f) s = f a s' := by
  change EStateM.bind p f s = _
  rw [EStateM.bind, h]

lemma bind_of_error {f : α → EStateM ε σ β} {s s' : σ} {e : ε} (h : p s = .error e s') :
    (p >>= f) s = .error e s' := by
  change EStateM.bind p f s = _
  rw [EStateM.bind, h]

/-! ### Two programs -/

/-- From states with `R`, the programs end alike: with results for which `S` holds, or with the same error
and with states for which `T` holds. -/
def Lockstep (R : σ → τ → Prop) (p : EStateM ε σ α) (q : EStateM ε τ β) (S : α → β → σ → τ → Prop)
    (T : σ → τ → Prop) : Prop :=
  ∀ s t, R s t → (∃ a b s' t', p s = .ok a s' ∧ q t = .ok b t' ∧ S a b s' t') ∨
    ∃ e s' t', p s = .error e s' ∧ q t = .error e t' ∧ T s' t'

namespace Lockstep

lemma pure {a : α} {b : β} (h : ∀ s t, R s t → S a b s t) :
    Lockstep R (Pure.pure a : EStateM ε σ α) (Pure.pure b : EStateM ε τ β) S T :=
  fun s t hst => .inl ⟨a, b, s, t, rfl, rfl, h s t hst⟩

lemma throw {e : ε} (h : ∀ s t, R s t → T s t) :
    Lockstep R (throw e : EStateM ε σ α) (throw e : EStateM ε τ β) S T :=
  fun s t hst => .inr ⟨e, s, t, rfl, rfl, h s t hst⟩

lemma bind {f : α → EStateM ε σ γ} {g : β → EStateM ε τ δ} {S' : γ → δ → σ → τ → Prop}
    (h : Lockstep R p q S T) (hfg : ∀ a b, Lockstep (S a b) (f a) (g b) S' T) :
    Lockstep R (p >>= f) (q >>= g) S' T := by
  intro s t hst
  change (∃ a b s' t', EStateM.bind p f s = _ ∧ EStateM.bind q g t = _ ∧ _) ∨
    ∃ e s' t', EStateM.bind p f s = _ ∧ EStateM.bind q g t = _ ∧ _
  obtain ⟨a, b, s', t', ha, hb, hS⟩ | ⟨e, s', t', ha, hb, hT⟩ := h s t hst
  · rw [EStateM.bind, EStateM.bind, ha, hb]
    exact hfg a b s' t' hS
  · rw [EStateM.bind, EStateM.bind, ha, hb]
    exact .inr ⟨e, s', t', rfl, rfl, hT⟩

lemma get_bind {f : σ → EStateM ε σ γ} {g : τ → EStateM ε τ δ} {S' : γ → δ → σ → τ → Prop}
    (h : ∀ s t, R s t → Lockstep (fun s' t' => s' = s ∧ t' = t) (f s) (g t) S' T) :
    Lockstep R (get >>= f) (get >>= g) S' T := fun s t hst => h s t hst s t ⟨rfl, rfl⟩

/-- The first parts have the same result. -/
lemma bind_eq {S : α → σ → τ → Prop} {q : EStateM ε τ α} {f : α → EStateM ε σ γ} {g : α → EStateM ε τ δ}
    {S' : γ → δ → σ → τ → Prop} (h : Lockstep R p q (fun a b s t => b = a ∧ S a s t) T)
    (hfg : ∀ a, Lockstep (S a) (f a) (g a) S' T) : Lockstep R (p >>= f) (q >>= g) S' T := by
  apply h.bind
  rintro a b s t ⟨rfl, hS⟩
  exact hfg b s t hS

/-- From two states. -/
lemma here {s : σ} {t : τ} (h : Lockstep R p q S T) (hst : R s t) :
    Lockstep (fun s' t' => s' = s ∧ t' = t) p q S T := by
  rintro s t ⟨rfl, rfl⟩
  exact h s t hst

lemma modify {f : σ → σ} {g : τ → τ} {S : Unit → Unit → σ → τ → Prop} (h : ∀ s t, R s t → S () () (f s) (g t)) :
    Lockstep R (modify f : EStateM ε σ Unit) (modify g : EStateM ε τ Unit) S T :=
  fun s t hst => .inl ⟨(), (), f s, g t, rfl, rfl, h s t hst⟩

lemma ite {c d : Prop} [Decidable c] [Decidable d] (hcd : c ↔ d) (hp : c → Lockstep R p q S T)
    (hq : ¬c → Lockstep R p' q' S T) : Lockstep R (if c then p else p') (if d then q else q') S T := by
  split_ifs with hc hd hd
  · exact hp hc
  · exact absurd (hcd.mp hc) hd
  · exact absurd (hcd.mpr hd) hc
  · exact hq hc

lemma mono {R' : σ → τ → Prop} {S' : α → β → σ → τ → Prop} {T' : σ → τ → Prop} (h : Lockstep R p q S T)
    (hR : ∀ s t, R' s t → R s t) (hS : ∀ a b s t, S a b s t → S' a b s t) (hT : ∀ s t, T s t → T' s t) :
    Lockstep R' p q S' T' := by
  intro s t hst
  obtain ⟨a, b, s', t', ha, hb, h'⟩ | ⟨e, s', t', ha, hb, h'⟩ := h s t (hR s t hst)
  · exact .inl ⟨a, b, s', t', ha, hb, hS a b s' t' h'⟩
  · exact .inr ⟨e, s', t', ha, hb, hT s' t' h'⟩

end Lockstep

end PiKachulm.Core

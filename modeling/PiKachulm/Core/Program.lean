import Mathlib.Tactic.Common

/-!
# Programs that call their environment

A program looks at a state and makes calls, which are answered and change the state; what it has called is
kept in a list. Programs that end without a result have failed.
-/

namespace PiKachulm.Core

variable {E σ α β : Type}

/-- A state, and the calls that have led to it. -/
structure Session (E σ : Type) where
  state : σ
  calls : List E

def Program (E σ α : Type) : Type := Session E σ → Option (α × Session E σ)

namespace Program

instance : Monad (Program E σ) where
  pure a := fun w => some (a, w)
  bind p f := fun w => (p w).bind fun r => f r.1 r.2

def observe (f : σ → α) : Program E σ α := fun w => some (f w.state, w)

/-- A call, which is recorded as an event. -/
def call (f : σ → α × σ) (event : σ → α → E) : Program E σ α := fun w =>
  some ((f w.state).1, ⟨(f w.state).2, w.calls ++ [event w.state (f w.state).1]⟩)

/-- A change of the state that no call makes. -/
def perform (f : σ → σ) : Program E σ Unit := fun w => some ((), ⟨f w.state, w.calls⟩)

def fail : Program E σ α := fun _ => none

/-- What has to hold for the program to go on. -/
def ensure (c : Prop) [Decidable c] : Program E σ Unit := if c then pure () else fail

variable {w w' : Session E σ} {p q : Program E σ α} {f : α → Program E σ β} {c : Prop} [Decidable c]

@[simp] lemma pure_apply (a : α) : (pure a : Program E σ α) w = some (a, w) := rfl

@[simp] lemma bind_apply : (p >>= f) w = (p w).bind fun r => f r.1 r.2 := rfl

@[simp] lemma observe_apply (f : σ → α) : (observe f : Program E σ α) w = some (f w.state, w) := rfl

@[simp] lemma call_apply (f : σ → α × σ) (event : σ → α → E) : call f event w =
    some ((f w.state).1, ⟨(f w.state).2, w.calls ++ [event w.state (f w.state).1]⟩) := rfl

@[simp] lemma perform_apply (f : σ → σ) :
    (perform f : Program E σ Unit) w = some ((), ⟨f w.state, w.calls⟩) := rfl

@[simp] lemma fail_apply : (fail : Program E σ α) w = none := rfl

@[simp] lemma ensure_apply : (ensure c : Program E σ Unit) w = if c then some ((), w) else none := by
  by_cases hc : c
  · simp [ensure, hc]
  · simp [ensure, hc]

@[simp] lemma ite_apply : (if c then p else q : Program E σ α) w = if c then p w else q w := by
  by_cases hc : c
  · simp [hc]
  · simp [hc]

/-! ### What programs keep -/

/-- From a state with `I`, a program that ends makes calls with `P` only, and ends in a state with `I` with a
result that has `Q`. -/
def Keeps (I : σ → Prop) (P : E → Prop) (p : Program E σ α) (Q : α → Prop) : Prop :=
  ∀ w r, I w.state → p w = some r →
    I r.2.state ∧ Q r.1 ∧ ∃ l, r.2.calls = w.calls ++ l ∧ ∀ c ∈ l, P c

section Keeps

variable {I : σ → Prop} {P : E → Prop} {Q : α → Prop} {R : β → Prop}

lemma Keeps.pure {a : α} (ha : Q a) : Keeps I P (Pure.pure a : Program E σ α) Q := by
  intro w r hI hr
  obtain rfl := Option.some_inj.mp hr
  exact ⟨hI, ha, [], (List.append_nil _).symm, fun c hc => absurd hc List.not_mem_nil⟩

lemma Keeps.bind (h : Keeps I P p Q) (hf : ∀ a, Q a → Keeps I P (f a) R) : Keeps I P (p >>= f) R := by
  intro w r hI hr
  rw [bind_apply, Option.bind_eq_some_iff] at hr
  obtain ⟨x, hx, hr⟩ := hr
  obtain ⟨hI, hQ, l, hl, hP⟩ := h w x hI hx
  obtain ⟨hI, hR, l', hl', hP'⟩ := hf x.1 hQ x.2 r hI hr
  refine ⟨hI, hR, l ++ l', ?_, fun c hc => ?_⟩
  · rw [hl', hl, List.append_assoc]
  · exact (List.mem_append.mp hc).elim (hP c) (hP' c)

lemma Keeps.ite {Q : α → Prop} (hp : c → Keeps I P p Q) (hq : ¬c → Keeps I P q Q) :
    Keeps I P (if c then p else q) Q := by
  split_ifs with hc
  · exact hp hc
  · exact hq hc

lemma Keeps.ensure : Keeps I P (ensure c : Program E σ Unit) fun _ => c := by
  intro w r hI hr
  rw [ensure_apply] at hr
  split_ifs at hr with hc
  obtain rfl := Option.some_inj.mp hr
  exact ⟨hI, hc, [], (List.append_nil _).symm, fun c hc => absurd hc List.not_mem_nil⟩

lemma Keeps.observe {g : σ → α} (h : ∀ s, I s → Q (g s)) : Keeps I P (observe g : Program E σ α) Q := by
  intro w r hI hr
  obtain rfl := Option.some_inj.mp hr
  exact ⟨hI, h _ hI, [], (List.append_nil _).symm, fun c hc => absurd hc List.not_mem_nil⟩

lemma Keeps.perform {g : σ → σ} (h : ∀ s, I s → I (g s)) :
    Keeps I P (perform g : Program E σ Unit) fun _ => True := by
  intro w r hI hr
  obtain rfl := Option.some_inj.mp hr
  exact ⟨h _ hI, trivial, [], (List.append_nil _).symm, fun c hc => absurd hc List.not_mem_nil⟩

lemma Keeps.fail : Keeps I P (fail : Program E σ α) Q := fun _ _ _ hr => absurd hr (by simp)

lemma Keeps.call {g : σ → α × σ} {event : σ → α → E} (hI : ∀ s, I s → I (g s).2)
    (hP : ∀ s, I s → P (event s (g s).1)) (hQ : ∀ s, I s → Q (g s).1) : Keeps I P (call g event) Q := by
  intro w r hs hr
  obtain rfl := Option.some_inj.mp hr
  refine ⟨hI _ hs, hQ _ hs, [event w.state (g w.state).1], rfl, fun c hc => ?_⟩
  rw [List.mem_singleton.mp hc]
  exact hP _ hs

lemma Keeps.mono {Q' : α → Prop} (h : Keeps I P p Q) (hQ : ∀ a, Q a → Q' a) : Keeps I P p Q' := by
  intro w r hI hr
  obtain ⟨hI, ha, hcalls⟩ := h w r hI hr
  exact ⟨hI, hQ _ ha, hcalls⟩

end Keeps

/-! ### Refinement -/

/-- Every result of `p` is one of `q`. -/
def Refines (p q : Program E σ α) : Prop := ∀ w r, p w = some r → q w = some r

lemma Refines.refl (p : Program E σ α) : p.Refines p := fun _ _ h => h

lemma Refines.bind {g : α → Program E σ β} (h : p.Refines q) (hfg : ∀ a, (f a).Refines (g a)) :
    (p >>= f).Refines (q >>= g) := by
  intro w r hr
  rw [bind_apply, Option.bind_eq_some_iff] at hr ⊢
  obtain ⟨x, hx, hr⟩ := hr
  exact ⟨x, h w x hx, hfg x.1 x.2 r hr⟩

/-- Every run has a result. -/
def Total (p : Program E σ α) : Prop := ∀ w, (p w).isSome

lemma Total.bind (h : p.Total) (hf : ∀ a, (f a).Total) : (p >>= f).Total := by
  intro w
  obtain ⟨x, hx⟩ := Option.isSome_iff_exists.1 (h w)
  rw [bind_apply, hx]
  exact hf x.1 x.2

end Program

end PiKachulm.Core

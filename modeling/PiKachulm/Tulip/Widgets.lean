import PiKachulm.Core.Chain
import Mathlib.Data.Finset.Card
import Mathlib.Data.Finset.SDiff

/-!
# Widgets

A `TuWidget` knows its parent, its first child and its next sibling, so that the children of a widget are
a list that is linked through the children. The widgets are allocated and given by their addresses.
-/

namespace PiKachulm.Tulip

open Core

/-- The widgets that are alive and what is in their fields. -/
structure Widgets where
  live : Finset ℕ
  window : ℕ → Option ℕ
  parent : ℕ → Option ℕ
  children : ℕ → Option ℕ
  nextSibling : ℕ → Option ℕ
  style : ℕ → Option ℕ

namespace Widgets

variable (s : Widgets) (w p : ℕ)

/-- No widget. -/
def start : Widgets := ⟨∅, fun _ => none, fun _ => none, fun _ => none, fun _ => none, fun _ => none⟩

/-! ### The lists of the children

The operations are undefined when they follow null or a pointer to a widget that is not alive, or do not
end. A loop that goes on for longer than there are widgets meets one of them again, and does not end. -/

def deref : Option ℕ → Option ℕ
  | none   => none
  | some w => if w ∈ s.live then some w else none

/-- The loop of `add_child`. -/
def lastChild : ℕ → ℕ → Option ℕ
  | 0, _        => none
  | fuel + 1, c =>
    match s.nextSibling c with
    | none      => some c
    | some next => (s.deref next).bind fun c => lastChild fuel c

def addChild (child : ℕ) : Option Widgets :=
  match s.children p with
  | none       => some { s with children := Function.update s.children p (some child) }
  | some first => do
    let first ← s.deref first
    let last ← s.lastChild s.live.card first
    return { s with nextSibling := Function.update s.nextSibling last (some child) }

/-- The loop of `remove_child`. -/
def previous (child : ℕ) : ℕ → Option ℕ → Option ℕ
  | 0, _           => none
  | fuel + 1, prev =>
    (s.deref prev).bind fun c =>
      if s.nextSibling c = some child then some c else previous child fuel (s.nextSibling c)

/-- The child is alive. -/
def removeChild (child : ℕ) : Option Widgets :=
  if s.children p = some child then
    some { s with children := Function.update s.children p (s.nextSibling child) }
  else do
    let prev ← s.previous child s.live.card (s.children p)
    return { s with nextSibling := Function.update s.nextSibling prev (s.nextSibling child) }

/-! ### Parents -/

def removeFromParent : Option Widgets :=
  match s.parent w with
  | none   => some s
  | some p => (s.deref p).bind fun p => s.removeChild p w

def addToParent : Option Widgets :=
  match s.parent w with
  | none   => some s
  | some p => (s.deref p).bind fun p => s.addChild p w

/-- A widget has the window and the style of its parent, and no window without a parent. -/
def inherit : Widgets :=
  match s.parent w with
  | none   => { s with window := Function.update s.window w none }
  | some p => { s with
      window := Function.update s.window w (s.window p)
      style := Function.update s.style w (s.style p) }

def setParent (parent : Option ℕ) : Option Widgets :=
  if s.parent w = parent then some s
  else do
    let s ← s.removeFromParent w
    let s ← ({ s with parent := Function.update s.parent w parent } : Widgets).addToParent w
    return s.inherit w

/-! ### Construction and destruction -/

/-- A new widget, the fields of which are null. -/
def new : Widgets where
  live := insert w s.live
  window := Function.update s.window w none
  parent := Function.update s.parent w none
  children := Function.update s.children w none
  nextSibling := Function.update s.nextSibling w none
  style := Function.update s.style w none

/-- `TuWidget(TuWidget*)`, with the style of the application. -/
def construct (parent : Option ℕ) (style : ℕ) : Option Widgets := do
  let s ← (s.new w).setParent w parent
  match parent with
  | none   => return { s with style := Function.update s.style w (some style) }
  | some _ => return s

/-- `TuWidget(TuWindow*)`: the widget becomes the content of the window and a child of its root widget,
in which `set_content` writes it. The root widget of a window is null while it is constructed itself. -/
def constructInWindow (window : ℕ) (root : Option ℕ) (style : ℕ) : Option Widgets :=
  let s := s.new w
  (s.deref root).bind fun root =>
    ({ s with
      window := Function.update s.window w (some window)
      style := Function.update s.style w (some style) } : Widgets).setParent w (some root)

mutual

/-- `delete` of a widget, with what `~TuWidget()` does. -/
def destroy : ℕ → Widgets → ℕ → Option Widgets
  | 0, _, _        => none
  | fuel + 1, s, w => do
    let s ← s.removeFromParent w
    let s ← deleteChildren fuel s (s.children w)
    return { s with live := s.live.erase w }

/-- The loop of `~TuWidget()`. -/
def deleteChildren : ℕ → Widgets → Option ℕ → Option Widgets
  | _, s, none              => some s
  | 0, _, some _            => none
  | fuel + 1, s, some child => do
    let child ← s.deref child
    let next := s.nextSibling child
    let s ← destroy fuel s child
    deleteChildren fuel s next

end

/-! ### The children in order -/

/-- The widgets among some whose parent is `p`, in the order in which they have been inserted. -/
def kids (on : Finset ℕ) (inserted : List ℕ) : List ℕ :=
  inserted.filter fun c => c ∈ on ∧ s.parent c = some p

/-- The widgets but for some, which are being moved or destroyed, stand in the list of their parent and
in no other, in the order in which they have been inserted. -/
structure Attached (E : Finset ℕ) (inserted : List ℕ) : Prop where
  nodup : inserted.Nodup
  parents : ∀ c ∈ s.live, c ∉ E → ∀ p, s.parent c = some p → p ∈ s.live ∧ c ∈ inserted
  children : ∀ p ∈ s.live, Chain s.nextSibling (s.children p) (s.kids p (s.live \ E) inserted)

variable {s w p} {s' : Widgets} {on E : Finset ℕ} {inserted : List ℕ} {c q x : ℕ} {a before v : Option ℕ}
  {xs ys l : List ℕ} {fuel : ℕ}

@[simp] lemma mem_kids : c ∈ s.kids p on inserted ↔ c ∈ inserted ∧ c ∈ on ∧ s.parent c = some p := by
  simp [kids]

lemma deref_eq (h : w ∈ s.live) : s.deref (some w) = some w := if_pos h

/-! ### The loops -/

lemma lastChild_eq (h : Chain s.nextSibling (some c) (xs ++ [x])) (hlive : ∀ y ∈ xs ++ [x], y ∈ s.live)
    (hfuel : xs.length < fuel) : s.lastChild fuel c = some x := by
  induction xs generalizing c fuel with
  | nil =>
    obtain ⟨hc, hnext⟩ := h
    obtain rfl := Option.some_inj.mp hc
    cases fuel with
    | zero => cases hfuel
    | succ fuel => rw [lastChild, hnext]
  | cons y xs ih =>
    obtain ⟨hc, hrest⟩ := h
    obtain rfl := Option.some_inj.mp hc
    cases fuel with
    | zero => cases hfuel
    | succ fuel =>
      obtain ⟨z, hz⟩ : ∃ z, s.nextSibling c = some z := by
        rw [hrest.head_eq]
        cases xs <;> exact ⟨_, rfl⟩
      have hzlive : z ∈ s.live := by
        apply hlive z
        have hhead := hrest.head_eq.symm.trans hz
        exact List.mem_cons_of_mem c (List.mem_of_head? hhead)
      rw [hz] at hrest
      have hih := ih hrest (fun y hy => hlive y (List.mem_cons_of_mem c hy))
        (Nat.lt_of_succ_lt_succ hfuel)
      rw [lastChild, hz]
      change (s.deref (some z)).bind _ = _
      rw [deref_eq hzlive]
      exact hih

lemma previous_eq (h : Chain s.nextSibling a (xs ++ x :: w :: ys)) (hlive : ∀ y ∈ xs ++ [x], y ∈ s.live)
    (hfuel : xs.length < fuel) : s.previous w fuel a = some x := by
  induction xs generalizing a fuel with
  | nil =>
    obtain ⟨rfl, hnext, -⟩ := h
    cases fuel with
    | zero => cases hfuel
    | succ fuel =>
      rw [previous, deref_eq (hlive x List.mem_cons_self), Option.bind_some, if_pos hnext]
  | cons y xs ih =>
    have hnodup := h.nodup
    obtain ⟨rfl, hrest⟩ := h
    cases fuel with
    | zero => cases hfuel
    | succ fuel =>
      -- `w` is the head of the rest only if `xs` had a second element equal to it
      have hne : s.nextSibling y ≠ some w := by
        intro heq
        rw [hrest.head_eq] at heq
        obtain ⟨zs, hzs⟩ := List.head?_eq_some_iff.mp heq
        have hrestNodup := (List.nodup_cons.mp hnodup).2
        rw [hzs] at hrestNodup
        refine (List.nodup_cons.mp hrestNodup).1 ?_
        cases xs with
        | nil =>
          obtain ⟨-, rfl⟩ := List.cons.inj hzs
          exact List.mem_cons_self
        | cons z xs =>
          obtain ⟨-, rfl⟩ := List.cons.inj hzs
          simp
      rw [previous, deref_eq (hlive y List.mem_cons_self), Option.bind_some, if_neg hne]
      exact ih hrest (fun y hy => hlive y (List.mem_cons_of_mem _ hy)) (Nat.lt_of_succ_lt_succ hfuel)

/-! ### Links -/

/-- In the list of `p` the link behind `before`, or the first one, is set to `v`. -/
def splice (s : Widgets) (p : ℕ) (before v : Option ℕ) : Widgets := { s with
  nextSibling := (relink s.nextSibling (s.children p) before v).1
  children := Function.update s.children p (relink s.nextSibling (s.children p) before v).2 }

lemma splice_none : s.splice p none v = { s with children := Function.update s.children p v } := rfl

lemma splice_some : s.splice p (some x) v =
    { s with nextSibling := Function.update s.nextSibling x v } := by
  rw [splice, relink, Function.update_eq_self]

/-- The links of other widgets stay as they are. -/
lemma nextSibling_splice (h : before ≠ some w) : (s.splice p before v).nextSibling w = s.nextSibling w := by
  cases before with
  | none => rfl
  | some x =>
    rw [splice_some]
    exact Function.update_of_ne (fun heq => h (congrArg some heq.symm)) _ _

/-- A way through widgets that are alive is no longer than there are widgets. -/
lemma length_le_card {next : ℕ → Option ℕ} (h : Chain next a l) (hlive : ∀ y ∈ l, y ∈ s.live) :
    l.length ≤ s.live.card := by
  rw [← List.toFinset_card_of_nodup h.nodup]
  apply Finset.card_le_card
  intro y hy
  exact hlive y (List.mem_toFinset.mp hy)

lemma addChild_eq (h : Chain s.nextSibling (s.children p) l) (hlive : ∀ y ∈ l, y ∈ s.live) :
    s.addChild p w = some (s.splice p l.getLast? (some w)) := by
  rw [addChild]
  cases hlast : l.getLast? with
  | none =>
    obtain rfl := List.getLast?_eq_none_iff.mp hlast
    rw [chain_nil.mp h]
    rfl
  | some x =>
    obtain ⟨xs, rfl⟩ := List.getLast?_eq_some_iff.mp hlast
    have hcard := length_le_card h hlive
    rw [List.length_append, List.length_singleton] at hcard
    obtain ⟨first, hfirst⟩ : ∃ first, s.children p = some first := by
      rw [h.head_eq]
      cases xs <;> exact ⟨_, rfl⟩
    have hfirstLive : first ∈ s.live := hlive first (List.mem_of_head? (h.head_eq.symm.trans hfirst))
    rw [hfirst] at h ⊢
    have hloop := lastChild_eq h hlive hcard
    simp [deref_eq hfirstLive, hloop, splice_some]

lemma removeChild_eq (h : Chain s.nextSibling (s.children p) (xs ++ w :: ys))
    (hlive : ∀ y ∈ xs ++ w :: ys, y ∈ s.live) :
    s.removeChild p w = some (s.splice p xs.getLast? (s.nextSibling w)) := by
  rw [removeChild]
  cases hlast : xs.getLast? with
  | none =>
    obtain rfl := List.getLast?_eq_none_iff.mp hlast
    rw [if_pos h.1, splice_none]
  | some x =>
    obtain ⟨xs, rfl⟩ := List.getLast?_eq_some_iff.mp hlast
    have hcard := length_le_card h hlive
    have hnodup := h.nodup
    -- `w` is not the first child, since it stands behind `x`
    have hne : s.children p ≠ some w := by
      intro heq
      rw [h.head_eq] at heq
      have hmem : w ∈ xs ++ [x] := by
        cases xs <;> simp_all
      exact (List.nodup_append.mp hnodup).2.2 w hmem w List.mem_cons_self rfl
    rw [List.append_assoc] at h hlive hcard
    have hloop : s.previous w s.live.card (s.children p) = some x := by
      apply previous_eq h
      · intro y hy
        apply hlive y
        rw [← List.append_assoc]
        exact List.mem_append_left _ hy
      · rw [List.length_append] at hcard
        simp at hcard
        omega
    simp [hne, hloop, splice_some]

/-! ### Children of other widgets -/

lemma kids_congr {on' : Finset ℕ}
    (h : ∀ c, c ∈ on' ∧ s'.parent c = some p ↔ c ∈ on ∧ s.parent c = some p) :
    s'.kids p on' inserted = s.kids p on inserted :=
  List.filter_congr fun c _ => decide_eq_decide.mpr (h c)

lemma kids_insert : s.kids p (s.live \ insert w E) inserted =
    (s.kids p (s.live \ E) inserted).filter (· != w) := by
  rw [kids, kids, List.filter_filter]
  refine List.filter_congr fun c _ => ?_
  rw [Bool.eq_iff_iff]
  simp only [decide_eq_true_eq, Bool.and_eq_true, bne_iff_ne, Finset.mem_sdiff, Finset.mem_insert]
  tauto

lemma kids_nodup (h : inserted.Nodup) : (s.kids p on inserted).Nodup := h.filter _

/-- Of the children of the others nothing changes when a link in the list of `p` is set. -/
lemma chain_splice {K : ℕ → List ℕ} (hK : ∀ q ∈ s.live, Chain s.nextSibling (s.children q) (K q))
    (hbefore : ∀ x ∈ before, ∀ q, q ≠ p → x ∉ K q)
    (hl : Chain (relink s.nextSibling (s.children p) before v).1
      (relink s.nextSibling (s.children p) before v).2 l) :
    ∀ q ∈ s.live, Chain (s.splice p before v).nextSibling ((s.splice p before v).children q)
      (Function.update K p l q) := by
  intro q hq
  by_cases hqp : q = p
  · subst hqp
    have hself : (s.splice q before v).children q = _ := Function.update_self ..
    rw [Function.update_self, hself]
    exact hl
  · rw [Function.update_of_ne hqp]
    have hchildren : (s.splice p before v).children q = s.children q := Function.update_of_ne hqp _ _
    rw [hchildren]
    refine (hK q hq).congr fun x hx => nextSibling_splice ?_
    rintro rfl
    exact hbefore x rfl q hqp hx

/-! ### What is attached -/

namespace Attached

variable (h : s.Attached E inserted)

include h

lemma mem_kids_iff (hc : c ∈ s.live) (hE : c ∉ E) :
    c ∈ s.kids p (s.live \ E) inserted ↔ s.parent c = some p := by
  rw [mem_kids, Finset.mem_sdiff]
  constructor
  · rintro ⟨-, -, hp⟩
    exact hp
  · intro hp
    exact ⟨(h.parents c hc hE p hp).2, ⟨hc, hE⟩, hp⟩

/-- The other fields do not matter. -/
lemma of_same (hlive : s'.live = s.live) (hparent : s'.parent = s.parent)
    (hchildren : s'.children = s.children) (hnext : s'.nextSibling = s.nextSibling) :
    s'.Attached E inserted := by
  have hkids : ∀ p on, s'.kids p on inserted = s.kids p on inserted := by
    intro p on
    apply kids_congr
    simp [hparent]
  refine ⟨h.nodup, ?_, ?_⟩
  · rw [hlive, hparent]
    exact h.parents
  · intro p hp
    rw [hlive] at hp
    rw [hkids, hlive, hchildren, hnext]
    exact h.children p hp

/-- Where a widget that is being moved has its parent does not matter. -/
lemma setParent (hw : w ∈ E) :
    ({ s with parent := Function.update s.parent w v } : Widgets).Attached E inserted := by
  have hparent : ∀ c ∉ E, Function.update s.parent w v c = s.parent c := by
    intro c hc
    apply Function.update_of_ne
    rintro rfl
    exact hc hw
  refine ⟨h.nodup, fun c hc hE p hp => ?_, fun p hp => ?_⟩
  · exact h.parents c hc hE p ((hparent c hE).symm.trans hp)
  · have hkids : ({ s with parent := Function.update s.parent w v } : Widgets).kids p (s.live \ E) inserted =
        s.kids p (s.live \ E) inserted := by
      apply kids_congr
      intro c
      refine and_congr_right fun hc => iff_of_eq (congrArg (· = some p) ?_)
      exact hparent c (Finset.mem_sdiff.mp hc).2
    rw [hkids]
    exact h.children p hp

/-- A widget is taken from the list of its parent. -/
lemma exists_removeChild (hw : w ∈ s.live) (hE : w ∉ E) (hp : s.parent w = some p) :
    ∃ s', s.removeChild p w = some s' ∧ s'.live = s.live ∧ s'.parent = s.parent ∧
      s'.nextSibling w = s.nextSibling w ∧ s'.Attached (insert w E) inserted := by
  have hmem : w ∈ s.kids p (s.live \ E) inserted := (h.mem_kids_iff hw hE).mpr hp
  have hchain := h.children p (h.parents w hw hE p hp).1
  obtain ⟨xs, ys, heq⟩ := List.append_of_mem hmem
  have hnodup : (s.kids p (s.live \ E) inserted).Nodup := kids_nodup h.nodup
  have hlive : ∀ y ∈ xs ++ w :: ys, y ∈ s.live := by
    intro y hy
    rw [← heq, mem_kids, Finset.mem_sdiff] at hy
    exact hy.2.1.1
  rw [heq] at hchain
  have hxs : w ∉ xs := fun hx => (List.nodup_append.mp hchain.nodup).2.2 w hx w List.mem_cons_self rfl
  refine ⟨_, removeChild_eq hchain hlive, rfl, rfl,
    nextSibling_splice fun hlast => hxs (List.mem_of_getLast? hlast), h.nodup, ?_, ?_⟩
  · intro c hc hcE
    exact h.parents c hc fun hmem => hcE (Finset.mem_insert_of_mem hmem)
  · have hbefore : ∀ x ∈ xs.getLast?, ∀ q, q ≠ p → x ∉ s.kids q (s.live \ E) inserted := by
      intro x hx q hqp hxq
      have hxp : x ∈ s.kids p (s.live \ E) inserted := by
        rw [heq]
        exact List.mem_append_left _ (List.mem_of_getLast? hx)
      exact hqp (Option.some_inj.mp ((mem_kids.mp hxq).2.2.symm.trans (mem_kids.mp hxp).2.2))
    have hchains := chain_splice h.children hbefore hchain.unlink
    intro q hq
    have hkids : s.kids q (s.live \ insert w E) inserted =
        Function.update (fun q => s.kids q (s.live \ E) inserted) p (xs ++ ys) q := by
      rw [kids_insert]
      by_cases hqp : q = p
      · subst hqp
        rw [Function.update_self, ← hnodup.erase_eq_filter, heq, List.erase_append_right _ hxs,
          List.erase_cons_head]
      · rw [Function.update_of_ne hqp, List.filter_eq_self]
        intro c hc
        refine bne_iff_ne.mpr ?_
        rintro rfl
        exact hqp (Option.some_inj.mp ((mem_kids.mp hc).2.2.symm.trans hp))
    have hq' := hchains q hq
    rw [← hkids] at hq'
    exact hq'

omit h in
/-- A widget without a parent may count as attached or not. -/
lemma insert_iff (hw : s.parent w = none) : s.Attached (insert w E) inserted ↔ s.Attached E inserted := by
  have hkids : ∀ p, s.kids p (s.live \ insert w E) inserted = s.kids p (s.live \ E) inserted := by
    intro p
    rw [kids_insert, List.filter_eq_self]
    intro c hc
    refine bne_iff_ne.mpr ?_
    rintro rfl
    cases hw.symm.trans (mem_kids.mp hc).2.2
  constructor
  · intro h
    refine ⟨h.nodup, fun c hc hE p hp => h.parents c hc (fun hmem => ?_) p hp,
      fun p hp => hkids p ▸ h.children p hp⟩
    rcases Finset.mem_insert.mp hmem with rfl | hmem
    · cases hw.symm.trans hp
    · exact hE hmem
  · intro h
    refine ⟨h.nodup, fun c hc hE p hp => ?_, fun p hp => (hkids p).symm ▸ h.children p hp⟩
    exact h.parents c hc (fun hmem => hE (Finset.mem_insert_of_mem hmem)) p hp

omit h in
/-- The children after a widget has been inserted last. -/
lemma kids_append (hnodup : inserted.Nodup) (hw : w ∈ s.live) (hq : s.parent w = some q) :
    s.kids p s.live (inserted.erase w ++ [w]) =
      Function.update (fun p => s.kids p (s.live \ {w}) inserted) q (s.kids q (s.live \ {w}) inserted ++ [w])
        p := by
  have hold : ∀ p, s.kids p s.live (inserted.erase w) = s.kids p (s.live \ {w}) inserted := by
    intro p
    rw [hnodup.erase_eq_filter, kids, kids, List.filter_filter]
    refine List.filter_congr fun c _ => ?_
    rw [Bool.eq_iff_iff]
    simp only [decide_eq_true_eq, Bool.and_eq_true, bne_iff_ne, Finset.mem_sdiff, Finset.mem_singleton]
    tauto
  have happend : s.kids p s.live (inserted.erase w ++ [w]) =
      s.kids p s.live (inserted.erase w) ++ s.kids p s.live [w] := List.filter_append ..
  rw [happend, hold]
  by_cases hpq : p = q
  · subst hpq
    rw [Function.update_self, kids, kids, List.filter_cons_of_pos (by simp [hw, hq]), List.filter_nil]
  · have hne : s.parent w ≠ some p := fun heq => hpq (Option.some_inj.mp (heq.symm.trans hq))
    rw [Function.update_of_ne hpq, kids, kids, List.filter_cons_of_neg (by simp [hne]), List.filter_nil,
      List.append_nil]

omit h in
/-- A widget is inserted behind the last child of its parent. When its next sibling is null, the list ends
with it. -/
lemma exists_addChild (h : s.Attached {w} inserted) (hw : w ∈ s.live) (hq : q ∈ s.live)
    (hp : s.parent w = some q) :
    ∃ s', s.addChild q w = some s' ∧ s'.live = s.live ∧ s'.parent = s.parent ∧
      s'.nextSibling w = s.nextSibling w ∧
      (s.nextSibling w = none → s'.Attached ∅ (inserted.erase w ++ [w])) := by
  have hchain := h.children q hq
  set L := s.kids q (s.live \ {w}) inserted with hL
  have hlive : ∀ y ∈ L, y ∈ s.live := by
    intro y hy
    exact (Finset.mem_sdiff.mp (mem_kids.mp hy).2.1).1
  have hnot : w ∉ L := by
    intro hmem
    simp [hL] at hmem
  refine ⟨_, addChild_eq hchain hlive, rfl, rfl,
    nextSibling_splice fun hlast => hnot (List.mem_of_getLast? hlast),
    fun hnext => ⟨?_, fun c hc _ p hcp => ?_, ?_⟩⟩
  · exact List.Nodup.append (h.nodup.erase w) (List.nodup_singleton w)
      (List.disjoint_singleton.mpr (h.nodup.not_mem_erase))
  · by_cases hcw : c = w
    · subst hcw
      obtain rfl := Option.some_inj.mp (hp.symm.trans hcp)
      exact ⟨hq, List.mem_append_right _ List.mem_cons_self⟩
    · obtain ⟨hplive, hmem⟩ := h.parents c hc (fun hmem => hcw (Finset.mem_singleton.mp hmem)) p hcp
      exact ⟨hplive, List.mem_append_left _ ((List.mem_erase_of_ne hcw).mpr hmem)⟩
  · have hend : Chain s.nextSibling (s.children q) (L ++ []) := by
      rw [List.append_nil]
      exact hchain
    have hlink := hend.link (x := w) (by
      rw [List.append_nil]
      exact hnot) hnext
    have hchains := chain_splice h.children (fun x hx p hpq hxp => by
      have hxq := (mem_kids.mp (List.mem_of_getLast? hx)).2.2
      exact hpq (Option.some_inj.mp ((mem_kids.mp hxp).2.2.symm.trans hxq))) hlink
    intro p hplive
    have hp' := hchains p hplive
    rw [← kids_append h.nodup hw hp] at hp'
    rw [Finset.sdiff_empty]
    exact hp'

end Attached

end Widgets

end PiKachulm.Tulip

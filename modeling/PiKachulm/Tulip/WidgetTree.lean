import PiKachulm.Tulip.Widgets

/-!
# The widget tree

`remove_child` leaves the next sibling of the widget that it removes. When that widget is inserted under
another parent, its former siblings follow it there. The root widget of a window is made the content of
the window before the window has it. The widgets are a tree for as long as only widgets without a next
sibling are moved, and content is given to windows with a root widget.
-/

namespace PiKachulm.Tulip.Widgets

open Core

variable (s : Widgets) (inserted : List ℕ)

/-! ### Runs -/

inductive Op where
  | construct (w : ℕ) (parent : Option ℕ) (style : ℕ)
  | constructInWindow (w window : ℕ) (root : Option ℕ) (style : ℕ)
  | setParent (w : ℕ) (parent : Option ℕ)
  | destroy (w : ℕ)

/-- For the destructors the fuel of two steps for each widget is enough. -/
def Op.run : Op → Option Widgets
  | construct w parent style              => s.construct w parent style
  | constructInWindow w window root style => s.constructInWindow w window root style
  | setParent w parent                    => s.setParent w parent
  | destroy w                             => Widgets.destroy (2 * s.live.card) s w

/-- The order of insertion after a widget has been given a parent. -/
def insertedBy (w : ℕ) : Option ℕ → List ℕ
  | none   => inserted
  | some p => if s.parent w = some p then inserted else inserted.erase w ++ [w]

/-- The widgets in the order in which they have been inserted under their last parents. -/
def Op.order : Op → List ℕ
  | construct w parent _           => (s.new w).insertedBy inserted w parent
  | constructInWindow w _ root _   => (s.new w).insertedBy inserted w root
  | setParent w parent             => s.insertedBy inserted w parent
  | destroy _                      => inserted

/-- A new widget is where there is none, what is used is alive, and no widget becomes its own ancestor. -/
def Op.Allowed : Op → Prop
  | construct w parent _         => w ∉ s.live ∧ ∀ p ∈ parent, p ∈ s.live
  | constructInWindow w _ root _ => w ∉ s.live ∧ ∀ p ∈ root, p ∈ s.live
  | setParent w parent           => w ∈ s.live ∧ ∀ p ∈ parent, p ∈ s.live ∧
      ∀ l ∈ follow s.parent s.live.card (some p), w ∉ l
  | destroy w                    => w ∈ s.live

/-- A widget that is inserted under another parent has no next sibling, and a window that gets content
has a root widget. -/
def Op.Regular : Op → Prop
  | setParent w parent           => s.parent w = parent ∨ parent = none ∨ s.nextSibling w = none
  | constructInWindow _ _ root _ => root ≠ none
  | _                            => True

/-- The list of the children of a widget ends, and has each of its children and no other widget, in the
order of insertion. A parent is alive, and from every widget the parents lead to one without a parent. -/
structure IsTree : Prop where
  childList : ∀ p ∈ s.live, ∃ l, Chain s.nextSibling (s.children p) l ∧ l.Sublist inserted ∧
    ∀ c, c ∈ l ↔ c ∈ s.live ∧ s.parent c = some p
  alive : ∀ c ∈ s.live, ∀ p ∈ s.parent c, p ∈ s.live
  ancestors : ∀ c ∈ s.live, ∃ l, Chain s.parent (some c) l

/-- The run goes through, and the widgets are a tree all the time. -/
def TreeFrom (s : Widgets) (inserted : List ℕ) : List Op → Prop
  | []        => s.IsTree inserted
  | op :: ops => s.IsTree inserted ∧ ∃ s', op.run s = some s' ∧ TreeFrom s' (op.order s inserted) ops

def AllowedFrom (s : Widgets) : List Op → Prop
  | []        => True
  | op :: ops => op.Allowed s ∧ ∀ s' ∈ op.run s, AllowedFrom s' ops

def RegularFrom (s : Widgets) : List Op → Prop
  | []        => True
  | op :: ops => op.Regular s ∧ ∀ s' ∈ op.run s, RegularFrom s' ops

instance decidableAllowed (s : Widgets) : (op : Op) → Decidable (op.Allowed s)
  | .construct w parent _         => inferInstanceAs (Decidable (w ∉ s.live ∧ ∀ p ∈ parent, p ∈ s.live))
  | .constructInWindow w _ root _ => inferInstanceAs (Decidable (w ∉ s.live ∧ ∀ p ∈ root, p ∈ s.live))
  | .setParent w parent           => inferInstanceAs (Decidable (w ∈ s.live ∧ ∀ p ∈ parent, p ∈ s.live ∧
      ∀ l ∈ follow s.parent s.live.card (some p), w ∉ l))
  | .destroy w                    => inferInstanceAs (Decidable (w ∈ s.live))

instance decidableRegular (s : Widgets) : (op : Op) → Decidable (op.Regular s)
  | .setParent w parent =>
    inferInstanceAs (Decidable (s.parent w = parent ∨ parent = none ∨ s.nextSibling w = none))
  | .constructInWindow _ _ root _ => inferInstanceAs (Decidable (root ≠ none))
  | .construct _ _ _ | .destroy _ => isTrue trivial

instance decidableAllowedFrom : (ops : List Op) → (s : Widgets) → Decidable (AllowedFrom s ops)
  | [], _      => isTrue trivial
  | op :: ops, s =>
    have := fun s' => decidableAllowedFrom ops s'
    inferInstanceAs (Decidable (op.Allowed s ∧ ∀ s' ∈ op.run s, AllowedFrom s' ops))

instance decidableRegularFrom : (ops : List Op) → (s : Widgets) → Decidable (RegularFrom s ops)
  | [], _      => isTrue trivial
  | op :: ops, s =>
    have := fun s' => decidableRegularFrom ops s'
    inferInstanceAs (Decidable (op.Regular s ∧ ∀ s' ∈ op.run s, RegularFrom s' ops))

variable {s inserted} {s' : Widgets} {E : Finset ℕ} {w p q c x fuel style window : ℕ} {v : Option ℕ} {op : Op}

/-! ### `set_parent` -/

@[simp] lemma live_inherit : (s.inherit w).live = s.live := by
  rw [inherit]
  split <;> rfl

@[simp] lemma parent_inherit : (s.inherit w).parent = s.parent := by
  rw [inherit]
  split <;> rfl

@[simp] lemma children_inherit : (s.inherit w).children = s.children := by
  rw [inherit]
  split <;> rfl

@[simp] lemma nextSibling_inherit : (s.inherit w).nextSibling = s.nextSibling := by
  rw [inherit]
  split <;> rfl

lemma Attached.exists_removeFromParent (h : s.Attached E inserted) (hw : w ∈ s.live) (hE : w ∉ E) :
    ∃ s', s.removeFromParent w = some s' ∧ s'.live = s.live ∧ s'.parent = s.parent ∧
      s'.nextSibling w = s.nextSibling w ∧ s'.Attached (insert w E) inserted := by
  rw [removeFromParent]
  cases hp : s.parent w with
  | none => exact ⟨s, rfl, rfl, rfl, rfl, (Attached.insert_iff hp).mpr h⟩
  | some p =>
    have hplive := (h.parents w hw hE p hp).1
    simp only [deref_eq hplive, Option.bind_some]
    exact h.exists_removeChild hw hE hp

/-- What is attached after a widget, which was not, has been added to its parent. -/
lemma Attached.exists_addToParent (h : s.Attached {w} inserted) (hw : w ∈ s.live)
    (hp : s.parent w = v) (hv : ∀ q ∈ v, q ∈ s.live) :
    ∃ s', s.addToParent w = some s' ∧ s'.live = s.live ∧ s'.parent = s.parent ∧
      s'.nextSibling w = s.nextSibling w ∧ (v = none ∨ s.nextSibling w = none →
        s'.Attached ∅ (v.elim inserted fun _ => inserted.erase w ++ [w])) := by
  rw [addToParent, hp]
  cases v with
  | none =>
    refine ⟨s, rfl, rfl, rfl, rfl, fun _ => (Attached.insert_iff hp).mp ?_⟩
    rwa [insert_empty_eq]
  | some q =>
    have hqlive := hv q rfl
    simp only [deref_eq hqlive, Option.bind_some]
    obtain ⟨s', hrun, hlive, hparent, hnext, hattached⟩ := Attached.exists_addChild h hw hqlive hp
    exact ⟨s', hrun, hlive, hparent, hnext, fun hor => hattached (hor.resolve_left nofun)⟩

lemma insertedBy_of_ne (h : s.parent w ≠ v) :
    s.insertedBy inserted w v = v.elim inserted fun _ => inserted.erase w ++ [w] := by
  cases v with
  | none => rfl
  | some p => exact if_neg h

lemma insertedBy_of_eq (h : s.parent w = v) : s.insertedBy inserted w v = inserted := by
  cases v with
  | none => rfl
  | some p => exact if_pos h

/-- `set_parent` goes through, and keeps what is attached when it inserts a widget without next sibling. -/
lemma Attached.exists_setParent (h : s.Attached ∅ inserted) (hw : w ∈ s.live) (hv : ∀ q ∈ v, q ∈ s.live) :
    ∃ s', s.setParent w v = some s' ∧ s'.live = s.live ∧ s'.parent = Function.update s.parent w v ∧
      s'.nextSibling w = s.nextSibling w ∧
      (s.parent w = v ∨ v = none ∨ s.nextSibling w = none → s'.Attached ∅ (s.insertedBy inserted w v)) := by
  by_cases hsame : s.parent w = v
  · refine ⟨s, if_pos hsame, rfl, ?_, rfl, fun _ => ?_⟩
    · rw [← hsame, Function.update_eq_self]
    · rwa [insertedBy_of_eq hsame]
  obtain ⟨s₁, hremove, hlive₁, hparent₁, hnext₁, h₁⟩ := h.exists_removeFromParent hw (Finset.notMem_empty w)
  rw [insert_empty_eq] at h₁
  have h₂ := h₁.setParent (v := v) (Finset.mem_singleton_self w)
  obtain ⟨s₃, hadd, hlive₃, hparent₃, hnext₃, h₃⟩ := h₂.exists_addToParent (by
    rw [hlive₁]
    exact hw) (Function.update_self ..) (by
    rw [hlive₁]
    exact hv)
  refine ⟨s₃.inherit w, ?_, ?_, ?_, ?_, fun hor => ?_⟩
  · rw [Widgets.setParent, if_neg hsame, hremove]
    change (Widgets.addToParent _ _).bind _ = _
    rw [hadd]
    rfl
  · rw [live_inherit, hlive₃, hlive₁]
  · rw [parent_inherit, hparent₃, hparent₁]
  · rw [nextSibling_inherit, hnext₃, hnext₁]
  · rw [insertedBy_of_ne hsame]
    have hattached := h₃ (by
      rw [hnext₁]
      exact hor.resolve_left hsame)
    exact hattached.of_same live_inherit parent_inherit children_inherit nextSibling_inherit

/-! ### Destruction -/

/-- Some widgets have been destroyed: those with the property `R` and children of what has been attached. -/
structure Deleted (s : Widgets) (E : Finset ℕ) (inserted : List ℕ) (R : ℕ → Prop) (s' : Widgets) : Prop where
  attached : s'.Attached E inserted
  live : s'.live ⊆ s.live
  parent : s'.parent = s.parent
  gone : ∀ x ∈ s.live, x ∉ s'.live → x ∉ E ∧ (R x ∨ ∃ p ∈ s.live, p ∉ E ∧ s.parent x = some p)

namespace Deleted

variable {R : ℕ → Prop} {s₁ s₂ : Widgets} {rest : List ℕ}

/-- Widgets that are being moved or destroyed stay alive. -/
lemma mem_live (h : Deleted s E inserted R s') (hx : x ∈ s.live) (hE : x ∈ E) : x ∈ s'.live := by
  by_contra hnot
  exact (h.gone x hx hnot).1 hE

/-- When the first child of a widget that is being destroyed has been deleted, the others are left. -/
lemma kids_eq (h : Deleted s E inserted (· = c) s') (hc : c ∉ s'.live) (hwE : w ∈ E)
    (hkids : s.kids w (s.live \ E) inserted = c :: rest) : s'.kids w (s'.live \ E) inserted = rest := by
  have hnodup : (s.kids w (s.live \ E) inserted).Nodup := kids_nodup h.attached.nodup
  have hfilter : s'.kids w (s'.live \ E) inserted = (s.kids w (s.live \ E) inserted).filter (· != c) := by
    rw [kids, kids, List.filter_filter]
    refine List.filter_congr fun x _ => ?_
    rw [Bool.eq_iff_iff]
    simp only [decide_eq_true_eq, Bool.and_eq_true, bne_iff_ne, Finset.mem_sdiff, h.parent]
    constructor
    · rintro ⟨⟨hx, hxE⟩, hp⟩
      refine ⟨?_, ⟨h.live hx, hxE⟩, hp⟩
      rintro rfl
      exact hc hx
    · rintro ⟨hne, ⟨hx, hxE⟩, hp⟩
      refine ⟨⟨?_, hxE⟩, hp⟩
      by_contra hnot
      -- its parent `w` is not attached
      rcases (h.gone x hx hnot).2 with rfl | ⟨p, -, hpE, hp'⟩
      · exact hne rfl
      · obtain rfl := Option.some_inj.mp (hp.symm.trans hp')
        exact hpE hwE
  rw [hfilter, ← hnodup.erase_eq_filter, hkids, List.erase_cons_head]

lemma trans {R' : ℕ → Prop} (h : Deleted s E inserted R s₁) (h' : Deleted s₁ E inserted R' s₂)
    (hR : ∀ x, R x → R' x) : Deleted s E inserted R' s₂ where
  attached := h'.attached
  live := h'.live.trans h.live
  parent := h'.parent.trans h.parent
  gone := by
    intro x hx hnot
    by_cases hx₁ : x ∈ s₁.live
    · obtain ⟨hE, hor⟩ := h'.gone x hx₁ hnot
      refine ⟨hE, hor.imp_right ?_⟩
      rintro ⟨p, hp, hpE, hparent⟩
      exact ⟨p, h.live hp, hpE, h.parent ▸ hparent⟩
    · obtain ⟨hE, hor⟩ := h.gone x hx hx₁
      exact ⟨hE, hor.imp_left (hR x)⟩

/-- A widget without children is deallocated. -/
lemma deallocate (h : Deleted s (insert w E) inserted (fun x => s.parent x = some w) s') (hw : w ∈ s.live)
    (hE : w ∉ E) (hkids : s'.kids w (s'.live \ insert w E) inserted = []) :
    Deleted s E inserted (· = w) { s' with live := s'.live.erase w } := by
  have hchild : ∀ x ∈ s'.live, x ≠ w → x ∉ E → s'.parent x ≠ some w := by
    intro x hx hne hxE hp
    have hmem := (h.attached.mem_kids_iff hx (by simp [hne, hxE])).mpr hp
    rw [hkids] at hmem
    cases hmem
  refine ⟨⟨h.attached.nodup, fun x hx hxE p hp => ?_, fun p hp => ?_⟩, ?_, h.parent, fun x hx hnot => ?_⟩
  · obtain ⟨hne, hxlive⟩ := Finset.mem_erase.mp hx
    obtain ⟨hplive, hmem⟩ := h.attached.parents x hxlive (by simp [hne, hxE]) p hp
    refine ⟨Finset.mem_erase.mpr ⟨?_, hplive⟩, hmem⟩
    rintro rfl
    exact hchild x hxlive hne hxE hp
  · have hkids : ({ s' with live := s'.live.erase w } : Widgets).kids p (s'.live.erase w \ E) inserted =
        s'.kids p (s'.live \ insert w E) inserted := by
      apply kids_congr
      intro x
      simp only [Finset.mem_sdiff, Finset.mem_erase, Finset.mem_insert]
      tauto
    rw [hkids]
    exact h.attached.children p (Finset.mem_of_mem_erase hp)
  · exact (Finset.erase_subset w _).trans h.live
  · by_cases hxw : x = w
    · exact ⟨hxw ▸ hE, .inl hxw⟩
    · obtain ⟨hxE, hor⟩ := h.gone x hx fun hmem => hnot (Finset.mem_erase.mpr ⟨hxw, hmem⟩)
      rw [Finset.mem_insert, not_or] at hxE
      refine ⟨hxE.2, .inr ?_⟩
      rcases hor with hp | ⟨p, hp, hpE, hparent⟩
      · exact ⟨w, hw, hE, hp⟩
      · exact ⟨p, hp, fun hmem => hpE (Finset.mem_insert_of_mem hmem), hparent⟩

end Deleted

/-- A widget is deleted with what is below it, whatever its ancestors are doing. The fuel counts a step of
each destructor and one of each loop. -/
lemma exists_destroy_and_deleteChildren (fuel : ℕ) :
    (∀ s E w, Attached s E inserted → w ∈ s.live → w ∉ E → 2 * (s.live \ E).card ≤ fuel →
      ∃ s', destroy fuel s w = some s' ∧ Deleted s E inserted (· = w) s' ∧ w ∉ s'.live) ∧
    ∀ s E w, Attached s E inserted → w ∈ s.live → w ∈ E → 2 * (s.live \ E).card + 1 ≤ fuel →
      ∃ s', deleteChildren fuel s (s.children w) = some s' ∧
        Deleted s E inserted (fun x => s.parent x = some w) s' ∧ s'.kids w (s'.live \ E) inserted = [] := by
  induction fuel with
  | zero =>
    refine ⟨fun s E w h hw hE hfuel => ?_, fun s E w h hw hE hfuel => absurd hfuel (by omega)⟩
    have hpos : 0 < (s.live \ E).card := Finset.card_pos.mpr ⟨w, Finset.mem_sdiff.mpr ⟨hw, hE⟩⟩
    omega
  | succ fuel ih =>
    obtain ⟨ihDestroy, ihChildren⟩ := ih
    constructor
    · intro s E w h hw hE hfuel
      obtain ⟨s₁, hremove, hlive, hparent, -, h₁⟩ := h.exists_removeFromParent hw hE
      have hcard : (s₁.live \ insert w E).card + 1 = (s.live \ E).card := by
        rw [hlive, Finset.sdiff_insert]
        exact Finset.card_erase_add_one (Finset.mem_sdiff.mpr ⟨hw, hE⟩)
      obtain ⟨s₂, hchildren, h₂, hkids⟩ := ihChildren s₁ (insert w E) w h₁ (hlive ▸ hw)
        (Finset.mem_insert_self w E) (by omega)
      have h₂' : Deleted s (insert w E) inserted (fun x => s.parent x = some w) s₂ := by
        have hgone := h₂.gone
        rw [hlive, hparent] at hgone
        exact ⟨h₂.attached, hlive ▸ h₂.live, h₂.parent.trans hparent, hgone⟩
      refine ⟨_, ?_, h₂'.deallocate hw hE hkids, Finset.notMem_erase w _⟩
      rw [destroy, hremove]
      change (deleteChildren _ _ _).bind _ = _
      rw [hchildren]
      rfl
    · intro s E w h hw hE hfuel
      have hchain := h.children w hw
      cases hkids : s.kids w (s.live \ E) inserted with
      | nil =>
        rw [hkids] at hchain
        refine ⟨s, ?_, ⟨h, Finset.Subset.refl _, rfl, fun x hx hnot => absurd hx hnot⟩, hkids⟩
        rw [chain_nil.mp hchain, deleteChildren]
      | cons c rest =>
        rw [hkids] at hchain
        have hc : c ∈ s.kids w (s.live \ E) inserted := hkids ▸ List.mem_cons_self
        obtain ⟨-, hclive, hcparent⟩ := mem_kids.mp hc
        obtain ⟨hclive, hcE⟩ := Finset.mem_sdiff.mp hclive
        obtain ⟨s₁, hdestroy, h₁, hcgone⟩ := ihDestroy s E c h hclive hcE (by omega)
        have hrest := h₁.kids_eq hcgone hE hkids
        have hw₁ := h₁.mem_live hw hE
        -- the next child was read before the first one was deleted
        have hnext : s.nextSibling c = s₁.children w := by
          have hchain₁ := h₁.attached.children w hw₁
          rw [hrest] at hchain₁
          rw [hchain.2.head_eq, hchain₁.head_eq]
        have hcard : (s₁.live \ E).card < (s.live \ E).card := by
          apply Finset.card_lt_card
          have hsub : s₁.live \ E ⊆ s.live \ E := Finset.sdiff_subset_sdiff h₁.live (Finset.Subset.refl E)
          refine Finset.ssubset_iff_subset_ne.mpr ⟨hsub, fun heq => ?_⟩
          have hmem : c ∈ s₁.live \ E := heq ▸ Finset.mem_sdiff.mpr ⟨hclive, hcE⟩
          exact hcgone (Finset.mem_sdiff.mp hmem).1
        obtain ⟨s₂, hchildren, h₂, hnil⟩ := ihChildren s₁ E w h₁.attached hw₁ hE (by omega)
        refine ⟨s₂, ?_, ?_, hnil⟩
        · rw [hchain.1, deleteChildren, deref_eq hclive]
          change (destroy _ _ _).bind _ = _
          rw [hdestroy, hnext]
          exact hchildren
        · have htrans := h₁.trans h₂ (by
            rintro x rfl
            rw [h₁.parent]
            exact hcparent)
          rw [h₁.parent] at htrans
          exact htrans

/-! ### Ancestors -/

/-- From every widget the parents lead to one without a parent. -/
def Rooted (s : Widgets) : Prop := ∀ c ∈ s.live, ∃ l, Chain s.parent (some c) l

/-- The way from a widget goes through widgets that are alive. -/
lemma Attached.ancestors_live (h : s.Attached ∅ inserted) {l : List ℕ} {a : Option ℕ}
    (hl : Chain s.parent a l) (ha : ∀ q ∈ a, q ∈ s.live) : ∀ x ∈ l, x ∈ s.live := by
  induction l generalizing a with
  | nil => exact nofun
  | cons y l ih =>
    obtain ⟨rfl, hrest⟩ := hl
    have hy := ha y rfl
    exact List.forall_mem_cons.mpr ⟨hy, ih hrest fun q hq =>
      (h.parents y hy (Finset.notMem_empty y) q hq).1⟩

/-- A widget gets a parent that it is no ancestor of. -/
lemma Rooted.update (h : s.Rooted) {l : List ℕ} (hl : Chain s.parent v l) (hw : w ∉ l) (hc : c ∈ s.live) :
    ∃ l, Chain (Function.update s.parent w v) (some c) l := by
  obtain ⟨lc, hlc⟩ := h c hc
  by_cases hmem : w ∈ lc
  · obtain ⟨xs, ys, rfl⟩ := List.append_of_mem hmem
    exact ⟨_, hlc.setNext hw hl⟩
  · exact ⟨lc, hlc.update hmem⟩

lemma exists_chain_of_allowed (h : s.Attached ∅ inserted) (hrooted : s.Rooted) (hv : ∀ p ∈ v, p ∈ s.live ∧
    ∀ l ∈ follow s.parent s.live.card (some p), w ∉ l) : ∃ l, Chain s.parent v l ∧ w ∉ l := by
  cases v with
  | none => exact ⟨[], rfl, List.not_mem_nil⟩
  | some p =>
    obtain ⟨hp, hnot⟩ := hv p rfl
    obtain ⟨l, hl⟩ := hrooted p hp
    have hlive : ∀ x ∈ l, x ∈ s.live := h.ancestors_live hl fun q hq => Option.some_inj.mp hq ▸ hp
    exact ⟨l, hl, hnot l (hl.follow_eq (length_le_card hl hlive))⟩

/-! ### Steps -/

/-- A new widget has no parent and no children. -/
lemma Attached.new (h : s.Attached ∅ inserted) (hw : w ∉ s.live) : (s.new w).Attached ∅ inserted := by
  have hold : ∀ c ∈ s.live, (s.new w).parent c = s.parent c := by
    intro c hc
    apply Function.update_of_ne
    rintro rfl
    exact hw hc
  have hnone : (s.new w).parent w = none := Function.update_self ..
  have hkids : ∀ p, (s.new w).kids p (s.new w).live inserted = s.kids p s.live inserted := by
    intro p
    apply kids_congr
    intro c
    constructor
    · rintro ⟨hc, hp⟩
      rcases Finset.mem_insert.mp hc with rfl | hc
      · cases hnone.symm.trans hp
      · exact ⟨hc, (hold c hc).symm.trans hp⟩
    · rintro ⟨hc, hp⟩
      exact ⟨Finset.mem_insert_of_mem hc, (hold c hc).trans hp⟩
  refine ⟨h.nodup, fun c hc _ p hp => ?_, fun p hp => ?_⟩
  · rcases Finset.mem_insert.mp hc with rfl | hc
    · cases hnone.symm.trans hp
    · obtain ⟨hplive, hmem⟩ := h.parents c hc (Finset.notMem_empty c) p ((hold c hc).symm.trans hp)
      exact ⟨Finset.mem_insert_of_mem hplive, hmem⟩
  · rw [Finset.sdiff_empty, hkids]
    rcases Finset.mem_insert.mp hp with rfl | hplive
    · -- nobody is the child of a widget that is not alive
      have hnil : s.kids p s.live inserted = [] := by
        rw [List.eq_nil_iff_forall_not_mem]
        intro c hc
        obtain ⟨-, hclive, hcp⟩ := mem_kids.mp hc
        exact hw (h.parents c hclive (Finset.notMem_empty c) p hcp).1
      rw [hnil]
      exact Function.update_self ..
    · have hne : p ≠ w := by
        rintro rfl
        exact hw hplive
      have hchain := h.children p hplive
      rw [Finset.sdiff_empty] at hchain
      have hchildren : (s.new w).children p = s.children p := Function.update_of_ne hne _ _
      rw [hchildren]
      refine hchain.update fun hmem => hw (mem_kids.mp hmem).2.1

lemma Rooted.new (h : s.Rooted) : (s.new w).Rooted := by
  intro c hc
  rcases Finset.mem_insert.mp hc with rfl | hc
  · exact ⟨[c], rfl, Function.update_self ..⟩
  · exact h.update (v := none) (l := []) rfl List.not_mem_nil hc

/-- `set_parent`, with what it does to the ancestors. -/
lemma exists_setParent (h : s.Attached ∅ inserted) (hrooted : s.Rooted) (hw : w ∈ s.live) {l : List ℕ}
    (hl : Chain s.parent v l) (hnot : w ∉ l) (hv : ∀ q ∈ v, q ∈ s.live) :
    ∃ s', s.setParent w v = some s' ∧ s'.live = s.live ∧ s'.parent w = v ∧ s'.Rooted ∧
      s'.nextSibling w = s.nextSibling w ∧
      (s.parent w = v ∨ v = none ∨ s.nextSibling w = none → s'.Attached ∅ (s.insertedBy inserted w v)) := by
  obtain ⟨s', hrun, hlive, hparent, hnext, hattached⟩ := h.exists_setParent hw hv
  refine ⟨s', hrun, hlive, ?_, ?_, hnext, hattached⟩
  · rw [hparent, Function.update_self]
  · intro c hc
    rw [hlive] at hc
    rw [hparent]
    exact hrooted.update hl hnot hc

/-- A new widget gets its parent. -/
lemma exists_setParent_new (h : s.Attached ∅ inserted) (hrooted : s.Rooted) (hw : w ∉ s.live)
    (hv : ∀ q ∈ v, q ∈ s.live) {t : Widgets} (hlive : t.live = (s.new w).live)
    (hparent : t.parent = (s.new w).parent) (hchildren : t.children = (s.new w).children)
    (hnext : t.nextSibling = (s.new w).nextSibling) :
    ∃ s', t.setParent w v = some s' ∧ s'.Rooted ∧ s'.Attached ∅ ((s.new w).insertedBy inserted w v) := by
  have ht : t.Attached ∅ inserted := (h.new hw).of_same hlive hparent hchildren hnext
  have htRooted : t.Rooted := by
    rw [Rooted, hlive, hparent]
    exact hrooted.new
  obtain ⟨l, hl, hnot⟩ : ∃ l, Chain t.parent v l ∧ w ∉ l := by
    cases v with
    | none => exact ⟨[], rfl, List.not_mem_nil⟩
    | some q =>
      obtain ⟨l, hl⟩ := hrooted q (hv q rfl)
      have hnot : w ∉ l := fun hmem => hw (h.ancestors_live hl hv w hmem)
      rw [hparent]
      exact ⟨l, hl.update hnot, hnot⟩
  have hwlive : w ∈ t.live := by
    rw [hlive]
    exact Finset.mem_insert_self w s.live
  have hvlive : ∀ q ∈ v, q ∈ t.live := by
    intro q hq
    rw [hlive]
    exact Finset.mem_insert_of_mem (hv q hq)
  obtain ⟨s', hrun, -, -, hs'Rooted, -, hattached⟩ := exists_setParent ht htRooted hwlive hl hnot hvlive
  have hnone : t.nextSibling w = none := by
    rw [hnext]
    exact Function.update_self ..
  have hinserted : t.insertedBy inserted w v = (s.new w).insertedBy inserted w v := by
    cases v with
    | none => rfl
    | some q => rw [insertedBy, insertedBy, hparent]
  exact ⟨s', hrun, hs'Rooted, hinserted ▸ hattached (.inr (.inr hnone))⟩

lemma Attached.isTree (h : s.Attached ∅ inserted) (hrooted : s.Rooted) : s.IsTree inserted := by
  refine ⟨fun p hp => ?_, fun c hc p hcp => (h.parents c hc (Finset.notMem_empty c) p hcp).1, hrooted⟩
  refine ⟨_, h.children p hp, List.filter_sublist, fun c => ?_⟩
  rw [Finset.sdiff_empty, mem_kids]
  constructor
  · rintro ⟨-, hc, hcp⟩
    exact ⟨hc, hcp⟩
  · rintro ⟨hc, hcp⟩
    exact ⟨(h.parents c hc (Finset.notMem_empty c) p hcp).2, hc, hcp⟩

/-- In a tree the widget that has been inserted last is the last child. -/
lemma IsTree.nextSibling_eq (h : s.IsTree (inserted ++ [w])) (hnot : w ∉ inserted) (hw : w ∈ s.live)
    (hp : s.parent w = some p) : s.nextSibling w = none := by
  obtain ⟨l, hl, hsub, hmem⟩ := h.childList p (h.alive w hw p hp)
  obtain ⟨xs, ys, rfl, hxs, hys⟩ := List.sublist_append_iff.mp hsub
  have hwmem : w ∈ xs ++ ys := (hmem w).mpr ⟨hw, hp⟩
  rcases List.mem_append.mp hwmem with hwmem | hwmem
  · exact absurd (hxs.subset hwmem) hnot
  · obtain rfl : ys = [w] := by
      rcases List.sublist_singleton.mp hys with rfl | rfl
      · cases hwmem
      · rfl
    exact hl.next_eq

/-- An operation goes through, or does not meet the condition. When it goes through, it leaves a tree
exactly when it meets the condition. -/
lemma Op.run_cases (h : s.Attached ∅ inserted) (hrooted : s.Rooted) (hallowed : op.Allowed s) :
    op.run s = none ∧ ¬op.Regular s ∨
      ∃ s', op.run s = some s' ∧ s'.Rooted ∧ (op.Regular s → s'.Attached ∅ (op.order s inserted)) ∧
        (s'.IsTree (op.order s inserted) → op.Regular s) := by
  cases op with
  | construct w parent style =>
    right
    obtain ⟨hw, hparent⟩ := hallowed
    obtain ⟨s', hrun, hs'Rooted, hs'⟩ := exists_setParent_new h hrooted hw hparent rfl rfl rfl rfl
    rw [Op.run, Widgets.construct, hrun]
    cases parent with
    | none =>
      exact ⟨_, rfl, hs'Rooted, fun _ => hs'.of_same rfl rfl rfl rfl, fun _ => trivial⟩
    | some p => exact ⟨s', rfl, hs'Rooted, fun _ => hs', fun _ => trivial⟩
  | constructInWindow w window root style =>
    obtain ⟨hw, hroot⟩ := hallowed
    cases root with
    | none => exact .inl ⟨rfl, fun hne => hne rfl⟩
    | some p =>
      right
      obtain ⟨s', hrun, hs'Rooted, hs'⟩ := exists_setParent_new h hrooted hw hroot
        (t := { s.new w with
          window := Function.update (s.new w).window w (some window)
          style := Function.update (s.new w).style w (some style) }) rfl rfl rfl rfl
      have hp : p ∈ (s.new w).live := Finset.mem_insert_of_mem (hroot p rfl)
      refine ⟨s', ?_, hs'Rooted, fun _ => hs', fun _ => nofun⟩
      rw [Op.run, Widgets.constructInWindow]
      simp only [deref_eq hp, Option.bind_some]
      exact hrun
  | setParent w parent =>
    right
    obtain ⟨hw, hparent⟩ := hallowed
    obtain ⟨l, hl, hnot⟩ := exists_chain_of_allowed h hrooted hparent
    obtain ⟨s', hrun, hlive, hs'parent, hs'Rooted, hnext, hs'⟩ := exists_setParent h hrooted hw hl hnot
      fun q hq => (hparent q hq).1
    refine ⟨s', hrun, hs'Rooted, hs', fun htree => ?_⟩
    by_cases hsame : s.parent w = parent
    · exact .inl hsame
    cases parent with
    | none => exact .inr (.inl rfl)
    | some p =>
      rw [Op.order, insertedBy_of_ne hsame] at htree
      refine .inr (.inr (hnext ▸ htree.nextSibling_eq h.nodup.not_mem_erase (hlive ▸ hw) hs'parent))
  | destroy w =>
    right
    obtain ⟨s', hrun, hdeleted, -⟩ := (exists_destroy_and_deleteChildren (2 * s.live.card)).1 s ∅ w h hallowed
      (Finset.notMem_empty w) (by rw [Finset.sdiff_empty])
    refine ⟨s', hrun, fun c hc => ?_, fun _ => hdeleted.attached, fun _ => trivial⟩
    rw [hdeleted.parent]
    exact hrooted c (hdeleted.live hc)

lemma attached_start : start.Attached ∅ [] := by
  refine ⟨List.nodup_nil, ?_, ?_⟩
  · intro c hc
    cases hc
  · intro p hp
    cases hp

lemma rooted_start : start.Rooted := by
  intro c hc
  cases hc

/-- In a run the widgets are a tree exactly while every step meets the condition. -/
lemma treeFrom_iff_of_attached {ops : List Op} (h : s.Attached ∅ inserted) (hrooted : s.Rooted)
    (hallowed : AllowedFrom s ops) : TreeFrom s inserted ops ↔ RegularFrom s ops := by
  induction ops generalizing s inserted with
  | nil => exact iff_of_true (h.isTree hrooted) trivial
  | cons op ops ih =>
    obtain ⟨hop, hops⟩ := hallowed
    rw [TreeFrom, RegularFrom]
    rcases Op.run_cases h hrooted hop with ⟨hrun, hnot⟩ | ⟨s', hrun, hs'Rooted, hs', hregular⟩
    · rw [hrun]
      refine iff_of_false ?_ fun hreg => hnot hreg.1
      rintro ⟨-, t, ht, -⟩
      cases ht
    rw [hrun]
    constructor
    · rintro ⟨-, t, hrun', htree⟩
      obtain rfl := Option.some_inj.mp hrun'
      have hreg : op.Regular s := by
        apply hregular
        cases ops with
        | nil => exact htree
        | cons op' ops => exact htree.1
      refine ⟨hreg, fun t ht => ?_⟩
      obtain rfl := Option.mem_some_iff.mp ht
      exact (ih (hs' hreg) hs'Rooted (hops s' hrun)).mp htree
    · rintro ⟨hreg, hrest⟩
      refine ⟨h.isTree hrooted, s', rfl, ?_⟩
      exact (ih (hs' hreg) hs'Rooted (hops s' hrun)).mpr (hrest s' rfl)

/-- The widgets are a tree all the time exactly when no widget that has a next sibling is inserted under
another parent, and no window without a root widget gets content. -/
theorem treeFrom_iff {ops : List Op} (hallowed : AllowedFrom start ops) :
    TreeFrom start [] ops ↔ RegularFrom start ops :=
  treeFrom_iff_of_attached attached_start rooted_start hallowed

/-- A widget 1 with the children 2 and 3, the second of which is the content of a window 9 with 1 as its
root widget; it is moved to the first child, gets a child 4 and is destroyed. -/
def someOps : List Op :=
  [.construct 1 none 8, .construct 2 (some 1) 8, .constructInWindow 3 9 (some 1) 8,
    .setParent 3 (some 2), .construct 4 (some 3) 8, .setParent 2 none, .setParent 2 (some 1), .destroy 3]

theorem treeFrom_someOps : AllowedFrom start someOps ∧
    (TreeFrom start [] someOps ↔ RegularFrom start someOps) ∧ RegularFrom start someOps :=
  have hallowed : AllowedFrom start someOps := by decide +kernel
  ⟨hallowed, treeFrom_iff hallowed, by decide +kernel⟩

/-- The first child of 1 is moved to 2: its sibling 4 is in both lists then. -/
def movedFirst : List Op :=
  [.construct 1 none 8, .construct 2 none 8, .construct 3 (some 1) 8, .construct 4 (some 1) 8,
    .setParent 3 (some 2)]

theorem not_treeFrom : ¬∀ ops, AllowedFrom start ops → TreeFrom start [] ops := by
  intro h
  have hallowed : AllowedFrom start movedFirst := by decide +kernel
  have hregular : RegularFrom start movedFirst :=
    (treeFrom_iff_of_attached attached_start rooted_start hallowed).mp (h movedFirst hallowed)
  exact absurd hregular (by decide +kernel)

end PiKachulm.Tulip.Widgets

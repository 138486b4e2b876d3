import PiKachulm.Mmu.MapRange

/-!
# `change_attr_range`

When `change_attr_range` changes the attributes of its range and of no other page.
-/

namespace PiKachulm.Mmu

open Core Services

variable {S : Services} {s s' : State} {t : Table} {vaStart vaEnd : VirtualPA}
  {attr : PagesAttributes} {k p vs ve : ℕ}

/-- The mapped pages from `vaStart` to `vaEnd` have the attributes `attr` after the call, and that
is the only difference between the translations of the address space. -/
def ChangeIsExact (S : Services) (s s' : State) (vaStart vaEnd : VirtualPA)
    (attr : PagesAttributes) : Prop :=
  ∀ va, checkVa S.kind va = true →
    (vaStart ≤ va ∧ va ≤ vaEnd →
      translate S.table s' va = (translate S.table s va).map fun x => (x.1, attr)) ∧
    (¬(vaStart ≤ va ∧ va ≤ vaEnd) → translate S.table s' va = translate S.table s va)

/-- When changing the attributes of the pages from `vs` to `ve` is exact: the conditions of
`ChangesExactly`, and no page comes to lie in a page or block that is mapped past the end of
physical memory. -/
structure ChangeCondition (kind : Kind) (t : Table) (vs ve : ℕ) (attr : PagesAttributes) : Prop
    extends ChangesExactly t vs ve attr where
  fits : ∀ p u, slot 512 4 p = rootSlot kind → t.find 512 3 p = some u →
    u.2.frame + (firstPage (changedHeight u.1 vs ve p) p - firstPage u.1 p) < 2 ^ 36

lemma Recolored.not_dropped (hrec : Recolored k vs ve p) : ¬Dropped k vs ve p := by
  intro hdrop
  rcases hrec.2 with hwhole | hin
  · exact hdrop.2.1 hwhole
  · exact hdrop.2.2.2.1 hin.1

/-- What a page that is not dropped is mapped to afterwards, with the attributes `a`. -/
lemma leafView_of_mapsTo {u : ℕ × Mapping} {a a' : PagesAttributes} {r' : Option (ℕ × Mapping)}
    (hp : p < 2 ^ 52) (hu : LeafOk u.1 u.2) (hr' : ∀ u, r' = some u → LeafOk u.1 u.2)
    (hto : MapsTo (changedHeight u.1 vs ve p) (leafDisp p u) a p r') :
    r'.map (leafView p) = some (pageAddr (pageOf p u), a') ↔
      u.2.frame + (firstPage (changedHeight u.1 vs ve p) p - firstPage u.1 p) < 2 ^ 36 ∧
        a = a' := by
  obtain ⟨v, rfl, hheight, hpart⟩ := hto
  have hvu : v.1 ≤ u.1 := hheight ▸ changedHeight_le
  have hlt := pageOf_lt (p := p) hu
  have hlt' := pageOf_lt (p := p) (hr' v rfl)
  rw [Option.map_some, leafView, Option.some.injEq, Prod.mk.injEq, hpart.1,
    pageAddr_inj (by omega) (by omega), pageOf_eq_iff hp hu.2 hvu hpart, hheight]

/-- Changing attributes is exact on one page. -/
lemma ChangesPage.exact_iff {r r' : Option (ℕ × Mapping)} (hpage : ChangesPage vs ve attr p r r')
    (hp : p < 2 ^ 52) (hr : ∀ u, r = some u → LeafOk u.1 u.2)
    (hr' : ∀ u, r' = some u → LeafOk u.1 u.2) :
    ((vs ≤ p ∧ p ≤ ve →
        r'.map (leafView p) = (r.map (leafView p)).map fun x => (x.1, attr)) ∧
      (¬(vs ≤ p ∧ p ≤ ve) → r'.map (leafView p) = r.map (leafView p))) ↔
    ∀ u, r = some u → ChangesRightly vs ve attr p u ∧
      u.2.frame + (firstPage (changedHeight u.1 vs ve p) p - firstPage u.1 p) < 2 ^ 36 := by
  cases r with
  | none => simp [hpage.unmapped rfl]
  | some u =>
    simp only [Option.some.injEq, forall_eq', Option.map_some, ChangesRightly]
    by_cases hrec : Recolored u.1 vs ve p
    · have hto := hpage.changed u rfl hrec
      have hview := fun a' => @leafView_of_mapsTo p vs ve u attr a' r' hp (hr u rfl) hr' hto
      have hdrop : ¬Dropped u.1 vs ve p := hrec.not_dropped
      rw [leafView, hview, hview]
      tauto
    · by_cases hdrop : Dropped u.1 vs ve p
      · have hout : ¬(vs ≤ p ∧ p ≤ ve) := hdrop.2.2.2.1
        have hnone := hpage.dropped u rfl hdrop
        subst hnone
        simp [hout, hdrop]
      · have hto := hpage.kept u rfl hrec hdrop
        have hview := fun a' => @leafView_of_mapsTo p vs ve u u.2.attr a' r' hp (hr u rfl) hr' hto
        rw [leafView, hview, hview]
        tauto

/-- `change_attr_range` changes its range and nothing else exactly when the condition holds. -/
theorem changeAttrRange_exact_iff (ht : S.Holds s t) (hle : vaStart ≤ vaEnd)
    (hrun : changeAttrRange (some S.table) vaStart vaEnd attr s = some (true, s')) :
    ChangeIsExact S s s' vaStart vaEnd attr ↔
      ChangeCondition S.kind t (pageNumber vaStart) (pageNumber vaEnd) attr := by
  obtain ⟨hstart, hend, t', hop, ht'⟩ := ht.changeAttrRange hrun
  have hs := (checkVa_iff_page.mp hstart).2
  have he := (checkVa_iff_page.mp hend).2
  have hv : pageNumber vaStart ≤ pageNumber vaEnd := pageNumber_le hle
  have hpages : ChangeIsExact S s s' vaStart vaEnd attr ↔
      ∀ p, slot 512 4 p = rootSlot S.kind → ∀ u, t.find 512 3 p = some u →
        ChangesRightly (pageNumber vaStart) (pageNumber vaEnd) attr p u ∧ u.2.frame +
          (firstPage (changedHeight u.1 (pageNumber vaStart) (pageNumber vaEnd) p) p -
            firstPage u.1 p) < 2 ^ 36 := by
    rw [ChangeIsExact, forall_checkVa]
    refine forall_congr' fun p => imp_congr_right fun hp => ?_
    have hp52 := lt_of_slot_eq hp
    have hpage := changeTable_find ht.wf (lt_of_slot_eq hs) (lt_of_slot_eq he) hp
      (lastPage_lt_of_slot_eq hp) hop
    rw [le_page hstart hp, page_le hend hp, ht.translate_eq hp52, ht'.translate_eq hp52]
    exact hpage.exact_iff hp52 (fun u hu => Entries.ok_of_find ht.wf hu)
      fun u hu => Entries.ok_of_find ht'.wf hu
  rw [hpages]
  constructor
  · intro h
    refine ⟨changesExactly_of_rightly hv (lastPage_lt_of_slot_eq he) (hs.trans he.symm) ?_,
      fun p u hp hf => (h p hp u hf).2⟩
    exact fun p u hp hf => (h p (hp.trans he) u hf).1
  · intro h p hp u hf
    refine ⟨h.rightly hv hf (lt_of_slot_eq he) ?_, h.fits p u hp hf⟩
    exact lt_of_le_of_lt (lastPage_mono (by norm_num)) (lastPage_lt_of_slot_eq hp)

/-! ### A block that changes as a whole -/

/-- Map a 2 MiB block that is not the first of its table, and make its first page read-only: the
next page is read-only too. -/
lemma changeAttrRange_of_block : ∃ s s' t, (identity .process).Holds s t ∧
    changeAttrRange (some (identity .process).table) 0x200000 0x200000 readOnlyMemory s =
      some (true, s') ∧
    translate (identity .process).table s 0x201000 = some (0x401000, normalMemory) ∧
    translate (identity .process).table s' 0x201000 = some (0x401000, readOnlyMemory) := by
  have hrun : (mapRange (some (identity .process).table) 0x200000 0x3ff000 0x400000 normalMemory
      emptyState).any (fun x => x.1 &&
        (changeAttrRange (some (identity .process).table) 0x200000 0x200000 readOnlyMemory
          x.2).any fun y => y.1 && decide (
            translate (identity .process).table x.2 0x201000 = some (0x401000, normalMemory) ∧
            translate (identity .process).table y.2 0x201000 =
              some (0x401000, readOnlyMemory))) = true := by
    decide +kernel
  obtain ⟨⟨_, s⟩, hmap, hrun⟩ := (Option.any_eq_true _ _).mp hrun
  obtain ⟨rfl, hrun⟩ := Bool.and_eq_true_iff.mp hrun
  obtain ⟨⟨_, s'⟩, hchange, hrun⟩ := (Option.any_eq_true _ _).mp hrun
  obtain ⟨rfl, hres⟩ := Bool.and_eq_true_iff.mp hrun
  obtain ⟨-, -, t, -, ht⟩ := (holds_emptyState _).mapRange hmap
  exact ⟨s, s', t, ht, hchange, of_decide_eq_true hres⟩

theorem changeAttrRange_exact_iff_block : ∃ s s' t, (identity .process).Holds s t ∧
    (ChangeIsExact (identity .process) s s' 0x200000 0x200000 readOnlyMemory ↔
      ChangeCondition .process t (pageNumber 0x200000) (pageNumber 0x200000) readOnlyMemory) := by
  obtain ⟨s, s', t, ht, hrun, -⟩ := changeAttrRange_of_block
  exact ⟨s, s', t, ht, changeAttrRange_exact_iff ht (by decide) hrun⟩

theorem changeAttrRange_not_exact : ∃ s s' t, (identity .process).Holds s t ∧
    changeAttrRange (some (identity .process).table) 0x200000 0x200000 readOnlyMemory s =
      some (true, s') ∧
    ¬ChangeIsExact (identity .process) s s' 0x200000 0x200000 readOnlyMemory := by
  obtain ⟨s, s', t, ht, hrun, hbefore, hafter⟩ := changeAttrRange_of_block
  refine ⟨s, s', t, ht, hrun, fun hexact => ?_⟩
  have hsame := (hexact 0x201000 (by decide)).2 (by decide)
  rw [hbefore, hafter] at hsame
  exact absurd hsame (by decide)

end PiKachulm.Mmu

import PiKachulm.Mmu.MapRange

/-!
# `unmap_range`

When `unmap_range` unmaps the pages of its range and no others.
-/

namespace PiKachulm.Mmu

open Core Services

variable {S : Services} {s s' : State} {t : Table} {vaStart vaEnd : VirtualPA} {k p vs ve : ℕ}

/-- The pages from `vaStart` to `vaEnd` are not found after the call, and every other page of the
address space has the same physical address and attributes as before. -/
def UnmapIsExact (S : Services) (s s' : State) (vaStart vaEnd : VirtualPA) : Prop :=
  ∀ va, checkVa S.kind va = true →
    (vaStart ≤ va ∧ va ≤ vaEnd → findEntryInTable S.table s' 4 S.pgd 1 va = none) ∧
    (¬(vaStart ≤ va ∧ va ≤ vaEnd) → translate S.table s' va = translate S.table s va)

/-- When unmapping the pages from `vs` to `ve` is exact: the conditions of `UnmapsExactly`, and no
page outside of the range comes to lie in a page or block that is mapped past the end of physical
memory. -/
structure UnmapCondition (kind : Kind) (t : Table) (vs ve : ℕ) : Prop
    extends UnmapsExactly t vs ve where
  fits : ∀ p u, slot 512 4 p = rootSlot kind → ¬(vs ≤ p ∧ p ≤ ve) → t.find 512 3 p = some u →
    u.2.frame + (firstPage (keptHeight u.1 vs ve p) p - firstPage u.1 p) < 2 ^ 36

/-- Unmapping is exact on one page. -/
lemma UnmapsPage.exact_iff {r r' : Option (ℕ × Mapping)} (hpage : UnmapsPage 3 vs ve p r r')
    (hp : p < 2 ^ 52) (hr : ∀ u, r = some u → LeafOk u.1 u.2)
    (hr' : ∀ u, r' = some u → LeafOk u.1 u.2) :
    ((vs ≤ p ∧ p ≤ ve → r' = none) ∧
      (¬(vs ≤ p ∧ p ≤ ve) → r'.map (leafView p) = r.map (leafView p))) ↔
    ∀ u, r = some u → (Survives 3 u.1 vs ve p ↔ ¬(vs ≤ p ∧ p ≤ ve)) ∧
      (¬(vs ≤ p ∧ p ≤ ve) →
        u.2.frame + (firstPage (keptHeight u.1 vs ve p) p - firstPage u.1 p) < 2 ^ 36) := by
  cases r with
  | none => simp [hpage.unmapped rfl]
  | some u =>
    have hu := hr u rfl
    simp only [Option.some.injEq, forall_eq']
    by_cases hsurv : Survives 3 u.1 vs ve p
    · obtain ⟨v, rfl, hheight, hpart⟩ := hpage.kept u rfl hsurv
      have hvu : v.1 ≤ u.1 := hheight ▸ keptHeight_le
      have hview : leafView p v = leafView p u ↔
          u.2.frame + (firstPage (keptHeight u.1 vs ve p) p - firstPage u.1 p) < 2 ^ 36 := by
        rw [leafView_eq_iff (hr' v rfl) hu, and_iff_left hpart.1, ← hheight]
        exact pageOf_eq_iff hp hu.2 hvu hpart
      simp only [Option.map_some, Option.some.injEq, reduceCtorEq, hview, hsurv, true_iff,
        imp_false]
    · have hnone := hpage.lost u rfl hsurv
      subst hnone
      simp only [Option.map_none, Option.map_some, reduceCtorEq, hsurv, false_iff, not_not,
        implies_true, true_and, imp_false]
      exact ⟨fun hin => ⟨hin, fun hout => absurd hin hout⟩, fun h => h.1⟩

/-- `unmap_range` unmaps its range and nothing else exactly when the condition holds. -/
theorem unmapRange_exact_iff (ht : S.Holds s t) (hle : vaStart ≤ vaEnd)
    (hrun : unmapRange (some S.table) vaStart vaEnd s = some (true, s')) :
    UnmapIsExact S s s' vaStart vaEnd ↔
      UnmapCondition S.kind t (pageNumber vaStart) (pageNumber vaEnd) := by
  obtain ⟨hstart, hend, t', hop, ht'⟩ := ht.unmapRange hrun
  have hs := (checkVa_iff_page.mp hstart).2
  have he := (checkVa_iff_page.mp hend).2
  have hv : pageNumber vaStart ≤ pageNumber vaEnd := pageNumber_le hle
  have hpages : UnmapIsExact S s s' vaStart vaEnd ↔
      ∀ p, slot 512 4 p = rootSlot S.kind → ∀ u, t.find 512 3 p = some u →
        (Survives 3 u.1 (pageNumber vaStart) (pageNumber vaEnd) p ↔
          ¬(pageNumber vaStart ≤ p ∧ p ≤ pageNumber vaEnd)) ∧
        (¬(pageNumber vaStart ≤ p ∧ p ≤ pageNumber vaEnd) → u.2.frame +
          (firstPage (keptHeight u.1 (pageNumber vaStart) (pageNumber vaEnd) p) p -
            firstPage u.1 p) < 2 ^ 36) := by
    rw [UnmapIsExact, forall_checkVa]
    refine forall_congr' fun p => imp_congr_right fun hp => ?_
    have hp52 := lt_of_slot_eq hp
    have hpage := unmapTable_find ht.wf (lt_of_slot_eq he) hp (lastPage_lt_of_slot_eq hp) hop
    have hfind : findEntryInTable S.table s' 4 S.pgd 1 (pageAddr p) = none ↔
        t'.find 512 3 p = none := rel_none_iff (ht'.find_rel hp52)
    rw [le_page hstart hp, page_le hend hp, hfind, ht.translate_eq hp52, ht'.translate_eq hp52]
    exact hpage.exact_iff hp52 (fun u hu => Entries.ok_of_find ht.wf hu)
      fun u hu => Entries.ok_of_find ht'.wf hu
  rw [hpages]
  constructor
  · intro h
    refine ⟨unmapsExactly_of_survives_iff hv (lastPage_lt_of_slot_eq he) (hs.trans he.symm) ?_,
      fun p u hp hout hf => (h p hp u hf).2 hout⟩
    exact fun p u hp hf => (h p (hp.trans he) u hf).1
  · intro h p hp u hf
    refine ⟨h.survives_iff hv hf (lt_of_slot_eq he) ?_, fun hout => h.fits p u hp hout hf⟩
    exact lt_of_le_of_lt (lastPage_mono (by norm_num)) (lastPage_lt_of_slot_eq hp)

/-! ### A block that is lost -/

/-- Map a 2 MiB block that is not the first of its table, and unmap its first page: the next page
is unmapped too. -/
lemma unmapRange_of_block : ∃ s s' t, (identity .process).Holds s t ∧
    unmapRange (some (identity .process).table) 0x200000 0x200000 s = some (true, s') ∧
    translate (identity .process).table s 0x201000 ≠ none ∧
    translate (identity .process).table s' 0x201000 = none := by
  have hrun : (mapRange (some (identity .process).table) 0x200000 0x3ff000 0x400000 normalMemory
      emptyState).any (fun x => x.1 &&
        (unmapRange (some (identity .process).table) 0x200000 0x200000 x.2).any fun y => y.1 &&
          decide (translate (identity .process).table x.2 0x201000 ≠ none ∧
            translate (identity .process).table y.2 0x201000 = none)) = true := by
    decide +kernel
  obtain ⟨⟨_, s⟩, hmap, hrun⟩ := (Option.any_eq_true _ _).mp hrun
  obtain ⟨rfl, hrun⟩ := Bool.and_eq_true_iff.mp hrun
  obtain ⟨⟨_, s'⟩, hunmap, hrun⟩ := (Option.any_eq_true _ _).mp hrun
  obtain ⟨rfl, hlost⟩ := Bool.and_eq_true_iff.mp hrun
  obtain ⟨-, -, t, -, ht⟩ := (holds_emptyState _).mapRange hmap
  exact ⟨s, s', t, ht, hunmap, of_decide_eq_true hlost⟩

theorem unmapRange_exact_iff_block : ∃ s s' t, (identity .process).Holds s t ∧
    (UnmapIsExact (identity .process) s s' 0x200000 0x200000 ↔
      UnmapCondition .process t (pageNumber 0x200000) (pageNumber 0x200000)) := by
  obtain ⟨s, s', t, ht, hrun, -⟩ := unmapRange_of_block
  exact ⟨s, s', t, ht, unmapRange_exact_iff ht (by decide) hrun⟩

theorem unmapRange_not_exact : ∃ s s' t, (identity .process).Holds s t ∧
    unmapRange (some (identity .process).table) 0x200000 0x200000 s = some (true, s') ∧
    ¬UnmapIsExact (identity .process) s s' 0x200000 0x200000 := by
  obtain ⟨s, s', t, ht, hrun, hbefore, hafter⟩ := unmapRange_of_block
  refine ⟨s, s', t, ht, hrun, fun hexact => hbefore ?_⟩
  rw [← (hexact 0x201000 (by decide)).2 (by decide)]
  exact hafter

end PiKachulm.Mmu

import PiKachulm.Mmu.ChangeRange
import PiKachulm.Mmu.Runs

/-!
# Changing the attributes of one page

`change_attr_va` writes the entry that it finds for an address again, and with it every page of a
block. `change_attr_range`, given the address as both ends of its range, cuts the block. The two
leave the same translation of every page exactly under `AgreesAt`.
-/

namespace PiKachulm.Mmu

open Core Services

variable {S : Services} {s s₁ s₂ : State} {t : Table} {va : VirtualPA} {attr : PagesAttributes}
  {k p p' : ℕ} {m : Mapping} {b : Bool}

/-! ### The entry that is found -/

/-- A leaf with other attributes. -/
def recolor (attr : PagesAttributes) (u : ℕ × Mapping) : ℕ × Mapping := (u.1, { u.2 with attr })

/-- A leaf of page `p'` is changed when it is the leaf of page `p`. -/
def recolorAt (attr : PagesAttributes) (p p' : ℕ) (u : ℕ × Mapping) : ℕ × Mapping :=
  if slot 512 u.1 p' = slot 512 u.1 p then recolor attr u else u

lemma recolorAt_of_slot_ne {u : ℕ × Mapping} (hu : u.1 ≤ k) (hne : slot 512 k p' ≠ slot 512 k p) :
    recolorAt attr p p' u = u :=
  if_neg fun heq => hne (slot_eq_of_le hu heq)

lemma slot_ne_of_index (hslot : slot 512 (k + 1) p' = slot 512 (k + 1) p) :
    slot 512 k p' = slot 512 k p ↔ slot 512 k p' % 512 = slot 512 k p % 512 := by
  rw [slot_succ, slot_succ] at hslot
  omega

lemma map_recolorAt_of_slot_ne {e : PageTree} (hne : slot 512 k p' ≠ slot 512 k p) :
    (e.find 512 k p').map (recolorAt attr p p') = e.find 512 k p' := by
  cases hf : e.find 512 k p' with
  | none => rfl
  | some u => exact congrArg some (recolorAt_of_slot_ne (Node.find_height_le hf) hne)

lemma setAttr_find_eq {e : PageTree} (hw : e.Wf 512 LeafOk k)
    (hslot : slot 512 k p' = slot 512 k p) : (setAttr attr k e p).find 512 k p' =
      (e.find 512 k p').map (recolorAt attr p p') := by
  induction k generalizing e with
  | zero =>
    cases e with
    | empty => simp [setAttr]
    | leaf m => simp [setAttr, recolorAt, recolor, hslot]
    | table q sub => exact absurd hw (by simp [Node.Wf])
  | succ k ih =>
    cases e with
    | empty => simp [setAttr]
    | leaf m => simp [setAttr, recolorAt, recolor, hslot]
    | table q sub =>
      have hsub := Node.wf_table.mp hw
      rw [setAttr, Node.find_table, Node.find_table, Entries.find, Entries.find]
      by_cases hidx : slot 512 k p' % 512 = slot 512 k p % 512
      · rw [← hidx, Function.update_self]
        exact ih (hsub _ (Nat.mod_lt _ (by norm_num))) ((slot_ne_of_index hslot).mpr hidx)
      · rw [Function.update_of_ne hidx]
        exact (map_recolorAt_of_slot_ne fun heq => hidx ((slot_ne_of_index hslot).mp heq)).symm

/-- The pages of the leaf of `p` get the attributes, and no other page changes. -/
lemma setAttrInTable_find_eq (hw : t.Wf 512 LeafOk k)
    (hslot : slot 512 (k + 1) p' = slot 512 (k + 1) p) :
    (setAttrInTable attr k t p).find 512 k p' = (t.find 512 k p').map (recolorAt attr p p') := by
  rw [setAttrInTable, Entries.find, Entries.find]
  by_cases hidx : slot 512 k p' % 512 = slot 512 k p % 512
  · rw [← hidx, Function.update_self]
    exact setAttr_find_eq (hw _ (Nat.mod_lt _ (by norm_num))) ((slot_ne_of_index hslot).mpr hidx)
  · rw [Function.update_of_ne hidx]
    exact (map_recolorAt_of_slot_ne fun heq => hidx ((slot_ne_of_index hslot).mp heq)).symm

/-- `change_attr_va` finds the entry of a mapped page. -/
lemma Services.Holds.changeAttrVa_of_mapped (ht : S.Holds s t) (hva : checkVa S.kind va = true)
    (hmapped : translate S.table s va ≠ none)
    (hrun : Mmu.changeAttrVa (some S.table) va attr s = (b, s₁)) :
    S.Holds s₁ (setAttrInTable attr 3 t (pageNumber va)) := by
  have hlook : canLookUp S.table va = true := decide_eq_true ⟨S.pgd_ne, rfl, hva⟩
  obtain ⟨heq, hslot⟩ := checkVa_iff_page.mp hva
  rw [Mmu.changeAttrVa] at hrun
  simp only [hlook, if_true] at hrun
  cases hfind : findEntryInTable S.table s 4 S.table.pgd 1 va with
  | none => exact absurd (by rw [translate, hfind, Option.map_none]) hmapped
  | some x =>
    obtain ⟨entryTable, index, level⟩ := x
    simp only [hfind, Prod.mk.injEq] at hrun
    obtain ⟨-, rfl⟩ := hrun
    rw [heq] at hfind
    have hnew := Owns.changeAttrVa attr le_rfl (lt_of_slot_eq hslot) ht.owns hfind
    exact (hnew.to_holds (setAttrInTable_wf ht.wf)).1

/-- `get_attr` gives what the tables say about an address. -/
lemma getAttr_eq (hlook : canLookUp S.table va = true) :
    getAttr (some S.table) va s = (translate S.table s va).map Prod.snd := by
  rw [getAttr, translate, Option.map_map]
  simp only [Option.bind_eq_bind, Option.bind_some, hlook, if_true]
  cases findEntryInTable S.table s 4 S.table.pgd 1 va with
  | none   => rfl
  | some x => rfl

/-- The attributes that `change_attr_va` sets are those that `get_attr` reads. -/
theorem getAttr_changeAttrVa (ht : S.Holds s t) (hva : checkVa S.kind va = true)
    (hmapped : translate S.table s va ≠ none) (hrun : changeAttrVa (some S.table) va attr s = (b, s₁)) :
    getAttr (some S.table) va s₁ = some attr := by
  have hlook : canLookUp S.table va = true := decide_eq_true ⟨S.pgd_ne, rfl, hva⟩
  have ht₁ := ht.changeAttrVa_of_mapped hva hmapped hrun
  obtain ⟨heq, hslot⟩ := checkVa_iff_page.mp hva
  have hlt := lt_of_slot_eq hslot
  rw [heq, ht.translate_eq hlt] at hmapped
  obtain ⟨u, hu⟩ : ∃ u, t.find 512 3 (pageNumber va) = some u := by
    rw [← Option.ne_none_iff_exists']
    intro hnone
    exact hmapped (by rw [hnone, Option.map_none])
  rw [getAttr_eq hlook, heq, ht₁.translate_eq hlt, setAttrInTable_find_eq ht.wf rfl, hu]
  simp [recolorAt, recolor, leafView]

/-! ### When the range of one page does the same -/

/-- The two calls leave the same physical address and attributes of every page. -/
def SameTranslation (S : Services) (s₁ s₂ : State) : Prop :=
  ∀ va, checkVa S.kind va = true → translate S.table s₁ va = translate S.table s₂ va

/-- When `change_attr_range` gives page `p'` of the leaf `u` the attributes `attr` as well. -/
def RecolorsPage (p : ℕ) (attr : PagesAttributes) (u : ℕ × Mapping) (p' : ℕ) : Prop :=
  (Recolored u.1 p p p' ∨ ¬Dropped u.1 p p p' ∧ u.2.attr = attr) ∧
    u.2.frame + (firstPage (changedHeight u.1 p p p') p' - firstPage u.1 p') < 2 ^ 36

/-- What page `p` of the leaf `u` must meet for the two calls to agree: the leaf is a page; or
`p` is the first page of a block that is not the first entry of its table; or the block has the
attributes already, it is the first entry of its table or `p` its last page, and no page of it
comes to lie in a page or block that is mapped past the end of physical memory. -/
inductive AgreesAt (p : ℕ) (attr : PagesAttributes) (u : ℕ × Mapping) : Prop
  | page (hpage : u.1 = 0)
  | whole (hfirst : firstPage u.1 p = p) (hidx : slot 512 u.1 p % 512 ≠ 0)
  | unchanged (hattr : u.2.attr = attr) (hlast : slot 512 u.1 p % 512 = 0 ∨ lastPage u.1 p = p)
    (fits : ∀ p', slot 512 u.1 p' = slot 512 u.1 p →
      u.2.frame + (firstPage (changedHeight u.1 p p p') p' - firstPage u.1 p') < 2 ^ 36)

lemma touches_of_slot_eq (hslot : slot 512 k p' = slot 512 k p) : Touches k p p p' :=
  ⟨le_rfl, hslot.ge, hslot.le⟩

lemma whole_congr (hslot : slot 512 k p' = slot 512 k p) :
    Whole k p p p' ↔ Whole k p p p := by
  rw [Whole, Whole, hslot, firstPage_congr hslot]

lemma RecolorsPage.of_whole {u : ℕ × Mapping} (hu : u.2.frame < 2 ^ 36)
    (hwhole : Whole u.1 p p p') (hslot : slot 512 u.1 p' = slot 512 u.1 p) :
    RecolorsPage p attr u p' := by
  refine ⟨.inl ⟨touches_of_slot_eq hslot, .inl hwhole⟩, ?_⟩
  rw [changedHeight, if_neg fun hc => hc.2 hwhole, Nat.sub_self]
  exact hu

lemma whole_of_page : Whole 0 p p p := by
  refine ⟨firstPage_zero.ge, ?_⟩
  rw [entryVaStop, hi_zero, slot_zero]
  exact Nat.div_mul_le_self p 512

lemma AgreesAt.recolorsPage {u : ℕ × Mapping} (hagrees : AgreesAt p attr u)
    (hu : u.2.frame < 2 ^ 36) (hp : lastPage u.1 p < 2 ^ 52)
    (hslot : slot 512 u.1 p' = slot 512 u.1 p) : RecolorsPage p attr u p' := by
  cases hagrees with
  | page hpage =>
    refine .of_whole hu ((whole_congr hslot).mpr ?_) hslot
    rw [hpage]
    exact whole_of_page
  | whole hfirst hidx =>
    refine .of_whole hu ((whole_congr hslot).mpr ?_) hslot
    exact whole_of_index hidx hfirst.ge hfirst.le
  | unchanged hattr hlast fits =>
    refine ⟨.inr ⟨fun hdrop => ?_, hattr⟩, fits p' hslot⟩
    obtain ⟨-, -, hrest, hout, hprev⟩ := hdrop
    have hle : p' ≤ lastPage u.1 p := lastPage_congr hslot ▸ le_lastPage
    -- what is not mapped again lies after `p`, and then the block is the first of its table
    have hlt : p < p' := by
      by_contra hlt
      have hpp : p ≤ lastPage u.1 p := le_lastPage
      refine hprev ?_
      rw [prevPage]
      omega
    rcases hlast with hidx | hlast
    · refine hrest ⟨?_, ?_⟩
      · rw [nextPage]
        omega
      · rw [hslot, entryVaStop_of_first hidx]
        exact hle
    · exact absurd hle (by omega)

lemma agreesAt_of_recolorsPage {u : ℕ × Mapping}
    (hall : ∀ p', slot 512 u.1 p' = slot 512 u.1 p → RecolorsPage p attr u p') :
    AgreesAt p attr u := by
  by_cases hpage : u.1 = 0
  · exact .page hpage
  have hfirst : firstPage u.1 p ≤ p := firstPage_le
  have hlast : p ≤ lastPage u.1 p := le_lastPage
  have hmany : firstPage u.1 p < lastPage u.1 p := by
    have hpow : 512 ≤ 512 ^ u.1 := Nat.le_self_pow hpage 512
    rw [firstPage, lastPage, lo, hi]
    omega
  by_cases hwhole : Whole u.1 p p p
  · refine .whole (le_antisymm firstPage_le hwhole.1) fun hidx => ?_
    have hstop := hwhole.2
    rw [entryVaStop_of_first hidx] at hstop
    have hfirst := hwhole.1
    rw [lastPage] at hmany
    omega
  -- a page of the block other than `p` only has the attributes when the block has them
  have hother : ∀ p', slot 512 u.1 p' = slot 512 u.1 p → p' ≠ p →
      ¬Dropped u.1 p p p' ∧ u.2.attr = attr := by
    intro p' hslot hne
    refine (hall p' hslot).1.resolve_left fun hrec => ?_
    rcases hrec.2 with hwhole' | ⟨hin, -⟩
    · exact hwhole ((whole_congr hslot).mp hwhole')
    · exact hne (le_antisymm hin.2 hin.1)
  have hattr : u.2.attr = attr := by
    by_cases heq : firstPage u.1 p = p
    · exact (hother (lastPage u.1 p) slot_hi (by omega)).2
    · exact (hother (firstPage u.1 p) slot_lo heq).2
  refine .unchanged hattr ?_ fun p' hslot => (hall p' hslot).2
  by_contra hnot
  obtain ⟨hidx, hne⟩ := not_or.mp hnot
  have hslot : slot 512 u.1 (p + 1) = slot 512 u.1 p :=
    (slot_eq_of_mem (firstPage_le.trans (Nat.le_succ p)) (by omega)).symm
  have hstop : entryVaStop u.1 (slot 512 u.1 p) < firstPage u.1 p := entryVaStop_lt hidx
  refine (hother (p + 1) hslot (by omega)).1 ⟨touches_of_slot_eq hslot, ?_, ?_, by omega, ?_⟩
  · exact fun hwhole' => hwhole ((whole_congr hslot).mp hwhole')
  · rintro ⟨-, hle⟩
    rw [hslot] at hle
    omega
  · rw [prevPage]
    omega

/-! ### The two calls -/

/-- What `change_attr_range` leaves of a page, against what `change_attr_va` leaves of it. -/
lemma ChangesPage.recolorAt_iff {u : ℕ × Mapping} {r' : Option (ℕ × Mapping)}
    (hpage : ChangesPage p p attr p' (some u) r') (hp : p' < 2 ^ 52) (hu : LeafOk u.1 u.2)
    (hr' : ∀ u, r' = some u → LeafOk u.1 u.2) :
    some (leafView p' (recolorAt attr p p' u)) = r'.map (leafView p') ↔
      (slot 512 u.1 p' = slot 512 u.1 p → RecolorsPage p attr u p') := by
  have hview := fun a a' => @leafView_of_mapsTo p' p p u a a' r' hp hu hr'
  by_cases hslot : slot 512 u.1 p' = slot 512 u.1 p
  · have hto : leafView p' (recolorAt attr p p' u) = (pageAddr (pageOf p' u), attr) := by
      rw [recolorAt, if_pos hslot]
      rfl
    rw [hto, eq_comm, imp_iff_right hslot, RecolorsPage]
    by_cases hrec : Recolored u.1 p p p'
    · rw [hview attr attr (hpage.changed u rfl hrec)]
      tauto
    · by_cases hdrop : Dropped u.1 p p p'
      · rw [hpage.dropped u rfl hdrop]
        simp [hrec, hdrop]
      · rw [hview _ attr (hpage.kept u rfl hrec hdrop)]
        tauto
  · have htouch : ¬Touches u.1 p p p' := fun ht => hslot (le_antisymm ht.2.2 ht.2.1)
    have hto := hpage.kept u rfl (not_recolored_of_not_touches htouch)
      (not_dropped_of_not_touches htouch)
    rw [recolorAt, if_neg hslot, leafView, eq_comm, hview _ u.2.attr hto, changedHeight,
      if_neg fun hc => htouch hc.1, Nat.sub_self]
    exact iff_of_true ⟨hu.2, rfl⟩ fun heq => absurd heq hslot

/-- `change_attr_va` and `change_attr_range` of one page agree exactly when the condition holds. -/
theorem changeAttrVa_eq_range_iff (ht : S.Holds s t) (hva : checkVa S.kind va = true)
    (hmapped : translate S.table s va ≠ none)
    (hone : changeAttrVa (some S.table) va attr s = (b, s₁))
    (hrange : changeAttrRange (some S.table) va va attr s = some (true, s₂)) :
    SameTranslation S s₁ s₂ ↔
      ∀ u, t.find 512 3 (pageNumber va) = some u → AgreesAt (pageNumber va) attr u := by
  have ht₁ := ht.changeAttrVa_of_mapped hva hmapped hone
  obtain ⟨-, -, t', hop, ht₂⟩ := ht.changeAttrRange hrange
  obtain ⟨heq, hv⟩ := checkVa_iff_page.mp hva
  have hv52 : pageNumber va < 2 ^ 52 := lt_of_slot_eq hv
  have hpages : SameTranslation S s₁ s₂ ↔ ∀ p, slot 512 4 p = rootSlot S.kind → ∀ u,
      t.find 512 3 p = some u → slot 512 u.1 p = slot 512 u.1 (pageNumber va) →
        RecolorsPage (pageNumber va) attr u p := by
    rw [SameTranslation, forall_checkVa]
    refine forall_congr' fun p => imp_congr_right fun hp => ?_
    have hp52 := lt_of_slot_eq hp
    have hpage := changeTable_find ht.wf hv52 hv52 hp (lastPage_lt_of_slot_eq hp) hop
    rw [ht₁.translate_eq hp52, ht₂.translate_eq hp52,
      setAttrInTable_find_eq ht.wf (hp.trans hv.symm)]
    cases hf : t.find 512 3 p with
    | none =>
      rw [hpage.unmapped hf]
      simp
    | some u =>
      rw [hf] at hpage
      simp only [Option.map_some, Option.some.injEq, forall_eq']
      exact hpage.recolorAt_iff hp52 (Entries.ok_of_find ht.wf hf)
        fun u hu => Entries.ok_of_find ht₂.wf hu
  rw [hpages]
  have hlast : ∀ u, t.find 512 3 (pageNumber va) = some u →
      u.2.frame < 2 ^ 36 ∧ lastPage u.1 (pageNumber va) < 2 ^ 52 := fun u hf =>
    ⟨(Entries.ok_of_find ht.wf hf).2, lt_of_le_of_lt
      (lastPage_mono ((Entries.find_height_le hf).trans (by norm_num)))
      (lastPage_lt_of_slot_eq hv)⟩
  constructor
  · intro h u hf
    refine agreesAt_of_recolorsPage fun p' hslot => ?_
    have hle : u.1 ≤ 4 := (Entries.find_height_le hf).trans (by norm_num)
    exact h p' ((slot_eq_of_le hle hslot).trans hv) u (Entries.find_congr hf hslot.symm) hslot
  · intro h p hp u hf hslot
    have hf' := Entries.find_congr hf hslot
    exact (h u hf').recolorsPage (hlast u hf').1 (hlast u hf').2 hslot

/-! ### A page in the middle of a block -/

/-- Map a 2 MiB block that is not the first of its table, and make its second page read-only: by
its address the whole block becomes read-only, as a range the pages after it are lost. -/
lemma changeAttrVa_of_block : ∃ s s₁ s₂ t, (identity .process).Holds s t ∧
    translate (identity .process).table s 0x201000 = some (0x401000, normalMemory) ∧
    changeAttrVa (some (identity .process).table) 0x201000 readOnlyMemory s = (true, s₁) ∧
    changeAttrRange (some (identity .process).table) 0x201000 0x201000 readOnlyMemory s =
      some (true, s₂) ∧
    translate (identity .process).table s₁ 0x202000 = some (0x402000, readOnlyMemory) ∧
    translate (identity .process).table s₂ 0x202000 = none := by
  have hrun : (mapRange (some (identity .process).table) 0x200000 0x3ff000 0x400000 normalMemory
      emptyState).any (fun x => x.1 &&
        (changeAttrRange (some (identity .process).table) 0x201000 0x201000 readOnlyMemory
          x.2).any fun y => y.1 && decide (
            translate (identity .process).table x.2 0x201000 = some (0x401000, normalMemory) ∧
            (changeAttrVa (some (identity .process).table) 0x201000 readOnlyMemory x.2).1 ∧
            translate (identity .process).table
              (changeAttrVa (some (identity .process).table) 0x201000 readOnlyMemory x.2).2
                0x202000 = some (0x402000, readOnlyMemory) ∧
            translate (identity .process).table y.2 0x202000 = none)) = true := by
    decide +kernel
  obtain ⟨⟨_, s⟩, hmap, hrun⟩ := (Option.any_eq_true _ _).mp hrun
  obtain ⟨rfl, hrun⟩ := Bool.and_eq_true_iff.mp hrun
  obtain ⟨⟨_, s₂⟩, hrange, hrun⟩ := (Option.any_eq_true _ _).mp hrun
  obtain ⟨rfl, hres⟩ := Bool.and_eq_true_iff.mp hrun
  obtain ⟨hbefore, hone, hva, hafter⟩ := of_decide_eq_true hres
  obtain ⟨-, -, t, -, ht⟩ := (holds_emptyState _).mapRange hmap
  exact ⟨s, _, s₂, t, ht, hbefore, Prod.ext hone rfl, hrange, hva, hafter⟩

theorem changeAttrVa_eq_range_iff_block : ∃ s s₁ s₂ t, (identity .process).Holds s t ∧
    (SameTranslation (identity .process) s₁ s₂ ↔
      ∀ u, t.find 512 3 (pageNumber 0x201000) = some u →
        AgreesAt (pageNumber 0x201000) readOnlyMemory u) := by
  obtain ⟨s, s₁, s₂, t, ht, hbefore, hone, hrange, -⟩ := changeAttrVa_of_block
  refine ⟨s, s₁, s₂, t, ht, changeAttrVa_eq_range_iff ht (by decide) ?_ hone hrange⟩
  rw [hbefore]
  exact Option.some_ne_none _

theorem changeAttrVa_ne_range : ∃ s s₁ s₂ t, (identity .process).Holds s t ∧
    translate (identity .process).table s 0x201000 ≠ none ∧
    changeAttrVa (some (identity .process).table) 0x201000 readOnlyMemory s = (true, s₁) ∧
    changeAttrRange (some (identity .process).table) 0x201000 0x201000 readOnlyMemory s =
      some (true, s₂) ∧
    ¬SameTranslation (identity .process) s₁ s₂ := by
  obtain ⟨s, s₁, s₂, t, ht, hbefore, hone, hrange, hva, hafter⟩ := changeAttrVa_of_block
  refine ⟨s, s₁, s₂, t, ht, ?_, hone, hrange, fun hsame => ?_⟩
  · rw [hbefore]
    exact Option.some_ne_none _
  · have hboth := hsame 0x202000 (by decide)
    rw [hva, hafter] at hboth
    cases hboth

end PiKachulm.Mmu

import PiKachulm.Core.Accounts
import PiKachulm.Core.Path
import PiKachulm.Mmu.TreeChange

/-!
# The pages of the tables

Mapping, changing attributes and clearing keep the account between a tree and its allocator.
Unmapping does when `Releases` holds: a table that is given back because of a range that stops
inside it must have no sub-table left.
-/

namespace PiKachulm.Mmu

open Core

variable {alloc : AllocFun} {k n N p vs ve δ j : ℕ} {attr : PagesAttributes} {e e' : PageTree}
  {h h' : History VirtualPA} {x y z : Table × History VirtualPA} {m : Mapping}
  {L : Set VirtualPA} {q : VirtualPA} {sub : Table}

/-- The allocator returns no page that is in use. -/
def NeverInUse (alloc : AllocFun) : Prop := ∀ h p, alloc h = some p → p ∉ live h

/-! ### Mapping -/

lemma onTable_accounts {op : ℕ → PageTree × History VirtualPA → Option (PageTree × History VirtualPA)}
    (hop : onTable k N vs ve op x = some y) (ha : x.1.Accounts 512 L x.2)
    (hstep : ∀ i ∈ touched k N vs ve, ∀ L c e' c', (x.1 i).Accounts 512 L c →
      op (N * 512 + i) (x.1 i, c) = some (e', c') → e'.Accounts 512 L c') :
    y.1.Accounts 512 L y.2 := by
  rw [onTable] at hop
  split_ifs at hop
  · cases hop
    exact ha
  · exact updateCells_accounts nodup_touched (fun i hi => (mem_touched.mp hi).1) hop ha hstep

lemma mapEntry_accounts (halloc : NeverInUse alloc) (hw : e.Wf 512 LeafOk k)
    (ha : e.Accounts 512 L h) (hop : mapEntry alloc k n vs ve δ attr (e, h) = some (e', h')) :
    e'.Accounts 512 L h' := by
  induction k generalizing n vs ve δ attr e h e' h' L with
  | zero =>
    rw [mapEntry_zero] at hop
    cases hop
    cases e with
    | empty => exact ha.to_leaf Node.pages_empty
    | leaf m => exact ha.to_leaf Node.pages_leaf
    | table q sub => exact absurd hw (by simp [Node.Wf])
  | succ k ih =>
    have hmap : ∀ {L vs ve δ attr} {x y : Table × History VirtualPA}, x.1.Wf 512 LeafOk k →
        x.1.Accounts 512 L x.2 → mapTable alloc k n vs ve δ attr x = some y →
        y.1.Accounts 512 L y.2 :=
      fun hw ha hop => onTable_accounts hop ha fun i hi _ _ _ _ hac hopi =>
        ih (hw i (mem_touched.mp hi).1) hac hopi
    cases e with
    | empty =>
      rw [mapEntry_empty] at hop
      split_ifs at hop
      · cases hop
        exact ha.to_leaf Node.pages_empty
      · simp only [Option.bind_eq_some_iff, Option.map_eq_some_iff] at hop
        obtain ⟨q, hq, y, hy, hop⟩ := hop
        cases hop
        obtain ⟨hqL, hnew⟩ := ha.alloc Node.pages_empty (halloc _ _ hq)
        exact Node.accounts_table.mpr ⟨hqL, hmap Entries.wf_empty hnew hy⟩
    | leaf m =>
      rw [mapEntry_leaf] at hop
      split_ifs at hop
      · cases hop
        exact ha.to_leaf Node.pages_leaf
      · simp only [Option.bind_eq_some_iff, Option.map_eq_some_iff, remapAround_eq_some] at hop
        obtain ⟨q, hq, z, ⟨a, ha', b, hb, hz⟩, hop⟩ := hop
        cases hop
        obtain ⟨hqL, hnew⟩ := ha.alloc Node.pages_leaf (halloc _ _ hq)
        have haw := mapTable_wf Entries.wf_empty ha'
        have haa := hmap Entries.wf_empty hnew ha'
        exact Node.accounts_table.mpr
          ⟨hqL, hmap (mapTable_wf haw hb) (hmap haw haa hb) hz⟩
    | table q sub =>
      rw [mapEntry_table, Option.map_eq_some_iff] at hop
      obtain ⟨y, hy, hop⟩ := hop
      cases hop
      obtain ⟨hqL, hsub⟩ := Node.accounts_table.mp ha
      exact Node.accounts_table.mpr ⟨hqL, hmap (Node.wf_table.mp hw) hsub hy⟩

lemma mapTable_accounts (halloc : NeverInUse alloc) (hw : x.1.Wf 512 LeafOk k)
    (ha : x.1.Accounts 512 L x.2) (hop : mapTable alloc k N vs ve δ attr x = some y) :
    y.1.Accounts 512 L y.2 :=
  onTable_accounts hop ha fun i hi _ _ _ _ hac hopi =>
    mapEntry_accounts halloc (hw i (mem_touched.mp hi).1) hac hopi

/-! ### Changing attributes -/

lemma changeEntry_accounts (halloc : NeverInUse alloc) (hw : e.Wf 512 LeafOk k)
    (ha : e.Accounts 512 L h) (hop : changeEntry alloc k n vs ve attr (e, h) = some (e', h')) :
    e'.Accounts 512 L h' := by
  induction k generalizing n e h e' h' L with
  | zero =>
    cases e with
    | empty =>
      cases hop
      exact ha
    | leaf m =>
      cases hop
      exact ha.to_leaf Node.pages_leaf
    | table q sub =>
      cases hop
      exact ha
  | succ k ih =>
    cases e with
    | empty =>
      cases hop
      exact ha
    | leaf m =>
      rw [changeEntry] at hop
      split_ifs at hop
      · cases hop
        exact ha.to_leaf Node.pages_leaf
      · simp only [Option.bind_eq_some_iff, Option.map_eq_some_iff, recolorAround_eq_some] at hop
        obtain ⟨q, hq, z, ⟨a, b, ha', hb, hz⟩, hop⟩ := hop
        cases hop
        obtain ⟨hqL, hnew⟩ := ha.alloc Node.pages_leaf (halloc _ _ hq)
        have haw := mapTable_wf Entries.wf_empty ha'
        have hbw := mapTable_wf haw hb
        have haa := mapTable_accounts halloc Entries.wf_empty hnew ha'
        have hba := mapTable_accounts halloc haw haa hb
        exact Node.accounts_table.mpr ⟨hqL, mapTable_accounts halloc hbw hba hz⟩
    | table q sub =>
      rw [changeEntry, Option.map_eq_some_iff] at hop
      obtain ⟨y, hy, hop⟩ := hop
      cases hop
      have hw' := Node.wf_table.mp hw
      obtain ⟨hqL, hsub⟩ := Node.accounts_table.mp ha
      refine Node.accounts_table.mpr ⟨hqL, onTable_accounts hy hsub ?_⟩
      exact fun i hi _ _ _ _ hac hopi => ih (hw' i (mem_touched.mp hi).1) hac hopi

lemma changeTable_accounts (halloc : NeverInUse alloc) (hw : x.1.Wf 512 LeafOk k)
    (ha : x.1.Accounts 512 L x.2) (hop : changeTable alloc k N vs ve attr x = some y) :
    y.1.Accounts 512 L y.2 :=
  onTable_accounts hop ha fun i hi _ _ _ _ hac hopi =>
    changeEntry_accounts halloc (hw i (mem_touched.mp hi).1) hac hopi

lemma setAttr_accounts (ha : e.Accounts 512 L h) : (setAttr attr k e p).Accounts 512 L h := by
  induction k generalizing e L with
  | zero =>
    cases e with
    | empty => exact ha
    | leaf m => exact ha.to_leaf Node.pages_leaf
    | table q sub => exact ha
  | succ k ih =>
    cases e with
    | empty => exact ha
    | leaf m => exact ha.to_leaf Node.pages_leaf
    | table q sub =>
      obtain ⟨hqL, hsub⟩ := Node.accounts_table.mp ha
      have hidx : slot 512 k p % 512 < 512 := Nat.mod_lt _ (by norm_num)
      rw [setAttr]
      exact Node.accounts_table.mpr ⟨hqL, hsub.update hidx (ih (hsub.entry hidx))⟩

lemma setAttrInTable_accounts {t : Table} (ha : t.Accounts 512 L h) :
    (setAttrInTable attr k t p).Accounts 512 L h := by
  have hidx : slot 512 k p % 512 < 512 := Nat.mod_lt _ (by norm_num)
  exact ha.update hidx (setAttr_accounts (ha.entry hidx))

/-! ### Clearing -/

lemma clearEntries_total (k : ℕ) (x : Table × History VirtualPA) :
    ∃ y, clearEntries k x = some y := by
  suffices hentry : ∀ k e, ∃ y, clearEntry k e = some y from
    updateCells_total (fun _ e => hentry k e) _ x
  intro k
  induction k with
  | zero => exact fun _ => ⟨_, rfl⟩
  | succ k ih =>
    rintro ⟨e, h⟩
    cases e with
    | empty => exact ⟨_, rfl⟩
    | leaf m => exact ⟨_, rfl⟩
    | table q sub =>
      obtain ⟨y, hy⟩ := updateCells_total (fun _ e => ih e) (List.range 512) (sub, h)
      exact ⟨(.empty, .free q :: y.2), by rw [clearEntry, hy]; rfl⟩

/-- Clearing empties every entry. -/
lemma clearEntry_eq_empty (hop : clearEntry k (e, h) = some (e', h')) : e' = .empty := by
  cases k with
  | zero =>
    cases hop
    rfl
  | succ k =>
    cases e with
    | empty =>
      cases hop
      rfl
    | leaf m =>
      cases hop
      rfl
    | table q sub =>
      rw [clearEntry, Option.map_eq_some_iff] at hop
      obtain ⟨y, -, hop⟩ := hop
      cases hop
      rfl

lemma clearEntries_eq_empty (hop : clearEntries k x = some y) {i : ℕ} (hi : i < 512) :
    y.1 i = .empty := by
  have hcells := (updateCells_cell List.nodup_range hop).2 i (List.mem_range.mpr hi)
  obtain ⟨c, c', hc⟩ := hcells
  exact clearEntry_eq_empty hc

lemma pages_eq_empty {t : Table} (ht : ∀ i < 512, (t i).pages 512 = ∅) : t.pages 512 = ∅ := by
  refine Set.eq_empty_of_forall_notMem ?_
  rintro p ⟨i, hi, hp⟩
  exact absurd hp (by simp [ht i hi])

lemma clearEntry_accounts (hw : e.Wf 512 LeafOk k) (ha : e.Accounts 512 L h)
    (hop : clearEntry k (e, h) = some (e', h')) : e'.Accounts 512 L h' := by
  induction k generalizing e h e' h' L with
  | zero =>
    cases hop
    cases e with
    | empty => exact ha
    | leaf m => exact ha.to_empty Node.pages_leaf
    | table q sub => exact absurd hw (by simp [Node.Wf])
  | succ k ih =>
    cases e with
    | empty =>
      cases hop
      exact ha
    | leaf m =>
      cases hop
      exact ha.to_empty Node.pages_leaf
    | table q sub =>
      rw [clearEntry, Option.map_eq_some_iff] at hop
      obtain ⟨y, hy, hop⟩ := hop
      cases hop
      have hw' := Node.wf_table.mp hw
      obtain ⟨hqL, hsub⟩ := Node.accounts_table.mp ha
      have hya : Entries.Accounts 512 (insert q L) y.1 y.2 := by
        refine updateCells_accounts List.nodup_range (fun i => List.mem_range.mp) hy hsub ?_
        exact fun i hi _ _ _ _ hac hopi => ih (hw' i (List.mem_range.mp hi)) hac hopi
      refine hya.free hqL (pages_eq_empty fun i hi => ?_)
      rw [clearEntries_eq_empty hy hi, Node.pages_empty]

lemma clearEntries_accounts (hw : x.1.Wf 512 LeafOk k) (ha : x.1.Accounts 512 L x.2)
    (hop : clearEntries k x = some y) : y.1.Accounts 512 L y.2 := by
  refine updateCells_accounts List.nodup_range (fun i => List.mem_range.mp) hop ha ?_
  exact fun i hi _ _ _ _ hac hopi => clearEntry_accounts (hw i (List.mem_range.mp hi)) hac hopi

/-! ### Unmapping -/

/-- No table is given back with a sub-table in it: when the range stops inside an entry of height
`j + 1` that is emptied, the entries of its table after the range are no tables, and the first
one is empty if the range stops inside it. -/
def Releases (K : ℕ) (q : VirtualPA) (t : Table) (vs ve : ℕ) : Prop :=
  ∀ j a, 1 ≤ j → j < K → tableAt (q, t) (pathTo 512 ve K (K - j)) = some a →
    slot 512 (j + 1) ve % 512 ≠ 0 → vs ≤ firstPage (j + 1) ve → ve < lastPage (j + 1) ve →
    (∀ i < 512, slot 512 j ve % 512 < i → ¬IsTable (a.2 i)) ∧
      (slot 512 j ve % 512 = 0 → ve < lastPage j ve → a.2 0 = .empty)

/-- The condition goes down with the walk. -/
lemma Releases.of_table {t : Table} {q' : VirtualPA} (hr : Releases (k + 1) q t vs ve)
    (ht : t (slot 512 (k + 1) ve % 512) = .table q' sub) : Releases k q' sub vs ve := by
  intro j a hj hjk hat
  refine hr j a hj (Nat.lt_succ_of_lt hjk) ?_
  rw [Nat.succ_sub hjk.le, pathTo_succ, tableAt_of_table ht]
  exact hat

/-- An entry that the range is taken to cover is emptied. -/
lemma unmapEntry_eq_empty (hv : vs ≤ lo 512 k n) (hstop : entryVaStop k n ≤ ve)
    (hop : unmapEntry alloc k n vs ve (e, h) = some (e', h')) : e' = .empty := by
  cases k with
  | zero =>
    cases hop
    rfl
  | succ k =>
    cases e with
    | empty =>
      cases hop
      rfl
    | leaf m =>
      rw [unmapEntry, if_pos ⟨hv, hstop⟩] at hop
      cases hop
      rfl
    | table q sub =>
      rw [unmapEntry, Option.map_eq_some_iff] at hop
      obtain ⟨y, -, hop⟩ := hop
      rw [if_pos ⟨hv, hstop⟩] at hop
      cases hop
      rfl

@[simp] lemma unmapEntry_empty : unmapEntry alloc k n vs ve (.empty, h) = some (.empty, h) := by
  cases k <;> rfl

lemma pages_of_not_isTable (he : ¬IsTable e) : e.pages 512 = ∅ := by
  cases e with
  | empty => exact Node.pages_empty
  | leaf m => exact Node.pages_leaf
  | table q sub => exact absurd trivial he

lemma not_isTable_of_wf (hw : e.Wf 512 LeafOk 0) : ¬IsTable e := by
  cases e with
  | empty => exact id
  | leaf m => exact id
  | table q sub => exact absurd hw (by simp [Node.Wf])

/-- Nothing is left below an entry that is emptied. -/
lemma unmapTable_pages (hw : x.1.Wf 512 LeafOk k) (hop : unmapTable alloc k N vs ve x = some y)
    (hv : vs ≤ lo 512 (k + 1) N) (hstop : entryVaStop (k + 1) N ≤ ve) (hlo : lo 512 (k + 1) N ≤ ve)
    (hrel : 1 ≤ k → slot 512 (k + 1) ve = N → N % 512 ≠ 0 → ve < lastPage (k + 1) ve →
      (∀ i < 512, slot 512 k ve % 512 < i → ¬IsTable (x.1 i)) ∧
        (slot 512 k ve % 512 = 0 → ve < lastPage k ve → x.1 0 = .empty)) :
    y.1.pages 512 = ∅ := by
  refine pages_eq_empty fun i hi512 => ?_
  have hdiv : (N * 512 + i) / 512 = N := mul_add_div_of_lt hi512
  have hvi : vs ≤ lo 512 k (N * 512 + i) := by
    refine hv.trans ?_
    have hle := lo_div_le (b := 512) (k := k) (n := N * 512 + i)
    rwa [hdiv] at hle
  have hvsi : slot 512 k vs ≤ N * 512 + i := by
    have hle := slot_le_slot (b := 512) (k := k) hvi
    rwa [slot_lo] at hle
  -- when the range stops inside the table, its slot is not the first of the table above
  have hinside : slot 512 (k + 1) ve = N → ve < lastPage (k + 1) ve → N % 512 ≠ 0 := by
    intro hN hlast hmod
    rw [entryVaStop_of_first hmod, ← lastPage_eq hN] at hstop
    exact absurd hlast (not_lt.mpr hstop)
  rw [unmapTable, onTable, if_neg (not_lt.mpr (hv.trans hlo))] at hop
  obtain ⟨hout, hin⟩ := updateCells_cell nodup_touched hop
  rcases le_or_gt (N * 512 + i) (slot 512 k ve) with hle | hgt
  · obtain ⟨c, c', hc⟩ := hin i (mem_touched.mpr ⟨hi512, hvsi, hle⟩)
    rcases le_or_gt (entryVaStop k (N * 512 + i)) ve with hcov | hcov
    · rw [unmapEntry_eq_empty hvi hcov hc, Node.pages_empty]
    · have hfirst : entryVaStop k (N * 512 + i) = hi 512 k (N * 512) := by
        rw [entryVaStop, hdiv]
      rw [hfirst] at hcov
      have hslot : slot 512 k ve ≤ N * 512 := by
        have hle := slot_le_slot (b := 512) (k := k) hcov.le
        rwa [slot_hi] at hle
      obtain rfl : i = 0 := by omega
      rw [Nat.add_zero] at hle
      have hN : slot 512 k ve = N * 512 := le_antisymm hslot hle
      have hlast : ve < lastPage k ve := by rwa [lastPage, hN]
      have hN' : slot 512 (k + 1) ve = N := by
        rw [slot_succ, hN, Nat.mul_div_cancel _ (by norm_num)]
      have hlast' : ve < lastPage (k + 1) ve := hlast.trans_le (lastPage_mono (Nat.le_succ k))
      have hk : 1 ≤ k := by
        rw [Nat.one_le_iff_ne_zero]
        rintro rfl
        exact absurd hlast (by simp)
      have hzero : slot 512 k ve % 512 = 0 := by rw [hN, Nat.mul_mod_left]
      rw [(hrel hk hN' (hinside hN' hlast') hlast').2 hzero hlast, unmapEntry_empty, Option.some.injEq,
        Prod.mk.injEq] at hc
      rw [← hc.1, Node.pages_empty]
  · have hnot : i ∉ touched k N vs ve := fun hmem => absurd (mem_touched.mp hmem).2.2 (by omega)
    have hN : slot 512 (k + 1) ve = N := by
      have hge := slot_le_slot (b := 512) (k := k + 1) hlo
      rw [slot_lo] at hge
      rw [slot_succ] at hge ⊢
      omega
    have hlast : ve < lastPage (k + 1) ve := by
      have hle := hi_le_hi_div (b := 512) (k := k) (n := N * 512 + i)
      rw [hdiv] at hle
      calc ve ≤ hi 512 k (slot 512 k ve) := le_hi_slot
        _ < lo 512 k (N * 512 + i) := hi_lt_lo hgt
        _ ≤ hi 512 k (N * 512 + i) := lo_le_hi
        _ ≤ lastPage (k + 1) ve := by rwa [lastPage_eq hN]
    rw [hout i hnot]
    apply pages_of_not_isTable
    rcases Nat.eq_zero_or_pos k with rfl | hk
    · exact not_isTable_of_wf (hw i hi512)
    · refine (hrel hk hN (hinside hN hlast) hlast).1 i hi512 ?_
      rw [slot_succ] at hN
      omega

lemma unmapTable_accounts (halloc : NeverInUse alloc) (hw : x.1.Wf 512 LeafOk k)
    (ha : x.1.Accounts 512 L x.2) (hr : slot 512 (k + 1) ve = N → Releases k q x.1 vs ve)
    (hop : unmapTable alloc k N vs ve x = some y) : y.1.Accounts 512 L y.2 := by
  induction k generalizing N x y L q with
  | zero =>
    refine onTable_accounts hop ha fun i hi _ _ _ _ hac hopi => ?_
    cases hopi
    exact hac.to_empty (pages_of_not_isTable (not_isTable_of_wf (hw i (mem_touched.mp hi).1)))
  | succ k ih =>
    refine onTable_accounts hop ha fun i hi L c e' c' hac hopi => ?_
    obtain ⟨hi512, hvs, hve⟩ := mem_touched.mp hi
    have hwi := hw i hi512
    cases hxi : x.1 i with
    | empty =>
      rw [hxi] at hopi hac
      rw [unmapEntry_empty] at hopi
      cases hopi
      exact hac
    | leaf m =>
      rw [hxi] at hopi hac
      rw [unmapEntry] at hopi
      split_ifs at hopi
      · cases hopi
        exact hac.to_empty Node.pages_leaf
      · simp only [Option.bind_eq_some_iff, Option.map_eq_some_iff, remapAround_eq_some] at hopi
        obtain ⟨p, hp, z, ⟨a, haz, hz⟩, hopi⟩ := hopi
        cases hopi
        obtain ⟨hpL, hnew⟩ := hac.alloc Node.pages_leaf (halloc _ _ hp)
        have haa := mapTable_accounts halloc Entries.wf_empty hnew haz
        exact Node.accounts_table.mpr
          ⟨hpL, mapTable_accounts halloc (mapTable_wf Entries.wf_empty haz) haa hz⟩
    | table p sub =>
      rw [hxi] at hopi hac hwi
      rw [unmapEntry, Option.map_eq_some_iff] at hopi
      obtain ⟨z, hz, hopi⟩ := hopi
      have hw' := Node.wf_table.mp hwi
      obtain ⟨hpL, hsub⟩ := Node.accounts_table.mp hac
      have hidx : ∀ a, slot 512 (k + 1) a = N * 512 + i →
          slot 512 (k + 1 + 1) a = N ∧ slot 512 (k + 1) a % 512 = i := by
        intro a hslot
        rw [slot_succ, hslot, Nat.mul_add_mod_of_lt hi512, mul_add_div_of_lt hi512]
        exact ⟨rfl, rfl⟩
      have hza : Entries.Accounts 512 (insert p L) z.1 z.2 := by
        refine ih (q := p) hw' hsub (fun hslot => ?_) hz
        obtain ⟨hN, hmod⟩ := hidx ve hslot
        exact (hr hN).of_table (hmod ▸ hxi)
      split_ifs at hopi with hcov
      · cases hopi
        have hlo : lo 512 (k + 1) (N * 512 + i) ≤ ve := (lo_le_lo hve).trans lo_slot_le
        refine hza.free hpL (unmapTable_pages hw' hz hcov.1 hcov.2 hlo ?_)
        intro hk hslot hne hlast
        obtain ⟨hN, hmod⟩ := hidx ve hslot
        refine hr hN k (p, sub) hk (Nat.lt_succ_self k) ?_ (hslot ▸ hne) ?_ hlast
        · rw [Nat.succ_sub le_rfl, Nat.sub_self, pathTo_succ, hmod, tableAt_of_table hxi]
          rfl
        · rw [firstPage_eq hslot]
          exact hcov.1
      · cases hopi
        exact Node.accounts_table.mpr ⟨hpL, hza⟩

end PiKachulm.Mmu

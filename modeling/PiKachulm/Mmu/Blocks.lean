import PiKachulm.Mmu.MapRange
import PiKachulm.Mmu.Runs
import Mathlib.Data.Nat.ModEq

/-!
# The physical addresses of blocks

The hardware ignores the low bits of the address in a block descriptor. It agrees with `translate`
on tables whose blocks are all mapped to multiples of their size; this file says which calls keep
the tables so.
-/

namespace PiKachulm.Mmu

open Libk Core Services

variable {S : Services} {s s' s₀ : State} {t t' : Table} {k N p vs ve δ : ℕ} {alloc : AllocFun}
  {attr : PagesAttributes} {q : VirtualPA} {path : List ℕ} {x y : Table × History VirtualPA}
  {u v : ℕ × Mapping} {r r' : Option (ℕ × Mapping)} {c : MmuCall}

/-! ### Aligned leaves -/

/-- A leaf of height `k` is mapped to a multiple of its size. -/
def AlignedLeaf (k : ℕ) (m : Mapping) : Prop := 512 ^ k ∣ m.frame

lemma dvd_firstPage : 512 ^ k ∣ firstPage k p := Dvd.intro_left _ rfl

lemma dvd_frames (hk : k ≤ 2) : 512 ^ k ∣ 2 ^ 36 := by
  have hpow : (2 : ℕ) ^ 36 = 512 ^ 4 := by norm_num
  rw [hpow]
  exact pow_dvd_pow 512 (hk.trans (by norm_num))

/-- A part of a linear mapping is aligned when the displacement is. -/
lemma Part.alignedLeaf_iff (hk : v.1 ≤ 2) (hv : Part δ attr p v) :
    AlignedLeaf v.1 v.2 ↔ 512 ^ v.1 ∣ δ := by
  rw [AlignedLeaf, hv.2, Nat.dvd_mod_iff (dvd_frames hk)]
  exact Nat.dvd_add_iff_right dvd_firstPage |>.symm

lemma dvd_leafDisp (hk : u.1 ≤ 2) (hu : AlignedLeaf u.1 u.2) :
    512 ^ u.1 ∣ leafDisp p u := by
  have hpow : (2 : ℕ) ^ 52 = 2 ^ 36 * 2 ^ 16 := by norm_num
  rw [leafDisp, displacement, Nat.dvd_mod_iff (dvd_frames hk)]
  refine Nat.dvd_sub (Nat.dvd_add hu ?_) dvd_firstPage
  rw [hpow]
  exact (dvd_frames hk).mul_right _

/-- A part of an aligned leaf is aligned. -/
lemma alignedLeaf_of_part (hk : u.1 ≤ 2) (hu : AlignedLeaf u.1 u.2)
    (hvu : v.1 ≤ u.1) (hv : Part (leafDisp p u) attr p v) : AlignedLeaf v.1 v.2 := by
  rw [hv.alignedLeaf_iff (hvu.trans hk)]
  exact (pow_dvd_pow 512 hvu).trans (dvd_leafDisp hk hu)

/-- The leaf found for a page is aligned. -/
def AlignedAt (r : Option (ℕ × Mapping)) : Prop := ∀ u, r = some u → AlignedLeaf u.1 u.2

lemma Keeps.alignedAt (hr : ∀ u, r = some u → LeafOk u.1 u.2)
    (hk : Keeps p r r') (ha : AlignedAt r) : AlignedAt r' := by
  cases hk with
  | unmapped => exact ha
  | @mapped u v hle hpart =>
    intro w hw
    cases hw
    exact alignedLeaf_of_part (hr u rfl).1 (ha u rfl) hle hpart

lemma MapsTo.alignedAt {l : ℕ} (hu : LeafOk u.1 u.2) (hle : l ≤ u.1)
    (hto : MapsTo l (leafDisp p u) attr p r) (ha : AlignedLeaf u.1 u.2) : AlignedAt r := by
  obtain ⟨v, rfl, rfl, hpart⟩ := hto
  intro w hw
  cases hw
  exact alignedLeaf_of_part hu.1 ha hle hpart

/-! ### Unmapping and changing attributes -/

lemma UnmapsPage.alignedAt (hr : ∀ u, r = some u → LeafOk u.1 u.2)
    (hpage : UnmapsPage k vs ve p r r') (ha : AlignedAt r) : AlignedAt r' := by
  cases r with
  | none =>
    rw [hpage.unmapped rfl]
    exact ha
  | some u =>
    by_cases hsurv : Survives k u.1 vs ve p
    · exact (hpage.kept u rfl hsurv).alignedAt (hr u rfl) keptHeight_le (ha u rfl)
    · rw [hpage.lost u rfl hsurv]
      simp [AlignedAt]

lemma ChangesPage.alignedAt (hr : ∀ u, r = some u → LeafOk u.1 u.2)
    (hpage : ChangesPage vs ve attr p r r') (ha : AlignedAt r) : AlignedAt r' := by
  cases r with
  | none =>
    rw [hpage.unmapped rfl]
    exact ha
  | some u =>
    by_cases hrec : Recolored u.1 vs ve p
    · exact (hpage.changed u rfl hrec).alignedAt (hr u rfl) changedHeight_le (ha u rfl)
    · by_cases hdrop : Dropped u.1 vs ve p
      · rw [hpage.dropped u rfl hdrop]
        simp [AlignedAt]
      · exact (hpage.kept u rfl hrec hdrop).alignedAt (hr u rfl) changedHeight_le (ha u rfl)

/-- Changing the attributes of one leaf moves no page. -/
lemma setAttr_find {e : PageTree} {p' : ℕ} (hf : (setAttr attr k e p').find 512 k p = some v) :
    ∃ u, e.find 512 k p = some u ∧ u.1 = v.1 ∧ u.2.frame = v.2.frame := by
  induction k generalizing e with
  | zero =>
    cases e with
    | empty => simp [setAttr] at hf
    | leaf m =>
      rw [setAttr, Node.find_leaf, Option.some.injEq] at hf
      subst hf
      exact ⟨_, Node.find_leaf, rfl, rfl⟩
    | table q sub => exact ⟨v, hf, rfl, rfl⟩
  | succ k ih =>
    cases e with
    | empty => simp [setAttr] at hf
    | leaf m =>
      rw [setAttr, Node.find_leaf, Option.some.injEq] at hf
      subst hf
      exact ⟨_, Node.find_leaf, rfl, rfl⟩
    | table q sub =>
      rw [setAttr, Node.find_table, Entries.find] at hf
      rw [Node.find_table, Entries.find]
      by_cases hidx : slot 512 k p % 512 = slot 512 k p' % 512
      · rw [hidx, Function.update_self] at hf
        rw [hidx]
        exact ih hf
      · rw [Function.update_of_ne hidx] at hf
        exact ⟨v, hf, rfl, rfl⟩

lemma setAttrInTable_find {p' : ℕ} (hf : (setAttrInTable attr k t p').find 512 k p = some v) :
    ∃ u, t.find 512 k p = some u ∧ u.1 = v.1 ∧ u.2.frame = v.2.frame := by
  rw [setAttrInTable, Entries.find] at hf
  rw [Entries.find]
  by_cases hidx : slot 512 k p % 512 = slot 512 k p' % 512
  · rw [hidx, Function.update_self] at hf
    rw [hidx]
    exact setAttr_find hf
  · rw [Function.update_of_ne hidx] at hf
    exact ⟨v, hf, rfl, rfl⟩

/-! ### Mapping -/

/-- Mapping keeps the tables of a tree. -/
lemma mapTable_tableAt (hw : x.1.Wf 512 LeafOk k)
    (hop : mapTable alloc k N vs ve δ attr x = some y) (hat : tableAt (q, x.1) path ≠ none) :
    tableAt (q, y.1) path ≠ none := by
  induction path generalizing k N q x y with
  | nil => simp
  | cons i path ih =>
    obtain ⟨a, ha⟩ := Option.ne_none_iff_exists'.mp hat
    obtain ⟨q', sub, hxi, hsub⟩ := tableAt_cons_eq_some.mp ha
    rw [mapTable, onTable] at hop
    split_ifs at hop
    · cases hop
      exact hat
    obtain ⟨hout, hin⟩ := updateCells_cell nodup_touched hop
    by_cases hi : i ∈ touched k N vs ve
    · obtain ⟨c, c', hc⟩ := hin i hi
      have hwi := hw i (mem_touched.mp hi).1
      rw [hxi] at hc hwi
      cases k with
      | zero => exact absurd hwi (by simp [Node.Wf])
      | succ k =>
        rw [mapEntry_table, Option.map_eq_some_iff] at hc
        obtain ⟨z, hz, hyz⟩ := hc
        have hyi : y.1 i = .table q' z.1 := (congrArg Prod.fst hyz).symm
        rw [tableAt_of_table hyi]
        exact ih (Node.wf_table.mp hwi) hz (by simp [hsub])
    · rw [tableAt_of_table ((hout i hi).trans hxi), hsub]
      simp

/-- The blocks that mapping the pages from `vs` to `ve` displaced by `δ` makes are aligned: those
of the slots in the range where there is no table, unless the old leaf is put back over them. -/
def MakesAligned (q : VirtualPA) (t : Table) (N vs ve δ : ℕ) : Prop :=
  ∀ p k, slot 512 4 p = N → 1 ≤ k → k ≤ 2 → vs ≤ firstPage k p → lastPage k p ≤ ve →
    tableAt (q, t) (pathTo 512 p 3 (4 - k)) = none →
    (∀ u, t.find 512 3 p = some u → ¬Clobbered u.1 vs ve p) → 512 ^ k ∣ δ

lemma mapTable_alignedAt (hw : x.1.Wf 512 LeafOk 3) (hvs : vs < 2 ^ 52) (hve : ve < 2 ^ 52)
    (hp : slot 512 4 p = N) (hp52 : lastPage 4 p < 2 ^ 52)
    (hop : mapTable alloc 3 N vs ve δ attr x = some y) (hmake : MakesAligned q x.1 N vs ve δ)
    (ha : AlignedAt (x.1.find 512 3 p)) : AlignedAt (y.1.find 512 3 p) := by
  have hpage := mapTable_find hw hvs hve hp hp52 hop
  by_cases hin : vs ≤ p ∧ p ≤ ve ∧ ∀ u, x.1.find 512 3 p = some u → ¬Clobbered u.1 vs ve p
  · obtain ⟨h₁, h₂, hclob⟩ := hin
    obtain ⟨v, hv, hpart, hfirst, hlast, -⟩ := hpage.mapped h₁ h₂ hclob
    have hv2 : v.1 ≤ 2 := (Entries.ok_of_find (mapTable_wf hw hop) hv).1
    intro w hw'
    rw [hv, Option.some.injEq] at hw'
    subst hw'
    rw [hpart.alignedLeaf_iff hv2]
    rcases Nat.eq_zero_or_pos v.1 with hv0 | hv0
    · rw [hv0, pow_zero]
      exact one_dvd δ
    · refine hmake p v.1 hp hv0 hv2 hfirst hlast ?_ hclob
      have hnone := tableAt_eq_none_of_find (q := q) hv
      rw [← Nat.sub_add_comm (hv2.trans (by norm_num))] at hnone
      by_contra hat
      exact mapTable_tableAt hw hop hat hnone
  · refine (hpage.kept fun h₁ h₂ => ?_).alignedAt (fun u hu => Entries.ok_of_find hw hu) ha
    by_contra hno
    exact hin ⟨h₁, h₂, fun u hu hclob => hno ⟨u, hu, hclob⟩⟩

/-! ### In memory -/

/-- Every block entry of a table of the address space is mapped to a multiple of its size: 1 GiB at
level 2 and 2 MiB at level 3. -/
def BlocksAligned (S : Services) (s : State) : Prop :=
  ∀ path table index, (∀ i ∈ path, i < 512) → index < 512 →
    subTableAt S.table s 1 S.pgd path = some table →
    getEntryKind (s.mem table index) (path.length + 1) = .block →
    2 ^ (12 + 9 * (4 - (path.length + 1))) ∣ (decodeEntry (s.mem table index)).1.toNat

/-- Where the AArch64 walk translates `va` to: the address in a page or block descriptor without
the bits below the size of the page or block, which are those of `va`. -/
def hardwareTranslate (tbl : MMUTable) (s : State) (va : VirtualPA) : Option PhysicalPA :=
  (findEntryInTable tbl s 4 tbl.pgd 1 va).map fun (table, index, level) =>
    (s.mem table index &&& maskBits (12 + 9 * (4 - level)) 47) |||
      (va &&& maskBits 0 (12 + 9 * (4 - level) - 1))

/-- All leaves found in the address space are aligned. -/
def AlignedTree (kind : Kind) (t : Table) : Prop :=
  ∀ p, slot 512 4 p = rootSlot kind → AlignedAt (t.find 512 3 p)

lemma two_pow_blockSize : 2 ^ (12 + 9 * k) = 4096 * 512 ^ k := by
  rw [pow_add, pow_mul]
  norm_num

lemma blocksAligned_of_tree (ht : S.Holds s t) (ha : AlignedTree S.kind t) : BlocksAligned S s := by
  intro path table index hpath hindex hsub hblock
  have hwa : t.Wf 512 AlignedLeaf 3 :=
    Entries.wf_of_find ht.wf fun p h v hp hf => ha p hp (h, v) hf
  have hrel : Option.Rel _ (subTableAt S.table s 1 S.pgd path) _ :=
    subTableAt_rel le_rfl ht.owns.rep hpath
  rw [hsub] at hrel
  cases hat : tableAt (S.pgd, t) path with
  | none =>
    rw [hat] at hrel
    cases hrel
  | some x =>
    rw [hat] at hrel
    obtain ⟨-, hrep⟩ := Option.rel_some_some.mp hrel
    obtain ⟨hlen, hwx⟩ := tableAt_wf hwa hpath hat
    have hlevel : 4 - (3 - path.length) = path.length + 1 := by omega
    have hheight : 4 - (path.length + 1) = 3 - path.length := by omega
    have hrepi := hrep index hindex
    have hwi := hwx index hindex
    cases hxi : x.2 index with
    | empty =>
      rw [hxi, rep_empty, hlevel, hblock] at hrepi
      cases hrepi
    | leaf m =>
      rw [hxi, rep_leaf] at hrepi
      rw [hxi, Node.wf_leaf, AlignedLeaf] at hwi
      obtain ⟨pa, hentry, hframe⟩ := hrepi
      rw [hentry, decodeEntry_encodeNewEntry, toNat_and_mask_frame, hframe, hheight,
        two_pow_blockSize, Nat.mul_comm m.frame]
      exact Nat.mul_dvd_mul_left 4096 hwi
    | table q sub =>
      rw [hxi] at hrepi
      cases hk : 3 - path.length with
      | zero =>
        rw [hk] at hrepi
        exact absurd hrepi (by simp [Services.Rep])
      | succ k =>
        rw [hk] at hrepi
        have hkind := (rep_table.mp hrepi).1
        rw [← hk, hlevel, hblock] at hkind
        cases hkind

/-- The address in a descriptor of a page or block, without the bits below its size. -/
lemma toNat_and_maskBits_of_frame {entry : BitVec 64} {f : ℕ} (hk : k ≤ 2)
    (hentry : entry &&& maskBits 12 47 = pageAddr f) (hf : f < 2 ^ 36) :
    (entry &&& maskBits (12 + 9 * k) 47).toNat = 4096 * (f / 512 ^ k * 512 ^ k) := by
  have hmask : maskBits 12 47 &&& maskBits (12 + 9 * k) 47 = maskBits (12 + 9 * k) 47 := by
    interval_cases k <;> decide
  rw [← hmask, ← BitVec.and_assoc, hentry, toNat_and_maskBits _ (by omega) (by norm_num),
    toNat_pageAddr_of_lt (by omega)]
  interval_cases k <;> norm_num <;> omega

lemma and_maskBits_of_frame {entry : BitVec 64} {f : ℕ} (hk : k ≤ 2)
    (hentry : entry &&& maskBits 12 47 = pageAddr f) (hf : f < 2 ^ 36) (hdvd : 512 ^ k ∣ f) :
    entry &&& maskBits (12 + 9 * k) 47 = pageAddr f := by
  apply BitVec.eq_of_toNat_eq
  rw [toNat_and_maskBits_of_frame hk hentry hf, toNat_pageAddr_of_lt (by omega), Nat.div_mul_cancel hdvd,
    Nat.mul_comm]

/-- The two parts of an output address do not overlap. -/
lemma output_or_offset {a c : BitVec 64} (hk : k ≤ 2) :
    (a &&& maskBits (12 + 9 * k) 47) ||| (c &&& maskBits 0 (12 + 9 * k - 1)) =
      (a &&& maskBits (12 + 9 * k) 47) + (c &&& maskBits 0 (12 + 9 * k - 1)) := by
  refine (BitVec.add_eq_or_of_and_eq_zero _ _ ?_).symm
  have hmask : maskBits (12 + 9 * k) 47 &&& maskBits 0 (12 + 9 * k - 1) = 0 := by
    interval_cases k <;> decide
  have hac : (a &&& maskBits (12 + 9 * k) 47) &&& (c &&& maskBits 0 (12 + 9 * k - 1)) =
      (a &&& c) &&& (maskBits (12 + 9 * k) 47 &&& maskBits 0 (12 + 9 * k - 1)) := by
    ac_rfl
  rw [hac, hmask]
  exact BitVec.and_zero

lemma hardwareTranslate_eq (ht : S.Holds s t) (ha : AlignedTree S.kind t)
    (hp : slot 512 4 p = rootSlot S.kind) :
    hardwareTranslate S.table s (pageAddr p) = (translate S.table s (pageAddr p)).map Prod.fst := by
  have hp52 := lt_of_slot_eq hp
  have hlookup : Option.Rel (fun a u => LooksUp s a u ∧ t.find 512 3 p = some u)
      (findEntryInTable S.table s 4 S.table.pgd 1 (pageAddr p)) (t.find 512 3 p) := by
    have hrel := ht.find_rel hp52
    generalize findEntryInTable S.table s 4 S.table.pgd 1 (pageAddr p) = a at hrel ⊢
    generalize t.find 512 3 p = r at hrel ⊢
    cases hrel with
    | none => exact .none
    | some h => exact .some ⟨h, rfl⟩
  rw [ht.translate_eq hp52, Option.map_map]
  refine rel_map_eq hlookup ?_
  rintro ⟨table, index, level⟩ u ⟨⟨-, hlevel, pa, hframe, hdecode⟩, hu⟩
  obtain ⟨hk, hlt⟩ := Entries.ok_of_find ht.wf hu
  have hentry : s.mem table index &&& maskBits 12 47 = pageAddr u.2.frame := by
    rw [← hframe, ← and_mask_eq_pageAddr]
    exact congrArg Prod.fst hdecode
  dsimp only at hlevel ⊢
  rw [hlevel, Nat.sub_sub_self (hk.trans (by norm_num)), output_or_offset hk,
    and_maskBits_of_frame hk hentry hlt (ha p hp u hu),
    pageAddr_and_offset (hk.trans (by norm_num)) hp52, pageAddr_add]
  rfl

/-! ### Runs -/

/-- What a `map_range` must meet: for every page `p` of the address space whose slot of height `k`
(the span of a block of level `4 - k`) lies in the range, unless there is a table for this slot
or the wrap-around of the range puts the old block of `p` back, the two addresses differ by a
multiple of the size of the block. -/
def MapsAligned (S : Services) (s : State) (vaStart vaEnd : VirtualPA) (paStart : PhysicalPA) :
    Prop :=
  ∀ p k, slot 512 4 p = rootSlot S.kind → 1 ≤ k → k ≤ 2 → pageNumber vaStart ≤ firstPage k p →
    lastPage k p ≤ pageNumber vaEnd →
    subTableAt S.table s 1 S.pgd (pathTo 512 p 3 (4 - k)) = none →
    (∀ level, entryLevel S.table s (pageAddr p) = some level →
      ¬Clobbered (4 - level) (pageNumber vaStart) (pageNumber vaEnd) p) →
    pageNumber paStart ≡ pageNumber vaStart [MOD 512 ^ k]

def AlignedCall (S : Services) (s : State) : MmuCall → Prop
  | .mapRange vaStart vaEnd paStart _ => MapsAligned S s vaStart vaEnd paStart
  | _                                 => True

/-- The displacement of a mapping is a multiple of the size of a block when the addresses differ
by one. -/
lemma dvd_displacement_iff {pf : ℕ} (hk : k ≤ 2) (hvs : vs < 2 ^ 52) :
    512 ^ k ∣ displacement pf vs ↔ pf ≡ vs [MOD 512 ^ k] := by
  have hpow : (2 : ℕ) ^ 52 = 2 ^ 36 * 2 ^ 16 := by norm_num
  have h52 : 512 ^ k ∣ 2 ^ 52 := by
    rw [hpow]
    exact (dvd_frames hk).mul_right _
  rw [displacement, Nat.dvd_mod_iff (dvd_frames hk), ← Nat.modEq_iff_dvd' (by omega)]
  constructor
  · intro hmod
    exact (hmod.trans (Nat.modEq_zero_iff_dvd.mpr h52 |>.add_left pf)).symm
  · intro hmod
    exact hmod.symm.trans ((Nat.modEq_zero_iff_dvd.mpr h52).symm.add_left pf)

lemma MapsAligned.makesAligned {vaStart vaEnd : VirtualPA} {paStart : PhysicalPA}
    (ht : S.Holds s t) (hvs : pageNumber vaStart < 2 ^ 52)
    (hmap : MapsAligned S s vaStart vaEnd paStart) :
    MakesAligned S.pgd t (rootSlot S.kind) (pageNumber vaStart) (pageNumber vaEnd)
      (displacement (pageNumber paStart) (pageNumber vaStart)) := by
  intro p k hp hk₁ hk₂ hfirst hlast hat hclob
  rw [dvd_displacement_iff hk₂ hvs]
  refine hmap p k hp hk₁ hk₂ hfirst hlast ?_ ?_
  · rw [ht.subTableAt_eq fun i hi => mem_pathTo hi, hat]
    rfl
  · intro level hlevel
    rw [ht.entryLevel_eq (lt_of_slot_eq hp), Option.map_eq_some_iff] at hlevel
    obtain ⟨u, hu, rfl⟩ := hlevel
    have hu3 : u.1 ≤ 3 := Entries.find_height_le hu
    rw [Nat.sub_sub_self (hu3.trans (by norm_num))]
    exact hclob u hu

/-- A call that meets the condition keeps the leaves aligned. -/
lemma AlignedTree.step {y : Table × History VirtualPA} (ht : S.Holds s t)
    (ha : AlignedTree S.kind t) (hok : AlignedCall S s c) (hacc : c.Accepted S.kind)
    (htree : c.onTree S (t, s.history) = some y) : AlignedTree S.kind y.1 := by
  intro p hp
  have hp52 : p < 2 ^ 52 := lt_of_slot_eq hp
  have hlast := lastPage_lt_of_slot_eq hp
  have hokp : ∀ u, t.find 512 3 p = some u → LeafOk u.1 u.2 :=
    fun u hu => Entries.ok_of_find ht.wf hu
  have hlt : ∀ va, checkVa S.kind va = true → pageNumber va < 2 ^ 52 :=
    fun va hva => lt_of_slot_eq (checkVa_iff_page.mp hva).2
  cases c with
  | mapRange vaStart vaEnd paStart attr =>
    have hmake := MapsAligned.makesAligned ht (hlt _ hacc.1) hok
    exact mapTable_alignedAt ht.wf (hlt _ hacc.1) (hlt _ hacc.2) hp hlast htree hmake (ha p hp)
  | unmapRange vaStart vaEnd =>
    exact (unmapTable_find ht.wf (hlt _ hacc.2) hp hlast htree).alignedAt hokp (ha p hp)
  | changeAttrRange vaStart vaEnd attr =>
    exact (changeTable_find ht.wf (hlt _ hacc.1) (hlt _ hacc.2) hp hlast htree).alignedAt hokp
      (ha p hp)
  | changeAttrVa va attr =>
    cases htree
    intro v hv
    obtain ⟨u, hu, hheight, hframe⟩ := setAttrInTable_find hv
    have hau := ha p hp u hu
    rwa [AlignedLeaf, hheight, hframe] at hau

/-- In a run whose calls all meet the condition, blocks stay aligned, and the hardware translates
every address as the code does. -/
theorem blocks_aligned_of_reaches (hs : S.Fresh s₀) (hreach : Reaches S.table (AlignedCall S) s₀ s) :
    BlocksAligned S s ∧ ∀ va, checkVa S.kind va = true →
      hardwareTranslate S.table s va = (translate S.table s va).map Prod.fst := by
  obtain ⟨t, ht, ha⟩ : ∃ t, S.Holds s t ∧ AlignedTree S.kind t := by
    refine Reaches.invariant (fun t _ => AlignedTree S.kind t) hs ?_ ?_ hreach
    · intro p _ u hu
      simp at hu
    · exact fun s t c y ht ha hok hacc htree => AlignedTree.step ht ha hok hacc htree
  exact ⟨blocksAligned_of_tree ht ha, forall_checkVa.mpr fun p hp => hardwareTranslate_eq ht ha hp⟩

/-- Map a 2 MiB block to a multiple of its size. -/
theorem blocks_aligned_of_reaches_block : ∃ s,
    Reaches (identity .process).table (AlignedCall (identity .process)) emptyState s ∧
    BlocksAligned (identity .process) s ∧
    hardwareTranslate (identity .process).table s 0x201000 =
      (translate (identity .process).table s 0x201000).map Prod.fst := by
  have hrun : (mapRange (some (identity .process).table) 0x200000 0x3ff000 0x400000 normalMemory
      emptyState).isSome = true := by
    decide +kernel
  obtain ⟨⟨b, s⟩, hmap⟩ := Option.isSome_iff_exists.mp hrun
  have hok : AlignedCall (identity .process) emptyState
      (.mapRange 0x200000 0x3ff000 0x400000 normalMemory) := by
    intro p k hp hk₁ hk₂ hfirst hlast _ _
    have hstart : pageNumber 0x200000 = 0x200 := rfl
    have hend : pageNumber 0x3ff000 = 0x3ff := rfl
    rw [hstart] at hfirst
    rw [hend] at hlast
    obtain rfl | rfl : k = 1 ∨ k = 2 := by omega
    · rfl
    · rw [lastPage, hi] at hlast
      omega
  have hreach : Reaches (identity .process).table (AlignedCall (identity .process)) emptyState s :=
    Reaches.refl.step hok hmap
  have haligned := blocks_aligned_of_reaches (fresh_emptyState _) hreach
  exact ⟨s, hreach, haligned.1, haligned.2 0x201000 (by decide)⟩

/-- Map a 2 MiB block to an address that is not a multiple of its size. -/
theorem blocks_not_aligned : ∃ s,
    Reaches (identity .process).table (fun _ _ => True) emptyState s ∧
    ¬BlocksAligned (identity .process) s ∧
    hardwareTranslate (identity .process).table s 0 ≠
      (translate (identity .process).table s 0).map Prod.fst := by
  have hrun : (mapRange (some (identity .process).table) 0 0x1ff000 0x1000 normalMemory
      emptyState).any (fun x => decide (x.1 = true ∧
        subTableAt (identity .process).table x.2 1 (pageAddr 1) [0, 0] = some (pageAddr 3) ∧
        getEntryKind (x.2.mem (pageAddr 3) 0) 3 = .block ∧
        ¬2 ^ 21 ∣ (decodeEntry (x.2.mem (pageAddr 3) 0)).1.toNat ∧
        hardwareTranslate (identity .process).table x.2 0 ≠
          (translate (identity .process).table x.2 0).map Prod.fst)) = true := by
    decide +kernel
  obtain ⟨⟨b, s⟩, hmap, hrun⟩ := (Option.any_eq_true _ _).mp hrun
  obtain ⟨-, hsub, hblock, hdvd, htr⟩ := of_decide_eq_true hrun
  refine ⟨s, Reaches.refl.step trivial (c := .mapRange 0 0x1ff000 0x1000 normalMemory) hmap, ?_, htr⟩
  exact fun hal => hdvd (hal [0, 0] _ 0 (by simp) (by norm_num) hsub hblock)

end PiKachulm.Mmu

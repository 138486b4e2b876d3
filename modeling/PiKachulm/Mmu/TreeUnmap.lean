import PiKachulm.Mmu.TreeMap

/-!
# What unmapping a range does to each page

`unmapEntry` empties the entries it takes for covered (`Erased`) and puts back what it takes for
the rest of a block it cuts (`Remapped`). Both tests use the last page of the first entry of the
table in place of the last page of the entry at hand.
-/

namespace PiKachulm.Mmu

open Core

variable {alloc : AllocFun} {k n N p vs ve : ℕ} {e e' : PageTree} {h h' : History VirtualPA}
  {x y : Table × History VirtualPA} {m : Mapping}

/-- The entry of height `k` of page `p` is emptied as covered by the range. -/
def Erased (k vs ve p : ℕ) : Prop :=
  vs ≤ firstPage k p ∧ entryVaStop k (slot 512 k p) ≤ ve

/-- Page `p` of a block of height `k` is mapped again after the block was cut. -/
def Remapped (k vs ve p : ℕ) : Prop :=
  p ≤ prevPage vs ∨ (nextPage ve ≤ p ∧ p ≤ entryVaStop k (slot 512 k p))

/-- A page mapped by a leaf of height `l` survives: no entry above it is emptied, and the leaf
is not reached or its part with the page is mapped again. -/
def Survives (k l vs ve p : ℕ) : Prop :=
  (∀ i, l ≤ i → i ≤ k → Touches i vs ve p → ¬Erased i vs ve p) ∧
    (Touches l vs ve p → 1 ≤ l ∧ Remapped l vs ve p)

/-- The height of what maps a page of a leaf of height `l` that survives. -/
def keptHeight (l vs ve p : ℕ) : ℕ := if Touches l vs ve p then splitHeight l vs ve p else l

lemma keptHeight_le : keptHeight k vs ve p ≤ k := by
  rw [keptHeight]
  split_ifs
  · exact splitHeight_le
  · exact le_rfl

/-- The effect of unmapping the pages from `vs` to `ve` on page `p`, for entries up to height
`k`. -/
structure UnmapsPage (k vs ve p : ℕ) (r r' : Option (ℕ × Mapping)) : Prop where
  unmapped : r = none → r' = none
  kept : ∀ u, r = some u → Survives k u.1 vs ve p →
    MapsTo (keptHeight u.1 vs ve p) (leafDisp p u) u.2.attr p r'
  lost : ∀ u, r = some u → ¬Survives k u.1 vs ve p → r' = none

lemma unmapEntry_wf (hw : e.Wf 512 LeafOk k)
    (hop : unmapEntry alloc k n vs ve (e, h) = some (e', h')) : e'.Wf 512 LeafOk k := by
  induction k generalizing n e h e' h' with
  | zero =>
    cases hop
    exact Node.wf_empty
  | succ k ih =>
    cases e with
    | empty =>
      cases hop
      exact Node.wf_empty
    | leaf m =>
      rw [unmapEntry] at hop
      split_ifs at hop with hcov
      · cases hop
        exact Node.wf_empty
      · simp only [Option.bind_eq_some_iff, Option.map_eq_some_iff, remapAround_eq_some] at hop
        obtain ⟨q, -, z, ⟨y, hy, hz⟩, hop⟩ := hop
        cases hop
        exact Node.wf_table.mpr (mapTable_wf (mapTable_wf Entries.wf_empty hy) hz)
    | table q sub =>
      rw [unmapEntry, Option.map_eq_some_iff] at hop
      obtain ⟨y, hy, hop⟩ := hop
      have hyw := onTable_wf (Node.wf_table.mp hw) hy fun _ _ _ _ _ he hstep => ih he hstep
      split_ifs at hop with hcov
      · cases hop
        exact Node.wf_empty
      · cases hop
        exact Node.wf_table.mpr hyw

lemma unmapTable_wf (hx : x.1.Wf 512 LeafOk k) (hop : unmapTable alloc k N vs ve x = some y) :
    y.1.Wf 512 LeafOk k :=
  onTable_wf hx hop fun _ _ _ _ _ he hstep => unmapEntry_wf he hstep

/-- Mapping again what is left of a 1 GiB block makes tables of the entries that are cut. -/
lemma isTable_remapAround {δ δ' : ℕ} {attr attr' : PagesAttributes} {u : ℕ × Mapping}
    (hp : slot 512 2 p = n) (hp52 : lastPage 2 p < 2 ^ 52) (hve : ve < 2 ^ 52)
    (hy : mapTable alloc 1 n (lo 512 2 n) (prevPage vs) δ attr (.empty, h) = some y)
    (hz : mapTable alloc 1 n (nextPage ve) (entryVaStop 2 n) δ' attr' y = some z)
    (ht : Touches 2 vs ve p) (hcut : ¬Erased 2 vs ve p) (hu : z.1.find 512 1 p = some u) :
    IsTable (z.1 (slot 512 1 p % 512)) ↔ Cut 1 vs ve p := by
  have hempty : ¬IsTable ((.empty : Table) (slot 512 1 p % 512)) := id
  have hL : firstPage 2 p ≤ firstPage 1 p := firstPage_anti (by norm_num)
  have hE : lastPage 1 p ≤ lastPage 2 p := lastPage_mono (by norm_num)
  have hF : firstPage 1 p ≤ p := firstPage_le
  have hp₁ : p ≤ lastPage 1 p := le_lastPage
  have hnext : nextPage ve = (ve + 1) % 2 ^ 52 := rfl
  have hprev : prevPage vs = (vs + (2 ^ 52 - 1)) % 2 ^ 52 := rfl
  rw [Erased, hp] at hcut
  rw [touches_iff] at ht
  rw [mapTable_isTable hp hz, mapTable_isTable hp hy, touches_iff, touches_iff, Cut,
    ← firstPage_eq hp]
  by_cases hidx : slot 512 2 p % 512 = 0
  · have hstop : entryVaStop 2 n = lastPage 2 p := by
      rw [← hp]
      exact entryVaStop_of_first hidx
    rw [hstop] at hcut ⊢
    simp only [hempty, false_or]
    omega
  · have hstop : entryVaStop 2 n < firstPage 2 p := by
      rw [← hp]
      exact entryVaStop_lt hidx
    -- the part after the range is empty, so the page lies in the part before it
    have hbefore : firstPage 1 p ≤ prevPage vs := by
      by_contra hbefore
      have hzy := onTable_not_touches hz hp fun hc => by
        have := hc.firstPage_le
        omega
      have hyx := onTable_not_touches hy hp fun hc => hbefore hc.firstPage_le
      rw [Entries.find, hzy, hyx] at hu
      simp [Entries.empty] at hu
    simp only [hempty, false_or]
    omega

/-- Cutting a block: what is not mapped again is lost. -/
lemma UnmapsPage.split {rB rC : Option (ℕ × Mapping)}
    (hk : 1 ≤ k) (ht : Touches k vs ve p) (hcut : ¬Erased k vs ve p) (hp52 : p < 2 ^ 52)
    (hheight : ∀ u, rC = some u → u.1 = splitHeight k vs ve p)
    (hB : MapsPage (firstPage k p) (prevPage vs) (leafDisp p (k, m)) m.attr p none rB)
    (hC : MapsPage (nextPage ve) (entryVaStop k (slot 512 k p)) (leafDisp p (k, m)) m.attr p
      rB rC) :
    UnmapsPage k vs ve p (some (k, m)) rC := by
  have hL : firstPage k p ≤ p := firstPage_le
  by_cases hre : Remapped k vs ve p
  · refine ⟨by simp, ?_, ?_⟩
    · intro u hu _
      cases hu
      suffices hsuff : ∃ c, rC = some c ∧ Part (leafDisp p (k, m)) m.attr p c by
        obtain ⟨c, rfl, hc⟩ := hsuff
        rw [keptHeight, if_pos ht]
        exact ⟨c, rfl, hheight c rfl, hc⟩
      by_cases hbefore : p ≤ prevPage vs
      · obtain ⟨b, rfl, hb, -⟩ := hB.mapped hL hbefore (by simp)
        obtain ⟨c, hc, hpart, -⟩ := hC.of_part hp52 hb
        exact ⟨c, hc, hpart⟩
      · have hnone : rB = none := (hB.kept fun _ h₂ => absurd h₂ hbefore).none_left
        subst hnone
        obtain ⟨hnext, hstop⟩ := hre.resolve_left hbefore
        obtain ⟨c, hc, hpart, -⟩ := hC.mapped hnext hstop (by simp)
        exact ⟨c, hc, hpart⟩
    · intro u hu hlost
      cases hu
      refine absurd ⟨?_, fun _ => ⟨hk, hre⟩⟩ hlost
      intro i h₁ h₂ _
      obtain rfl : k = i := le_antisymm h₁ h₂
      exact hcut
  · have hlost : ¬Survives k k vs ve p := fun hsurv => hre (hsurv.2 ht).2
    simp only [Remapped, not_or, not_and] at hre
    have hnone : rB = none := (hB.kept fun _ h₂ => absurd h₂ hre.1).none_left
    subst hnone
    have hnone : rC = none := (hC.kept fun h₁ h₂ => absurd h₂ (hre.2 h₁)).none_left
    subst hnone
    refine ⟨fun _ => rfl, ?_, fun _ _ _ => rfl⟩
    intro u hu hsurv
    cases hu
    exact absurd hsurv hlost

/-- Emptying an entry loses what was mapped below it. -/
lemma UnmapsPage.erased {r : Option (ℕ × Mapping)} (hr : ∀ u, r = some u → u.1 ≤ k)
    (ht : Touches k vs ve p) (her : Erased k vs ve p) : UnmapsPage k vs ve p r none := by
  refine ⟨fun _ => rfl, ?_, fun _ _ _ => rfl⟩
  intro u hu hsurv
  exact absurd her (hsurv.1 k (hr u hu) le_rfl ht)

/-- An entry that is not emptied loses what its table loses. -/
lemma UnmapsPage.succ {r r' : Option (ℕ × Mapping)}
    (her : ¬Erased (k + 1) vs ve p) (hpage : UnmapsPage k vs ve p r r') :
    UnmapsPage (k + 1) vs ve p r r' := by
  have hiff : ∀ u, r = some u → (Survives (k + 1) u.1 vs ve p ↔ Survives k u.1 vs ve p) := by
    intro u hu
    refine and_congr_left fun _ => ⟨fun hs i h₁ h₂ => hs i h₁ (h₂.trans (Nat.le_succ k)), ?_⟩
    intro hs i h₁ h₂ ht
    rcases Nat.le_succ_iff.mp h₂ with h₂ | rfl
    · exact hs i h₁ h₂ ht
    · exact her
  refine ⟨hpage.unmapped, ?_, ?_⟩
  · exact fun u hu hs => hpage.kept u hu ((hiff u hu).mp hs)
  · exact fun u hu hs => hpage.lost u hu fun hs' => hs ((hiff u hu).mpr hs')

/-- A page whose entry is not reached survives. -/
lemma UnmapsPage.not_touched {r : Option (ℕ × Mapping)} (hp52 : p < 2 ^ 52)
    (hr : ∀ u, r = some u → u.1 ≤ k ∧ u.2.frame < 2 ^ 36) (ht : ¬Touches k vs ve p) :
    UnmapsPage k vs ve p r r := by
  refine ⟨id, ?_, ?_⟩
  · intro u hu _
    have htu : ¬Touches u.1 vs ve p := fun htu => ht (htu.mono (hr u hu).1)
    rw [keptHeight, if_neg htu]
    exact ⟨u, hu, rfl, part_self hp52 (hr u hu).2⟩
  intro u hu hlost
  refine absurd ⟨?_, ?_⟩ hlost
  · exact fun i _ hi hti => absurd (hti.mono hi) ht
  · exact fun htl => absurd (htl.mono (hr u hu).1) ht

lemma unmapTable_find_of_entry (hp52 : p < 2 ^ 52) (hw : x.1.Wf 512 LeafOk k)
    (hop : unmapTable alloc k N vs ve x = some y) (hp : slot 512 (k + 1) p = N)
    (hentry : ∀ e c e' c', e.Wf 512 LeafOk k → Touches k vs ve p →
      unmapEntry alloc k (slot 512 k p) vs ve (e, c) = some (e', c') →
      UnmapsPage k vs ve p (e.find 512 k p) (e'.find 512 k p)) :
    UnmapsPage k vs ve p (x.1.find 512 k p) (y.1.find 512 k p) := by
  have hwe := hw _ (Nat.mod_lt (slot 512 k p) (by norm_num : 0 < 512))
  by_cases ht : Touches k vs ve p
  · obtain ⟨c, c', hc⟩ := onTable_touches hop hp ht
    exact hentry _ _ _ _ hwe ht hc
  · have hsame : y.1.find 512 k p = x.1.find 512 k p := by
      rw [Entries.find, Entries.find, onTable_not_touches hop hp ht]
    rw [hsame]
    refine .not_touched hp52 ?_ ht
    exact fun u hu => ⟨Entries.find_height_le hu, (Entries.ok_of_find hw hu).2⟩

/-- What unmapping does to the pages of one entry. -/
lemma unmapEntry_find (hw : e.Wf 512 LeafOk k) (hve : ve < 2 ^ 52) (hp : slot 512 k p = n)
    (hp52 : lastPage k p < 2 ^ 52) (ht : Touches k vs ve p)
    (hop : unmapEntry alloc k n vs ve (e, h) = some (e', h')) :
    UnmapsPage k vs ve p (e.find 512 k p) (e'.find 512 k p) := by
  induction k generalizing n e h e' h' with
  | zero =>
    cases hop
    refine ⟨by simp, ?_, by simp⟩
    intro u hu hsurv
    have hu0 : u.1 = 0 := Nat.le_zero.mp (Node.find_height_le hu)
    rw [hu0] at hsurv
    exact absurd (hsurv.2 ht).1 (by norm_num)
  | succ k ih =>
    have hpp : p < 2 ^ 52 := lt_of_le_of_lt le_lastPage hp52
    have hlast : lastPage k p ≤ lastPage (k + 1) p := lastPage_mono (Nat.le_succ k)
    have herased : (vs ≤ lo 512 (k + 1) n ∧ entryVaStop (k + 1) n ≤ ve) ↔
        Erased (k + 1) vs ve p := by
      rw [Erased, firstPage_eq hp, hp]
    cases e with
    | empty =>
      cases hop
      exact ⟨by simp, by simp, by simp⟩
    | leaf m =>
      rw [unmapEntry] at hop
      split_ifs at hop with hcov
      · cases hop
        rw [Node.find_empty]
        exact .erased (fun u hu => Node.find_height_le hu) ht (herased.mp hcov)
      · simp only [Option.bind_eq_some_iff, Option.map_eq_some_iff, remapAround_eq_some] at hop
        obtain ⟨q, -, z, ⟨y, hy, hz⟩, hop⟩ := hop
        cases hop
        have hyw := mapTable_wf Entries.wf_empty hy
        have hlo : lo 512 (k + 1) n < 2 ^ 52 := by
          rw [← firstPage_eq hp]
          exact lt_of_le_of_lt firstPage_le hpp
        have hstop : entryVaStop (k + 1) n < 2 ^ 52 := by
          have hle : entryVaStop (k + 1) n ≤ hi 512 (k + 1) n :=
            hi_le_hi (Nat.div_mul_le_self n 512)
          rw [← lastPage_eq hp] at hle
          exact lt_of_le_of_lt hle hp52
        have hB := mapTable_find Entries.wf_empty hlo (Nat.mod_lt _ (by norm_num)) hp hp52 hy
        have hC := mapTable_find hyw (Nat.mod_lt _ (by norm_num)) hstop hp hp52 hz
        rw [Node.find_leaf, Node.find_table]
        rw [Entries.find_empty] at hB
        rw [← firstPage_eq hp] at hB hC
        rw [← hp] at hC
        have hcut : ¬Erased (k + 1) vs ve p := fun her => hcov (herased.mpr her)
        have hk : k ≤ 1 := Nat.le_of_succ_le_succ (Node.wf_leaf.mp hw).1
        refine .split (Nat.succ_pos k) ht hcut hpp ?_ hB hC
        intro u hu
        refine height_of_isTable hk hu ?_
        rintro rfl
        exact isTable_remapAround hp hp52 hve hy hz ht hcut hu
    | table q sub =>
      rw [unmapEntry, Option.map_eq_some_iff] at hop
      obtain ⟨y, hy, hop⟩ := hop
      have hw' := Node.wf_table.mp hw
      have hsub : UnmapsPage k vs ve p (Entries.find 512 k sub p) (y.1.find 512 k p) := by
        refine unmapTable_find_of_entry hpp hw' hy hp fun e c e' c' he ht hstep => ?_
        exact ih he rfl (lt_of_le_of_lt hlast hp52) ht hstep
      rw [Node.find_table]
      split_ifs at hop with hcov
      · cases hop
        rw [Node.find_empty]
        refine .erased (fun u hu => ?_) ht (herased.mp hcov)
        exact (Entries.find_height_le hu).trans (Nat.le_succ k)
      · cases hop
        rw [Node.find_table]
        exact hsub.succ fun her => hcov (herased.mpr her)

/-- What unmapping does to the pages of a table. -/
lemma unmapTable_find (hw : x.1.Wf 512 LeafOk k) (hve : ve < 2 ^ 52) (hp : slot 512 (k + 1) p = N)
    (hp52 : lastPage (k + 1) p < 2 ^ 52) (hop : unmapTable alloc k N vs ve x = some y) :
    UnmapsPage k vs ve p (x.1.find 512 k p) (y.1.find 512 k p) := by
  have hlast : lastPage k p ≤ lastPage (k + 1) p := lastPage_mono (Nat.le_succ k)
  refine unmapTable_find_of_entry (lt_of_le_of_lt le_lastPage hp52) hw hop hp ?_
  intro e c e' c' he ht hstep
  exact unmapEntry_find he hve rfl (lt_of_le_of_lt hlast hp52) ht hstep

/-! ### When unmapping is exact -/

/-- The condition under which unmapping the pages from `vs` to `ve` removes these pages and no
others: the range does not stop inside an entry that is not the first of its table, unless the
rest of this entry maps nothing, and a block that holds both a page of the range and a page
next to it is not mapped again through an end of the range that wraps around. -/
structure UnmapsExactly (t : Table) (vs ve : ℕ) : Prop where
  rest : ∀ i p u, 1 ≤ i → i ≤ 3 → slot 512 i ve % 512 ≠ 0 → vs ≤ firstPage i ve → ve < p →
    p ≤ lastPage i ve → t.find 512 3 p = some u → i < u.1
  last : ∀ u, t.find 512 3 ve = some u → ve < lastPage u.1 ve →
    slot 512 u.1 ve % 512 = 0 ∧ vs ≠ 0
  first : ve = 2 ^ 52 - 1 → ∀ u, t.find 512 3 vs = some u → firstPage u.1 vs < vs →
    slot 512 u.1 vs % 512 ≠ 0

lemma slot_eq_of_mem {a c : ℕ} (h₁ : firstPage k a ≤ c) (h₂ : c ≤ lastPage k a) :
    slot 512 k a = slot 512 k c :=
  (slot_eq_iff.mpr ⟨h₁, h₂⟩).symm

lemma firstPage_congr {a c : ℕ} (hac : slot 512 k a = slot 512 k c) :
    firstPage k a = firstPage k c := by
  rw [firstPage, hac, firstPage]

lemma lastPage_congr {a c : ℕ} (hac : slot 512 k a = slot 512 k c) :
    lastPage k a = lastPage k c := by
  rw [lastPage, hac, lastPage]

/-- An entry that is not the first of its table is emptied when the range starts before it. -/
lemma erased_of_index (hi : slot 512 k p % 512 ≠ 0) (hfirst : vs ≤ firstPage k p)
    (hle : firstPage k p ≤ ve) : Erased k vs ve p :=
  ⟨hfirst, (entryVaStop_lt hi).le.trans hle⟩

/-- What is left of a range's own pages, and what is lost of the others. -/
lemma UnmapsExactly.survives_iff {t : Table} (hc : UnmapsExactly t vs ve) (hv : vs ≤ ve)
    {u : ℕ × Mapping} (hf : t.find 512 3 p = some u) (hve : ve < 2 ^ 52)
    (hp52 : lastPage 3 p < 2 ^ 52) :
    Survives 3 u.1 vs ve p ↔ ¬(vs ≤ p ∧ p ≤ ve) := by
  have hu3 : u.1 ≤ 3 := Entries.find_height_le hf
  have hpp : p < 2 ^ 52 := lt_of_le_of_lt le_lastPage hp52
  constructor
  · rintro ⟨hkept, hmapped⟩ ⟨h₁, h₂⟩
    obtain ⟨hu1, hre⟩ := hmapped (touches_of_mem h₁ h₂)
    have hnot := hkept u.1 le_rfl hu3 (touches_of_mem h₁ h₂)
    rcases hre with hprev | ⟨hnext, hstop⟩
    · have hvs : vs = 0 := by
        rw [prevPage] at hprev
        omega
      have hidx : slot 512 u.1 p % 512 = 0 := by
        by_contra hidx
        exact hnot (erased_of_index hidx (hvs ▸ Nat.zero_le _) (firstPage_le.trans h₂))
      have hlast : ve < lastPage u.1 p := by
        by_contra hlast
        rw [not_lt] at hlast
        refine hnot ⟨hvs ▸ Nat.zero_le _, ?_⟩
        rwa [entryVaStop_of_first hidx]
      have hslot : slot 512 u.1 p = slot 512 u.1 ve :=
        slot_eq_of_mem (firstPage_le.trans h₂) hlast.le
      rw [lastPage_congr hslot] at hlast
      exact (hc.last u (Entries.find_congr hf hslot) hlast).2 hvs
    · have hmax : ve = 2 ^ 52 - 1 := by
        rw [nextPage] at hnext
        omega
      have hidx : slot 512 u.1 p % 512 = 0 := by
        by_contra hidx
        exact absurd (hstop.trans_lt (entryVaStop_lt hidx)) (not_lt.mpr firstPage_le)
      have hfirst : firstPage u.1 p < vs := by
        by_contra hfirst
        refine hnot ⟨not_lt.mp hfirst, ?_⟩
        rw [entryVaStop_of_first hidx]
        have : lastPage u.1 p ≤ lastPage 3 p := lastPage_mono hu3
        rw [lastPage] at this
        omega
      have hslot : slot 512 u.1 p = slot 512 u.1 vs := slot_eq_of_mem hfirst.le (h₁.trans le_lastPage)
      rw [firstPage_congr hslot] at hfirst
      refine hc.first hmax u (Entries.find_congr hf hslot) hfirst ?_
      rwa [← hslot]
  · intro hout
    by_cases hbefore : p < vs
    · -- an entry that reaches below the range is cut, and its part below the range stays
      refine ⟨fun i _ _ _ her => ?_, fun ht => ⟨?_, .inl ?_⟩⟩
      · exact absurd (her.1.trans firstPage_le) (not_le.mpr hbefore)
      · rw [Nat.succ_le_iff, Nat.pos_iff_ne_zero]
        intro hu0
        rw [hu0, touches_zero] at ht
        exact absurd ht.1 (not_le.mpr hbefore)
      · rw [prevPage]
        omega
    · have hafter : ve < p := by
        by_contra hle
        exact hout ⟨not_lt.mp hbefore, not_lt.mp hle⟩
      -- such an entry holds the last page of the range
      have hsame : ∀ i, Touches i vs ve p → slot 512 i p = slot 512 i ve := fun i ht =>
        le_antisymm ht.2.2 (slot_le_slot hafter.le)
      refine ⟨fun i hi hi3 ht her => ?_, fun ht => ?_⟩
      · have hslot := hsame i ht
        have hidx : slot 512 i ve % 512 ≠ 0 := by
          intro hidx
          have hstop := her.2
          rw [hslot, entryVaStop_of_first hidx, ← hslot] at hstop
          exact absurd (le_lastPage.trans hstop) (not_le.mpr hafter)
        have hi1 : 1 ≤ i := by
          rw [Nat.succ_le_iff, Nat.pos_iff_ne_zero]
          rintro rfl
          rw [touches_zero] at ht
          exact absurd ht.2 (not_le.mpr hafter)
        have hlt := hc.rest i p u hi1 hi3 hidx (firstPage_congr hslot ▸ her.1) hafter
          (lastPage_congr hslot ▸ le_lastPage) hf
        exact absurd hi (not_le.mpr hlt)
      · have hslot := hsame u.1 ht
        have hlast : ve < lastPage u.1 ve := lastPage_congr hslot ▸ hafter.trans_le le_lastPage
        obtain ⟨hidx, -⟩ := hc.last u (Entries.find_congr hf hslot) hlast
        refine ⟨?_, .inr ⟨?_, ?_⟩⟩
        · rw [Nat.succ_le_iff, Nat.pos_iff_ne_zero]
          intro hu0
          rw [hu0, touches_zero] at ht
          exact absurd ht.2 (not_le.mpr hafter)
        · rw [nextPage]
          omega
        · rw [hslot, entryVaStop_of_first hidx, ← hslot]
          exact le_lastPage

/-- When the condition fails, a page of the range is left mapped, or another page is lost. -/
lemma unmapsExactly_of_survives_iff {t : Table} (hv : vs ≤ ve) (hve : lastPage 4 ve < 2 ^ 52)
    (hN : slot 512 4 vs = slot 512 4 ve)
    (hs : ∀ p u, slot 512 4 p = slot 512 4 ve → t.find 512 3 p = some u →
      (Survives 3 u.1 vs ve p ↔ ¬(vs ≤ p ∧ p ≤ ve))) : UnmapsExactly t vs ve := by
  have hve52 : ve < 2 ^ 52 := lt_of_le_of_lt le_lastPage hve
  constructor
  · intro i p u hi1 hi3 hidx hfirst hp hpl hf
    by_contra hle
    have hslot : slot 512 i ve = slot 512 i p := slot_eq_of_mem (firstPage_le.trans hp.le) hpl
    have hsurv := (hs p u (slot_eq_of_le (by omega) hslot).symm hf).mpr
      fun hmem => absurd hmem.2 (not_le.mpr hp)
    refine hsurv.1 i (not_lt.mp hle) hi3 ⟨hv, slot_le_slot (hv.trans hp.le), hslot.ge⟩ ?_
    rw [hslot] at hidx
    rw [firstPage_congr hslot] at hfirst
    exact erased_of_index hidx hfirst (firstPage_congr hslot ▸ firstPage_le)
  · intro u hf hlast
    have hu3 : u.1 ≤ 3 := Entries.find_height_le hf
    have hslot : slot 512 u.1 ve = slot 512 u.1 (ve + 1) :=
      slot_eq_of_mem (firstPage_le.trans (Nat.le_succ _)) hlast
    -- the next page survives, as it is in the same leaf and outside of the range
    obtain ⟨hkept, hmapped⟩ := (hs (ve + 1) u (slot_eq_of_le (by omega) hslot).symm
      (Entries.find_congr hf hslot)).mpr fun hmem => absurd hmem.2 (by omega)
    have ht : Touches u.1 vs ve (ve + 1) := ⟨hv, slot_le_slot (by omega), hslot.ge⟩
    have hidx : slot 512 u.1 ve % 512 = 0 := by
      by_contra hidx
      rw [hslot] at hidx
      have hlt := entryVaStop_lt (k := u.1) hidx
      obtain ⟨-, hprev | ⟨-, hstop⟩⟩ := hmapped ht
      · have hvs : vs = 0 := by
          rw [prevPage] at hprev
          omega
        refine hkept u.1 le_rfl hu3 ht (erased_of_index hidx (hvs ▸ Nat.zero_le _) ?_)
        exact firstPage_congr hslot ▸ firstPage_le
      · exact absurd (hstop.trans_lt hlt) (not_lt.mpr firstPage_le)
    refine ⟨hidx, fun hvs => ?_⟩
    -- the range starts at page 0, and its own last page is mapped again
    have hsurv : Survives 3 u.1 vs ve ve := by
      refine ⟨fun i hi hi3 _ her => ?_, fun _ => ⟨(hmapped ht).1, .inl ?_⟩⟩
      · have hslot' : slot 512 i ve = slot 512 i (ve + 1) := slot_eq_of_le hi hslot
        refine hkept i hi hi3 ⟨hv, slot_le_slot (by omega), hslot'.ge⟩ ?_
        rw [Erased, ← hslot', ← firstPage_congr hslot']
        exact her
      · rw [hvs, prevPage]
        omega
    exact (hs ve u rfl hf).mp hsurv ⟨hv, le_rfl⟩
  · intro hmax u hf hfirst hidx
    have hu3 : u.1 ≤ 3 := Entries.find_height_le hf
    refine (hs vs u hN hf).mp ⟨fun i hi _ _ her => ?_, fun _ => ⟨?_, .inr ⟨?_, ?_⟩⟩⟩ ⟨le_rfl, hv⟩
    · have : firstPage i vs ≤ firstPage u.1 vs := firstPage_anti hi
      exact absurd (her.1.trans this) (not_le.mpr hfirst)
    · rw [Nat.succ_le_iff, Nat.pos_iff_ne_zero]
      intro hu0
      rw [hu0, firstPage_zero] at hfirst
      exact lt_irrefl _ hfirst
    · rw [hmax, nextPage]
      norm_num
    · rw [entryVaStop_of_first hidx]
      exact le_lastPage

end PiKachulm.Mmu

import PiKachulm.Mmu.Walk

/-!
# What mapping a range does to each page

`mapEntry` and `mapTable` map the pages of their range, except those that lie in a block which the
range cuts and whose remains are mapped again over the whole block because an end of the range
wraps around (`Clobbered`); every other page is kept.
-/

namespace PiKachulm.Mmu

open Core

variable {alloc : AllocFun} {k n N p vs ve δ : ℕ} {attr : PagesAttributes} {e e' : PageTree}
  {h h' : History VirtualPA} {x y z : Table × History VirtualPA} {m : Mapping}

/-! ### Well-formedness -/

lemma onTable_wf {op : ℕ → PageTree × History VirtualPA → Option (PageTree × History VirtualPA)}
    (hx : x.1.Wf 512 LeafOk k) (hop : onTable k N vs ve op x = some y)
    (hstep : ∀ n e c e' c', e.Wf 512 LeafOk k → op n (e, c) = some (e', c') →
      e'.Wf 512 LeafOk k) : y.1.Wf 512 LeafOk k := by
  rw [onTable] at hop
  split at hop
  · cases hop
    exact hx
  · intro i hi
    obtain ⟨hout, hin⟩ := updateCells_cell nodup_touched hop
    by_cases hmem : i ∈ touched k N vs ve
    · obtain ⟨c, c', hc⟩ := hin i hmem
      exact hstep _ _ _ _ _ (hx i hi) hc
    · rw [hout i hmem]
      exact hx i hi

lemma remapAround_eq_some {stop : ℕ} :
    remapAround alloc k n vs ve stop m x = some z ↔ ∃ y,
      mapTable alloc k n (lo 512 (k + 1) n) (prevPage vs)
        (displacement m.frame (lo 512 (k + 1) n)) m.attr x = some y ∧
      mapTable alloc k n (nextPage ve) stop
        (displacement m.frame (lo 512 (k + 1) n)) m.attr y = some z :=
  Option.bind_eq_some_iff

lemma mapEntry_wf (hw : e.Wf 512 LeafOk k)
    (hop : mapEntry alloc k n vs ve δ attr (e, h) = some (e', h')) : e'.Wf 512 LeafOk k := by
  induction k generalizing n vs ve δ attr e h e' h' with
  | zero =>
    rw [mapEntry_zero] at hop
    cases hop
    exact Node.wf_leaf.mpr ⟨by norm_num, Nat.mod_lt _ (by norm_num)⟩
  | succ k ih =>
    have htable : ∀ {vs ve δ attr} {x y : Table × History VirtualPA}, x.1.Wf 512 LeafOk k →
        mapTable alloc k n vs ve δ attr x = some y → y.1.Wf 512 LeafOk k :=
      fun hx hmap => onTable_wf hx hmap fun _ _ _ _ _ he hop => ih he hop
    have hleaf : k + 1 ≤ 2 →
        (Node.leaf ⟨(lo 512 (k + 1) n + δ) % 2 ^ 36, attr⟩ : PageTree).Wf 512 LeafOk (k + 1) :=
      fun hk => Node.wf_leaf.mpr ⟨hk, Nat.mod_lt _ (by norm_num)⟩
    cases e with
    | empty =>
      rw [mapEntry_empty] at hop
      split_ifs at hop with hcov
      · cases hop
        exact hleaf hcov.2.2
      · simp only [Option.bind_eq_some_iff, Option.map_eq_some_iff] at hop
        obtain ⟨q, -, x, hx, hop⟩ := hop
        cases hop
        exact Node.wf_table.mpr (htable Entries.wf_empty hx)
    | leaf m =>
      rw [mapEntry_leaf] at hop
      split_ifs at hop with hcov
      · cases hop
        exact hleaf hcov.2.2
      · simp only [Option.bind_eq_some_iff, Option.map_eq_some_iff, remapAround_eq_some] at hop
        obtain ⟨q, -, z, ⟨x, hx, y, hy, hz⟩, hop⟩ := hop
        cases hop
        exact Node.wf_table.mpr (htable (htable (htable Entries.wf_empty hx) hy) hz)
    | table q sub =>
      rw [mapEntry_table, Option.map_eq_some_iff] at hop
      obtain ⟨x, hx, hop⟩ := hop
      cases hop
      exact Node.wf_table.mpr (htable (Node.wf_table.mp hw) hx)

lemma mapTable_wf (hx : x.1.Wf 512 LeafOk k)
    (hop : mapTable alloc k N vs ve δ attr x = some y) : y.1.Wf 512 LeafOk k :=
  onTable_wf hx hop fun _ _ _ _ _ he hstep => mapEntry_wf he hstep

/-! ### Pages -/

/-- A range that cuts the slot of height `k` of page `p`, and whose end outside of it is next to
an address that wraps around. -/
def Clobbered (k vs ve p : ℕ) : Prop :=
  (vs = 0 ∧ ve < lastPage k p) ∨ (ve = 2 ^ 52 - 1 ∧ firstPage k p < vs)

/-- The effect of mapping the pages from `vs` to `ve` on page `p`, found as `r` before and as
`r'` after. -/
structure MapsPage (vs ve δ : ℕ) (attr : PagesAttributes) (p : ℕ)
    (r r' : Option (ℕ × Mapping)) : Prop where
  mapped : vs ≤ p → p ≤ ve → (∀ x, r = some x → ¬Clobbered x.1 vs ve p) →
    ∃ x', r' = some x' ∧ Part δ attr p x' ∧ vs ≤ firstPage x'.1 p ∧ lastPage x'.1 p ≤ ve ∧
      ∀ x, r = some x → x'.1 ≤ x.1
  kept : (vs ≤ p → p ≤ ve → ∃ x, r = some x ∧ Clobbered x.1 vs ve p) → Keeps p r r'
  inside : vs ≤ p → p ≤ ve → ∀ x', r' = some x' → vs ≤ firstPage x'.1 p ∧ lastPage x'.1 p ≤ ve

lemma MapsPage.of_keeps {r r' : Option (ℕ × Mapping)} (hp : ¬(vs ≤ p ∧ p ≤ ve))
    (hr : Keeps p r r') : MapsPage vs ve δ attr p r r' :=
  ⟨fun h₁ h₂ => absurd ⟨h₁, h₂⟩ hp, fun _ => hr, fun h₁ h₂ => absurd ⟨h₁, h₂⟩ hp⟩

/-- A mapped page stays mapped, by a leaf that is no larger. -/
lemma MapsPage.of_some {u : ℕ × Mapping} {r' : Option (ℕ × Mapping)}
    (hmap : MapsPage vs ve δ attr p (some u) r') : ∃ u', r' = some u' ∧ u'.1 ≤ u.1 := by
  by_cases hin : vs ≤ p ∧ p ≤ ve ∧ ¬Clobbered u.1 vs ve p
  · obtain ⟨h₁, h₂, hc⟩ := hin
    obtain ⟨u', hu', -, -, -, hle⟩ := hmap.mapped h₁ h₂ fun w hw => by cases hw; exact hc
    exact ⟨u', hu', hle u rfl⟩
  · have hkeep := hmap.kept fun h₁ h₂ =>
      ⟨u, rfl, by_contra fun hc => hin ⟨h₁, h₂, hc⟩⟩
    obtain ⟨u', hu', hle, -⟩ := hkeep.some_left
    exact ⟨u', hu', hle⟩

/-- What holds of every entry of a table holds of the table. -/
lemma mapTable_find_of_entry (hp52 : p < 2 ^ 52) (hw : x.1.Wf 512 LeafOk k)
    (hop : mapTable alloc k N vs ve δ attr x = some y) (hp : slot 512 (k + 1) p = N)
    (hentry : ∀ e c e' c', e.Wf 512 LeafOk k → Touches k vs ve p →
      mapEntry alloc k (slot 512 k p) vs ve δ attr (e, c) = some (e', c') →
      MapsPage vs ve δ attr p (e.find 512 k p) (e'.find 512 k p)) :
    MapsPage vs ve δ attr p (x.1.find 512 k p) (y.1.find 512 k p) := by
  have hwe := hw _ (Nat.mod_lt (slot 512 k p) (by norm_num : 0 < 512))
  by_cases ht : Touches k vs ve p
  · obtain ⟨c, c', hc⟩ := onTable_touches hop hp ht
    exact hentry _ _ _ _ hwe ht hc
  · have hsame : y.1.find 512 k p = x.1.find 512 k p := by
      rw [Entries.find, Entries.find, onTable_not_touches hop hp ht]
    rw [hsame]
    refine .of_keeps (fun hmem => ht (touches_of_mem hmem.1 hmem.2)) (.refl hp52 ?_)
    exact fun z hz => (Entries.ok_of_find hw hz).2

/-- Mapping over a leaf with the same displacement and attributes changes nothing. -/
lemma MapsPage.of_part {u : ℕ × Mapping} {r' : Option (ℕ × Mapping)} (hp52 : p < 2 ^ 52)
    (hmap : MapsPage vs ve δ attr p (some u) r') (hu : Part δ attr p u) :
    ∃ u', r' = some u' ∧ Part δ attr p u' ∧ u'.1 ≤ u.1 := by
  by_cases hin : vs ≤ p ∧ p ≤ ve ∧ ¬Clobbered u.1 vs ve p
  · obtain ⟨h₁, h₂, hc⟩ := hin
    obtain ⟨u', rfl, hu', -, -, hle⟩ := hmap.mapped h₁ h₂ fun w hw => by cases hw; exact hc
    exact ⟨u', rfl, hu', hle u rfl⟩
  · have hkeep := hmap.kept fun h₁ h₂ =>
      ⟨u, rfl, by_contra fun hc => hin ⟨h₁, h₂, hc⟩⟩
    obtain ⟨u', rfl, hle, hpart⟩ := hkeep.some_left
    exact ⟨u', rfl, hu.trans hp52 hpart, hle⟩

/-- Cutting a block: map the range in a new table, then what the block covered before it, then
what it covered after it. -/
lemma MapsPage.split {rA rB rC : Option (ℕ × Mapping)} (hH52 : lastPage k p < 2 ^ 52)
    (hvs : vs < 2 ^ 52) (hve : ve < 2 ^ 52)
    (hcut : ¬(vs ≤ firstPage k p ∧ lastPage k p ≤ ve))
    (hkA : ∀ u, rA = some u → u.1 ≤ k) (hkC : ∀ u, rC = some u → u.1 ≤ k)
    (hA : MapsPage vs ve δ attr p none rA)
    (hB : MapsPage (firstPage k p) (prevPage vs) (leafDisp p (k, m)) m.attr p rA rB)
    (hC : MapsPage (nextPage ve) (lastPage k p) (leafDisp p (k, m)) m.attr p rB rC) :
    MapsPage vs ve δ attr p (some (k, m)) rC := by
  have hL : firstPage k p ≤ p := firstPage_le
  have hH : p ≤ lastPage k p := le_lastPage
  have hp52 : p < 2 ^ 52 := lt_of_le_of_lt hH hH52
  refine ⟨?_, ?_, ?_⟩
  · intro h₁ h₂ hclob
    have hclob := hclob _ rfl
    simp only [Clobbered, not_or, not_and, not_lt] at hclob
    obtain ⟨a, rfl, ha, hfirst, hlast, -⟩ := hA.mapped h₁ h₂ (by simp)
    -- neither remainder of the block contains `p`
    have hkeepB := hB.kept fun _ hprev => by
      exfalso
      rw [prevPage] at hprev
      have hvs0 : vs = 0 := by omega
      exact hcut ⟨by omega, hclob.1 hvs0⟩
    obtain ⟨b, rfl, hba, hb⟩ := hkeepB.some_left
    have hkeepC := hC.kept fun hnext _ => by
      exfalso
      rw [nextPage] at hnext
      have hvemax : ve = 2 ^ 52 - 1 := by omega
      exact hcut ⟨hclob.2 hvemax, by omega⟩
    obtain ⟨c, rfl, hcb, hc⟩ := hkeepC.some_left
    refine ⟨c, rfl, (ha.trans hp52 hb).trans hp52 hc, ?_, ?_, ?_⟩
    · exact hfirst.trans (firstPage_anti (hcb.trans hba))
    · exact (lastPage_mono (hcb.trans hba)).trans hlast
    · intro u hu
      cases hu
      exact hkC c rfl
  · intro hin
    suffices hsuff : ∃ c, rC = some c ∧ Part (leafDisp p (k, m)) m.attr p c by
      obtain ⟨c, rfl, hc⟩ := hsuff
      exact .mapped (hkC c rfl) hc
    -- once the old mapping is back on `p`, the rest of the remapping leaves it there
    have hlater : ∀ b, rB = some b → Part (leafDisp p (k, m)) m.attr p b →
        ∃ c, rC = some c ∧ Part (leafDisp p (k, m)) m.attr p c := by
      rintro b rfl hb
      obtain ⟨c, hc, hpart, -⟩ := hC.of_part hp52 hb
      exact ⟨c, hc, hpart⟩
    by_cases hmem : vs ≤ p ∧ p ≤ ve
    · obtain ⟨u, hu, hclob⟩ := hin hmem.1 hmem.2
      cases hu
      obtain ⟨a, rfl, ha, hfirst, hlast, -⟩ := hA.mapped hmem.1 hmem.2 (by simp)
      have hak := hkA a rfl
      rcases hclob with ⟨rfl, hcut'⟩ | ⟨rfl, hcut'⟩
      · -- the range before the block wraps around, and takes in the whole block
        have hprev : prevPage 0 = 2 ^ 52 - 1 := rfl
        obtain ⟨b, hb, hpart, -⟩ := hB.mapped hL (by omega) fun u hu => by
          cases hu
          have := firstPage_anti (p := p) hak
          simp only [Clobbered, not_or, not_and]
          omega
        exact hlater b hb hpart
      · -- the range after the block wraps around
        have hnext : nextPage (2 ^ 52 - 1) = 0 := rfl
        have hkeepB := hB.kept fun _ hprev => by
          exfalso
          rw [prevPage] at hprev
          omega
        obtain ⟨b, rfl, hba, -⟩ := hkeepB.some_left
        obtain ⟨c, hc, hpart, -⟩ := hC.mapped (by omega) hH fun u hu => by
          cases hu
          have := lastPage_mono (p := p) (hba.trans hak)
          simp only [Clobbered, not_or, not_and]
          omega
        exact ⟨c, hc, hpart⟩
    · have hnone : rA = none := (hA.kept fun h₁ h₂ => absurd ⟨h₁, h₂⟩ hmem).none_left
      subst hnone
      by_cases hbefore : p ≤ prevPage vs
      · obtain ⟨b, hb, hpart, -⟩ := hB.mapped hL hbefore (by simp)
        exact hlater b hb hpart
      · have hnone : rB = none := (hB.kept fun _ h₂ => absurd h₂ hbefore).none_left
        subst hnone
        have hafter : nextPage ve ≤ p := by
          rw [prevPage] at hbefore
          rw [nextPage]
          omega
        obtain ⟨c, hc, hpart, -⟩ := hC.mapped hafter hH (by simp)
        exact ⟨c, hc, hpart⟩
  · intro h₁ h₂ u hu
    obtain ⟨a, rfl, -, hfirst, hlast, -⟩ := hA.mapped h₁ h₂ (by simp)
    obtain ⟨b, rfl, hba⟩ := hB.of_some
    obtain ⟨c, hc, hcb⟩ := hC.of_some
    rw [hc, Option.some.injEq] at hu
    subst hu
    refine ⟨hfirst.trans (firstPage_anti (hcb.trans hba)), ?_⟩
    exact (lastPage_mono (hcb.trans hba)).trans hlast

/-- Writing one leaf over a slot that the range contains. -/
lemma MapsPage.whole {r : Option (ℕ × Mapping)} (hr : ∀ u, r = some u → u.1 = k)
    (hfirst : vs ≤ firstPage k p) (hlast : lastPage k p ≤ ve) :
    MapsPage vs ve δ attr p r (some (k, ⟨(firstPage k p + δ) % 2 ^ 36, attr⟩)) := by
  refine ⟨?_, ?_, ?_⟩
  · intro _ _ _
    exact ⟨_, rfl, ⟨rfl, rfl⟩, hfirst, hlast, fun u hu => (hr u hu).ge⟩
  · intro hin
    obtain ⟨u, hu, hclob⟩ := hin (hfirst.trans firstPage_le) (le_lastPage.trans hlast)
    rw [Clobbered, hr u hu] at hclob
    omega
  · intro _ _ u hu
    cases hu
    exact ⟨hfirst, hlast⟩

/-- What mapping does to the pages of one entry. -/
lemma mapEntry_find (hw : e.Wf 512 LeafOk k) (hvs : vs < 2 ^ 52) (hve : ve < 2 ^ 52)
    (hp : slot 512 k p = n) (hp52 : lastPage k p < 2 ^ 52) (ht : Touches k vs ve p)
    (hop : mapEntry alloc k n vs ve δ attr (e, h) = some (e', h')) :
    MapsPage vs ve δ attr p (e.find 512 k p) (e'.find 512 k p) := by
  induction k generalizing n vs ve δ attr e h e' h' with
  | zero =>
    rw [mapEntry_zero] at hop
    cases hop
    rw [slot_zero] at hp
    subst hp
    rw [touches_zero] at ht
    have hwhole : MapsPage vs ve δ attr p (e.find 512 0 p)
        (some (0, ⟨(firstPage 0 p + δ) % 2 ^ 36, attr⟩)) := .whole
      (fun u hu => Nat.le_zero.mp (Node.find_height_le (e := e) (b := 512) (p := p) hu))
      (by simpa using ht.1) (by simpa using ht.2)
    simpa using hwhole
  | succ k ih =>
    have hlast : lastPage k p ≤ lastPage (k + 1) p := lastPage_mono (Nat.le_succ k)
    -- the tables below this entry, by the induction hypothesis on their entries
    have htable : ∀ {vs ve δ attr} {x y : Table × History VirtualPA}, vs < 2 ^ 52 → ve < 2 ^ 52 →
        x.1.Wf 512 LeafOk k → mapTable alloc k n vs ve δ attr x = some y →
        MapsPage vs ve δ attr p (x.1.find 512 k p) (y.1.find 512 k p) := by
      intro vs ve δ attr x y hvs hve hx hmap
      have hpp : p < 2 ^ 52 := lt_of_le_of_lt le_lastPage hp52
      refine mapTable_find_of_entry hpp hx hmap hp fun e c e' c' he ht hstep => ?_
      exact ih he hvs hve rfl (lt_of_le_of_lt hlast hp52) ht hstep
    have hwrite : vs ≤ lo 512 (k + 1) n → hi 512 (k + 1) n ≤ ve →
        ∀ r : Option (ℕ × Mapping), (∀ u, r = some u → u.1 = k + 1) →
        MapsPage vs ve δ attr p r
          (some (k + 1, ⟨(lo 512 (k + 1) n + δ) % 2 ^ 36, attr⟩)) := by
      intro h₁ h₂ r hr
      rw [← firstPage_eq hp] at h₁ ⊢
      rw [← lastPage_eq hp] at h₂
      exact .whole hr h₁ h₂
    cases e with
    | empty =>
      rw [mapEntry_empty] at hop
      split_ifs at hop with hcov
      · cases hop
        simpa using hwrite hcov.1 hcov.2.1 none (by simp)
      · simp only [Option.bind_eq_some_iff, Option.map_eq_some_iff] at hop
        obtain ⟨q, -, x, hx, hop⟩ := hop
        cases hop
        simpa using htable hvs hve Entries.wf_empty hx
    | leaf m =>
      rw [mapEntry_leaf] at hop
      split_ifs at hop with hcov
      · cases hop
        simpa using hwrite hcov.1 hcov.2.1 (some (k + 1, m)) (by simp)
      · simp only [Option.bind_eq_some_iff, Option.map_eq_some_iff, remapAround_eq_some] at hop
        obtain ⟨q, -, z, ⟨x, hx, y, hy, hz⟩, hop⟩ := hop
        cases hop
        have hxw := mapTable_wf Entries.wf_empty hx
        have hyw := mapTable_wf hxw hy
        have hlo : lo 512 (k + 1) n < 2 ^ 52 := by
          rw [← firstPage_eq hp]
          exact lt_of_le_of_lt (firstPage_le.trans le_lastPage) hp52
        have hA := htable hvs hve Entries.wf_empty hx
        have hB := htable hlo (Nat.mod_lt _ (by norm_num)) hxw hy
        have hC := htable (Nat.mod_lt _ (by norm_num)) (by rwa [← lastPage_eq hp]) hyw hz
        rw [Node.find_leaf, Node.find_table]
        rw [Entries.find_empty] at hA
        rw [← firstPage_eq hp] at hB hC
        rw [← lastPage_eq hp] at hC
        have hkm : k + 1 ≤ 2 := (Node.wf_leaf.mp hw).1
        refine .split hp52 hvs hve ?_ ?_ ?_ hA hB hC
        · rintro ⟨h₁, h₂⟩
          rw [firstPage_eq hp] at h₁
          rw [lastPage_eq hp] at h₂
          exact hcov ⟨h₁, h₂, hkm⟩
        · exact fun u hu => (Entries.find_height_le hu).trans (Nat.le_succ k)
        · exact fun u hu => (Entries.find_height_le hu).trans (Nat.le_succ k)
    | table q sub =>
      rw [mapEntry_table, Option.map_eq_some_iff] at hop
      obtain ⟨x, hx, hop⟩ := hop
      cases hop
      simpa using htable hvs hve (Node.wf_table.mp hw) hx

/-- What mapping does to the pages of a table. -/
lemma mapTable_find (hw : x.1.Wf 512 LeafOk k) (hvs : vs < 2 ^ 52) (hve : ve < 2 ^ 52)
    (hp : slot 512 (k + 1) p = N) (hp52 : lastPage (k + 1) p < 2 ^ 52)
    (hop : mapTable alloc k N vs ve δ attr x = some y) :
    MapsPage vs ve δ attr p (x.1.find 512 k p) (y.1.find 512 k p) := by
  have hlast : lastPage k p ≤ lastPage (k + 1) p := lastPage_mono (Nat.le_succ k)
  refine mapTable_find_of_entry (lt_of_le_of_lt le_lastPage hp52) hw hop hp ?_
  intro e c e' c' he ht hstep
  exact mapEntry_find he hvs hve rfl (lt_of_le_of_lt hlast hp52) ht hstep

/-! ### The size of what is mapped again -/

/-- An entry with a table below it. -/
def IsTable : PageTree → Prop
  | .table _ _ => True
  | _          => False

instance : (e : PageTree) → Decidable (IsTable e)
  | .table _ _ => .isTrue trivial
  | .empty     => .isFalse id
  | .leaf _    => .isFalse id

/-- The slot of height `k` of page `p` has a page of the range and a page outside of it. -/
def Cut (k vs ve p : ℕ) : Prop :=
  (firstPage k p < vs ∧ vs ≤ lastPage k p) ∨ (firstPage k p ≤ ve ∧ ve < lastPage k p)

instance : Decidable (Cut k vs ve p) := inferInstanceAs (Decidable (_ ∨ _))

/-- The height of what maps page `p` after its leaf of height `k` was mapped again around or
inside the range. -/
def splitHeight (k vs ve p : ℕ) : ℕ := if Cut (k - 1) vs ve p then 0 else k - 1

lemma splitHeight_le : splitHeight k vs ve p ≤ k := by
  rw [splitHeight]
  split_ifs
  · exact Nat.zero_le k
  · exact Nat.sub_le k 1

/-- Mapping makes a table of an entry of height 1 when its range does not contain the entry. -/
lemma mapEntry_isTable (hop : mapEntry alloc 1 n vs ve δ attr (e, h) = some (e', h')) :
    IsTable e' ↔ IsTable e ∨ ¬(vs ≤ lo 512 1 n ∧ hi 512 1 n ≤ ve) := by
  cases e with
  | empty =>
    rw [mapEntry_empty] at hop
    split_ifs at hop with hcov
    · cases hop
      simp [IsTable, hcov.1, hcov.2.1]
    · simp only [Option.bind_eq_some_iff, Option.map_eq_some_iff] at hop
      obtain ⟨q, -, x, -, hop⟩ := hop
      cases hop
      exact iff_of_true trivial (.inr fun hc => hcov ⟨hc.1, hc.2, by norm_num⟩)
  | leaf m =>
    rw [mapEntry_leaf] at hop
    split_ifs at hop with hcov
    · cases hop
      simp [IsTable, hcov.1, hcov.2.1]
    · simp only [Option.bind_eq_some_iff, Option.map_eq_some_iff] at hop
      obtain ⟨q, -, x, -, hop⟩ := hop
      cases hop
      exact iff_of_true trivial (.inr fun hc => hcov ⟨hc.1, hc.2, by norm_num⟩)
  | table q sub =>
    rw [mapEntry_table, Option.map_eq_some_iff] at hop
    obtain ⟨x, -, hop⟩ := hop
    cases hop
    exact iff_of_true trivial (.inl trivial)

lemma mapTable_isTable (hp : slot 512 2 p = N)
    (hop : mapTable alloc 1 N vs ve δ attr x = some y) :
    IsTable (y.1 (slot 512 1 p % 512)) ↔ IsTable (x.1 (slot 512 1 p % 512)) ∨
      (Touches 1 vs ve p ∧ ¬(vs ≤ firstPage 1 p ∧ lastPage 1 p ≤ ve)) := by
  by_cases ht : Touches 1 vs ve p
  · obtain ⟨c, c', hc⟩ := onTable_touches hop hp ht
    rw [mapEntry_isTable hc, firstPage, lastPage]
    simp [ht]
  · rw [onTable_not_touches hop hp ht]
    simp [ht]

/-- The height of a leaf found in the table that a leaf of height 1 or 2 is split into. -/
lemma height_of_isTable {t : Table} {u : ℕ × Mapping} (hk : k ≤ 1)
    (hf : t.find 512 k p = some u)
    (hcut : k = 1 → (IsTable (t (slot 512 1 p % 512)) ↔ Cut 1 vs ve p)) :
    u.1 = splitHeight (k + 1) vs ve p := by
  rw [Entries.find] at hf
  rw [splitHeight, Nat.add_sub_cancel]
  obtain rfl | rfl : k = 0 ∨ k = 1 := by omega
  · rw [Nat.le_zero.mp (Node.find_height_le hf), ite_self]
  · rw [← if_congr (hcut rfl) rfl rfl]
    cases hti : t (slot 512 1 p % 512) with
    | empty =>
      rw [hti, Node.find_empty] at hf
      cases hf
    | leaf m =>
      rw [hti, Node.find_leaf] at hf
      cases hf
      rfl
    | table q sub =>
      rw [hti, Node.find_table] at hf
      exact Nat.le_zero.mp (Entries.find_height_le hf)

end PiKachulm.Mmu

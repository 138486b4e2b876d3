import PiKachulm.Mmu.TreeUnmap

/-!
# What changing the attributes of a range does to each page

A block that the range cuts is mapped again in three pieces. As when unmapping, the last page of
the first entry of the table stands for the last page of the entry at hand: the attributes of a
whole block change although the range covers a part of it (`Recolored`), or the rest of a block
is not mapped again (`Dropped`).
-/

namespace PiKachulm.Mmu

open Core

variable {alloc : AllocFun} {k n N p vs ve δ : ℕ} {attr : PagesAttributes} {e e' : PageTree}
  {h h' : History VirtualPA} {x y z : Table × History VirtualPA} {m : Mapping}

/-! ### Well-formedness -/

lemma recolorAround_eq_some {stop : ℕ} :
    recolorAround alloc k n vs ve stop m attr x = some z ↔ ∃ a b,
      mapTable alloc k n (lo 512 (k + 1) n) (prevPage vs)
        (displacement m.frame (lo 512 (k + 1) n)) m.attr x = some a ∧
      mapTable alloc k n vs ve (displacement m.frame (lo 512 (k + 1) n)) attr a = some b ∧
      mapTable alloc k n (nextPage ve) stop
        (displacement m.frame (lo 512 (k + 1) n)) m.attr b = some z := by
  simp only [recolorAround, Option.bind_eq_some_iff]
  constructor
  · rintro ⟨a, ha, b, hb, hz⟩
    exact ⟨a, b, ha, hb, hz⟩
  · rintro ⟨a, b, ha, hb, hz⟩
    exact ⟨a, ha, b, hb, hz⟩

lemma changeEntry_wf (hw : e.Wf 512 LeafOk k)
    (hop : changeEntry alloc k n vs ve attr (e, h) = some (e', h')) : e'.Wf 512 LeafOk k := by
  induction k generalizing n e h e' h' with
  | zero =>
    cases e with
    | empty =>
      cases hop
      exact Node.wf_empty
    | leaf m =>
      cases hop
      simpa [LeafOk] using hw
    | table q sub =>
      cases hop
      exact hw
  | succ k ih =>
    cases e with
    | empty =>
      cases hop
      exact Node.wf_empty
    | leaf m =>
      rw [changeEntry] at hop
      split_ifs at hop with hcov
      · cases hop
        simpa [LeafOk] using hw
      · simp only [Option.bind_eq_some_iff, Option.map_eq_some_iff, recolorAround_eq_some] at hop
        obtain ⟨q, -, z, ⟨a, b, ha, hb, hz⟩, hop⟩ := hop
        cases hop
        have haw := mapTable_wf Entries.wf_empty ha
        exact Node.wf_table.mpr (mapTable_wf (mapTable_wf haw hb) hz)
    | table q sub =>
      rw [changeEntry, Option.map_eq_some_iff] at hop
      obtain ⟨y, hy, hop⟩ := hop
      cases hop
      refine Node.wf_table.mpr (onTable_wf (Node.wf_table.mp hw) hy ?_)
      exact fun _ _ _ _ _ he hstep => ih he hstep

lemma changeTable_wf (hx : x.1.Wf 512 LeafOk k)
    (hop : changeTable alloc k N vs ve attr x = some y) : y.1.Wf 512 LeafOk k :=
  onTable_wf hx hop fun _ _ _ _ _ he hstep => changeEntry_wf he hstep

/-! ### Pages -/

/-- A leaf of height `k` at page `p` is taken for covered by the range. -/
def Whole (k vs ve p : ℕ) : Prop :=
  vs ≤ firstPage k p ∧ entryVaStop k (slot 512 k p) ≤ ve

instance : Decidable (Whole k vs ve p) := inferInstanceAs (Decidable (_ ∧ _))

/-- Page `p` belongs to what is mapped again after the range. -/
def Rest (k ve p : ℕ) : Prop := nextPage ve ≤ p ∧ p ≤ entryVaStop k (slot 512 k p)

/-- A page in a leaf of height `k` gets the new attributes. -/
def Recolored (k vs ve p : ℕ) : Prop :=
  Touches k vs ve p ∧ (Whole k vs ve p ∨ ((vs ≤ p ∧ p ≤ ve) ∧ ¬Rest k ve p ∧
    ¬(vs = 0 ∧ ve < lastPage (k - 1) p)))

/-- A page in a leaf of height `k` is not mapped again. -/
def Dropped (k vs ve p : ℕ) : Prop :=
  Touches k vs ve p ∧ ¬Whole k vs ve p ∧ ¬Rest k ve p ∧ ¬(vs ≤ p ∧ p ≤ ve) ∧ ¬p ≤ prevPage vs

/-- The height of what maps a page of a leaf of height `l` that is not dropped. -/
def changedHeight (l vs ve p : ℕ) : ℕ :=
  if Touches l vs ve p ∧ ¬Whole l vs ve p then splitHeight l vs ve p else l

lemma changedHeight_le : changedHeight k vs ve p ≤ k := by
  rw [changedHeight]
  split_ifs
  · exact splitHeight_le
  · exact le_rfl

/-- The effect of changing the attributes of the pages from `vs` to `ve` on page `p`. -/
structure ChangesPage (vs ve : ℕ) (attr : PagesAttributes) (p : ℕ)
    (r r' : Option (ℕ × Mapping)) : Prop where
  unmapped : r = none → r' = none
  changed : ∀ u, r = some u → Recolored u.1 vs ve p →
    MapsTo (changedHeight u.1 vs ve p) (leafDisp p u) attr p r'
  dropped : ∀ u, r = some u → Dropped u.1 vs ve p → r' = none
  kept : ∀ u, r = some u → ¬Recolored u.1 vs ve p → ¬Dropped u.1 vs ve p →
    MapsTo (changedHeight u.1 vs ve p) (leafDisp p u) u.2.attr p r'

lemma not_recolored_of_not_touches (ht : ¬Touches k vs ve p) : ¬Recolored k vs ve p :=
  fun hr => ht hr.1

lemma not_dropped_of_not_touches (ht : ¬Touches k vs ve p) : ¬Dropped k vs ve p :=
  fun hd => ht hd.1

lemma ChangesPage.not_touched {r : Option (ℕ × Mapping)} (hp52 : p < 2 ^ 52)
    (hr : ∀ u, r = some u → u.1 ≤ k ∧ u.2.frame < 2 ^ 36) (ht : ¬Touches k vs ve p) :
    ChangesPage vs ve attr p r r := by
  have hleaf : ∀ u, r = some u → ¬Touches u.1 vs ve p := fun u hu htu => ht (htu.mono (hr u hu).1)
  refine ⟨id, ?_, ?_, ?_⟩
  · exact fun u hu hrec => absurd hrec (not_recolored_of_not_touches (hleaf u hu))
  · exact fun u hu hdrop => absurd hdrop (not_dropped_of_not_touches (hleaf u hu))
  · intro u hu _ _
    rw [changedHeight, if_neg fun hc => hleaf u hu hc.1]
    exact ⟨u, hu, rfl, part_self hp52 (hr u hu).2⟩

/-- Writing a leaf back with other attributes. -/
lemma ChangesPage.whole (hm : m.frame < 2 ^ 36) (hp52 : p < 2 ^ 52) (ht : Touches k vs ve p)
    (hwhole : Whole k vs ve p) :
    ChangesPage vs ve attr p (some (k, m)) (some (k, { m with attr })) := by
  refine ⟨by simp, ?_, ?_, ?_⟩
  · intro u hu _
    cases hu
    rw [changedHeight, if_neg fun hc => hc.2 hwhole]
    exact ⟨_, rfl, rfl, rfl, (part_self (x := (k, m)) hp52 hm).2⟩
  · intro u hu hdrop
    cases hu
    exact absurd hwhole hdrop.2.1
  · intro u hu hrec
    cases hu
    exact absurd ⟨ht, .inl hwhole⟩ hrec

/-- Mapping all pages of an entry of an empty table makes one leaf of it. -/
lemma mapTable_find_of_covers {h : History VirtualPA} (hk : k ≤ 2)
    (hfirst : vs ≤ firstPage k p) (hlast : lastPage k p ≤ ve) (hp : slot 512 (k + 1) p = N)
    (hop : mapTable alloc k N vs ve δ attr (.empty, h) = some y) :
    ∃ u, y.1.find 512 k p = some (k, u) := by
  have ht : Touches k vs ve p := touches_of_mem (hfirst.trans firstPage_le) (le_lastPage.trans hlast)
  obtain ⟨c, c', hc⟩ := onTable_touches hop hp ht
  have hempty : (Entries.empty, h).1 (slot 512 k p % 512) = (.empty : PageTree) := rfl
  rw [hempty] at hc
  rw [Entries.find]
  cases k with
  | zero =>
    rw [mapEntry_zero, Option.some.injEq, Prod.mk.injEq] at hc
    rw [← hc.1, Node.find_leaf]
    exact ⟨_, rfl⟩
  | succ k =>
    rw [mapEntry_empty, if_pos ⟨hfirst, hlast, hk⟩, Option.some.injEq, Prod.mk.injEq] at hc
    rw [← hc.1, Node.find_leaf]
    exact ⟨_, rfl⟩

/-- The entry that ends with the address space is not the first of its table. -/
lemma lastPage_ne_max (hk : 1 ≤ k) (hk3 : k ≤ 3) (hidx : slot 512 k p % 512 = 0) :
    lastPage k p ≠ 2 ^ 52 - 1 := by
  rw [lastPage, hi]
  interval_cases k <;> omega

/-- Mapping a 1 GiB block again in three pieces makes tables of the entries that are cut. -/
lemma isTable_recolorAround {δ : ℕ} {attr attr' attr'' : PagesAttributes}
    {a b : Table × History VirtualPA} (hv : vs ≤ ve) (hp : slot 512 2 p = n)
    (hp52 : lastPage 2 p < 2 ^ 52) (hve : ve < 2 ^ 52)
    (ha : mapTable alloc 1 n (lo 512 2 n) (prevPage vs) δ attr (.empty, h) = some a)
    (hb : mapTable alloc 1 n vs ve δ attr' a = some b)
    (hz : mapTable alloc 1 n (nextPage ve) (entryVaStop 2 n) δ attr'' b = some z) :
    IsTable (z.1 (slot 512 1 p % 512)) ↔ Cut 1 vs ve p := by
  have hempty : ¬IsTable ((.empty : Table) (slot 512 1 p % 512)) := id
  have hL : firstPage 2 p ≤ firstPage 1 p := firstPage_anti (by norm_num)
  have hE : lastPage 1 p ≤ lastPage 2 p := lastPage_mono (by norm_num)
  have hF : firstPage 1 p ≤ p := firstPage_le
  have hp₁ : p ≤ lastPage 1 p := le_lastPage
  have hnext : nextPage ve = (ve + 1) % 2 ^ 52 := rfl
  have hprev : prevPage vs = (vs + (2 ^ 52 - 1)) % 2 ^ 52 := rfl
  rw [mapTable_isTable hp hz, mapTable_isTable hp hb, mapTable_isTable hp ha, touches_iff,
    touches_iff, touches_iff, Cut, ← firstPage_eq hp]
  simp only [hempty, false_or]
  by_cases hidx : slot 512 2 p % 512 = 0
  · have hstop : entryVaStop 2 n = lastPage 2 p := by
      rw [← hp]
      exact entryVaStop_of_first hidx
    omega
  · have hstop : entryVaStop 2 n < firstPage 2 p := by
      rw [← hp]
      exact entryVaStop_lt hidx
    omega

/-- Cutting a block: map again what comes before the range, the range, and what comes after. -/
lemma ChangesPage.split {rA rB rC : Option (ℕ × Mapping)} (hk2 : k + 1 ≤ 2)
    (ht : Touches (k + 1) vs ve p) (hcut : ¬Whole (k + 1) vs ve p)
    (hp52 : lastPage (k + 1) p < 2 ^ 52) (hkB : ∀ u, rB = some u → u.1 ≤ k)
    (hheight : ∀ u, rC = some u → u.1 = splitHeight (k + 1) vs ve p) (hfill : vs = 0 → ∃ u, rA = some (k, u))
    (hA : MapsPage (firstPage (k + 1) p) (prevPage vs) (leafDisp p (k + 1, m)) m.attr p none rA)
    (hB : MapsPage vs ve (leafDisp p (k + 1, m)) attr p rA rB)
    (hC : MapsPage (nextPage ve) (entryVaStop (k + 1) (slot 512 (k + 1) p))
      (leafDisp p (k + 1, m)) m.attr p rB rC) :
    ChangesPage vs ve attr p (some (k + 1, m)) rC := by
  have hL : firstPage (k + 1) p ≤ p := firstPage_le
  have hpp : p < 2 ^ 52 := lt_of_le_of_lt le_lastPage hp52
  -- the part before the range, and why only a range from page 0 has pages in it
  have hbefore : p ≤ prevPage vs →
      ∃ a, rA = some a ∧ Part (leafDisp p (k + 1, m)) m.attr p a := fun hprev => by
    obtain ⟨a, ha, hpart, -⟩ := hA.mapped hL hprev (by simp)
    exact ⟨a, ha, hpart⟩
  have hnobefore : ¬p ≤ prevPage vs → rA = none := fun hprev =>
    (hA.kept fun _ h₂ => absurd h₂ hprev).none_left
  have hzero : vs ≤ p → (p ≤ prevPage vs ↔ vs = 0) := fun h₁ => by
    rw [prevPage]
    omega
  -- what is outside the part after the range stays as the first two parts left it
  have hlater : ¬Rest (k + 1) ve p → Keeps p rB rC := fun hrest =>
    hC.kept fun h₁ h₂ => absurd ⟨h₁, h₂⟩ hrest
  have hrestC : Rest (k + 1) ve p → ∃ c, rC = some c ∧ Part (leafDisp p (k + 1, m)) m.attr p c := by
    intro hrest
    have hidx : slot 512 (k + 1) p % 512 = 0 := by
      by_contra hidx
      exact absurd (hrest.2.trans_lt (entryVaStop_lt hidx)) (not_lt.mpr hL)
    have hstop : entryVaStop (k + 1) (slot 512 (k + 1) p) = lastPage (k + 1) p :=
      entryVaStop_of_first hidx
    have hmax : lastPage (k + 1) p ≠ 2 ^ 52 - 1 :=
      lastPage_ne_max (Nat.succ_pos k) (hk2.trans (by norm_num)) hidx
    obtain ⟨c, hc, hpart, -⟩ := hC.mapped hrest.1 hrest.2 fun u hu => by
      have hle : lastPage u.1 p ≤ lastPage (k + 1) p :=
        lastPage_mono ((hkB u hu).trans (Nat.le_succ k))
      rw [Clobbered, hstop]
      omega
    exact ⟨c, hc, hpart⟩
  have hchanged : changedHeight (k + 1) vs ve p = splitHeight (k + 1) vs ve p :=
    if_pos ⟨ht, hcut⟩
  refine ⟨by simp, ?_, ?_, ?_⟩
  · intro u hu hrec
    cases hu
    obtain ⟨⟨h₁, h₂⟩, hrest, hnoclob⟩ := hrec.2.resolve_left hcut
    have hB' : ∃ b, rB = some b ∧ Part (leafDisp p (k + 1, m)) attr p b := by
      obtain ⟨b, hb, hpart, -⟩ := hB.mapped h₁ h₂ fun u hu hclob => by
        have hvs : vs = 0 := by
          by_contra hvs
          rw [hnobefore (fun hprev => hvs ((hzero h₁).mp hprev))] at hu
          cases hu
        obtain ⟨w, hw⟩ := hfill hvs
        rw [hw, Option.some.injEq] at hu
        subst hu
        rcases hclob with hclob | ⟨-, hclob⟩
        · exact hnoclob hclob
        · omega
      exact ⟨b, hb, hpart⟩
    obtain ⟨b, rfl, hb⟩ := hB'
    obtain ⟨c, rfl, -, hpart⟩ := (hlater hrest).some_left
    exact ⟨c, rfl, (hheight c rfl).trans hchanged.symm, hb.trans hpp hpart⟩
  · intro u hu hdrop
    cases hu
    obtain ⟨-, -, hrest, hout, hprev⟩ := hdrop
    have hnone := hnobefore hprev
    subst hnone
    have hnone := (hB.kept fun h₁ h₂ => absurd ⟨h₁, h₂⟩ hout).none_left
    subst hnone
    exact (hlater hrest).none_left
  · intro u hu hrec hdrop
    cases hu
    suffices hsuff : ∃ c, rC = some c ∧ Part (leafDisp p (k + 1, m)) m.attr p c by
      obtain ⟨c, rfl, hc⟩ := hsuff
      exact ⟨c, rfl, (hheight c rfl).trans hchanged.symm, hc⟩
    by_cases hrest : Rest (k + 1) ve p
    · exact hrestC hrest
    · suffices hsuff : ∃ b, rB = some b ∧ Part (leafDisp p (k + 1, m)) m.attr p b by
        obtain ⟨b, rfl, hb⟩ := hsuff
        obtain ⟨c, rfl, -, hpart⟩ := (hlater hrest).some_left
        exact ⟨c, rfl, hb.trans hpp hpart⟩
      -- the page is kept by the part before the range, and not mapped again by the range
      have hprev : p ≤ prevPage vs := by
        by_contra hprev
        by_cases hin : vs ≤ p ∧ p ≤ ve
        · refine hrec ⟨ht, .inr ⟨hin, hrest, fun hclob => hprev ?_⟩⟩
          exact (hzero hin.1).mpr hclob.1
        · exact hdrop ⟨ht, hcut, hrest, hin, hprev⟩
      obtain ⟨a, rfl, ha⟩ := hbefore hprev
      have hkeep : Keeps p (some a) rB := hB.kept fun h₁ h₂ => by
        have hvs := (hzero h₁).mp hprev
        obtain ⟨w, hw⟩ := hfill hvs
        rw [Option.some.injEq] at hw
        subst hw
        refine ⟨_, rfl, .inl ?_⟩
        by_contra hclob
        exact hrec ⟨ht, .inr ⟨⟨h₁, h₂⟩, hrest, hclob⟩⟩
      obtain ⟨b, rfl, -, hpart⟩ := hkeep.some_left
      exact ⟨b, rfl, ha.trans hpp hpart⟩

lemma changeTable_find_of_entry (hp52 : p < 2 ^ 52) (hw : x.1.Wf 512 LeafOk k)
    (hop : changeTable alloc k N vs ve attr x = some y) (hp : slot 512 (k + 1) p = N)
    (hentry : ∀ e c e' c', e.Wf 512 LeafOk k → Touches k vs ve p →
      changeEntry alloc k (slot 512 k p) vs ve attr (e, c) = some (e', c') →
      ChangesPage vs ve attr p (e.find 512 k p) (e'.find 512 k p)) :
    ChangesPage vs ve attr p (x.1.find 512 k p) (y.1.find 512 k p) := by
  have hwe := hw _ (Nat.mod_lt (slot 512 k p) (by norm_num : 0 < 512))
  by_cases ht : Touches k vs ve p
  · obtain ⟨c, c', hc⟩ := onTable_touches hop hp ht
    exact hentry _ _ _ _ hwe ht hc
  · have hsame : y.1.find 512 k p = x.1.find 512 k p := by
      rw [Entries.find, Entries.find, onTable_not_touches hop hp ht]
    rw [hsame]
    refine .not_touched hp52 ?_ ht
    exact fun u hu => ⟨Entries.find_height_le hu, (Entries.ok_of_find hw hu).2⟩

/-- What changing attributes does to the pages of one entry. -/
lemma changeEntry_find (hw : e.Wf 512 LeafOk k) (hvs : vs < 2 ^ 52) (hve : ve < 2 ^ 52)
    (hp : slot 512 k p = n) (hp52 : lastPage k p < 2 ^ 52) (ht : Touches k vs ve p)
    (hop : changeEntry alloc k n vs ve attr (e, h) = some (e', h')) :
    ChangesPage vs ve attr p (e.find 512 k p) (e'.find 512 k p) := by
  induction k generalizing n e h e' h' with
  | zero =>
    cases e with
    | empty =>
      cases hop
      exact ⟨by simp, by simp, by simp, by simp⟩
    | leaf m =>
      cases hop
      rw [Node.find_leaf, Node.find_leaf]
      have hm : m.frame < 2 ^ 36 := (Node.wf_leaf.mp hw).2
      refine .whole hm (lt_of_le_of_lt le_lastPage hp52) ht ?_
      rw [touches_zero] at ht
      refine ⟨by rw [firstPage_zero]; exact ht.1, ?_⟩
      rw [entryVaStop, hi_zero, slot_zero]
      exact (Nat.div_mul_le_self p 512).trans ht.2
    | table q sub => exact absurd hw (by simp [Node.Wf])
  | succ k ih =>
    have hpp : p < 2 ^ 52 := lt_of_le_of_lt le_lastPage hp52
    have hlast : lastPage k p ≤ lastPage (k + 1) p := lastPage_mono (Nat.le_succ k)
    have hwhole : (vs ≤ lo 512 (k + 1) n ∧ entryVaStop (k + 1) n ≤ ve) ↔
        Whole (k + 1) vs ve p := by
      rw [Whole, firstPage_eq hp, hp]
    cases e with
    | empty =>
      cases hop
      exact ⟨by simp, by simp, by simp, by simp⟩
    | leaf m =>
      have hm : LeafOk (k + 1) m := Node.wf_leaf.mp hw
      rw [changeEntry] at hop
      split_ifs at hop with hcov
      · cases hop
        rw [Node.find_leaf, Node.find_leaf]
        exact .whole hm.2 hpp ht (hwhole.mp hcov)
      · simp only [Option.bind_eq_some_iff, Option.map_eq_some_iff, recolorAround_eq_some] at hop
        obtain ⟨q, -, z, ⟨a, b, ha, hb, hz⟩, hop⟩ := hop
        cases hop
        have haw := mapTable_wf Entries.wf_empty ha
        have hbw := mapTable_wf haw hb
        have hlo : lo 512 (k + 1) n < 2 ^ 52 := by
          rw [← firstPage_eq hp]
          exact lt_of_le_of_lt firstPage_le hpp
        have hstop : entryVaStop (k + 1) n < 2 ^ 52 := by
          have hle : entryVaStop (k + 1) n ≤ hi 512 (k + 1) n :=
            hi_le_hi (Nat.div_mul_le_self n 512)
          rw [← lastPage_eq hp] at hle
          exact lt_of_le_of_lt hle hp52
        have hA := mapTable_find Entries.wf_empty hlo (Nat.mod_lt _ (by norm_num)) hp hp52 ha
        have hB := mapTable_find haw hvs hve hp hp52 hb
        have hC := mapTable_find hbw (Nat.mod_lt _ (by norm_num)) hstop hp hp52 hz
        have hfill : vs = 0 → ∃ u, a.1.find 512 k p = some (k, u) := by
          rintro rfl
          have hmax : prevPage 0 = 2 ^ 52 - 1 := rfl
          refine mapTable_find_of_covers (by have := hm.1; omega) ?_ ?_ hp ha
          · rw [← firstPage_eq hp]
            exact firstPage_anti (Nat.le_succ k)
          · omega
        rw [Node.find_leaf, Node.find_table]
        rw [Entries.find_empty] at hA
        rw [← firstPage_eq hp] at hA hB hC
        rw [← hp] at hC
        refine .split hm.1 ht (fun hwh => hcov (hwhole.mpr hwh)) hp52 ?_ ?_ hfill hA hB hC
        · exact fun u hu => Entries.find_height_le hu
        · intro u hu
          refine height_of_isTable (Nat.le_of_succ_le_succ hm.1) hu ?_
          rintro rfl
          exact isTable_recolorAround ht.1 hp hp52 hve ha hb hz
    | table q sub =>
      rw [changeEntry, Option.map_eq_some_iff] at hop
      obtain ⟨y, hy, hop⟩ := hop
      cases hop
      rw [Node.find_table, Node.find_table]
      have hw' := Node.wf_table.mp hw
      refine changeTable_find_of_entry hpp hw' hy hp fun e c e' c' he ht hstep => ?_
      exact ih he rfl (lt_of_le_of_lt hlast hp52) ht hstep

/-- What changing attributes does to the pages of a table. -/
lemma changeTable_find (hw : x.1.Wf 512 LeafOk k) (hvs : vs < 2 ^ 52) (hve : ve < 2 ^ 52)
    (hp : slot 512 (k + 1) p = N) (hp52 : lastPage (k + 1) p < 2 ^ 52)
    (hop : changeTable alloc k N vs ve attr x = some y) :
    ChangesPage vs ve attr p (x.1.find 512 k p) (y.1.find 512 k p) := by
  have hlast : lastPage k p ≤ lastPage (k + 1) p := lastPage_mono (Nat.le_succ k)
  refine changeTable_find_of_entry (lt_of_le_of_lt le_lastPage hp52) hw hop hp ?_
  intro e c e' c' he ht hstep
  exact changeEntry_find he hvs hve rfl (lt_of_le_of_lt hlast hp52) ht hstep

/-! ### When changing attributes is exact -/

/-- The condition under which the attributes of the mapped pages from `vs` to `ve` change and
those of no other page: a range that stops inside a block starts at or before it, and the block
has these attributes already, unless the block is the first of its table; and a block that is
mapped again through an end of the range that wraps around has these attributes already. -/
structure ChangesExactly (t : Table) (vs ve : ℕ) (attr : PagesAttributes) : Prop where
  last : ∀ u, t.find 512 3 ve = some u → ve < lastPage u.1 ve → slot 512 u.1 ve % 512 ≠ 0 →
    vs ≤ firstPage u.1 ve ∧ u.2.attr = attr
  start : vs = 0 → ∀ u, t.find 512 3 ve = some u → slot 512 u.1 ve % 512 = 0 →
    ve < lastPage (u.1 - 1) ve → u.2.attr = attr
  first : ve = 2 ^ 52 - 1 → ∀ u, t.find 512 3 vs = some u → firstPage u.1 vs < vs →
    slot 512 u.1 vs % 512 = 0 → u.2.attr = attr

/-- What a page found as `u` must meet for the change to be right there. -/
def ChangesRightly (vs ve : ℕ) (attr : PagesAttributes) (p : ℕ) (u : ℕ × Mapping) : Prop :=
  ((vs ≤ p ∧ p ≤ ve) → ¬Recolored u.1 vs ve p → u.2.attr = attr) ∧
    (¬(vs ≤ p ∧ p ≤ ve) → ¬Dropped u.1 vs ve p ∧ (Recolored u.1 vs ve p → u.2.attr = attr))

/-- An entry that is not the first of its table is taken for covered when the range starts before
it. -/
lemma whole_of_index (hidx : slot 512 k p % 512 ≠ 0) (hfirst : vs ≤ firstPage k p)
    (hle : firstPage k p ≤ ve) : Whole k vs ve p :=
  erased_of_index hidx hfirst hle

lemma ChangesExactly.rightly {t : Table} (hc : ChangesExactly t vs ve attr) (hv : vs ≤ ve)
    {u : ℕ × Mapping} (hf : t.find 512 3 p = some u) (hve : ve < 2 ^ 52)
    (hp52 : lastPage 3 p < 2 ^ 52) : ChangesRightly vs ve attr p u := by
  have hu3 : u.1 ≤ 3 := Entries.find_height_le hf
  have hul : lastPage u.1 p ≤ lastPage 3 p := lastPage_mono hu3
  constructor
  · rintro ⟨h₁, h₂⟩ hrec
    have ht : Touches u.1 vs ve p := touches_of_mem h₁ h₂
    have hcut : ¬Whole u.1 vs ve p := fun hwhole => hrec ⟨ht, .inl hwhole⟩
    have hor : Rest u.1 ve p ∨ (vs = 0 ∧ ve < lastPage (u.1 - 1) p) := by
      by_contra hor
      rw [not_or] at hor
      exact hrec ⟨ht, .inr ⟨⟨h₁, h₂⟩, hor⟩⟩
    rcases hor with ⟨hnext, hstop⟩ | ⟨hvs, hlast⟩
    · have hmax : ve = 2 ^ 52 - 1 := by
        rw [nextPage] at hnext
        omega
      have hidx : slot 512 u.1 p % 512 = 0 := by
        by_contra hidx
        exact absurd (hstop.trans_lt (entryVaStop_lt hidx)) (not_lt.mpr firstPage_le)
      have hfirst : firstPage u.1 p < vs := by
        by_contra hfirst
        refine hcut ⟨not_lt.mp hfirst, ?_⟩
        have heq : entryVaStop u.1 (slot 512 u.1 p) = lastPage u.1 p := entryVaStop_of_first hidx
        omega
      have hslot : slot 512 u.1 p = slot 512 u.1 vs :=
        slot_eq_of_mem hfirst.le (h₁.trans le_lastPage)
      rw [firstPage_congr hslot] at hfirst
      rw [hslot] at hidx
      exact hc.first hmax u (Entries.find_congr hf hslot) hfirst hidx
    · have hslot' : slot 512 (u.1 - 1) p = slot 512 (u.1 - 1) ve :=
        slot_eq_of_mem (firstPage_le.trans h₂) hlast.le
      have hslot : slot 512 u.1 p = slot 512 u.1 ve := slot_eq_of_le (Nat.sub_le _ _) hslot'
      rw [lastPage_congr hslot'] at hlast
      refine hc.start hvs u (Entries.find_congr hf hslot) ?_ hlast
      by_contra hidx
      rw [← hslot] at hidx
      exact hcut (whole_of_index hidx (hvs ▸ Nat.zero_le _) (firstPage_le.trans h₂))
  · intro hout
    by_cases hbefore : p < vs
    · refine ⟨fun hdrop => ?_, fun hrec => ?_⟩
      · refine hdrop.2.2.2.2 ?_
        rw [prevPage]
        omega
      · rcases hrec.2 with hwhole | hin
        · exact absurd (hwhole.1.trans firstPage_le) (not_le.mpr hbefore)
        · exact absurd hin.1 hout
    · have hafter : ve < p := by
        by_contra hle
        exact hout ⟨not_lt.mp hbefore, not_lt.mp hle⟩
      -- a touched leaf holds the last page of the range
      have hsame : Touches u.1 vs ve p → slot 512 u.1 p = slot 512 u.1 ve := fun ht =>
        le_antisymm ht.2.2 (slot_le_slot hafter.le)
      have hcond : ∀ hslot : slot 512 u.1 p = slot 512 u.1 ve, slot 512 u.1 p % 512 ≠ 0 →
          vs ≤ firstPage u.1 p ∧ u.2.attr = attr := by
        intro hslot hidx
        rw [firstPage_congr hslot]
        rw [hslot] at hidx
        refine hc.last u (Entries.find_congr hf hslot) ?_ hidx
        rw [← lastPage_congr hslot]
        exact hafter.trans_le le_lastPage
      refine ⟨fun hdrop => ?_, fun hrec => ?_⟩
      · have hslot := hsame hdrop.1
        by_cases hidx : slot 512 u.1 p % 512 = 0
        · refine hdrop.2.2.1 ⟨?_, ?_⟩
          · have := (le_lastPage (k := u.1) (p := p)).trans hul
            rw [nextPage]
            omega
          · rw [entryVaStop_of_first hidx]
            exact le_lastPage
        · refine hdrop.2.1 (whole_of_index hidx (hcond hslot hidx).1 ?_)
          rw [firstPage_congr hslot]
          exact firstPage_le
      · have hslot := hsame hrec.1
        have hwhole := hrec.2.resolve_right fun hin => hout hin.1
        refine (hcond hslot fun hidx => ?_).2
        have hstop := hwhole.2
        rw [entryVaStop_of_first hidx] at hstop
        exact absurd (le_lastPage.trans hstop) (not_le.mpr hafter)

/-- When the condition fails, the attributes of some page come out wrong. -/
lemma changesExactly_of_rightly {t : Table} (hv : vs ≤ ve) (hve : lastPage 4 ve < 2 ^ 52)
    (hN : slot 512 4 vs = slot 512 4 ve)
    (hs : ∀ p u, slot 512 4 p = slot 512 4 ve → t.find 512 3 p = some u →
      ChangesRightly vs ve attr p u) : ChangesExactly t vs ve attr := by
  have hve52 : ve < 2 ^ 52 := lt_of_le_of_lt le_lastPage hve
  constructor
  · intro u hf hlast hidx
    have hu3 : u.1 ≤ 3 := Entries.find_height_le hf
    have hslot : slot 512 u.1 ve = slot 512 u.1 (ve + 1) :=
      slot_eq_of_mem (firstPage_le.trans (Nat.le_succ _)) hlast
    obtain ⟨hdrop, hrec⟩ := (hs (ve + 1) u (slot_eq_of_le (by omega) hslot).symm
      (Entries.find_congr hf hslot)).2 fun hmem => absurd hmem.2 (by omega)
    have ht : Touches u.1 vs ve (ve + 1) := ⟨hv, slot_le_slot (by omega), hslot.ge⟩
    have hfirst : vs ≤ firstPage u.1 ve := by
      by_contra hfirst
      refine hdrop ⟨ht, ?_, ?_, fun hmem => absurd hmem.2 (by omega), ?_⟩
      · rintro ⟨hwhole, -⟩
        rw [← firstPage_congr hslot] at hwhole
        exact hfirst hwhole
      · rintro ⟨-, hstop⟩
        rw [← hslot] at hstop
        have hlt : entryVaStop u.1 (slot 512 u.1 ve) < firstPage u.1 ve := entryVaStop_lt hidx
        have : firstPage u.1 ve ≤ ve := firstPage_le
        omega
      · rw [prevPage]
        omega
    refine ⟨hfirst, hrec ⟨ht, .inl ?_⟩⟩
    rw [hslot] at hidx
    rw [firstPage_congr hslot] at hfirst
    exact whole_of_index hidx hfirst (firstPage_congr hslot ▸ firstPage_le)
  · intro hvs u hf hidx hlast
    refine (hs ve u rfl hf).1 ⟨hv, le_rfl⟩ fun hrec => ?_
    rcases hrec.2 with ⟨-, hstop⟩ | ⟨-, -, hnot⟩
    · rw [entryVaStop_of_first hidx] at hstop
      have : lastPage (u.1 - 1) ve ≤ lastPage u.1 ve := lastPage_mono (Nat.sub_le _ _)
      rw [lastPage, lastPage] at this
      rw [lastPage] at hlast
      omega
    · exact hnot ⟨hvs, hlast⟩
  · intro hmax u hf hfirst hidx
    refine (hs vs u hN hf).1 ⟨le_rfl, hv⟩ fun hrec => ?_
    rcases hrec.2 with ⟨hwhole, -⟩ | ⟨-, hrest, -⟩
    · exact absurd hwhole (not_le.mpr hfirst)
    · refine hrest ⟨?_, ?_⟩
      · rw [hmax, nextPage]
        norm_num
      · rw [entryVaStop_of_first hidx]
        exact le_lastPage

end PiKachulm.Mmu

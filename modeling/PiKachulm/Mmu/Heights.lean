import PiKachulm.Mmu.Blocks

/-!
# The heights of new leaves

Where nothing was mapped and no table stands in the way, mapping a range makes leaves as high as the range
allows, and later ranges that do not meet them leave them as they are.
-/

namespace PiKachulm.Mmu

open Libk Core

variable {alloc : AllocFun} {j k n N p vs ve δ : ℕ} {attr : PagesAttributes} {e e' : PageTree}
  {h h' : History VirtualPA} {x y : Table × History VirtualPA} {v : ℕ × Mapping}

/-- There is no table for the slot of height `j` of page `p`, which lies in an entry of height `k`. -/
def NoTable (j : ℕ) : (k : ℕ) → PageTree → (p : ℕ) → Prop
  | k + 1, .table _ sub, p => j ≤ k ∧ NoTable j k (sub (slot 512 k p % 512)) p
  | _, _, _                => True

@[simp] lemma noTable_empty : NoTable j k .empty p := by cases k <;> trivial

@[simp] lemma noTable_leaf {m : Mapping} : NoTable j k (.leaf m) p := by cases k <;> trivial

/-- A leaf that is found is not lower than a slot without table. -/
lemma NoTable.le_of_find (hno : NoTable j k e p) (hjk : j ≤ k) (hf : e.find 512 k p = some v) : j ≤ v.1 := by
  induction k generalizing e with
  | zero => exact hjk.trans (Nat.zero_le _)
  | succ k ih =>
    cases e with
    | empty => simp at hf
    | leaf m =>
      rw [Node.find_leaf, Option.some.injEq] at hf
      rwa [← hf]
    | table q sub =>
      rw [Node.find_table] at hf
      exact ih hno.2 hno.1 hf

/-- The slot of height `j` of page `p` lies in the range and may be a leaf. -/
def Fits (j vs ve p : ℕ) : Prop := vs ≤ firstPage j p ∧ lastPage j p ≤ ve ∧ j ≤ 2

/-- What holds of every entry of a table holds of the table. -/
lemma mapTable_noTable_of_entry (hop : mapTable alloc k N vs ve δ attr x = some y)
    (hp : slot 512 (k + 1) p = N) (hno : NoTable j k (x.1 (slot 512 k p % 512)) p)
    (hentry : ∀ c e' c', Touches k vs ve p →
      mapEntry alloc k (slot 512 k p) vs ve δ attr (x.1 (slot 512 k p % 512), c) = some (e', c') →
      NoTable j k e' p) :
    NoTable j k (y.1 (slot 512 k p % 512)) p := by
  by_cases ht : Touches k vs ve p
  · obtain ⟨c, c', hc⟩ := onTable_touches hop hp ht
    exact hentry _ _ _ ht hc
  · rwa [onTable_not_touches hop hp ht]

/-- Mapping makes no table for a slot in its range, nor for one that it does not meet, where nothing is
mapped. -/
lemma mapEntry_noTable (hjk : j ≤ k) (hp : slot 512 k p = n) (hnone : e.find 512 k p = none)
    (hno : NoTable j k e p) (hslot : ¬Touches j vs ve p ∨ Fits j vs ve p) (ht : Touches k vs ve p)
    (hop : mapEntry alloc k n vs ve δ attr (e, h) = some (e', h')) : NoTable j k e' p := by
  induction k generalizing n e h e' h' with
  | zero =>
    rw [mapEntry_zero] at hop
    cases hop
    exact noTable_leaf
  | succ k ih =>
    have htable : ∀ {x y : Table × History VirtualPA}, j ≤ k → x.1.find 512 k p = none →
        NoTable j k (x.1 (slot 512 k p % 512)) p → mapTable alloc k n vs ve δ attr x = some y →
        NoTable j k (y.1 (slot 512 k p % 512)) p := by
      intro x y hjk hnone hno hmap
      exact mapTable_noTable_of_entry hmap hp hno fun c e' c' ht hstep => ih hjk rfl hnone hno ht hstep
    cases e with
    | empty =>
      rw [mapEntry_empty] at hop
      split_ifs at hop with hcov
      · cases hop
        exact noTable_leaf
      · simp only [Option.bind_eq_some_iff, Option.map_eq_some_iff] at hop
        obtain ⟨q, -, x, hx, hop⟩ := hop
        cases hop
        have hle : j ≤ k := by
          refine Nat.le_of_lt_succ (lt_of_le_of_ne hjk ?_)
          rintro rfl
          rcases hslot with hnot | ⟨hfirst, hlast, hle⟩
          · exact hnot ht
          · rw [firstPage_eq hp] at hfirst
            rw [lastPage_eq hp] at hlast
            exact hcov ⟨hfirst, hlast, hle⟩
        exact ⟨hle, htable hle (by simp) noTable_empty hx⟩
    | leaf m => simp at hnone
    | table q sub =>
      rw [mapEntry_table, Option.map_eq_some_iff] at hop
      obtain ⟨x, hx, hop⟩ := hop
      cases hop
      rw [Node.find_table] at hnone
      exact ⟨hno.1, htable hno.1 hnone hno.2 hx⟩

lemma mapTable_noTable (hjk : j ≤ k) (hp : slot 512 (k + 1) p = N) (hnone : x.1.find 512 k p = none)
    (hno : NoTable j k (x.1 (slot 512 k p % 512)) p) (hslot : ¬Touches j vs ve p ∨ Fits j vs ve p)
    (hop : mapTable alloc k N vs ve δ attr x = some y) : NoTable j k (y.1 (slot 512 k p % 512)) p :=
  mapTable_noTable_of_entry hop hp hno fun _ _ _ ht hstep => mapEntry_noTable hjk rfl hnone hno hslot ht hstep

/-- A leaf whose slot the range does not meet is left as it is. -/
lemma mapEntry_find_of_not_touches (hp : slot 512 k p = n) (hf : e.find 512 k p = some v)
    (hnot : ¬Touches v.1 vs ve p) (ht : Touches k vs ve p)
    (hop : mapEntry alloc k n vs ve δ attr (e, h) = some (e', h')) : e'.find 512 k p = some v := by
  induction k generalizing n e h e' h' with
  | zero =>
    have hzero : v.1 = 0 := Nat.le_zero.mp (Node.find_height_le (e := e) (b := 512) (p := p) hf)
    rw [hzero] at hnot
    exact absurd ht hnot
  | succ k ih =>
    cases e with
    | empty => simp at hf
    | leaf m =>
      rw [Node.find_leaf, Option.some.injEq] at hf
      rw [← hf] at hnot
      exact absurd ht hnot
    | table q sub =>
      rw [mapEntry_table, Option.map_eq_some_iff] at hop
      obtain ⟨x, hx, hop⟩ := hop
      cases hop
      rw [Node.find_table, Entries.find] at hf ⊢
      by_cases htk : Touches k vs ve p
      · obtain ⟨c, c', hc⟩ := onTable_touches hx hp htk
        exact ih rfl hf htk hc
      · rwa [onTable_not_touches hx hp htk]

lemma mapTable_find_of_not_touches (hp : slot 512 (k + 1) p = N) (hf : x.1.find 512 k p = some v)
    (hnot : ¬Touches v.1 vs ve p) (hop : mapTable alloc k N vs ve δ attr x = some y) :
    y.1.find 512 k p = some v := by
  rw [Entries.find] at hf ⊢
  by_cases ht : Touches k vs ve p
  · obtain ⟨c, c', hc⟩ := onTable_touches hop hp ht
    exact mapEntry_find_of_not_touches rfl hf hnot ht hc
  · rwa [onTable_not_touches hop hp ht]

/-! ### A range where nothing is mapped -/

/-- From page `vs` up to page `bound`, nothing is mapped, and no slot that lies there has a table. -/
def VacantFrom (t : Table) (vs bound : ℕ) : Prop :=
  ∀ p, vs ≤ p → p < bound → t.find 512 3 p = none ∧
    ∀ j ≤ 3, vs ≤ firstPage j p → NoTable j 3 (t (slot 512 3 p % 512)) p

/-- The pages from `vs` to `ve` are mapped, displaced by `δ`, by leaves as high as the range allows. -/
def Installed (t : Table) (vs ve δ : ℕ) (attr : PagesAttributes) : Prop :=
  ∀ p, vs ≤ p → p ≤ ve → ∃ v, t.find 512 3 p = some v ∧ Part δ attr p v ∧ Fits v.1 vs ve p ∧
    ∀ j, Fits j vs ve p → j ≤ v.1

variable {bound : ℕ}

lemma not_touches_of_lt (h : ve < firstPage j p) : ¬Touches j vs ve p :=
  fun ht => absurd ht.firstPage_le (Nat.not_le.mpr h)

lemma not_touches_of_gt (h : lastPage j p < vs) : ¬Touches j vs ve p :=
  fun ht => absurd ht.le_lastPage (Nat.not_le.mpr h)

/-- Mapping a range leaves vacant what comes after it. -/
lemma VacantFrom.map (hvac : VacantFrom x.1 vs bound) (hw : x.1.Wf 512 LeafOk 3) (hle : vs ≤ ve)
    (hve : ve < 2 ^ 52) (hroot : ∀ p, vs ≤ p → p < bound → slot 512 4 p = N)
    (hlast : ∀ p, slot 512 4 p = N → lastPage 4 p < 2 ^ 52)
    (hop : mapTable alloc 3 N vs ve δ attr x = some y) : VacantFrom y.1 (ve + 1) bound := by
  intro p hp hbound
  have hvs : vs ≤ p := hle.trans (Nat.le_of_succ_le hp)
  obtain ⟨hnone, hno⟩ := hvac p hvs hbound
  have hslot := hroot p hvs hbound
  constructor
  · have hpage := mapTable_find hw (hle.trans_lt hve) hve hslot (hlast p hslot) hop
    rw [hnone] at hpage
    exact (hpage.kept fun _ hle => absurd hp (Nat.not_le.mpr (Nat.lt_succ_of_le hle))).none_left
  · intro j hj hfirst
    exact mapTable_noTable hj hslot hnone (hno j hj (hle.trans (Nat.le_of_succ_le hfirst)))
      (.inl (not_touches_of_lt hfirst)) hop

/-- Mapping a vacant range installs it. -/
lemma VacantFrom.installed (hvac : VacantFrom x.1 vs bound) (hw : x.1.Wf 512 LeafOk 3) (hle : vs ≤ ve)
    (hve : ve < 2 ^ 52) (hbound : ve < bound) (hroot : ∀ p, vs ≤ p → p < bound → slot 512 4 p = N)
    (hlast : ∀ p, slot 512 4 p = N → lastPage 4 p < 2 ^ 52)
    (hop : mapTable alloc 3 N vs ve δ attr x = some y) : Installed y.1 vs ve δ attr := by
  intro p hvs hp
  obtain ⟨hnone, hno⟩ := hvac p hvs (hp.trans_lt hbound)
  have hslot := hroot p hvs (hp.trans_lt hbound)
  have hpage := mapTable_find hw (hle.trans_lt hve) hve hslot (hlast p hslot) hop
  obtain ⟨v, hv, hpart, hfirst, hlast', -⟩ := hpage.mapped hvs hp (by simp [hnone])
  have hv2 := (Entries.ok_of_find (mapTable_wf hw hop) hv).1
  refine ⟨v, hv, hpart, ⟨hfirst, hlast', hv2⟩, fun j hfits => ?_⟩
  have hj : j ≤ 3 := hfits.2.2.trans (by norm_num)
  exact (mapTable_noTable hj hslot hnone (hno j hj hfits.1) (.inr hfits) hop).le_of_find hj hv

/-- A range that comes later keeps what is installed. -/
lemma Installed.map {vs' ve' δ' : ℕ} {attr' : PagesAttributes} (hinst : Installed x.1 vs' ve' δ' attr')
    (hlt : ve' < vs) (hroot : ∀ p, vs' ≤ p → p ≤ ve' → slot 512 4 p = N)
    (hop : mapTable alloc 3 N vs ve δ attr x = some y) : Installed y.1 vs' ve' δ' attr' := by
  intro p hvs hp
  obtain ⟨v, hv, hpart, hfits, hmax⟩ := hinst p hvs hp
  refine ⟨v, ?_, hpart, hfits, hmax⟩
  exact mapTable_find_of_not_touches (hroot p hvs hp) hv
    (not_touches_of_gt (hfits.2.1.trans_lt hlt)) hop

/-! ### What the hardware does with a leaf -/

namespace Services

variable {S : Services} {s : State} {t : Table} {va : VirtualPA}

lemma pageNumber_lt (va : VirtualPA) : pageNumber va < 2 ^ 52 := by
  have hlt := va.isLt
  rw [pageNumber]
  omega

/-- A walk looks at the page of an address only. -/
lemma getIndexInTable_eq (va : VirtualPA) (hk : k ≤ 3) :
    getIndexInTable va (4 - k) = getIndexInTable (pageAddr (pageNumber va)) (4 - k) := by
  have hlt := va.isLt
  rw [getIndexInTable_pageAddr hk (pageNumber_lt va), getIndexInTable,
    toNat_and_maskBits _ (by norm_num) (by norm_num), BitVec.toNat_ushiftRight, Nat.shiftRight_eq_div_pow, slot,
    pageNumber]
  interval_cases k <;> norm_num <;> omega

lemma findEntryInTable_eq (tbl : MMUTable) (s : State) (va q : VirtualPA) (hk : k ≤ 3) :
    findEntryInTable tbl s (k + 1) q (4 - k) va =
      findEntryInTable tbl s (k + 1) q (4 - k) (pageAddr (pageNumber va)) := by
  induction k generalizing q with
  | zero =>
    rw [findEntryInTable, findEntryInTable]
    simp only [getIndexInTable_eq va hk, findEntryInTable]
  | succ k ih =>
    have hlevel : 4 - (k + 1) + 1 = 4 - k := by omega
    rw [findEntryInTable, findEntryInTable]
    simp only [getIndexInTable_eq va hk, hlevel, ih _ (Nat.le_of_succ_le hk)]

/-- The hardware takes the frame without the bits below the size of the leaf, and the bits of the address
below it. -/
lemma Holds.hardwareTranslate_of_find (ht : S.Holds s t) (hf : t.find 512 3 (pageNumber va) = some v) :
    ∃ pa, hardwareTranslate S.table s va = some pa ∧
      pa.toNat = 4096 * (v.2.frame / 512 ^ v.1 * 512 ^ v.1) + va.toNat % (4096 * 512 ^ v.1) := by
  obtain ⟨hk, hlt⟩ := Entries.ok_of_find ht.wf hf
  have hrel := ht.find_rel (pageNumber_lt va)
  rw [hf] at hrel
  have hfind := findEntryInTable_eq S.table s va S.table.pgd (le_refl 3)
  cases hentry : findEntryInTable S.table s 4 S.table.pgd 1 (pageAddr (pageNumber va)) with
  | none =>
    rw [hentry] at hrel
    cases hrel
  | some a =>
    obtain ⟨table, index, level⟩ := a
    rw [hentry] at hrel
    obtain ⟨-, hlevel, pa, hframe, hdecode⟩ := Option.rel_some_some.mp hrel
    have hmask : s.mem table index &&& maskBits 12 47 = pageAddr v.2.frame := by
      rw [← hframe, ← and_mask_eq_pageAddr]
      exact congrArg Prod.fst hdecode
    have hoffset : (va &&& maskBits 0 (12 + 9 * v.1 - 1)).toNat = va.toNat % (4096 * 512 ^ v.1) := by
      rw [toNat_and_maskBits _ (Nat.zero_le _) (by omega), ← two_pow_blockSize, Nat.sub_zero,
        Nat.sub_add_cancel (by omega), pow_zero, Nat.div_one, Nat.mul_one]
    rw [hardwareTranslate]
    refine ⟨_, by rw [hfind, hentry, Option.map_some], ?_⟩
    dsimp only at hlevel ⊢
    rw [hlevel, Nat.sub_sub_self (hk.trans (by norm_num)), output_or_offset hk, BitVec.toNat_add,
      toNat_and_maskBits_of_frame hk hmask hlt, hoffset]
    refine Nat.mod_eq_of_lt ?_
    have hle := Nat.div_mul_le_self v.2.frame (512 ^ v.1)
    have hpow : 4096 * 512 ^ v.1 ≤ 4096 * 512 ^ 2 :=
      Nat.mul_le_mul_left 4096 (Nat.pow_le_pow_right (by norm_num) hk)
    have hmod := Nat.mod_lt va.toNat (Nat.mul_pos (by norm_num : 0 < 4096) (Nat.pow_pos (by norm_num : 0 < 512)
      (n := v.1)))
    omega

lemma firstPage_add_mod (k p : ℕ) : firstPage k p + p % 512 ^ k = p := Nat.div_add_mod' p (512 ^ k)

/-- The page, and the place in it, that the hardware translates to. -/
lemma Holds.hardwareTranslate_page (ht : S.Holds s t) (hf : t.find 512 3 (pageNumber va) = some v) :
    ∃ pa, hardwareTranslate S.table s va = some pa ∧
      pa.toNat = 4096 * (v.2.frame / 512 ^ v.1 * 512 ^ v.1 + pageNumber va % 512 ^ v.1) +
        va.toNat % 4096 := by
  obtain ⟨pa, hpa, hvalue⟩ := ht.hardwareTranslate_of_find hf
  refine ⟨pa, hpa, ?_⟩
  rw [hvalue, Nat.mod_mul, Nat.mul_add, pageNumber]
  ring

section Linear

variable {pf : ℕ}

/-- The frame of a leaf that maps its slot from page `pf` on. -/
lemma frame_of_part (hpart : Part (displacement pf vs) attr p v) (hfirst : vs ≤ firstPage v.1 p)
    (hp : p < 2 ^ 52) (hfit : pf + (p - vs) < 2 ^ 36) : v.2.frame = firstPage v.1 p - vs + pf := by
  have hle : firstPage v.1 p ≤ p := firstPage_le
  rw [hpart.2, displacement]
  omega

/-- A leaf whose frame is a multiple of its size is translated as it should be. -/
lemma frame_add_of_modEq (hpart : Part (displacement pf vs) attr p v) (hfirst : vs ≤ firstPage v.1 p)
    (hp : p < 2 ^ 52) (hfit : pf + (p - vs) < 2 ^ 36) (hmod : pf ≡ vs [MOD 512 ^ v.1]) :
    v.2.frame / 512 ^ v.1 * 512 ^ v.1 + p % 512 ^ v.1 = pf + (p - vs) := by
  have hframe := frame_of_part hpart hfirst hp hfit
  have hsum := firstPage_add_mod v.1 p
  have hdvd : 512 ^ v.1 ∣ v.2.frame := by
    rw [hframe]
    refine (Nat.modEq_zero_iff_dvd.mp ?_)
    calc firstPage v.1 p - vs + pf
        ≡ firstPage v.1 p - vs + vs [MOD 512 ^ v.1] := hmod.add_left _
      _ = firstPage v.1 p := Nat.sub_add_cancel hfirst
      _ ≡ 0 [MOD 512 ^ v.1] := Nat.modEq_zero_iff_dvd.mpr dvd_firstPage
  rw [Nat.div_mul_cancel hdvd, hframe]
  omega

/-- A leaf that is translated as it should be is displaced by a multiple of its size. -/
lemma modEq_of_frame_add (hvs : vs ≤ p)
    (h : v.2.frame / 512 ^ v.1 * 512 ^ v.1 + p % 512 ^ v.1 = pf + (p - vs)) :
    pf ≡ vs [MOD 512 ^ v.1] := by
  have hp : p ≡ pf + (p - vs) [MOD 512 ^ v.1] := by
    rw [← h]
    exact (Nat.mod_modEq _ _).symm.trans (by simp [Nat.ModEq])
  refine Nat.ModEq.add_right_cancel' (p - vs) ?_
  rw [Nat.add_sub_cancel' hvs]
  exact hp.symm

lemma frame_add_lt (hv : LeafOk v.1 v.2) (p : ℕ) :
    v.2.frame / 512 ^ v.1 * 512 ^ v.1 + p % 512 ^ v.1 < 2 ^ 36 := by
  obtain ⟨c, hc⟩ := dvd_frames hv.1
  have hpos : 0 < 512 ^ v.1 := Nat.pow_pos (by norm_num)
  have hlt : v.2.frame / 512 ^ v.1 < c := by
    rw [Nat.div_lt_iff_lt_mul hpos, Nat.mul_comm, ← hc]
    exact hv.2
  calc v.2.frame / 512 ^ v.1 * 512 ^ v.1 + p % 512 ^ v.1
      < v.2.frame / 512 ^ v.1 * 512 ^ v.1 + 512 ^ v.1 := Nat.add_lt_add_left (Nat.mod_lt p hpos) _
    _ = (v.2.frame / 512 ^ v.1 + 1) * 512 ^ v.1 := (Nat.succ_mul _ _).symm
    _ ≤ c * 512 ^ v.1 := Nat.mul_le_mul_right _ hlt
    _ = 2 ^ 36 := by rw [hc, Nat.mul_comm]

/-- What an installed range must meet for the hardware to translate it linearly: it begins at a page, fits in
the physical addresses, and where a whole slot lies in it both addresses differ by a multiple of the size
of the slot. -/
structure Linearly (pa : PhysicalPA) (vs n : ℕ) : Prop where
  page : pa.toNat % 4096 = 0
  fits : pa.toNat + 4096 * n ≤ 2 ^ 48
  block : ∀ k ≤ 2, ∀ c, vs ≤ c * 512 ^ k → (c + 1) * 512 ^ k ≤ vs + n → pageNumber pa ≡ vs [MOD 512 ^ k]

variable {n : ℕ} {pa : PhysicalPA}

/-- The address at distance `d` in an installed range. -/
lemma Holds.hardwareTranslate_installed {d : ℕ} (ht : S.Holds s t)
    (hinst : Installed t vs (vs + n - 1) (displacement (pageNumber pa) vs) attr) (hvs : vs + n ≤ 2 ^ 52)
    (hd : d < 4096 * n) :
    ∃ v out, LeafOk v.1 v.2 ∧ Part (displacement (pageNumber pa) vs) attr (vs + d / 4096) v ∧
      Fits v.1 vs (vs + n - 1) (vs + d / 4096) ∧ (∀ j, Fits j vs (vs + n - 1) (vs + d / 4096) → j ≤ v.1) ∧
      hardwareTranslate S.table s (.ofNat 64 (4096 * vs + d)) = some out ∧
      out.toNat = 4096 * (v.2.frame / 512 ^ v.1 * 512 ^ v.1 + (vs + d / 4096) % 512 ^ v.1) + d % 4096 := by
  have hva : (BitVec.ofNat 64 (4096 * vs + d)).toNat = 4096 * vs + d := by
    rw [BitVec.toNat_ofNat, Nat.mod_eq_of_lt]
    omega
  have hpage : pageNumber (.ofNat 64 (4096 * vs + d)) = vs + d / 4096 := by
    rw [pageNumber, hva, Nat.mul_add_div (by norm_num)]
  obtain ⟨v, hv, hpart, hfits, hmax⟩ := hinst (vs + d / 4096) (Nat.le_add_right _ _) (by omega)
  rw [← hpage] at hv
  obtain ⟨out, hout, hvalue⟩ := ht.hardwareTranslate_page hv
  rw [hva, Nat.mul_add_mod, hpage] at hvalue
  exact ⟨v, out, Entries.ok_of_find ht.wf hv, hpart, hfits, hmax, hout, hvalue⟩

/-- The hardware translates an installed range linearly exactly when it can. -/
lemma Holds.linearly_iff (ht : S.Holds s t)
    (hinst : Installed t vs (vs + n - 1) (displacement (pageNumber pa) vs) attr) (hn : 0 < n)
    (hn32 : n ≤ 2 ^ 32) (hvs : vs + n ≤ 2 ^ 52) :
    (∀ d < 4096 * n, hardwareTranslate S.table s (.ofNat 64 (4096 * vs + d)) = some (pa + .ofNat 64 d)) ↔
      Linearly pa vs n := by
  have hadd : ∀ d < 4096 * n, (pa + BitVec.ofNat 64 d).toNat = (pa.toNat + d) % 2 ^ 64 := by
    intro d hd
    rw [BitVec.toNat_add, BitVec.toNat_ofNat, Nat.add_mod_mod]
  constructor
  · intro h
    have hout : ∀ d < 4096 * n, ∃ v : ℕ × Mapping, LeafOk v.1 v.2 ∧
        (∀ j, Fits j vs (vs + n - 1) (vs + d / 4096) → j ≤ v.1) ∧ (pa.toNat + d) % 2 ^ 64 =
          4096 * (v.2.frame / 512 ^ v.1 * 512 ^ v.1 + (vs + d / 4096) % 512 ^ v.1) + d % 4096 := by
      intro d hd
      obtain ⟨v, out, hok, -, -, hmax, hout, hvalue⟩ := ht.hardwareTranslate_installed hinst hvs hd
      rw [h d hd, Option.some.injEq] at hout
      rw [← hout, hadd d hd] at hvalue
      exact ⟨v, hok, hmax, hvalue⟩
    have hlt : ∀ d < 4096 * n, (pa.toNat + d) % 2 ^ 64 < 2 ^ 48 := by
      intro d hd
      obtain ⟨v, hok, -, hvalue⟩ := hout d hd
      have hframe := frame_add_lt hok (vs + d / 4096)
      omega
    have hpa := pa.isLt
    have hpa48 := hlt 0 (by omega)
    have hpage : pa.toNat % 4096 = 0 := by
      obtain ⟨v, -, -, hvalue⟩ := hout 0 (by omega)
      omega
    refine ⟨hpage, ?_, fun k hk c hfirst hlast => ?_⟩
    · have hend := hlt (4096 * n - 1) (by omega)
      omega
    · have hpos : 0 < 512 ^ k := Nat.pow_pos (by norm_num)
      rw [Nat.succ_mul] at hlast
      have hslot : slot 512 k (c * 512 ^ k) = c := slot_lo
      obtain ⟨d, hd⟩ : ∃ d, vs + d = c * 512 ^ k := ⟨c * 512 ^ k - vs, Nat.add_sub_cancel' hfirst⟩
      obtain ⟨v, -, hmax, hvalue⟩ := hout (4096 * d) (by omega)
      rw [Nat.mul_div_cancel_left d (by norm_num), hd] at hmax hvalue
      have hle : k ≤ v.1 := by
        refine hmax k ⟨?_, ?_, hk⟩
        · rwa [firstPage_eq hslot, lo]
        · rw [lastPage_eq hslot, hi]
          omega
      have hmod : pageNumber pa ≡ vs [MOD 512 ^ v.1] := by
        refine modEq_of_frame_add hfirst ?_
        rw [pageNumber]
        omega
      exact hmod.of_dvd (pow_dvd_pow 512 hle)
  · rintro ⟨hpage, hfit, hblock⟩ d hd
    obtain ⟨v, out, hok, hpart, ⟨hfirst, hlast, hv2⟩, -, hout, hvalue⟩ :=
      ht.hardwareTranslate_installed hinst hvs hd
    rw [hout, Option.some.injEq]
    apply BitVec.eq_of_toNat_eq
    have hmod : pageNumber pa ≡ vs [MOD 512 ^ v.1] := by
      have hpos : 0 < 512 ^ v.1 := Nat.pow_pos (by norm_num)
      refine hblock v.1 hv2 (slot 512 v.1 (vs + d / 4096)) hfirst ?_
      rw [lastPage, hi] at hlast
      rw [Nat.succ_mul]
      omega
    have hframe := frame_add_of_modEq hpart hfirst (by omega) (by rw [pageNumber]; omega) hmod
    rw [hvalue, hframe, hadd d hd, pageNumber]
    omega

end Linear

end Services

end PiKachulm.Mmu

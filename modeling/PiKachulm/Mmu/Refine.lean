import PiKachulm.Mmu.Rep
import PiKachulm.Mmu.Walk

/-!
# The operations refine those on trees

Each recursive function of `mmu_table.cpp`, run on a table that holds a tree, fails when the
operation on the tree does and leaves the result of that operation in memory otherwise. One lemma
for the loop that the functions share, and one for each body.
-/

namespace PiKachulm.Mmu

open Libk Core

variable {S : Services} {F : Set VirtualPA} {mem₀ : VirtualPA → ℕ → BitVec 64} {q : VirtualPA}
  {k n N vs ve : ℕ} {attr : PagesAttributes} {s : State} {x : Table × History VirtualPA}

namespace Services

/-! ### The loop over the entries -/

lemma max_pageAddr {a c : ℕ} (ha : a < 2 ^ 52) (hc : c < 2 ^ 52) :
    Libk.max (pageAddr a) (pageAddr c) = pageAddr (max a c) := by
  rw [Libk.max]
  split_ifs with hlt
  · rw [pageAddr_lt_pageAddr ha hc] at hlt
    rw [Nat.max_eq_right hlt.le]
  · rw [pageAddr_lt_pageAddr ha hc, not_lt] at hlt
    rw [Nat.max_eq_left hlt]

lemma min_pageAddr {a c : ℕ} (ha : a < 2 ^ 52) (hc : c < 2 ^ 52) :
    Libk.min (pageAddr a) (pageAddr c) = pageAddr (min a c) := by
  rw [Libk.min]
  split_ifs with hlt
  · rw [pageAddr_lt_pageAddr ha hc] at hlt
    rw [Nat.min_eq_left hlt.le]
  · rw [pageAddr_lt_pageAddr ha hc, not_lt] at hlt
    rw [Nat.min_eq_right hlt]

lemma slot_max {a c : ℕ} : slot 512 k (max a c) = max (slot 512 k a) (slot 512 k c) :=
  (Monotone.map_max fun _ _ hac => slot_le_slot hac)

lemma slot_min {a c : ℕ} : slot 512 k (min a c) = min (slot 512 k a) (slot 512 k c) :=
  (Monotone.map_min fun _ _ hac => slot_le_slot hac)

/-- The indices that the loop runs over are those of the entries that the range meets. -/
lemma touched_eq (hk : k ≤ 3) (hN : hi 512 (k + 1) N < 2 ^ 52) (hvs : vs < 2 ^ 52)
    (hve : ve < 2 ^ 52) (h₁ : lo 512 (k + 1) N ≤ ve) (h₂ : vs ≤ hi 512 (k + 1) N) :
    touched k N vs ve =
      List.range' (getIndexInTable (pageAddr (max vs (lo 512 (k + 1) N))) (4 - k))
        (getIndexInTable (pageAddr (min ve (hi 512 (k + 1) N))) (4 - k) + 1 -
          getIndexInTable (pageAddr (max vs (lo 512 (k + 1) N))) (4 - k)) := by
  have hlo : lo 512 (k + 1) N < 2 ^ 52 := lt_of_le_of_lt lo_le_hi hN
  have hslo : slot 512 k (lo 512 (k + 1) N) = N * 512 := by rw [← lo_mul, slot_lo]
  have hshi : slot 512 k (hi 512 (k + 1) N) = N * 512 + 511 := by
    rw [← hi_mul_add, slot_hi]
  have hs₁ : slot 512 k (lo 512 (k + 1) N) ≤ slot 512 k ve := slot_le_slot h₁
  have hs₂ : slot 512 k vs ≤ slot 512 k (hi 512 (k + 1) N) := slot_le_slot h₂
  rw [getIndexInTable_pageAddr hk (max_lt hvs hlo), getIndexInTable_pageAddr hk (min_lt_of_left_lt hve),
    slot_max, slot_min, hslo, hshi, touched]
  rw [hslo] at hs₁
  rw [hshi] at hs₂
  congr 1 <;> omega

lemma forEntries_rel {body : ℕ → VirtualPA → State → Option State}
    {op : ℕ → PageTree × History VirtualPA → Option (PageTree × History VirtualPA)}
    (hk : k ≤ 3) (hN : hi 512 (k + 1) N < 2 ^ 52) (hvs : vs < 2 ^ 52) (hve : ve < 2 ^ 52)
    (hx : S.Owns F mem₀ q k s x)
    (hbody : ∀ i < 512, ∀ s x, S.Owns F mem₀ q k s x → hi 512 k (N * 512 + i) < 2 ^ 52 →
      Option.Rel (S.Owns F mem₀ q k) (body i (pageAddr (lo 512 k (N * 512 + i))) s)
        ((op (N * 512 + i) (x.1 i, x.2)).map fun y => (Function.update x.1 i y.1, y.2))) :
    Option.Rel (S.Owns F mem₀ q k)
      (forEntries (pageAddr vs) (pageAddr ve) (4 - k) (pageAddr (lo 512 (k + 1) N)) body s)
      (onTable k N vs ve op x) := by
  have hlo : lo 512 (k + 1) N < 2 ^ 52 := lt_of_le_of_lt lo_le_hi hN
  have hlast : tableLastPage (pageAddr (lo 512 (k + 1) N)) (4 - k) =
      some (pageAddr (hi 512 (k + 1) N)) := by
    have := tableLastPage_pageAddr (j := k + 1) (by omega) hN
    rwa [show 5 - (k + 1) = 4 - k by omega] at this
  rw [forEntries, hlast]
  simp only [Option.bind_eq_bind, Option.bind_some, gt_iff_lt, pageAddr_lt_pageAddr hve hlo,
    pageAddr_lt_pageAddr hN hvs, pageAddr_lt_pageAddr hve hvs]
  split_ifs with hout
  · have hsame : onTable k N vs ve op x = some x := by
      rcases hout with hout | hout | hout
      · refine onTable_of_disjoint (.inl ?_)
        by_contra hslot
        exact absurd (lo_le_lo (not_lt.mp hslot)) (not_le.mpr (lo_slot_le.trans_lt hout))
      · refine onTable_of_disjoint (.inr ?_)
        by_contra hslot
        exact absurd (hi_le_hi (not_lt.mp hslot)) (not_le.mpr (hout.trans_le le_hi_slot))
      · exact onTable_of_lt hout
    rw [hsame]
    exact .some hx
  · simp only [not_or, not_lt] at hout
    rw [onTable, if_neg (not_lt.mpr hout.2.2), updateCells, max_pageAddr hvs hlo,
      min_pageAddr hve hN, ← touched_eq hk hN hvs hve hout.1 hout.2.1]
    refine foldlM_rel hx fun i hi s x hx => ?_
    obtain ⟨hi, -⟩ := mem_touched.mp hi
    have hhi : Core.hi 512 k (N * 512 + i) ≤ Core.hi 512 (k + 1) N := by
      rw [← hi_mul_add]
      exact hi_le_hi (by omega)
    rw [getEntryVaFromTableIndex_pageAddr hk]
    exact hbody i hi s x hx (lt_of_le_of_lt hhi hN)

/-! ### Linear mappings -/

/-- Mapping linearly from page `first`, at physical address `pa`, displaces pages by `δ`. -/
def Linear (pa : PhysicalPA) (first δ : ℕ) : Prop :=
  ∀ a, frameOf (pa + (pageAddr a - pageAddr first)) = (a + δ) % 2 ^ 36

lemma linear_of_frame {pa : PhysicalPA} {first : ℕ} (hfirst : first < 2 ^ 52) :
    Linear (pa &&& maskBits 12 47) first (displacement (frameOf pa) first) := by
  intro a
  rw [frameOf_add_sub _ _ hfirst, toNat_and_mask_frame, displacement,
    Nat.mul_div_cancel _ (by norm_num)]

/-- The same mapping, entered at another page. -/
lemma Linear.shift {pa : PhysicalPA} {first δ : ℕ} (hlin : Linear pa first δ) (c : ℕ) :
    Linear (pa + (pageAddr c - pageAddr first)) c δ := by
  intro a
  rw [← hlin a, BitVec.add_assoc]
  congr 2
  grind

/-! ### Mapping -/

lemma callAlloc_table : S.table.callAlloc s = (S.alloc s.history).map fun p => (p, s.obtain p) := by
  simp only [MMUTable.callAlloc, table, Option.bind_eq_bind, Option.bind_some, Option.pure_def,
    Option.map_eq_bind]
  rfl

@[simp] lemma callResolveVa_table (p : VirtualPA) :
    S.table.callResolveVa p = some (S.resolveVa p) := rfl

@[simp] lemma callResolvePa_table (pa : PhysicalPA) :
    S.table.callResolvePa pa = some (S.resolvePa pa) := rfl

section Calls

variable {p : VirtualPA} {stop : ℕ} {m : Mapping} {pa : PhysicalPA}

/-- Running `map_range_in_table` on the table at `p` refines `mapTable`. -/
def MapRefines (S : Services) (F : Set VirtualPA) (mem₀ : VirtualPA → ℕ → BitVec 64)
    (p : VirtualPA) (k n : ℕ) : Prop :=
  ∀ vs ve pa δ attr s x, vs < 2 ^ 52 → ve < 2 ^ 52 → Linear pa vs δ → S.Owns F mem₀ p k s x →
    Option.Rel (S.Owns F mem₀ p k)
      (mapRangeInTable S.table (k + 1) (pageAddr vs) (pageAddr ve) pa attr p (4 - k)
        (pageAddr (lo 512 (k + 1) n)) s)
      (mapTable S.alloc k n vs ve δ attr x)

lemma prevPage_lt : prevPage vs < 2 ^ 52 := Nat.mod_lt _ (by norm_num)

lemma nextPage_lt : nextPage ve < 2 ^ 52 := Nat.mod_lt _ (by norm_num)

/-- The two calls that map again what a block covered around a range. -/
lemma remapAround_rel (hcall : MapRefines S F mem₀ p k n) (hlo : lo 512 (k + 1) n < 2 ^ 52)
    (hstop : stop < 2 ^ 52) (hm : frameOf pa = m.frame) (hx : S.Owns F mem₀ p k s x) :
    Option.Rel (S.Owns F mem₀ p k)
      ((mapRangeInTable S.table (k + 1) (pageAddr (lo 512 (k + 1) n)) (pageAddr vs - pageSize)
        (pa &&& maskBits 12 47) m.attr p (4 - k) (pageAddr (lo 512 (k + 1) n)) s).bind fun s =>
        mapRangeInTable S.table (k + 1) (pageAddr ve + pageSize) (pageAddr stop)
          ((pa &&& maskBits 12 47) + (pageAddr ve + pageSize - pageAddr (lo 512 (k + 1) n))) m.attr
          p (4 - k) (pageAddr (lo 512 (k + 1) n)) s)
      (remapAround S.alloc k n vs ve stop m x) := by
  have hlin : Linear (pa &&& maskBits 12 47) _ _ := linear_of_frame hlo
  rw [hm] at hlin
  rw [pageAddr_sub_pageSize, pageAddr_add_pageSize]
  refine rel_bind (hcall _ _ _ _ _ _ _ hlo prevPage_lt hlin hx) fun s' y hy => ?_
  exact hcall _ _ _ _ _ _ _ nextPage_lt hstop (hlin.shift _) hy

/-- The three calls that map again a block with other attributes in a range. -/
lemma recolorAround_rel (hcall : MapRefines S F mem₀ p k n) (hlo : lo 512 (k + 1) n < 2 ^ 52)
    (hvs : vs < 2 ^ 52) (hve : ve < 2 ^ 52) (hstop : stop < 2 ^ 52) (hm : frameOf pa = m.frame)
    (hx : S.Owns F mem₀ p k s x) :
    Option.Rel (S.Owns F mem₀ p k)
      ((mapRangeInTable S.table (k + 1) (pageAddr (lo 512 (k + 1) n)) (pageAddr vs - pageSize)
        (pa &&& maskBits 12 47) m.attr p (4 - k) (pageAddr (lo 512 (k + 1) n)) s).bind fun s =>
        (mapRangeInTable S.table (k + 1) (pageAddr vs) (pageAddr ve)
          ((pa &&& maskBits 12 47) + (pageAddr vs - pageAddr (lo 512 (k + 1) n))) attr
          p (4 - k) (pageAddr (lo 512 (k + 1) n)) s).bind fun s =>
          mapRangeInTable S.table (k + 1) (pageAddr ve + pageSize) (pageAddr stop)
            ((pa &&& maskBits 12 47) + (pageAddr ve + pageSize - pageAddr (lo 512 (k + 1) n)))
            m.attr p (4 - k) (pageAddr (lo 512 (k + 1) n)) s)
      (recolorAround S.alloc k n vs ve stop m attr x) := by
  have hlin : Linear (pa &&& maskBits 12 47) _ _ := linear_of_frame hlo
  rw [hm] at hlin
  rw [pageAddr_sub_pageSize, pageAddr_add_pageSize]
  refine rel_bind (hcall _ _ _ _ _ _ _ hlo prevPage_lt hlin hx) fun s' y hy => ?_
  refine rel_bind (hcall _ _ _ _ _ _ _ hvs hve (hlin.shift _) hy) fun s'' z hz => ?_
  exact hcall _ _ _ _ _ _ _ nextPage_lt hstop (hlin.shift _) hz

end Calls

/-- Clearing an entry first makes no difference to what is written over it. -/
lemma write_after_clear {c : Prop} [Decidable c] {i : ℕ} {entry : BitVec 64} :
    (if c then s.write q i 0 else s).write q i entry = s.write q i entry := by
  split_ifs
  · exact State.write_write
  · rfl

lemma getEntryKind_last_ne_table {entry : BitVec 64} : getEntryKind entry 4 ≠ .table := by
  rw [getEntryKind]
  split_ifs <;> simp_all

/-- The kind of the descriptor of a leaf. -/
lemma getEntryKind_of_leaf {i : ℕ} {m : Mapping} (hx : S.Owns F mem₀ q k s x) (hi : i < 512)
    (hm : x.1 i = .leaf m) : ∃ pa, frameOf pa = m.frame ∧
      decodeEntry (s.mem q i) = (pa &&& maskBits 12 47, m.attr) ∧
      getEntryKind (s.mem q i) (4 - k) = if 4 - k = 4 then .page else .block := by
  have hrep := hx.rep i hi
  rw [hm, rep_leaf] at hrep
  obtain ⟨pa, hentry, hframe⟩ := hrep
  refine ⟨pa, hframe, ?_, ?_⟩
  · rw [hentry, decodeEntry_encodeNewEntry]
  · rw [hentry, getEntryKind_encodeNewEntry]

theorem mapRangeInTable_rel (hk : k ≤ 3) (hN : hi 512 (k + 1) N < 2 ^ 52) :
    MapRefines S F mem₀ q k N := by
  induction k generalizing F mem₀ q N with
  | zero =>
    intro vs ve pa δ attr s x hvs hve hlin hx
    rw [mapRangeInTable, mapTable]
    refine forEntries_rel hk hN hvs hve hx fun i hi s x hx hhi => ?_
    have hnot : getEntryKind (s.mem q i) (4 - 0) ≠ .table := getEntryKind_last_ne_table
    have hstop := tableLastPage_pageAddr (j := 0) (by norm_num) hhi
    have hwrite := hx.writeLeaf hi (pa + (pageAddr (lo 512 0 (N * 512 + i)) - pageAddr vs)) attr
    rw [hlin] at hwrite
    simp only [if_neg hnot, hstop, write_after_clear, Option.bind_eq_bind, Option.bind_some,
      mapEntry_zero, Option.map_some]
    rw [if_pos (.inl trivial)]
    rw [lo_zero] at hwrite ⊢
    exact .some hwrite
  | succ k ih =>
    intro vs ve pa δ attr s x hvs hve hlin hx
    rw [mapRangeInTable, mapTable]
    refine forEntries_rel hk hN hvs hve hx fun i hi s x hx hhi => ?_
    obtain ⟨t, h⟩ := x
    have hk' : k ≤ 3 := by omega
    have hlo : lo 512 (k + 1) (N * 512 + i) < 2 ^ 52 := lt_of_le_of_lt lo_le_hi hhi
    have hlevel : 4 - (k + 1) + 1 = 4 - k := by omega
    have hstop : tableLastPage (pageAddr (lo 512 (k + 1) (N * 512 + i))) (4 - k) =
        some (pageAddr (Core.hi 512 (k + 1) (N * 512 + i))) := by
      have := tableLastPage_pageAddr (j := k + 1) (by omega) hhi
      rwa [show 5 - (k + 1) = 4 - k by omega] at this
    have hcov : (4 - (k + 1) = 4 ∨ (pageAddr vs ≤ pageAddr (lo 512 (k + 1) (N * 512 + i)) ∧
        pageAddr (Core.hi 512 (k + 1) (N * 512 + i)) ≤ pageAddr ve ∧ 4 - (k + 1) ≥ 2)) ↔
        (vs ≤ lo 512 (k + 1) (N * 512 + i) ∧ Core.hi 512 (k + 1) (N * 512 + i) ≤ ve ∧
          k + 1 ≤ 2) := by
      rw [pageAddr_le_pageAddr hvs hlo, pageAddr_le_pageAddr hhi hve]
      omega
    have hwrite := hx.writeLeaf hi
      (pa + (pageAddr (lo 512 (k + 1) (N * 512 + i)) - pageAddr vs)) attr
    rw [hlin] at hwrite
    have hhist : s.history = h := hx.history
    simp only [hlevel]
    cases hti : t i with
    | table p sub =>
      have hrep := hx.rep i hi
      simp only [hti, rep_table] at hrep
      obtain ⟨F', mem', hsub, hback⟩ := hx.subTable hi hti
      simp only [if_pos hrep.1, callResolvePa_table, hrep.2.1, Option.bind_eq_bind,
        Option.bind_some, mapEntry_table, Option.map_map]
      exact rel_map_right (ih hk' hhi _ _ _ _ _ _ _ hvs hve hlin hsub) hback
    | empty =>
      have hkind := hx.rep i hi
      simp only [hti, rep_empty] at hkind
      simp only [hkind, hstop, mapEntry_empty, hcov, write_after_clear, reduceCtorEq, if_false,
        Option.bind_eq_bind, Option.bind_some]
      split_ifs with hc
      · exact .some hwrite
      · rw [callAlloc_table, hhist]
        cases halloc : S.alloc h with
        | none => exact .none
        | some p =>
          obtain ⟨F', mem', hsub, hback⟩ := hx.newTable hi (by omega) halloc (.inl rfl)
          simp only [Option.map_some, Option.bind_some, callResolveVa_table, Option.map_map,
            Option.pure_def, Option.bind_fun_some]
          exact rel_map_right (ih hk' hhi _ _ _ _ _ _ _ hvs hve hlin hsub) hback
    | leaf m =>
      obtain ⟨pa', hframe, hdecode, hkind⟩ := getEntryKind_of_leaf hx hi hti
      rw [if_neg (by omega)] at hkind
      simp only [hkind, hdecode, hstop, mapEntry_leaf, hcov, write_after_clear, reduceCtorEq,
        if_false, if_true, Option.bind_eq_bind, Option.bind_some]
      split_ifs with hc
      · exact .some hwrite
      · have hhist' : (s.write q i 0).history = h := hhist
        rw [callAlloc_table, hhist']
        cases halloc : S.alloc h with
        | none => exact .none
        | some p =>
          obtain ⟨F', mem', hsub, hback⟩ := hx.newTable hi (by omega) halloc (.inr rfl)
          simp only [Option.map_some, Option.bind_some, callResolveVa_table, Option.map_map]
          refine rel_map_right ?_ hback
          refine rel_bind (ih hk' hhi _ _ _ _ _ _ _ hvs hve hlin hsub) fun s' y hy => ?_
          exact remapAround_rel (ih hk' hhi) hlo hhi hframe hy

/-! ### Unmapping -/

lemma entryVaStop_index {i : ℕ} (hi : i < 512) :
    entryVaStop k (N * 512 + i) = Core.hi 512 k (N * 512) := by
  have hN : (N * 512 + i) / 512 = N := by omega
  rw [entryVaStop, hN]

lemma entryVaStop_le {i : ℕ} (hi : i < 512) :
    entryVaStop k (N * 512 + i) ≤ Core.hi 512 (k + 1) N := by
  rw [entryVaStop_index hi, ← hi_mul_add]
  exact hi_le_hi (by omega)

/-- The last page that `unmap_range_in_table` computes for entry `i` is that of the first entry. -/
lemma tableLastPage_first {i : ℕ} (hk : k + 1 ≤ 3) (hN : hi 512 (k + 2) N < 2 ^ 52)
    (hi : i < 512) : tableLastPage (pageAddr (lo 512 (k + 1 + 1) N)) (4 - k) =
      some (pageAddr (entryVaStop (k + 1) (N * 512 + i))) := by
  have hle := entryVaStop_le (k := k + 1) (N := N) hi
  rw [entryVaStop_index hi] at hle ⊢
  have hlast := tableLastPage_pageAddr (j := k + 1) (by omega) (lt_of_le_of_lt hle hN)
  rwa [lo_mul, show 5 - (k + 1) = 4 - k by omega] at hlast

@[simp] lemma callFree_table {p : VirtualPA} : S.table.callFree p s = some (s.release p) := rfl

theorem unmapRangeInTable_rel (hk : k ≤ 3) (hN : hi 512 (k + 1) N < 2 ^ 52) (hvs : vs < 2 ^ 52)
    (hve : ve < 2 ^ 52) (hx : S.Owns F mem₀ q k s x) :
    Option.Rel (S.Owns F mem₀ q k)
      (unmapRangeInTable S.table (k + 1) (pageAddr vs) (pageAddr ve) q (4 - k)
        (pageAddr (lo 512 (k + 1) N)) s)
      (unmapTable S.alloc k N vs ve x) := by
  induction k generalizing F mem₀ q N s x with
  | zero =>
    rw [unmapRangeInTable, unmapTable]
    refine forEntries_rel hk hN hvs hve hx fun i hi s x hx hhi => ?_
    have hnot : getEntryKind (s.mem q i) (4 - 0) ≠ .table := getEntryKind_last_ne_table
    cases hti : x.1 i with
    | empty =>
      have hkind := hx.rep i hi
      rw [hti, rep_empty] at hkind
      simp only [hkind, unmapEntry, Option.map_some]
      have hsame : Function.update x.1 i .empty = x.1 := by rw [← hti, Function.update_eq_self]
      rw [hsame]
      exact .some hx
    | leaf m =>
      obtain ⟨pa, -, -, hkind⟩ := getEntryKind_of_leaf hx hi hti
      rw [if_pos rfl] at hkind
      simp only [hkind, unmapEntry, Option.map_some]
      exact .some (hx.writeEmpty hi)
    | table p sub =>
      have hrep := hx.rep i hi
      rw [hti] at hrep
      exact absurd hrep (by simp [Rep])
  | succ k ih =>
    rw [unmapRangeInTable, unmapTable]
    refine forEntries_rel hk hN hvs hve hx fun i hi s x hx hhi => ?_
    obtain ⟨t, h⟩ := x
    have hk' : k ≤ 3 := by omega
    have hlo : lo 512 (k + 1) (N * 512 + i) < 2 ^ 52 := lt_of_le_of_lt lo_le_hi hhi
    have hlevel : 4 - (k + 1) + 1 = 4 - k := by omega
    have hstop := tableLastPage_first hk hN hi
    have hstop52 : entryVaStop (k + 1) (N * 512 + i) < 2 ^ 52 :=
      lt_of_le_of_lt (entryVaStop_le hi) hN
    simp only [hlevel, hstop, Option.bind_eq_bind, Option.bind_some,
      pageAddr_le_pageAddr hvs hlo, pageAddr_le_pageAddr hstop52 hve]
    cases hti : t i with
    | empty =>
      have hkind := hx.rep i hi
      simp only [hti, rep_empty] at hkind
      simp only [hkind, unmapEntry, Option.map_some]
      have hsame : Function.update t i .empty = t := by rw [← hti, Function.update_eq_self]
      rw [hsame]
      exact .some hx
    | leaf m =>
      obtain ⟨pa, hframe, hdecode, hkind⟩ := getEntryKind_of_leaf hx hi hti
      rw [if_neg (by omega)] at hkind
      simp only [hkind, hdecode, unmapEntry]
      split_ifs with hc
      · exact .some (hx.writeEmpty hi)
      · have hhist : s.history = h := hx.history
        rw [callAlloc_table, hhist]
        cases halloc : S.alloc h with
        | none => exact .none
        | some p =>
          obtain ⟨F', mem', hsub, hback⟩ := hx.newTable hi (by omega) halloc (.inl rfl)
          rw [Option.map_some, Option.bind_some, callResolveVa_table, Option.bind_some,
            State.write_write, Option.bind_some, Option.map_map]
          refine rel_map_right ?_ hback
          exact remapAround_rel (mapRangeInTable_rel hk' hhi) hlo hstop52 hframe hsub
    | table p sub =>
      have hrep := hx.rep i hi
      simp only [hti, rep_table] at hrep
      obtain ⟨F', mem', hsub, hback⟩ := hx.subTable hi hti
      simp only [hrep.1, callResolvePa_table, hrep.2.1, unmapEntry, Option.bind_some,
        Option.map_map]
      refine rel_map_right_bind (ih hk' hhi hsub) fun s' y hy => ?_
      have hy' := hback s' y hy
      simp only [Function.comp_apply]
      split_ifs with hc
      · have hdrop := hy'.drop hi (Function.update_self _ _ _)
        rw [Function.update_idem] at hdrop
        exact .some hdrop
      · exact .some hy'

/-! ### Changing attributes -/

theorem changePropertiesForRange_rel (hk : k ≤ 3) (hN : hi 512 (k + 1) N < 2 ^ 52)
    (hvs : vs < 2 ^ 52) (hve : ve < 2 ^ 52) (hx : S.Owns F mem₀ q k s x) :
    Option.Rel (S.Owns F mem₀ q k)
      (changePropertiesForRange S.table (k + 1) (pageAddr vs) (pageAddr ve) attr q (4 - k)
        (pageAddr (lo 512 (k + 1) N)) s)
      (changeTable S.alloc k N vs ve attr x) := by
  induction k generalizing F mem₀ q N s x with
  | zero =>
    rw [changePropertiesForRange, changeTable]
    refine forEntries_rel hk hN hvs hve hx fun i hi s x hx hhi => ?_
    cases hti : x.1 i with
    | empty =>
      have hkind := hx.rep i hi
      rw [hti, rep_empty] at hkind
      simp only [hkind, changeEntry, Option.map_some]
      have hsame : Function.update x.1 i .empty = x.1 := by rw [← hti, Function.update_eq_self]
      rw [hsame]
      exact .some hx
    | leaf m =>
      obtain ⟨pa, hframe, hdecode, hkind⟩ := getEntryKind_of_leaf hx hi hti
      rw [if_pos rfl] at hkind
      simp only [hkind, hdecode, changeEntry, Option.map_some]
      have hwrite := hx.writeLeaf hi (pa &&& maskBits 12 47) attr
      rw [frameOf_and_mask, hframe] at hwrite
      exact .some hwrite
    | table p sub =>
      have hrep := hx.rep i hi
      rw [hti] at hrep
      exact absurd hrep (by simp [Rep])
  | succ k ih =>
    rw [changePropertiesForRange, changeTable]
    refine forEntries_rel hk hN hvs hve hx fun i hi s x hx hhi => ?_
    obtain ⟨t, h⟩ := x
    have hk' : k ≤ 3 := by omega
    have hlo : lo 512 (k + 1) (N * 512 + i) < 2 ^ 52 := lt_of_le_of_lt lo_le_hi hhi
    have hlevel : 4 - (k + 1) + 1 = 4 - k := by omega
    have hstop := tableLastPage_first hk hN hi
    have hstop52 : entryVaStop (k + 1) (N * 512 + i) < 2 ^ 52 :=
      lt_of_le_of_lt (entryVaStop_le hi) hN
    simp only [hlevel, hstop, Option.bind_eq_bind, Option.bind_some,
      pageAddr_le_pageAddr hvs hlo, pageAddr_le_pageAddr hstop52 hve]
    cases hti : t i with
    | empty =>
      have hkind := hx.rep i hi
      simp only [hti, rep_empty] at hkind
      simp only [hkind, changeEntry, Option.map_some]
      have hsame : Function.update t i .empty = t := by rw [← hti, Function.update_eq_self]
      rw [hsame]
      exact .some hx
    | leaf m =>
      obtain ⟨pa, hframe, hdecode, hkind⟩ := getEntryKind_of_leaf hx hi hti
      rw [if_neg (by omega)] at hkind
      simp only [hkind, hdecode, changeEntry]
      split_ifs with hc
      · have hwrite := hx.writeLeaf hi (pa &&& maskBits 12 47) attr
        rw [frameOf_and_mask, hframe] at hwrite
        exact .some hwrite
      · have hhist : s.history = h := hx.history
        rw [callAlloc_table, hhist]
        cases halloc : S.alloc h with
        | none => exact .none
        | some p =>
          obtain ⟨F', mem', hsub, hback⟩ := hx.newTable hi (by omega) halloc (.inl rfl)
          rw [Option.map_some, Option.bind_some, callResolveVa_table, Option.bind_some,
            Option.bind_some, Option.map_map]
          refine rel_map_right ?_ hback
          exact recolorAround_rel (mapRangeInTable_rel hk' hhi) hlo hvs hve hstop52 hframe hsub
    | table p sub =>
      have hrep := hx.rep i hi
      simp only [hti, rep_table] at hrep
      obtain ⟨F', mem', hsub, hback⟩ := hx.subTable hi hti
      simp only [hrep.1, callResolvePa_table, hrep.2.1, changeEntry, Option.bind_some,
        Option.map_map]
      exact rel_map_right (ih hk' hhi hsub) hback

/-! ### Clearing -/

theorem clearTable_rel (hk : k ≤ 3) (hx : S.Owns F mem₀ q k s x) (va : VirtualPA) :
    Option.Rel (S.Owns F mem₀ q k) (clearTable S.table (k + 1) q (4 - k) va s)
      (clearEntries k x) := by
  induction k generalizing F mem₀ q s x va with
  | zero =>
    rw [clearTable, clearEntries]
    refine foldlM_rel hx fun i hi s x hx => ?_
    have hi : i < 512 := List.mem_range.mp hi
    have hnot : getEntryKind (s.mem q i) (4 - 0) ≠ .table := getEntryKind_last_ne_table
    have hclear := hx.writeEmpty hi
    simp only [clearEntry, Option.map_some]
    cases hkind : getEntryKind (s.mem q i) (4 - 0) with
    | table => exact absurd hkind hnot
    | invalid => exact .some hclear
    | page => exact .some hclear
    | block => exact .some hclear
  | succ k ih =>
    rw [clearTable, clearEntries]
    refine foldlM_rel hx fun i hi s x hx => ?_
    have hi : i < 512 := List.mem_range.mp hi
    obtain ⟨t, h⟩ := x
    have hk' : k ≤ 3 := by omega
    have hlevel : 4 - (k + 1) + 1 = 4 - k := by omega
    simp only [hlevel]
    cases hti : t i with
    | empty =>
      have hkind := hx.rep i hi
      simp only [hti, rep_empty] at hkind
      simp only [hkind, clearEntry, Option.map_some]
      exact .some (hx.writeEmpty hi)
    | leaf m =>
      obtain ⟨pa, -, -, hkind⟩ := getEntryKind_of_leaf hx hi hti
      rw [if_neg (by omega)] at hkind
      simp only [hkind, clearEntry, Option.map_some]
      exact .some (hx.writeEmpty hi)
    | table p sub =>
      have hrep := hx.rep i hi
      simp only [hti, rep_table] at hrep
      obtain ⟨F', mem', hsub, hback⟩ := hx.abandon hi hti
      simp only [hrep.1, callResolvePa_table, hrep.2.1, callFree_table, clearEntry,
        Option.bind_eq_bind, Option.bind_some, Option.map_map]
      exact rel_map_right_bind (ih hk' hsub _) fun s' y hy => .some (hback s' y hy)

end Services

end PiKachulm.Mmu

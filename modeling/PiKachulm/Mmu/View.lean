import PiKachulm.Mmu.Refine
import PiKachulm.Mmu.TreeChange

/-!
# What the tables say about an address

`translate` reads the tables in memory as `find_entry_in_table` does; on a state that holds a tree
it gives what the tree maps the page to. The results of the operations of `mmu_table.cpp` can then
be read off the trees.
-/

namespace PiKachulm.Mmu

open Libk Core

/-- The physical address and attributes of `va`: the decoded address of the entry that
`find_entry_in_table` finds, plus the offset of `va` in the page or block. -/
def translate (tbl : MMUTable) (s : State) (va : VirtualPA) : Option (PhysicalPA × PagesAttributes) :=
  (findEntryInTable tbl s 4 tbl.pgd 1 va).map fun (table, index, level) =>
    let (pa, attr) := decodeEntry (s.mem table index)
    (pa + (va &&& maskBits 0 (12 + 9 * (4 - level) - 1)), attr)

/-- The level of the entry that `find_entry_in_table` finds for `va`. -/
def entryLevel (tbl : MMUTable) (s : State) (va : VirtualPA) : Option ℕ :=
  (findEntryInTable tbl s 4 tbl.pgd 1 va).map fun (_, _, level) => level

/-- The page that a leaf maps page `p` to. -/
def pageOf (p : ℕ) (u : ℕ × Mapping) : ℕ := u.2.frame + (p - firstPage u.1 p)

/-- What `translate` gives for page `p` of a leaf. -/
def leafView (p : ℕ) (u : ℕ × Mapping) : PhysicalPA × PagesAttributes :=
  (pageAddr (pageOf p u), u.2.attr)

lemma pageOf_lt {p : ℕ} {u : ℕ × Mapping} (hu : LeafOk u.1 u.2) : pageOf p u < 2 ^ 36 + 512 ^ 2 := by
  have hlt : p < firstPage u.1 p + 512 ^ u.1 := by
    have hle : p ≤ lastPage u.1 p := le_lastPage
    have hpos : 0 < 512 ^ u.1 := Nat.pow_pos (by norm_num)
    rw [lastPage, hi] at hle
    rw [firstPage, lo]
    omega
  have hpow : 512 ^ u.1 ≤ 512 ^ 2 := Nat.pow_le_pow_right (by norm_num) hu.1
  have hframe := hu.2
  rw [pageOf]
  omega

lemma leafView_eq_iff {p : ℕ} {u v : ℕ × Mapping} (hu : LeafOk u.1 u.2) (hv : LeafOk v.1 v.2) :
    leafView p u = leafView p v ↔ pageOf p u = pageOf p v ∧ u.2.attr = v.2.attr := by
  have hu' := pageOf_lt (p := p) hu
  have hv' := pageOf_lt (p := p) hv
  rw [leafView, leafView, Prod.mk.injEq, pageAddr_inj (by omega) (by omega)]

/-- A part of a leaf maps a page where the leaf does, unless its own first page is mapped past the
end of physical memory. -/
lemma pageOf_eq_iff {p : ℕ} {u v : ℕ × Mapping} {attr : PagesAttributes} (hp : p < 2 ^ 52)
    (hu : u.2.frame < 2 ^ 36) (hvu : v.1 ≤ u.1) (hv : Part (leafDisp p u) attr p v) :
    pageOf p v = pageOf p u ↔ u.2.frame + (firstPage v.1 p - firstPage u.1 p) < 2 ^ 36 := by
  have h₁ : firstPage u.1 p ≤ firstPage v.1 p := firstPage_anti hvu
  have h₂ : firstPage v.1 p ≤ p := firstPage_le
  rw [pageOf, pageOf, hv.2, leafDisp, displacement]
  omega

/-- It does so in any case when the page itself is mapped to physical memory. -/
lemma pageOf_eq_of_lt {p : ℕ} {u v : ℕ × Mapping} {attr : PagesAttributes} (hp : p < 2 ^ 52)
    (hu : u.2.frame < 2 ^ 36) (hvu : v.1 ≤ u.1) (hv : Part (leafDisp p u) attr p v)
    (hlt : pageOf p u < 2 ^ 36) : pageOf p v = pageOf p u := by
  have h₁ : firstPage u.1 p ≤ firstPage v.1 p := firstPage_anti hvu
  have h₂ : firstPage v.1 p ≤ p := firstPage_le
  refine (pageOf_eq_iff hp hu hvu hv).mpr ?_
  rw [pageOf] at hlt
  omega

lemma pageOf_mod {p : ℕ} {u v : ℕ × Mapping} {attr : PagesAttributes} (hp : p < 2 ^ 52)
    (hvu : v.1 ≤ u.1) (hv : Part (leafDisp p u) attr p v) :
    pageOf p v % 2 ^ 36 = pageOf p u % 2 ^ 36 := by
  have h₁ : firstPage u.1 p ≤ firstPage v.1 p := firstPage_anti hvu
  have h₂ : firstPage v.1 p ≤ p := firstPage_le
  rw [pageOf, pageOf, hv.2, leafDisp, displacement]
  omega

variable {S : Services} {F : Set VirtualPA} {mem₀ mem : VirtualPA → ℕ → BitVec 64}
  {q : VirtualPA} {k p : ℕ} {s : State} {t : Table} {x : Table × History VirtualPA}

namespace Services

/-- The state holds the tree `t`: a well-formed tree whose tables are pages in use. -/
structure Holds (S : Services) (s : State) (t : Table) : Prop where
  owns : S.Owns ∅ s.mem S.pgd 3 s (t, s.history)
  wf : t.Wf 512 LeafOk 3

/-- A `pgd` without entries, and no page in use. -/
def emptyState : State where
  mem _ _ := 0
  history := []

lemma holds_emptyState (S : Services) : S.Holds emptyState .empty := by
  refine ⟨⟨rfl, fun _ _ => rep_invalid, Entries.sep_empty, by simp, by simp, by simp, by simp,
    by simp, ?_, Set.mem_insert _ _⟩, Entries.wf_empty⟩
  rintro p (rfl | hp)
  · exact .inl rfl
  · exact absurd hp (Set.notMem_empty p)

/-! ### Looking up -/

/-- What the entry that is found for a page has in common with its leaf. -/
def LooksUp (s : State) (a : VirtualPA × ℕ × ℕ) (u : ℕ × Mapping) : Prop :=
  u.1 ≤ 3 ∧ a.2.2 = 4 - u.1 ∧ ∃ pa, frameOf pa = u.2.frame ∧
    decodeEntry (s.mem a.1 a.2.1) = (pa &&& maskBits 12 47, u.2.attr)

lemma findEntryInTable_rel (hk : k ≤ 3) (hp : p < 2 ^ 52)
    (hrep : ∀ i < 512, S.Rep s.mem k (s.mem q i) (t i)) :
    Option.Rel (LooksUp s)
      (findEntryInTable S.table s (k + 1) q (4 - k) (pageAddr p)) (t.find 512 k p) := by
  induction k generalizing q t with
  | zero =>
    have hrep := hrep _ (Nat.mod_lt (slot 512 0 p) (by norm_num))
    rw [findEntryInTable, Entries.find]
    simp only [getIndexInTable_pageAddr hk hp]
    cases hti : t (slot 512 0 p % 512) with
    | empty =>
      rw [hti, rep_empty] at hrep
      simp only [hrep, Node.find_empty]
      exact .none
    | leaf m =>
      rw [hti, rep_leaf] at hrep
      obtain ⟨pa, hentry, hframe⟩ := hrep
      simp only [hentry, getEntryKind_encodeNewEntry, Node.find_leaf]
      refine .some ⟨hk, rfl, pa, hframe, ?_⟩
      rw [hentry, decodeEntry_encodeNewEntry]
    | table q' sub =>
      rw [hti] at hrep
      exact absurd hrep (by simp [Rep])
  | succ k ih =>
    have hrep := hrep _ (Nat.mod_lt (slot 512 (k + 1) p) (by norm_num))
    have hlevel : 4 - (k + 1) + 1 = 4 - k := by omega
    rw [findEntryInTable, Entries.find]
    simp only [getIndexInTable_pageAddr hk hp]
    cases hti : t (slot 512 (k + 1) p % 512) with
    | empty =>
      rw [hti, rep_empty] at hrep
      simp only [hrep, Node.find_empty]
      exact .none
    | leaf m =>
      rw [hti, rep_leaf] at hrep
      obtain ⟨pa, hentry, hframe⟩ := hrep
      have hne : ¬4 - (k + 1) = 4 := by omega
      simp only [hentry, getEntryKind_encodeNewEntry, if_neg hne, Node.find_leaf]
      refine .some ⟨hk, rfl, pa, hframe, ?_⟩
      rw [hentry, decodeEntry_encodeNewEntry]
    | table q' sub =>
      rw [hti, rep_table] at hrep
      obtain ⟨hkind, hpa, hne, hsub⟩ := hrep
      simp only [hkind, callResolvePa_table, hpa, if_neg hne, hlevel, Node.find_table]
      exact ih (by omega) hsub

lemma and_mask_eq_pageAddr (pa : PhysicalPA) : pa &&& maskBits 12 47 = pageAddr (frameOf pa) := by
  apply BitVec.eq_of_toNat_eq
  rw [toNat_and_mask_frame, toNat_pageAddr_of_lt ((frameOf_lt pa).trans (by norm_num))]

/-- The offset of a page in the page or block of its entry. -/
lemma pageAddr_and_offset {k p : ℕ} (hk : k ≤ 3) (hp : p < 2 ^ 52) :
    pageAddr p &&& maskBits 0 (12 + 9 * k - 1) = pageAddr (p - firstPage k p) := by
  have hle : firstPage k p ≤ p := firstPage_le
  apply BitVec.eq_of_toNat_eq
  rw [toNat_and_maskBits _ (Nat.zero_le _) (by omega), toNat_pageAddr_of_lt hp,
    toNat_pageAddr_of_lt (by omega), firstPage, lo, slot]
  interval_cases k <;> norm_num <;> omega

lemma pageAddr_add {a c : ℕ} : pageAddr a + pageAddr c = pageAddr (a + c) := by
  apply BitVec.eq_of_toNat_eq
  rw [BitVec.toNat_add, toNat_pageAddr, toNat_pageAddr, toNat_pageAddr]
  omega

lemma Holds.find_rel (ht : S.Holds s t) (hp : p < 2 ^ 52) :
    Option.Rel (LooksUp s) (findEntryInTable S.table s 4 S.table.pgd 1 (pageAddr p))
      (t.find 512 3 p) :=
  findEntryInTable_rel (by norm_num) hp ht.owns.rep

/-- On a tree, `translate` gives what the leaf of the page says. -/
lemma Holds.translate_eq (ht : S.Holds s t) (hp : p < 2 ^ 52) :
    translate S.table s (pageAddr p) =
      (t.find 512 3 p).map (leafView p) := by
  refine rel_map_eq (ht.find_rel hp) ?_
  rintro ⟨table, index, level⟩ u ⟨hu, hlevel, pa, hframe, hdecode⟩
  dsimp only at hlevel hdecode ⊢
  rw [hdecode, hlevel, Nat.sub_sub_self (hu.trans (by norm_num))]
  dsimp only
  rw [pageAddr_and_offset hu hp, and_mask_eq_pageAddr, hframe, pageAddr_add, leafView, pageOf]

lemma Holds.entryLevel_eq (ht : S.Holds s t) (hp : p < 2 ^ 52) :
    entryLevel S.table s (pageAddr p) = (t.find 512 3 p).map fun u => 4 - u.1 := by
  refine rel_map_eq (ht.find_rel hp) ?_
  rintro ⟨table, index, level⟩ u ⟨-, hlevel, -⟩
  exact hlevel

/-! ### The address space of a table -/

/-- The slot of height 4 that the tables of a kind cover. -/
def rootSlot : Kind → ℕ
  | .kernel  => 2 ^ 16 - 1
  | .process => 0

lemma lo_rootSlot {kind : Kind} : lo 512 4 (rootSlot kind) = basePage kind := by
  cases kind <;> rfl

lemma hi_rootSlot_lt {kind : Kind} : hi 512 4 (rootSlot kind) < 2 ^ 52 := by
  cases kind <;> decide

def pageNumber (va : VirtualPA) : ℕ := va.toNat / 4096

lemma pageNumber_pageAddr (hp : p < 2 ^ 52) : pageNumber (pageAddr p) = p := by
  rw [pageNumber, toNat_pageAddr_of_lt hp, Nat.mul_div_cancel _ (by norm_num)]

lemma lt_of_slot_eq {kind : Kind} (hp : slot 512 4 p = rootSlot kind) : p < 2 ^ 52 :=
  lt_of_le_of_lt (slot_eq_iff.mp hp).2 hi_rootSlot_lt

lemma lastPage_lt_of_slot_eq {kind : Kind} (hp : slot 512 4 p = rootSlot kind) :
    lastPage 4 p < 2 ^ 52 := by
  rw [lastPage_eq hp]
  exact hi_rootSlot_lt

/-- `check_va` accepts the addresses of the pages of the slot. -/
lemma checkVa_iff_page {kind : Kind} {va : VirtualPA} : checkVa kind va = true ↔
    va = pageAddr (pageNumber va) ∧ slot 512 4 (pageNumber va) = rootSlot kind := by
  have hslot : ∀ n, slot 512 4 n = rootSlot kind ↔
      basePage kind ≤ n ∧ n < basePage kind + 2 ^ 36 := by
    intro n
    have hhi : hi 512 4 (rootSlot kind) = basePage kind + 2 ^ 36 - 1 := by cases kind <;> rfl
    rw [slot_eq_iff, lo_rootSlot, hhi]
    omega
  rw [checkVa_iff, hslot]
  constructor
  · rintro ⟨n, rfl, hn⟩
    have hn52 : n < 2 ^ 52 := lt_of_slot_eq ((hslot n).mpr hn)
    rw [pageNumber_pageAddr hn52]
    exact ⟨rfl, hn⟩
  · rintro ⟨hva, hn⟩
    exact ⟨_, hva, hn⟩

/-- A statement about every accepted address is one about every page. -/
lemma forall_checkVa {kind : Kind} {P : VirtualPA → Prop} :
    (∀ va, checkVa kind va = true → P va) ↔
      ∀ p, slot 512 4 p = rootSlot kind → P (pageAddr p) := by
  constructor
  · intro h p hp
    refine h _ (checkVa_iff_page.mpr ?_)
    rw [pageNumber_pageAddr (lt_of_slot_eq hp)]
    exact ⟨rfl, hp⟩
  · intro h va hva
    obtain ⟨heq, hslot⟩ := checkVa_iff_page.mp hva
    rw [heq]
    exact h _ hslot

lemma le_page {kind : Kind} {va : VirtualPA} (hva : checkVa kind va = true)
    (hp : slot 512 4 p = rootSlot kind) : va ≤ pageAddr p ↔ pageNumber va ≤ p := by
  obtain ⟨heq, hslot⟩ := checkVa_iff_page.mp hva
  conv_lhs => rw [heq]
  exact pageAddr_le_pageAddr (lt_of_slot_eq hslot) (lt_of_slot_eq hp)

lemma page_le {kind : Kind} {va : VirtualPA} (hva : checkVa kind va = true)
    (hp : slot 512 4 p = rootSlot kind) : pageAddr p ≤ va ↔ p ≤ pageNumber va := by
  obtain ⟨heq, hslot⟩ := checkVa_iff_page.mp hva
  conv_lhs => rw [heq]
  exact pageAddr_le_pageAddr (lt_of_slot_eq hp) (lt_of_slot_eq hslot)

lemma pageNumber_le {va va' : VirtualPA} (hle : va ≤ va') : pageNumber va ≤ pageNumber va' :=
  Nat.div_le_div_right hle

/-! ### The operations on a state that holds a tree -/

lemma Owns.to_holds {s' : State} {y : Table × History VirtualPA}
    (hy : S.Owns ∅ mem S.pgd 3 s' y) (hw : y.1.Wf 512 LeafOk 3) :
    S.Holds s' y.1 ∧ s'.history = y.2 := by
  refine ⟨⟨?_, hw⟩, hy.history⟩
  have hhist : (y.1, s'.history) = y := by rw [hy.history]
  rw [hhist]
  exact ⟨hy.history, hy.rep, hy.sep, hy.self, hy.used, by simp, hy.self_frame, hy.disjoint,
    hy.known, hy.root⟩

/-- What an operation on a range of pages does to a state: it fails with the operation `op` on
trees, and leaves the result of `op` in memory otherwise. -/
lemma Holds.run {f : Option State} {op : Option (Table × History VirtualPA)} {s' : State}
    (hrel : Option.Rel (S.Owns ∅ s.mem S.pgd 3) f op)
    (hw : ∀ y, op = some y → y.1.Wf 512 LeafOk 3) (hf : f = some s') :
    ∃ t', op = some (t', s'.history) ∧ S.Holds s' t' := by
  rw [hf] at hrel
  cases hop : op with
  | none =>
    rw [hop] at hrel
    cases hrel
  | some y =>
    rw [hop] at hrel
    cases hrel with
    | some hy =>
      obtain ⟨ht, hhist⟩ := hy.to_holds (hw y hop)
      exact ⟨y.1, by rw [hhist], ht⟩

lemma frameOf_add_pageAddr {pa : PhysicalPA} {vs : ℕ} (hvs : vs < 2 ^ 52) :
    Linear pa vs (displacement (pageNumber pa) vs) :=
  fun a => frameOf_add_sub pa a hvs

section Run

variable {vaStart vaEnd : VirtualPA} {paStart : PhysicalPA} {attr : PagesAttributes} {s' : State}

lemma pure_true_eq_some {f : Option State} (hf : (do let s ← f; pure (true, s)) = some (true, s')) :
    f = some s' := by
  simp only [Option.bind_eq_bind, Option.bind_eq_some_iff, Option.pure_def, Option.some.injEq,
    Prod.mk.injEq, true_and] at hf
  obtain ⟨s₁, hs₁, rfl⟩ := hf
  exact hs₁

lemma getBaseAddress_rootSlot {kind : Kind} :
    getBaseAddress kind = pageAddr (lo 512 (3 + 1) (rootSlot kind)) := by
  rw [lo_rootSlot, getBaseAddress_eq]

lemma Holds.mapRange_rel (ht : S.Holds s t) (h₁ : checkVa S.kind vaStart = true)
    (h₂ : checkVa S.kind vaEnd = true) :
    Option.Rel (S.Owns ∅ s.mem S.pgd 3)
      (mapRangeInTable S.table 4 vaStart vaEnd paStart attr S.pgd 1 (getBaseAddress S.kind) s)
      (mapTable S.alloc 3 (rootSlot S.kind) (pageNumber vaStart) (pageNumber vaEnd)
        (displacement (pageNumber paStart) (pageNumber vaStart)) attr (t, s.history)) := by
  obtain ⟨hstart, hs⟩ := checkVa_iff_page.mp h₁
  obtain ⟨hend, he⟩ := checkVa_iff_page.mp h₂
  have hs52 := lt_of_slot_eq hs
  have hroot : hi 512 (3 + 1) (rootSlot S.kind) < 2 ^ 52 := hi_rootSlot_lt
  have hrel := mapRangeInTable_rel le_rfl hroot _ _ paStart _ attr _ _ hs52
    (lt_of_slot_eq he) (frameOf_add_pageAddr hs52) ht.owns
  rw [← hstart, ← hend, ← getBaseAddress_rootSlot] at hrel
  exact hrel

lemma Holds.mapRange (ht : S.Holds s t)
    (hrun : Mmu.mapRange (some S.table) vaStart vaEnd paStart attr s = some (true, s')) :
    checkVa S.kind vaStart = true ∧ checkVa S.kind vaEnd = true ∧ ∃ t',
      mapTable S.alloc 3 (rootSlot S.kind) (pageNumber vaStart) (pageNumber vaEnd)
          (displacement (pageNumber paStart) (pageNumber vaStart)) attr (t, s.history) =
        some (t', s'.history) ∧ S.Holds s' t' := by
  rw [Mmu.mapRange] at hrun
  split_ifs at hrun with hcheck
  · cases hrun
  simp only [table, Option.isNone_some, Bool.false_or, Bool.or_eq_true, decide_eq_true_eq,
    Bool.not_eq_true', not_or, Bool.not_eq_false, S.pgd_ne, not_false_eq_true, true_and] at hcheck
  obtain ⟨h₁, h₂⟩ := hcheck
  refine ⟨h₁, h₂, ?_⟩
  exact Holds.run (ht.mapRange_rel h₁ h₂) (fun y hy => mapTable_wf ht.wf hy)
    (pure_true_eq_some hrun)

/-- The call returns when the operation on the tree does. -/
lemma Holds.mapRange_returns {y : Table × History VirtualPA} (ht : S.Holds s t)
    (h₁ : checkVa S.kind vaStart = true) (h₂ : checkVa S.kind vaEnd = true)
    (hop : mapTable S.alloc 3 (rootSlot S.kind) (pageNumber vaStart) (pageNumber vaEnd)
      (displacement (pageNumber paStart) (pageNumber vaStart)) attr (t, s.history) = some y) :
    ∃ s', Mmu.mapRange (some S.table) vaStart vaEnd paStart attr s = some (true, s') := by
  have hrel : Option.Rel _ (mapRangeInTable S.table 4 vaStart vaEnd paStart attr _ _ _ _) _ :=
    ht.mapRange_rel h₁ h₂
  rw [Mmu.mapRange]
  simp only [table, Option.isNone_some, Bool.false_or, Bool.or_false, h₁, h₂, Bool.not_true,
    decide_eq_true_eq, S.pgd_ne, if_false]
  rw [hop] at hrel
  change ∃ s', (do
    let s ← mapRangeInTable S.table 4 vaStart vaEnd paStart attr S.pgd 1 (getBaseAddress S.kind) s
    pure (true, s)) = some (true, s')
  generalize mapRangeInTable S.table 4 vaStart vaEnd paStart attr S.pgd 1
    (getBaseAddress S.kind) s = r at hrel ⊢
  cases hrel with
  | some _ => exact ⟨_, rfl⟩

lemma Holds.unmapRange (ht : S.Holds s t)
    (hrun : Mmu.unmapRange (some S.table) vaStart vaEnd s = some (true, s')) :
    checkVa S.kind vaStart = true ∧ checkVa S.kind vaEnd = true ∧ ∃ t',
      unmapTable S.alloc 3 (rootSlot S.kind) (pageNumber vaStart) (pageNumber vaEnd)
        (t, s.history) = some (t', s'.history) ∧ S.Holds s' t' := by
  rw [Mmu.unmapRange] at hrun
  split_ifs at hrun with hcheck
  · cases hrun
  simp only [table, Option.isNone_some, Bool.not_true, Bool.false_or, Bool.or_eq_true,
    decide_eq_true_eq, Bool.not_eq_true', not_or, Bool.not_eq_false, S.pgd_ne, not_false_eq_true,
    true_and] at hcheck
  obtain ⟨h₁, h₂⟩ := hcheck
  refine ⟨h₁, h₂, ?_⟩
  obtain ⟨hstart, hs⟩ := checkVa_iff_page.mp h₁
  obtain ⟨hend, he⟩ := checkVa_iff_page.mp h₂
  have hroot : hi 512 (3 + 1) (rootSlot S.kind) < 2 ^ 52 := hi_rootSlot_lt
  have hrel := unmapRangeInTable_rel le_rfl hroot (lt_of_slot_eq hs) (lt_of_slot_eq he)
    ht.owns
  rw [← hstart, ← hend, ← getBaseAddress_rootSlot] at hrel
  exact Holds.run hrel (fun y hy => unmapTable_wf ht.wf hy) (pure_true_eq_some hrun)

lemma Holds.changeAttrRange (ht : S.Holds s t)
    (hrun : Mmu.changeAttrRange (some S.table) vaStart vaEnd attr s = some (true, s')) :
    checkVa S.kind vaStart = true ∧ checkVa S.kind vaEnd = true ∧ ∃ t',
      changeTable S.alloc 3 (rootSlot S.kind) (pageNumber vaStart) (pageNumber vaEnd) attr
        (t, s.history) = some (t', s'.history) ∧ S.Holds s' t' := by
  rw [Mmu.changeAttrRange] at hrun
  split_ifs at hrun with hcheck
  · cases hrun
  simp only [table, Option.isNone_some, Bool.false_or, Bool.or_eq_true, decide_eq_true_eq,
    Bool.not_eq_true', not_or, Bool.not_eq_false, S.pgd_ne, not_false_eq_true, true_and] at hcheck
  obtain ⟨h₁, h₂⟩ := hcheck
  refine ⟨h₁, h₂, ?_⟩
  obtain ⟨hstart, hs⟩ := checkVa_iff_page.mp h₁
  obtain ⟨hend, he⟩ := checkVa_iff_page.mp h₂
  have hroot : hi 512 (3 + 1) (rootSlot S.kind) < 2 ^ 52 := hi_rootSlot_lt
  have hrel : Option.Rel _ (changePropertiesForRange _ _ _ _ attr _ _ _ _) _ :=
    changePropertiesForRange_rel le_rfl hroot (lt_of_slot_eq hs) (lt_of_slot_eq he) ht.owns
  rw [← hstart, ← hend, ← getBaseAddress_rootSlot] at hrel
  exact Holds.run hrel (fun y hy => changeTable_wf ht.wf hy) (pure_true_eq_some hrun)

end Run

end Services

end PiKachulm.Mmu

import PiKachulm.Mmu.TreePages
import PiKachulm.Mmu.UnmapRange

/-!
# Mapping page by page

Heaps and chunks of a process are mapped page by page, each page to a frame of its own. A page that
`map_range` has mapped translates to its frame, and the other pages keep their frames.
-/

namespace PiKachulm.Memory

open Core Mmu Services

/-- A physical page. -/
structure Frame where
  address : PhysicalPA
  aligned : address.toNat % 4096 = 0
  fits : address.toNat + 4096 ≤ 2 ^ 48

variable {S : Services} {s s' : State} {t : Table} {attr : PagesAttributes} {p p' k : ℕ} {m : Mapping}
  {alloc : AllocFun} {h : History VirtualPA} {e : PageTree}

/-- `get_properties` of `process_memory.cpp`. -/
def getProperties (readOnly executable : Bool) : PagesAttributes where
  sh := .innerShareable
  exec := if executable then .processExecute else .neverExecute
  rw := if readOnly then .readOnly else .readWrite
  access := .allProcess
  type := .normal

/-- Mapping a page succeeds just when the address is accepted, and changes nothing otherwise. -/
lemma mapRange_of_not_checkVa {va : VirtualPA} {pa : PhysicalPA} (hva : checkVa S.kind va = false) :
    mapRange (some S.table) va va pa attr s = some (false, s) := by
  rw [mapRange, if_pos (by simp [Services.table, hva])]

lemma eq_checkVa_of_mapRange {va : VirtualPA} {pa : PhysicalPA} {mapped : Bool}
    (hrun : mapRange (some S.table) va va pa attr s = some (mapped, s')) :
    mapped = checkVa S.kind va := by
  cases hva : checkVa S.kind va with
  | false =>
    rw [mapRange_of_not_checkVa hva] at hrun
    cases hrun
    rfl
  | true =>
    have hno : S.pgd ≠ 0#64 := S.pgd_ne
    rw [mapRange, if_neg (by simp [Services.table, hva, hno]), Option.bind_eq_bind,
      Option.bind_eq_some_iff] at hrun
    obtain ⟨_, -, hs⟩ := hrun
    cases hs
    rfl

/-- The pages of a process have numbers below `2 ^ 36`. -/
lemma slot_process_iff : slot 512 4 p = rootSlot .process ↔ p < 2 ^ 36 := by
  rw [rootSlot, slot, Nat.div_eq_zero_iff]
  norm_num

lemma checkVa_pageAddr (hp : p < 2 ^ 52) :
    checkVa .process (pageAddr p) = true ↔ p < 2 ^ 36 := by
  rw [checkVa_iff_page, pageNumber_pageAddr hp, slot_process_iff]
  exact and_iff_right rfl

/-- What a process gets when one of its pages is mapped. -/
lemma mapRange_page (ht : S.Holds s t) (hkind : S.kind = .process) (hpos : 0 < p) (hp : p < 2 ^ 52)
    {f : Frame} (hrun : mapRange (some S.table) (pageAddr p) (pageAddr p) f.address attr s =
      some (true, s')) :
    p < 2 ^ 36 ∧ (∃ t', S.Holds s' t') ∧
      translate S.table s' (pageAddr p) = some (f.address, attr) ∧
      ∀ p' < 2 ^ 36, p' ≠ p → KeepsTranslation (translate S.table s (pageAddr p'))
        (translate S.table s' (pageAddr p')) := by
  have hcheck := (ht.mapRange hrun).1
  have hlt : p < 2 ^ 36 := by
    rw [hkind] at hcheck
    exact (checkVa_pageAddr hp).mp hcheck
  have hnum : pageNumber (pageAddr p) = p := pageNumber_pageAddr hp
  have hcond : MapCondition t (pageNumber (pageAddr p)) (pageNumber (pageAddr p))
      (pageNumber f.address) attr := by
    rw [hnum]
    constructor
    · intro hzero
      exact absurd hzero hpos.ne'
    · intro hmax
      rw [hmax] at hlt
      exact absurd hlt (by norm_num)
  have hfit : f.address.toNat + (pageAddr p - pageAddr p).toNat + 4096 ≤ 2 ^ 48 := by
    rw [BitVec.sub_self]
    exact f.fits
  have hinst := (mapRange_installs_iff ht (BitVec.le_refl _) f.aligned hfit hrun).mpr hcond
  obtain ⟨hholds, hkeep⟩ := mapRange_keeps ht hrun
  refine ⟨hlt, hholds, ?_, fun p' hp' hne => ?_⟩
  · have hself := hinst _ hcheck (BitVec.le_refl _) (BitVec.le_refl _)
    rw [BitVec.sub_self, BitVec.add_zero] at hself
    exact hself
  · have hp'52 : p' < 2 ^ 52 := hp'.trans (by norm_num)
    apply hkeep
    · rw [hkind]
      exact (checkVa_pageAddr hp'52).mpr hp'
    · rw [pageAddr_le_pageAddr hp hp'52, pageAddr_le_pageAddr hp'52 hp]
      exact fun h => hne (le_antisymm h.2 h.1)

/-- The attributes of a page that keeps its frame. -/
lemma attr_of_keepsTranslation {r r' : Option (PhysicalPA × PagesAttributes)} {pa : PhysicalPA}
    (hk : KeepsTranslation r r') (hr : r = some (pa, attr)) : ∃ pa', r' = some (pa', attr) := by
  subst hr
  match r', hk with
  | some (pa', _), hk => exact ⟨pa', by rw [← hk.1]⟩

lemma exists_of_any {r : Option (Bool × State)} (hr : r.any Prod.fst = true) :
    ∃ s', r = some (true, s') := by
  obtain ⟨⟨b, s'⟩, rfl, hb⟩ := (Option.any_eq_true _ _).mp hr
  exact ⟨s', by rw [show b = true from hb]⟩

/-! ### Pages of their own -/

/-- Page `p` is mapped with the attributes, by an entry of its own. -/
def OwnPage (attr : PagesAttributes) (t : Table) (p : ℕ) : Prop :=
  ∃ f, t.find 512 3 p = some (0, ⟨f, attr⟩)

lemma OwnPage.of_keeps {t' : Table} (hp : OwnPage attr t p)
    (hkeep : Keeps p (t.find 512 3 p) (t'.find 512 3 p)) : OwnPage attr t' p := by
  obtain ⟨f, hf⟩ := hp
  rw [hf] at hkeep
  obtain ⟨⟨k, m⟩, hm, hle, hattr, -⟩ := hkeep.some_left
  obtain rfl : k = 0 := Nat.le_zero.mp hle
  obtain rfl : m.attr = attr := hattr
  exact ⟨m.frame, hm⟩

/-- A page with an entry of its own that is kept in an entry of its own keeps this entry. -/
lemma eq_of_part {u : ℕ × Mapping} (hp : p < 2 ^ 52) (hm : m.frame < 2 ^ 36) (hu : u.1 = 0)
    (hpart : Part (leafDisp p (0, m)) m.attr p u) : u = (0, m) := by
  obtain ⟨l, f, a⟩ := u
  obtain rfl : l = 0 := hu
  obtain ⟨rfl, hframe⟩ : a = m.attr ∧ f = _ := hpart
  have hself := part_self (x := (0, m)) hp hm
  rw [hframe, ← hself.2]

lemma Keeps.find_eq {r : Option (ℕ × Mapping)} (hk : Keeps p (some (0, m)) r) (hp : p < 2 ^ 52)
    (hm : m.frame < 2 ^ 36) : r = some (0, m) := by
  obtain ⟨u, rfl, hle, hpart⟩ := hk.some_left
  rw [eq_of_part hp hm (Nat.le_zero.mp hle) hpart]

lemma height_eq_zero (hfirst : p ≤ firstPage k p) (hlast : lastPage k p ≤ p) : k = 0 := by
  by_contra hk
  have hpow : 1 < 512 ^ k := Nat.one_lt_pow hk (by norm_num)
  rw [firstPage, lo] at hfirst
  rw [lastPage, hi] at hlast
  omega

/-- Mapping a page gives it an entry of its own, and maps no other page. -/
lemma ownPage_of_mapRange {pa : PhysicalPA} (ht : S.Holds s t) (hpos : 0 < p) (hp : p < 2 ^ 52 - 1)
    (hrun : mapRange (some S.table) (pageAddr p) (pageAddr p) pa attr s = some (true, s')) :
    checkVa S.kind (pageAddr p) = true ∧ ∃ t', S.Holds s' t' ∧ OwnPage attr t' p ∧
      ∀ p', slot 512 4 p' = rootSlot S.kind → p' ≠ p →
        Keeps p' (t.find 512 3 p') (t'.find 512 3 p') := by
  have hp52 : p < 2 ^ 52 := hp.trans_le (Nat.sub_le _ _)
  obtain ⟨hcheck, -, t', hop, ht'⟩ := ht.mapRange hrun
  rw [pageNumber_pageAddr hp52] at hop
  have hslot : slot 512 4 p = rootSlot S.kind := by
    have hpage := (checkVa_iff_page.mp hcheck).2
    rwa [pageNumber_pageAddr hp52] at hpage
  refine ⟨hcheck, t', ht', ?_, fun p' hp' hne => ?_⟩
  · have hpage := mapTable_find ht.wf hp52 hp52 hslot (lastPage_lt_of_slot_eq hslot) hop
    obtain ⟨⟨k, m⟩, hm, ⟨hattr, -⟩, -, hlast, -⟩ := hpage.mapped le_rfl le_rfl fun x _ hclob => by
      rcases hclob with ⟨hzero, -⟩ | ⟨hmax, -⟩
      · exact hpos.ne' hzero
      · exact hp.ne hmax
    have hfirst := (hpage.inside le_rfl le_rfl _ hm).1
    obtain rfl : k = 0 := height_eq_zero hfirst hlast
    obtain rfl : m.attr = attr := hattr
    exact ⟨m.frame, hm⟩
  · have hpage := mapTable_find ht.wf hp52 hp52 hp' (lastPage_lt_of_slot_eq hp') hop
    exact hpage.kept fun h₁ h₂ => absurd (le_antisymm h₂ h₁) hne

/-- A page with an entry of its own can be unmapped. -/
lemma unmapEntry_page_total (hf : e.find 512 k p = some (0, m)) {n : ℕ} (hp : slot 512 k p = n) :
    ∃ y, unmapEntry alloc k n p p (e, h) = some y := by
  induction k generalizing e n with
  | zero => exact ⟨_, rfl⟩
  | succ k ih =>
    cases e with
    | empty => exact ⟨_, rfl⟩
    | leaf m => simp at hf
    | table q sub =>
      rw [Node.find_table, Entries.find] at hf
      obtain ⟨y, hy⟩ := ih hf rfl
      have honTable : onTable k n p p (fun c => unmapEntry alloc k c p p) (sub, h) =
          some (Function.update sub (slot 512 k p % 512) y.1, y.2) := by
        rw [onTable, if_neg (lt_irrefl p), touched_page hp, updateCells_cons, slot_index hp]
        exact ⟨y.1, y.2, hy, updateCells_nil _ _⟩
      rw [unmapEntry, honTable]
      exact ⟨_, rfl⟩

/-- The call returns when the operation on the tree does. -/
lemma unmapRange_returns {y : Table × History VirtualPA} {vaStart vaEnd : VirtualPA}
    (ht : S.Holds s t) (h₁ : checkVa S.kind vaStart = true) (h₂ : checkVa S.kind vaEnd = true)
    (hop : unmapTable S.alloc 3 (rootSlot S.kind) (pageNumber vaStart) (pageNumber vaEnd)
      (t, s.history) = some y) :
    ∃ s', unmapRange (some S.table) vaStart vaEnd s = some (true, s') := by
  obtain ⟨hstart, hs⟩ := checkVa_iff_page.mp h₁
  obtain ⟨hend, he⟩ := checkVa_iff_page.mp h₂
  have hroot : hi 512 (3 + 1) (rootSlot S.kind) < 2 ^ 52 := hi_rootSlot_lt
  have hrel := unmapRangeInTable_rel le_rfl hroot (lt_of_slot_eq hs) (lt_of_slot_eq he) ht.owns
  rw [← hstart, ← hend, ← getBaseAddress_rootSlot, hop] at hrel
  rw [unmapRange]
  simp only [table, Option.isNone_some, Bool.not_true, Bool.false_or, Bool.or_false, h₁, h₂,
    decide_eq_true_eq, S.pgd_ne, if_false]
  change ∃ s', (do
    let s ← unmapRangeInTable S.table 4 vaStart vaEnd S.pgd 1 (getBaseAddress S.kind) s
    pure (true, s)) = some (true, s')
  generalize unmapRangeInTable S.table 4 vaStart vaEnd S.pgd 1 (getBaseAddress S.kind) s = r
    at hrel ⊢
  cases hrel with
  | some _ => exact ⟨_, rfl⟩

/-- A page below the one that is unmapped survives. -/
lemma survives_of_lt (hlt : p' < p) : Survives 3 0 p p p' := by
  refine ⟨fun i _ _ _ herased => ?_, fun htouch => ?_⟩
  · have hle : firstPage i p' ≤ p' := firstPage_le
    exact (herased.1.trans hle).not_gt hlt
  · exact absurd (touches_zero.mp htouch).1 hlt.not_ge

/-- Unmapping a page of its own succeeds; the pages below keep theirs, and no page is mapped. -/
lemma unmapRange_of_ownPage (ht : S.Holds s t) (hslot : slot 512 4 p = rootSlot S.kind)
    (hp : OwnPage attr t p) : ∃ s' t',
    unmapRange (some S.table) (pageAddr p) (pageAddr p) s = some (true, s') ∧ S.Holds s' t' ∧
      t'.find 512 3 p = none ∧ (∀ p' < p, slot 512 4 p' = rootSlot S.kind →
        ∀ m, t.find 512 3 p' = some (0, m) → t'.find 512 3 p' = some (0, m)) ∧
      ∀ p', slot 512 4 p' = rootSlot S.kind → t.find 512 3 p' = none → t'.find 512 3 p' = none := by
  have hp52 : p < 2 ^ 52 := lt_of_slot_eq hslot
  have hnum : pageNumber (pageAddr p) = p := pageNumber_pageAddr hp52
  have hcheck : checkVa S.kind (pageAddr p) = true := by
    rw [checkVa_iff_page, hnum]
    exact ⟨rfl, hslot⟩
  obtain ⟨f, hf⟩ := hp
  obtain ⟨y, hy⟩ : ∃ y, unmapEntry S.alloc 3 (slot 512 3 p) p p (t (slot 512 3 p % 512), s.history) =
      some y := unmapEntry_page_total hf rfl
  have hop : unmapTable S.alloc 3 (rootSlot S.kind) p p (t, s.history) =
      some (Function.update t (slot 512 3 p % 512) y.1, y.2) := by
    rw [unmapTable, onTable, if_neg (lt_irrefl p), touched_page hslot, updateCells_cons,
      slot_index hslot]
    exact ⟨y.1, y.2, hy, updateCells_nil _ _⟩
  obtain ⟨s', hrun⟩ := unmapRange_returns ht hcheck hcheck (by rw [hnum]; exact hop)
  obtain ⟨-, -, t', hop', ht'⟩ := ht.unmapRange hrun
  rw [hnum] at hop'
  have hpage : ∀ p', slot 512 4 p' = rootSlot S.kind →
      UnmapsPage 3 p p p' (t.find 512 3 p') (t'.find 512 3 p') := fun p' hp' =>
    unmapTable_find ht.wf hp52 hp' (lastPage_lt_of_slot_eq hp') hop'
  refine ⟨s', t', hrun, ht', ?_, fun p' hlt hp' m hm => ?_, fun p' hp' hnone => ?_⟩
  · refine (hpage p hslot).lost _ hf fun hsurv => ?_
    exact absurd (hsurv.2 (touches_zero.mpr ⟨le_rfl, le_rfl⟩)).1 (by norm_num)
  · obtain ⟨u, hu, hl, hpart⟩ := (hpage p' hp').kept _ hm (survives_of_lt hlt)
    have hzero : u.1 = 0 := Nat.le_zero.mp (hl.le.trans keptHeight_le)
    rw [hu, eq_of_part (lt_of_slot_eq hp') (Entries.ok_of_find ht.wf hm).2 hzero hpart]
  · exact (hpage p' hp').unmapped hnone

/-! ### Several pages -/

/-- The `k` pages from number `p` on can be mapped to the first `k` of the frames. -/
def CanMap (S : Services) (attr : PagesAttributes) : ℕ → ℕ → List Frame → State → Prop
  | _, 0, _, _                 => True
  | _, _ + 1, [], _            => False
  | p, k + 1, f :: frames, s   =>
    ∃ s', mapRange (some S.table) (pageAddr p) (pageAddr p) f.address attr s = some (true, s') ∧
      CanMap S attr (p + 1) k frames s'

end PiKachulm.Memory

import PiKachulm.Mmu.View

/-!
# `map_range`

Which pages of its range `map_range` maps as asked, and what it leaves of the others.
-/

namespace PiKachulm.Mmu

open Core Services

variable {S : Services} {s s' : State} {t : Table} {vaStart vaEnd : VirtualPA}
  {paStart : PhysicalPA} {attr : PagesAttributes} {k N p pf vs ve δ : ℕ} {alloc : AllocFun}
  {h : History VirtualPA} {e : PageTree} {m : Mapping}

/-! ### Inside the range -/

/-- Every page of the range is mapped linearly from `paStart`, with the attributes `attr`. -/
def MapInstalls (S : Services) (s' : State) (vaStart vaEnd : VirtualPA) (paStart : PhysicalPA)
    (attr : PagesAttributes) : Prop :=
  ∀ va, checkVa S.kind va = true → vaStart ≤ va → va ≤ vaEnd →
    translate S.table s' va = some (paStart + (va - vaStart), attr)

/-- When mapping the pages from `vs` to `ve` from physical page `pf` installs the mapping: a leaf
that a range from the first page, or to the last page, of all addresses cuts has the attributes
asked for and maps the pages of the range where it is asked to. -/
structure MapCondition (t : Table) (vs ve pf : ℕ) (attr : PagesAttributes) : Prop where
  last : vs = 0 → ∀ u, t.find 512 3 ve = some u → ve < lastPage u.1 ve →
    u.2.attr = attr ∧ pageOf ve u % 2 ^ 36 = pf + (ve - vs)
  first : ve = 2 ^ 52 - 1 → ∀ u, t.find 512 3 vs = some u → firstPage u.1 vs < vs →
    u.2.attr = attr ∧ pageOf vs u % 2 ^ 36 = pf

/-- Where a leaf installed for a page maps it. -/
lemma pageOf_of_part {v : ℕ × Mapping} (hp : p < 2 ^ 52) (hv : Part (displacement pf vs) attr p v)
    (hfirst : vs ≤ firstPage v.1 p) (hpf : pf + (p - vs) < 2 ^ 36) :
    pageOf p v = pf + (p - vs) := by
  have hle : firstPage v.1 p ≤ p := firstPage_le
  rw [pageOf, hv.2, displacement]
  omega

/-- Two pages of a leaf are mapped at their distance. -/
lemma pageOf_congr {p p' : ℕ} {u : ℕ × Mapping} (hslot : slot 512 u.1 p = slot 512 u.1 p')
    (hle : p ≤ p') : pageOf p' u = pageOf p u + (p' - p) := by
  have h₁ : firstPage u.1 p ≤ p := firstPage_le
  rw [pageOf, pageOf, ← firstPage_congr hslot]
  omega

/-- A leaf that maps a page where it is asked to, modulo the size of physical memory, does so
outright when it starts inside the range. -/
lemma pageOf_eq_of_mod {v : ℕ × Mapping} (hv : v.2.frame < 2 ^ 36) (hvs : vs ≤ firstPage v.1 p)
    (hmod : pageOf p v % 2 ^ 36 = pf + (p - vs)) :
    pageOf p v = pf + (p - vs) := by
  have h₁ : firstPage v.1 p ≤ p := firstPage_le
  rw [pageOf] at hmod ⊢
  omega

/-- A clobbered page of the range lies in a leaf that holds an end of the range too. -/
lemma MapCondition.of_clobbered (hc : MapCondition t vs ve pf attr) {u : ℕ × Mapping}
    (h₁ : vs ≤ p) (h₂ : p ≤ ve) (hpf : pf + (ve - vs) < 2 ^ 36) (hf : t.find 512 3 p = some u)
    (hclob : Clobbered u.1 vs ve p) :
    u.2.attr = attr ∧ pageOf p u % 2 ^ 36 = pf + (p - vs) := by
  rcases hclob with ⟨hvs, hlast⟩ | ⟨hve, hfirst⟩
  · have hslot : slot 512 u.1 p = slot 512 u.1 ve :=
      slot_eq_of_mem (firstPage_le.trans h₂) hlast.le
    rw [lastPage_congr hslot] at hlast
    obtain ⟨hattr, hpage⟩ := hc.last hvs u (Entries.find_congr hf hslot) hlast
    rw [pageOf_congr hslot h₂] at hpage
    exact ⟨hattr, by omega⟩
  · have hslot : slot 512 u.1 p = slot 512 u.1 vs :=
      slot_eq_of_mem hfirst.le (h₁.trans le_lastPage)
    rw [firstPage_congr hslot] at hfirst
    obtain ⟨hattr, hpage⟩ := hc.first hve u (Entries.find_congr hf hslot) hfirst
    rw [pageOf_congr hslot.symm h₁]
    exact ⟨hattr, by omega⟩

/-- A page of the range is mapped as asked to when the condition holds. -/
lemma MapCondition.mapped (hc : MapCondition t vs ve pf attr) (hp : p < 2 ^ 52) (h₁ : vs ≤ p)
    (h₂ : p ≤ ve) (hpf : pf + (ve - vs) < 2 ^ 36) {r : Option (ℕ × Mapping)}
    (hr : ∀ u, r = some u → LeafOk u.1 u.2)
    (hpage : MapsPage vs ve (displacement pf vs) attr p (t.find 512 3 p) r) :
    r.map (leafView p) = some (pageAddr (pf + (p - vs)), attr) := by
  by_cases hclob : ∃ u, t.find 512 3 p = some u ∧ Clobbered u.1 vs ve p
  · obtain ⟨u, hu, hclob⟩ := hclob
    obtain ⟨hattr, hmod⟩ := hc.of_clobbered h₁ h₂ hpf hu hclob
    have hkeep := hpage.kept fun _ _ => ⟨u, hu, hclob⟩
    rw [hu] at hkeep
    obtain ⟨v, rfl, hvu, hpart⟩ := hkeep.some_left
    have hinside := hpage.inside h₁ h₂ v rfl
    have hview : pageOf p v = pf + (p - vs) :=
      pageOf_eq_of_mod (hr v rfl).2 hinside.1 ((pageOf_mod hp hvu hpart).trans hmod)
    rw [Option.map_some, leafView, hview, hpart.1.trans hattr]
  · obtain ⟨v, rfl, hpart, hfirst, -, -⟩ :=
      hpage.mapped h₁ h₂ fun u hu hcl => hclob ⟨u, hu, hcl⟩
    rw [Option.map_some, leafView, pageOf_of_part hp hpart hfirst (by omega), hpart.1]

/-- A clobbered page that is mapped as asked to was so before, modulo the size of physical
memory. -/
lemma MapsPage.of_mapped {r r' : Option (ℕ × Mapping)} (hp : p < 2 ^ 52) (h₁ : vs ≤ p)
    (h₂ : p ≤ ve) (hpf : pf + (ve - vs) < 2 ^ 36) {u : ℕ × Mapping} (hu : r = some u)
    (hr' : ∀ u, r' = some u → LeafOk u.1 u.2) (hclob : Clobbered u.1 vs ve p)
    (hpage : MapsPage vs ve δ attr p r r')
    (hmap : r'.map (leafView p) = some (pageAddr (pf + (p - vs)), attr)) :
    u.2.attr = attr ∧ pageOf p u % 2 ^ 36 = pf + (p - vs) := by
  have hkeep := hpage.kept fun _ _ => ⟨u, hu, hclob⟩
  rw [hu] at hkeep
  obtain ⟨v, rfl, hvu, hpart⟩ := hkeep.some_left
  have hlt := pageOf_lt (p := p) (hr' v rfl)
  rw [Option.map_some, leafView, Option.some.injEq, Prod.mk.injEq,
    pageAddr_inj (by omega) (by omega)] at hmap
  refine ⟨hpart.1.symm.trans hmap.2, ?_⟩
  rw [← pageOf_mod hp hvu hpart, hmap.1]
  omega

/-- `map_range` installs the mapping asked for exactly when the condition holds. -/
theorem mapRange_installs_iff (ht : S.Holds s t) (hle : vaStart ≤ vaEnd)
    (hpa : paStart.toNat % 4096 = 0)
    (hfit : paStart.toNat + (vaEnd - vaStart).toNat + 4096 ≤ 2 ^ 48)
    (hrun : mapRange (some S.table) vaStart vaEnd paStart attr s = some (true, s')) :
    MapInstalls S s' vaStart vaEnd paStart attr ↔
      MapCondition t (pageNumber vaStart) (pageNumber vaEnd) (pageNumber paStart) attr := by
  obtain ⟨hstart, hend, t', hop, ht'⟩ := ht.mapRange hrun
  obtain ⟨hsEq, hs⟩ := checkVa_iff_page.mp hstart
  obtain ⟨heEq, he⟩ := checkVa_iff_page.mp hend
  have hs52 := lt_of_slot_eq hs
  have he52 := lt_of_slot_eq he
  have hv : pageNumber vaStart ≤ pageNumber vaEnd := pageNumber_le hle
  have hpf : pageNumber paStart + (pageNumber vaEnd - pageNumber vaStart) < 2 ^ 36 := by
    rw [BitVec.toNat_sub_of_le hle] at hfit
    rw [pageNumber, pageNumber, pageNumber]
    have := Nat.div_le_div_right (c := 4096) hle
    omega
  have haddr : ∀ p, pageNumber vaStart ≤ p → paStart + (pageAddr p - vaStart) =
      pageAddr (pageNumber paStart + (p - pageNumber vaStart)) := by
    intro p hp
    have hpage : paStart = pageAddr (pageNumber paStart) := by
      apply BitVec.eq_of_toNat_eq
      rw [toNat_pageAddr, pageNumber]
      omega
    have hsub : pageAddr p - vaStart = pageAddr (p - pageNumber vaStart) := by
      conv_lhs => rw [hsEq, ← Nat.sub_add_cancel hp, ← pageAddr_add]
      exact BitVec.add_sub_cancel _ _
    conv_lhs => rw [hsub, hpage]
    exact pageAddr_add
  have hpages : ∀ p, slot 512 4 p = rootSlot S.kind →
      MapsPage (pageNumber vaStart) (pageNumber vaEnd)
        (displacement (pageNumber paStart) (pageNumber vaStart)) attr p (t.find 512 3 p)
        (t'.find 512 3 p) := fun p hp =>
    mapTable_find ht.wf hs52 he52 hp (lastPage_lt_of_slot_eq hp) hop
  have hok : ∀ p u, t'.find 512 3 p = some u → LeafOk u.1 u.2 := fun _ _ hu =>
    Entries.ok_of_find ht'.wf hu
  have hinstalls : MapInstalls S s' vaStart vaEnd paStart attr ↔
      ∀ p, slot 512 4 p = rootSlot S.kind → pageNumber vaStart ≤ p → p ≤ pageNumber vaEnd →
        (t'.find 512 3 p).map (leafView p) =
          some (pageAddr (pageNumber paStart + (p - pageNumber vaStart)), attr) := by
    rw [MapInstalls, forall_checkVa]
    refine forall_congr' fun p => imp_congr_right fun hp => ?_
    rw [le_page hstart hp, page_le hend hp, ht'.translate_eq (lt_of_slot_eq hp)]
    exact forall_congr' fun h₁ => by rw [haddr p h₁]
  rw [hinstalls]
  constructor
  · intro hmap
    refine ⟨fun hzero u hu hlast => ?_, fun hmax u hu hfirst => ?_⟩
    · exact (hpages _ he).of_mapped he52 hv le_rfl hpf hu (hok _) (.inl ⟨hzero, hlast⟩)
        (hmap _ he hv le_rfl)
    · have hres := (hpages _ hs).of_mapped hs52 le_rfl hv hpf hu (hok _) (.inr ⟨hmax, hfirst⟩)
        (hmap _ hs le_rfl hv)
      rwa [Nat.sub_self, Nat.add_zero] at hres
  · intro hc p hp h₁ h₂
    exact hc.mapped (lt_of_slot_eq hp) h₁ h₂ hpf (hok p) (hpages p hp)

/-! ### Outside the range -/

/-- The translation of an address is the same as before modulo the size of physical memory, and
just the same when the address was mapped to physical memory. -/
def KeepsTranslation : Option (PhysicalPA × PagesAttributes) →
    Option (PhysicalPA × PagesAttributes) → Prop
  | none, none                      => True
  | some (pa, attr), some (pa', attr') =>
    attr' = attr ∧ pa' &&& Libk.maskBits 0 47 = pa &&& Libk.maskBits 0 47 ∧
      (pa.toNat < 2 ^ 48 → pa' = pa)
  | _, _ => False

lemma Keeps.keepsTranslation {r r' : Option (ℕ × Mapping)} (hp : p < 2 ^ 52)
    (hr : ∀ u, r = some u → LeafOk u.1 u.2) (hr' : ∀ u, r' = some u → LeafOk u.1 u.2)
    (hk : Keeps p r r') : KeepsTranslation (r.map (leafView p)) (r'.map (leafView p)) := by
  cases hk with
  | unmapped => trivial
  | @mapped u v hle hpart =>
    have hu := pageOf_lt (p := p) (hr u rfl)
    have hv := pageOf_lt (p := p) (hr' v rfl)
    change v.2.attr = u.2.attr ∧ pageAddr (pageOf p v) &&& Libk.maskBits 0 47 =
        pageAddr (pageOf p u) &&& Libk.maskBits 0 47 ∧
      ((pageAddr (pageOf p u)).toNat < 2 ^ 48 → pageAddr (pageOf p v) = pageAddr (pageOf p u))
    refine ⟨hpart.1, ?_, fun hlt => ?_⟩
    · apply BitVec.eq_of_toNat_eq
      have hmod := pageOf_mod hp hle hpart
      rw [Libk.toNat_and_maskBits _ (by norm_num) (by norm_num),
        Libk.toNat_and_maskBits _ (by norm_num) (by norm_num), toNat_pageAddr_of_lt (by omega),
        toNat_pageAddr_of_lt (by omega)]
      omega
    · rw [toNat_pageAddr_of_lt (by omega)] at hlt
      rw [pageOf_eq_of_lt hp (hr u rfl).2 hle hpart (by omega)]

/-- `map_range` leaves the other pages of the address space alone. -/
theorem mapRange_keeps (ht : S.Holds s t)
    (hrun : mapRange (some S.table) vaStart vaEnd paStart attr s = some (true, s')) :
    (∃ t', S.Holds s' t') ∧ ∀ va, checkVa S.kind va = true → ¬(vaStart ≤ va ∧ va ≤ vaEnd) →
      KeepsTranslation (translate S.table s va) (translate S.table s' va) := by
  obtain ⟨hstart, hend, t', hop, ht'⟩ := ht.mapRange hrun
  refine ⟨⟨t', ht'⟩, forall_checkVa.mpr fun p hp hout => ?_⟩
  have hp52 := lt_of_slot_eq hp
  rw [le_page hstart hp, page_le hend hp] at hout
  have hpage := mapTable_find ht.wf (lt_of_slot_eq (checkVa_iff_page.mp hstart).2)
    (lt_of_slot_eq (checkVa_iff_page.mp hend).2) hp (lastPage_lt_of_slot_eq hp) hop
  rw [ht.translate_eq hp52, ht'.translate_eq hp52]
  refine Keeps.keepsTranslation hp52 ?_ ?_ (hpage.kept fun h₁ h₂ => absurd ⟨h₁, h₂⟩ hout)
  · exact fun u hu => Entries.ok_of_find ht.wf hu
  · exact fun u hu => Entries.ok_of_find ht'.wf hu

/-! ### Mapping one page of a block -/

lemma touched_page (hp : slot 512 (k + 1) p = N) : touched k N p p = [slot 512 k p % 512] := by
  have hidx := slot_index hp
  have hmod : slot 512 k p % 512 < 512 := Nat.mod_lt _ (by norm_num)
  have h₁ : max (slot 512 k p) (N * 512) - N * 512 = slot 512 k p % 512 := by omega
  have h₂ : min (slot 512 k p + 1) ((N + 1) * 512) - max (slot 512 k p) (N * 512) = 1 := by omega
  rw [touched, h₁, h₂]
  rfl

/-- Mapping one page rewrites one entry. -/
lemma mapTable_page (hp : slot 512 (k + 1) p = N) {x y : Table × History VirtualPA}
    {y' : PageTree × History VirtualPA}
    (hop : mapEntry alloc k (slot 512 k p) p p δ attr (x.1 (slot 512 k p % 512), x.2) = some y')
    (hy : y = (Function.update x.1 (slot 512 k p % 512) y'.1, y'.2)) :
    mapTable alloc k N p p δ attr x = some y := by
  rw [mapTable, onTable, if_neg (lt_irrefl p), touched_page hp, updateCells_cons, slot_index hp]
  exact ⟨y'.1, y'.2, hop, by rw [updateCells_nil, hy]⟩

/-- Mapping pages in a table of the last level needs no allocation. -/
lemma mapTable_zero_total (x : Table × History VirtualPA) :
    ∃ y, mapTable alloc 0 N vs ve δ attr x = some y := by
  rw [mapTable, onTable]
  split_ifs
  · exact ⟨x, rfl⟩
  · exact updateCells_total (fun i x => ⟨_, mapEntry_zero⟩) _ _

/-- Mapping one page of a 2 MiB block takes one page from the allocator. -/
lemma mapEntry_page_total {q : VirtualPA} (halloc : alloc h = some q) {n : ℕ}
    (hp : slot 512 k p = n) (hf : e.find 512 k p = some (1, m)) :
    ∃ y, mapEntry alloc k n p p δ attr (e, h) = some y := by
  induction k generalizing e n with
  | zero => exact absurd (Node.find_height_le hf) (by norm_num)
  | succ k ih =>
    cases e with
    | empty => simp at hf
    | leaf m =>
      rw [Node.find_leaf, Option.some.injEq, Prod.mk.injEq] at hf
      obtain rfl : k = 0 := by omega
      rw [mapEntry_leaf, halloc]
      split_ifs
      · exact ⟨_, rfl⟩
      · have htotal : ∀ vs ve δ attr x, ∃ y, mapTable alloc 0 n vs ve δ attr x = some y :=
          fun _ _ _ _ x => mapTable_zero_total x
        obtain ⟨x, hx⟩ := htotal p p δ attr (.empty, .alloc q :: h)
        obtain ⟨y, hy⟩ := htotal (lo 512 (0 + 1) n) (prevPage p)
          (displacement m.frame (lo 512 (0 + 1) n)) m.attr x
        obtain ⟨z, hz⟩ := htotal (nextPage p) (hi 512 (0 + 1) n)
          (displacement m.frame (lo 512 (0 + 1) n)) m.attr y
        refine ⟨(.table q z.1, z.2), ?_⟩
        rw [Option.bind_some, hx, Option.bind_some, remapAround, hy, Option.bind_some, hz]
        rfl
    | table q' sub =>
      rw [Node.find_table, Entries.find] at hf
      obtain ⟨y, hy⟩ := ih rfl hf
      have hmap : mapTable alloc k n p p δ attr (sub, h) =
          some (Function.update sub (slot 512 k p % 512) y.1, y.2) := mapTable_page hp hy rfl
      refine ⟨(.table q' (Function.update sub (slot 512 k p % 512) y.1), y.2), ?_⟩
      rw [mapEntry_table, hmap]
      rfl

/-- So does `map_range`. -/
lemma mapRange_page_returns (ht : S.Holds s t) (hp : slot 512 4 p = rootSlot S.kind)
    {q : VirtualPA} (halloc : S.alloc s.history = some q) (hf : t.find 512 3 p = some (1, m)) :
    ∃ s', mapRange (some S.table) (pageAddr p) (pageAddr p) paStart attr s = some (true, s') := by
  have hp52 := lt_of_slot_eq hp
  have hcheck : checkVa S.kind (pageAddr p) = true := by
    rw [checkVa_iff_page, pageNumber_pageAddr hp52]
    exact ⟨rfl, hp⟩
  obtain ⟨y, hy⟩ : ∃ y, mapEntry S.alloc 3 (slot 512 3 p) p p
      (displacement (pageNumber paStart) p) attr (t (slot 512 3 p % 512), s.history) = some y :=
    mapEntry_page_total halloc rfl hf
  have hop : mapTable S.alloc 3 (rootSlot S.kind) p p (displacement (pageNumber paStart) p) attr
      (t, s.history) = some (Function.update t (slot 512 3 p % 512) y.1, y.2) :=
    mapTable_page hp hy rfl
  have hpage : pageNumber (pageAddr p) = p := pageNumber_pageAddr hp52
  refine ht.mapRange_returns hcheck hcheck (Eq.trans ?_ hop)
  rw [hpage]

/-! ### A page that keeps its old mapping, and one that loses it -/

def normalMemory : PagesAttributes where
  sh := .innerShareable
  exec := .neverExecute
  rw := .readWrite
  access := .privileged
  type := .normal

/-- What a 2 MiB block at page `p` looks like in the tree. -/
lemma Services.Holds.find_of_block {f : PhysicalPA} (ht : S.Holds s t) (hp : p < 2 ^ 52)
    (htr : translate S.table s (pageAddr p) = some (f, attr))
    (hlevel : entryLevel S.table s (pageAddr p) = some 3) :
    ∃ u, t.find 512 3 p = some u ∧ u.1 = 1 ∧ pageAddr (pageOf p u) = f ∧ u.2.attr = attr := by
  rw [ht.translate_eq hp, Option.map_eq_some_iff] at htr
  obtain ⟨u, hu, hview⟩ := htr
  rw [ht.entryLevel_eq hp, hu, Option.map_some, Option.some.injEq] at hlevel
  have hu3 : u.1 ≤ 3 := Entries.find_height_le hu
  cases hview
  exact ⟨u, hu, by omega, rfl, rfl⟩

/-- Map a 2 MiB block at address `va`, then one page in it. -/
lemma mapRange_in_block (va vaLast va' : VirtualPA) (pa pa' f : PhysicalPA)
    (attr : PagesAttributes) (hva : checkVa .process va = true)
    (hrun : (mapRange (some (identity .process).table) va vaLast pa normalMemory emptyState).any
      (fun x => x.1 && decide (translate (identity .process).table x.2 va' = some (f, normalMemory) ∧
        entryLevel (identity .process).table x.2 va' = some 3 ∧
        entryLevel (identity .process).table x.2 va = some 3 ∧
        (poolAlloc x.2.history).isSome)) = true) :
    ∃ s s' t, (identity .process).Holds s t ∧
      mapRange (some (identity .process).table) va va pa' attr s = some (true, s') ∧
      translate (identity .process).table s va' = some (f, normalMemory) ∧
      entryLevel (identity .process).table s va' = some 3 := by
  obtain ⟨⟨_, s⟩, hmap, hrun⟩ := (Option.any_eq_true _ _).mp hrun
  obtain ⟨rfl, hrun⟩ := Bool.and_eq_true_iff.mp hrun
  obtain ⟨htr, hlevel, hlevel', halloc⟩ := of_decide_eq_true hrun
  obtain ⟨q, hq⟩ := Option.isSome_iff_exists.mp halloc
  obtain ⟨-, -, t, -, ht⟩ := (holds_emptyState _).mapRange hmap
  obtain ⟨heq, hslot⟩ := checkVa_iff_page.mp hva
  have hfind : ∃ m, t.find 512 3 (pageNumber va) = some (1, m) := by
    rw [heq, ht.entryLevel_eq (lt_of_slot_eq hslot), Option.map_eq_some_iff] at hlevel'
    obtain ⟨⟨k, m⟩, hu, hk⟩ := hlevel'
    have hk3 : k ≤ 3 := Entries.find_height_le hu
    obtain rfl : k = 1 := by simp only at hk; omega
    exact ⟨m, hu⟩
  obtain ⟨m, hm⟩ := hfind
  obtain ⟨s', hs'⟩ := mapRange_page_returns ht hslot hq hm
  rw [← heq] at hs'
  exact ⟨s, s', t, ht, hs', htr, hlevel⟩

def readOnlyMemory : PagesAttributes := { normalMemory with rw := .readOnly }

/-- Map the first page of a block at address 0 again. -/
lemma mapRange_first_page : ∃ s s' t, (identity .process).Holds s t ∧
    mapRange (some (identity .process).table) 0 0 0x800000 readOnlyMemory s = some (true, s') ∧
    translate (identity .process).table s 0 = some (0x400000, normalMemory) ∧
    entryLevel (identity .process).table s 0 = some 3 := by
  refine mapRange_in_block 0 0x1ff000 0 0x400000 0x800000 0x400000 readOnlyMemory rfl ?_
  decide +kernel

theorem mapRange_installs_iff_first_page : ∃ s s' t, (identity .process).Holds s t ∧
    (MapInstalls (identity .process) s' 0 0 0x800000 readOnlyMemory ↔
      MapCondition t (pageNumber 0) (pageNumber 0) (pageNumber 0x800000) readOnlyMemory) := by
  obtain ⟨s, s', t, ht, hrun, -⟩ := mapRange_first_page
  exact ⟨s, s', t, ht, mapRange_installs_iff ht (by decide) (by decide) (by decide) hrun⟩

/-- The page is still mapped as by the block. -/
theorem mapRange_not_installed : ∃ s s' t, (identity .process).Holds s t ∧
    mapRange (some (identity .process).table) 0 0 0x800000 readOnlyMemory s = some (true, s') ∧
    ¬MapInstalls (identity .process) s' 0 0 0x800000 readOnlyMemory := by
  obtain ⟨s, s', t, ht, hrun, htr, hlevel⟩ := mapRange_first_page
  refine ⟨s, s', t, ht, hrun, fun hinst => ?_⟩
  obtain ⟨-, -, t', hop, ht'⟩ := ht.mapRange hrun
  have hzero : (0 : VirtualPA) = pageAddr 0 := rfl
  have hslot : slot 512 4 0 = rootSlot .process := by decide
  rw [hzero] at htr hlevel
  obtain ⟨u, hu, hu1, -, hattr⟩ := ht.find_of_block (by norm_num) htr hlevel
  have hpage := mapTable_find ht.wf (by decide) (by decide) hslot (by decide) hop
  have hclob : Clobbered 1 0 0 0 := .inl ⟨rfl, by decide⟩
  have hkeep := hpage.kept fun _ _ => ⟨u, hu, hu1 ▸ hclob⟩
  rw [hu] at hkeep
  obtain ⟨v, hv, -, hpart⟩ := hkeep.some_left
  have hres := hinst 0 rfl (by decide) (by decide)
  rw [hzero, ht'.translate_eq (by norm_num), hv, Option.map_some, Option.some.injEq] at hres
  have hnew : v.2.attr = readOnlyMemory := congrArg Prod.snd hres
  rw [hpart.1, hattr] at hnew
  exact absurd hnew (by decide)

/-- Map the first page of a block whose output addresses run past 48 bits again. -/
lemma mapRange_past_end : ∃ s s' t, (identity .process).Holds s t ∧
    mapRange (some (identity .process).table) 0x200000 0x200000 0x5000 normalMemory s =
      some (true, s') ∧
    translate (identity .process).table s 0x202000 = some (0x1000000001000, normalMemory) ∧
    entryLevel (identity .process).table s 0x202000 = some 3 := by
  refine mapRange_in_block 0x200000 0x3ff000 0x202000 0xfffffffff000 0x5000 0x1000000001000
    normalMemory (by decide) ?_
  decide +kernel

theorem mapRange_keeps_past_end : ∃ s s' t, (identity .process).Holds s t ∧
    (∃ t', (identity .process).Holds s' t') ∧
    KeepsTranslation (translate (identity .process).table s 0x202000)
      (translate (identity .process).table s' 0x202000) := by
  obtain ⟨s, s', t, ht, hrun, -⟩ := mapRange_past_end
  have hkeeps := mapRange_keeps ht hrun
  exact ⟨s, s', t, ht, hkeeps.1, hkeeps.2 0x202000 (by decide) (by decide)⟩

/-- A page of the block is mapped elsewhere afterwards. -/
theorem mapRange_moves_page : ∃ s s' t, (identity .process).Holds s t ∧
    mapRange (some (identity .process).table) 0x200000 0x200000 0x5000 normalMemory s =
      some (true, s') ∧
    checkVa .process 0x202000 = true ∧ ¬((0x200000 : VirtualPA) ≤ 0x202000 ∧
      (0x202000 : VirtualPA) ≤ 0x200000) ∧
    translate (identity .process).table s' 0x202000 ≠
      translate (identity .process).table s 0x202000 := by
  obtain ⟨s, s', t, ht, hrun, htr, hlevel⟩ := mapRange_past_end
  refine ⟨s, s', t, ht, hrun, by decide, by decide, ?_⟩
  obtain ⟨-, -, t', hop, ht'⟩ := ht.mapRange hrun
  have haddr : (0x202000 : VirtualPA) = pageAddr 0x202 := rfl
  rw [htr]
  rw [haddr] at htr hlevel ⊢
  obtain ⟨u, hu, hu1, -, -⟩ := ht.find_of_block (by norm_num) htr hlevel
  have hpage := mapTable_find ht.wf (by decide) (by decide)
    (by decide : slot 512 4 0x202 = rootSlot .process) (by decide) hop
  have hpage' := mapTable_find ht.wf (by decide) (by decide)
    (by decide : slot 512 4 0x200 = rootSlot .process) (by decide) hop
  have hkeep := hpage.kept fun _ h₂ => absurd h₂ (by decide)
  rw [hu] at hkeep
  obtain ⟨v, hv, hvu, -⟩ := hkeep.some_left
  -- the block was split, as it holds the page that was mapped
  have hv0 : v.1 = 0 := by
    by_contra hne
    obtain hv1 : v.1 = 1 := by omega
    have hslot : slot 512 v.1 0x202 = slot 512 v.1 0x200 := by rw [hv1]; decide
    have hinside := hpage'.inside (by decide) (by decide) v (Entries.find_congr hv hslot)
    rw [hv1] at hinside
    exact absurd hinside.2 (by decide)
  have hframe : v.2.frame < 2 ^ 36 := (Entries.ok_of_find ht'.wf hv).2
  intro hsame
  rw [ht'.translate_eq (by norm_num), hv, Option.map_some, Option.some.injEq] at hsame
  have hpa : pageAddr (pageOf 0x202 v) = 0x1000000001000 := congrArg Prod.fst hsame
  have hto : (pageAddr (pageOf 0x202 v)).toNat = 0x1000000001000 := congrArg BitVec.toNat hpa
  rw [pageOf, hv0, firstPage_zero, Nat.sub_self, Nat.add_zero,
    toNat_pageAddr_of_lt (by omega)] at hto
  omega

end PiKachulm.Mmu

import PiKachulm.Memory.ChangeHeapEnd

/-!
# The end of a heap

`free` gives back the pages of a heap when its process ends. It walks down from the end of the heap in
bytes, page by page, and so it only meets the pages when the size is a multiple of the page size.
-/

namespace PiKachulm.Memory

open Core Libk Mmu Services

namespace HeapState

/-- What the loop of `free` keeps of a page that it has unmapped, when `size` bytes are left. -/
def freePage (size : ℕ) (pa : PhysicalPA) (allocated : List PhysicalPA) (table : Mmu.State)
    (h : HeapState) : HeapState where
  manager := { h.manager with heapByteSize := size }
  allocatedPa := allocated
  table := table
  free := pa :: h.free

/-- The loop of `free`, for at most `fuel` pages. It panics when a page cannot be unmapped. -/
def freePages (tbl : MMUTable) : ℕ → HeapState → Option HeapState
  | 0, _        => none
  | fuel + 1, h =>
    if h.manager.heapByteSize > 0 then do
      let vaToDel := BitVec.ofNat 64 (wsub h.manager.getHeapEnd pageSize)
      let (pa, allocated) ← h.pageToDel tbl vaToDel
      let (unmapped, table) ← unmapRange (some tbl) vaToDel vaToDel h.table
      if unmapped then
        freePages tbl fuel (h.freePage (wsub h.manager.heapByteSize pageSize) pa allocated table)
      else none
    else some h

/-- `HeapManager::free`. -/
def freeHeap (tbl : MMUTable) (h : HeapState) : Option HeapState := h.freePages tbl maxPages

/-- The states of a heap after calls of `change_heap_end` that succeed and leave the size non-negative.
Between the calls the rest of the kernel leaves the pages of the heap alone. -/
inductive Reaches (S : Services) : HeapState → Prop
  | init {table : Mmu.State} {t : Table} (ht : S.Holds table t) : Reaches S (init S.kind table)
  | wait {h : HeapState} {table : Mmu.State} {frames : List Frame} (hr : Reaches S h)
      (hund : Undisturbed S h ⟨0, table, frames⟩) : Reaches S (h.before ⟨0, table, frames⟩)
  | change {h h' : HeapState} {c : Call} {r : ℕ} (hr : Reaches S h) (hund : Undisturbed S h c)
      (hrun : (h.before c).changeHeapEnd S.table c.byteOffset = some (r, h')) (hne : r ≠ 0)
      (hpos : 0 ≤ h.manager.heapByteSize + c.byteOffset.toInt) : Reaches S h'

/-- The pages of the heap reach to its end, rounded up, and each of them is backed by the page of memory
that was allocated for it. -/
structure Supported (S : Services) (h : HeapState) : Prop where
  vaEnd : h.manager.heapVaEnd = (h.manager.heapStart + h.manager.heapByteSize + 4095) / 4096 * 4096
  length : h.allocatedPa.length = h.manager.heapVaEnd / 4096 - h.manager.heapStart / 4096
  backs : ∀ i < h.allocatedPa.length, ∃ pa, h.allocatedPa.reverse[i]? = some pa ∧
    translate S.table h.table (pageAddr (h.manager.heapStart / 4096 + i)) = some (pa, heapRwMemory S.kind)

/-- `free` returns, no page of the heap is mapped any more, and each page of memory is given back once. -/
def TearsDown (S : Services) (h : HeapState) : Prop :=
  ∃ h', h.freeHeap S.table = some h' ∧
    (∀ p, h.manager.heapStart ≤ p * 4096 → p * 4096 < h.manager.heapVaEnd → ¬h'.Maps S p) ∧
    h'.free = h.allocatedPa.reverse ++ h.free ∧ h'.manager.heapByteSize = 0 ∧ h'.allocatedPa = []

variable {S : Services} {h h' : HeapState} {s s' : Mmu.State} {t : Table} {l : List PhysicalPA}
  {pa : PhysicalPA} {frames : List Frame} {fuel p r : ℕ} {byteOffset : BitVec 64}

/-! ### The pages behind a heap -/

/-- The first pages of the heap have entries of their own, with the pages of the list. -/
structure Backed (S : Services) (l : List PhysicalPA) (s : Mmu.State) (t : Table) : Prop where
  holds : S.Holds s t
  fits : firstPage S.kind + l.length ≤ 2 ^ 36
  pages : ∀ i < l.length, ∃ f, l.reverse[i]? = some (pageAddr f) ∧
    t.find 512 3 (firstPage S.kind + i) = some (0, ⟨f, heapRwMemory S.kind⟩)

lemma reverse_cons_getElem? {i : ℕ} (hi : i < l.length) : (pa :: l).reverse[i]? = l.reverse[i]? := by
  rw [List.reverse_cons, List.getElem?_append_left]
  rwa [List.length_reverse]

lemma reverse_cons_length : (pa :: l).reverse[l.length]? = some pa := by
  rw [List.reverse_cons, ← List.length_reverse, List.getElem?_concat_length]

lemma leafView_own {f : ℕ} {attr : PagesAttributes} :
    leafView p (0, ⟨f, attr⟩) = (pageAddr f, attr) := by
  have hfirst : Mmu.firstPage 0 p = p := by simp [Mmu.firstPage, lo]
  rw [leafView, pageOf, hfirst, Nat.sub_self, Nat.add_zero]

/-- The next page of the heap is mapped. -/
lemma Backed.map (hkind : S.kind = .process) (hb : Backed S l s t) {f : Frame}
    (hrun : mapRange (some S.table) (pageAddr (firstPage S.kind + l.length))
      (pageAddr (firstPage S.kind + l.length)) f.address (heapRwMemory S.kind) s = some (true, s')) :
    ∃ t', Backed S (f.address :: l) s' t' := by
  have hpos : 0 < firstPage S.kind + l.length := Nat.add_pos_left (firstPage_pos S.kind) _
  have hfits := hb.fits
  obtain ⟨-, t', ht', ⟨f', hf'⟩, hkeep⟩ := ownPage_of_mapRange hb.holds hpos (by omega) hrun
  obtain ⟨hlt, -, htr, -⟩ := mapRange_page hb.holds hkind hpos (by omega) hrun
  have haddr : pageAddr f' = f.address := by
    rw [ht'.translate_eq (by omega), hf'] at htr
    rw [Option.map_some, leafView_own] at htr
    exact congrArg Prod.fst (Option.some_injective _ htr)
  refine ⟨t', ht', hlt, fun i hi => ?_⟩
  rcases Nat.lt_succ_iff_lt_or_eq.mp hi with hi | rfl
  · obtain ⟨f, hf, hfind⟩ := hb.pages i hi
    have hslot : slot 512 4 (firstPage S.kind + i) = rootSlot S.kind := by
      rw [hkind]
      exact slot_process_iff.mpr (hkind ▸ by omega)
    have hk := hkeep _ hslot (by omega)
    rw [hfind] at hk
    exact ⟨f, by rw [reverse_cons_getElem? hi, hf],
      Keeps.find_eq hk (by omega) (Entries.ok_of_find hb.holds.wf hfind).2⟩
  · exact ⟨f', by rw [reverse_cons_length, haddr], hf'⟩

/-- The last page of the heap is unmapped. -/
lemma Backed.unmap (hkind : S.kind = .process) (hb : Backed S (pa :: l) s t) :
    ∃ s' t', unmapRange (some S.table) (pageAddr (firstPage S.kind + l.length))
        (pageAddr (firstPage S.kind + l.length)) s = some (true, s') ∧ Backed S l s' t' ∧
      t'.find 512 3 (firstPage S.kind + l.length) = none ∧
      ∀ p < 2 ^ 36, t.find 512 3 p = none → t'.find 512 3 p = none := by
  have hfits : firstPage S.kind + l.length + 1 ≤ 2 ^ 36 := hb.fits
  have hslot {p : ℕ} (hp : p < 2 ^ 36) : slot 512 4 p = rootSlot S.kind := by
    rw [hkind]
    exact slot_process_iff.mpr hp
  obtain ⟨f, -, hfind⟩ := hb.pages l.length (Nat.lt_succ_self _)
  obtain ⟨s', t', hrun, ht', hnone, hkeep, hunmapped⟩ :=
    unmapRange_of_ownPage hb.holds (hslot (by omega)) ⟨f, hfind⟩
  refine ⟨s', t', hrun, ⟨ht', by omega, fun i hi => ?_⟩, hnone, fun p hp => hunmapped p (hslot hp)⟩
  obtain ⟨f, hf, hfind⟩ := hb.pages i (hi.trans (Nat.lt_succ_self _))
  rw [reverse_cons_getElem? hi] at hf
  exact ⟨f, hf, hkeep _ (Nat.add_lt_add_left hi _) (hslot (by omega)) _ hfind⟩

lemma Backed.translate_eq (hb : Backed S l s t) {i : ℕ} (hi : i < l.length) : ∃ pa, l.reverse[i]? = some pa ∧
    translate S.table s (pageAddr (firstPage S.kind + i)) = some (pa, heapRwMemory S.kind) := by
  have hfits := hb.fits
  obtain ⟨f, hf, hfind⟩ := hb.pages i hi
  refine ⟨pageAddr f, hf, ?_⟩
  rw [hb.holds.translate_eq (by omega), hfind]
  rw [Option.map_some, leafView_own]

/-! ### Calls -/

/-- Between the calls the pages of the heap keep their entries. -/
lemma Backed.before {c : Call} (hb : Backed S h.allocatedPa h.table t)
    (hstart : h.manager.heapStart = heapBase S.kind)
    (hva : h.manager.heapVaEnd = (firstPage S.kind + h.allocatedPa.length) * 4096)
    (hund : h.Undisturbed S c) : ∃ t', Backed S h.allocatedPa c.table t' := by
  obtain ⟨⟨t', ht'⟩, hsame⟩ := hund
  refine ⟨t', ht', hb.fits, fun i hi => ?_⟩
  have hfits := hb.fits
  obtain ⟨f, hf, hfind⟩ := hb.pages i hi
  obtain ⟨htr, hlevel⟩ := hsame (firstPage S.kind + i)
    (by rw [hstart, heapBase_eq]; exact Nat.mul_le_mul_right _ (Nat.le_add_right ..))
    (by rw [hva]; exact Nat.mul_lt_mul_of_pos_right (Nat.add_lt_add_left hi _) (by norm_num))
  obtain ⟨f', hf'⟩ := ownPage_of_eq hb.holds ht' (by omega) htr hlevel ⟨f, hfind⟩
  refine ⟨f', ?_, hf'⟩
  rw [ht'.translate_eq (by omega), hb.holds.translate_eq (by omega), hfind, hf', Option.map_some,
    Option.map_some, leafView_own, leafView_own] at htr
  rw [hf, (Prod.mk.inj (Option.some_injective _ htr)).1]

/-- The first loop keeps the pages behind the heap, and reaches its end. -/
lemma Backed.increase (hkind : S.kind = .process) (hb : Backed S h.allocatedPa h.table t)
    (hva : h.manager.heapVaEnd = (firstPage S.kind + h.allocatedPa.length) * 4096)
    (hrun : h.increase S.table (frames.map Frame.address) = some (true, h')) :
    ∃ t', Backed S h'.allocatedPa h'.table t' ∧
      h'.manager.heapVaEnd = (firstPage S.kind + h'.allocatedPa.length) * 4096 ∧
      h'.manager.getHeapEnd = h.manager.getHeapEnd ∧ h'.manager.getHeapEnd ≤ h'.manager.heapVaEnd := by
  by_cases hless : h.manager.heapVaEnd < h.manager.getHeapEnd
  · induction frames generalizing h t with
    | nil =>
      rw [List.map_nil, HeapState.increase, decide_eq_true hless] at hrun
      cases hrun
    | cons f frames ih =>
      rw [List.map_cons, increase_cons hva hless] at hrun
      obtain ⟨⟨mapped, s'⟩, hmap, hrun⟩ := Option.bind_eq_some_iff.mp hrun
      cases mapped with
      | false => cases hrun
      | true =>
        obtain ⟨t', hb'⟩ := hb.map hkind hmap
        have hadd : (h.addPage S.kind f.address s').allocatedPa = f.address :: h.allocatedPa := if_pos hkind
        have hfits : firstPage S.kind + (h.allocatedPa.length + 1) ≤ 2 ^ 36 := hb'.fits
        have hva' : (h.addPage S.kind f.address s').manager.heapVaEnd =
            (firstPage S.kind + (h.addPage S.kind f.address s').allocatedPa.length) * 4096 := by
          rw [heapVaEnd_addPage hva (by omega), hadd, List.length_cons, Nat.add_assoc]
        rw [← hadd] at hb'
        have hend : (h.addPage S.kind f.address s').manager.getHeapEnd = h.manager.getHeapEnd :=
          getHeapEnd_addPage
        by_cases hless' : (h.addPage S.kind f.address s').manager.heapVaEnd <
            (h.addPage S.kind f.address s').manager.getHeapEnd
        · obtain ⟨t'', hb'', hva'', hend'', hle⟩ := ih (t := t') hb' hva' hrun hless'
          exact ⟨t'', hb'', hva'', hend''.trans hend, hle⟩
        · rw [if_pos rfl, increase_of_not_lt hless'] at hrun
          cases hrun
          exact ⟨t', hb', hva', hend, not_lt.mp hless'⟩
  · rw [increase_of_not_lt hless] at hrun
    cases hrun
    exact ⟨t, hb, hva, rfl, not_lt.mp hless⟩

/-- The second loop keeps the pages behind the heap, and stops at its end. -/
lemma Backed.decrease (hkind : S.kind = .process) (hb : Backed S h.allocatedPa h.table t)
    (hva : h.manager.heapVaEnd = (firstPage S.kind + h.allocatedPa.length) * 4096)
    (hle : h.manager.getHeapEnd ≤ h.manager.heapVaEnd)
    (hrun : h.decrease S.table fuel = some (true, h')) :
    ∃ t', Backed S h'.allocatedPa h'.table t' ∧
      h'.manager.heapVaEnd = (firstPage S.kind + h'.allocatedPa.length) * 4096 ∧
      h'.manager.getHeapEnd = h.manager.getHeapEnd ∧ h'.manager.getHeapEnd ≤ h'.manager.heapVaEnd ∧
      h'.manager.heapVaEnd < h'.manager.getHeapEnd + 4096 := by
  induction fuel generalizing h t with
  | zero         => cases hrun
  | succ fuel ih =>
    have hfits := hb.fits
    have hfirst := firstPage_pos S.kind
    have hsub : wsub h.manager.heapVaEnd pageSize = h.manager.heapVaEnd - 4096 := by
      rw [pageSize, wsub_of_le (by omega) (by omega)]
    rw [HeapState.decrease, hsub] at hrun
    split_ifs at hrun with hgo
    · obtain ⟨⟨pa, allocated⟩, hdel, hrun⟩ := Option.bind_eq_some_iff.mp hrun
      obtain ⟨⟨unmapped, s'⟩, hunmap, hrun⟩ := Option.bind_eq_some_iff.mp hrun
      cases unmapped with
      | false => cases hrun
      | true =>
        have hl : h.allocatedPa = pa :: allocated := by
          rw [pageToDel, show S.table.kind = .process from hkind] at hdel
          cases hl : h.allocatedPa with
          | nil          => rw [hl] at hdel; cases hdel
          | cons pa' l' => rw [hl] at hdel; cases hdel; rfl
        rw [hl] at hb
        have hpage : h.manager.heapVaEnd - 4096 = (firstPage S.kind + allocated.length) * 4096 := by
          rw [hva, hl, List.length_cons]
          omega
        obtain ⟨s₁, t', hunmap', hb', -⟩ := hb.unmap hkind
        rw [hpage] at hunmap hgo hrun
        have hsame : s' = s₁ := by
          change unmapRange (some S.table) (pageAddr _) (pageAddr _) h.table = _ at hunmap
          rw [hunmap'] at hunmap
          cases hunmap
          rfl
        subst hsame
        exact ih (h := h.dropPage ((firstPage S.kind + allocated.length) * 4096) pa allocated s') hb' rfl
          (by rw [getHeapEnd_dropPage]; exact hgo) hrun
    · cases hrun
      exact ⟨t, hb, hva, rfl, hle, by omega⟩

/-- What holds of a heap between calls that succeed. -/
structure Kept (S : Services) (h : HeapState) (t : Table) : Prop where
  backed : Backed S h.allocatedPa h.table t
  start : h.manager.heapStart = heapBase S.kind
  vaEnd : h.manager.heapVaEnd = (firstPage S.kind + h.allocatedPa.length) * 4096
  le : heapBase S.kind + h.manager.heapByteSize ≤ h.manager.heapVaEnd
  lt : h.manager.heapVaEnd < heapBase S.kind + h.manager.heapByteSize + 4096

lemma kept_init (hkind : S.kind = .process) (ht : S.Holds s t) : Kept S (init S.kind s) t where
  backed := by
    refine ⟨ht, ?_, nofun⟩
    show firstPage S.kind + 0 ≤ 2 ^ 36
    rw [hkind]
    decide
  start := rfl
  vaEnd := heapBase_eq S.kind
  le := le_rfl
  lt := Nat.lt_add_of_pos_right (by norm_num)

lemma Kept.before {c : Call} (hk : Kept S h t) (hund : h.Undisturbed S c) : ∃ t', Kept S (h.before c) t' := by
  obtain ⟨t', hb⟩ := hk.backed.before hk.start hk.vaEnd hund
  exact ⟨t', hb, hk.start, hk.vaEnd, hk.le, hk.lt⟩

/-- A call that succeeds has run both loops to their ends. -/
lemma loops_of_changeHeapEnd {tbl : MMUTable} (hrun : h.changeHeapEnd tbl byteOffset = some (r, h'))
    (hne : r ≠ 0) : ∃ h₁, (h.resize byteOffset).increase tbl h.free = some (true, h₁) ∧
      h₁.decrease tbl maxPages = some (true, h') := by
  obtain ⟨⟨grown, h₁⟩, hinc, hrun⟩ := Option.bind_eq_some_iff.mp hrun
  cases grown with
  | false =>
    cases hrun
    exact absurd rfl hne
  | true =>
    obtain ⟨⟨shrunk, h₂⟩, hdec, hrun⟩ := Option.bind_eq_some_iff.mp hrun
    cases shrunk with
    | false =>
      cases hrun
      exact absurd rfl hne
    | true =>
      cases hrun
      exact ⟨h₁, hinc, hdec⟩

lemma Kept.changeHeapEnd (hkind : S.kind = .process) (hk : Kept S h t)
    (hfree : h.free = frames.map Frame.address)
    (hrun : h.changeHeapEnd S.table byteOffset = some (r, h')) (hne : r ≠ 0)
    (hpos : 0 ≤ h.manager.heapByteSize + byteOffset.toInt) : ∃ t', Kept S h' t' := by
  obtain ⟨hsize, hstart, -⟩ := changeHeapEnd_cases hrun
  obtain ⟨h₁, hinc, hdec⟩ := loops_of_changeHeapEnd hrun hne
  rw [hfree] at hinc
  obtain ⟨t₁, hb₁, hva₁, hend₁, hle₁⟩ :=
    Backed.increase (h := h.resize byteOffset) hkind hk.backed hk.vaEnd hinc
  obtain ⟨t₂, hb₂, hva₂, hend₂, hle₂, hlt₂⟩ := hb₁.decrease hkind hva₁ hle₁ hdec
  have hbase : heapBase S.kind = 2 ^ 47 := by rw [hkind]; rfl
  have hfits := hk.backed.fits
  have hle := hk.le
  have hva := hk.vaEnd
  have htop : byteOffset.toInt < 2 ^ 63 := by
    rw [BitVec.toInt_eq_toNat_cond]
    split_ifs <;> omega
  have hexact := wadd_offset hpos (by omega)
  have hend : h'.manager.getHeapEnd = heapBase S.kind + h'.manager.heapByteSize := by
    rw [HeapManager.getHeapEnd, hstart, hk.start, hsize]
    exact wadd_of_lt (by omega)
  rw [hend] at hle₂ hlt₂
  exact ⟨t₂, hb₂, hstart.trans hk.start, hva₂, hle₂, hlt₂⟩

lemma Reaches.kept (hkind : S.kind = .process) (hr : Reaches S h) : ∃ t, Kept S h t := by
  induction hr with
  | init ht                       => exact ⟨_, kept_init hkind ht⟩
  | wait _ hund ih                =>
    obtain ⟨t, hk⟩ := ih
    exact hk.before hund
  | change _ hund hrun hne hpos ih =>
    obtain ⟨t, hk⟩ := ih
    obtain ⟨t', hk'⟩ := hk.before hund
    exact hk'.changeHeapEnd hkind rfl hrun hne hpos

private lemma eq_roundUp {e va q : ℕ} (hva : va = q * 4096) (hle : e ≤ va) (hlt : va < e + 4096) :
    va = (e + 4095) / 4096 * 4096 := by
  have hq : (e + 4095) / 4096 = q := by omega
  rw [hq, hva]

lemma Kept.supported (hk : Kept S h t) : h.Supported S := by
  have hbase := heapBase_eq S.kind
  have hle := hk.le
  have hlt := hk.lt
  have hva := hk.vaEnd
  have hstart : h.manager.heapStart / 4096 = firstPage S.kind := by rw [hk.start, firstPage]
  refine ⟨?_, ?_, fun i hi => ?_⟩
  · rw [hk.start]
    exact eq_roundUp hva hle hlt
  · rw [hstart, hva, Nat.mul_div_cancel _ (by norm_num), Nat.add_sub_cancel_left]
  · rw [hstart]
    exact hk.backed.translate_eq hi

/-! ### Giving the pages back -/

lemma heapStart_freePage : (h.freePage p pa l s).manager.heapStart = h.manager.heapStart := rfl

lemma heapByteSize_freePage : (h.freePage p pa l s).manager.heapByteSize = p := rfl

/-- When the size is that of the pages, the loop meets each of them. -/
lemma Backed.freePages (hkind : S.kind = .process) (hb : Backed S l s t)
    (hl : h.allocatedPa = l) (hs : h.table = s) (hstart : h.manager.heapStart = heapBase S.kind)
    (hsize : h.manager.heapByteSize = l.length * 4096) (hfuel : l.length < fuel) :
    ∃ h' t', h.freePages S.table fuel = some h' ∧ S.Holds h'.table t' ∧
      (∀ i < l.length, t'.find 512 3 (firstPage S.kind + i) = none) ∧
      (∀ p < 2 ^ 36, t.find 512 3 p = none → t'.find 512 3 p = none) ∧
      h'.free = l.reverse ++ h.free ∧ h'.manager.heapByteSize = 0 ∧ h'.allocatedPa = [] := by
  induction l generalizing h s t fuel with
  | nil         =>
    obtain ⟨fuel, rfl⟩ := Nat.exists_eq_add_of_lt hfuel
    have hzero : h.manager.heapByteSize = 0 := hsize.trans (Nat.zero_mul _)
    refine ⟨h, t, ?_, hs ▸ hb.holds, nofun, fun _ _ hnone => hnone, rfl, hzero, hl⟩
    rw [HeapState.freePages, hzero, if_neg (lt_irrefl 0)]
  | cons pa l ih =>
    obtain ⟨fuel, rfl⟩ := Nat.exists_eq_add_of_lt ((Nat.zero_le _).trans_lt hfuel)
    have hfits : firstPage S.kind + (l.length + 1) ≤ 2 ^ 36 := hb.fits
    have hbase := heapBase_eq S.kind
    rw [List.length_cons] at hsize hfuel
    obtain ⟨s', t₁, hunmap, hb₁, hnone, hkeep⟩ := hb.unmap hkind
    have hva : wsub h.manager.getHeapEnd pageSize = (firstPage S.kind + l.length) * 4096 := by
      rw [HeapManager.getHeapEnd, hstart, hsize, hbase, wadd_of_lt (by omega), pageSize,
        wsub_of_le (by omega) (by omega)]
      omega
    have hnext : wsub h.manager.heapByteSize pageSize = l.length * 4096 := by
      rw [hsize, pageSize, wsub_of_le (by omega) (by omega)]
      omega
    have hdel : h.pageToDel S.table (BitVec.ofNat 64 ((firstPage S.kind + l.length) * 4096)) =
        some (pa, l) := by
      rw [pageToDel, show S.table.kind = .process from hkind, hl]
    obtain ⟨h', t', hrun, ht', hgone, hkept, hfree, hzero, hempty⟩ :=
      ih (h := h.freePage (wsub h.manager.heapByteSize pageSize) pa l s') hb₁ rfl rfl
        (heapStart_freePage.trans hstart) (heapByteSize_freePage.trans hnext) (by omega : l.length < 0 + fuel)
    refine ⟨h', t', ?_, ht', fun i hi => ?_, fun p hp hp' => hkept p hp (hkeep p hp hp'), ?_, hzero, hempty⟩
    · have hpos : h.manager.heapByteSize > 0 := by omega
      rw [HeapState.freePages, if_pos hpos, hva]
      change (h.pageToDel S.table (BitVec.ofNat 64 _)).bind _ = _
      rw [hdel, hs]
      change (unmapRange (some S.table) (pageAddr _) (pageAddr _) s).bind _ = _
      rw [hunmap]
      exact hrun
    · rcases Nat.lt_succ_iff_lt_or_eq.mp hi with hi | rfl
      · exact hgone i hi
      · exact hkept _ (by omega) hnone
    · rw [hfree, List.reverse_cons, List.append_assoc]
      rfl

/-- When the size is not a multiple of the page size it never gets to zero, and the loop runs out of pages
to give back. -/
lemma freePages_eq_none {tbl : MMUTable} (hsize : h.manager.heapByteSize % 4096 ≠ 0) :
    h.freePages tbl fuel = none := by
  induction fuel generalizing h with
  | zero         => rfl
  | succ fuel ih =>
    have hpos : h.manager.heapByteSize > 0 := Nat.pos_of_ne_zero fun hzero => hsize (by rw [hzero])
    rw [HeapState.freePages, if_pos hpos]
    refine Option.eq_none_iff_forall_ne_some.mpr fun h' hrun => ?_
    obtain ⟨⟨pa, allocated⟩, -, hrun⟩ := Option.bind_eq_some_iff.mp hrun
    obtain ⟨⟨unmapped, s'⟩, -, hrun⟩ := Option.bind_eq_some_iff.mp hrun
    cases unmapped with
    | false => cases hrun
    | true =>
      have hnext : (h.freePage (wsub h.manager.heapByteSize pageSize) pa allocated s').manager.heapByteSize %
          4096 ≠ 0 := by
        rw [heapByteSize_freePage, wsub, pageSize]
        omega
      change (h.freePage (wsub h.manager.heapByteSize pageSize) pa allocated s').freePages tbl fuel =
        some h' at hrun
      rw [ih hnext] at hrun
      cases hrun

/-- An empty heap that can change is changed by a call that succeeds. -/
lemma Reaches.exists_change {c : Call} {q : ℕ} (hr : Reaches S h) (hs : h.Sound S t q)
    (hund : h.Undisturbed S c) (hc : h.CanChange S c) (hzero : h.manager.heapByteSize = 0) :
    ∃ h', Reaches S h' ∧ (h'.manager.heapByteSize : ℤ) = c.byteOffset.toInt := by
  obtain ⟨t', hs'⟩ := hs.before hund
  obtain ⟨r, h', t'', q', hrun, hmoved, -⟩ := hs'.changeHeapEnd hc
  have hnew := hmoved.newEnd
  rw [hs'.start, heapBase_eq] at hnew
  have hfirst := firstPage_pos S.kind
  have hsize := hmoved.size
  rw [show (h.before c).manager.heapByteSize = 0 from hzero, Nat.cast_zero, Int.zero_add] at hsize
  exact ⟨h', .change hr hund hrun (by omega) hc.1, hsize⟩

/-- A process gets the first page of its heap. -/
lemma exists_reaches_firstPage (byteOffset : BitVec 64)
    (hone : (init .process emptyState).missing byteOffset = 1) (hpos : 0 < byteOffset.toInt)
    (hle : byteOffset.toInt ≤ 4096) :
    ∃ h, Reaches (identity .process) h ∧ (h.manager.heapByteSize : ℤ) = byteOffset.toInt := by
  have hsize : (init .process emptyState).manager.heapByteSize = 0 := rfl
  have hstart : (init .process emptyState).manager.heapStart = 2 ^ 47 := rfl
  have hpage : (init .process emptyState).manager.heapVaEnd / 4096 = 2 ^ 35 := by decide
  have hcan : CanMap (identity .process) processRwMemory (2 ^ 35) 1
      [⟨0x40000000, by decide, by decide⟩] emptyState :=
    (exists_of_any (by decide +kernel)).imp fun _ hrun => ⟨hrun, trivial⟩
  have hchange := canChange_of_canMap (S := identity .process) (by rw [hsize]; omega)
    (by rw [hsize, hstart]; omega) hpage hone hcan
  have hr₀ : Reaches (identity .process) (init .process emptyState) := .init (holds_emptyState _)
  have hs₀ : (init .process emptyState).Sound (identity .process) _ _ := sound_init (holds_emptyState _)
  have hund : Undisturbed (identity .process) (init .process emptyState)
      ⟨byteOffset, emptyState, [⟨0x40000000, by decide, by decide⟩]⟩ :=
    ⟨⟨_, holds_emptyState _⟩, fun p hp hp' => absurd hp' hp.not_gt⟩
  exact hr₀.exists_change hs₀ hund hchange hsize

/-- The heap of a process is torn down as it should exactly when its size is a multiple of the page size. -/
theorem tearsDown_iff (hkind : S.kind = .process) (hr : Reaches S h) :
    h.Supported S ∧ (h.TearsDown S ↔ h.manager.heapByteSize % 4096 = 0) := by
  obtain ⟨t, hk⟩ := hr.kept hkind
  refine ⟨hk.supported, fun ⟨h', hrun, _⟩ => ?_, fun hzero => ?_⟩
  · by_contra hne
    rw [freeHeap, freePages_eq_none hne] at hrun
    cases hrun
  · have hbase := heapBase_eq S.kind
    have hle := hk.le
    have hlt := hk.lt
    have hva := hk.vaEnd
    have hfits := hk.backed.fits
    have hsize : h.manager.heapByteSize = h.allocatedPa.length * 4096 := by omega
    obtain ⟨h', t', hrun, ht', hgone, -, hfree, hsize', hempty⟩ :=
      hk.backed.freePages hkind rfl rfl hk.start hsize (lt_maxPages (by omega))
    refine ⟨h', hrun, fun p hp hp' => ?_, hfree, hsize', hempty⟩
    rw [hk.start] at hp
    obtain ⟨i, rfl⟩ : ∃ i, p = firstPage S.kind + i := ⟨p - firstPage S.kind, by omega⟩
    exact not_maps_of_find ht' (by omega) (hgone i (by omega))

theorem tearsDown_iff_firstPage : ∃ h, Reaches (identity .process) h ∧ h.manager.heapByteSize = 4096 ∧
    h.Supported (identity .process) ∧
      (h.TearsDown (identity .process) ↔ h.manager.heapByteSize % 4096 = 0) := by
  obtain ⟨h, hr, hsize⟩ := exists_reaches_firstPage 4096 (by decide) (by decide) (by decide)
  have hall := tearsDown_iff (S := identity .process) rfl hr
  exact ⟨h, hr, Int.ofNat_inj.mp hsize, hall⟩

/-- A process asks for 32 bytes, and ends. -/
theorem not_tearsDown_smallHeap : ∃ h, Reaches (identity .process) h ∧ h.manager.heapByteSize = 32 ∧
    h.freeHeap (identity .process).table = none ∧ ¬h.TearsDown (identity .process) := by
  obtain ⟨h, hr, hsize⟩ := exists_reaches_firstPage 32 (by decide) (by decide) (by decide)
  have hsize' : h.manager.heapByteSize = 32 := Int.ofNat_inj.mp hsize
  have hnone : h.freeHeap (identity .process).table = none := by
    apply freePages_eq_none
    rw [hsize']
    decide
  refine ⟨h, hr, hsize', hnone, fun ⟨h', hrun, _⟩ => ?_⟩
  rw [hnone] at hrun
  cases hrun

end HeapState

end PiKachulm.Memory

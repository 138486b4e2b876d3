import PiKachulm.Memory.ProcessHeap

/-!
# `change_heap_end`

The heap of the kernel or of a process, with the pages that the page allocator has left. A call of
`change_heap_end` moves the end before it maps the missing pages, and does not move it back when
there are none.
-/

namespace PiKachulm.Memory

open Core Libk Mmu Services

/-- A `HeapManager` with the tables it maps its pages in and the free pages, in the order in which
`fresh_page` gives them out. `_allocated_pa` is kept from its back. -/
structure HeapState where
  manager : HeapManager
  allocatedPa : List PhysicalPA
  table : Mmu.State
  free : List PhysicalPA

/-- `HEAP_MEMORY` and `PROCESS_HEAP_BASE`. -/
def heapBase : Kind → ℕ
  | .kernel  => 0xFFFF500000000000
  | .process => processHeapBase

/-- `kernel_rw_memory` and `process_rw_memory`. -/
def heapRwMemory : Kind → PagesAttributes
  | .kernel  => { processRwMemory with access := .privileged }
  | .process => processRwMemory

/-- `resolve_kernel_va` for writing, which panics where the hardware finds no writable page. -/
def resolveKernelVa (tbl : MMUTable) (s : Mmu.State) (va : VirtualPA) : Option PhysicalPA := do
  let (pa, attr) ← translate tbl s va
  if attr.rw = .readWrite then some pa else none

namespace HeapState

/-- What the first loop keeps of a page that it has mapped. -/
def addPage (kind : Kind) (pa : PhysicalPA) (table : Mmu.State) (h : HeapState) : HeapState :=
  { h with
    manager := { h.manager with heapVaEnd := wadd h.manager.heapVaEnd pageSize }
    allocatedPa := if kind = .process then pa :: h.allocatedPa else h.allocatedPa
    table := table }

/-- The first loop of `change_heap_end`. The page of a mapping that fails is not given back. -/
def increase (tbl : MMUTable) : List PhysicalPA → HeapState → Option (Bool × HeapState)
  | [], h => some (!decide (h.manager.heapVaEnd < h.manager.getHeapEnd), { h with free := [] })
  | pa :: free, h =>
    if h.manager.heapVaEnd < h.manager.getHeapEnd then do
      let va := BitVec.ofNat 64 h.manager.heapVaEnd
      let (mapped, table) ← mapRange (some tbl) va va pa (heapRwMemory tbl.kind) h.table
      if mapped then increase tbl free (h.addPage tbl.kind pa table)
      else pure (false, { h with table := table, free := free })
    else pure (true, { h with free := pa :: free })

/-- `pa_to_del`, and what is left of `_allocated_pa`: a process takes the last page, and the empty
list fails an assertion. -/
def pageToDel (tbl : MMUTable) (va : VirtualPA) (h : HeapState) :
    Option (PhysicalPA × List PhysicalPA) :=
  match tbl.kind, h.allocatedPa with
  | .process, []              => none
  | .process, pa :: allocated => some (pa, allocated)
  | .kernel, allocated        => (resolveKernelVa tbl h.table va).map fun pa => (pa, allocated)

/-- What the second loop keeps of a page that it has unmapped at `va`. -/
def dropPage (va : ℕ) (pa : PhysicalPA) (allocated : List PhysicalPA) (table : Mmu.State) (h : HeapState) :
    HeapState where
  manager := { h.manager with heapVaEnd := va }
  allocatedPa := allocated
  table := table
  free := pa :: h.free

/-- More than there are pages in the address space. A loop that has unmapped them all finds no
mapped page to go on with. -/
@[irreducible] def maxPages : ℕ := 2 ^ 52 + 1

/-- The second loop of `change_heap_end`, for at most `fuel` pages. -/
def decrease (tbl : MMUTable) : ℕ → HeapState → Option (Bool × HeapState)
  | 0, _ => none
  | fuel + 1, h =>
    let vaToDel := wsub h.manager.heapVaEnd pageSize
    if vaToDel ≥ h.manager.getHeapEnd then do
      let (pa, allocated) ← h.pageToDel tbl (BitVec.ofNat 64 vaToDel)
      let va := BitVec.ofNat 64 vaToDel
      let (unmapped, table) ← unmapRange (some tbl) va va h.table
      if unmapped then decrease tbl fuel (h.dropPage vaToDel pa allocated table)
      else pure (false, { h with allocatedPa := allocated, table := table })
    else pure (true, h)

/-- `change_heap_end`: the new end, or 0. -/
def changeHeapEnd (tbl : MMUTable) (byteOffset : BitVec 64) (h : HeapState) :
    Option (ℕ × HeapState) := do
  let size := wadd h.manager.heapByteSize byteOffset.toNat
  let (grown, h) ←
    increase tbl h.free { h with manager := { h.manager with heapByteSize := size } }
  if grown then
    let (shrunk, h) ← decrease tbl maxPages h
    if shrunk then pure (h.manager.getHeapEnd, h) else pure (0, h)
  else pure (0, h)

/-- The constructor. -/
def init (kind : Kind) (table : Mmu.State) : HeapState where
  manager := .init (heapBase kind)
  allocatedPa := []
  table := table
  free := []

/-! ### What a call owes -/

/-- A call, with the tables and the free pages as the rest of the kernel has left them. -/
structure Call where
  byteOffset : BitVec 64
  table : Mmu.State
  frames : List Frame

/-- The heap when the call is made. -/
def before (h : HeapState) (c : Call) : HeapState :=
  { h with table := c.table, free := c.frames.map Frame.address }

/-- The rest of the kernel leaves the pages of the heap alone. -/
def Undisturbed (S : Services) (h : HeapState) (c : Call) : Prop :=
  (∃ t, S.Holds c.table t) ∧ ∀ p, h.manager.heapStart ≤ p * 4096 → p * 4096 < h.manager.heapVaEnd →
    translate S.table c.table (pageAddr p) = translate S.table h.table (pageAddr p) ∧
      entryLevel S.table c.table (pageAddr p) = entryLevel S.table h.table (pageAddr p)

/-- The page of number `p` is mapped. -/
def Maps (S : Services) (h : HeapState) (p : ℕ) : Prop :=
  translate S.table h.table (pageAddr p) ≠ none

/-- The size has changed by the offset and is not negative, and the pages of the heap are those
below its new end `r`: the pages beyond are only mapped when others had mapped them. -/
structure Moved (S : Services) (h h' : HeapState) (byteOffset : BitVec 64) (r : ℕ) : Prop where
  size : (h'.manager.heapByteSize : ℤ) = h.manager.heapByteSize + byteOffset.toInt
  newEnd : r = h.manager.heapStart + h'.manager.heapByteSize
  mapped : ∀ p, h.manager.heapStart ≤ p * 4096 → p * 4096 < r → h'.Maps S p
  unmapped : ∀ p < 2 ^ 52, checkVa S.kind (pageAddr p) = true → r ≤ p * 4096 → h'.Maps S p →
    h.manager.heapVaEnd ≤ p * 4096 ∧ h.Maps S p

/-- The call has left everything as it was. -/
structure Unchanged (S : Services) (h h' : HeapState) : Prop where
  size : h'.manager.heapByteSize = h.manager.heapByteSize
  mapped : ∀ va, translate S.table h'.table va = translate S.table h.table va
  allocatedPa : h'.allocatedPa = h.allocatedPa
  free : h'.free = h.free

/-- The call returns the new end of a heap that has moved, or 0 and has changed nothing. -/
def Complies (S : Services) (h : HeapState) (byteOffset : BitVec 64) : Prop :=
  ∃ r h', h.changeHeapEnd S.table byteOffset = some (r, h') ∧
    (Moved S h h' byteOffset r ∨ r = 0 ∧ Unchanged S h h')

/-- The pages that are missing below the new end. -/
def missing (h : HeapState) (byteOffset : BitVec 64) : ℕ :=
  (h.manager.heapStart + h.manager.heapByteSize + byteOffset.toInt + 4095).toNat / 4096 -
    h.manager.heapVaEnd / 4096

/-- The heap is at least as large as what is taken from it, and when it is to grow there are
addresses, frames and tables for the missing pages. -/
def CanChange (S : Services) (h : HeapState) (c : Call) : Prop :=
  0 ≤ h.manager.heapByteSize + c.byteOffset.toInt ∧
    h.manager.heapStart + h.manager.heapByteSize + c.byteOffset.toInt ≤ 2 ^ 64 - 4096 ∧
    CanMap S (heapRwMemory S.kind) (h.manager.heapVaEnd / 4096) (h.missing c.byteOffset) c.frames
      c.table

variable {S : Services} {h h' : HeapState} {t : Table} {frames : List Frame} {k n p q : ℕ}
  {pa : PhysicalPA} {free : List PhysicalPA}

lemma increase_cons (hva : h.manager.heapVaEnd = q * 4096)
    (hless : h.manager.heapVaEnd < h.manager.getHeapEnd) :
    h.increase S.table (pa :: free) =
      (mapRange (some S.table) (pageAddr q) (pageAddr q) pa (heapRwMemory S.kind) h.table).bind
        fun r => if r.1 then (h.addPage S.kind pa r.2).increase S.table free
          else some (false, { h with table := r.2, free := free }) := by
  rw [increase, if_pos hless, hva]
  rfl

lemma increase_of_not_lt (hle : ¬h.manager.heapVaEnd < h.manager.getHeapEnd) :
    h.increase S.table free = some (true, { h with free := free }) := by
  cases free with
  | nil => simp [increase, hle]
  | cons pa free => simp [increase, hle]

/-- The page after the one that has been added. -/
lemma heapVaEnd_addPage {kind : Kind} {table : Mmu.State} (hva : h.manager.heapVaEnd = q * 4096)
    (hq : q + 1 < 2 ^ 52) : (h.addPage kind pa table).manager.heapVaEnd = (q + 1) * 4096 := by
  have hfit : q * 4096 + 4096 < 2 ^ 64 := by omega
  show wadd h.manager.heapVaEnd pageSize = (q + 1) * 4096
  rw [hva, pageSize, wadd_of_lt hfit]
  ring

lemma getHeapEnd_addPage {kind : Kind} {table : Mmu.State} :
    (h.addPage kind pa table).manager.getHeapEnd = h.manager.getHeapEnd := by
  rw [HeapManager.getHeapEnd, HeapManager.getHeapEnd, addPage]

/-- The first page of the heap. -/
def firstPage (kind : Kind) : ℕ := heapBase kind / 4096

lemma heapBase_eq (kind : Kind) : heapBase kind = firstPage kind * 4096 := by
  cases kind <;> rfl

lemma firstPage_pos (kind : Kind) : 0 < firstPage kind := by
  cases kind <;> decide

/-- The pages from `q` on, `k` of them, have become pages of the heap, and the others are kept. -/
structure Grows (S : Services) (q k : ℕ) (t t' : Table) : Prop where
  pages : ∀ p, q ≤ p → p < q + k →
    slot 512 4 p = rootSlot S.kind ∧ OwnPage (heapRwMemory S.kind) t' p
  keeps : ∀ p, slot 512 4 p = rootSlot S.kind → ¬ (q ≤ p ∧ p < q + k) →
    Keeps p (t.find 512 3 p) (t'.find 512 3 p)

lemma Grows.refl (ht : S.Holds h.table t) : Grows S q 0 t t where
  pages _ hq hlt := absurd hlt hq.not_gt
  keeps _ hslot _ := Keeps.refl (lt_of_slot_eq hslot) fun _ hx => (Entries.ok_of_find ht.wf hx).2

/-- The first loop maps the missing pages when that is possible. -/
lemma increase_of_canMap (ht : S.Holds h.table t) (hva : h.manager.heapVaEnd = q * 4096)
    (hq : 0 < q) (hfit : q + k < 2 ^ 52) (hk : (h.manager.getHeapEnd + 4095) / 4096 - q = k)
    (hcan : CanMap S (heapRwMemory S.kind) q k frames h.table) :
    ∃ h' t', h.increase S.table (frames.map Frame.address) = some (true, h') ∧
      S.Holds h'.table t' ∧ Grows S q k t t' ∧
      h'.manager = { h.manager with heapVaEnd := (q + k) * 4096 } ∧
      (S.kind = .process → h'.allocatedPa.length = h.allocatedPa.length + k) := by
  induction k generalizing h t q frames with
  | zero =>
    have hle : ¬h.manager.heapVaEnd < h.manager.getHeapEnd := by omega
    refine ⟨_, t, increase_of_not_lt hle, ht, .refl ht, ?_, fun _ => rfl⟩
    rw [Nat.add_zero, ← hva]
  | succ k ih =>
    cases frames with
    | nil => exact absurd hcan id
    | cons f frames =>
      obtain ⟨s', hrun, hcan⟩ := hcan
      obtain ⟨hcheck, t₁, ht₁, hpage, hkeep⟩ := ownPage_of_mapRange ht hq (by omega) hrun
      have hslot : slot 512 4 q = rootSlot S.kind := by
        have hroot := (checkVa_iff_page.mp hcheck).2
        rwa [pageNumber_pageAddr (by omega)] at hroot
      have hless : h.manager.heapVaEnd < h.manager.getHeapEnd := by omega
      have hnext : (h.addPage S.kind f.address s').manager.heapVaEnd = (q + 1) * 4096 :=
        heapVaEnd_addPage hva (by omega)
      have hk' : ((h.addPage S.kind f.address s').manager.getHeapEnd + 4095) / 4096 - (q + 1) = k := by
        rw [getHeapEnd_addPage]
        omega
      obtain ⟨h', t', hrun', ht', hgrows, hman, hlen⟩ :=
        ih (h := h.addPage S.kind f.address s') ht₁ hnext q.succ_pos (by omega) hk' hcan
      refine ⟨h', t', ?_, ht', ⟨fun p hqp hlt => ?_, fun p hp hout => ?_⟩, ?_, fun hkind => ?_⟩
      · rw [List.map_cons, increase_cons hva hless, hrun]
        exact hrun'
      · rcases hqp.lt_or_eq with hqp | rfl
        · exact hgrows.pages p hqp (by omega)
        · exact ⟨hslot, hpage.of_keeps (hgrows.keeps q hslot fun hin => by omega)⟩
      · exact (hkeep p hp (by omega)).trans (lt_of_slot_eq hp) (hgrows.keeps p hp (by omega))
      · rw [hman, addPage, show q + 1 + k = q + (k + 1) by ring]
      · rw [hlen hkind, addPage, if_pos hkind, List.length_cons]
        ring

/-- The pages from `q` on, `n` of them, are no longer mapped, those below are kept, and no other
page is mapped. -/
structure Shrinks (S : Services) (q n : ℕ) (t t' : Table) : Prop where
  dropped : ∀ p, q ≤ p → p < q + n → t'.find 512 3 p = none
  keeps : ∀ p < q, slot 512 4 p = rootSlot S.kind → ∀ attr, OwnPage attr t p → OwnPage attr t' p
  unmapped : ∀ p, slot 512 4 p = rootSlot S.kind → t.find 512 3 p = none → t'.find 512 3 p = none

/-- The page after the end of the heap can be taken from it. -/
lemma pageToDel_of_ownPage (ht : S.Holds h.table t) (hslot : slot 512 4 p = rootSlot S.kind)
    (hpage : OwnPage (heapRwMemory S.kind) t p)
    (hlen : S.kind = .process → h.allocatedPa.length = n + 1) :
    ∃ pa allocated, h.pageToDel S.table (pageAddr p) = some (pa, allocated) ∧
      (S.kind = .process → allocated.length = n) := by
  have hkind : S.table.kind = S.kind := rfl
  rw [pageToDel, hkind]
  cases hS : S.kind with
  | process =>
    obtain ⟨pa, allocated, hl⟩ := List.exists_cons_of_length_eq_add_one (hlen hS)
    rw [hl]
    refine ⟨pa, allocated, rfl, fun _ => ?_⟩
    have hlen' := hlen hS
    rw [hl, List.length_cons] at hlen'
    exact Nat.succ_injective hlen'
  | kernel =>
    obtain ⟨f, hf⟩ := hpage
    have htr : translate S.table h.table (pageAddr p) =
        some (leafView p (0, ⟨f, heapRwMemory S.kind⟩)) := by
      rw [ht.translate_eq (lt_of_slot_eq hslot), hf]
      rfl
    have hres : resolveKernelVa S.table h.table (pageAddr p) =
        some (leafView p (0, ⟨f, heapRwMemory S.kind⟩)).1 := by
      rw [resolveKernelVa, htr, hS]
      rfl
    refine ⟨_, h.allocatedPa, by rw [hres]; rfl, fun hkind => ?_⟩
    cases hkind

section DropPage

variable {va : ℕ} {allocated : List PhysicalPA} {table : Mmu.State}

lemma heapByteSize_dropPage :
    (h.dropPage va pa allocated table).manager.heapByteSize = h.manager.heapByteSize := rfl

lemma heapStart_dropPage :
    (h.dropPage va pa allocated table).manager.heapStart = h.manager.heapStart := rfl

lemma getHeapEnd_dropPage :
    (h.dropPage va pa allocated table).manager.getHeapEnd = h.manager.getHeapEnd := by
  rw [HeapManager.getHeapEnd, HeapManager.getHeapEnd, heapByteSize_dropPage, heapStart_dropPage]

end DropPage

private lemma wsub_page (hq : q + n + 1 < 2 ^ 52) :
    wsub ((q + (n + 1)) * 4096) pageSize = (q + n) * 4096 := by
  rw [pageSize, wsub_of_le (by omega) (by omega)]
  omega

private lemma wsub_page_lt {e : ℕ} (hq : q < 2 ^ 52) (hpos : 0 < q) (hlt : q * 4096 < e + 4096) :
    ¬wsub (q * 4096) pageSize ≥ e := by
  rw [pageSize, wsub_of_le (by omega) (by omega)]
  omega

/-- The second loop unmaps the pages past the end. -/
lemma decrease_of_ownPage {fuel : ℕ} (ht : S.Holds h.table t) (hfuel : n < fuel)
    (hva : h.manager.heapVaEnd = (q + n) * 4096) (hq : 0 < q) (hfit : q + n < 2 ^ 52)
    (hle : h.manager.getHeapEnd ≤ q * 4096) (hlt : q * 4096 < h.manager.getHeapEnd + 4096)
    (hpages : ∀ p, q ≤ p → p < q + n →
      slot 512 4 p = rootSlot S.kind ∧ OwnPage (heapRwMemory S.kind) t p)
    (hlen : S.kind = .process → h.allocatedPa.length = k + n) :
    ∃ h' t', h.decrease S.table fuel = some (true, h') ∧ S.Holds h'.table t' ∧ Shrinks S q n t t' ∧
      h'.manager = { h.manager with heapVaEnd := q * 4096 } ∧
      (S.kind = .process → h'.allocatedPa.length = k) := by
  induction n generalizing h t fuel with
  | zero =>
    obtain ⟨fuel, rfl⟩ := Nat.exists_eq_add_of_lt hfuel
    rw [Nat.zero_add]
    have hstop : ¬wsub h.manager.heapVaEnd pageSize ≥ h.manager.getHeapEnd := by
      rw [hva]
      exact wsub_page_lt hfit hq hlt
    refine ⟨h, t, ?_, ht, ⟨fun p hqp hpq => absurd hpq hqp.not_gt, fun _ _ _ _ hp => hp,
      fun _ _ hp => hp⟩, ?_, hlen⟩
    · rw [decrease, if_neg hstop]
      rfl
    · rw [Nat.add_zero] at hva
      rw [← hva]
  | succ n ih =>
    obtain ⟨fuel, rfl⟩ := Nat.exists_eq_add_of_lt ((Nat.zero_le _).trans_lt hfuel)
    obtain ⟨hslot, hpage⟩ := hpages (q + n) (Nat.le_add_right q n) (Nat.lt_succ_self _)
    obtain ⟨pa, allocated, hdel, hlen'⟩ := pageToDel_of_ownPage (n := k + n) ht hslot hpage hlen
    obtain ⟨s', t₁, hrun, ht₁, hnone, hkeep, hunmapped⟩ := unmapRange_of_ownPage ht hslot hpage
    have hnext : wsub h.manager.heapVaEnd pageSize = (q + n) * 4096 := by
      rw [hva]
      exact wsub_page hfit
    have hgo : (q + n) * 4096 ≥ h.manager.getHeapEnd :=
      hle.trans (Nat.mul_le_mul_right _ (Nat.le_add_right q n))
    have hfuel' : n < 0 + fuel := by omega
    have hpages' : ∀ p, q ≤ p → p < q + n →
        slot 512 4 p = rootSlot S.kind ∧ OwnPage (heapRwMemory S.kind) t₁ p := by
      intro p hqp hlt
      obtain ⟨hp, hown⟩ := hpages p hqp (hlt.trans (Nat.lt_succ_self _))
      exact ⟨hp, hown.imp fun f hf => hkeep p hlt hp _ hf⟩
    obtain ⟨h', t', hrun', ht', hshrinks, hman, hlen''⟩ := ih
      (h := h.dropPage ((q + n) * 4096) pa allocated s') ht₁ hfuel' rfl (by omega)
      (by rw [getHeapEnd_dropPage]; exact hle) (by rw [getHeapEnd_dropPage]; exact hlt)
      hpages' hlen'
    refine ⟨h', t', ?_, ht', ⟨fun p hqp hlt => ?_, fun p hlt hp attr hown => ?_,
      fun p hp hf => ?_⟩, hman, hlen''⟩
    · rw [decrease, hnext, if_pos hgo]
      change (h.pageToDel S.table (pageAddr (q + n))).bind _ = _
      rw [hdel]
      change (unmapRange (some S.table) (pageAddr (q + n)) (pageAddr (q + n)) h.table).bind _ = _
      rw [hrun]
      exact hrun'
    · rcases Nat.lt_succ_iff_lt_or_eq.mp hlt with hlt | rfl
      · exact hshrinks.dropped p hqp hlt
      · exact hshrinks.unmapped _ hslot hnone
    · exact hshrinks.keeps p hlt hp attr
        (hown.imp fun f hf => hkeep p (hlt.trans_le (Nat.le_add_right q n)) hp _ hf)
    · exact hshrinks.unmapped p hp (hunmapped p hp hf)

/-! ### Runs -/

lemma heapByteSize_addPage {kind : Kind} {table : Mmu.State} :
    (h.addPage kind pa table).manager.heapByteSize = h.manager.heapByteSize := by
  rw [addPage]

lemma heapStart_addPage {kind : Kind} {table : Mmu.State} :
    (h.addPage kind pa table).manager.heapStart = h.manager.heapStart := by
  rw [addPage]

/-- The loops move the end of the pages, and keep the heap's start and size. -/
lemma increase_same {r : Bool × HeapState} {tbl : MMUTable}
    (hrun : h.increase tbl free = some r) : r.2.manager.heapByteSize = h.manager.heapByteSize ∧
      r.2.manager.heapStart = h.manager.heapStart := by
  induction free generalizing h with
  | nil =>
    cases hrun
    exact ⟨rfl, rfl⟩
  | cons pa free ih =>
    rw [increase] at hrun
    split_ifs at hrun with hless
    · obtain ⟨⟨mapped, s'⟩, -, hrun⟩ := Option.bind_eq_some_iff.mp hrun
      cases mapped with
      | false =>
        cases hrun
        exact ⟨rfl, rfl⟩
      | true =>
        have hrun' : (h.addPage tbl.kind pa s').increase tbl free = some r := hrun
        obtain ⟨hsize, hstart⟩ := ih hrun'
        exact ⟨hsize.trans heapByteSize_addPage, hstart.trans heapStart_addPage⟩
    · cases hrun
      exact ⟨rfl, rfl⟩

lemma decrease_same {r : Bool × HeapState} {tbl : MMUTable} {fuel : ℕ}
    (hrun : h.decrease tbl fuel = some r) : r.2.manager.heapByteSize = h.manager.heapByteSize ∧
      r.2.manager.heapStart = h.manager.heapStart := by
  induction fuel generalizing h with
  | zero => cases hrun
  | succ fuel ih =>
    rw [decrease] at hrun
    split_ifs at hrun with hgo
    · obtain ⟨⟨pa, allocated⟩, -, hrun⟩ := Option.bind_eq_some_iff.mp hrun
      obtain ⟨⟨unmapped, s'⟩, -, hrun⟩ := Option.bind_eq_some_iff.mp hrun
      cases unmapped with
      | false =>
        cases hrun
        exact ⟨rfl, rfl⟩
      | true =>
        have hrun' : (h.dropPage (wsub h.manager.heapVaEnd pageSize) pa allocated s').decrease tbl fuel =
          some r := hrun
        obtain ⟨hsize, hstart⟩ := ih hrun'
        exact ⟨hsize.trans heapByteSize_dropPage, hstart.trans heapStart_dropPage⟩
    · cases hrun
      exact ⟨rfl, rfl⟩

/-- The heap once its size has changed. -/
def resize (h : HeapState) (byteOffset : BitVec 64) : HeapState :=
  { h with
    manager := { h.manager with
      heapByteSize := wadd h.manager.heapByteSize byteOffset.toNat } }

/-- How a call that returns has run. -/
lemma changeHeapEnd_cases {tbl : MMUTable} {byteOffset : BitVec 64} {r : ℕ}
    (hrun : h.changeHeapEnd tbl byteOffset = some (r, h')) :
    h'.manager.heapByteSize = wadd h.manager.heapByteSize byteOffset.toNat ∧
      h'.manager.heapStart = h.manager.heapStart ∧
      (r = 0 ∨ r = h'.manager.getHeapEnd ∧
        ∃ h₁, (h.resize byteOffset).increase tbl h.free = some (true, h₁)) := by
  obtain ⟨⟨grown, h₁⟩, hinc, hrun⟩ := Option.bind_eq_some_iff.mp hrun
  obtain ⟨hsize, hstart⟩ := increase_same hinc
  cases grown with
  | false =>
    cases hrun
    exact ⟨hsize, hstart, .inl rfl⟩
  | true =>
    obtain ⟨⟨shrunk, h₂⟩, hdec, hrun⟩ := Option.bind_eq_some_iff.mp hrun
    obtain ⟨hsize', hstart'⟩ := decrease_same hdec
    cases shrunk with
    | false =>
      cases hrun
      exact ⟨hsize'.trans hsize, hstart'.trans hstart, .inl rfl⟩
    | true =>
      cases hrun
      exact ⟨hsize'.trans hsize, hstart'.trans hstart, .inr ⟨rfl, h₁, hinc⟩⟩

/-- The invariant: the pages of the heap reach to its end, and a process has one page of memory for
each of them. -/
structure Sound (S : Services) (h : HeapState) (t : Table) (q : ℕ) : Prop where
  holds : S.Holds h.table t
  start : h.manager.heapStart = heapBase S.kind
  vaEnd : h.manager.heapVaEnd = q * 4096
  first : firstPage S.kind ≤ q
  fits : q < 2 ^ 52
  le : heapBase S.kind + h.manager.heapByteSize ≤ q * 4096
  lt : q * 4096 < heapBase S.kind + h.manager.heapByteSize + 4096
  pages : ∀ p, firstPage S.kind ≤ p → p < q →
    slot 512 4 p = rootSlot S.kind ∧ OwnPage (heapRwMemory S.kind) t p
  allocated : S.kind = .process → h.allocatedPa.length = q - firstPage S.kind

lemma sound_init {table : Mmu.State} (ht : S.Holds table t) :
    (init S.kind table).Sound S t (firstPage S.kind) where
  holds := ht
  start := rfl
  vaEnd := heapBase_eq S.kind
  first := le_rfl
  fits := by cases S.kind <;> decide
  le := (heapBase_eq S.kind).le
  lt := by
    rw [← heapBase_eq]
    exact Nat.lt_add_of_pos_right (by norm_num)
  pages p hle hlt := absurd hlt hle.not_gt
  allocated _ := (Nat.sub_self _).symm

/-- A page that keeps its entry. -/
lemma ownPage_of_eq {s s' : Mmu.State} {t' : Table} {attr : PagesAttributes} (ht : S.Holds s t)
    (ht' : S.Holds s' t') (hp : p < 2 ^ 52)
    (htr : translate S.table s' (pageAddr p) = translate S.table s (pageAddr p))
    (hlevel : entryLevel S.table s' (pageAddr p) = entryLevel S.table s (pageAddr p))
    (hown : OwnPage attr t p) : OwnPage attr t' p := by
  obtain ⟨f, hf⟩ := hown
  rw [ht'.translate_eq hp, ht.translate_eq hp, hf] at htr
  rw [ht'.entryLevel_eq hp, ht.entryLevel_eq hp, hf] at hlevel
  cases hf' : t'.find 512 3 p with
  | none =>
    rw [hf'] at htr
    cases htr
  | some u =>
    rw [hf'] at htr hlevel
    have hle : u.1 ≤ 3 := Entries.find_height_le hf'
    have hzero : u.1 = 0 := by
      have heq : 4 - u.1 = 4 - 0 := Option.some_injective _ hlevel
      omega
    have hattr : u.2.attr = attr := congrArg Prod.snd (Option.some_injective _ htr)
    obtain ⟨l, m⟩ := u
    obtain rfl : l = 0 := hzero
    obtain rfl : m.attr = attr := hattr
    exact ⟨m.frame, hf'⟩

/-- The invariant holds when the next call is made. -/
lemma Sound.before {c : Call} (hs : h.Sound S t q) (hc : h.Undisturbed S c) :
    ∃ t', (h.before c).Sound S t' q := by
  obtain ⟨⟨t', ht'⟩, hkeep⟩ := hc
  refine ⟨t', ht', hs.start, hs.vaEnd, hs.first, hs.fits, hs.le, hs.lt, fun p hle hlt => ?_,
    hs.allocated⟩
  obtain ⟨hslot, hown⟩ := hs.pages p hle hlt
  obtain ⟨htr, hlevel⟩ := hkeep p
    (by rw [hs.start, heapBase_eq]; exact Nat.mul_le_mul_right _ hle)
    (by rw [hs.vaEnd]; exact Nat.mul_lt_mul_of_pos_right hlt (by norm_num))
  exact ⟨hslot, ownPage_of_eq hs.holds ht' (lt_of_slot_eq hslot) htr hlevel hown⟩

/-- The sum of a word and an offset that does not leave the words. -/
lemma wadd_offset {a : ℕ} {byteOffset : BitVec 64} (hpos : 0 ≤ a + byteOffset.toInt)
    (hlt : a + byteOffset.toInt < 2 ^ 64) :
    (wadd a byteOffset.toNat : ℤ) = a + byteOffset.toInt := by
  rw [BitVec.toInt_eq_toNat_cond] at *
  rw [wadd]
  split_ifs at * <;> omega

lemma maps_of_ownPage {attr : PagesAttributes} (ht : S.Holds h.table t) (hp : p < 2 ^ 52)
    (hown : OwnPage attr t p) : h.Maps S p := by
  obtain ⟨f, hf⟩ := hown
  rw [Maps, ht.translate_eq hp, hf]
  exact Option.some_ne_none _

lemma not_maps_of_find (ht : S.Holds h.table t) (hp : p < 2 ^ 52) (hf : t.find 512 3 p = none) :
    ¬h.Maps S p := by
  rw [Maps, ht.translate_eq hp, hf]
  exact fun hne => hne rfl

/-- The end that a heap which can change gets, and the number of its last page. -/
structure NewEnd (S : Services) (h : HeapState) (byteOffset : BitVec 64) (q e q' : ℕ) : Prop where
  size : (wadd h.manager.heapByteSize byteOffset.toNat : ℤ) =
    h.manager.heapByteSize + byteOffset.toInt
  eq : e = heapBase S.kind + wadd h.manager.heapByteSize byteOffset.toNat
  getHeapEnd : (h.resize byteOffset).manager.getHeapEnd = e
  page : q' = (e + 4095) / 4096
  missing : (e + 4095) / 4096 - q = h.missing byteOffset
  first : firstPage S.kind ≤ q'
  fits : q' < 2 ^ 52

lemma Sound.newEnd {c : Call} (hs : h.Sound S t q) (hc : h.CanChange S c) :
    ∃ e q', h.NewEnd S c.byteOffset q e q' := by
  obtain ⟨hpos, hle, -⟩ := hc
  rw [hs.start] at hle
  have hsize := wadd_offset hpos (by omega)
  have hbase := heapBase_eq S.kind
  have hfit : heapBase S.kind + wadd h.manager.heapByteSize c.byteOffset.toNat < 2 ^ 64 := by omega
  refine ⟨_, _, hsize, rfl, ?_, rfl, ?_, ?_, ?_⟩
  · rw [HeapManager.getHeapEnd]
    show wadd h.manager.heapStart (wadd h.manager.heapByteSize c.byteOffset.toNat) = _
    rw [hs.start, wadd_of_lt hfit]
  · rw [HeapState.missing, hs.start, hs.vaEnd, Nat.mul_div_cancel _ (by norm_num)]
    have heq : (heapBase S.kind + h.manager.heapByteSize + c.byteOffset.toInt + 4095).toNat =
        heapBase S.kind + wadd h.manager.heapByteSize c.byteOffset.toNat + 4095 := by omega
    rw [heq]
  · omega
  · omega

lemma resize_eq (h : HeapState) (byteOffset : BitVec 64) :
    (h.resize byteOffset).manager.heapStart = h.manager.heapStart ∧
      (h.resize byteOffset).manager.heapVaEnd = h.manager.heapVaEnd ∧
      (h.resize byteOffset).allocatedPa = h.allocatedPa ∧
      (h.resize byteOffset).table = h.table := ⟨rfl, rfl, rfl, rfl⟩

lemma changeHeapEnd_eq {h₁ h₂ : HeapState} {tbl : MMUTable} {byteOffset : BitVec 64}
    (hinc : (h.resize byteOffset).increase tbl h.free = some (true, h₁))
    (hdec : h₁.decrease tbl maxPages = some (true, h₂)) :
    h.changeHeapEnd tbl byteOffset = some (h₂.manager.getHeapEnd, h₂) := by
  rw [changeHeapEnd]
  change ((h.resize byteOffset).increase tbl h.free).bind _ = _
  rw [hinc]
  change (h₁.decrease tbl maxPages).bind _ = _
  rw [hdec]
  rfl

lemma lt_maxPages (hn : n < 2 ^ 52) : n < maxPages := by
  rw [maxPages]
  exact hn.trans (Nat.lt_succ_self _)

/-- What is left of the pages after both loops. -/
lemma pages_of_loops {t₁ t₂ : Table} {q' : ℕ} (hgrows : Grows S q k t t₁)
    (hshrinks : Shrinks S q' n t₁ t₂) (hsum : q' + n = q + k) (hslot : slot 512 4 p = rootSlot S.kind)
    (hp : q' ≤ p) (hf : t₂.find 512 3 p ≠ none) : q ≤ p ∧ t.find 512 3 p ≠ none := by
  have hge : q + k ≤ p := by
    by_contra hlt
    exact hf (hshrinks.dropped p hp (by omega))
  refine ⟨(Nat.le_add_right q k).trans hge, fun hnone => hf (hshrinks.unmapped p hslot ?_)⟩
  have hkeep := hgrows.keeps p hslot fun hin => hge.not_gt hin.2
  rw [hnone] at hkeep
  exact hkeep.none_left

/-- When the heap can change, it moves. -/
lemma Sound.changeHeapEnd {c : Call} (hs : (h.before c).Sound S t q) (hc : h.CanChange S c) :
    ∃ r h' t' q', (h.before c).changeHeapEnd S.table c.byteOffset = some (r, h') ∧
      Moved S (h.before c) h' c.byteOffset r ∧ h'.Sound S t' q' := by
  obtain ⟨e, q', hnew⟩ := hs.newEnd hc
  have hcan := hc.2.2
  obtain ⟨hstart, hvaEnd, halloc, htable⟩ := resize_eq (h.before c) c.byteOffset
  have hva : h.manager.heapVaEnd / 4096 = q := by
    rw [show h.manager.heapVaEnd = q * 4096 from hs.vaEnd, Nat.mul_div_cancel _ (by norm_num)]
  rw [hva] at hcan
  obtain ⟨k, hk⟩ : ∃ k, (e + 4095) / 4096 - q = k := ⟨_, rfl⟩
  have hmissing : h.missing c.byteOffset = k := hnew.missing.symm.trans hk
  rw [hmissing] at hcan
  have hpage := hnew.page
  have hfits := hnew.fits
  have hqfits := hs.fits
  obtain ⟨n, hsum⟩ : ∃ n, q' + n = q + k := ⟨q + k - q', by omega⟩
  have hqk : q + k < 2 ^ 52 := by omega
  obtain ⟨h₁, t₁, hinc, ht₁, hgrows, hman₁, hlen₁⟩ := increase_of_canMap
    (h := (h.before c).resize c.byteOffset) hs.holds hs.vaEnd
    ((firstPage_pos S.kind).trans_le hs.first) hqk (by rw [hnew.getHeapEnd]; exact hk) hcan
  have hend₁ : h₁.manager.getHeapEnd = e := by
    rw [hman₁, ← hnew.getHeapEnd, HeapManager.getHeapEnd, HeapManager.getHeapEnd]
  have hown : ∀ p, firstPage S.kind ≤ p → p < q + k →
      slot 512 4 p = rootSlot S.kind ∧ OwnPage (heapRwMemory S.kind) t₁ p := by
    intro p hle hlt
    by_cases hqp : q ≤ p
    · exact hgrows.pages p hqp hlt
    · obtain ⟨hslot, hpage⟩ := hs.pages p hle (not_le.mp hqp)
      exact ⟨hslot, hpage.of_keeps (hgrows.keeps p hslot fun hin => hqp hin.1)⟩
  have hlen : S.kind = .process → h₁.allocatedPa.length = q' - firstPage S.kind + n := by
    intro hkind
    have hfirst := hs.first
    have hfirst' := hnew.first
    rw [hlen₁ hkind, halloc, hs.allocated hkind]
    omega
  obtain ⟨h₂, t₂, hdec, ht₂, hshrinks, hman₂, hlen₂⟩ := decrease_of_ownPage (q := q') (n := n) ht₁
    (lt_maxPages (by omega)) (by rw [hman₁, hsum]) ((firstPage_pos S.kind).trans_le hnew.first)
    (by omega) (by rw [hend₁]; omega) (by rw [hend₁]; omega)
    (fun p hle hlt => hown p (hnew.first.trans hle) (hsum ▸ hlt)) hlen
  have hend₂ : h₂.manager.getHeapEnd = e := by
    rw [hman₂, ← hend₁, HeapManager.getHeapEnd, HeapManager.getHeapEnd]
  have hsize₂ : h₂.manager.heapByteSize = wadd h.manager.heapByteSize c.byteOffset.toNat := by
    rw [hman₂, hman₁]
    rfl
  have hstart₂ : h₂.manager.heapStart = heapBase S.kind := by
    rw [hman₂, hman₁, ← hs.start, ← hstart]
  have heq : e = heapBase S.kind + h₂.manager.heapByteSize := hsize₂ ▸ hnew.eq
  have hown₂ : ∀ p, firstPage S.kind ≤ p → p < q' →
      slot 512 4 p = rootSlot S.kind ∧ OwnPage (heapRwMemory S.kind) t₂ p := by
    intro p hle hlt
    obtain ⟨hslot, hpage⟩ := hown p hle (by omega)
    exact ⟨hslot, hshrinks.keeps p hlt hslot _ hpage⟩
  have hrun := changeHeapEnd_eq (h := h.before c) hinc hdec
  rw [hend₂] at hrun
  refine ⟨e, h₂, t₂, q', hrun, ⟨?_, ?_, fun p hle hlt => ?_, fun p hp hcheck hle hmaps => ?_⟩,
    ht₂, hstart₂, by rw [hman₂], hnew.first, hnew.fits, by omega, by omega, hown₂, hlen₂⟩
  · rw [hsize₂]
    exact hnew.size
  · rw [hs.start]
    exact heq
  · have hbase := heapBase_eq S.kind
    rw [hs.start] at hle
    obtain ⟨hslot, hpage⟩ := hown₂ p (by omega) (by omega)
    exact maps_of_ownPage ht₂ (lt_of_slot_eq hslot) hpage
  · have hslot : slot 512 4 p = rootSlot S.kind := by
      have hroot := (checkVa_iff_page.mp hcheck).2
      rwa [pageNumber_pageAddr hp] at hroot
    have hf₂ : t₂.find 512 3 p ≠ none := fun hnone => not_maps_of_find ht₂ hp hnone hmaps
    obtain ⟨hqp, hf⟩ := pages_of_loops hgrows hshrinks hsum hslot (by omega) hf₂
    refine ⟨?_, ?_⟩
    · rw [hs.vaEnd]
      exact Nat.mul_le_mul_right _ hqp
    · rw [Maps, hs.holds.translate_eq hp]
      exact fun hnone => hf (Option.map_eq_none_iff.mp hnone)

lemma canChange_of_canMap {byteOffset : BitVec 64} {table : Mmu.State}
    (hpos : 0 ≤ h.manager.heapByteSize + byteOffset.toInt)
    (hle : h.manager.heapStart + h.manager.heapByteSize + byteOffset.toInt ≤ 2 ^ 64 - 4096)
    (hq : h.manager.heapVaEnd / 4096 = q) (hk : h.missing byteOffset = k)
    (hcan : CanMap S (heapRwMemory S.kind) q k frames table) :
    h.CanChange S ⟨byteOffset, table, frames⟩ := by
  subst hq hk
  exact ⟨hpos, hle, hcan⟩

end HeapState

end PiKachulm.Memory

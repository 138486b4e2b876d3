import PiKachulm.Memory.HeapManager
import PiKachulm.Memory.PageMapping

/-!
# `malloc` in a process

The heap of a process is a `HeapManager` with the frames it has allocated and the tables of the
process. The library takes `malloc` to the system call `sbrk`, which returns the end that the heap had
before it tried to move it.
-/

namespace PiKachulm.Memory

open Core Libk Mmu Services

/-- `_allocated_pa` is kept from its back, where pages are added and removed. -/
structure ProcessHeap where
  manager : HeapManager
  allocatedPa : List PhysicalPA
  table : Mmu.State

/-- `PROCESS_HEAP_BASE`. -/
def processHeapBase : ℕ := 0x800000000000

/-- `process_rw_memory`. -/
def processRwMemory : PagesAttributes := getProperties false false

namespace ProcessHeap

/-- The first loop of `change_heap_end`, in which `fresh_page` gives out `frames` and then fails. -/
def increase (tbl : MMUTable) : List Frame → ProcessHeap → Option (Bool × ProcessHeap)
  | [], h => some (!decide (h.manager.heapVaEnd < h.manager.getHeapEnd), h)
  | f :: frames, h =>
    if h.manager.heapVaEnd < h.manager.getHeapEnd then do
      let va := BitVec.ofNat 64 h.manager.heapVaEnd
      let (mapped, table) ← mapRange (some tbl) va va f.address processRwMemory h.table
      if mapped then
        increase tbl frames
          { manager := { h.manager with heapVaEnd := wadd h.manager.heapVaEnd pageSize }
            allocatedPa := f.address :: h.allocatedPa
            table := table }
      else pure (false, { h with table := table })
    else pure (true, h)

/-- The second loop of `change_heap_end`. Taking a page from the empty list fails an assertion. -/
def decrease (tbl : MMUTable) :
    List PhysicalPA → HeapManager → Mmu.State → Option (Bool × ProcessHeap)
  | [], hm, table =>
    if wsub hm.heapVaEnd pageSize ≥ hm.getHeapEnd then none else some (true, ⟨hm, [], table⟩)
  | pa :: allocated, hm, table =>
    if wsub hm.heapVaEnd pageSize ≥ hm.getHeapEnd then do
      let va := BitVec.ofNat 64 (wsub hm.heapVaEnd pageSize)
      let (unmapped, table) ← unmapRange (some tbl) va va table
      if unmapped then
        decrease tbl allocated { hm with heapVaEnd := wsub hm.heapVaEnd pageSize } table
      else pure (false, ⟨hm, allocated, table⟩)
    else pure (true, ⟨hm, pa :: allocated, table⟩)

def changeHeapEnd (tbl : MMUTable) (byteOffset : ℕ) (frames : List Frame) (h : ProcessHeap) :
    Option (ℕ × ProcessHeap) := do
  let hm := { h.manager with heapByteSize := wadd h.manager.heapByteSize byteOffset }
  let (grown, h) ← increase tbl frames { h with manager := hm }
  if grown then
    let (shrunk, h) ← decrease tbl h.allocatedPa h.manager h.table
    if shrunk then pure (h.manager.getHeapEnd, h) else pure (0, h)
  else pure (0, h)

/-- `pika_sys_sbrk`. -/
def sysSbrk (tbl : MMUTable) (increment : ℕ) (frames : List Frame) (h : ProcessHeap) :
    Option (ℕ × ProcessHeap) := do
  let previousBrk := h.manager.getHeapEnd
  let (_, h) ← h.changeHeapEnd tbl increment frames
  pure (previousBrk, h)

/-- `malloc` of the user library. -/
def malloc (tbl : MMUTable) (n : ℕ) (frames : List Frame) (h : ProcessHeap) :
    Option (ℕ × ProcessHeap) :=
  h.sysSbrk tbl n frames

/-- The heap of a new process. -/
def init (table : Mmu.State) : ProcessHeap where
  manager := .init processHeapBase
  allocatedPa := []
  table := table

/-! ### What `malloc` owes -/

/-- A call of `malloc`, with the frames that the other processes have left free. -/
structure Call where
  size : ℕ
  frames : List Frame

/-- The pages that are missing below the new end of the heap. -/
def missing (h : ProcessHeap) (n : ℕ) : ℕ :=
  (h.manager.getHeapEnd + n + 4095) / 4096 - h.manager.heapVaEnd / 4096

/-- The kernel can grow the heap: there are addresses, frames and tables for the missing pages. -/
def CanGrow (S : Services) (h : ProcessHeap) (c : Call) : Prop :=
  h.manager.getHeapEnd + c.size < 2 ^ 64 ∧
    CanMap S processRwMemory (h.manager.heapVaEnd / 4096) (h.missing c.size) c.frames h.table

variable {S : Services} {h h' : ProcessHeap} {t : Table} {frames : List Frame} {c : Call} {q k n : ℕ}
  {calls : List Call} {earlier : List (ℕ × ℕ)}

/-- The pages of the heap below page `q` are mapped. -/
def MappedBelow (S : Services) (table : Mmu.State) (q : ℕ) : Prop :=
  ∀ p, 2 ^ 35 ≤ p → p < q → ∃ pa, translate S.table table (pageAddr p) = some (pa, processRwMemory)

/-- Another page is mapped. -/
lemma MappedBelow.succ {s s' : Mmu.State} {f : Frame} (hm : MappedBelow S s q) (ht : S.Holds s t)
    (hkind : S.kind = .process) (hq : 2 ^ 35 ≤ q) (hq' : q ≤ 2 ^ 36)
    (hrun : mapRange (some S.table) (pageAddr q) (pageAddr q) f.address processRwMemory s =
      some (true, s')) : q < 2 ^ 36 ∧ (∃ t', S.Holds s' t') ∧ MappedBelow S s' (q + 1) := by
  have hq52 : q < 2 ^ 52 := hq'.trans_lt (by norm_num)
  obtain ⟨hlt, hholds, hself, hother⟩ :=
    mapRange_page ht hkind ((by norm_num : 0 < 2 ^ 35).trans_le hq) hq52 hrun
  refine ⟨hlt, hholds, fun p hp hpq => ?_⟩
  rcases Nat.lt_succ_iff_lt_or_eq.mp hpq with hpq | rfl
  · obtain ⟨pa, htr⟩ := hm p hp hpq
    exact attr_of_keepsTranslation (hother p (hpq.trans hlt) hpq.ne) htr
  · exact ⟨f.address, hself⟩

/-- The first loop maps the missing pages when that is possible. -/
lemma increase_of_canMap (hkind : S.kind = .process) (ht : S.Holds h.table t)
    (hm : MappedBelow S h.table q) (hva : h.manager.heapVaEnd = q * 4096) (hq : 2 ^ 35 ≤ q)
    (hq' : q ≤ 2 ^ 36) (hk : (h.manager.getHeapEnd + 4095) / 4096 - q = k)
    (hcan : CanMap S processRwMemory q k frames h.table) :
    ∃ h' t', h.increase S.table frames = some (true, h') ∧ S.Holds h'.table t' ∧
      h'.manager = { h.manager with heapVaEnd := (q + k) * 4096 } ∧ q + k ≤ 2 ^ 36 ∧
      MappedBelow S h'.table (q + k) := by
  induction k generalizing h t q frames with
  | zero =>
    have hle : ¬ h.manager.heapVaEnd < h.manager.getHeapEnd := by
      rw [hva]
      omega
    refine ⟨h, t, ?_, ht, by rw [Nat.add_zero, ← hva], hq', hm⟩
    cases frames with
    | nil => simp [increase, hle]
    | cons f frames => simp [increase, hle]
  | succ k ih =>
    cases frames with
    | nil => exact absurd hcan id
    | cons f frames =>
      obtain ⟨s', hrun, hcan⟩ := hcan
      obtain ⟨hlt, ⟨t', ht'⟩, hm'⟩ := hm.succ ht hkind hq hq' hrun
      have hless : h.manager.heapVaEnd < h.manager.getHeapEnd := by
        rw [hva]
        omega
      have hk' : (h.manager.getHeapEnd + 4095) / 4096 - (q + 1) = k := by omega
      have hnext : wadd h.manager.heapVaEnd pageSize = (q + 1) * 4096 := by
        rw [hva, pageSize, wadd_of_lt (by omega)]
        ring
      obtain ⟨h', t'', hrun', hholds, hman, hbound, hmapped⟩ :=
        ih (h := ⟨{ h.manager with heapVaEnd := (q + 1) * 4096 }, f.address :: h.allocatedPa, s'⟩)
          ht' hm' rfl (by omega) hlt hk' hcan
      have hassoc : q + 1 + k = q + (k + 1) := by ring
      rw [hassoc] at hman hbound hmapped
      refine ⟨h', t'', ?_, hholds, hman, hbound, hmapped⟩
      rw [increase, if_pos hless, hnext, hva]
      change (mapRange (some S.table) (pageAddr q) (pageAddr q) f.address processRwMemory
        h.table).bind _ = _
      rw [hrun]
      exact hrun'

/-- The invariant: all pages up to the end of the heap are mapped, and no page beyond. -/
structure Sound (S : Services) (h : ProcessHeap) : Prop where
  holds : ∃ t, S.Holds h.table t
  start : h.manager.heapStart = processHeapBase
  bytes : processHeapBase + h.manager.heapByteSize < 2 ^ 64
  pages : ∃ q, h.manager.heapVaEnd = q * 4096 ∧ 2 ^ 35 ≤ q ∧ q ≤ 2 ^ 36 ∧ MappedBelow S h.table q ∧
    h.manager.getHeapEnd ≤ q * 4096 ∧ q * 4096 < h.manager.getHeapEnd + 4096

lemma sound_init {table : Mmu.State} (ht : S.Holds table t) : Sound S (init table) := by
  have hend : (HeapManager.init processHeapBase).getHeapEnd = 2 ^ 35 * 4096 := by decide
  refine ⟨⟨t, ht⟩, rfl, ?_, 2 ^ 35, rfl, le_rfl, by norm_num, ?_, hend.le, ?_⟩
  · show processHeapBase + 0 < 2 ^ 64
    decide
  · intro p hp hlt
    exact absurd hp hlt.not_ge
  · exact hend.ge.trans_lt (Nat.lt_add_of_pos_right (by norm_num))

lemma Sound.getHeapEnd_eq (hs : Sound S h) :
    h.manager.getHeapEnd = processHeapBase + h.manager.heapByteSize := by
  rw [HeapManager.getHeapEnd, hs.start, wadd_of_lt hs.bytes]

/-- The second loop leaves a heap alone whose last page is in use. -/
lemma decrease_of_lt {allocated : List PhysicalPA} {hm : HeapManager} {table : Mmu.State}
    (hlt : wsub hm.heapVaEnd pageSize < hm.getHeapEnd) :
    decrease S.table allocated hm table = some (true, ⟨hm, allocated, table⟩) := by
  have hnot : ¬ wsub hm.heapVaEnd pageSize ≥ hm.getHeapEnd := not_le.mpr hlt
  cases allocated with
  | nil => rw [decrease, if_neg hnot]
  | cons pa allocated =>
    rw [decrease, if_neg hnot]
    rfl

/-- How far the heap is mapped does not matter for its end. -/
lemma getHeapEnd_of_vaEnd (hm : HeapManager) (va : ℕ) :
    ({ hm with heapVaEnd := va } : HeapManager).getHeapEnd = hm.getHeapEnd := rfl

/-- The end of the heap once its size has changed. -/
lemma Sound.getHeapEnd_add (hs : Sound S h) (hn : h.manager.getHeapEnd + n < 2 ^ 64) :
    ({ h.manager with heapByteSize := wadd h.manager.heapByteSize n } : HeapManager).getHeapEnd =
      h.manager.getHeapEnd + n := by
  have hend := hs.getHeapEnd_eq
  rw [hend] at hn ⊢
  rw [HeapManager.getHeapEnd, hs.start]
  show wadd processHeapBase (wadd h.manager.heapByteSize n) = _
  rw [wadd_of_lt (a := h.manager.heapByteSize) (by omega), wadd_of_lt (by omega), Nat.add_assoc]

private lemma end_of_pages {e : ℕ} (hq' : q + k ≤ 2 ^ 36) (hle : e ≤ q * 4096)
    (hlt : q * 4096 < e + 4096) (hk : (e + n + 4095) / 4096 - q = k) :
    e + n ≤ (q + k) * 4096 ∧ (q + k) * 4096 < e + n + 4096 ∧ (q + k) * 4096 < 2 ^ 64 := by
  omega

/-- When the kernel can grow the heap, `malloc` returns its end and moves it. -/
lemma Sound.malloc (hs : Sound S h) (hkind : S.kind = .process) (hc : h.CanGrow S c) :
    ∃ h', h.malloc S.table c.size c.frames = some (h.manager.getHeapEnd, h') ∧ Sound S h' ∧
      h'.manager.getHeapEnd = h.manager.getHeapEnd + c.size := by
  obtain ⟨hlt, hcan⟩ := hc
  obtain ⟨⟨t, ht⟩, hstart, hbytes, q, hva, hq, hq', hm, hle, hend⟩ := hs
  have hadd := Sound.getHeapEnd_add ⟨⟨t, ht⟩, hstart, hbytes, q, hva, hq, hq', hm, hle, hend⟩ hlt
  have hend_eq : h.manager.getHeapEnd = processHeapBase + h.manager.heapByteSize := by
    rw [HeapManager.getHeapEnd, hstart, wadd_of_lt hbytes]
  rw [missing, hva, Nat.mul_div_cancel _ (by norm_num)] at hcan
  obtain ⟨h', t', hrun, ht', hman, hbound, hm'⟩ := increase_of_canMap
    (h := { h with
      manager := { h.manager with heapByteSize := wadd h.manager.heapByteSize c.size } })
    hkind ht hm hva hq hq' (by rw [hadd]) hcan
  generalize hk : (h.manager.getHeapEnd + c.size + 4095) / 4096 - q = k at *
  obtain ⟨hle', hlast', hfits⟩ := end_of_pages hbound hle hend hk
  have hend' : h'.manager.getHeapEnd = h.manager.getHeapEnd + c.size := by
    rw [← hadd, hman, getHeapEnd_of_vaEnd]
  have hva' : h'.manager.heapVaEnd = (q + k) * 4096 := by rw [hman]
  have hbytes' : h'.manager.heapByteSize = h.manager.heapByteSize + c.size := by
    rw [hend_eq, Nat.add_assoc] at hlt
    rw [hman, ← wadd_of_lt ((Nat.le_add_left _ _).trans_lt hlt)]
  have hlast : wsub h'.manager.heapVaEnd pageSize < h'.manager.getHeapEnd := by
    have hpos : 4096 ≤ (q + k) * 4096 :=
      Nat.le_mul_of_pos_left _ ((Nat.le_add_right q k).trans_lt' (hq.trans_lt' (by norm_num)))
    rw [hva', hend', pageSize, wsub_of_le hpos hfits]
    exact Nat.sub_lt_right_of_lt_add hpos hlast'
  refine ⟨h', ?_, ⟨⟨t', ht'⟩, ?_, ?_, q + k, hva', hq.trans (Nat.le_add_right _ _), hbound, hm',
    hend'.le.trans hle', hend' ▸ hlast'⟩, hend'⟩
  · rw [ProcessHeap.malloc, sysSbrk, changeHeapEnd]
    simp only [hrun, decrease_of_lt hlast, Option.bind_eq_bind, Option.bind_some, if_true]
    rfl
  · rw [hman, ← hstart]
  · rw [hbytes', ← Nat.add_assoc, ← hend_eq]
    exact hlt

/-! ### Sequences of calls -/

end ProcessHeap

end PiKachulm.Memory

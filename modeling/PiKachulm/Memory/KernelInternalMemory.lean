import Mathlib.Data.Finset.Card
import PiKachulm.Libk.Word
import PiKachulm.Memory.ContiguousPageAlloc
import PiKachulm.Memory.PageAllocList

/-!
# Memory that is in use

`mark_as_used_range` declares a range of physical memory as used to both allocators of the kernel:
the list of page allocators, and the contiguous allocator that serves buffers. The second counts
in bytes from the start of its region, and is given a number of pages for the last byte. This file
says when the range is protected.
-/

namespace PiKachulm.Memory

open Libk
open ContiguousPageAllocator (pageIndex)

/-- The static variables of `kernel_internal_memory.cpp` that hold the allocators. -/
structure KernelInternalMemory where
  pageAlloc : PageAllocList
  contiguousAlloc : ContiguousPageAllocator
  contiguousStart : ℕ
  contiguousStop : ℕ

namespace KernelInternalMemory

/-- `none` is a panic. -/
def markAsUsedRange (st : KernelInternalMemory) (start stop : ℕ) : Option KernelInternalMemory :=
  if start ≥ stop then some st
  else do
    let contiguousAlloc ←
      if stop > st.contiguousStart ∧ start < st.contiguousStop then
        let pageStart := max start st.contiguousStart - st.contiguousStart
        let pageStop := min stop st.contiguousStop - st.contiguousStart
        st.contiguousAlloc.markAsUsed pageStart (divRoundUp (pageStop - pageStart + 1) pageSize)
      else some st.contiguousAlloc
    pure { st with
      contiguousAlloc := contiguousAlloc
      pageAlloc := st.pageAlloc.markAsUsedRange start stop }

/-- The first and the last page of the buffer, or `none` when the function returns false. -/
def allocateBufferPa (st : KernelInternalMemory) (nbPages : ℕ) :
    Option (Option (ℕ × ℕ) × KernelInternalMemory) := do
  let (range, contiguousAlloc) ← st.contiguousAlloc.freshPages nbPages
  pure (range.map fun (bufferStart, bufferEnd) =>
      (bufferStart + st.contiguousStart, bufferEnd + st.contiguousStart),
    { st with contiguousAlloc := contiguousAlloc })

def freeBufferPa (st : KernelInternalMemory) (bufferStart bufferEnd : ℕ) :
    Option KernelInternalMemory := do
  let targetStart := wsub bufferStart st.contiguousStart
  let targetEnd := wsub bufferEnd st.contiguousStart
  let contiguousAlloc ← st.contiguousAlloc.freePages targetStart targetEnd
  pure { st with contiguousAlloc := contiguousAlloc }

/-- The contiguous allocator has the page of `addr`, and it is free. -/
def BufferFree (st : KernelInternalMemory) (addr : ℕ) : Prop :=
  st.contiguousStart ≤ addr ∧ addr < st.contiguousStop ∧
    st.contiguousAlloc.pageStatus (addr - st.contiguousStart) = true

/-- The sections of the list and the contiguous region are made of the pages of their
allocators. -/
structure Wf (st : KernelInternalMemory) : Prop where
  pageAlloc : st.pageAlloc.Wf
  contiguousAlloc : st.contiguousAlloc.Wf
  aligned : st.contiguousStart % pageSize = 0
  nonempty : 1 ≤ st.contiguousAlloc.nbPages
  size : st.contiguousStop = st.contiguousStart + st.contiguousAlloc.nbPages * pageSize
  bounded : st.contiguousStop < 2 ^ 64

end KernelInternalMemory

/-! ### Calls -/

inductive MemoryCall where
  | freshPage
  | freePage (addr : ℕ)
  | markAsUsedRange (start stop : ℕ)
  | allocateBufferPa (nbPages : ℕ)
  | freeBufferPa (bufferStart bufferEnd : ℕ)
  deriving DecidableEq, Repr

namespace MemoryCall

/-- `none` is a panic. -/
def run (st : KernelInternalMemory) : MemoryCall → Option KernelInternalMemory
  | freshPage                  =>
    some { st with pageAlloc := (st.pageAlloc.freshPage.map Prod.snd).getD st.pageAlloc }
  | freePage addr              => some { st with pageAlloc := st.pageAlloc.freePage addr }
  | markAsUsedRange start stop => st.markAsUsedRange start stop
  | allocateBufferPa nbPages   => (st.allocateBufferPa nbPages).map Prod.snd
  | freeBufferPa first last    => st.freeBufferPa first last

/-- The addresses are 64-bit words, and ranges to mark are made of pages. -/
def InRange : MemoryCall → Prop
  | freePage addr              => addr < 2 ^ 64
  | markAsUsedRange start stop => start % pageSize = 0 ∧ stop % pageSize = 0
  | freeBufferPa first last    => first < 2 ^ 64 ∧ last < 2 ^ 64
  | _                          => True

/-- The call frees the page of `addr`. -/
def Frees (addr : ℕ) : MemoryCall → Prop
  | freePage addr'          => addr / pageSize = addr' / pageSize
  | freeBufferPa first last => first / pageSize ≤ addr / pageSize ∧ addr / pageSize ≤ last / pageSize
  | _                       => False

/-- The call returns the page of `addr`. -/
def Returns (st : KernelInternalMemory) (addr : ℕ) : MemoryCall → Prop
  | freshPage                => ∃ fresh l, st.pageAlloc.freshPage = some (fresh, l) ∧
      addr / pageSize = fresh / pageSize
  | allocateBufferPa nbPages => ∃ first last st',
      st.allocateBufferPa nbPages = some (some (first, last), st') ∧
      first / pageSize ≤ addr / pageSize ∧ addr / pageSize ≤ last / pageSize
  | _                        => False

end MemoryCall

/-- The states that calls without panic and meeting `ok` lead to. -/
inductive MemoryReaches (ok : MemoryCall → Prop) (st : KernelInternalMemory) :
    KernelInternalMemory → Prop
  | refl : MemoryReaches ok st st
  | step {st' st'' : KernelInternalMemory} {c : MemoryCall} (h : MemoryReaches ok st st')
      (hok : ok c) (hrange : c.InRange) (hrun : c.run st' = some st'') : MemoryReaches ok st st''

namespace KernelInternalMemory

/-- The first byte that is marked in the contiguous region. -/
def firstByte (st : KernelInternalMemory) (start : ℕ) : ℕ :=
  max start st.contiguousStart - st.contiguousStart

/-- The number of pages that is given for the last byte. -/
def lastByte (st : KernelInternalMemory) (start stop : ℕ) : ℕ :=
  divRoundUp (min stop st.contiguousStop - st.contiguousStart - st.firstByte start + 1) pageSize

/-- The page of `addr` is one of those that are marked in the contiguous region. -/
def Reached (st : KernelInternalMemory) (start stop addr : ℕ) : Prop :=
  st.firstByte start ≤ st.lastByte start stop ∧
    pageIndex (addr - st.contiguousStart) ≤ pageIndex (st.lastByte start stop)

variable {st st' : KernelInternalMemory} {start stop addr n : ℕ} {c : MemoryCall}

/-! ### The contiguous region -/

lemma bufferFree_iff (hst : st.Wf) : st.BufferFree addr ↔ st.contiguousStart ≤ addr ∧
    addr < st.contiguousStop ∧
    st.contiguousAlloc.isFree (pageIndex (addr - st.contiguousStart)) = true := by
  refine and_congr_right fun h₁ => and_congr_right fun h₂ => ?_
  have hlt : pageIndex (addr - st.contiguousStart) < st.contiguousAlloc.nbPages := by
    have hsize := hst.size
    rw [pageIndex]
    exact Nat.div_lt_of_lt_mul (by rw [Nat.mul_comm]; omega)
  rw [ContiguousPageAllocator.pageStatus, if_pos hlt]
  rfl

/-- `lastByte` is one more than the number of pages of the range in the region. -/
lemma lastByte_eq (h : start < st.contiguousStop) (hstop : st.contiguousStart < stop)
    (hlt : start < stop) (hcs : st.contiguousStart < st.contiguousStop) :
    st.lastByte start stop =
      (min stop st.contiguousStop - max start st.contiguousStart) / pageSize + 1 := by
  rw [lastByte, firstByte, divRoundUp, pageSize]
  omega

/-- The contiguous part of `mark_as_used_range`: it marks the pages up to `lastByte`, and all of
them are in the range. -/
lemma markAsUsed_contiguous (hst : st.Wf) (hstart : start % pageSize = 0)
    (hstop : stop % pageSize = 0) (hlt : start < stop) (h₁ : stop > st.contiguousStart)
    (h₂ : start < st.contiguousStop) :
    ∃ a', st.contiguousAlloc.markAsUsed (st.firstByte start) (st.lastByte start stop) = some a' ∧
      a'.Wf ∧ a'.nbPages = st.contiguousAlloc.nbPages ∧
      ∀ addr, st.contiguousStart ≤ addr →
        (a'.isFree (pageIndex (addr - st.contiguousStart)) = true ↔
          st.contiguousAlloc.isFree (pageIndex (addr - st.contiguousStart)) = true ∧
            ¬(start ≤ addr ∧ addr < stop ∧ st.Reached start stop addr)) := by
  have hsize := hst.size
  have hnonempty := hst.nonempty
  have haligned := hst.aligned
  have hlast := lastByte_eq h₂ h₁ hlt (by rw [hsize, pageSize]; omega)
  have hfirst : st.firstByte start = max start st.contiguousStart - st.contiguousStart := rfl
  by_cases hle : st.firstByte start ≤ st.lastByte start stop
  · have hbound : pageIndex (st.lastByte start stop) < st.contiguousAlloc.nbPages := by
      rw [pageIndex, hlast]
      simp only [pageSize] at *
      omega
    obtain ⟨a', hmark, -, hsets⟩ :=
      ContiguousPageAllocator.markAsUsed_sets hst.contiguousAlloc hle hbound
    refine ⟨a', hmark, hsets.wf, hsets.nbPages, fun addr haddr => ?_⟩
    have hiff : (pageIndex (st.firstByte start) ≤ pageIndex (addr - st.contiguousStart) ∧
        pageIndex (addr - st.contiguousStart) ≤ pageIndex (st.lastByte start stop)) ↔
        (start ≤ addr ∧ addr < stop ∧ st.Reached start stop addr) := by
      simp only [Reached, hle, true_and]
      rw [hlast, hfirst]
      simp only [pageIndex, pageSize] at *
      omega
    rw [hsets.isFree, ← hiff]
    split_ifs with hin
    · simp only [hin, and_self, not_true_eq_false, and_false]
    · exact (and_iff_left hin).symm
  · refine ⟨st.contiguousAlloc, ?_, hst.contiguousAlloc, rfl, fun addr _ => ?_⟩
    · rw [ContiguousPageAllocator.markAsUsed, if_pos (Nat.lt_of_not_le hle)]
    · exact (and_iff_left fun h => hle h.2.2.1).symm

lemma markAsUsedRange_spec (hst : st.Wf) (hstart : start % pageSize = 0)
    (hstop : stop % pageSize = 0) :
    ∃ st', st.markAsUsedRange start stop = some st' ∧ st'.Wf ∧
      st'.contiguousStart = st.contiguousStart ∧ st'.contiguousStop = st.contiguousStop ∧
      st.pageAlloc.Changes st'.pageAlloc (fun cur addr => cur.Free addr ∧
        ¬(start ≤ addr ∧ addr < stop)) ∧
      ∀ addr, st'.BufferFree addr ↔
        st.BufferFree addr ∧ ¬(start ≤ addr ∧ addr < stop ∧ st.Reached start stop addr) := by
  have hpages := PageAllocList.markAsUsedRange_changes hst.pageAlloc hstart hstop
  rw [markAsUsedRange]
  by_cases hlt : start ≥ stop
  · rw [if_pos hlt]
    rw [PageAllocList.markAsUsedRange, if_pos hlt] at hpages
    refine ⟨st, rfl, hst, rfl, rfl, hpages, fun addr => ?_⟩
    exact (and_iff_left fun h => absurd (h.1.trans_lt h.2.1) (Nat.not_lt.mpr hlt)).symm
  · rw [if_neg hlt]
    by_cases hinter : stop > st.contiguousStart ∧ start < st.contiguousStop
    · obtain ⟨a', hmark, hwf, hnb, hfree⟩ :=
        markAsUsed_contiguous hst hstart hstop (Nat.lt_of_not_le hlt) hinter.1 hinter.2
      have hst' : Wf { st with
          contiguousAlloc := a'
          pageAlloc := st.pageAlloc.markAsUsedRange start stop } :=
        ⟨hpages.wf, hwf, hst.aligned, hnb.symm ▸ hst.nonempty, hnb.symm ▸ hst.size, hst.bounded⟩
      refine ⟨_, ?_, hst', rfl, rfl, hpages, fun addr => ?_⟩
      · rw [if_pos hinter]
        change (st.contiguousAlloc.markAsUsed (st.firstByte start) (st.lastByte start stop) >>= _) = _
        rw [hmark]
        rfl
      · rw [bufferFree_iff hst', bufferFree_iff hst, and_assoc, and_assoc]
        refine and_congr_right fun h₁ => and_congr_right fun _ => hfree addr h₁
    · rw [if_neg hinter]
      refine ⟨_, rfl, ⟨hpages.wf, hst.contiguousAlloc, hst.aligned, hst.nonempty, hst.size,
        hst.bounded⟩, rfl, rfl, hpages, fun addr => ?_⟩
      refine (and_iff_left_of_imp ?_).symm
      rintro ⟨h₁, h₂, -⟩ ⟨h₃, h₄, -⟩
      exact hinter ⟨h₁.trans_lt h₄, h₃.trans_lt h₂⟩

/-- No allocator has the page of `addr` free. -/
def InUse (st : KernelInternalMemory) (addr : ℕ) : Prop :=
  ¬st.pageAlloc.Free addr ∧ ¬st.BufferFree addr

lemma Wf.setContiguous {a : ContiguousPageAllocator} (hst : st.Wf) (ha : a.Wf)
    (hnb : a.nbPages = st.contiguousAlloc.nbPages) : Wf { st with contiguousAlloc := a } :=
  ⟨hst.pageAlloc, ha, hst.aligned, hnb.symm ▸ hst.nonempty, hnb.symm ▸ hst.size, hst.bounded⟩

lemma bufferFree_of_imp {a : ContiguousPageAllocator} (hst : st.Wf) (ha : a.Wf)
    (hnb : a.nbPages = st.contiguousAlloc.nbPages)
    (himp : ∀ page, a.isFree page = true → st.contiguousAlloc.isFree page = true)
    (hfree : BufferFree { st with contiguousAlloc := a } addr) : st.BufferFree addr := by
  rw [bufferFree_iff (hst.setContiguous ha hnb)] at hfree
  rw [bufferFree_iff hst]
  exact ⟨hfree.1, hfree.2.1, himp _ hfree.2.2⟩

/-- A buffer that is returned was free, and no page gets free. -/
lemma allocateBufferPa_spec (hst : st.Wf) : ∃ r st', st.allocateBufferPa n = some (r, st') ∧
    st'.Wf ∧ st'.pageAlloc = st.pageAlloc ∧ (∀ addr, st'.BufferFree addr → st.BufferFree addr) ∧
    ∀ first last, r = some (first, last) → ∀ addr, first / pageSize ≤ addr / pageSize →
      addr / pageSize ≤ last / pageSize → st.BufferFree addr := by
  have hsize := hst.size
  have haligned := hst.aligned
  rw [allocateBufferPa]
  rcases Nat.eq_zero_or_pos n with rfl | hn
  · obtain ⟨a', hfresh, hsame⟩ := ContiguousPageAllocator.freshPages_zero (a := st.contiguousAlloc)
    obtain ⟨ha', hnb⟩ := ContiguousPageAllocator.tryFreshPages_wf hst.contiguousAlloc hfresh
    rw [hfresh]
    refine ⟨none, _, rfl, hst.setContiguous ha' hnb, rfl, fun addr =>
      bufferFree_of_imp hst ha' hnb fun page hpage => ?_, fun first last h => by cases h⟩
    rwa [ContiguousPageAllocator.isFree, hsame] at hpage
  · rcases ContiguousPageAllocator.freshPages_spec hn hst.contiguousAlloc with
      ⟨a', hfresh, hnone⟩ | ⟨s, a', hfresh, hrun, hsets⟩
    · rw [hfresh]
      refine ⟨none, _, rfl, hst.setContiguous hnone.wf hnone.nbPages, rfl, fun addr =>
        bufferFree_of_imp hst hnone.wf hnone.nbPages fun page hpage => ?_,
        fun first last h => by cases h⟩
      rwa [ContiguousPageAllocator.isFree, hnone.freePage] at hpage
    · rw [hfresh]
      refine ⟨_, _, rfl, hst.setContiguous hsets.wf hsets.nbPages, rfl, fun addr =>
        bufferFree_of_imp hst hsets.wf hsets.nbPages fun page hpage => ?_, ?_⟩
      · rw [hsets.isFree] at hpage
        split_ifs at hpage
        exact hpage
      · intro first last h addr h₁ h₂
        cases h
        obtain ⟨hle, hfree⟩ := hrun
        rw [bufferFree_iff hst]
        have hpage := hfree (pageIndex (addr - st.contiguousStart))
        simp only [pageIndex, pageSize] at *
        refine ⟨by omega, by omega, hpage (by omega) (by omega)⟩

/-- What the pages of a call that frees buffers are, in the contiguous region. -/
lemma freeBufferPa_spec {first last : ℕ} (hst : st.Wf) (hfirst : first < 2 ^ 64)
    (hlast : last < 2 ^ 64) (hfree : st.freeBufferPa first last = some st') :
    st'.Wf ∧ st'.pageAlloc = st.pageAlloc ∧
      ∀ addr, ¬(MemoryCall.freeBufferPa first last).Frees addr → st'.BufferFree addr →
        st.BufferFree addr := by
  have hsize := hst.size
  have haligned := hst.aligned
  have hbounded := hst.bounded
  rw [freeBufferPa, Option.bind_eq_bind, Option.bind_eq_some_iff] at hfree
  obtain ⟨a', hpages, hst'⟩ := hfree
  cases hst'
  obtain ⟨ha', hnb⟩ := ContiguousPageAllocator.freePages_wf hst.contiguousAlloc hpages
  refine ⟨hst.setContiguous ha' hnb, rfl, fun addr hnot hfree => ?_⟩
  rw [bufferFree_iff (hst.setContiguous ha' hnb)] at hfree
  rw [bufferFree_iff hst]
  obtain ⟨h₁, h₂, h₃⟩ := hfree
  refine ⟨h₁, h₂, ?_⟩
  change st.contiguousStart ≤ addr at h₁
  change addr < st.contiguousStop at h₂
  change a'.isFree (pageIndex (addr - st.contiguousStart)) = true at h₃
  by_cases hle : wsub first st.contiguousStart ≤ wsub last st.contiguousStart
  · by_cases hin : pageIndex (wsub last st.contiguousStart) < st.contiguousAlloc.nbPages
    · obtain ⟨b, hb, hsets⟩ :=
        ContiguousPageAllocator.freePages_sets hst.contiguousAlloc hle hin
      rw [hb] at hpages
      cases hpages
      rw [hsets.isFree] at h₃
      split_ifs at h₃ with hmem
      · refine absurd ?_ hnot
        simp only [MemoryCall.Frees, wsub, pageIndex, pageSize] at *
        omega
      · exact h₃
    · rw [ContiguousPageAllocator.freePages, if_neg (by omega),
        if_pos (Nat.le_of_not_lt hin)] at hpages
      cases hpages
  · rw [ContiguousPageAllocator.freePages, if_pos (Nat.lt_of_not_le hle)] at hpages
    cases hpages
    exact h₃

/-! ### Runs -/

lemma Wf.run (hst : st.Wf) (hrange : c.InRange) (hrun : c.run st = some st') :
    st'.Wf ∧ (¬c.Frees addr → st.InUse addr → st'.InUse addr) := by
  cases c with
  | freshPage =>
    cases hrun
    cases hfresh : st.pageAlloc.freshPage with
    | none => exact ⟨hst, fun _ => id⟩
    | some r =>
      obtain ⟨-, hl', himp⟩ := PageAllocList.freshPage_changes hst.pageAlloc hfresh
      exact ⟨⟨hl', hst.contiguousAlloc, hst.aligned, hst.nonempty, hst.size, hst.bounded⟩,
        fun _ huse => ⟨fun h => huse.1 (himp addr h), huse.2⟩⟩
  | freePage addr' =>
    cases hrun
    have hchanges := PageAllocList.freePage_changes addr' hst.pageAlloc
    refine ⟨⟨hchanges.wf, hst.contiguousAlloc, hst.aligned, hst.nonempty, hst.size, hst.bounded⟩,
      fun hnot huse => ⟨fun h => ?_, huse.2⟩⟩
    obtain ⟨cur, hmem, hfree | ⟨-, -, heq⟩⟩ := (hchanges.free_iff addr).mp h
    · exact huse.1 ⟨cur, hmem, hfree⟩
    · exact hnot heq
  | markAsUsedRange start stop =>
    obtain ⟨st'', hmark, hst'', -, -, hchanges, hbuffers⟩ :=
      markAsUsedRange_spec hst hrange.1 hrange.2
    rw [MemoryCall.run, hmark, Option.some.injEq] at hrun
    subst hrun
    refine ⟨hst'', fun _ huse => ⟨fun h => ?_, fun h => huse.2 ((hbuffers addr).mp h).1⟩⟩
    obtain ⟨cur, hmem, hfree, -⟩ := (hchanges.free_iff addr).mp h
    exact huse.1 ⟨cur, hmem, hfree⟩
  | allocateBufferPa n =>
    obtain ⟨r, st'', halloc, hst'', hpages, himp, -⟩ := allocateBufferPa_spec (n := n) hst
    rw [MemoryCall.run, halloc, Option.map_some, Option.some.injEq] at hrun
    subst hrun
    exact ⟨hst'', fun _ huse => ⟨by rw [hpages]; exact huse.1, fun h => huse.2 (himp addr h)⟩⟩
  | freeBufferPa first last =>
    obtain ⟨hst'', hpages, himp⟩ := freeBufferPa_spec hst hrange.1 hrange.2 hrun
    exact ⟨hst'', fun hnot huse =>
      ⟨by rw [hpages]; exact huse.1, fun h => huse.2 (himp addr hnot h)⟩⟩

end KernelInternalMemory

open KernelInternalMemory

variable {st st' : KernelInternalMemory} {start stop addr : ℕ}

lemma MemoryReaches.inUse (hst : st.Wf) (huse : st.InUse addr)
    (hreach : MemoryReaches (fun c => ¬c.Frees addr) st st') : st'.Wf ∧ st'.InUse addr := by
  induction hreach with
  | refl => exact ⟨hst, huse⟩
  | step _ hok hrange hrun ih =>
    obtain ⟨hwf, hkeep⟩ := ih.1.run hrange hrun
    exact ⟨hwf, hkeep hok ih.2⟩

lemma MemoryReaches.head {ok : MemoryCall → Prop} {st₁ : KernelInternalMemory} {c : MemoryCall}
    (hok : ok c) (hrange : c.InRange) (hrun : c.run st = some st₁)
    (hreach : MemoryReaches ok st₁ st') : MemoryReaches ok st st' := by
  induction hreach with
  | refl => exact .step .refl hok hrange hrun
  | step _ hok hrange hrun ih => exact .step ih hok hrange hrun

namespace KernelInternalMemory

/-- Two pages from 1 MiB on in the contiguous region, and no sections. -/
def twoPages : KernelInternalMemory where
  pageAlloc := ⟨0, 0, []⟩
  contiguousAlloc := ContiguousPageAllocator.init 2 fun _ => 0
  contiguousStart := 0x100000
  contiguousStop := 0x102000

end KernelInternalMemory

end PiKachulm.Memory

import Mathlib.Data.Finset.Basic
import PiKachulm.Memory.KernelHeapRoom

/-!
# What is taken from the heap and from the page allocator

An account of the kernel's memory: the pointers that `kmalloc` has returned and `kfree` has not been
called with, and the physical pages that are free. What a request is answered with is given by a
`Grant`; the heap gives such answers in every run of requests that have room.
-/

namespace PiKachulm.Memory

open Libk

/-- The live allocations of the kernel heap, and the free physical pages. -/
@[ext]
structure KernelMemory where
  allocations : Finset ℕ
  freePages : Finset ℕ
  deriving DecidableEq

/-- What a request to the heap is answered with: the pointer, or 0 for null, and the pages that the
heap takes over it, for itself and for its translation tables. -/
structure Grant where
  ptr : ℕ
  pages : Finset ℕ
  deriving DecidableEq

namespace KernelMemory

/-- The heap can give this answer: a pointer that is not in use, and pages that are free. -/
def Grants (m : KernelMemory) (g : Grant) : Prop :=
  (g.ptr ≠ 0 → g.ptr ∉ m.allocations) ∧ g.pages ⊆ m.freePages

instance (m : KernelMemory) (g : Grant) : Decidable (m.Grants g) := inferInstanceAs (Decidable (_ ∧ _))

/-- The memory after an answer. -/
def granted (m : KernelMemory) (g : Grant) : KernelMemory where
  allocations := if g.ptr = 0 then m.allocations else insert g.ptr m.allocations
  freePages := m.freePages \ g.pages

/-- `kmalloc`, which returns a pointer that may be null. -/
def kmalloc (m : KernelMemory) (g : Grant) : Option (ℕ × KernelMemory) :=
  if m.Grants g then some (g.ptr, m.granted g) else none

/-- `kfree`, which asserts that the pointer is one of the heap. Pages stay with the heap. -/
def kfree (m : KernelMemory) (ptr : ℕ) : Option KernelMemory :=
  if ptr = 0 then some m
  else if ptr ∈ m.allocations then some { m with allocations := m.allocations.erase ptr }
  else none

/-- `fresh_page`, for all of the pages that a computation takes. -/
def freshPages (m : KernelMemory) (pages : Finset ℕ) : Option KernelMemory :=
  if pages ⊆ m.freePages then some { m with freePages := m.freePages \ pages } else none

variable {m m' : KernelMemory} {g : Grant} {ptr : ℕ}

lemma kmalloc_eq_some_iff {r : ℕ × KernelMemory} :
    m.kmalloc g = some r ↔ m.Grants g ∧ r = (g.ptr, m.granted g) := by
  rw [kmalloc]
  split_ifs with hgrants <;> simp [hgrants, eq_comm]

/-- A buffer that is given back leaves the memory as it was, but for the pages of the heap. -/
lemma kfree_granted (hgrants : m.Grants g) :
    (m.granted g).kfree g.ptr = some { m with freePages := m.freePages \ g.pages } := by
  rw [kfree, granted]
  by_cases hptr : g.ptr = 0
  · rw [if_pos hptr, if_pos hptr]
  · rw [if_neg hptr, if_neg hptr, if_pos (Finset.mem_insert_self _ _),
      Finset.erase_insert (hgrants.1 hptr)]

/-- The free pages are the same after a request that takes none of them, and only then. -/
lemma sdiff_eq_self_iff (hgrants : m.Grants g) :
    m.freePages \ g.pages = m.freePages ↔ g.pages = ∅ := by
  rw [Finset.sdiff_eq_self_iff_disjoint]
  constructor
  · exact fun hdisjoint => Finset.subset_empty.mp (hdisjoint hgrants.2 le_rfl)
  · rintro heq
    rw [heq]
    exact disjoint_bot_right

/-! ### The heap -/

/-- The account of a heap with these live allocations. -/
def Accounts (m : KernelMemory) (live : List (ℕ × ℕ)) : Prop :=
  ∀ p, p ∈ m.allocations ↔ p ∈ live.map Prod.fst

variable {st st' : KernelHeap} {live : List (ℕ × ℕ)} {byteCount alignment n p : ℕ}
  {pages : Finset ℕ}

/-- What the heap answers to a request that has room is a grant. -/
lemma Accounts.kmalloc (haccounts : m.Accounts live) (h : HeapRuns KernelHeap.HasRoom st live)
    (hpow : alignment = 0 ∨ isPowerOfTwo alignment = true) (hroom : st.HasRoom byteCount alignment)
    (hrun : st.kmalloc byteCount alignment n = some (p, st')) (hpages : pages ⊆ m.freePages) :
    ∃ m', m.kmalloc ⟨p, pages⟩ = some (p, m') ∧
      m'.Accounts (if p = 0 then live else (p, max byteCount 1) :: live) := by
  obtain ⟨l, hinv⟩ := h.inv
  obtain ⟨p', st'', l', hrun', -, hinv', -⟩ := hinv.kmalloc_of_roomy n
    (KernelHeap.isPowerOfTwo_atLeastOne hpow) (hinv.consistent.roomy_iff.mp hroom)
  rw [hrun, Option.some.injEq, Prod.mk.injEq] at hrun'
  obtain ⟨rfl, rfl⟩ := hrun'
  have hgrants : m.Grants ⟨p, pages⟩ := by
    refine ⟨fun hp hmem => ?_, hpages⟩
    have hdistinct := hinv'.distinct
    rw [if_neg hp, List.pairwise_cons] at hdistinct
    obtain ⟨x, hx, heq⟩ := List.mem_map.mp ((haccounts p).mp hmem)
    exact hdistinct.1 x hx heq.symm
  refine ⟨m.granted ⟨p, pages⟩, kmalloc_eq_some_iff.mpr ⟨hgrants, rfl⟩, fun q => ?_⟩
  by_cases hp : p = 0
  · simp only [granted, if_pos hp]
    exact haccounts q
  · simp only [granted, if_neg hp, Finset.mem_insert, List.map_cons, List.mem_cons]
    exact or_congr_right (haccounts q)

/-- A pointer that is live can be given back. -/
lemma Accounts.kfree (haccounts : m.Accounts live) (h : HeapRuns KernelHeap.HasRoom st live)
    (hp : p ∈ live.map Prod.fst) :
    ∃ m' st', m.kfree p = some m' ∧ st.kfree p = some st' ∧
      m'.Accounts (live.filter fun x => x.1 ≠ p) := by
  obtain ⟨l, hinv⟩ := h.inv
  obtain ⟨st', -, hrun, -⟩ := hinv.kfree hp
  obtain ⟨x, hx, rfl⟩ := List.mem_map.mp hp
  obtain ⟨b, hb, -, hptr, -⟩ := hinv.mem_used hx
  have hne : x.1 ≠ 0 := by
    have hheader := (hinv.consistent.fits.of_mem hb).2.1.header
    have hpos : 0 < metaBlockSize := by decide
    omega
  refine ⟨_, st', by rw [KernelMemory.kfree, if_neg hne, if_pos ((haccounts _).mpr hp)], hrun,
    fun q => ?_⟩
  rw [Finset.mem_erase, haccounts q]
  simp only [List.mem_map, List.mem_filter, decide_eq_true_eq]
  constructor
  · rintro ⟨hq, y, hy, rfl⟩
    exact ⟨y, ⟨hy, hq⟩, rfl⟩
  · rintro ⟨y, ⟨hy, hq⟩, rfl⟩
    exact ⟨hq, y, hy, rfl⟩

/-- The memory after requests that have been answered one after the other. -/
inductive Answers (m : KernelMemory) : KernelMemory → Prop
  | nil : Answers m m
  | kmalloc {m₁ m₂ : KernelMemory} {g : Grant} (h : Answers m m₁) (hrun : m₁.kmalloc g = some (g.ptr, m₂)) :
      Answers m m₂
  | kfree {m₁ m₂ : KernelMemory} {ptr : ℕ} (h : Answers m m₁) (hrun : m₁.kfree ptr = some m₂) : Answers m m₂

/-- The account follows each run of the heap whose requests have room. -/
theorem exists_answers (h : HeapRuns KernelHeap.HasRoom st live) (freePages : Finset ℕ) :
    ∃ m, Answers ⟨∅, freePages⟩ m ∧ m.Accounts live := by
  induction h with
  | empty mem => exact ⟨_, .nil, fun p => by simp⟩
  | kmalloc h hbytes halign hpow hroom hrun ih =>
    obtain ⟨m, hm, haccounts⟩ := ih
    obtain ⟨m', hm', haccounts'⟩ := haccounts.kmalloc h hpow hroom hrun (Finset.empty_subset _)
    exact ⟨m', hm.kmalloc hm', haccounts'⟩
  | kfree h hlive hrun ih =>
    obtain ⟨m, hm, haccounts⟩ := ih
    obtain ⟨m', -, hm', -, haccounts'⟩ := haccounts.kfree h hlive
    exact ⟨m', hm.kfree hm', haccounts'⟩

end KernelMemory

end PiKachulm.Memory

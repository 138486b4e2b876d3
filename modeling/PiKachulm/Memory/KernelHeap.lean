import Mathlib.Data.List.Pairwise
import PiKachulm.Memory.MemAllocBlocks

/-!
# Runs of `kmalloc` and `kfree`

What holds of the kernel heap in every run that starts with an empty heap. The page supply is
arbitrary: each request is given a number of pages that the heap may still get. When a request
fails for lack of pages, the end of the heap has moved all the same; the headers tile the heap as
long as no block is appended after that.
-/

namespace PiKachulm.Memory

open Libk Core

/-- `HEAP_MEMORY`. -/
def heapMemory : ℕ := 0xFFFF500000000000

namespace KernelHeap

/-- The heap before the first request. -/
def empty (mem : ℕ → MetaBlock) : KernelHeap := ⟨.init heapMemory, 0, mem⟩

def metaListFrom (st : KernelHeap) : ℕ → ℕ → List ℕ
  | 0, _        => []
  | fuel + 1, b => if b = 0 then [] else b :: metaListFrom st fuel (st.mem b).next

/-- The headers of the list, in order. -/
def metaList (st : KernelHeap) : List ℕ := st.metaListFrom st.fuel st.head

/-- The alignment is a power of two or 0, and the sums that `kmalloc` forms do not wrap. -/
def Accepts (st : KernelHeap) (byteCount alignment : ℕ) : Prop :=
  (alignment = 0 ∨ isPowerOfTwo alignment = true) ∧
    st.getHeapEnd + metaBlockSize + atLeastOne alignment + atLeastOne byteCount ≤ 2 ^ 64

instance (st : KernelHeap) (byteCount alignment : ℕ) : Decidable (st.Accepts byteCount alignment) :=
  inferInstanceAs (Decidable (_ ∧ _))

end KernelHeap

open KernelHeap

/-- The heaps that requests meeting `ok` lead to, with the live allocations and their sizes. -/
inductive HeapReaches (ok : KernelHeap → ℕ → ℕ → ℕ → Prop) : KernelHeap → List (ℕ × ℕ) → Prop
  | empty (mem : ℕ → MetaBlock) : HeapReaches ok (.empty mem) []
  | kmalloc {st st' : KernelHeap} {live : List (ℕ × ℕ)} {byteCount alignment pages p : ℕ}
      (h : HeapReaches ok st live) (haccepts : st.Accepts byteCount alignment)
      (hok : ok st byteCount alignment pages)
      (hrun : st.kmalloc byteCount alignment pages = some (p, st')) :
      HeapReaches ok st' (if p = 0 then live else (p, max byteCount 1) :: live)
  | kfree {st st' : KernelHeap} {live : List (ℕ × ℕ)} {p : ℕ} (h : HeapReaches ok st live)
      (hlive : p ∈ live.map Prod.fst) (hrun : st.kfree p = some st') :
      HeapReaches ok st' (live.filter fun x => x.1 ≠ p)

/-- What the kernel heap guarantees: live allocations are in the heap and apart from each other and
from the headers, requests return aligned pointers, live pointers can be freed, and the headers tile
the heap. -/
structure HeapSpec (st : KernelHeap) (live : List (ℕ × ℕ)) : Prop where
  inside : ∀ x ∈ live, heapMemory ≤ x.1 ∧ x.1 + x.2 ≤ st.getHeapEnd
  apart : live.Pairwise fun x y => x.1 + x.2 ≤ y.1 ∨ y.1 + y.2 ≤ x.1
  headers : ∀ x ∈ live, ∀ a ∈ st.metaList, x.1 + x.2 ≤ a ∨ a + metaBlockSize ≤ x.1
  allocates : ∀ byteCount alignment pages, st.Accepts byteCount alignment →
    ∃ p st', st.kmalloc byteCount alignment pages = some (p, st') ∧ p % atLeastOne alignment = 0
  frees : ∀ x ∈ live, ∃ st', st.kfree x.1 = some st'
  tiles : st.metaList.IsChain fun a b => (st.mem a).ptr + (st.mem a).size = b
  links : ∀ a ∈ st.metaList,
    ((st.mem a).next ≠ 0 → (st.mem (st.mem a).next).previous = a) ∧
    ((st.mem a).previous ≠ 0 → (st.mem (st.mem a).previous).next = a)
  coalesced : st.metaList.IsChain fun a b => ¬((st.mem a).isFree = true ∧ (st.mem b).isFree = true)

namespace KernelHeap

variable {st st' : KernelHeap} {live : List (ℕ × ℕ)} {l pre post : List Block} {a b : Block}
  {byteCount alignment pages p c q : ℕ} {ok : KernelHeap → ℕ → ℕ → ℕ → Prop}

/-- The list of headers is that of the blocks `l`, and every live allocation is in a block of its own
that is in use. -/
structure Inv (st : KernelHeap) (live : List (ℕ × ℕ)) (l : List Block) : Prop where
  consistent : Consistent st l
  coalesced : Coalesced l
  start : st.manager.heapStart = heapMemory
  held : ∀ x ∈ live, ∃ b ∈ used l, b.ptr = x.1 ∧ x.2 ≤ b.size
  distinct : live.Pairwise fun x y => x.1 ≠ y.1

/-! ### Reading the headers -/

lemma Seg.metaListFrom_eq {fuel : ℕ} (hseg : Seg st.mem p c l q 0) (hfuel : l.length < fuel) :
    st.metaListFrom fuel c = l.map Block.addr := by
  induction l generalizing p c fuel with
  | nil =>
    obtain ⟨fuel, rfl⟩ := Nat.exists_eq_succ_of_ne_zero (Nat.ne_of_gt (Nat.zero_lt_of_lt hfuel))
    rw [metaListFrom, if_pos hseg.1]
    rfl
  | cons b l ih =>
    obtain ⟨fuel, rfl⟩ := Nat.exists_eq_succ_of_ne_zero (Nat.ne_of_gt (Nat.zero_lt_of_lt hfuel))
    obtain ⟨rfl, h0, n, hmem, hseg⟩ := hseg
    have hnext : (st.mem b.addr).next = n := by rw [hmem]; rfl
    rw [metaListFrom, if_neg h0, hnext, ih hseg (Nat.lt_of_succ_lt_succ hfuel), List.map_cons]

lemma Consistent.metaList_eq (hst : Consistent st l) : st.metaList = l.map Block.addr := by
  obtain ⟨q, hseg⟩ := hst.rep
  exact hseg.metaListFrom_eq hst.length_lt

lemma Consistent.mem_eq (hst : Consistent st l) (hb : b ∈ l) :
    ∃ p n, st.mem b.addr = header b p n := by
  obtain ⟨pre, post, rfl⟩ := List.append_of_mem hb
  obtain ⟨-, r, m, -, hmem, -⟩ := rep_split.mp hst.rep
  exact ⟨r, m, hmem⟩

lemma Consistent.mem_isFree (hst : Consistent st l) (hb : b ∈ l) :
    (st.mem b.addr).isFree = b.isFree := by
  obtain ⟨p, n, hmem⟩ := hst.mem_eq hb
  rw [hmem]
  rfl

lemma Consistent.mem_stop (hst : Consistent st l) (hb : b ∈ l) :
    (st.mem b.addr).ptr + (st.mem b.addr).size = b.stop := by
  obtain ⟨p, n, hmem⟩ := hst.mem_eq hb
  rw [hmem]
  rfl

/-- The links of a header lead to its neighbours, and theirs lead back. -/
lemma Consistent.links (hst : Consistent st l) (hb : b ∈ l) :
    ((st.mem b.addr).next ≠ 0 → (st.mem (st.mem b.addr).next).previous = b.addr) ∧
    ((st.mem b.addr).previous ≠ 0 → (st.mem (st.mem b.addr).previous).next = b.addr) := by
  obtain ⟨pre, post, rfl⟩ := List.append_of_mem hb
  obtain ⟨-, r, m, hpre, hmem, q, hpost⟩ := rep_split.mp hst.rep
  have hnext : (st.mem b.addr).next = m := by rw [hmem]; rfl
  have hprevious : (st.mem b.addr).previous = r := by rw [hmem]; rfl
  rw [hnext, hprevious]
  constructor
  · intro hm
    cases post with
    | nil => exact absurd hpost.1 hm
    | cons c post =>
      obtain ⟨rfl, -, n, hcmem, -⟩ := hpost
      rw [hcmem]
      rfl
  · intro hr
    rcases List.eq_nil_or_concat pre with rfl | ⟨pre, a, rfl⟩
    · exact absurd hpre.2.symm hr
    · rw [List.concat_eq_append] at hpre
      have heq := hpre.last_eq
      subst heq
      obtain ⟨r', m', -, -, -, n, hamem, rfl, -⟩ := seg_append.mp hpre
      rw [hamem]
      rfl

/-! ### The invariant -/

lemma Inv.mem_used (hinv : Inv st live l) {x : ℕ × ℕ} (hx : x ∈ live) :
    ∃ b ∈ l, b.isFree = false ∧ b.ptr = x.1 ∧ x.2 ≤ b.size := by
  obtain ⟨b, hb, hptr, hsize⟩ := hinv.held x hx
  obtain ⟨hbl, hfree⟩ := Core.mem_used.mp hb
  exact ⟨b, hbl, hfree, hptr, hsize⟩

lemma inv_empty {mem : ℕ → MetaBlock} : Inv (.empty mem) [] [] where
  consistent := by
    have hstart : heapMemory + 0 < 2 ^ 64 := by decide
    refine ⟨⟨0, rfl, rfl⟩, ?_, by change 0 < heapMemory; decide, hstart⟩
    rw [fits_nil]
    exact (wadd_of_lt hstart).ge
  coalesced := .nil
  start := rfl
  held := fun _ hx => absurd hx List.not_mem_nil
  distinct := .nil

lemma max_one_eq {n : ℕ} : max n 1 = atLeastOne n := by
  rw [atLeastOne]
  split_ifs <;> omega

lemma Accepts.isPowerOfTwo (haccepts : st.Accepts byteCount alignment) :
    isPowerOfTwo (atLeastOne alignment) = true := by
  rw [atLeastOne]
  split_ifs with h
  · decide
  · exact haccepts.1.resolve_left h

/-- A new allocation, in a block that no other allocation is in. -/
lemma Inv.cons {l' : List Block} (hinv : Inv st live l) (hst' : Consistent st' l')
    (hl' : Coalesced l') (hstart : st'.manager.heapStart = st.manager.heapStart) {n : ℕ}
    (hb : b ∈ used l') (hsize : n ≤ b.size)
    (hothers : ∀ d ∈ used l, d ∈ used l' ∧ d ≠ b) : Inv st' ((b.ptr, n) :: live) l' := by
  refine ⟨hst', hl', hstart.trans hinv.start, fun x hx => ?_, List.pairwise_cons.mpr ⟨?_,
    hinv.distinct⟩⟩
  · rcases List.mem_cons.mp hx with rfl | hx
    · exact ⟨b, hb, rfl, hsize⟩
    · obtain ⟨d, hd, hptr, hle⟩ := hinv.held x hx
      exact ⟨d, (hothers d hd).1, hptr, hle⟩
  · intro x hx
    obtain ⟨d, hd, hptr, -⟩ := hinv.held x hx
    obtain ⟨hd', hne⟩ := hothers d hd
    rw [← hptr]
    exact hst'.fits.ptr_ne (Core.mem_used.mp hb).1 (Core.mem_used.mp hd').1 hne.symm

/-- What a request with room does in a heap that satisfies the invariant. -/
lemma Inv.kmalloc_of_roomy (hinv : Inv st live l) (pages : ℕ)
    (hpow : isPowerOfTwo (atLeastOne alignment) = true)
    (hroom : st.Roomy l (atLeastOne byteCount) (atLeastOne alignment)) :
    ∃ p st' l', st.kmalloc byteCount alignment pages = some (p, st') ∧
      p % atLeastOne alignment = 0 ∧
      Inv st' (if p = 0 then live else (p, max byteCount 1) :: live) l' ∧
      (Tight l → ¬st.Misplaced byteCount alignment pages → Tight l') := by
  obtain ⟨p, st', hrun, hstart, h⟩ := hinv.consistent.kmalloc_spec pages hpow hroom
  have hpos : 0 < metaBlockSize := by decide
  rcases h with ⟨rfl, hst'⟩ | ⟨pre, b, post, rfl, hpost, hfree, hle, hstop, hmod, hst', hmanager⟩ |
    ⟨b, haddr, rfl, hsize, hfree, hmod, hst', htight⟩
  · refine ⟨0, st', l, hrun, Nat.zero_mod _, ?_, fun h _ => h⟩
    rw [if_pos rfl]
    exact ⟨hst', hinv.coalesced, hstart.trans hinv.start, hinv.held, hinv.distinct⟩
  · obtain ⟨-, hb, -⟩ := hinv.consistent.fits.of_mem (b := b) (by simp)
    have hn : 1 ≤ atLeastOne byteCount := Consistent.le_atLeastOne
    have hp : p ≠ 0 := by
      have hheader := hb.header
      omega
    have hused : used (pre ++ b.take p :: post) = used pre ++ b.take p :: used post := by
      rw [used_append, used_cons rfl]
    refine ⟨p, st', pre ++ b.take p :: post, hrun, hmod, ?_,
      fun h _ => h.replace rfl (Block.take_stop (by omega))⟩
    rw [if_neg hp, max_one_eq]
    refine hinv.cons (b := b.take p) hst' (hinv.coalesced.replace rfl) hstart ?_ ?_ ?_
    · rw [hused]
      simp
    · change _ ≤ b.stop - p
      omega
    · intro d hd
      rw [used_append, used_cons_of_free hfree] at hd
      rw [hused]
      refine ⟨?_, ?_⟩
      · rw [List.mem_append, List.mem_cons]
        exact (List.mem_append.mp hd).imp_right .inr
      · have hne := distinct_split hinv.consistent.distinct
        rintro rfl
        rcases List.mem_append.mp hd with hd | hd
        · exact hne.1 _ (Core.mem_used.mp hd).1 rfl
        · exact hne.2.1 _ (Core.mem_used.mp hd).1 rfl
  · obtain ⟨-, hb, -⟩ := hst'.fits.of_mem (b := b) (by simp)
    have hp : b.ptr ≠ 0 := by
      have hheader := hb.header
      omega
    have hused : used (l ++ [b]) = used l ++ [b] := by
      rw [used_append, used_cons hfree]
      rfl
    refine ⟨b.ptr, st', l ++ [b], hrun, hmod, ?_, fun h hplaced => ?_⟩
    · rw [if_neg hp, max_one_eq]
      refine hinv.cons hst' ?_ hstart ?_ hsize.ge fun d hd => ?_
      · rw [coalesced_concat]
        refine ⟨hinv.coalesced, fun _ _ h => ?_⟩
        rw [hfree] at h
        cases h.2
      · rw [hused]
        simp
      · rw [hused]
        refine ⟨List.mem_append_left _ hd, ?_⟩
        rintro rfl
        exact (distinct_split hst'.distinct).1 _ (Core.mem_used.mp hd).1 rfl
    · rw [tight_concat]
      exact ⟨h, htight hplaced⟩

lemma Inv.kmalloc (hinv : Inv st live l) (pages : ℕ) (haccepts : st.Accepts byteCount alignment) :
    ∃ p st' l', st.kmalloc byteCount alignment pages = some (p, st') ∧
      p % atLeastOne alignment = 0 ∧
      Inv st' (if p = 0 then live else (p, max byteCount 1) :: live) l' ∧
      (Tight l → ¬st.Misplaced byteCount alignment pages → Tight l') :=
  hinv.kmalloc_of_roomy pages haccepts.isPowerOfTwo
    (hinv.consistent.roomy haccepts.isPowerOfTwo haccepts.2)

/-- What freeing a live pointer does in a heap that satisfies the invariant. -/
lemma Inv.kfree (hinv : Inv st live l) (hp : p ∈ live.map Prod.fst) :
    ∃ st' l', st.kfree p = some st' ∧ Inv st' (live.filter fun x => x.1 ≠ p) l' ∧
      (Tight l → Tight l') ∧ st'.manager = st.manager ∧
      ∃ f ∈ l', f.isFree = true ∧ f.ptr ≤ p ∧
        ∀ n, (p, n) ∈ live → Tight l → p + n ≤ f.stop := by
  obtain ⟨x, hx, rfl⟩ := List.mem_map.mp hp
  obtain ⟨b, hb, hfree, hptr, -⟩ := hinv.mem_used hx
  obtain ⟨pre, post, rfl⟩ := List.append_of_mem hb
  obtain ⟨st', l', hrun, hmanager, -, hst', hl', hused, htight, f, hf, hffree, hfptr, hfstop⟩ :=
    hinv.consistent.kfree_spec hinv.coalesced
  rw [hptr] at hrun hfptr
  refine ⟨st', l', hrun, ⟨hst', hl', by rw [hmanager]; exact hinv.start, fun y hy => ?_,
    hinv.distinct.filter _⟩, htight, hmanager, f, hf, hffree, hfptr, fun n hn htight => ?_⟩
  swap
  · obtain ⟨d, hd, -, hdptr, hdsize⟩ := hinv.mem_used hn
    have hbd : d = b := by
      by_contra hne
      exact hinv.consistent.fits.ptr_ne hd hb hne (hdptr.trans hptr.symm)
    subst hbd
    refine le_trans ?_ (hfstop htight)
    rw [Block.stop, hptr]
    exact Nat.add_le_add_left hdsize _
  obtain ⟨hy, hne⟩ := List.mem_filter.mp hy
  obtain ⟨d, hd, hdptr, hsize⟩ := hinv.held y hy
  refine ⟨d, ?_, hdptr, hsize⟩
  rw [used_append, used_cons hfree, List.mem_append, List.mem_cons] at hd
  rw [hused, List.mem_append]
  refine hd.imp_right fun h => h.resolve_left ?_
  rintro rfl
  rw [decide_eq_true_iff] at hne
  exact hne (hdptr.symm.trans hptr)

end KernelHeap

/-- The invariant holds in every run, and there are no gaps between blocks when none is misplaced. -/
lemma HeapReaches.inv {ok : KernelHeap → ℕ → ℕ → ℕ → Prop} {st : KernelHeap}
    {live : List (ℕ × ℕ)} (h : HeapReaches ok st live) : ∃ l, Inv st live l ∧
      ((∀ st byteCount alignment pages, ok st byteCount alignment pages →
        ¬st.Misplaced byteCount alignment pages) → Tight l) := by
  induction h with
  | empty mem => exact ⟨[], inv_empty, fun _ => .nil⟩
  | @kmalloc st st' live byteCount alignment pages p _ haccepts hok hrun ih =>
    obtain ⟨l, hinv, htight⟩ := ih
    obtain ⟨p', st'', l', hrun', -, hinv', htight'⟩ := hinv.kmalloc pages haccepts
    rw [hrun, Option.some.injEq, Prod.mk.injEq] at hrun'
    obtain ⟨rfl, rfl⟩ := hrun'
    exact ⟨l', hinv', fun h => htight' (htight h) (h _ _ _ _ hok)⟩
  | kfree _ hlive hrun ih =>
    obtain ⟨l, hinv, htight⟩ := ih
    obtain ⟨st'', l', hrun', hinv', htight', -⟩ := hinv.kfree hlive
    rw [hrun, Option.some.injEq] at hrun'
    subst hrun'
    exact ⟨l', hinv', fun h => htight' (htight h)⟩

/-- Runs under a weaker condition. -/
lemma HeapReaches.mono {ok ok' : KernelHeap → ℕ → ℕ → ℕ → Prop} {st : KernelHeap} {live : List (ℕ × ℕ)}
    (h : HeapReaches ok st live)
    (hok : ∀ st byteCount alignment pages, ok st byteCount alignment pages → ok' st byteCount alignment pages) :
    HeapReaches ok' st live := by
  induction h with
  | empty mem => exact .empty mem
  | kmalloc _ haccepts hstep hrun ih => exact ih.kmalloc haccepts (hok _ _ _ _ hstep) hrun
  | kfree _ hlive hrun ih => exact ih.kfree hlive hrun

namespace KernelHeap

variable {st st' : KernelHeap} {live : List (ℕ × ℕ)} {l : List Block}

lemma Inv.spec (hinv : Inv st live l) (htight : Tight l) : HeapSpec st live where
  inside := by
    intro x hx
    obtain ⟨b, hb, -, hptr, hsize⟩ := hinv.mem_used hx
    obtain ⟨hstart, hbwf, hend⟩ := hinv.consistent.fits.of_mem hb
    have hheader := hbwf.header
    rw [Block.stop] at hend
    rw [← hinv.start, ← hptr]
    omega
  apart := by
    refine hinv.distinct.imp_of_mem fun {x y} hx hy hne => ?_
    obtain ⟨b, hb, -, hbptr, hbsize⟩ := hinv.mem_used hx
    obtain ⟨d, hd, -, hdptr, hdsize⟩ := hinv.mem_used hy
    have hbd : b ≠ d := by
      rintro rfl
      exact hne (hbptr.symm.trans hdptr)
    have hbheader := (hinv.consistent.fits.of_mem hb).2.1.header
    have hdheader := (hinv.consistent.fits.of_mem hd).2.1.header
    have hdisjoint := hinv.consistent.fits.disjoint hb hd hbd
    rw [Block.stop, Block.stop] at hdisjoint
    omega
  headers := by
    intro x hx a ha
    rw [hinv.consistent.metaList_eq, List.mem_map] at ha
    obtain ⟨d, hd, rfl⟩ := ha
    obtain ⟨b, hb, -, hptr, hsize⟩ := hinv.mem_used hx
    have hbheader := (hinv.consistent.fits.of_mem hb).2.1.header
    have hdheader := (hinv.consistent.fits.of_mem hd).2.1.header
    by_cases hbd : b = d
    · subst hbd
      exact .inr (hptr ▸ hbheader)
    · have hdisjoint := hinv.consistent.fits.disjoint hb hd hbd
      rw [Block.stop, Block.stop] at hdisjoint
      omega
  allocates := by
    intro byteCount alignment pages haccepts
    obtain ⟨p, st', l', hrun, hmod, -⟩ := hinv.kmalloc pages haccepts
    exact ⟨p, st', hrun, hmod⟩
  frees := by
    intro x hx
    obtain ⟨st', l', hrun, -⟩ := hinv.kfree (List.mem_map_of_mem hx)
    exact ⟨st', hrun⟩
  tiles := by
    rw [hinv.consistent.metaList_eq, List.isChain_map]
    refine htight.imp_of_mem_imp fun a b ha _ hab => ?_
    rwa [hinv.consistent.mem_stop ha]
  links := by
    intro a ha
    rw [hinv.consistent.metaList_eq, List.mem_map] at ha
    obtain ⟨b, hb, rfl⟩ := ha
    exact hinv.consistent.links hb
  coalesced := by
    rw [hinv.consistent.metaList_eq, List.isChain_map]
    refine hinv.coalesced.imp_of_mem_imp fun a b ha hb hab => ?_
    rwa [hinv.consistent.mem_isFree ha, hinv.consistent.mem_isFree hb]

end KernelHeap

/-- The heap keeps its promises in every run in which no block is misplaced. -/
theorem heapSpec_of_reaches {st : KernelHeap} {live : List (ℕ × ℕ)}
    (h : HeapReaches (fun st byteCount alignment pages => ¬st.Misplaced byteCount alignment pages)
      st live) : HeapSpec st live := by
  obtain ⟨l, hinv, htight⟩ := h.inv
  exact hinv.spec (htight fun _ _ _ _ => id)

/-- A heap whose memory holds zeros. -/
def emptyHeap : KernelHeap := .empty fun _ => ⟨0, 0, 0, 0, false⟩

namespace KernelHeap

/-- The heap that a request leaves. -/
def request (st : KernelHeap) (byteCount alignment pages : ℕ) : KernelHeap :=
  ((st.kmalloc byteCount alignment pages).map Prod.snd).getD st

/-- The heap in which a pointer has been freed. -/
def release (st : KernelHeap) (p : ℕ) : KernelHeap := (st.kfree p).getD st

variable {st : KernelHeap} {live : List (ℕ × ℕ)} {byteCount alignment pages p : ℕ}
  {ok : KernelHeap → ℕ → ℕ → ℕ → Prop}

lemma kmalloc_eq_request (h : (st.kmalloc byteCount alignment pages).map Prod.fst = some p) :
    st.kmalloc byteCount alignment pages = some (p, st.request byteCount alignment pages) := by
  obtain ⟨⟨p, st'⟩, hrun, rfl⟩ := Option.map_eq_some_iff.mp h
  rw [request, hrun]
  rfl

lemma kfree_eq_release (h : (st.kfree p).isSome) : st.kfree p = some (st.release p) := by
  obtain ⟨st', hrun⟩ := Option.isSome_iff_exists.mp h
  rw [release, hrun]
  rfl

lemma request_reaches (byteCount alignment pages p : ℕ) (h : HeapReaches ok st live)
    (haccepts : st.Accepts byteCount alignment) (hok : ok st byteCount alignment pages)
    (hrun : (st.kmalloc byteCount alignment pages).map Prod.fst = some p) :
    HeapReaches ok (st.request byteCount alignment pages)
      (if p = 0 then live else (p, max byteCount 1) :: live) :=
  h.kmalloc haccepts hok (kmalloc_eq_request hrun)

/-- Three blocks, of 64, 8 and 24 bytes. -/
def threeBlocks : KernelHeap := ((emptyHeap.request 64 1 1).request 8 1 1).request 24 16 1

/-- The first of the three blocks is freed. -/
def freedBlock : KernelHeap := threeBlocks.release (heapMemory + 33)

lemma reaches_freedBlock : HeapReaches (fun st byteCount alignment pages =>
    ¬st.Misplaced byteCount alignment pages) freedBlock [(heapMemory + 176, 24), (heapMemory + 130, 8)] := by
  have hempty : HeapReaches (fun st byteCount alignment pages => ¬st.Misplaced byteCount alignment pages)
      emptyHeap [] := .empty _
  have hone : HeapReaches _ (emptyHeap.request 64 1 1) [(heapMemory + 33, 64)] :=
    request_reaches 64 1 1 (heapMemory + 33) hempty (by decide) (by decide +kernel) (by decide +kernel)
  have htwo : HeapReaches _ ((emptyHeap.request 64 1 1).request 8 1 1) [(heapMemory + 130, 8),
      (heapMemory + 33, 64)] :=
    request_reaches 8 1 1 (heapMemory + 130) hone (by decide +kernel) (by decide +kernel) (by decide +kernel)
  have hthree : HeapReaches _ threeBlocks [(heapMemory + 176, 24), (heapMemory + 130, 8),
      (heapMemory + 33, 64)] :=
    request_reaches 24 16 1 (heapMemory + 176) htwo (by decide +kernel) (by decide +kernel) (by decide +kernel)
  exact hthree.kfree (by decide) (kfree_eq_release (by decide +kernel))

end KernelHeap

theorem heapSpec_of_reaches_freedBlock :
    HeapSpec freedBlock [(heapMemory + 176, 24), (heapMemory + 130, 8)] :=
  heapSpec_of_reaches reaches_freedBlock

/-- A request fails for lack of pages, and the next one succeeds. -/
def gap : KernelHeap := ((emptyHeap.request 1 1 1).request 5000 1 0).request 1 1 3

/-- The block appended after a failed request is not where the last one ends. -/
theorem not_heapSpec : ¬∀ st live, HeapReaches (fun _ _ _ _ => True) st live → HeapSpec st live := by
  intro hspec
  have hempty : HeapReaches (fun _ _ _ _ => True) emptyHeap [] := .empty _
  have hone : HeapReaches (fun _ _ _ _ => True) (emptyHeap.request 1 1 1) [(heapMemory + 33, 1)] :=
    request_reaches 1 1 1 (heapMemory + 33) hempty (by decide) trivial (by decide +kernel)
  have hfailed : HeapReaches (fun _ _ _ _ => True) ((emptyHeap.request 1 1 1).request 5000 1 0)
      [(heapMemory + 33, 1)] :=
    request_reaches 5000 1 0 0 hone (by decide +kernel) trivial (by decide +kernel)
  have hgap : HeapReaches (fun _ _ _ _ => True) gap [(heapMemory + 5100, 1), (heapMemory + 33, 1)] :=
    request_reaches 1 1 3 (heapMemory + 5100) hfailed (by decide +kernel) trivial (by decide +kernel)
  exact absurd (hspec _ _ hgap).tiles (by decide +kernel)

end PiKachulm.Memory

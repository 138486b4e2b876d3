import PiKachulm.Memory.KernelHeapReuse

/-!
# Sizes that wrap

`find_suitable_block` adds the padding to the size, and `extend_heap` adds the size to the end of the
heap, without a check for overflow. When these sums are words, a block holds as many bytes as were
asked for; when they are not, the bytes may reach behind the end of the heap.
-/

namespace PiKachulm.Memory

open Libk Core

namespace KernelHeap

/-- No sum that the request needs wraps: the first block that seems suitable has the room it seems to
have, and when no block does, the end of the extended heap is a word. -/
structure HasRoom (st : KernelHeap) (byteCount alignment : ℕ) : Prop where
  reuse : ∀ pre a post, st.metaList = pre ++ a :: post → post ≠ [] →
    (∀ d ∈ pre, ¬st.SuitableBlock (atLeastOne byteCount) (atLeastOne alignment) d) →
    st.SuitableBlock (atLeastOne byteCount) (atLeastOne alignment) a →
    alignUp (st.mem a).ptr (atLeastOne alignment) + atLeastOne byteCount ≤
      (st.mem a).ptr + (st.mem a).size
  extend : (∀ a ∈ st.metaList.dropLast,
      ¬st.SuitableBlock (atLeastOne byteCount) (atLeastOne alignment) a) →
    alignUp (st.getHeapEnd + metaBlockSize) (atLeastOne alignment) + atLeastOne byteCount < 2 ^ 64

/-- Neither a block of the heap nor the addresses behind it hold the request. -/
def TooLarge (st : KernelHeap) (byteCount alignment : ℕ) : Prop :=
  (∀ a ∈ st.metaList, (st.mem a).isFree = true →
    (st.mem a).ptr + (st.mem a).size < alignUp (st.mem a).ptr alignment + byteCount) ∧
  2 ^ 64 ≤ alignUp (st.getHeapEnd + metaBlockSize) alignment + byteCount

/-- The bytes from `p` on are in the heap, and no header lies among them. -/
def Holds (st : KernelHeap) (p byteCount : ℕ) : Prop :=
  p + byteCount ≤ st.getHeapEnd ∧ ∀ a ∈ st.metaList, p < a → p + byteCount ≤ a

/-- A pointer that is returned has all of its bytes, and a request that is too large changes
nothing. -/
def NoOverflow (st : KernelHeap) (byteCount alignment pages : ℕ) : Prop :=
  ∃ p st', st.kmalloc byteCount alignment pages = some (p, st') ∧
    (p ≠ 0 → st'.Holds p byteCount) ∧
    (st.TooLarge (atLeastOne byteCount) (atLeastOne alignment) →
      p = 0 ∧ st'.getHeapEnd = st.getHeapEnd)

end KernelHeap

open KernelHeap

/-- The heaps that requests of words meeting `ok` lead to, with the live allocations. -/
inductive HeapRuns (ok : KernelHeap → ℕ → ℕ → Prop) : KernelHeap → List (ℕ × ℕ) → Prop
  | empty (mem : ℕ → MetaBlock) : HeapRuns ok (.empty mem) []
  | kmalloc {st st' : KernelHeap} {live : List (ℕ × ℕ)} {byteCount alignment pages p : ℕ}
      (h : HeapRuns ok st live) (hbytes : byteCount < 2 ^ 64) (halign : alignment < 2 ^ 64)
      (hpow : alignment = 0 ∨ isPowerOfTwo alignment = true) (hok : ok st byteCount alignment)
      (hrun : st.kmalloc byteCount alignment pages = some (p, st')) :
      HeapRuns ok st' (if p = 0 then live else (p, max byteCount 1) :: live)
  | kfree {st st' : KernelHeap} {live : List (ℕ × ℕ)} {p : ℕ} (h : HeapRuns ok st live)
      (hlive : p ∈ live.map Prod.fst) (hrun : st.kfree p = some st') :
      HeapRuns ok st' (live.filter fun x => x.1 ≠ p)

namespace KernelHeap

variable {st st' : KernelHeap} {live : List (ℕ × ℕ)} {l : List Block} {b : Block}
  {byteCount alignment p n : ℕ}

lemma isPowerOfTwo_atLeastOne (h : alignment = 0 ∨ isPowerOfTwo alignment = true) :
    isPowerOfTwo (atLeastOne alignment) = true := by
  rw [atLeastOne]
  split_ifs with h0
  · decide
  · exact h.resolve_left h0

lemma Consistent.mem_ptr (hst : Consistent st l) (hb : b ∈ l) : (st.mem b.addr).ptr = b.ptr := by
  obtain ⟨p, n, hmem⟩ := hst.mem_eq hb
  rw [hmem]
  rfl

/-- The headers have room when the blocks do. -/
lemma Consistent.roomy_iff (hst : Consistent st l) : st.HasRoom byteCount alignment ↔
    st.Roomy l (atLeastOne byteCount) (atLeastOne alignment) := by
  constructor
  · rintro ⟨hreuse, hextend⟩
    refine ⟨?_, fun hnone => hextend ?_⟩
    · rintro pre b post rfl hpost hfirst hsuit
      have hmem : b ∈ pre ++ b :: post := List.mem_append_right _ List.mem_cons_self
      have hroom := hreuse (pre.map Block.addr) b.addr (post.map Block.addr)
        (by rw [hst.metaList_eq, List.map_append, List.map_cons]) (by rwa [ne_eq, List.map_eq_nil_iff])
        ?_ ((hst.suitableBlock_iff hmem).mpr hsuit)
      · rwa [hst.mem_stop hmem, hst.mem_ptr hmem] at hroom
      · intro a ha
        obtain ⟨d, hd, rfl⟩ := List.mem_map.mp ha
        rw [hst.suitableBlock_iff (List.mem_append_left _ hd)]
        exact hfirst d hd
    · intro a ha hsuit
      obtain ⟨b, hb, hsuit⟩ := hst.exists_suitable_iff.mp ⟨a, ha, hsuit⟩
      exact hnone b hb hsuit
  · rintro ⟨hreuse, hextend⟩
    refine ⟨?_, fun hnone => hextend ?_⟩
    · intro pre a post hlist hpost hfirst hsuit
      rw [hst.metaList_eq, List.map_eq_append_iff] at hlist
      obtain ⟨pre, rest, rfl, rfl, hrest⟩ := hlist
      obtain ⟨b, post, rfl, rfl, rfl⟩ := List.map_eq_cons_iff.mp hrest
      have hmem : b ∈ pre ++ b :: post := List.mem_append_right _ List.mem_cons_self
      rw [hst.mem_stop hmem, hst.mem_ptr hmem]
      refine hreuse pre b post rfl (fun h => hpost (by rw [h, List.map_nil])) (fun d hd => ?_)
        ((hst.suitableBlock_iff hmem).mp hsuit)
      rw [← hst.suitableBlock_iff (List.mem_append_left _ hd)]
      exact hfirst d.addr (List.mem_map_of_mem hd)
    · intro b hb hsuit
      obtain ⟨a, ha, hsuit⟩ := hst.exists_suitable_iff.mpr ⟨b, hb, hsuit⟩
      exact hnone a ha hsuit

/-- The first element that satisfies `P`, when one that is not the last does. -/
lemma exists_first {P : ℕ → Prop} {as : List ℕ} (h : ∃ a ∈ as.dropLast, P a) :
    ∃ pre a post, as = pre ++ a :: post ∧ post ≠ [] ∧ P a ∧ ∀ d ∈ pre, ¬P d := by
  induction as with
  | nil =>
    obtain ⟨a, ha, -⟩ := h
    exact absurd ha List.not_mem_nil
  | cons d as ih =>
    have has : as ≠ [] := by
      rintro rfl
      obtain ⟨a, ha, -⟩ := h
      exact absurd ha List.not_mem_nil
    by_cases hd : P d
    · exact ⟨[], d, as, rfl, has, hd, fun e he => absurd he List.not_mem_nil⟩
    · obtain ⟨a, ha, hPa⟩ := h
      rw [List.dropLast_cons_of_ne_nil has, List.mem_cons] at ha
      have hmem : a ∈ as.dropLast := ha.resolve_left fun heq => hd (heq ▸ hPa)
      obtain ⟨pre, b, post, rfl, hpost, hb, hpre⟩ := ih ⟨a, hmem, hPa⟩
      exact ⟨d :: pre, b, post, rfl, hpost, hb, List.forall_mem_cons.mpr ⟨hd, hpre⟩⟩

lemma HasRoom.not_tooLarge (hroom : st.HasRoom byteCount alignment) :
    ¬st.TooLarge (atLeastOne byteCount) (atLeastOne alignment) := by
  intro ⟨hblocks, hbehind⟩
  by_cases hnone : ∀ a ∈ st.metaList.dropLast,
      ¬st.SuitableBlock (atLeastOne byteCount) (atLeastOne alignment) a
  · exact absurd (hroom.extend hnone) (Nat.not_lt_of_le hbehind)
  · push Not at hnone
    obtain ⟨pre, a, post, hlist, hpost, hsuit, hfirst⟩ := exists_first hnone
    have hle := hroom.reuse pre a post hlist hpost hfirst hsuit
    exact absurd (hblocks a (by rw [hlist]; simp) hsuit.1) (Nat.not_lt_of_le hle)

/-- The bytes of a live allocation are in a block of their own. -/
lemma Inv.holds (hinv : Inv st live l) (hlive : (p, n) ∈ live) : st.Holds p n := by
  obtain ⟨b, hb, -, hptr, hsize⟩ := hinv.mem_used hlive
  obtain ⟨-, hbwf, hend⟩ := hinv.consistent.fits.of_mem hb
  have hheader := hbwf.header
  have hstop : p + n ≤ b.stop := by
    rw [Block.stop, hptr]
    exact Nat.add_le_add_left hsize _
  refine ⟨hstop.trans hend, fun a ha hlt => ?_⟩
  rw [hinv.consistent.metaList_eq, List.mem_map] at ha
  obtain ⟨d, hd, rfl⟩ := ha
  have hne : b ≠ d := by
    rintro rfl
    omega
  have hdheader := (hinv.consistent.fits.of_mem hd).2.1.addr_lt
  rcases hinv.consistent.fits.disjoint hb hd hne with hle | hle
  · exact hstop.trans hle
  · omega

/-- What a request with room does in a heap that satisfies the invariant. -/
lemma Inv.noOverflow (hinv : Inv st live l) (pages : ℕ)
    (hpow : alignment = 0 ∨ isPowerOfTwo alignment = true) (hroom : st.HasRoom byteCount alignment) :
    st.NoOverflow byteCount alignment pages := by
  obtain ⟨p, st', l', hrun, -, hinv', -⟩ := hinv.kmalloc_of_roomy pages
    (isPowerOfTwo_atLeastOne hpow) (hinv.consistent.roomy_iff.mp hroom)
  refine ⟨p, st', hrun, fun hp => ?_, fun hlarge => absurd hlarge hroom.not_tooLarge⟩
  rw [if_neg hp] at hinv'
  obtain ⟨hend, hheaders⟩ := hinv'.holds List.mem_cons_self
  have hle : byteCount ≤ max byteCount 1 := le_max_left _ _
  exact ⟨by omega, fun a ha hlt => (Nat.add_le_add_left hle p).trans (hheaders a ha hlt)⟩

end KernelHeap

/-- The invariant holds in every run of requests that have room. -/
lemma HeapRuns.inv {st : KernelHeap} {live : List (ℕ × ℕ)} (h : HeapRuns HasRoom st live) :
    ∃ l, Inv st live l := by
  induction h with
  | empty mem => exact ⟨[], inv_empty⟩
  | kmalloc _ _ _ hpow hok hrun ih =>
    obtain ⟨l, hinv⟩ := ih
    obtain ⟨p', st'', l', hrun', -, hinv', -⟩ := hinv.kmalloc_of_roomy _
      (isPowerOfTwo_atLeastOne hpow) (hinv.consistent.roomy_iff.mp hok)
    rw [hrun, Option.some.injEq, Prod.mk.injEq] at hrun'
    obtain ⟨rfl, rfl⟩ := hrun'
    exact ⟨l', hinv'⟩
  | kfree _ hlive hrun ih =>
    obtain ⟨l, hinv⟩ := ih
    obtain ⟨st'', l', hrun', hinv', -⟩ := hinv.kfree hlive
    rw [hrun, Option.some.injEq] at hrun'
    subst hrun'
    exact ⟨l', hinv'⟩

/-- In every run of requests that have room, one more such request gets its bytes. -/
theorem noOverflow_of_runs {st : KernelHeap} {live : List (ℕ × ℕ)} {byteCount alignment : ℕ}
    (h : HeapRuns HasRoom st live) (hpow : alignment = 0 ∨ isPowerOfTwo alignment = true)
    (hroom : st.HasRoom byteCount alignment) (pages : ℕ) :
    st.NoOverflow byteCount alignment pages := by
  obtain ⟨l, hinv⟩ := h.inv
  exact hinv.noOverflow pages hpow hroom

/-- It is enough that every suitable block but the last has the room it seems to have. -/
lemma hasRoom_of_forall {st : KernelHeap} {byteCount alignment : ℕ}
    (hreuse : ∀ a ∈ st.metaList.dropLast, st.SuitableBlock (atLeastOne byteCount) (atLeastOne alignment) a →
      alignUp (st.mem a).ptr (atLeastOne alignment) + atLeastOne byteCount ≤ (st.mem a).ptr + (st.mem a).size)
    (hextend : alignUp (st.getHeapEnd + metaBlockSize) (atLeastOne alignment) + atLeastOne byteCount < 2 ^ 64) :
    st.HasRoom byteCount alignment where
  reuse := by
    intro pre a post hlist hpost _ hsuit
    refine hreuse a ?_ hsuit
    rw [hlist, List.dropLast_append_of_ne_nil (List.cons_ne_nil a post), List.dropLast_cons_of_ne_nil hpost]
    exact List.mem_append_right _ List.mem_cons_self
  extend := fun _ => hextend

lemma emptyHeap_hasRoom : emptyHeap.HasRoom 24 16 := hasRoom_of_forall (by decide) (by decide)

lemma request_runs (byteCount alignment pages p : ℕ) {ok : KernelHeap → ℕ → ℕ → Prop} {st : KernelHeap}
    {live : List (ℕ × ℕ)} (h : HeapRuns ok st live) (hbytes : byteCount < 2 ^ 64) (halign : alignment < 2 ^ 64)
    (hpow : alignment = 0 ∨ isPowerOfTwo alignment = true) (hok : ok st byteCount alignment)
    (hrun : (st.kmalloc byteCount alignment pages).map Prod.fst = some p) :
    HeapRuns ok (st.request byteCount alignment pages)
      (if p = 0 then live else (p, max byteCount 1) :: live) :=
  h.kmalloc hbytes halign hpow hok (kmalloc_eq_request hrun)

lemma runs_freedBlock : HeapRuns HasRoom freedBlock [(heapMemory + 176, 24), (heapMemory + 130, 8)] := by
  have hempty : HeapRuns HasRoom emptyHeap [] := .empty _
  have hone : HeapRuns HasRoom (emptyHeap.request 64 1 1) [(heapMemory + 33, 64)] :=
    request_runs 64 1 1 (heapMemory + 33) hempty (by decide) (by decide) (by decide)
      (hasRoom_of_forall (by decide) (by decide)) (by decide +kernel)
  have htwo : HeapRuns HasRoom ((emptyHeap.request 64 1 1).request 8 1 1)
      [(heapMemory + 130, 8), (heapMemory + 33, 64)] :=
    request_runs 8 1 1 (heapMemory + 130) hone (by decide) (by decide) (by decide)
      (hasRoom_of_forall (by decide +kernel) (by decide +kernel)) (by decide +kernel)
  have hthree : HeapRuns HasRoom threeBlocks
      [(heapMemory + 176, 24), (heapMemory + 130, 8), (heapMemory + 33, 64)] :=
    request_runs 24 16 1 (heapMemory + 176) htwo (by decide) (by decide) (by decide)
      (hasRoom_of_forall (by decide +kernel) (by decide +kernel)) (by decide +kernel)
  exact hthree.kfree (by decide) (kfree_eq_release (by decide +kernel))

theorem noOverflow_of_runs_freedBlock : freedBlock.NoOverflow 24 16 1 :=
  noOverflow_of_runs runs_freedBlock (by decide) (hasRoom_of_forall (by decide +kernel) (by decide +kernel)) 1

lemma emptyHeap_kmalloc_wraps : ((emptyHeap.kmalloc (2 ^ 64 - 10) 1 1).any fun x =>
    decide (x.1 ≠ 0 ∧ ¬x.1 + (2 ^ 64 - 10) ≤ x.2.getHeapEnd)) = true := by
  decide +kernel

/-- A request for almost all of the address space gets 23 bytes, header included. -/
theorem not_noOverflow_wraps : ¬∀ st live, HeapRuns (fun _ _ _ => True) st live →
    ∀ byteCount alignment pages, byteCount < 2 ^ 64 → alignment < 2 ^ 64 →
      isPowerOfTwo alignment = true → st.NoOverflow byteCount alignment pages := by
  intro hall
  have hempty : HeapRuns (fun _ _ _ => True) emptyHeap [] := .empty _
  obtain ⟨p, st, hrun, hholds, -⟩ :=
    hall _ _ hempty (2 ^ 64 - 10) 1 1 (by decide) (by decide) (by decide)
  obtain ⟨⟨p', st'⟩, hrun', h⟩ := (Option.any_eq_true _ _).mp emptyHeap_kmalloc_wraps
  rw [hrun, Option.some.injEq, Prod.mk.injEq] at hrun'
  obtain ⟨rfl, rfl⟩ := hrun'
  rw [decide_eq_true_iff] at h
  exact h.2 (hholds h.1).1

end PiKachulm.Memory

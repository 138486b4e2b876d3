import PiKachulm.Memory.MemAlloc

/-!
# `kmalloc` and `kfree` on blocks

In a consistent heap, the headers are those of blocks that do not overlap. `kfree` releases a block
and merges it with its neighbours; `kmalloc` takes a block that is free, or appends one.
-/

namespace PiKachulm.Memory

open Libk Core

namespace KernelHeap

variable {st : KernelHeap} {q : ℕ} {a b b' : Block} {l pre post : List Block}

/-- The headers are those of blocks that fit in the heap. -/
structure Consistent (st : KernelHeap) (l : List Block) : Prop where
  rep : st.Rep l
  fits : Fits metaBlockSize st.manager.heapStart l st.getHeapEnd
  pos : 0 < st.manager.heapStart
  bounded : st.manager.heapStart + st.manager.heapByteSize < 2 ^ 64

/-- The request has room: the first block that seems suitable is, and when none does, the end of the
extended heap is a word. -/
structure Roomy (st : KernelHeap) (l : List Block) (size alignment : ℕ) : Prop where
  reuse : ∀ pre b post, l = pre ++ b :: post → post ≠ [] →
    (∀ d ∈ pre, ¬Suitable size alignment d) → Suitable size alignment b →
    alignUp b.ptr alignment + size ≤ b.stop
  extend : (∀ b ∈ l.dropLast, ¬Suitable size alignment b) →
    alignUp (st.getHeapEnd + metaBlockSize) alignment + size < 2 ^ 64

namespace Consistent

lemma getHeapEnd_eq (hst : Consistent st l) :
    st.getHeapEnd = st.manager.heapStart + st.manager.heapByteSize :=
  wadd_of_lt hst.bounded

lemma getHeapEnd_lt (hst : Consistent st l) : st.getHeapEnd < 2 ^ 64 :=
  hst.getHeapEnd_eq ▸ hst.bounded

lemma distinct (hst : Consistent st l) : Distinct l :=
  hst.fits.pairwise_addr.imp fun hlt => Nat.ne_of_lt hlt

lemma length_lt (hst : Consistent st l) : l.length < st.fuel := by
  have hle := hst.fits.length_le
  rw [hst.getHeapEnd_eq] at hle
  exact Nat.lt_succ_of_le (Nat.le_of_add_le_add_left hle)

lemma stop_lt (hst : Consistent st l) (hb : b ∈ l) : b.stop < 2 ^ 64 :=
  (hst.fits.of_mem hb).2.2.trans_lt hst.getHeapEnd_lt

lemma wadd_ptr (hst : Consistent st l) (hb : b ∈ l) : wadd b.ptr b.size = b.stop :=
  wadd_of_lt (hst.stop_lt hb)

/-- The first block that `get_block_addr` does not pass is that of the pointer. -/
lemma getBlockAddr_eq (hst : Consistent st (pre ++ b :: post)) :
    st.getBlockAddr b.ptr = some b.addr := by
  have hmem : b ∈ pre ++ b :: post := List.mem_append_right _ List.mem_cons_self
  obtain ⟨hstart, hb, hend⟩ := hst.fits.of_mem hmem
  have hsize := hb.size
  have hlt : b.ptr < st.getHeapEnd := by
    rw [Block.stop] at hend
    omega
  have hbefore : ∀ d ∈ pre, wadd d.ptr d.size < b.ptr := by
    intro d hd
    rw [hst.wadd_ptr (List.mem_append_left _ hd)]
    have hle := (List.pairwise_append.mp hst.fits.pairwise).2.2 d hd b List.mem_cons_self
    have hheader := hb.header
    have hpos : 0 < metaBlockSize := by decide
    omega
  have hnot : ¬wadd b.ptr b.size < b.ptr := by
    rw [hst.wadd_ptr hmem, Block.stop]
    omega
  obtain ⟨q, hseg⟩ := hst.rep
  obtain ⟨h0, r, m, -, hmemb, -⟩ := rep_split.mp hst.rep
  have hptr : (st.mem b.addr).ptr = b.ptr := by rw [hmemb]; rfl
  have hwalk : st.walkTo b.ptr st.fuel st.head = some b.addr := by
    refine walkTo_eq hseg ?_ hbefore hnot
    have hlen := hst.length_lt
    rw [List.length_append] at hlen
    exact (Nat.le_add_right _ _).trans_lt hlen
  rw [getBlockAddr, if_pos hlt]
  by_cases hhead : st.head ≠ 0 ∧ (st.mem st.head).ptr = b.ptr
  · rw [if_pos hhead]
    cases pre with
    | nil => rw [hseg.1]
    | cons d pre =>
      obtain ⟨hd, -, n, hdmem, -⟩ := hseg
      have hlt' := hbefore d List.mem_cons_self
      rw [hst.wadd_ptr List.mem_cons_self, Block.stop] at hlt'
      have heq := hhead.2
      rw [hd, hdmem] at heq
      change d.ptr = b.ptr at heq
      omega
  · rw [if_neg hhead, hwalk, Option.bind_eq_bind, Option.bind_some, hptr,
      if_neg fun h => absurd h.2 (Nat.lt_irrefl _)]
    rfl

lemma isAddrValid_eq (hst : Consistent st (pre ++ b :: post)) :
    st.isAddrValid b.ptr = some true := by
  have hmem : b ∈ pre ++ b :: post := List.mem_append_right _ List.mem_cons_self
  obtain ⟨hstart, hb, hend⟩ := hst.fits.of_mem hmem
  have hheader := hb.header
  have hsize := hb.size
  have hpos : 0 < metaBlockSize := by decide
  obtain ⟨q, hseg⟩ := hst.rep
  obtain ⟨h0, r, m, hpre, hmemb, -⟩ := rep_split.mp hst.rep
  have hptr : (st.mem b.addr).ptr = b.ptr := by rw [hmemb]; rfl
  have hhead : st.head ≠ 0 ∧ st.head ≤ b.addr := by
    cases pre with
    | nil =>
      rw [hpre.1]
      exact ⟨h0, le_rfl⟩
    | cons d pre =>
      obtain ⟨hd, hd0, -⟩ := hseg
      rw [hd]
      exact ⟨hd0, (List.rel_of_pairwise_cons hst.fits.pairwise_addr (by simp)).le⟩
  have hrange : b.ptr > st.head ∧ b.ptr < st.getHeapEnd := by
    rw [Block.stop] at hend
    omega
  rw [isAddrValid, if_neg hhead.1, if_pos hrange, hst.getBlockAddr_eq, Option.bind_eq_bind,
    Option.bind_some, hptr]
  simp [h0]

/-! ### Merging -/

lemma replace (hst : Consistent st (pre ++ b :: post)) (hb' : b'.Wf metaBlockSize)
    (haddr : b'.addr = b.addr) (hstop : b'.stop ≤ b.stop) :
    Consistent (st.set b.addr { st.mem b.addr with
      size := b'.size, ptr := b'.ptr, isFree := b'.isFree }) (pre ++ b' :: post) :=
  ⟨hst.rep.replace hst.distinct haddr, hst.fits.replace hb' haddr hstop, hst.pos, hst.bounded⟩

lemma merge (hst : Consistent st (pre ++ a :: b :: post)) (hfree : b.isFree = true) :
    ∃ st', st.mergeBlock a.addr b.addr = some st' ∧ st'.manager = st.manager ∧
      Consistent st' (pre ++ a.merge metaBlockSize b :: post) := by
  have hfits := hst.fits.merge hfree
  have hsize : a.size + (b.size + metaBlockSize) < 2 ^ 64 := by
    have hend := (hfits.of_mem (b := a.merge metaBlockSize b) (by simp)).2.2
    have hlt := hst.getHeapEnd_lt
    rw [Block.merge_stop, Block.stop] at hend
    omega
  obtain ⟨st', hmerge, hmanager, hrep⟩ := hst.rep.merge hst.distinct hfree hsize
  refine ⟨st', hmerge, hmanager, hrep, ?_, hmanager ▸ hst.pos, hmanager ▸ hst.bounded⟩
  rw [getHeapEnd, hmanager]
  exact hfits

/-- What `kfree` does with the next block. -/
lemma mergeNext (hst : Consistent st (pre ++ b :: post)) (hb : b.isFree = true)
    (hpost : Coalesced post) :
    ∃ st' b' post', st.mergeNext b.addr = some st' ∧ st'.manager = st.manager ∧
      joinNext metaBlockSize b post = b' :: post' ∧ Consistent st' (pre ++ b' :: post') ∧ b'.addr = b.addr ∧
      b'.ptr = b.ptr ∧ b.size ≤ b'.size ∧ b'.isFree = true ∧ Coalesced (b' :: post') ∧
      used post' = used post ∧ (Tight (pre ++ b :: post) → Tight (pre ++ b' :: post')) := by
  obtain ⟨h0, r, m, hpre, hmem, q, hseg⟩ := rep_split.mp hst.rep
  have hnext : (st.mem b.addr).next = m := by rw [hmem]; rfl
  simp only [KernelHeap.mergeNext, hnext]
  cases post with
  | nil =>
    refine ⟨st, b, [], if_neg fun h => h.1 hseg.1, rfl, rfl, hst, rfl, rfl, le_rfl, hb, ?_, rfl, id⟩
    exact List.isChain_singleton b
  | cons c post =>
    obtain ⟨rfl, hc0, n, hcmem, -⟩ := hseg
    have hcfree : (st.mem c.addr).isFree = c.isFree := by rw [hcmem]; rfl
    rw [hcfree]
    by_cases hfree : c.isFree = true
    · rw [if_pos ⟨hc0, hfree⟩]
      obtain ⟨st', hmerge, hmanager, hst'⟩ := hst.merge hfree
      refine ⟨st', b.merge metaBlockSize c, post, hmerge, hmanager, if_pos hfree, hst', rfl, rfl,
        Nat.le_add_right _ _, hb, ?_, (used_cons_of_free hfree).symm, fun htight => ?_⟩
      · have hsame : (b.merge metaBlockSize c).isFree = c.isFree := hb.trans hfree.symm
        exact (coalesced_cons_congr hsame).mpr hpost
      · exact htight.merge (hst.fits.of_mem (by simp)).2.1 hfree
    · refine ⟨st, b, c :: post, if_neg fun h => hfree h.2, rfl, if_neg hfree, hst, rfl, rfl, le_rfl,
        hb, ?_, rfl, id⟩
      rw [coalesced_cons]
      refine ⟨?_, hpost⟩
      rintro _ ⟨⟩ ⟨-, h⟩
      exact hfree h

/-- What `kfree` does with the previous block. -/
lemma mergePrevious (hst : Consistent st (pre ++ b :: post)) (hb : b.isFree = true)
    (hpre : Coalesced pre) (hpost : Coalesced (b :: post)) :
    ∃ st' l', st.mergePrevious b.addr = some st' ∧ st'.manager = st.manager ∧
      l' = joinPrevious metaBlockSize pre (b :: post) ∧ Consistent st' l' ∧ Coalesced l' ∧
        used l' = used pre ++ used post ∧ (Tight (pre ++ b :: post) → Tight l') ∧
      ∃ f ∈ l', f.isFree = true ∧ f.ptr ≤ b.ptr ∧ (Tight (pre ++ b :: post) → b.stop ≤ f.stop) := by
  obtain ⟨h0, r, m, hseg, hmem, -⟩ := rep_split.mp hst.rep
  have hprev : (st.mem b.addr).previous = r := by rw [hmem]; rfl
  simp only [KernelHeap.mergePrevious, hprev]
  rcases List.eq_nil_or_concat pre with rfl | ⟨pre, a, rfl⟩
  · refine ⟨st, b :: post, if_neg fun h => h.1 hseg.2.symm, rfl, rfl, hst, hpost, ?_, id, b,
      List.mem_cons_self, hb, le_rfl, fun _ => le_rfl⟩
    exact used_cons_of_free hb
  · rw [List.concat_eq_append] at hst hpre hseg ⊢
    have hr := hseg.last_eq
    subst hr
    obtain ⟨r', m', -, -, ha0, n, hamem, rfl, -⟩ := seg_append.mp hseg
    have hafree : (st.mem a.addr).isFree = a.isFree := by rw [hamem]; rfl
    have hanext : (st.mem a.addr).next = b.addr := by rw [hamem]; rfl
    rw [hafree, hanext]
    by_cases hfree : a.isFree = true
    · rw [if_pos ⟨ha0, hfree⟩, if_neg (not_not_intro rfl)]
      rw [List.append_assoc] at hst ⊢
      obtain ⟨st', hmerge, hmanager, hst'⟩ := hst.merge hb
      obtain ⟨-, hbwf, -⟩ := hst.fits.of_mem (b := b) (by simp)
      refine ⟨st', pre ++ a.merge metaBlockSize b :: post, hmerge, hmanager,
        (joinPrevious_concat hfree).symm, hst', ?_, ?_, fun htight => htight.merge hbwf hb,
          a.merge metaBlockSize b, by simp, hfree, ?_, ?_⟩
      · have hsame : (a.merge metaBlockSize b).isFree = b.isFree := hfree.trans hb.symm
        rw [coalesced_split]
        exact ⟨(coalesced_concat_congr Block.merge_isFree).mpr hpre,
          (coalesced_cons_congr hsame).mpr hpost⟩
      · rw [used_merge hfree hb, used_append, used_append, used_cons_of_free hfree,
          used_cons_of_free hb, used_cons_of_free hfree]
        simp [used]
      · have hle := (List.pairwise_append.mp hst.fits.pairwise).2.1
        have hstop := List.rel_of_pairwise_cons hle List.mem_cons_self
        have hheader := hbwf.header
        rw [Block.stop] at hstop
        change a.ptr ≤ b.ptr
        omega
      · intro htight
        have hab : a.stop = b.addr := by
          have hcons := (tight_split.mp htight).2
          exact (tight_cons.mp hcons).1 b rfl
        exact (hbwf.merge_stop_eq hb hab).ge
    · rw [if_neg fun h => hfree h.2]
      refine ⟨st, _, rfl, rfl, (joinPrevious_of_used ?_).symm, hst, ?_, ?_, id, b, by simp, hb, le_rfl,
        fun _ => le_rfl⟩
      · intro d hd
        rw [List.getLast?_concat, Option.mem_some_iff] at hd
        exact Bool.eq_false_iff.mpr (hd ▸ hfree)
      · rw [coalesced_split, coalesced_concat]
        refine ⟨⟨hpre, ?_⟩, hpost⟩
        intro d hd
        rw [List.getLast?_concat, Option.mem_some_iff] at hd
        exact fun h => hfree (hd ▸ h.1)
      · rw [used_append, used_cons_of_free hb]

/-- `kfree` releases the block of the pointer and merges it with its free neighbours. -/
lemma kfree_spec (hst : Consistent st (pre ++ b :: post)) (hl : Coalesced (pre ++ b :: post)) :
    ∃ st' l', st.kfree b.ptr = some st' ∧ st'.manager = st.manager ∧
      l' = freed metaBlockSize pre b post ∧ Consistent st' l' ∧ Coalesced l' ∧
        used l' = used pre ++ used post ∧ (Tight (pre ++ b :: post) → Tight l') ∧
      ∃ f ∈ l', f.isFree = true ∧ f.ptr ≤ b.ptr ∧ (Tight (pre ++ b :: post) → b.stop ≤ f.stop) := by
  have hmem : b ∈ pre ++ b :: post := List.mem_append_right _ List.mem_cons_self
  obtain ⟨-, hb, -⟩ := hst.fits.of_mem hmem
  obtain ⟨h0, r, m, -, hmemb, -⟩ := rep_split.mp hst.rep
  have hheader := hb.header
  have hstop := hst.stop_lt hmem
  rw [Block.stop] at hstop
  have hdata : wadd b.addr metaBlockSize = b.addr + metaBlockSize := wadd_of_lt (by omega)
  have hsize : wadd (st.mem b.addr).size (wsub b.ptr (b.addr + metaBlockSize)) =
      (b.release metaBlockSize).size := by
    rw [hmemb, wsub_of_le hheader (by omega)]
    change wadd b.size _ = b.ptr + b.size - (b.addr + metaBlockSize)
    rw [wadd_of_lt (by omega)]
    omega
  have hne : b.ptr ≠ 0 := by
    have hpos : 0 < metaBlockSize := by decide
    omega
  have hmark : st.markFree b.addr b.ptr = st.set b.addr { st.mem b.addr with
      size := (b.release metaBlockSize).size
      ptr := (b.release metaBlockSize).ptr
      isFree := (b.release metaBlockSize).isFree } := by
    rw [markFree, hdata, hsize]
    rfl
  have hset : Consistent (st.markFree b.addr b.ptr) (pre ++ b.release metaBlockSize :: post) := by
    rw [hmark]
    exact hst.replace hb.release Block.release_addr hb.release_stop.le
  obtain ⟨hpre, hpost⟩ := coalesced_split.mp hl
  obtain ⟨st₁, b₁, post₁, hcode₁, hmanager₁, hjoin₁, hst₁, haddr₁, hptr₁, hsize₁, hfree₁, hpost₁, hused₁,
    htight₁⟩ := hset.mergeNext rfl (coalesced_cons.mp hpost).2
  obtain ⟨st₂, l₂, hcode₂, hmanager₂, hjoin₂, hst₂, hl₂, hused₂, htight₂, f, hf, hffree, hfptr, hfstop⟩ :=
    hst₁.mergePrevious hfree₁ (coalesced_concat.mp hpre).1 hpost₁
  have hrelease : Tight (pre ++ b :: post) → Tight (pre ++ b.release metaBlockSize :: post) :=
    fun htight => htight.replace rfl hb.release_stop
  rw [← hjoin₁] at hjoin₂
  refine ⟨st₂, l₂, ?_, hmanager₂.trans hmanager₁, hjoin₂, hst₂, hl₂, hused₁ ▸ hused₂,
    fun htight => htight₂ (htight₁ (hrelease htight)), f, hf, hffree, ?_, fun htight => ?_⟩
  · rw [kfree, if_neg hne, hst.isAddrValid_eq, Option.bind_eq_bind, Option.bind_some, if_pos rfl,
      hst.getBlockAddr_eq, Option.bind_eq_bind, Option.bind_some, Option.bind_eq_bind]
    rw [Block.release_addr] at hcode₁ haddr₁
    rw [hcode₁, Option.bind_some, ← haddr₁, hcode₂]
  · exact hfptr.trans (hptr₁.le.trans hheader)
  · refine le_trans ?_ (hfstop (htight₁ (hrelease htight)))
    rw [← hb.release_stop, Block.stop, Block.stop, hptr₁]
    exact Nat.add_le_add_left hsize₁ _

/-! ### Extending the heap -/

/-- `extend_heap` appends a block at the end of the heap, or leaves the blocks as they are. -/
lemma extendHeap_spec {size alignment : ℕ} (hst : Consistent st l) (pages : ℕ)
    (hseg : Seg st.mem 0 st.head l q 0) (hpow : isPowerOfTwo alignment = true) (hsize : 1 ≤ size)
    (hroom : alignUp (st.getHeapEnd + metaBlockSize) alignment + size < 2 ^ 64) :
    ∃ r, alignToNext (wadd st.getHeapEnd metaBlockSize) alignment = some r ∧
      r % alignment = 0 ∧
      (((st.manager.changeHeapEnd pages (wadd (wsub r st.getHeapEnd) size)).1 = 0 ∧ ∃ st',
        st.extendHeap q size alignment pages = some (0, st') ∧ Consistent st' l ∧
          st'.manager.heapStart = st.manager.heapStart ∧ st'.mem = st.mem) ∨
      ((st.manager.changeHeapEnd pages (wadd (wsub r st.getHeapEnd) size)).1 ≠ 0 ∧ ∃ st',
        st.extendHeap q size alignment pages = some (st.getHeapEnd, st') ∧
          st'.mem st.getHeapEnd = header ⟨st.getHeapEnd, r, size, false⟩ q 0 ∧
          (∀ d ∈ l, (st'.mem d.addr).isFree = (st.mem d.addr).isFree) ∧
          st'.manager.heapStart = st.manager.heapStart ∧
          Consistent { st' with head := if l = [] then st.getHeapEnd else st'.head }
            (l ++ [⟨st.getHeapEnd, r, size, false⟩]))) := by
  have hpos : 0 < metaBlockSize := by decide
  have hE := hst.getHeapEnd_eq
  have hstart := hst.pos
  have hup : alignUp (st.getHeapEnd + metaBlockSize) alignment < 2 ^ 64 := by omega
  have hwrap := add_le_of_alignUp_lt hpow hup (by omega)
  have hdata : wadd st.getHeapEnd metaBlockSize = st.getHeapEnd + metaBlockSize := by
    obtain ⟨k, rfl⟩ := isPowerOfTwo_iff.mp hpow
    have hk := Nat.two_pow_pos k
    exact wadd_of_lt (by omega)
  obtain ⟨r, hr, hle, hlt, hmod, -⟩ := alignToNext_spec
    (st.getHeapEnd + metaBlockSize) hpow hwrap
  have hrup := alignToNext_eq hpow hup (by omega)
  rw [hr, Option.some.injEq] at hrup
  rw [← hrup] at hroom
  have hoffset : wadd (wsub r st.getHeapEnd) size = r - st.getHeapEnd + size := by
    rw [wsub_of_le (by omega) (by omega), wadd_of_lt (by omega)]
  have hbytes : wadd st.manager.heapByteSize (r - st.getHeapEnd + size) =
      st.manager.heapByteSize + (r - st.getHeapEnd + size) := wadd_of_lt (by omega)
  rw [hdata]
  refine ⟨r, hr, hmod, ?_⟩
  rw [hoffset]
  obtain ⟨hstart', hbytes'⟩ := HeapManager.changeHeapEnd_same st.manager pages
    (r - st.getHeapEnd + size)
  rw [hbytes] at hbytes'
  generalize hchange : st.manager.changeHeapEnd pages (r - st.getHeapEnd + size) = res at *
  obtain ⟨brk, manager⟩ := res
  change manager.heapStart = st.manager.heapStart at hstart'
  change manager.heapByteSize = _ at hbytes'
  have hend : manager.getHeapEnd = r + size := by
    rw [HeapManager.getHeapEnd, hstart', hbytes', wadd_of_lt (by omega)]
    omega
  have hfits : Fits metaBlockSize manager.heapStart l st.getHeapEnd := hstart' ▸ hst.fits
  have hE0 : st.getHeapEnd ≠ 0 := by omega
  have hbounded : manager.heapStart + manager.heapByteSize < 2 ^ 64 := by omega
  have hcode : st.extendHeap q size alignment pages =
      if brk = 0 then some (0, { st with manager := manager })
      else some (st.getHeapEnd,
        { st with manager := manager }.append st.getHeapEnd q size r) := by
    rw [extendHeap, hdata, hr, Option.bind_eq_bind, Option.bind_some, hoffset]
    simp only [hchange, Option.pure_def]
  rw [hcode]
  by_cases hbrk : brk = 0
  · refine .inl ⟨hbrk, _, if_pos hbrk, ⟨hst.rep, ?_, hstart' ▸ hst.pos, hbounded⟩, hstart', rfl⟩
    change Fits _ _ l manager.getHeapEnd
    exact hfits.mono le_rfl (by omega)
  · have hbefore : ∀ d ∈ l, d.addr ≠ st.getHeapEnd := by
      intro d hd
      obtain ⟨-, hd, hdend⟩ := hst.fits.of_mem hd
      exact Nat.ne_of_lt ((Nat.le_add_right _ _).trans_lt (hd.addr_lt.trans_le hdend))
    refine .inr ⟨hbrk, _, if_neg hbrk, ?_⟩
    have hseg₁ := hseg.update _ (x := header ⟨st.getHeapEnd, r, size, false⟩ q 0) hbefore
    have hseg₂ := hseg₁.concat (b := ⟨st.getHeapEnd, r, size, false⟩) hst.distinct hbefore
      (fun _ => rfl) hE0 (Function.update_self _ _ _)
    refine ⟨append_mem_self (hseg.last_ne hE0.symm hbefore).symm,
      fun d hd => append_mem_isFree (hbefore d hd), by rw [append_manager]; exact hstart',
      ⟨st.getHeapEnd, ?_⟩, ?_, ?_, ?_⟩
    · rw [append_mem, append_head]
      exact hseg₂
    · rw [getHeapEnd, append_manager]
      change Fits metaBlockSize manager.heapStart _ manager.getHeapEnd
      exact hfits.concat le_rfl ⟨hle, hsize, fun h => by cases h⟩ hend.ge
    · rw [append_manager]
      exact hstart' ▸ hst.pos
    · rw [append_manager]
      exact hbounded

/-! ### Allocating -/

lemma le_atLeastOne {n : ℕ} : 1 ≤ atLeastOne n := by
  rw [atLeastOne]
  split_ifs <;> omega

/-- A request whose alignment and size can be added to the end of the heap. -/
lemma roomy {size alignment : ℕ} (hst : Consistent st l) (hpow : isPowerOfTwo alignment = true)
    (hwrap : st.getHeapEnd + metaBlockSize + alignment + size ≤ 2 ^ 64) :
    st.Roomy l size alignment where
  reuse := by
    intro pre b post hl hpost hfirst ⟨hfree, r, hr, hle⟩
    obtain ⟨-, hb, hend⟩ := hst.fits.of_mem (b := b) (by rw [hl]; simp)
    rw [Block.stop] at hend ⊢
    obtain ⟨r', hr', hge, hlt, -⟩ := alignToNext_spec b.ptr hpow (by omega)
    rw [hr, Option.some.injEq] at hr'
    subst hr'
    have hpos : 0 < alignment := by omega
    have hlt' : alignUp b.ptr alignment < b.ptr + alignment := alignUp_lt hpos
    have hheader := hb.header
    have hmeta : 0 < metaBlockSize := by decide
    have hup := alignToNext_eq hpow (hlt'.trans_le (by omega)) (by omega)
    rw [hr, Option.some.injEq] at hup
    rw [← hup]
    rw [wsub_of_le hge (by omega), wadd_of_lt (by omega)] at hle
    omega
  extend := by
    intro hnone
    obtain ⟨k, hk⟩ := isPowerOfTwo_iff.mp hpow
    have hpos : 0 < alignment := hk ▸ Nat.two_pow_pos k
    have hlt : alignUp (st.getHeapEnd + metaBlockSize) alignment <
      st.getHeapEnd + metaBlockSize + alignment := alignUp_lt hpos
    omega

/-- What `kmalloc` does: it returns null, takes a block that is free and not the last, or appends a
block. -/
lemma kmalloc_spec {byteCount alignment : ℕ} (hst : Consistent st l) (pages : ℕ)
    (hpow : isPowerOfTwo (atLeastOne alignment) = true)
    (hroom : st.Roomy l (atLeastOne byteCount) (atLeastOne alignment)) :
    ∃ p st', st.kmalloc byteCount alignment pages = some (p, st') ∧
      st'.manager.heapStart = st.manager.heapStart ∧
      ((p = 0 ∧ Consistent st' l) ∨
      (∃ pre b post, l = pre ++ b :: post ∧ post ≠ [] ∧ b.isFree = true ∧ b.ptr ≤ p ∧
        p + atLeastOne byteCount ≤ b.stop ∧ p % atLeastOne alignment = 0 ∧
        Consistent st' (pre ++ b.take p :: post) ∧ st'.manager = st.manager) ∨
      (∃ b, b.addr = st.getHeapEnd ∧ b.ptr = p ∧ b.size = atLeastOne byteCount ∧
        b.isFree = false ∧ p % atLeastOne alignment = 0 ∧ Consistent st' (l ++ [b]) ∧
        (¬st.Misplaced byteCount alignment pages → ∀ a ∈ l.getLast?, a.stop = b.addr))) := by
  have hn : 1 ≤ atLeastOne byteCount := le_atLeastOne
  have hE : st.getHeapEnd ≠ 0 := by
    have hpos := hst.pos
    rw [hst.getHeapEnd_eq]
    omega
  obtain ⟨q, hseg⟩ := hst.rep
  by_cases hhead : st.head = 0
  · have hl : l = [] := hseg.eq_zero_iff.mp hhead
    subst hl
    obtain ⟨r, hr, hmod, hext⟩ := hst.extendHeap_spec pages hseg hpow hn
      (hroom.extend fun d hd => absurd hd List.not_mem_nil)
    have hq : q = 0 := hseg.2.symm
    subst hq
    rcases hext with ⟨-, st', hcode, hst', hstart, -⟩ | ⟨-, st', hcode, hmem, -, hstart, hst'⟩
    · exact ⟨0, st', kmalloc_of_extend_null hhead hcode, hstart, .inl ⟨rfl, hst'⟩⟩
    · have hrun := kmalloc_of_extend hhead hE hcode
      rw [hmem] at hrun
      refine ⟨r, _, hrun, hstart, .inr (.inr ⟨_, rfl, rfl, rfl, rfl, hmod, hst', ?_⟩)⟩
      rintro - _ ⟨⟩
  · have hl : l ≠ [] := fun h => hhead (hseg.eq_zero_iff.mpr h)
    rcases searchBlock_spec (atLeastOne byteCount) hpow hseg hl hst.length_lt with
      ⟨pre, b, post, s, rfl, hpost, hfirst, hfree, hs, hle, hsearch⟩ | ⟨hnone, hsearch⟩
    · have hup := hroom.reuse pre b post rfl hpost hfirst ⟨hfree, s, hs, hle⟩
      have hmem : b ∈ pre ++ b :: post := List.mem_append_right _ List.mem_cons_self
      obtain ⟨-, hb, hbend⟩ := hst.fits.of_mem hmem
      obtain ⟨h0, r', m, -, hbmem, -⟩ := rep_split.mp hst.rep
      have hptr : (st.mem b.addr).ptr = b.ptr := by rw [hbmem]; rfl
      have hbsize : (st.mem b.addr).size = b.size := by rw [hbmem]; rfl
      have hstop : b.stop = b.ptr + b.size := rfl
      have hend := hst.getHeapEnd_lt
      have hheader := hb.header
      have hpos : 0 < metaBlockSize := by decide
      have hs' := alignToNext_eq hpow (by omega : alignUp b.ptr (atLeastOne alignment) < 2 ^ 64)
        (by omega)
      rw [hs, Option.some.injEq] at hs'
      have hge : b.ptr ≤ s := hs' ▸ le_alignUp le_atLeastOne
      have hmods : s % atLeastOne alignment = 0 := hs' ▸ alignUp_mod
      rw [← hs'] at hup
      have hoffset : wsub s b.ptr = s - b.ptr := wsub_of_le hge (by omega)
      have htake := hst.replace (hb.take hge (by omega)) rfl
        (Block.take_stop (by omega)).le
      have htakesize : b.size - (s - b.ptr) = (b.take s).size := by
        change _ = b.stop - s
        omega
      have hrun := kmalloc_of_search pages hhead h0 hsearch
      rw [hptr, hbsize, hoffset, wadd_of_lt (by omega : b.ptr + (s - b.ptr) < 2 ^ 64),
        Nat.add_sub_cancel' hge, wsub_of_le (by omega) (by omega), htakesize] at hrun
      exact ⟨s, _, hrun, rfl, .inr (.inl ⟨pre, b, post, rfl, hpost, hfree, hge, by omega, hmods, htake,
        rfl⟩)⟩
    · obtain ⟨r, hr, hmod, hext⟩ := hst.extendHeap_spec pages hseg hpow hn (hroom.extend hnone)
      rcases hext with ⟨-, st', hcode, hst', hstart, -⟩ | ⟨hbrk, st', hcode, hmem, -, hstart, hst'⟩
      · exact ⟨0, st', kmalloc_of_search_null hhead hsearch hcode, hstart, .inl ⟨rfl, hst'⟩⟩
      · rw [if_neg hl] at hst'
        refine ⟨r, st', ?_, hstart, .inr (.inr ⟨_, rfl, rfl, rfl, rfl, hmod, hst', ?_⟩)⟩
        · rw [kmalloc_of_search_extend hhead hE hsearch hcode, hmem]
          rfl
        · intro hplaced a ha
          by_contra hne
          refine hplaced ⟨hhead, q, r, hsearch, hr, hbrk, ?_⟩
          obtain ⟨l, d, rfl⟩ := (List.eq_nil_or_concat l).resolve_left hl
          rw [List.concat_eq_append] at hseg hst ha
          rw [List.getLast?_concat, Option.mem_some_iff] at ha
          subst ha
          obtain ⟨-, r', m, -, hdmem, -⟩ := rep_split.mp hst.rep
          rw [hseg.last_eq, hdmem]
          change wadd d.ptr d.size ≠ st.getHeapEnd
          rwa [hst.wadd_ptr (by simp)]

end Consistent

end KernelHeap

end PiKachulm.Memory

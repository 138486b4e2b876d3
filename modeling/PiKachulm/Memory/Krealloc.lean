import PiKachulm.Memory.KernelHeapRoom

/-!
# `krealloc`

`krealloc` frees the block before it allocates one, and copies nothing. The contents survive just
when the allocation returns the pointer that was freed: the block is taken again, at the same
address, as no free block comes before it.
-/

namespace PiKachulm.Memory

open Libk Core

namespace KernelHeap

/-- `alignof(max_align_t)`. -/
def maxAlign : ℕ := 16

def krealloc (st : KernelHeap) (ptr newSize pages : ℕ) : Option (ℕ × KernelHeap) := do
  let st ← st.kfree ptr
  st.kmalloc newSize maxAlign pages

lemma maxAlign_isPowerOfTwo : isPowerOfTwo maxAlign = true := by decide

/-- What the headers of the list say. -/
def blocks (st : KernelHeap) : List Block :=
  st.metaList.map fun a => ⟨a, (st.mem a).ptr, (st.mem a).size, (st.mem a).isFree⟩

/-- A header of the list `as` still says that the allocation is in use. -/
def Live (st : KernelHeap) (as : List ℕ) (x : ℕ × ℕ) : Prop :=
  ∃ a ∈ as, (st.mem a).isFree = false ∧ (st.mem a).ptr = x.1 ∧ x.2 ≤ (st.mem a).size

/-- The bytes of the heap but for those of headers are the same after a call that leads from `st` to
`st'`. -/
def Kept (st st' : KernelHeap) (data data' : ℕ → UInt8) : Prop :=
  ∀ x, heapMemory ≤ x → x < st.getHeapEnd → x < st'.getHeapEnd →
    (∀ a ∈ st.metaList, x < a ∨ a + metaBlockSize ≤ x) → data' x = data x

/-- A pointer that is returned has the bytes of the old one, and the other allocations are not
changed; when null is returned, the old pointer is live. -/
def Preserves (st : KernelHeap) (live : List (ℕ × ℕ)) (p old newSize pages : ℕ) : Prop :=
  ∃ q st', st.krealloc p newSize pages = some (q, st') ∧
    (q ≠ 0 → ∀ data data', Kept st st' data data' →
      (∀ i < min old newSize, data' (q + i) = data (p + i)) ∧
      ∀ x ∈ live, x.1 ≠ p →
        st'.Live st.metaList x ∧ ∀ i < x.2, data' (x.1 + i) = data (x.1 + i)) ∧
    (q = 0 → st'.Live st.metaList (p, old))

/-- The block of `p` is the one that the allocation finds, and its bytes stay where they are: the
block before it is in use, no block before it suits the request, it is not the last one, and once
it is freed, it is large enough when its pointer is aligned, which gives `p`. -/
def InPlace (st : KernelHeap) (p newSize : ℕ) : Prop :=
  ∃ pre b post c post', st.blocks = pre ++ b :: post ∧ b.ptr = p ∧
    joinNext metaBlockSize (b.release metaBlockSize) post = c :: post' ∧
    (∀ a ∈ pre.getLast?, a.isFree = false) ∧
    (∀ d ∈ pre, ¬Suitable (atLeastOne newSize) maxAlign d) ∧ post' ≠ [] ∧
    alignToNext c.ptr maxAlign = some p ∧ wadd (atLeastOne newSize) (wsub p c.ptr) ≤ c.size

/-- Once the block of `p` is freed, a block that is not the last suits the request, or the heap can
be extended. -/
def Served (st : KernelHeap) (p newSize pages : ℕ) : Prop :=
  ∃ pre b post, st.blocks = pre ++ b :: post ∧ b.ptr = p ∧
    ((∃ d ∈ (freed metaBlockSize pre b post).dropLast,
        Suitable (atLeastOne newSize) maxAlign d) ∨
      alignUp (st.getHeapEnd + metaBlockSize) maxAlign + atLeastOne newSize < 2 ^ 64 ∧
      (st.manager.changeHeapEnd pages (alignUp (st.getHeapEnd + metaBlockSize) maxAlign -
        st.getHeapEnd + atLeastOne newSize)).1 ≠ 0)

variable {st st' st₁ : KernelHeap} {live : List (ℕ × ℕ)} {l pre post : List Block} {b d : Block}
  {byteCount newSize alignment pages p q r old : ℕ}

/-! ### What one allocation does -/

/-- The pointer, size and flag of a header, the links left aside. -/
def Describes (st : KernelHeap) (b : Block) : Prop :=
  (st.mem b.addr).ptr = b.ptr ∧ (st.mem b.addr).size = b.size ∧ (st.mem b.addr).isFree = b.isFree

lemma Consistent.describes (hst : Consistent st l) (hb : b ∈ l) : st.Describes b := by
  obtain ⟨p, n, hmem⟩ := hst.mem_eq hb
  rw [Describes, hmem]
  exact ⟨rfl, rfl, rfl⟩

lemma Describes.append {block last size ptr : ℕ} (hb : st.Describes b) (hne : b.addr ≠ block) :
    (st.append block last size ptr).Describes b := by
  rw [Describes, append_mem]
  dsimp only
  split_ifs
  · by_cases hlast : b.addr = last
    · rw [hlast, Function.update_self, Function.update_of_ne (hlast ▸ hne), ← hlast]
      exact hb
    · rw [Function.update_of_ne hlast, Function.update_of_ne hne]
      exact hb
  · rw [Function.update_of_ne hne]
    exact hb

/-- The allocation takes the first suitable block that is not the last, at its aligned pointer. -/
def Takes (l : List Block) (n alignment q : ℕ) : Prop :=
  ∃ pre d post, l = pre ++ d :: post ∧ post ≠ [] ∧ (∀ e ∈ pre, ¬Suitable n alignment e) ∧
    Suitable n alignment d ∧ alignToNext d.ptr alignment = some q

/-- The allocation extends the heap, as no block but the last is suitable. -/
def Extends (st st' : KernelHeap) (l : List Block) (n alignment pages q : ℕ) : Prop :=
  (∀ d ∈ l.dropLast, ¬Suitable n alignment d) ∧
  ∃ r, alignToNext (wadd st.getHeapEnd metaBlockSize) alignment = some r ∧
    st'.manager = (st.manager.changeHeapEnd pages (wadd (wsub r st.getHeapEnd) n)).2 ∧
    q = if (st.manager.changeHeapEnd pages (wadd (wsub r st.getHeapEnd) n)).1 = 0 then 0 else r

/-- What an allocation does, whether its sums wrap or not: the headers in use keep what they say, and
no header but that of the block that is taken, or is new, changes its flag. -/
lemma Consistent.kmalloc_cases (hst : Consistent st l) (hl : l ≠ [])
    (hpow : isPowerOfTwo (atLeastOne alignment) = true) (byteCount pages : ℕ) :
    ∃ q st', st.kmalloc byteCount alignment pages = some (q, st') ∧ (∀ b ∈ used l, st'.Describes b) ∧
      (Takes l (atLeastOne byteCount) (atLeastOne alignment) q ∧ st'.manager = st.manager ∨
        st.Extends st' l (atLeastOne byteCount) (atLeastOne alignment) pages q ∧
          ∀ a ≠ st.getHeapEnd, (st'.mem a).isFree = (st.mem a).isFree) := by
  obtain ⟨last, hseg⟩ := hst.rep
  have hhead : st.head ≠ 0 := fun h => hl (hseg.eq_zero_iff.mp h)
  have hdescribes : ∀ b ∈ used l, st.Describes b := fun b hb => hst.describes (Core.mem_used.mp hb).1
  rcases searchBlock_spec (atLeastOne byteCount) hpow hseg hl hst.length_lt with
    ⟨pre, d, post, r, rfl, hpost, hfirst, hfree, hr, hle, hsearch⟩ | ⟨hnone, hsearch⟩
  · have hd : d ∈ pre ++ d :: post := List.mem_append_right _ List.mem_cons_self
    obtain ⟨h0, -⟩ := rep_split.mp hst.rep
    have hstop := hst.stop_lt hd
    rw [Block.stop] at hstop
    have hq : wadd (st.mem d.addr).ptr (wsub r d.ptr) = r := by
      rw [(hst.describes hd).1]
      exact wadd_wsub (by omega) (alignToNext_lt hr)
    have hrun := kmalloc_of_search pages hhead h0 hsearch
    rw [hq] at hrun
    refine ⟨r, _, hrun, fun b hb => ?_,
      .inl ⟨⟨pre, d, post, rfl, hpost, hfirst, ⟨hfree, r, hr, hle⟩, hr⟩, rfl⟩⟩
    -- the block that is taken was free
    have hne : b.addr ≠ d.addr := by
      obtain ⟨hbl, hbfree⟩ := Core.mem_used.mp hb
      have hbd : b ≠ d := by
        rintro rfl
        rw [hfree] at hbfree
        cases hbfree
      have hdisjoint := hst.fits.disjoint hbl hd hbd
      have hblt := (hst.fits.of_mem hbl).2.1.addr_lt
      have hdlt := (hst.fits.of_mem hd).2.1.addr_lt
      omega
    rw [Describes, set]
    dsimp only
    rw [Function.update_of_ne hne]
    exact hdescribes b hb
  · obtain ⟨r, hr⟩ := alignToNext_eq_some (wadd st.getHeapEnd metaBlockSize) hpow
    have hE0 : st.getHeapEnd ≠ 0 := by
      have hpos := hst.pos
      rw [hst.getHeapEnd_eq]
      omega
    have hbefore : ∀ b ∈ used l, b.addr ≠ st.getHeapEnd := by
      intro b hb
      obtain ⟨-, hbwf, hend⟩ := hst.fits.of_mem (Core.mem_used.mp hb).1
      exact Nat.ne_of_lt ((Nat.le_add_right _ _).trans_lt (hbwf.addr_lt.trans_le hend))
    generalize hoffset : wadd (wsub r st.getHeapEnd) (atLeastOne byteCount) = offset
    have hcode : st.extendHeap last (atLeastOne byteCount) (atLeastOne alignment) pages =
        if (st.manager.changeHeapEnd pages offset).1 = 0 then
          some (0, { st with manager := (st.manager.changeHeapEnd pages offset).2 })
        else some (st.getHeapEnd, { st with manager := (st.manager.changeHeapEnd pages offset).2 }.append
          st.getHeapEnd last (atLeastOne byteCount) r) := by
      rw [extendHeap, hr, Option.bind_eq_bind, Option.bind_some, hoffset]
      rfl
    by_cases hbrk : (st.manager.changeHeapEnd pages offset).1 = 0
    · rw [if_pos hbrk] at hcode
      refine ⟨0, _, kmalloc_of_search_null hhead hsearch hcode, hdescribes,
        .inr ⟨⟨hnone, r, hr, by rw [hoffset], ?_⟩, fun a _ => rfl⟩⟩
      rw [hoffset, if_pos hbrk]
    · rw [if_neg hbrk] at hcode
      have hrun := kmalloc_of_search_extend hhead hE0 hsearch hcode
      have hne : st.getHeapEnd ≠ last := by
        obtain ⟨l, d, rfl⟩ := (List.eq_nil_or_concat l).resolve_left hl
        rw [List.concat_eq_append] at hseg hst
        rw [hseg.last_eq]
        obtain ⟨-, hdwf, hend⟩ := hst.fits.of_mem (b := d) (by simp)
        have hlt := hdwf.addr_lt
        omega
      rw [append_mem_self hne] at hrun
      refine ⟨r, _, hrun, fun b hb => ?_,
        .inr ⟨⟨hnone, r, hr, ?_, ?_⟩, fun a ha => append_mem_isFree ha⟩⟩
      · exact Describes.append (hdescribes b hb) (hbefore b hb)
      · rw [append_manager, hoffset]
      · rw [hoffset, if_neg hbrk]

lemma Takes.eq {l : List Block} {n : ℕ} (h : Takes l n alignment q) (h' : Takes l n alignment r) :
    q = r := by
  classical
  have hfind : ∀ {x}, Takes l n alignment x → ∃ d, l.find? (fun d => Suitable n alignment d) =
      some d ∧ alignToNext d.ptr alignment = some x := by
    rintro x ⟨pre, d, post, hl, -, hfirst, hsuit, hx⟩
    refine ⟨d, List.find?_eq_some_iff_append.mpr ⟨decide_eq_true hsuit, pre, post, hl, ?_⟩, hx⟩
    intro e he
    rw [decide_eq_false (hfirst e he)]
    rfl
  obtain ⟨d, hd, hq⟩ := hfind h
  obtain ⟨e, he, hr⟩ := hfind h'
  rw [hd, Option.some.injEq] at he
  rw [he, hr, Option.some.injEq] at hq
  exact hq.symm

lemma Takes.exists_suitable {l : List Block} {n : ℕ} (h : Takes l n alignment q) :
    ∃ d ∈ l.dropLast, Suitable n alignment d := by
  obtain ⟨pre, d, post, rfl, hpost, -, hsuit, -⟩ := h
  refine ⟨d, ?_, hsuit⟩
  rw [List.dropLast_append_of_ne_nil (List.cons_ne_nil _ _), List.dropLast_cons_of_ne_nil hpost]
  exact List.mem_append_right _ List.mem_cons_self

/-! ### Flags of headers -/

lemma set_mem_isFree {x : MetaBlock} (a c : ℕ) (h : x.isFree = (st.mem a).isFree) :
    ((st.set a x).mem c).isFree = (st.mem c).isFree := by
  rw [set]
  dsimp only
  by_cases hc : c = a
  · rw [hc, Function.update_self, h]
  · rw [Function.update_of_ne hc]

lemma mergeBlock_isFree {lhs rhs : ℕ} (h : st.mergeBlock lhs rhs = some st') (a : ℕ) :
    (st'.mem a).isFree = (st.mem a).isFree := by
  rw [mergeBlock] at h
  split_ifs at h with hguard
  rw [Option.some.injEq] at h
  subst h
  dsimp only
  split_ifs
  · refine (set_mem_isFree _ _ ?_).trans (set_mem_isFree _ _ ?_) <;> rfl
  · exact set_mem_isFree _ _ (by rfl)

lemma mergeNext_isFree {block : ℕ} (h : st.mergeNext block = some st') (a : ℕ) :
    (st'.mem a).isFree = (st.mem a).isFree := by
  rw [KernelHeap.mergeNext] at h
  split_ifs at h
  · exact mergeBlock_isFree h a
  · cases h
    rfl

lemma mergePrevious_isFree {block : ℕ} (h : st.mergePrevious block = some st') (a : ℕ) :
    (st'.mem a).isFree = (st.mem a).isFree := by
  rw [KernelHeap.mergePrevious] at h
  dsimp only at h
  split_ifs at h
  · rw [Option.bind_eq_bind, Option.bind_eq_some_iff] at h
    obtain ⟨other, -, h⟩ := h
    split_ifs at h
    · exact (mergeBlock_isFree h a).trans (set_mem_isFree _ _ (by rfl))
    · cases h
      rfl
  · exact mergeBlock_isFree h a
  · cases h
    rfl

/-- Only the flag of the block that is freed changes. -/
lemma Consistent.kfree_isFree (hst : Consistent st (pre ++ b :: post)) (h : st.kfree b.ptr = some st')
    (a : ℕ) : (st'.mem a).isFree = if a = b.addr then true else (st.mem a).isFree := by
  obtain ⟨-, hb, -⟩ := hst.fits.of_mem (b := b) (by simp)
  have hne : b.ptr ≠ 0 := by
    have hheader := hb.header
    have hpos : 0 < metaBlockSize := by decide
    omega
  rw [kfree, if_neg hne, hst.isAddrValid_eq, Option.bind_eq_bind, Option.bind_some, if_pos rfl,
    hst.getBlockAddr_eq, Option.bind_eq_bind, Option.bind_some, Option.bind_eq_bind,
    Option.bind_eq_some_iff] at h
  obtain ⟨st₁, hnext, hprevious⟩ := h
  rw [mergePrevious_isFree hprevious, mergeNext_isFree hnext, markFree, set]
  dsimp only
  split_ifs with ha
  · rw [ha, Function.update_self]
  · rw [Function.update_of_ne ha]

/-! ### Where the new block is -/

/-- A block of the list once `b` is freed was behind it, or is `b` with nothing free before it, or
starts where a block before `b` did. -/
lemma mem_freed {h : ℕ} (hd : d ∈ freed h pre b post) : d ∈ post ∨
    (d.addr = b.addr ∧ d.ptr = b.addr + h ∧ ∀ a ∈ pre.getLast?, a.isFree = false) ∨
      ∃ a ∈ pre, d.ptr = a.ptr := by
  obtain ⟨c, post', hjoin, haddr, hptr, -, hpost'⟩ := exists_joinNext h (b.release h) post
  rw [freed, hjoin] at hd
  by_cases hlast : ∀ a ∈ pre.getLast?, a.isFree = false
  · rw [joinPrevious_of_used hlast, List.mem_append, List.mem_cons] at hd
    rcases hd with hd | rfl | hd
    · exact .inr (.inr ⟨d, hd, rfl⟩)
    · exact .inr (.inl ⟨haddr, hptr, hlast⟩)
    · exact .inl (hpost' hd)
  · push Not at hlast
    obtain ⟨a, ha, hfree⟩ := hlast
    obtain ⟨pre, rfl⟩ := List.getLast?_eq_some_iff.mp ha
    rw [joinPrevious_concat (Bool.eq_true_of_not_eq_false hfree), List.mem_append, List.mem_cons] at hd
    rcases hd with hd | rfl | hd
    · exact .inr (.inr ⟨d, List.mem_append_left _ hd, rfl⟩)
    · exact .inr (.inr ⟨a, List.mem_append_right _ List.mem_cons_self, rfl⟩)
    · exact .inl (hpost' hd)

/-- The aligned pointer of a block that is not the last. -/
lemma Consistent.aligned (hst : Consistent st (pre ++ d :: post)) (hpost : post ≠ [])
    (hr : alignToNext d.ptr maxAlign = some r) : d.ptr ≤ r ∧ r < d.ptr + maxAlign := by
  obtain ⟨e, he⟩ := List.exists_mem_of_ne_nil post hpost
  have hle : d.stop ≤ e.addr :=
    List.rel_of_pairwise_cons (List.pairwise_append.mp hst.fits.pairwise).2.1 he
  obtain ⟨-, hewf, hend⟩ := hst.fits.of_mem (b := e) (by simp [he])
  have hlt := hewf.addr_lt
  have hend' := hst.getHeapEnd_lt
  have hmeta : metaBlockSize = 33 := rfl
  have halign : maxAlign = 16 := rfl
  rw [Block.stop] at hle
  obtain ⟨r', hr', hge, hlt', -⟩ := alignToNext_spec d.ptr maxAlign_isPowerOfTwo (by omega)
  rw [hr, Option.some.injEq] at hr'
  exact hr' ▸ ⟨hge, hlt'⟩

/-- The freed block is taken again at the same pointer just when it is in place. -/
lemma Consistent.takes_iff {n : ℕ} {st₁ : KernelHeap} (hst : Consistent st (pre ++ b :: post))
    (hst₁ : Consistent st₁ (freed metaBlockSize pre b post)) :
    Takes (freed metaBlockSize pre b post) n maxAlign b.ptr ↔ ∃ c post',
      joinNext metaBlockSize (b.release metaBlockSize) post = c :: post' ∧
      (∀ a ∈ pre.getLast?, a.isFree = false) ∧ (∀ d ∈ pre, ¬Suitable n maxAlign d) ∧ post' ≠ [] ∧
      alignToNext c.ptr maxAlign = some b.ptr ∧ wadd n (wsub b.ptr c.ptr) ≤ c.size := by
  obtain ⟨c, post', hjoin, haddr, hptr, hfree, hpost'⟩ :=
    exists_joinNext metaBlockSize (b.release metaBlockSize) post
  constructor
  · rintro ⟨pre₁, d, post₁, hl, hne, hfirst, ⟨-, r, hr, hle⟩, hq⟩
    rw [hq, Option.some.injEq] at hr
    subst hr
    have hb := (hst.fits.of_mem (b := b) (by simp)).2.1
    have hheader := hb.header
    have hmeta : metaBlockSize = 33 := rfl
    have halign : maxAlign = 16 := rfl
    have hst₁' := hst₁
    rw [hl] at hst₁'
    obtain ⟨hge, hlt⟩ := hst₁'.aligned hne hq
    have hpairwise := List.pairwise_append.mp hst.fits.pairwise
    rcases mem_freed (d := d) (by rw [hl]; simp) with hd | ⟨hdaddr, -, hlast⟩ | ⟨a, ha, hdptr⟩
    · -- behind `b`
      have hle' : b.stop ≤ d.addr := List.rel_of_pairwise_cons hpairwise.2.1 hd
      have hdheader := (hst.fits.of_mem (b := d) (by simp [hd])).2.1.header
      rw [Block.stop] at hle'
      omega
    · refine ⟨c, post', hjoin, hlast, ?_⟩
      rw [freed, hjoin, joinPrevious_of_used hlast] at hl hst₁
      obtain ⟨hne₁, hne₂, -⟩ := distinct_split hst₁.distinct
      have hcd : d = c := by
        have hmem : d ∈ pre ++ c :: post' := by rw [hl]; simp
        rcases List.mem_append.mp hmem with hd | hd
        · exact absurd (hdaddr.trans haddr.symm) (hne₁ d hd)
        · rcases List.mem_cons.mp hd with hd | hd
          · exact hd
          · exact absurd (hdaddr.trans haddr.symm) (hne₂ d hd)
      subst hcd
      obtain ⟨rfl, -, rfl⟩ := (List.append_cons_inj_of_notMem (fun h => hne₁ d h rfl)
        (fun h => hne₂ d h rfl)).mp hl
      exact ⟨hfirst, hne, hq, hle⟩
    · -- before `b`
      have hle' : a.stop ≤ b.addr := hpairwise.2.2 a ha b List.mem_cons_self
      have hasize := (hst.fits.of_mem (b := a) (by simp [ha])).2.1.size
      rw [Block.stop] at hle'
      omega
  · rintro ⟨c', post'', hjoin', hlast, hfirst, hne, hq, hle⟩
    rw [hjoin, List.cons.injEq] at hjoin'
    obtain ⟨rfl, rfl⟩ := hjoin'
    refine ⟨pre, c, post', ?_, hne, hfirst, ⟨hfree, b.ptr, hq, hle⟩, hq⟩
    rw [freed, hjoin, joinPrevious_of_used hlast]

/-- An extension returns null or a pointer outside of the heap as it was. -/
lemma Extends.ne {n : ℕ} (h : st.Extends st' l n maxAlign pages q) (hst : st.getHeapEnd < 2 ^ 64)
    (hp : heapMemory ≤ p) (hlt : p < st.getHeapEnd) : q ≠ p := by
  obtain ⟨-, r, hr, -, rfl⟩ := h
  have hmeta : metaBlockSize = 33 := rfl
  have halign : maxAlign = 16 := rfl
  have hmemory : heapMemory = 0xFFFF500000000000 := rfl
  split_ifs
  · omega
  · by_cases hwrap : st.getHeapEnd + metaBlockSize + maxAlign ≤ 2 ^ 64
    · rw [wadd_of_lt (by omega)] at hr
      obtain ⟨r', hr', hge, -⟩ := alignToNext_spec
        (st.getHeapEnd + metaBlockSize) maxAlign_isPowerOfTwo hwrap
      rw [hr, Option.some.injEq] at hr'
      omega
    · have hle := alignToNext_le hr
      rw [wadd, wadd] at hle
      omega

/-! ### Freeing, then allocating -/

lemma Consistent.blocks_eq (hst : Consistent st l) : st.blocks = l := by
  rw [blocks, hst.metaList_eq, List.map_map]
  conv_rhs => rw [← List.map_id l]
  refine List.map_congr_left fun b hb => ?_
  obtain ⟨hptr, hsize, hfree⟩ := hst.describes hb
  simp only [Function.comp_apply, hptr, hsize, hfree]
  rfl

/-- The pointer decides which block it is. -/
lemma Consistent.split_unique {pre' post' : List Block} {b' : Block}
    (hst : Consistent st (pre ++ b :: post)) (hl : pre ++ b :: post = pre' ++ b' :: post')
    (hptr : b'.ptr = b.ptr) : pre' = pre ∧ b' = b ∧ post' = post := by
  have hb' : b' ∈ pre ++ b :: post := by rw [hl]; simp
  have hbb : b' = b := by
    by_contra hne
    exact hst.fits.ptr_ne hb' (by simp) hne hptr
  subst hbb
  obtain ⟨hne₁, hne₂, -⟩ := distinct_split hst.distinct
  obtain ⟨h₁, h₂, h₃⟩ := (List.append_cons_inj_of_notMem (fun h => hne₁ _ h rfl)
    (fun h => hne₂ _ h rfl)).mp hl
  exact ⟨h₁.symm, h₂, h₃.symm⟩

lemma Extends.congr {n : ℕ} (h : st₁.Extends st' l n alignment pages q)
    (hmanager : st₁.manager = st.manager) : st.Extends st' l n alignment pages q := by
  rw [Extends, getHeapEnd, hmanager] at h
  exact h

/-- What `krealloc` does to the block `b`. -/
lemma Inv.krealloc_cases (hinv : Inv st live (pre ++ b :: post)) (newSize pages : ℕ) :
    ∃ q st', st.krealloc b.ptr newSize pages = some (q, st') ∧
      (∀ d ∈ used pre ++ used post, st'.Describes d) ∧
      (Takes (freed metaBlockSize pre b post) (atLeastOne newSize) maxAlign q ∧
          st'.manager = st.manager ∨
        st.Extends st' (freed metaBlockSize pre b post) (atLeastOne newSize) maxAlign pages q ∧
          ∀ a ∈ st.metaList,
            (st'.mem a).isFree = if a = b.addr then true else (st.mem a).isFree) ∧
      (q = b.ptr ↔ Takes (freed metaBlockSize pre b post) (atLeastOne newSize) maxAlign b.ptr) ∧
      ∃ st₁, Consistent st₁ (freed metaBlockSize pre b post) := by
  have hst := hinv.consistent
  obtain ⟨st₁, l₁, hfree, hmanager, rfl, hst₁, -, hused, -, f, hf, -⟩ := hst.kfree_spec hinv.coalesced
  obtain ⟨q, st', hrun, hdescribes, hcases⟩ := hst₁.kmalloc_cases (List.ne_nil_of_mem hf)
    (by decide : isPowerOfTwo (atLeastOne maxAlign) = true) newSize pages
  have hend : st₁.getHeapEnd = st.getHeapEnd := by rw [getHeapEnd, hmanager, getHeapEnd]
  have halign : atLeastOne maxAlign = maxAlign := rfl
  rw [halign] at hcases
  refine ⟨q, st', ?_, hused ▸ hdescribes, hcases.imp (fun h => ⟨h.1, h.2.trans hmanager⟩) (fun h => ?_),
    ?_, st₁, hst₁⟩
  · rw [krealloc, hfree]
    exact hrun
  · refine ⟨h.1.congr hmanager, fun a ha => ?_⟩
    have hne : a ≠ st₁.getHeapEnd := by
      rw [hst.metaList_eq, List.mem_map] at ha
      obtain ⟨d, hd, rfl⟩ := ha
      obtain ⟨-, hdwf, hdend⟩ := hst.fits.of_mem hd
      rw [hend]
      exact Nat.ne_of_lt ((Nat.le_add_right _ _).trans_lt (hdwf.addr_lt.trans_le hdend))
    rw [h.2 a hne, hst.kfree_isFree hfree]
  · obtain ⟨hstart, hbwf, hbend⟩ := hst.fits.of_mem (b := b) (by simp)
    have hheader := hbwf.header
    have hsize := hbwf.size
    rw [Block.stop] at hbend
    rcases hcases with ⟨htakes, -⟩ | ⟨hextends, -⟩
    · exact ⟨fun h => h ▸ htakes, fun h => htakes.eq h⟩
    · refine iff_of_false ((hextends.congr hmanager).ne hst.getHeapEnd_lt ?_ (by omega)) fun h => ?_
      · rw [← hinv.start]
        omega
      · obtain ⟨d, hd, hsuit⟩ := h.exists_suitable
        exact hextends.1 d hd hsuit

lemma Consistent.inPlace_iff (hst : Consistent st (pre ++ b :: post))
    (hst₁ : Consistent st₁ (freed metaBlockSize pre b post)) : st.InPlace b.ptr newSize ↔
      Takes (freed metaBlockSize pre b post) (atLeastOne newSize) maxAlign b.ptr := by
  rw [hst.takes_iff hst₁, InPlace, hst.blocks_eq]
  constructor
  · rintro ⟨pre', b', post', c, post₁, hl, hptr, h⟩
    obtain ⟨rfl, rfl, rfl⟩ := hst.split_unique hl hptr
    exact ⟨c, post₁, h⟩
  · rintro ⟨c, post₁, h⟩
    exact ⟨pre, b, post, c, post₁, rfl, rfl, h⟩

/-! ### What is preserved -/

/-- The bytes of a block are in the heap and outside of headers. -/
lemma Inv.outside (hinv : Inv st live l) (hb : b ∈ l) {x : ℕ} (hle : b.ptr ≤ x) (hlt : x < b.stop) :
    heapMemory ≤ x ∧ x < st.getHeapEnd ∧ ∀ a ∈ st.metaList, x < a ∨ a + metaBlockSize ≤ x := by
  obtain ⟨hstart, hbwf, hend⟩ := hinv.consistent.fits.of_mem hb
  have hheader := hbwf.header
  rw [hinv.start] at hstart
  refine ⟨by omega, by omega, fun a ha => ?_⟩
  rw [hinv.consistent.metaList_eq, List.mem_map] at ha
  obtain ⟨d, hd, rfl⟩ := ha
  by_cases hbd : b = d
  · exact .inr (hbd ▸ hheader.trans hle)
  · have hdlt := (hinv.consistent.fits.of_mem hd).2.1.addr_lt
    rcases hinv.consistent.fits.disjoint hb hd hbd with h | h
    · exact .inl (hlt.trans_le h)
    · exact .inr (by omega)

/-- The other allocations keep their headers and their bytes. -/
lemma Inv.others (hinv : Inv st live (pre ++ b :: post))
    (hdescribes : ∀ d ∈ used pre ++ used post, st'.Describes d) (hend : st.getHeapEnd ≤ st'.getHeapEnd)
    {data data' : ℕ → UInt8} (hkept : Kept st st' data data') {x : ℕ × ℕ} (hx : x ∈ live)
    (hne : x.1 ≠ b.ptr) :
    st'.Live st.metaList x ∧ ∀ i < x.2, data' (x.1 + i) = data (x.1 + i) := by
  obtain ⟨d, hd, hfree, hptr, hsize⟩ := hinv.mem_used hx
  constructor
  · have hused : d ∈ used pre ++ used post := by
      rw [List.mem_append, List.mem_cons] at hd
      rw [List.mem_append, Core.mem_used, Core.mem_used]
      rcases hd with hd | rfl | hd
      · exact .inl ⟨hd, hfree⟩
      · exact absurd hptr.symm hne
      · exact .inr ⟨hd, hfree⟩
    obtain ⟨h₁, h₂, h₃⟩ := hdescribes d hused
    refine ⟨d.addr, ?_, h₃.trans hfree, h₁.trans hptr, h₂ ▸ hsize⟩
    rw [hinv.consistent.metaList_eq]
    exact List.mem_map_of_mem hd
  · intro i hi
    obtain ⟨h₁, h₂, h₃⟩ := hinv.outside hd (x := x.1 + i) (by omega) (by rw [Block.stop]; omega)
    exact hkept _ h₁ h₂ (h₂.trans_le hend) h₃

lemma Inv.preserves_of_eq (hinv : Inv st live (pre ++ b :: post)) (hold : old ≤ b.size)
    (hin : st.InPlace b.ptr newSize) (pages : ℕ) :
    st.Preserves live b.ptr old newSize pages := by
  obtain ⟨q, st', hrun, hdescribes, hcases, hq, st₁, hst₁⟩ := hinv.krealloc_cases newSize pages
  have htakes := (hinv.consistent.inPlace_iff hst₁).mp hin
  obtain rfl : q = b.ptr := hq.mpr htakes
  have hb : b ∈ pre ++ b :: post := List.mem_append_right _ List.mem_cons_self
  have hend : st.getHeapEnd ≤ st'.getHeapEnd := by
    rcases hcases with ⟨-, hmanager⟩ | ⟨hextends, -⟩
    · rw [getHeapEnd, getHeapEnd, hmanager]
    · obtain ⟨d, hd, hsuit⟩ := htakes.exists_suitable
      exact absurd hsuit (hextends.1 d hd)
  refine ⟨b.ptr, st', hrun, fun _ data data' hkept => ⟨fun i hi => ?_, fun x hx hne => ?_⟩, fun h => ?_⟩
  · have hi' : i < old := hi.trans_le (min_le_left _ _)
    obtain ⟨h₁, h₂, h₃⟩ := hinv.outside hb (x := b.ptr + i) (by omega) (by rw [Block.stop]; omega)
    exact hkept _ h₁ h₂ (h₂.trans_le hend) h₃
  · exact hinv.others hdescribes hend hkept hx hne
  · have hheader := (hinv.consistent.fits.of_mem hb).2.1.header
    have hmeta : metaBlockSize = 33 := rfl
    omega

/-- Bytes are kept only at the pointer where they were, as nothing copies them. -/
lemma eq_of_preserves (hrun : st.krealloc p newSize pages = some (q, st')) (h0 : q ≠ 0)
    (hpos : 0 < min old newSize) (h : st.Preserves live p old newSize pages) : q = p := by
  obtain ⟨q', st'', hrun', hbytes, -⟩ := h
  rw [hrun, Option.some.injEq, Prod.mk.injEq] at hrun'
  obtain ⟨rfl, rfl⟩ := hrun'
  by_contra hne
  -- contents that tell the two pointers apart
  let data : ℕ → UInt8 := fun x => if x = p then 1 else 0
  have hdata := (hbytes h0 data data fun _ _ _ _ _ => rfl).1 0 hpos
  simp only [data, Nat.add_zero, if_neg hne, if_true] at hdata
  exact absurd hdata (by decide)

/-- When there are bytes to keep, they are kept only in place. -/
lemma Inv.inPlace_of_preserves (hinv : Inv st live (pre ++ b :: post)) (hpos : 0 < min old newSize)
    (h : st.Preserves live b.ptr old newSize pages) : st.InPlace b.ptr newSize := by
  have hst := hinv.consistent
  obtain ⟨q, st', hrun, hdescribes, hcases, hq, st₁, hst₁⟩ := hinv.krealloc_cases newSize pages
  rw [hst.inPlace_iff hst₁, ← hq]
  obtain ⟨q', st'', hrun', hbytes, hnull⟩ := h
  rw [hrun, Option.some.injEq, Prod.mk.injEq] at hrun'
  obtain ⟨rfl, rfl⟩ := hrun'
  have hb : b ∈ pre ++ b :: post := List.mem_append_right _ List.mem_cons_self
  by_cases h0 : q = 0
  · -- the block is free, and no other has its pointer
    exfalso
    obtain ⟨a, ha, hfree, hptr, -⟩ := hnull h0
    rcases hcases with ⟨⟨pre₁, d, post₁, hl, hne, -, -, hr⟩, -⟩ | ⟨-, hflags⟩
    · rw [hl] at hst₁
      have hge := (hst₁.aligned hne hr).1
      have hheader := (hst₁.fits.of_mem (b := d) (by simp)).2.1.header
      have hmeta : metaBlockSize = 33 := rfl
      omega
    · have hflag := hflags a ha
      rw [hst.metaList_eq, List.mem_map] at ha
      obtain ⟨d, hd, rfl⟩ := ha
      rw [hfree] at hflag
      split_ifs at hflag with haddr
      rw [hst.mem_isFree hd] at hflag
      have hdb : d ≠ b := fun h => haddr (h ▸ rfl)
      have hused : d ∈ used pre ++ used post := by
        rw [List.mem_append, List.mem_cons] at hd
        rw [List.mem_append, Core.mem_used, Core.mem_used]
        rcases hd with hd | hd | hd
        · exact .inl ⟨hd, hflag.symm⟩
        · exact absurd hd hdb
        · exact .inr ⟨hd, hflag.symm⟩
      exact hst.fits.ptr_ne hd hb hdb ((hdescribes d hused).1.symm.trans hptr)
  · exact eq_of_preserves hrun h0 hpos ⟨q, st', hrun, hbytes, hnull⟩

/-- With nothing to keep, it is enough that the request is served. -/
lemma Inv.preserves_of_served (hinv : Inv st live (pre ++ b :: post)) (hzero : min old newSize = 0)
    (hserved : st.Served b.ptr newSize pages) : st.Preserves live b.ptr old newSize pages := by
  have hst := hinv.consistent
  obtain ⟨q, st', hrun, hdescribes, hcases, -, st₁, hst₁⟩ := hinv.krealloc_cases newSize pages
  have hmeta : metaBlockSize = 33 := rfl
  have hserve : q ≠ 0 ∧ st.getHeapEnd ≤ st'.getHeapEnd := by
    rcases hcases with ⟨⟨pre₁, d, post₁, hl, hne, -, -, hr⟩, hmanager⟩ | ⟨hextends, -⟩
    · rw [hl] at hst₁
      have hge := (hst₁.aligned hne hr).1
      have hheader := (hst₁.fits.of_mem (b := d) (by simp)).2.1.header
      refine ⟨by omega, ?_⟩
      rw [getHeapEnd, getHeapEnd, hmanager]
    · obtain ⟨hnone, r, hr, hmanager, hq⟩ := hextends
      obtain ⟨pre', b', post', hl, hptr, hserved⟩ := hserved
      rw [hst.blocks_eq] at hl
      obtain ⟨rfl, rfl, rfl⟩ := hst.split_unique hl hptr
      rcases hserved with ⟨d, hd, hsuit⟩ | ⟨hfits, hbrk⟩
      · exact absurd hsuit (hnone d hd)
      · have hE := hst.getHeapEnd_eq
        have hup : st.getHeapEnd + metaBlockSize ≤ alignUp (st.getHeapEnd + metaBlockSize) maxAlign :=
          le_alignUp (by decide)
        rw [wadd_of_lt (by omega), alignToNext_eq maxAlign_isPowerOfTwo (by omega) (by omega),
          Option.some.injEq] at hr
        subst hr
        have hoffset : wadd (wsub (alignUp (st.getHeapEnd + metaBlockSize) maxAlign) st.getHeapEnd)
            (atLeastOne newSize) = alignUp (st.getHeapEnd + metaBlockSize) maxAlign - st.getHeapEnd +
              atLeastOne newSize := by
          rw [wsub_of_le (by omega) (by omega), wadd_of_lt (by omega)]
        rw [hoffset] at hq hmanager
        rw [if_neg hbrk] at hq
        have hend : st'.getHeapEnd = st.manager.heapStart + (st.manager.heapByteSize +
            (alignUp (st.getHeapEnd + metaBlockSize) maxAlign - st.getHeapEnd +
              atLeastOne newSize)) := by
          rw [getHeapEnd, hmanager, HeapManager.getHeapEnd_changeHeapEnd,
            wadd_of_lt (a := st.manager.heapByteSize) (by omega), wadd_of_lt (by omega)]
        exact ⟨by omega, by omega⟩
  refine ⟨q, st', hrun, fun _ data data' hkept => ⟨fun i hi => ?_, fun x hx hne => ?_⟩,
    fun h => absurd h hserve.1⟩
  · rw [hzero] at hi
    exact absurd hi (Nat.not_lt_zero _)
  · exact hinv.others hdescribes hserve.2 hkept hx hne

end KernelHeap

open KernelHeap

/-- In every heap that requests with room lead to: when there are bytes to keep, `krealloc` keeps them
just when the block is in place; when there are none, it is enough that the request is served. -/
theorem preserves_of_runs {st : KernelHeap} {live : List (ℕ × ℕ)} {p old : ℕ}
    (h : HeapRuns HasRoom st live) (hlive : (p, max old 1) ∈ live) (newSize pages : ℕ) :
    (0 < min old newSize → (st.Preserves live p old newSize pages ↔ st.InPlace p newSize)) ∧
    (min old newSize = 0 → st.Served p newSize pages →
      st.Preserves live p old newSize pages) := by
  obtain ⟨l, hinv⟩ := h.inv
  obtain ⟨b, hb, -, hptr, hsize⟩ := hinv.mem_used hlive
  obtain ⟨pre, post, rfl⟩ := List.append_of_mem hb
  change b.ptr = p at hptr
  subst hptr
  refine ⟨fun hpos => ⟨hinv.inPlace_of_preserves hpos, fun hin => ?_⟩, hinv.preserves_of_served⟩
  exact hinv.preserves_of_eq ((le_max_left _ _).trans hsize) hin pages

lemma emptyHeap_runs {p : ℕ} {st : KernelHeap} (hrun : emptyHeap.kmalloc 24 16 1 = some (p, st))
    (hp : p ≠ 0) : HeapRuns HasRoom st [(p, 24)] := by
  have hempty : HeapRuns HasRoom emptyHeap [] := .empty _
  rw [← if_neg (c := p = 0) (t := []) (e := [(p, 24)]) hp]
  exact hempty.kmalloc (by decide) (by decide) (.inr (by decide)) emptyHeap_hasRoom hrun

lemma emptyHeap_kmalloc : ((emptyHeap.kmalloc 24 16 1).any fun x => decide (x.1 ≠ 0)) = true := by
  decide +kernel

theorem preserves_of_runs_one : ∃ p st, emptyHeap.kmalloc 24 16 1 = some (p, st) ∧
    (st.Preserves [(p, 24)] p 24 48 1 ↔ st.InPlace p 48) := by
  obtain ⟨⟨p, st⟩, hrun, hp⟩ := (Option.any_eq_true _ _).mp emptyHeap_kmalloc
  rw [decide_eq_true_iff] at hp
  have hlive : (p, max 24 1) ∈ [(p, 24)] := List.mem_singleton_self _
  exact ⟨p, st, hrun, (preserves_of_runs (emptyHeap_runs hrun hp) hlive 48 1).1 (by decide)⟩

lemma emptyHeap_krealloc : ((emptyHeap.kmalloc 24 16 1).any fun x => decide (x.1 ≠ 0) &&
    (x.2.krealloc x.1 48 1).any fun y => decide (y.1 ≠ 0 ∧ y.1 ≠ x.1)) = true := by
  decide +kernel

/-- The only block is the last one: growing it extends the heap, and leaves its bytes behind. -/
theorem not_preserves : ¬∀ st live, HeapRuns HasRoom st live → ∀ p old newSize pages,
    (p, max old 1) ∈ live → newSize < 2 ^ 64 → st.Preserves live p old newSize pages := by
  intro hall
  obtain ⟨⟨p, st⟩, hrun, h⟩ := (Option.any_eq_true _ _).mp emptyHeap_krealloc
  rw [Bool.and_eq_true, decide_eq_true_iff] at h
  obtain ⟨hp, h⟩ := h
  obtain ⟨⟨q, st'⟩, hrun', h⟩ := (Option.any_eq_true _ _).mp h
  rw [decide_eq_true_iff] at h
  exact h.2 (eq_of_preserves hrun' h.1 (by decide) (hall _ _ (emptyHeap_runs hrun hp) p 24 48 1
    (List.mem_singleton_self _) (by decide)))

end PiKachulm.Memory

import PiKachulm.Memory.KernelHeap

/-!
# Reuse of freed blocks

`find_suitable_block` never considers the last block of the list: when this block is the only one
that fits, `kmalloc` extends the heap. Otherwise the blocks that are freed are used again.
-/

namespace PiKachulm.Memory

open Libk Core

namespace KernelHeap

/-- The block is free, and large enough once its pointer is aligned. -/
def SuitableBlock (st : KernelHeap) (memory alignment a : ℕ) : Prop :=
  (st.mem a).isFree = true ∧ ∃ r, alignToNext (st.mem a).ptr alignment = some r ∧
    wadd memory (wsub r (st.mem a).ptr) ≤ (st.mem a).size

/-- The request is served from a block of the list that is free, and the heap does not move. -/
def Reuses (st : KernelHeap) (byteCount alignment pages : ℕ) : Prop :=
  ∃ p st' a, st.kmalloc byteCount alignment pages = some (p, st') ∧ a ∈ st.metaList ∧
    (st.mem a).isFree = true ∧ (st'.mem a).isFree = false ∧ (st'.mem a).ptr = p ∧
    st'.getHeapEnd = st.getHeapEnd

/-- When some block is suitable for the request, one that is not the last is. -/
def Considers (st : KernelHeap) (byteCount alignment : ℕ) : Prop :=
  (∃ a ∈ st.metaList, st.SuitableBlock byteCount (atLeastOne alignment) a) →
    ∃ a ∈ st.metaList.dropLast,
      st.SuitableBlock (atLeastOne byteCount) (atLeastOne alignment) a

instance (st : KernelHeap) (memory alignment a : ℕ) : Decidable (st.SuitableBlock memory alignment a) :=
  decidable_of_iff ((st.mem a).isFree = true ∧ (alignToNext (st.mem a).ptr alignment).any fun r =>
      decide (wadd memory (wsub r (st.mem a).ptr) ≤ (st.mem a).size)) <| by
    simp only [SuitableBlock, Option.any_eq_true, decide_eq_true_eq]

instance (st : KernelHeap) (byteCount alignment : ℕ) : Decidable (st.Considers byteCount alignment) :=
  inferInstanceAs (Decidable (_ → _))

end KernelHeap

open KernelHeap

/-- Runs in which one request is alternately allocated and freed. -/
inductive Alternates (byteCount alignment : ℕ) (st : KernelHeap) : KernelHeap → Prop
  | refl : Alternates byteCount alignment st st
  | round {st' st₁ st₂ : KernelHeap} {pages p : ℕ} (h : Alternates byteCount alignment st st')
      (hok : st'.Considers byteCount alignment)
      (hrun : st'.kmalloc byteCount alignment pages = some (p, st₁)) (hp : p ≠ 0)
      (hfree : st₁.kfree p = some st₂) : Alternates byteCount alignment st st₂

namespace KernelHeap

variable {st st' : KernelHeap} {live : List (ℕ × ℕ)} {l : List Block} {b : Block}
  {byteCount alignment pages memory fuel block offset p : ℕ}

/-! ### One request -/

lemma Consistent.suitableBlock_iff (hst : Consistent st l) (hb : b ∈ l) :
    st.SuitableBlock memory alignment b.addr ↔ Suitable memory alignment b := by
  obtain ⟨p, n, hmem⟩ := hst.mem_eq hb
  rw [SuitableBlock, hmem]
  rfl

lemma Consistent.exists_suitable_iff (hst : Consistent st l) :
    (∃ a ∈ st.metaList.dropLast, st.SuitableBlock memory alignment a) ↔
      ∃ b ∈ l.dropLast, Suitable memory alignment b := by
  rw [hst.metaList_eq, ← List.map_dropLast]
  constructor
  · rintro ⟨a, ha, hsuit⟩
    obtain ⟨b, hb, rfl⟩ := List.mem_map.mp ha
    exact ⟨b, hb, (hst.suitableBlock_iff (List.dropLast_subset l hb)).mp hsuit⟩
  · rintro ⟨b, hb, hsuit⟩
    exact ⟨b.addr, List.mem_map_of_mem hb,
      (hst.suitableBlock_iff (List.dropLast_subset l hb)).mpr hsuit⟩

lemma isPowerOfTwo_of_alignToNext {value r : ℕ} (h : alignToNext value alignment = some r) :
    isPowerOfTwo alignment = true := by
  rw [alignToNext] at h
  split_ifs at h with hpow
  exact hpow

/-- A search that finds a block has aligned its pointer. -/
lemma isPowerOfTwo_of_searchBlock
    (h : st.searchBlock memory alignment fuel block = some (p, some offset)) :
    isPowerOfTwo alignment = true := by
  cases fuel with
  | zero => cases h
  | succ fuel =>
    rw [searchBlock] at h
    split_ifs at h
    · rw [Option.bind_eq_bind, Option.bind_eq_some_iff] at h
      obtain ⟨r, hr, -⟩ := h
      exact isPowerOfTwo_of_alignToNext hr
    · cases h

/-- Some block that is not the last is suitable just when the request is served from a block that is
free. -/
lemma Consistent.reuses_iff (hst : Consistent st l) : st.Reuses byteCount alignment pages ↔
    ∃ a ∈ st.metaList.dropLast,
      st.SuitableBlock (atLeastOne byteCount) (atLeastOne alignment) a := by
  rw [hst.exists_suitable_iff]
  obtain ⟨q, hseg⟩ := hst.rep
  constructor
  · rintro ⟨p, st', a, hrun, ha, hfree, hfree', -, -⟩
    rw [hst.metaList_eq, List.mem_map] at ha
    obtain ⟨d, hd, rfl⟩ := ha
    have hl : l ≠ [] := List.ne_nil_of_mem hd
    have hhead : st.head ≠ 0 := fun h => hl (hseg.eq_zero_iff.mp h)
    by_contra hnone
    -- the only writes are to a new header and to the link of the last one
    have hextend : ∀ {last size alignment pages x st₁},
        st.extendHeap last size alignment pages = some (x, st₁) →
          (st₁.mem d.addr).isFree = (st.mem d.addr).isFree := by
      intro last size alignment pages x st₁ hcode
      have hne : d.addr ≠ st.getHeapEnd := by
        obtain ⟨-, hdwf, hdend⟩ := hst.fits.of_mem hd
        exact Nat.ne_of_lt ((Nat.le_add_right _ _).trans_lt (hdwf.addr_lt.trans_le hdend))
      rw [extendHeap, Option.bind_eq_bind, Option.bind_eq_some_iff] at hcode
      obtain ⟨r, -, hcode⟩ := hcode
      dsimp only at hcode
      split_ifs at hcode
      · cases hcode
        rfl
      · cases hcode
        exact append_mem_isFree hne
    rw [kmalloc, if_neg hhead, Option.bind_eq_bind, Option.bind_eq_some_iff] at hrun
    obtain ⟨⟨x, st₁⟩, hfind, hrun⟩ := hrun
    have hst₁ : st₁ = st' := by
      dsimp only at hrun
      split_ifs at hrun <;> cases hrun <;> rfl
    subst hst₁
    rw [findSuitableBlock, Option.bind_eq_bind, Option.bind_eq_some_iff] at hfind
    obtain ⟨⟨y, offset⟩, hsearch, hfind⟩ := hfind
    cases offset with
    | none => rw [hextend hfind, hfree] at hfree'; cases hfree'
    | some offset =>
      rcases searchBlock_spec (atLeastOne byteCount) (isPowerOfTwo_of_searchBlock hsearch) hseg hl
        hst.length_lt with ⟨pre, c, post, s, rfl, hpost, -, hcfree, hs, hle, -⟩ | ⟨-, hsearch'⟩
      · refine hnone ⟨c, ?_, hcfree, s, hs, hle⟩
        rw [List.dropLast_append_of_ne_nil (List.cons_ne_nil _ _),
          List.dropLast_cons_of_ne_nil hpost]
        exact List.mem_append_right _ List.mem_cons_self
      · rw [hsearch'] at hsearch
        cases hsearch
  · rintro ⟨b, hb, hsuit⟩
    have hl : l ≠ [] := List.ne_nil_of_mem (List.dropLast_subset l hb)
    have hhead : st.head ≠ 0 := fun h => hl (hseg.eq_zero_iff.mp h)
    obtain ⟨r, hr, -⟩ := hsuit.2
    rcases searchBlock_spec (atLeastOne byteCount) (isPowerOfTwo_of_alignToNext hr) hseg hl
      hst.length_lt with ⟨pre, d, post, s, rfl, -, -, hfree, -, -, hsearch⟩ | ⟨hnone, -⟩
    · have hd : d ∈ pre ++ d :: post := List.mem_append_right _ List.mem_cons_self
      obtain ⟨h0, -⟩ := rep_split.mp hst.rep
      refine ⟨_, _, d.addr, kmalloc_of_search pages hhead h0 hsearch, ?_, ?_, ?_, ?_, rfl⟩
      · rw [hst.metaList_eq]
        exact List.mem_map_of_mem hd
      · rw [hst.mem_isFree hd, hfree]
      · rw [set_mem_self]
      · rw [set_mem_self]
    · exact absurd hsuit (hnone b hb)

/-- A request that is served from the list appends no block. -/
lemma Consistent.not_misplaced (hst : Consistent st l)
    (h : ∃ b ∈ l.dropLast, Suitable (atLeastOne byteCount) (atLeastOne alignment) b) :
    ¬st.Misplaced byteCount alignment pages := by
  rintro ⟨-, last, r, hsearch, -⟩
  obtain ⟨b, hb, hsuit⟩ := h
  obtain ⟨q, hseg⟩ := hst.rep
  obtain ⟨s, hs, -⟩ := hsuit.2
  rcases searchBlock_spec (atLeastOne byteCount) (isPowerOfTwo_of_alignToNext hs) hseg
    (List.ne_nil_of_mem (List.dropLast_subset l hb)) hst.length_lt with
    ⟨_, _, _, _, -, -, -, -, -, -, hsearch'⟩ | ⟨hnone, -⟩
  · rw [hsearch'] at hsearch
    cases hsearch
  · exact hnone b hb hsuit

/-! ### The same request, again and again -/

/-- A tight heap that ends at `heapEnd` and has a free block for the request. -/
def Ready (byteCount alignment heapEnd : ℕ) (st : KernelHeap) : Prop :=
  st.getHeapEnd = heapEnd ∧ ∃ live l, Inv st live l ∧ Tight l ∧
    ∃ b ∈ l, Suitable (atLeastOne byteCount) (atLeastOne alignment) b

/-- A block that is freed suits the request that it was allocated for. -/
lemma Inv.ready_kfree (hinv : Inv st live l) (htight : Tight l)
    (haccepts : st.Accepts byteCount alignment) (hmod : p % atLeastOne alignment = 0)
    (hlive : (p, max byteCount 1) ∈ live) (hfree : st.kfree p = some st') :
    Ready byteCount alignment st.getHeapEnd st' := by
  obtain ⟨st'', l', hfree', hinv', htight', hmanager, f, hf, hffree, hle, hstop⟩ :=
    hinv.kfree (p := p) (List.mem_map_of_mem hlive)
  rw [hfree, Option.some.injEq] at hfree'
  subst hfree'
  have hend : st'.getHeapEnd = st.getHeapEnd := by rw [getHeapEnd, hmanager, getHeapEnd]
  refine ⟨hend, _, l', hinv', htight' htight, f, hf, hffree, ?_⟩
  have hfstop := hstop _ hlive htight
  have hfend := (hinv'.consistent.fits.of_mem hf).2.2
  have hlt := hinv'.consistent.getHeapEnd_lt
  have hwrap := haccepts.2
  rw [max_one_eq] at hfstop
  rw [Block.stop] at hfstop hfend
  obtain ⟨r, hr, hge, -, -, hleast⟩ := alignToNext_spec f.ptr haccepts.isPowerOfTwo (by omega)
  have hrp := hleast p hle hmod
  refine ⟨r, hr, ?_⟩
  rw [wsub_of_le hge (by omega), wadd_of_lt (by omega)]
  omega

/-- One round: the request is served without moving the end of the heap. -/
lemma Ready.round {heapEnd : ℕ} {st₁ st₂ : KernelHeap} (hst : Ready byteCount alignment heapEnd st)
    (haccepts : st.Accepts byteCount alignment) (hok : st.Considers byteCount alignment)
    (hrun : st.kmalloc byteCount alignment pages = some (p, st₁)) (hp : p ≠ 0)
    (hfree : st₁.kfree p = some st₂) : Ready byteCount alignment heapEnd st₂ := by
  obtain ⟨hend, live, l, hinv, htight, b, hb, hbfree, r, hr, hle⟩ := hst
  have hwrap := haccepts.2
  have hbend := (hinv.consistent.fits.of_mem hb).2.2
  have hlt := hinv.consistent.getHeapEnd_lt
  rw [Block.stop] at hbend
  have hconsider : ∃ a ∈ st.metaList.dropLast,
      st.SuitableBlock (atLeastOne byteCount) (atLeastOne alignment) a := by
    refine hok ⟨b.addr, ?_, (hinv.consistent.suitableBlock_iff hb).mpr ⟨hbfree, r, hr, ?_⟩⟩
    · rw [hinv.consistent.metaList_eq]
      exact List.mem_map_of_mem hb
    · obtain ⟨r', hr', hge, hlt', -⟩ := alignToNext_spec b.ptr haccepts.isPowerOfTwo (by omega)
      rw [hr, Option.some.injEq] at hr'
      subst hr'
      have hn : byteCount ≤ atLeastOne byteCount := max_one_eq ▸ le_max_left _ _
      rw [wsub_of_le hge (by omega), wadd_of_lt (by omega)] at hle ⊢
      omega
  have hreuses : st.Reuses byteCount alignment pages := hinv.consistent.reuses_iff.mpr hconsider
  obtain ⟨p', st', a, hrun', -, -, -, -, hsame⟩ := hreuses
  rw [hrun, Option.some.injEq, Prod.mk.injEq] at hrun'
  obtain ⟨rfl, rfl⟩ := hrun'
  obtain ⟨p', st', l', hrun', hmod, hinv', htight'⟩ := hinv.kmalloc pages haccepts
  rw [hrun, Option.some.injEq, Prod.mk.injEq] at hrun'
  obtain ⟨rfl, rfl⟩ := hrun'
  rw [if_neg hp] at hinv'
  have hplaced : ¬st.Misplaced byteCount alignment pages :=
    hinv.consistent.not_misplaced (hinv.consistent.exists_suitable_iff.mp hconsider)
  have haccepts' : st₁.Accepts byteCount alignment := ⟨haccepts.1, by rw [hsame]; exact hwrap⟩
  have hready := hinv'.ready_kfree (htight' htight hplaced) haccepts' hmod List.mem_cons_self hfree
  rwa [hsame, hend] at hready

end KernelHeap

/-- The heap does not grow in a run in which one request is alternately allocated and freed. -/
lemma Alternates.ready {byteCount alignment heapEnd : ℕ} {st st' : KernelHeap}
    (hst : Ready byteCount alignment heapEnd st) (haccepts : st.Accepts byteCount alignment)
    (h : Alternates byteCount alignment st st') :
    Ready byteCount alignment heapEnd st' := by
  induction h with
  | refl => exact hst
  | round _ hok hrun hp hfree ih =>
    refine ih.round ⟨haccepts.1, ?_⟩ hok hrun hp hfree
    rw [ih.1, ← hst.1]
    exact haccepts.2

/-- A suitable block serves the request, in every state that is reached, just when a block that is
not the last is suitable if any is. When this holds of every request of a run that alternately
allocates and frees, the end of the heap does not move after the first of them. -/
theorem reuses_of_reaches {st : KernelHeap} {live : List (ℕ × ℕ)}
    (h : HeapReaches (fun _ _ _ _ => True) st live) :
    (∀ byteCount alignment pages,
      ((∃ a ∈ st.metaList, st.SuitableBlock byteCount (atLeastOne alignment) a) →
        st.Reuses byteCount alignment pages) ↔ st.Considers byteCount alignment) ∧
    ∀ byteCount alignment pages p st₁ st₂ st',
      HeapReaches (fun st byteCount alignment pages => ¬st.Misplaced byteCount alignment pages)
        st live →
      st.Accepts byteCount alignment → ¬st.Misplaced byteCount alignment pages →
      st.kmalloc byteCount alignment pages = some (p, st₁) → p ≠ 0 →
      st₁.Accepts byteCount alignment → st₁.kfree p = some st₂ →
      Alternates byteCount alignment st₂ st' → st'.getHeapEnd = st₁.getHeapEnd := by
  constructor
  · intro byteCount alignment pages
    obtain ⟨l, hinv, -⟩ := h.inv
    rw [hinv.consistent.reuses_iff, Considers]
  · intro byteCount alignment pages p st₁ st₂ st' hreach haccepts hplaced hrun hp haccepts₁
      hfree hrounds
    obtain ⟨l, hinv, htight⟩ := hreach.inv
    obtain ⟨p', st'', l₁, hrun', hmod, hinv₁, htight₁⟩ := hinv.kmalloc pages haccepts
    rw [hrun, Option.some.injEq, Prod.mk.injEq] at hrun'
    obtain ⟨rfl, rfl⟩ := hrun'
    rw [if_neg hp] at hinv₁
    have hready := hinv₁.ready_kfree (htight₁ (htight fun _ _ _ _ => id) hplaced) haccepts₁ hmod
      List.mem_cons_self hfree
    refine (hrounds.ready hready ⟨haccepts₁.1, ?_⟩).1
    rw [hready.1]
    exact haccepts₁.2

/-- After the first block is freed it is the last one, and the same request extends the heap. -/
theorem not_reuses : ¬∀ st live, HeapReaches (fun _ _ _ _ => True) st live →
    ∀ byteCount alignment pages,
      (∃ a ∈ st.metaList, st.SuitableBlock byteCount (atLeastOne alignment) a) →
        st.Reuses byteCount alignment pages := by
  intro hreuses
  have hempty : HeapReaches (fun _ _ _ _ => True) emptyHeap [] := .empty _
  have hone : HeapReaches (fun _ _ _ _ => True) (emptyHeap.request 64 1 1) [(heapMemory + 33, 64)] :=
    request_reaches 64 1 1 (heapMemory + 33) hempty (by decide) trivial (by decide +kernel)
  have hreach : HeapReaches (fun _ _ _ _ => True) ((emptyHeap.request 64 1 1).release (heapMemory + 33)) [] :=
    hone.kfree (by decide) (kfree_eq_release (by decide +kernel))
  obtain ⟨l, hinv, -⟩ := hreach.inv
  have hconsiders := hinv.consistent.reuses_iff.mp (hreuses _ _ hreach 64 1 1 (by decide +kernel))
  exact absurd hconsiders (by decide +kernel)

/-- The block that has been freed is used again, and the heap does not grow any more. -/
theorem reuses_of_reaches_freedBlock : freedBlock.Reuses 64 1 1 ∧
    (((freedBlock.request 64 1 1).release (heapMemory + 33)).request 64 1 1 |>.release
      (heapMemory + 33)).getHeapEnd = (freedBlock.request 64 1 1).getHeapEnd := by
  have hreach : HeapReaches (fun _ _ _ _ => True) freedBlock [(heapMemory + 176, 24), (heapMemory + 130, 8)] :=
    reaches_freedBlock.mono fun _ _ _ _ _ => trivial
  have hround : Alternates 64 1 ((freedBlock.request 64 1 1).release (heapMemory + 33))
      (((freedBlock.request 64 1 1).release (heapMemory + 33)).request 64 1 1 |>.release (heapMemory + 33)) :=
    .round .refl (by decide +kernel) (kmalloc_eq_request (by decide +kernel)) (by decide)
      (kfree_eq_release (by decide +kernel))
  constructor
  · exact ((reuses_of_reaches hreach).1 64 1 1).mpr (by decide +kernel) (by decide +kernel)
  · exact (reuses_of_reaches hreach).2 64 1 1 (heapMemory + 33) _ _ _ reaches_freedBlock (by decide +kernel)
      (by decide +kernel) (kmalloc_eq_request (by decide +kernel)) (by decide) (by decide +kernel)
      (kfree_eq_release (by decide +kernel)) hround

end PiKachulm.Memory

import PiKachulm.Core.BlockList
import PiKachulm.Memory.HeapManager

/-!
# `kmalloc` and `kfree`

The kernel heap of `mem_alloc.cpp`: a doubly linked list of headers in memory, `MetaBlock`, where 0
is the null pointer. `Rep` relates the headers to a list of blocks, and each operation on headers
is shown to be one on this list.
-/

namespace PiKachulm.Memory

open Libk Core

structure MetaBlock where
  size : ℕ
  next : ℕ
  previous : ℕ
  ptr : ℕ
  isFree : Bool
  deriving DecidableEq, Repr

/-- `META_BLOCK_SIZE`, the offset of `data` in a `MetaBlock`. -/
def metaBlockSize : ℕ := 33

/-- The heap, `g_malloc_meta_head` and the headers in memory. -/
structure KernelHeap where
  manager : HeapManager
  head : ℕ
  mem : ℕ → MetaBlock

namespace KernelHeap

def getHeapEnd (st : KernelHeap) : ℕ := st.manager.getHeapEnd

def set (st : KernelHeap) (addr : ℕ) (block : MetaBlock) : KernelHeap :=
  { st with mem := Function.update st.mem addr block }

@[simp] lemma set_mem_self {st : KernelHeap} {addr : ℕ} {block : MetaBlock} :
    (st.set addr block).mem addr = block := Function.update_self _ _ _

/-- A bound on the length of the list: every block has a byte at least. -/
def fuel (st : KernelHeap) : ℕ := st.manager.heapByteSize + 1

/-- `extend_heap` writes the header at `block`, and links it to the last one. -/
def append (st : KernelHeap) (block last size ptr : ℕ) : KernelHeap :=
  let st := st.set block { size := size, isFree := false, next := 0, previous := last, ptr := ptr }
  if last ≠ 0 then st.set last { st.mem last with next := block } else st

/-- The new block, or 0. The whole result is `none` when an assertion fails. -/
def extendHeap (st : KernelHeap) (last size alignment pages : ℕ) : Option (ℕ × KernelHeap) := do
  let heapEnd := st.getHeapEnd
  let nextAddr ← alignToNext (wadd heapEnd metaBlockSize) alignment
  let heapOffset := wadd (wsub nextAddr heapEnd) size
  let (brk, manager) := st.manager.changeHeapEnd pages heapOffset
  if brk = 0 then pure (0, { st with manager := manager })
  else pure (heapEnd, { st with manager := manager }.append heapEnd last size nextAddr)

/-- The loop of `find_suitable_block`: the block it stops at, with an offset when this block is
suitable. -/
def searchBlock (st : KernelHeap) (memory alignment : ℕ) : ℕ → ℕ → Option (ℕ × Option ℕ)
  | 0, _            => none
  | fuel + 1, block =>
    if block ≠ 0 ∧ (st.mem block).next ≠ 0 then do
      let nextAddr ← alignToNext (st.mem block).ptr alignment
      let offset := wsub nextAddr (st.mem block).ptr
      if (st.mem block).size ≥ wadd memory offset ∧ (st.mem block).isFree then
        pure (block, some offset)
      else searchBlock st memory alignment fuel (st.mem block).next
    else pure (block, none)

def findSuitableBlock (st : KernelHeap) (memory alignment pages : ℕ) :
    Option (ℕ × KernelHeap) := do
  match ← st.searchBlock memory alignment st.fuel st.head with
  | (block, some offset) =>
    let b := st.mem block
    pure (block, st.set block
      { b with ptr := wadd b.ptr offset, isFree := false, size := wsub b.size offset })
  | (block, none)        => st.extendHeap block memory alignment pages

/-- Sizes and alignments are 1 at least. -/
def atLeastOne (n : ℕ) : ℕ := if n = 0 then 1 else n

/-- The pointer, or 0 for null. -/
def kmalloc (st : KernelHeap) (byteCount alignment pages : ℕ) : Option (ℕ × KernelHeap) := do
  let alignment := atLeastOne alignment
  let byteCount := atLeastOne byteCount
  if st.head = 0 then
    let (block, st) ← st.extendHeap 0 byteCount alignment pages
    if block = 0 then pure (0, st)
    else pure ((st.mem block).ptr, { st with head := block })
  else
    let (block, st) ← st.findSuitableBlock byteCount alignment pages
    if block = 0 then pure (0, st) else pure ((st.mem block).ptr, st)

/-- The loop of `get_block_addr`. -/
def walkTo (st : KernelHeap) (addr : ℕ) : ℕ → ℕ → Option ℕ
  | 0, _        => none
  | fuel + 1, b =>
    if b ≠ 0 ∧ wadd (st.mem b).ptr (st.mem b).size < addr then walkTo st addr fuel (st.mem b).next
    else some b

def getBlockAddr (st : KernelHeap) (addr : ℕ) : Option ℕ :=
  if addr < st.getHeapEnd then
    if st.head ≠ 0 ∧ (st.mem st.head).ptr = addr then some st.head
    else do
      let b ← st.walkTo addr st.fuel st.head
      if b ≠ 0 ∧ (st.mem b).ptr > addr then pure 0 else pure b
  else some 0

def isAddrValid (st : KernelHeap) (addr : ℕ) : Option Bool :=
  if st.head = 0 then some false
  else if addr > st.head ∧ addr < st.getHeapEnd then do
    let b ← st.getBlockAddr addr
    pure (decide (b ≠ 0 ∧ addr = (st.mem b).ptr))
  else some false

/-- `none` when an assertion fails. -/
def mergeBlock (st : KernelHeap) (lhs rhs : ℕ) : Option KernelHeap :=
  if lhs ≠ 0 ∧ rhs ≠ 0 ∧ (st.mem lhs).next = rhs ∧ (st.mem rhs).isFree then
    let st := st.set lhs { st.mem lhs with
      size := wadd (st.mem lhs).size (wadd (st.mem rhs).size metaBlockSize)
      next := (st.mem rhs).next }
    let next := (st.mem rhs).next
    some (if next ≠ 0 then st.set next { st.mem next with previous := lhs } else st)
  else none

/-- `kfree` marks the block as free, and takes its padding back. -/
def markFree (st : KernelHeap) (block ptr : ℕ) : KernelHeap :=
  let data := wadd block metaBlockSize
  st.set block { st.mem block with
    size := wadd (st.mem block).size (wsub ptr data), ptr := data, isFree := true }

/-- `kfree` merges the block with the next one, if this is free. -/
def mergeNext (st : KernelHeap) (block : ℕ) : Option KernelHeap :=
  let next := (st.mem block).next
  if next ≠ 0 ∧ (st.mem next).isFree then st.mergeBlock block next else some st

/-- `kfree` merges the previous block, if this is free, with the block. -/
def mergePrevious (st : KernelHeap) (block : ℕ) : Option KernelHeap :=
  let previous := (st.mem block).previous
  if previous ≠ 0 ∧ (st.mem previous).isFree then
    if (st.mem previous).next ≠ block then do
      let other ← st.getBlockAddr (st.mem (st.mem previous).next).ptr
      if other = block then
        (st.set previous { st.mem previous with next := block }).mergeBlock previous block
      else pure st
    else st.mergeBlock previous block
  else some st

def kfree (st : KernelHeap) (ptr : ℕ) : Option KernelHeap :=
  if ptr = 0 then some st
  else do
    let valid ← st.isAddrValid ptr
    if valid then
      let block ← st.getBlockAddr ptr
      let st ← (st.markFree block ptr).mergeNext block
      st.mergePrevious block
    else none

/-- The call appends a block to a list whose last block ends before the heap does: the search finds
nothing, and the heap can be extended. -/
def Misplaced (st : KernelHeap) (byteCount alignment pages : ℕ) : Prop :=
  st.head ≠ 0 ∧ ∃ last nextAddr,
    st.searchBlock (atLeastOne byteCount) (atLeastOne alignment) st.fuel st.head =
      some (last, none) ∧
    alignToNext (wadd st.getHeapEnd metaBlockSize) (atLeastOne alignment) = some nextAddr ∧
    (st.manager.changeHeapEnd pages
      (wadd (wsub nextAddr st.getHeapEnd) (atLeastOne byteCount))).1 ≠ 0 ∧
    wadd (st.mem last).ptr (st.mem last).size ≠ st.getHeapEnd

instance (st : KernelHeap) (byteCount alignment pages : ℕ) : Decidable (st.Misplaced byteCount alignment pages) :=
  decidable_of_iff (st.head ≠ 0 ∧
    (st.searchBlock (atLeastOne byteCount) (atLeastOne alignment) st.fuel st.head).any fun x => x.2.isNone &&
      (alignToNext (wadd st.getHeapEnd metaBlockSize) (atLeastOne alignment)).any fun nextAddr =>
        decide ((st.manager.changeHeapEnd pages (wadd (wsub nextAddr st.getHeapEnd) (atLeastOne byteCount))).1 ≠ 0 ∧
          wadd (st.mem x.1).ptr (st.mem x.1).size ≠ st.getHeapEnd)) <| by
    simp only [Misplaced, Option.any_eq_true, Bool.and_eq_true, Option.isNone_iff_eq_none, decide_eq_true_eq,
      Prod.exists]
    refine and_congr_right fun _ => exists_congr fun last => ?_
    constructor
    · rintro ⟨_, hsearch, rfl, nextAddr, hnext, h⟩
      exact ⟨nextAddr, hsearch, hnext, h⟩
    · rintro ⟨nextAddr, hsearch, hnext, h⟩
      exact ⟨none, hsearch, rfl, nextAddr, hnext, h⟩

section Kmalloc

variable {st st' : KernelHeap} {byteCount alignment pages block offset : ℕ}

lemma kmalloc_of_extend_null (hhead : st.head = 0)
    (hextend : st.extendHeap 0 (atLeastOne byteCount) (atLeastOne alignment) pages =
      some (0, st')) : st.kmalloc byteCount alignment pages = some (0, st') := by
  rw [kmalloc, if_pos hhead, hextend, Option.bind_eq_bind, Option.bind_some]
  exact if_pos rfl

lemma kmalloc_of_extend (hhead : st.head = 0) (hblock : block ≠ 0)
    (hextend : st.extendHeap 0 (atLeastOne byteCount) (atLeastOne alignment) pages =
      some (block, st')) : st.kmalloc byteCount alignment pages =
        some ((st'.mem block).ptr, { st' with head := block }) := by
  rw [kmalloc, if_pos hhead, hextend, Option.bind_eq_bind, Option.bind_some]
  exact if_neg hblock

lemma kmalloc_of_search_null (hhead : st.head ≠ 0)
    (hsearch : st.searchBlock (atLeastOne byteCount) (atLeastOne alignment) st.fuel st.head =
      some (block, none))
    (hextend : st.extendHeap block (atLeastOne byteCount) (atLeastOne alignment) pages =
      some (0, st')) : st.kmalloc byteCount alignment pages = some (0, st') := by
  rw [kmalloc, if_neg hhead, findSuitableBlock, hsearch, Option.bind_eq_bind, Option.bind_eq_bind,
    Option.bind_some]
  dsimp only
  rw [hextend, Option.bind_some]
  exact if_pos rfl

lemma kmalloc_of_search_extend {new : ℕ} (hhead : st.head ≠ 0) (hnew : new ≠ 0)
    (hsearch : st.searchBlock (atLeastOne byteCount) (atLeastOne alignment) st.fuel st.head =
      some (block, none))
    (hextend : st.extendHeap block (atLeastOne byteCount) (atLeastOne alignment) pages =
      some (new, st')) : st.kmalloc byteCount alignment pages = some ((st'.mem new).ptr, st') := by
  rw [kmalloc, if_neg hhead, findSuitableBlock, hsearch, Option.bind_eq_bind, Option.bind_eq_bind,
    Option.bind_some]
  dsimp only
  rw [hextend, Option.bind_some]
  exact if_neg hnew

lemma kmalloc_of_search (pages : ℕ) (hhead : st.head ≠ 0) (hblock : block ≠ 0)
    (hsearch : st.searchBlock (atLeastOne byteCount) (atLeastOne alignment) st.fuel st.head =
      some (block, some offset)) : st.kmalloc byteCount alignment pages =
        some (wadd (st.mem block).ptr offset, st.set block { st.mem block with
          size := wsub (st.mem block).size offset
          ptr := wadd (st.mem block).ptr offset
          isFree := false }) := by
  rw [kmalloc, if_neg hhead, findSuitableBlock, hsearch, Option.bind_eq_bind, Option.bind_eq_bind,
    Option.bind_some]
  dsimp only
  rw [Option.pure_def, Option.bind_some, if_neg hblock, set]
  dsimp only
  rw [Function.update_self]

end Kmalloc

/-! ### Headers and blocks -/

/-- The contents of the header of a block. -/
def header (b : Block) (previous next : ℕ) : MetaBlock where
  size := b.size
  next := next
  previous := previous
  ptr := b.ptr
  isFree := b.isFree

/-- The headers from `cur` on, where the one before is `prev`, are those of the blocks `l`; the last
header is `last`, and the one after it `next`. -/
def Seg (mem : ℕ → MetaBlock) : ℕ → ℕ → List Block → ℕ → ℕ → Prop
  | prev, cur, [], last, next     => cur = next ∧ prev = last
  | prev, cur, b :: l, last, next => cur = b.addr ∧ b.addr ≠ 0 ∧
      ∃ n, mem b.addr = header b prev n ∧ Seg mem b.addr n l last next

/-- The headers of the heap are those of the blocks `l`. -/
def Rep (st : KernelHeap) (l : List Block) : Prop := ∃ last, Seg st.mem 0 st.head l last 0

variable {mem mem' : ℕ → MetaBlock} {st st' : KernelHeap} {p c q n : ℕ} {a b b' : Block}
  {l l₁ l₂ pre post : List Block}

lemma seg_cons : Seg mem p c (b :: l) q n ↔ c = b.addr ∧ b.addr ≠ 0 ∧
    ∃ m, mem b.addr = header b p m ∧ Seg mem b.addr m l q n := Iff.rfl

lemma seg_append : Seg mem p c (l₁ ++ l₂) q n ↔
    ∃ r m, Seg mem p c l₁ r m ∧ Seg mem r m l₂ q n := by
  induction l₁ generalizing p c with
  | nil =>
    rw [List.nil_append]
    constructor
    · exact fun hseg => ⟨p, c, ⟨rfl, rfl⟩, hseg⟩
    · rintro ⟨r, m, ⟨rfl, rfl⟩, hseg⟩
      exact hseg
  | cons b l₁ ih =>
    rw [List.cons_append, seg_cons]
    constructor
    · rintro ⟨hc, h0, m, hmem, hseg⟩
      obtain ⟨r, m', h₁, h₂⟩ := ih.mp hseg
      exact ⟨r, m', ⟨hc, h0, m, hmem, h₁⟩, h₂⟩
    · rintro ⟨r, m', ⟨hc, h0, m, hmem, h₁⟩, h₂⟩
      exact ⟨hc, h0, m, hmem, ih.mpr ⟨r, m', h₁, h₂⟩⟩

lemma Seg.congr (hseg : Seg mem p c l q n) (heq : ∀ b ∈ l, mem' b.addr = mem b.addr) :
    Seg mem' p c l q n := by
  induction l generalizing p c with
  | nil => exact hseg
  | cons b l ih =>
    obtain ⟨hc, h0, m, hmem, hseg⟩ := hseg
    refine ⟨hc, h0, m, (heq b List.mem_cons_self).trans hmem, ih hseg fun d hd => ?_⟩
    exact heq d (List.mem_cons_of_mem _ hd)

/-- Writing elsewhere. -/
lemma Seg.update (addr : ℕ) {x : MetaBlock} (hseg : Seg mem p c l q n)
    (hout : ∀ b ∈ l, b.addr ≠ addr) : Seg (Function.update mem addr x) p c l q n :=
  hseg.congr fun b hb => Function.update_of_ne (hout b hb) _ _

/-- Writing to `previous` of the first header. -/
lemma Seg.setPrevious (hseg : Seg mem p c l q 0) (hl : l.Pairwise fun a b => a.addr ≠ b.addr) :
    ∃ q', Seg (if c ≠ 0 then Function.update mem c { mem c with previous := n } else mem)
      n c l q' 0 := by
  cases l with
  | nil =>
    obtain ⟨rfl, rfl⟩ := hseg
    exact ⟨n, rfl, rfl⟩
  | cons b l =>
    obtain ⟨rfl, h0, m, hmem, hseg⟩ := hseg
    rw [if_pos h0]
    refine ⟨q, rfl, h0, m, ?_, hseg.update _ fun d hd => ?_⟩
    · rw [Function.update_self, hmem]
      rfl
    · exact (List.rel_of_pairwise_cons hl hd).symm

lemma rep_split : Rep st (pre ++ b :: post) ↔ b.addr ≠ 0 ∧ ∃ r m, Seg st.mem 0 st.head pre r b.addr ∧
    st.mem b.addr = header b r m ∧ ∃ q, Seg st.mem b.addr m post q 0 := by
  constructor
  · rintro ⟨q, hseg⟩
    obtain ⟨r, _, hpre, rfl, h0, m, hmem, hpost⟩ := seg_append.mp hseg
    exact ⟨h0, r, m, hpre, hmem, q, hpost⟩
  · rintro ⟨h0, r, m, hpre, hmem, q, hpost⟩
    exact ⟨q, seg_append.mpr ⟨r, _, hpre, rfl, h0, m, hmem, hpost⟩⟩

/-- Whether a block is the last one can be read in its header. -/
lemma Seg.eq_zero_iff (hseg : Seg mem p c l q 0) : c = 0 ↔ l = [] := by
  cases l with
  | nil => exact iff_of_true hseg.1 rfl
  | cons b l =>
    obtain ⟨rfl, h0, -⟩ := hseg
    exact iff_of_false h0 (List.cons_ne_nil _ _)

lemma Seg.last_eq (hseg : Seg mem p c (l ++ [b]) q n) : q = b.addr := by
  obtain ⟨r, m, -, -, -, m', -, -, rfl⟩ := seg_append.mp hseg
  rfl

/-! ### Writing to headers -/

/-- Blocks have different headers. -/
def Distinct (l : List Block) : Prop := l.Pairwise fun a b => a.addr ≠ b.addr

lemma distinct_split (hl : Distinct (pre ++ b :: post)) : (∀ d ∈ pre, d.addr ≠ b.addr) ∧
    (∀ d ∈ post, d.addr ≠ b.addr) ∧ ∀ c ∈ pre, ∀ d ∈ post, c.addr ≠ d.addr := by
  obtain ⟨-, hpost, hne⟩ := List.pairwise_append.mp hl
  refine ⟨fun d hd => hne d hd b List.mem_cons_self, fun d hd => ?_,
    fun c hc d hd => hne c hc d (List.mem_cons_of_mem _ hd)⟩
  exact (List.rel_of_pairwise_cons hpost hd).symm

/-- Writing everything but the links of a header. -/
lemma Rep.replace (hrep : Rep st (pre ++ b :: post)) (hl : Distinct (pre ++ b :: post))
    (haddr : b'.addr = b.addr) : Rep (st.set b.addr { st.mem b.addr with
      size := b'.size, ptr := b'.ptr, isFree := b'.isFree }) (pre ++ b' :: post) := by
  obtain ⟨hne₁, hne₂, -⟩ := distinct_split hl
  obtain ⟨h0, r, m, hpre, hmem, q, hpost⟩ := rep_split.mp hrep
  rw [rep_split, haddr]
  refine ⟨h0, r, m, hpre.update _ hne₁, ?_, q, hpost.update _ hne₂⟩
  simp only [set, Function.update_self, hmem]
  rfl

lemma Rep.merge (hrep : Rep st (pre ++ a :: b :: post)) (hl : Distinct (pre ++ a :: b :: post))
    (hfree : b.isFree = true) (hsize : a.size + (b.size + metaBlockSize) < 2 ^ 64) :
    ∃ st', st.mergeBlock a.addr b.addr = some st' ∧ st'.manager = st.manager ∧
      Rep st' (pre ++ a.merge metaBlockSize b :: post) := by
  obtain ⟨hne₁, hne₂, hne₃⟩ := distinct_split hl
  have hab : b.addr ≠ a.addr := hne₂ b List.mem_cons_self
  have hpostPairwise : post.Pairwise fun a b => a.addr ≠ b.addr :=
    (List.pairwise_cons.mp (List.pairwise_cons.mp (List.pairwise_append.mp hl).2.1).2).2
  obtain ⟨h0, r, m, hpre, hmem, q, hb⟩ := rep_split.mp hrep
  obtain ⟨rfl, hb0, m', hmem', hpost⟩ := hb
  have hguard : a.addr ≠ 0 ∧ b.addr ≠ 0 ∧ (st.mem a.addr).next = b.addr ∧
      (st.mem b.addr).isFree := by
    rw [hmem, hmem']
    exact ⟨h0, hb0, rfl, hfree⟩
  have hsum : wadd (st.mem a.addr).size (wadd (st.mem b.addr).size metaBlockSize) =
      (a.merge metaBlockSize b).size := by
    rw [hmem, hmem']
    change wadd a.size (wadd b.size metaBlockSize) = a.size + (b.size + metaBlockSize)
    rw [wadd_of_lt (a := b.size) (by omega), wadd_of_lt hsize]
  have hnext : (st.mem b.addr).next = m' := by rw [hmem']; rfl
  rw [mergeBlock, if_pos hguard]
  simp only [set, Function.update_of_ne hab, hnext, hsum]
  refine ⟨_, rfl, by split_ifs <;> rfl, ?_⟩
  have hpost₁ := hpost.update a.addr
    (x := { st.mem a.addr with size := (a.merge metaBlockSize b).size, next := m' })
    fun d hd => hne₂ d (List.mem_cons_of_mem _ hd)
  obtain ⟨q', hpost₂⟩ := hpost₁.setPrevious (n := a.addr) hpostPairwise
  rw [rep_split]
  by_cases hm' : m' = 0
  · simp only [hm', ne_eq, not_true_eq_false, if_false] at hpost₂ ⊢
    refine ⟨h0, r, 0, hpre.update _ hne₁, ?_, q', hpost₂⟩
    rw [Block.merge_addr, Function.update_self, hmem]
    rfl
  · simp only [hm', ne_eq, not_false_eq_true, if_true] at hpost₂ ⊢
    have hm'ne : ∀ d : Block, d = a ∨ d ∈ pre → d.addr ≠ m' := by
      intro d hd
      cases post with
      | nil => exact absurd hpost.1 hm'
      | cons e post =>
        rw [hpost.1]
        rcases hd with rfl | hd
        · exact (hne₂ e (by simp)).symm
        · exact hne₃ d hd e (by simp)
    refine ⟨h0, r, m', ?_, ?_, q', hpost₂⟩
    · exact (hpre.update _ hne₁).update _ fun d hd => hm'ne d (.inr hd)
    · rw [Block.merge_addr, Function.update_of_ne (hm'ne a (.inl rfl)), Function.update_self, hmem]
      rfl

lemma append_manager {block last size ptr : ℕ} :
    (st.append block last size ptr).manager = st.manager := by
  rw [append]
  split_ifs <;> rfl

lemma append_head {block last size ptr : ℕ} :
    (st.append block last size ptr).head = st.head := by
  rw [append]
  split_ifs <;> rfl

lemma append_mem {block last size ptr : ℕ} :
    (st.append block last size ptr).mem =
      let mem := Function.update st.mem block (header ⟨block, ptr, size, false⟩ last 0)
      if last ≠ 0 then Function.update mem last { mem last with next := block } else mem := by
  rw [append]
  split_ifs <;> rfl

lemma append_mem_self {block last size ptr : ℕ} (hne : block ≠ last) :
    (st.append block last size ptr).mem block = header ⟨block, ptr, size, false⟩ last 0 := by
  simp only [append_mem]
  split_ifs
  · rw [Function.update_of_ne hne, Function.update_self]
  · rw [Function.update_self]

lemma append_mem_isFree {block last size ptr d : ℕ} (hd : d ≠ block) :
    ((st.append block last size ptr).mem d).isFree = (st.mem d).isFree := by
  simp only [append_mem]
  split_ifs
  · by_cases hlast : d = last
    · subst hlast
      rw [Function.update_self, Function.update_of_ne hd]
    · rw [Function.update_of_ne hlast, Function.update_of_ne hd]
  · rw [Function.update_of_ne hd]

lemma Seg.last_ne {addr : ℕ} (hseg : Seg mem p c l q n) (hp : p ≠ addr)
    (hout : ∀ b ∈ l, b.addr ≠ addr) : q ≠ addr := by
  rcases List.eq_nil_or_concat l with rfl | ⟨l, d, rfl⟩
  · exact hseg.2 ▸ hp
  · rw [List.concat_eq_append] at hseg hout
    rw [hseg.last_eq]
    exact hout d (by simp)

/-- Writing a new header behind the last one. -/
lemma Seg.concat (hseg : Seg mem p c l q 0) (hl : Distinct l) (hout : ∀ d ∈ l, d.addr ≠ b.addr)
    (hp : l = [] → p = 0) (hb : b.addr ≠ 0) (hmem : mem b.addr = header b q 0) :
    Seg (if q ≠ 0 then Function.update mem q { mem q with next := b.addr } else mem) p
      (if l = [] then b.addr else c) (l ++ [b]) b.addr 0 := by
  rcases List.eq_nil_or_concat l with rfl | ⟨l, d, rfl⟩
  · obtain ⟨rfl, rfl⟩ := hseg
    rw [if_neg (by rw [hp rfl]; decide), if_pos rfl]
    exact ⟨rfl, hb, 0, hmem, rfl, rfl⟩
  · rw [List.concat_eq_append] at hseg hl hout ⊢
    obtain ⟨hne, -⟩ := distinct_split hl
    have hq := hseg.last_eq
    subst hq
    obtain ⟨r, m, hseg, hd⟩ := seg_append.mp hseg
    obtain ⟨rfl, h0, n, hdmem, rfl, -⟩ := hd
    rw [if_pos h0, if_neg (by simp), List.append_assoc]
    refine seg_append.mpr ⟨r, d.addr, hseg.update _ hne, rfl, h0, b.addr, ?_, rfl, hb, 0, ?_, rfl, rfl⟩
    · rw [Function.update_self, hdmem]
      rfl
    · rw [Function.update_of_ne (hout d (by simp)).symm, hmem]

/-! ### Searching -/

/-- The block can serve the request without being split. -/
def Suitable (memory alignment : ℕ) (b : Block) : Prop :=
  b.isFree = true ∧ ∃ r, alignToNext b.ptr alignment = some r ∧ wadd memory (wsub r b.ptr) ≤ b.size

lemma alignToNext_eq_some {alignment : ℕ} (value : ℕ) (hpow : isPowerOfTwo alignment = true) :
    ∃ r, alignToNext value alignment = some r := by
  rw [alignToNext, if_pos hpow]
  exact ⟨_, rfl⟩

lemma searchBlock_succ {memory alignment fuel block r : ℕ}
    (hguard : block ≠ 0 ∧ (st.mem block).next ≠ 0)
    (hr : alignToNext (st.mem block).ptr alignment = some r) :
    st.searchBlock memory alignment (fuel + 1) block =
      if (st.mem block).size ≥ wadd memory (wsub r (st.mem block).ptr) ∧ (st.mem block).isFree then
        some (block, some (wsub r (st.mem block).ptr))
      else st.searchBlock memory alignment fuel (st.mem block).next := by
  rw [searchBlock, if_pos hguard, hr, Option.bind_eq_bind, Option.bind_some]
  rfl

/-- The search finds the first suitable block that is not the last one. -/
lemma searchBlock_spec {alignment fuel : ℕ} (memory : ℕ) (hpow : isPowerOfTwo alignment = true)
    (hseg : Seg st.mem p c l q 0) (hl : l ≠ []) (hfuel : l.length < fuel) :
    (∃ pre b post r, l = pre ++ b :: post ∧ post ≠ [] ∧ (∀ d ∈ pre, ¬Suitable memory alignment d) ∧
        b.isFree = true ∧ alignToNext b.ptr alignment = some r ∧
        wadd memory (wsub r b.ptr) ≤ b.size ∧
        st.searchBlock memory alignment fuel c = some (b.addr, some (wsub r b.ptr))) ∨
      ((∀ d ∈ l.dropLast, ¬Suitable memory alignment d) ∧
        st.searchBlock memory alignment fuel c = some (q, none)) := by
  induction l generalizing p c fuel with
  | nil => exact absurd rfl hl
  | cons b l ih =>
    obtain ⟨rfl, h0, n, hmem, hseg⟩ := hseg
    cases fuel with
    | zero => exact absurd hfuel (Nat.not_lt_zero _)
    | succ fuel =>
      have hnext : (st.mem b.addr).next = n := by rw [hmem]; rfl
      by_cases hlast : l = []
      · subst hlast
        obtain ⟨rfl, rfl⟩ := hseg
        refine .inr ⟨fun d hd => absurd hd List.not_mem_nil, ?_⟩
        rw [searchBlock, if_neg (by simp [hnext])]
        rfl
      · have hn : n ≠ 0 := fun h => hlast (hseg.eq_zero_iff.mp h)
        obtain ⟨r, hr⟩ := alignToNext_eq_some b.ptr hpow
        have hguard : b.addr ≠ 0 ∧ (st.mem b.addr).next ≠ 0 := ⟨h0, hnext.symm ▸ hn⟩
        have hsize : (st.mem b.addr).size = b.size := by rw [hmem]; rfl
        have hptr : (st.mem b.addr).ptr = b.ptr := by rw [hmem]; rfl
        have hfree : (st.mem b.addr).isFree = b.isFree := by rw [hmem]; rfl
        rw [searchBlock_succ hguard (hptr.symm ▸ hr), hptr, hnext, hsize, hfree]
        by_cases hb : b.size ≥ wadd memory (wsub r b.ptr) ∧ b.isFree = true
        · simp only [if_pos hb]
          exact .inl ⟨[], b, l, r, rfl, hlast, fun d hd => absurd hd List.not_mem_nil, hb.2, hr, hb.1,
            rfl⟩
        · have hnot : ¬Suitable memory alignment b := by
            rintro ⟨hfree, r', hr', hle⟩
            rw [hr, Option.some.injEq] at hr'
            exact hb ⟨hr' ▸ hle, hfree⟩
          simp only [if_neg hb]
          have hlen : l.length < fuel := Nat.lt_of_succ_lt_succ hfuel
          rcases ih hseg hlast hlen with ⟨pre, b', post, r', rfl, h₁, h₂, h₃⟩ | ⟨h₁, h₂⟩
          · exact .inl ⟨b :: pre, b', post, r', rfl, h₁, List.forall_mem_cons.mpr ⟨hnot, h₂⟩, h₃⟩
          · refine .inr ⟨?_, h₂⟩
            rw [List.dropLast_cons_of_ne_nil hlast]
            exact List.forall_mem_cons.mpr ⟨hnot, h₁⟩

/-- `get_block_addr` passes the blocks that end before the address. -/
lemma walkTo_eq {addr fuel : ℕ} (hseg : Seg st.mem p c (pre ++ b :: post) q 0)
    (hfuel : pre.length < fuel) (hpre : ∀ d ∈ pre, wadd d.ptr d.size < addr)
    (hb : ¬wadd b.ptr b.size < addr) : st.walkTo addr fuel c = some b.addr := by
  induction pre generalizing p c fuel with
  | nil =>
    obtain ⟨rfl, -, n, hmem, -⟩ := hseg
    obtain ⟨fuel, rfl⟩ := Nat.exists_eq_succ_of_ne_zero (Nat.ne_of_gt (Nat.zero_lt_of_lt hfuel))
    rw [walkTo, hmem, if_neg fun h => hb h.2]
  | cons d pre ih =>
    obtain ⟨rfl, h0, n, hmem, hseg⟩ := hseg
    obtain ⟨fuel, rfl⟩ := Nat.exists_eq_succ_of_ne_zero (Nat.ne_of_gt (Nat.zero_lt_of_lt hfuel))
    rw [walkTo, hmem, if_pos ⟨h0, hpre d List.mem_cons_self⟩]
    exact ih hseg (Nat.lt_of_succ_lt_succ hfuel) fun e he => hpre e (List.mem_cons_of_mem _ he)

end KernelHeap

end PiKachulm.Memory

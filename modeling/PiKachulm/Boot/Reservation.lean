import Mathlib.Data.List.Induction
import PiKachulm.Boot.Partition

/-!
# The size of the reserved region

The region keeps the size that was asked for unless a later node makes a second reservation: after a
success the constructor asks for 0 bytes, and 0 bytes can be reserved in every chunk that has a page.
-/

namespace PiKachulm.Boot

open Memory

/-- The argument of the only call of the constructor. -/
def reservedContiguousSize : ℕ := 100 * 1024 * 1024

/-- The chunks that a node declares, if it is a memory node. -/
def nodeChunks (m : DeviceMemoryProperties) (node : Node) : Option (List (ℕ × ℕ)) :=
  if BootMemory.memoryPrefix.isPrefixOf node.name then node.reg.map fun p => (p.entries m 0).getD []
  else none

/-- The chunks that the memory nodes declare, node by node. -/
def memoryChunks (m : DeviceMemoryProperties) (nodes : List Node) : List (List (ℕ × ℕ)) :=
  nodes.filterMap (nodeChunks m)

/-- The memory nodes declare pages, each of them once. -/
structure DeclaresMemory (m : DeviceMemoryProperties) (nodes : List Node) : Prop where
  reg : ∀ node ∈ nodes, BootMemory.memoryPrefix.isPrefixOf node.name →
    ∀ p, node.reg = some p → (p.entries m 0).isSome
  aligned : ∀ e ∈ (memoryChunks m nodes).flatten, e.1 % pageSize = 0 ∧ e.2 % pageSize = 0
  bounded : ∀ e ∈ (memoryChunks m nodes).flatten, e.1 + e.2 < 2 ^ 64
  apart : (memoryChunks m nodes).flatten.Pairwise fun e f => Disjoint (chunkSet e) (chunkSet f)

/-- The chunks have no whole page. -/
def Pageless (es : List (ℕ × ℕ)) : Prop := ∀ e ∈ es, e.2 / pageSize = 0

/-- None of the chunks is big enough for `bytes` bytes. -/
def AllSmall (bytes : ℕ) (es : List (ℕ × ℕ)) : Prop := ∀ e ∈ es, ¬Big bytes e

/-- Some node makes the last reservation for `bytes` bytes: after the closest node before it without
a page it is the first with a chunk that is big enough; the node after it, if there is one, has no
page, and no node after that has a chunk that is big enough. -/
def LastReserves (bytes : ℕ) (nodes : List (List (ℕ × ℕ))) : Prop :=
  ∃ pre mid n post, nodes = pre ++ mid ++ n :: post ∧
    (∀ es ∈ pre.getLast?, Pageless es) ∧ (∀ es ∈ mid, AllSmall bytes es) ∧ ¬AllSmall bytes n ∧
    (∀ es ∈ post.head?, Pageless es) ∧ ∀ es ∈ post, AllSmall bytes es

/-- What the constructor is for: the sections and the region are parts of the memory that do not
overlap, and the region has the size that was asked for if some chunk is big enough. -/
structure PartitionSpec (bytes : ℕ) (nodes : List (List (ℕ × ℕ))) (bm : BootMemory) : Prop where
  partitioned : Partitioned (declared nodes.flatten) bm.pages
  size : bm.ranOut = false → (∃ e ∈ nodes.flatten, Big bytes e) → bytes ≤ reservedSize bm.pages

/-- What a node does to the flag of the constructor and to the size of the region. -/
def reserve (bytes : ℕ) (s : Bool × ℕ) (es : List (ℕ × ℕ)) : Bool × ℕ :=
  let asked := if s.1 then 0 else bytes
  if es.any fun e => Big asked e then (true, asked + pageSize) else (false, s.2)

/-! ### The last reservation -/

variable {bytes size : ℕ} {es : List (ℕ × ℕ)} {r : Bool × ℕ} {chunks : List (List (ℕ × ℕ))}

lemma any_big : (es.any fun e => Big bytes e) = false ↔ AllSmall bytes es := by
  simp [AllSmall]

lemma big_zero {e : ℕ × ℕ} : ¬Big 0 e ↔ e.2 / pageSize = 0 := by
  rw [Big, divRoundUp, pageSize, gt_iff_lt, Nat.not_lt, Nat.le_zero]

lemma allSmall_zero : AllSmall 0 es ↔ Pageless es := by
  simp only [AllSmall, Pageless, big_zero]

lemma AllSmall.of_pageless (h : Pageless es) : AllSmall bytes es := by
  intro e he hbig
  rw [Big, h e he] at hbig
  exact Nat.not_lt_zero _ hbig

lemma reserve_small (h : AllSmall bytes es) : reserve bytes (false, size) es = (false, size) := by
  rw [← any_big] at h
  simp only [reserve, Bool.false_eq_true, ↓reduceIte, h]

lemma reserve_big (h : ¬AllSmall bytes es) :
    reserve bytes (false, size) es = (true, bytes + pageSize) := by
  rw [← any_big, Bool.not_eq_false] at h
  simp only [reserve, Bool.false_eq_true, ↓reduceIte, h]

/-- After a success every node with a page reserves again. -/
lemma reserve_again (h : ¬Pageless es) : reserve bytes (true, size) es = (true, pageSize) := by
  rw [← allSmall_zero, ← any_big, Bool.not_eq_false] at h
  simp only [reserve, ↓reduceIte, h, Nat.zero_add]

lemma reserve_pageless (h : Pageless es) : reserve bytes r es = (false, r.2) := by
  obtain ⟨_ | _, size⟩ := r
  · exact reserve_small (.of_pageless h)
  · rw [← allSmall_zero, ← any_big] at h
    simp only [reserve, ↓reduceIte, h, Bool.false_eq_true]

/-- From the nodes that were read, where the flag and the size of the region come from. -/
structure Traced (bytes : ℕ) (chunks : List (List (ℕ × ℕ))) (r : Bool × ℕ) : Prop where
  flag : r.1 = false → ∃ pre mid, chunks = pre ++ mid ∧ (∀ es ∈ pre.getLast?, Pageless es) ∧
    ∀ es ∈ mid, AllSmall bytes es
  size : (r = (false, 0) ∧ ∀ es ∈ chunks, AllSmall bytes es) ∨ r.2 = pageSize ∨
    (r.2 = bytes + pageSize ∧ ∃ pre mid n post, chunks = pre ++ mid ++ n :: post ∧
      (∀ es ∈ pre.getLast?, Pageless es) ∧ (∀ es ∈ mid, AllSmall bytes es) ∧ ¬AllSmall bytes n ∧
      (∀ es ∈ post.head?, Pageless es) ∧ (∀ es ∈ post, AllSmall bytes es) ∧ (post = [] → r.1 = true))

lemma Traced.nil : Traced bytes [] (false, 0) where
  flag _ := ⟨[], [], rfl, by simp, by simp⟩
  size := .inl ⟨rfl, by simp⟩

lemma Traced.pageless (h : Traced bytes chunks r) (hes : Pageless es) :
    Traced bytes (chunks ++ [es]) (false, r.2) where
  flag _ := ⟨chunks ++ [es], [], by simp, by simpa using hes, by simp⟩
  size := by
    have hsmall : AllSmall bytes es := .of_pageless hes
    rcases h.size with ⟨rfl, hall⟩ | hpage | ⟨hbytes, pre, mid, n, post, rfl, hpre, hmid, hn, hhead, hpost, -⟩
    · exact .inl ⟨rfl, by simpa [or_imp, forall_and] using ⟨hall, hsmall⟩⟩
    · exact .inr (.inl hpage)
    · refine .inr (.inr ⟨hbytes, pre, mid, n, post ++ [es], by simp, hpre, hmid, hn, ?_, ?_, by simp⟩)
      · cases post with
        | nil      => simpa using hes
        | cons p _ => simpa using hhead
      · simpa [or_imp, forall_and] using ⟨hpost, hsmall⟩

lemma Traced.small (h : Traced bytes chunks (false, size)) (hes : AllSmall bytes es) :
    Traced bytes (chunks ++ [es]) (false, size) where
  flag _ := by
    obtain ⟨pre, mid, rfl, hpre, hmid⟩ := h.flag rfl
    exact ⟨pre, mid ++ [es], by simp, hpre, by simpa [or_imp, forall_and] using ⟨hmid, hes⟩⟩
  size := by
    rcases h.size with ⟨heq, hall⟩ | hpage |
      ⟨hbytes, pre, mid, n, post, rfl, hpre, hmid, hn, hhead, hpost, hflag⟩
    · exact .inl ⟨heq, by simpa [or_imp, forall_and] using ⟨hall, hes⟩⟩
    · exact .inr (.inl hpage)
    · refine .inr (.inr ⟨hbytes, pre, mid, n, post ++ [es], by simp, hpre, hmid, hn, ?_, ?_, by simp⟩)
      · cases post with
        | nil      => cases hflag rfl
        | cons p _ => simpa using hhead
      · simpa [or_imp, forall_and] using ⟨hpost, hes⟩

lemma Traced.big (h : Traced bytes chunks (false, size)) (hes : ¬AllSmall bytes es) :
    Traced bytes (chunks ++ [es]) (true, bytes + pageSize) where
  flag htrue := nomatch htrue
  size := by
    obtain ⟨pre, mid, rfl, hpre, hmid⟩ := h.flag rfl
    exact .inr (.inr ⟨rfl, pre, mid, es, [], rfl, hpre, hmid, hes, by simp, by simp, fun _ => rfl⟩)

lemma Traced.reserve (h : Traced bytes chunks r) : Traced bytes (chunks ++ [es]) (reserve bytes r es) := by
  obtain ⟨flag, size⟩ := r
  by_cases hpage : Pageless es
  · rw [reserve_pageless hpage]
    exact h.pageless hpage
  · cases flag with
    | false =>
      by_cases hsmall : AllSmall bytes es
      · rw [reserve_small hsmall]
        exact h.small hsmall
      · rw [reserve_big hsmall]
        exact h.big hsmall
    | true  =>
      rw [reserve_again hpage]
      exact ⟨nofun, .inr (.inl rfl)⟩

lemma traced_foldl : Traced bytes chunks (chunks.foldl (reserve bytes) (false, 0)) := by
  induction chunks using List.reverseRecOn with
  | nil                      => exact .nil
  | append_singleton l es ih =>
    rw [List.foldl_append]
    exact ih.reserve

lemma foldl_reserve_small (h : ∀ es ∈ chunks, AllSmall bytes es) :
    chunks.foldl (reserve bytes) (false, size) = (false, size) := by
  induction chunks with
  | nil               => rfl
  | cons es chunks ih =>
    rw [List.forall_mem_cons] at h
    rw [List.foldl_cons, reserve_small h.1]
    exact ih h.2

lemma foldl_reserve_pageless (h : ∀ es ∈ chunks.getLast?, Pageless es) :
    ∃ size, chunks.foldl (reserve bytes) (false, 0) = (false, size) := by
  rcases List.eq_nil_or_concat chunks with rfl | ⟨l, es, rfl⟩
  · exact ⟨0, rfl⟩
  · rw [List.concat_eq_append, List.foldl_append, List.foldl_cons, reserve_pageless (by simpa using h)]
    exact ⟨_, rfl⟩

lemma LastReserves.foldl (h : LastReserves bytes chunks) :
    (chunks.foldl (reserve bytes) (false, 0)).2 = bytes + pageSize := by
  obtain ⟨pre, mid, n, post, rfl, hpre, hmid, hn, hhead, hpost⟩ := h
  obtain ⟨size, hsize⟩ := @foldl_reserve_pageless bytes _ hpre
  rw [List.foldl_append, List.foldl_append, hsize, foldl_reserve_small hmid, List.foldl_cons,
    reserve_big hn]
  cases post with
  | nil          => rfl
  | cons es post =>
    rw [List.foldl_cons, reserve_pageless (hhead es rfl), foldl_reserve_small]
    exact fun x hx => hpost x (List.mem_cons_of_mem _ hx)

/-- The size of the region, when a chunk is big enough. -/
lemma le_foldl_reserve_iff (hbig : ∃ e ∈ chunks.flatten, Big bytes e) :
    bytes ≤ (chunks.foldl (reserve bytes) (false, 0)).2 ↔ bytes ≤ pageSize ∨ LastReserves bytes chunks := by
  have htr : Traced bytes chunks _ := traced_foldl
  constructor
  · intro hle
    rcases htr.size with ⟨-, hall⟩ | hpage | ⟨-, pre, mid, n, post, heq, hpre, hmid, hn, hhead, hpost, -⟩
    · obtain ⟨e, he, hbig⟩ := hbig
      obtain ⟨es, hes, he⟩ := List.mem_flatten.mp he
      exact (hall es hes e he hbig).elim
    · exact .inl (hpage ▸ hle)
    · exact .inr ⟨pre, mid, n, post, heq, hpre, hmid, hn, hhead, hpost⟩
  · rintro (hle | hlast)
    · rcases htr.size with ⟨-, hall⟩ | hpage | ⟨hbytes, -⟩
      · obtain ⟨e, he, hbig⟩ := hbig
        obtain ⟨es, hes, he⟩ := List.mem_flatten.mp he
        exact (hall es hes e he hbig).elim
      · exact hpage ▸ hle
      · exact hbytes ▸ Nat.le_add_right ..
    · exact hlast.foldl ▸ Nat.le_add_right ..

namespace BootMemory

variable {words : ℕ → ℕ → BitVec 64} {m : DeviceMemoryProperties} {bytes : ℕ} {bm bm' : BootMemory}
  {es : List (ℕ × ℕ)} {D : Set ℕ}

/-! ### Nodes -/

variable {nodes : List Node} {node : Node} {s s' : Bool × BootMemory}

lemma parseNode_none (h : nodeChunks m node = none) :
    parseNode words m bytes s node = some s := by
  rw [nodeChunks] at h
  rw [parseNode]
  by_cases hprefix : memoryPrefix.isPrefixOf node.name
  · rw [if_pos hprefix, Option.map_eq_none_iff] at h
    rw [if_pos hprefix, h]
  · rw [if_neg hprefix]

lemma parseNode_some (h : nodeChunks m node = some es)
    (hreg : BootMemory.memoryPrefix.isPrefixOf node.name → ∀ p, node.reg = some p → (p.entries m 0).isSome) :
    parseNode words m bytes s node = parseChunks words (if s.1 then 0 else bytes) es false s.2 := by
  rw [nodeChunks] at h
  split_ifs at h with hprefix
  obtain ⟨p, hp, rfl⟩ := Option.map_eq_some_iff.mp h
  obtain ⟨l, hl⟩ := Option.isSome_iff_exists.mp (hreg hprefix p hp)
  rw [parseNode, if_pos hprefix, hp, hl]
  exact parseMemoryReg_eq hl

lemma memoryChunks_cons_none (h : nodeChunks m node = none) :
    memoryChunks m (node :: nodes) = memoryChunks m nodes := List.filterMap_cons_none h

lemma memoryChunks_cons_some (h : nodeChunks m node = some es) :
    memoryChunks m (node :: nodes) = es :: memoryChunks m nodes := List.filterMap_cons_some h

lemma sublist_memoryChunks :
    (memoryChunks m nodes).flatten.Sublist (memoryChunks m (node :: nodes)).flatten := by
  cases hn : nodeChunks m node with
  | none   =>
    rw [memoryChunks_cons_none hn]
  | some es =>
    rw [memoryChunks_cons_some hn, List.flatten_cons]
    exact List.sublist_append_right ..

lemma declaresMemory_tail (h : DeclaresMemory m (node :: nodes)) : DeclaresMemory m nodes where
  reg node hnode := h.reg node (List.mem_cons_of_mem _ hnode)
  aligned e he := h.aligned e (sublist_memoryChunks.subset he)
  bounded e he := h.bounded e (sublist_memoryChunks.subset he)
  apart := h.apart.sublist sublist_memoryChunks

/-- The constructor from node to node. -/
lemma parseNodes_spec (hm : DeclaresMemory m nodes) (hD : Partitioned D s.2.pages)
    (hdisj : Disjoint D (declared (memoryChunks m nodes).flatten))
    (h : nodes.foldlM (parseNode words m bytes) s = some s') :
    Partitioned (D ∪ declared (memoryChunks m nodes).flatten) s'.2.pages ∧
      (s'.2.ranOut = false → s.2.ranOut = false ∧ (s'.1, reservedSize s'.2.pages) =
        (memoryChunks m nodes).foldl (reserve bytes) (s.1, reservedSize s.2.pages)) := by
  induction nodes generalizing D s with
  | nil =>
    cases h
    exact ⟨hD.mono Set.subset_union_left, fun hout => ⟨hout, rfl⟩⟩
  | cons node nodes ih =>
    rw [List.foldlM_cons] at h
    obtain ⟨s₁, h₁, h⟩ := Option.bind_eq_some_iff.mp h
    cases hn : nodeChunks m node with
    | none   =>
      rw [parseNode_none hn] at h₁
      cases h₁
      rw [memoryChunks_cons_none hn] at hdisj ⊢
      exact ih (declaresMemory_tail hm) hD hdisj h
    | some es =>
      have halign := hm.aligned
      have hapart := hm.apart
      rw [memoryChunks_cons_some hn, List.flatten_cons] at hdisj halign hapart ⊢
      rw [List.pairwise_append] at hapart
      rw [declared_append, Set.disjoint_union_right] at hdisj
      rw [declared_append, ← Set.union_assoc]
      rw [parseNode_some hn (hm.reg node List.mem_cons_self)] at h₁
      have hes : Aligned es := fun e he => halign e (List.mem_append_left _ he)
      have hcross : Disjoint (declared es) (declared (memoryChunks m nodes).flatten) := by
        rw [Set.disjoint_left]
        rintro x ⟨e, he, hx⟩
        exact Set.disjoint_left.mp (disjoint_declared fun f hf => hapart.2.2 e he f hf) hx
      obtain ⟨hpart, hres⟩ := ih (declaresMemory_tail hm)
        (parseChunks_partitioned hes hapart.1 hdisj.1 hD h₁)
        (Set.disjoint_union_left.mpr ⟨hdisj.2, hcross⟩) h
      refine ⟨hpart, fun hout => ?_⟩
      obtain ⟨hout₁, heq⟩ := hres hout
      obtain ⟨hout₀, hflag, hsize⟩ := parseChunks_reserves hes hout₁ h₁
      refine ⟨hout₀, heq.trans ?_⟩
      rw [List.foldl_cons]
      congr 1
      rw [reserve, hflag, hsize, Bool.false_or, Bool.not_false, Bool.true_and]
      split_ifs <;> simp_all

/-! ### The constructor -/

variable {linAlloc : LinearPageAllocator} {memAlloc : LinearAllocator}

lemma init_spec (hm : DeclaresMemory m nodes)
    (h : BootMemory.init words m nodes linAlloc memAlloc bytes = some bm) :
    Partitioned (declared (memoryChunks m nodes).flatten) bm.pages ∧
      (bm.ranOut = false → reservedSize bm.pages =
        ((memoryChunks m nodes).foldl (reserve bytes) (false, 0)).2) := by
  obtain ⟨s, hs, rfl⟩ := Option.map_eq_some_iff.mp h
  have hstart : Partitioned ∅ ⟨0, 0, []⟩ := ⟨.nil, by simp, by simp, by simp [reservedSet]⟩
  obtain ⟨hpart, hsize⟩ := parseNodes_spec hm hstart (Set.empty_disjoint _) hs
  rw [Set.empty_union] at hpart
  exact ⟨hpart, fun hout => (Prod.ext_iff.mp (hsize hout).2).2⟩

end BootMemory

open BootMemory

/-- The sections and the region are always a partition. The region has the size that was asked for
exactly when this is a page at most or the last node that is reserved from is one that the bytes
were asked of. -/
theorem partitionSpec_iff {words : ℕ → ℕ → BitVec 64} {m : DeviceMemoryProperties} {nodes : List Node}
    {linAlloc : LinearPageAllocator} {memAlloc : LinearAllocator} {bytes : ℕ} {bm : BootMemory}
    (hm : DeclaresMemory m nodes)
    (h : BootMemory.init words m nodes linAlloc memAlloc bytes = some bm) :
    Partitioned (declared (memoryChunks m nodes).flatten) bm.pages ∧
      (PartitionSpec bytes (memoryChunks m nodes) bm ↔
        (bm.ranOut = false → (∃ e ∈ (memoryChunks m nodes).flatten, Big bytes e) →
          bytes ≤ pageSize ∨ LastReserves bytes (memoryChunks m nodes))) := by
  obtain ⟨hpart, hsize⟩ := init_spec hm h
  refine ⟨hpart, fun hspec hout hbig => ?_, fun hcond => ⟨hpart, fun hout hbig => ?_⟩⟩
  · rw [← le_foldl_reserve_iff hbig, ← hsize hout]
    exact hspec.size hout hbig
  · rw [hsize hout, le_foldl_reserve_iff hbig]
    exact hcond hout hbig

/-- A `reg` property with one pair of 32-bit numbers, multiples of 2 ^ 24. -/
def bank (start size : BitVec 8) : Property where
  length := 8
  data i := if i = 0 then start else if i = 4 then size else 0

/-- Two banks of 256 MiB. -/
def twoBanks : List Node :=
  [⟨"memory@0".toList, some (bank 0 0x10)⟩, ⟨"memory@40000000".toList, some (bank 0x40 0x10)⟩]

/-- The cells of `twoBanks`. -/
def cells32 : DeviceMemoryProperties := ⟨false, false⟩

lemma memoryChunks_twoBanks :
    memoryChunks cells32 twoBanks = [[(0, 0x10000000)], [(0x40000000, 0x10000000)]] := by
  decide +kernel

lemma declaresMemory_twoBanks : DeclaresMemory cells32 twoBanks where
  reg := by
    simp only [twoBanks, List.forall_mem_cons, List.not_mem_nil, false_imp_iff, implies_true, and_true,
      Option.some.injEq, forall_eq']
    exact ⟨fun _ => by decide +kernel, fun _ => by decide +kernel⟩
  aligned := by
    rw [memoryChunks_twoBanks]
    decide
  bounded := by
    rw [memoryChunks_twoBanks]
    decide
  apart := by
    rw [memoryChunks_twoBanks]
    simp [chunkSet, Set.Ico_disjoint_Ico]

/-- The constructor, with room for its pages. -/
def initBanks (nodes : List Node) : Option BootMemory :=
  BootMemory.init (fun _ _ => 0) cells32 nodes ⟨0x200000, 0x400000, 0⟩
    ⟨0xFFFF000000100000, 0xFFFF000000101000⟩ reservedContiguousSize

/-- The second bank reserves again, a single page. -/
theorem not_partitionSpec : ∃ bm, DeclaresMemory cells32 twoBanks ∧ initBanks twoBanks = some bm ∧
    ¬PartitionSpec reservedContiguousSize (memoryChunks cells32 twoBanks) bm := by
  have hrun : (initBanks twoBanks).any
      (fun bm => bm.ranOut = false ∧ reservedSize bm.pages = pageSize) = true := by decide +kernel
  obtain ⟨bm, hbm, h⟩ := (Option.any_eq_true _ _).mp hrun
  obtain ⟨hout, hsize⟩ := of_decide_eq_true h
  refine ⟨bm, declaresMemory_twoBanks, hbm, fun hspec => ?_⟩
  have hle := hspec.size hout (by
    rw [memoryChunks_twoBanks]
    exact ⟨(0, 0x10000000), by decide, by decide⟩)
  rw [hsize] at hle
  revert hle
  decide

theorem partitionSpec_iff_twoBanks : ∃ bm, initBanks twoBanks = some bm ∧
    Partitioned (declared (memoryChunks cells32 twoBanks).flatten) bm.pages ∧
      (PartitionSpec reservedContiguousSize (memoryChunks cells32 twoBanks) bm ↔
        (bm.ranOut = false → (∃ e ∈ (memoryChunks cells32 twoBanks).flatten, Big reservedContiguousSize e) →
          reservedContiguousSize ≤ pageSize ∨
            LastReserves reservedContiguousSize (memoryChunks cells32 twoBanks))) := by
  have hrun : (initBanks twoBanks).isSome = true := by decide +kernel
  obtain ⟨bm, hbm⟩ := Option.isSome_iff_exists.mp hrun
  exact ⟨bm, hbm, partitionSpec_iff declaresMemory_twoBanks hbm⟩

end PiKachulm.Boot

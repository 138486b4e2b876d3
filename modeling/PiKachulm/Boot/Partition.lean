import Mathlib.Data.Set.Lattice
import Mathlib.Order.CompletePartialOrder
import Mathlib.Order.Interval.Set.Disjoint
import PiKachulm.Boot.MemoryReg

/-!
# The partition of memory

The sections and the reserved region never overlap: each chunk gives a section, and the chunk that
is reserved from gives up its end.
-/

namespace PiKachulm.Boot

open Memory

/-- The addresses of a chunk. -/
def chunkSet (e : ℕ × ℕ) : Set ℕ := Set.Ico e.1 (e.1 + e.2)

/-- The addresses of a list of chunks. -/
def declared (es : List (ℕ × ℕ)) : Set ℕ := {x | ∃ e ∈ es, x ∈ chunkSet e}

/-- The chunk has more than twice the pages that `bytes` bytes take. -/
def Big (bytes : ℕ) (e : ℕ × ℕ) : Prop := e.2 / pageSize > 2 * divRoundUp bytes pageSize

instance (bytes : ℕ) (e : ℕ × ℕ) : Decidable (Big bytes e) :=
  inferInstanceAs (Decidable (_ > _))

/-- A chunk that is big enough has room for the region and one page more. -/
lemma Big.le {bytes : ℕ} {e : ℕ × ℕ} (hbig : Big bytes e) : bytes + pageSize ≤ e.2 := by
  rw [Big, divRoundUp] at hbig
  simp only [pageSize] at *
  omega

/-- The addresses of a section. -/
def sectionSet (a : AllocList) : Set ℕ := Set.Ico a.sectionStart a.sectionStop

/-- The addresses of the reserved region. -/
def reservedSet (l : PageAllocList) : Set ℕ := Set.Ico l.contiguousResStart l.contiguousResStop

/-- The sections and the reserved region are parts of `D`, and do not overlap. -/
structure Partitioned (D : Set ℕ) (l : PageAllocList) : Prop where
  sections : l.list.Pairwise fun a b => Disjoint (sectionSet a) (sectionSet b)
  reserved : ∀ a ∈ l.list, Disjoint (sectionSet a) (reservedSet l)
  declared : ∀ a ∈ l.list, sectionSet a ⊆ D
  reservedDeclared : reservedSet l ⊆ D

lemma Partitioned.mono {D D' : Set ℕ} {l : PageAllocList} (h : Partitioned D l) (hD : D ⊆ D') :
    Partitioned D' l :=
  ⟨h.sections, h.reserved, fun a ha => (h.declared a ha).trans hD, h.reservedDeclared.trans hD⟩

/-- The bytes of the reserved region. -/
def reservedSize (l : PageAllocList) : ℕ := l.contiguousResStop - l.contiguousResStart

namespace BootMemory

variable {words : ℕ → ℕ → BitVec 64} {m : DeviceMemoryProperties} {bytes start size index : ℕ}
  {flag : Bool} {r : Option Bool} {bm bm' : BootMemory} {es : List (ℕ × ℕ)} {p : Property}

/-! ### Chunks -/

/-- The loop of `parse_memory_reg` on a list of chunks. -/
def parseChunks (words : ℕ → ℕ → BitVec 64) (bytes : ℕ) :
    List (ℕ × ℕ) → Bool → BootMemory → Option (Bool × BootMemory)
  | [], flag, bm                 => some (flag, bm)
  | (start, size) :: es, flag, bm =>
    match parseChunk words bytes start size flag bm with
    | none                 => none
    | some (none, bm)      => some (false, bm)
    | some (some flag, bm) => parseChunks words bytes es flag bm

lemma entries_cons (hlt : index < p.length) (h : p.entries m index = some es) :
    ∃ start mid size next l, p.getVariableInt index m.isArmMemAddressU64 = some (start, mid) ∧
      p.getVariableInt mid m.isArmMemSizeU64 = some (size, next) ∧
      p.entries m next = some l ∧ es = (start, size) :: l := by
  rw [Property.entries, if_pos hlt] at h
  split at h
  · cases h
  · rename_i hstart
    split at h
    · cases h
    · rename_i hsize
      obtain ⟨l, hl, rfl⟩ := Option.map_eq_some_iff.mp h
      exact ⟨_, _, _, _, l, hstart, hsize, hl, rfl⟩

lemma parseMemoryReg_cons {mid next : ℕ} (hlt : index < p.length)
    (hstart : p.getVariableInt index m.isArmMemAddressU64 = some (start, mid))
    (hsize : p.getVariableInt mid m.isArmMemSizeU64 = some (size, next)) :
    parseMemoryReg words m p bytes index flag bm =
      match parseChunk words bytes start size flag bm with
      | none                 => none
      | some (none, bm)      => some (false, bm)
      | some (some flag, bm) => parseMemoryReg words m p bytes next flag bm := by
  rw [parseMemoryReg, if_pos hlt]
  split
  · rename_i hnone
    rw [hstart] at hnone
    cases hnone
  · rename_i hsome
    rw [hstart] at hsome
    cases hsome
    split
    · rename_i hnone
      rw [hsize] at hnone
      cases hnone
    · rename_i hsome
      rw [hsize] at hsome
      cases hsome
      rfl

lemma parseMemoryReg_eq (h : p.entries m index = some es) :
    parseMemoryReg words m p bytes index flag bm = parseChunks words bytes es flag bm := by
  induction hd : p.length - index using Nat.strong_induction_on generalizing index es flag bm with
  | _ d ih =>
    by_cases hlt : index < p.length
    · obtain ⟨start, mid, size, next, l, hstart, hsize, hl, rfl⟩ := entries_cons hlt h
      have h₁ := Property.lt_of_getVariableInt hstart
      have h₂ := Property.lt_of_getVariableInt hsize
      rw [parseMemoryReg_cons hlt hstart hsize, parseChunks]
      cases parseChunk words bytes start size flag bm with
      | none   => rfl
      | some s =>
        obtain ⟨_ | flag', bm'⟩ := s
        · rfl
        · exact ih (p.length - next) (by omega) hl rfl
    · rw [Property.entries, if_neg hlt] at h
      cases h
      rw [parseMemoryReg, if_neg hlt, parseChunks]

/-- What one chunk adds: a section at its start, and the reserved region behind it. -/
structure ChunkSpec (bytes start size : ℕ) (flag : Bool) (bm : BootMemory) (r : Option Bool)
    (bm' : BootMemory) (stop : ℕ) : Prop where
  list : bm'.pages.list = bm.pages.list ∨
    ∃ alloc, bm'.pages.list = bm.pages.list ++ [⟨start, stop, alloc⟩]
  reserved : flag = false → Big bytes (start, size) → bm'.pages.contiguousResStart = stop ∧
    bm'.pages.contiguousResStop = start + size ∧ start + size = stop + (bytes + pageSize)
  kept : ¬(flag = false ∧ Big bytes (start, size)) →
    bm'.pages.contiguousResStart = bm.pages.contiguousResStart ∧
      bm'.pages.contiguousResStop = bm.pages.contiguousResStop ∧ stop = start + size
  result : (r = none ∧ bm'.ranOut = true) ∨
    (r = some (flag || decide (Big bytes (start, size))) ∧ bm'.ranOut = bm.ranOut)

lemma addAllocator_eq_some {pageStart pageEnd nbPages array : ℕ}
    (h : bm.addAllocator words pageStart pageEnd nbPages array = some bm') :
    ∃ memAlloc alloc, bm' = { bm with
      memAlloc := memAlloc
      pages := { bm.pages with list := bm.pages.list ++ [⟨pageStart, pageEnd, alloc⟩] } } := by
  obtain ⟨s, -, h⟩ := Option.bind_eq_some_iff.mp h
  cases h
  exact ⟨_, _, rfl⟩

lemma parseChunk_eq (hstart : start % pageSize = 0) (hsize : size % pageSize = 0) :
    parseChunk words bytes start size flag bm =
      let reserves := !flag && decide (Big bytes (start, size))
      let pageEnd := if reserves then start + size - bytes - pageSize else start + size
      let bm := if reserves then
          { bm with pages := { bm.pages with
              contiguousResStart := pageEnd, contiguousResStop := start + size } }
        else bm
      let nbPages := (pageEnd - start + 1) / pageSize
      match allocatePages bm.linAlloc (divRoundUp (PageAlloc.memoryNeeded nbPages) pageSize) with
      | none                              => some (none, { bm with ranOut := true })
      | some (physicalMemory, linAlloc) =>
        ({ bm with linAlloc := linAlloc }.addAllocator words start pageEnd nbPages
          (physicalMemory + kernelBase)).map fun bm => (some (flag || reserves), bm) := by
  have hend : alignToPrevious (start + size) pageSize = start + size := by
    rw [alignToPrevious, pageSize] at *
    omega
  have hnb : start + size - start = size := Nat.add_sub_cancel_left ..
  simp only [parseChunk, hend, hnb]
  rfl

lemma parseChunk_spec (hstart : start % pageSize = 0) (hsize : size % pageSize = 0)
    (h : parseChunk words bytes start size flag bm = some (r, bm')) :
    ∃ stop, ChunkSpec bytes start size flag bm r bm' stop := by
  rw [parseChunk_eq hstart hsize] at h
  by_cases hres : flag = false ∧ Big bytes (start, size)
  · obtain ⟨rfl, hres⟩ := hres
    have hle : bytes + pageSize ≤ size := hres.le
    simp only [Bool.not_false, hres, decide_true, Bool.and_self, ↓reduceIte] at h
    obtain ⟨stop, hstop⟩ : ∃ stop, start + size = stop + (bytes + pageSize) :=
      Nat.exists_eq_add_of_le' (hle.trans (Nat.le_add_left ..))
    have hsub : start + size - bytes - pageSize = stop := by
      rw [hstop, Nat.sub_sub, Nat.add_sub_cancel]
    rw [hsub] at h
    refine ⟨stop, ?_⟩
    split at h
    · cases h
      exact ⟨.inl rfl, fun _ _ => ⟨rfl, rfl, hstop⟩, fun hn => (hn ⟨rfl, hres⟩).elim, .inl ⟨rfl, rfl⟩⟩
    · obtain ⟨bm₁, h₁, h⟩ := Option.map_eq_some_iff.mp h
      obtain ⟨memAlloc, alloc, rfl⟩ := addAllocator_eq_some h₁
      cases h
      exact ⟨.inr ⟨_, rfl⟩, fun _ _ => ⟨rfl, rfl, hstop⟩, fun hn => (hn ⟨rfl, hres⟩).elim,
        .inr ⟨by simp [hres], rfl⟩⟩
  · have hno : (!flag && decide (Big bytes (start, size))) = false := by
      cases flag <;> simp_all
    have hor : (flag || decide (Big bytes (start, size))) = (flag || false) := by
      cases flag <;> simp_all
    simp only [hno, Bool.false_eq_true, ↓reduceIte] at h
    refine ⟨start + size, ?_⟩
    split at h
    · cases h
      exact ⟨.inl rfl, fun h₁ h₂ => (hres ⟨h₁, h₂⟩).elim, fun _ => ⟨rfl, rfl, rfl⟩, .inl ⟨rfl, rfl⟩⟩
    · obtain ⟨bm₁, h₁, h⟩ := Option.map_eq_some_iff.mp h
      obtain ⟨memAlloc, alloc, rfl⟩ := addAllocator_eq_some h₁
      cases h
      rw [← hor]
      exact ⟨.inr ⟨_, rfl⟩, fun h₁ h₂ => (hres ⟨h₁, h₂⟩).elim, fun _ => ⟨rfl, rfl, rfl⟩, .inr ⟨rfl, rfl⟩⟩

variable {stop : ℕ} {D : Set ℕ}

/-- The section of a chunk lies in the chunk, apart from the region that it may leave. -/
lemma ChunkSpec.section_subset (h : ChunkSpec bytes start size flag bm r bm' stop) :
    Set.Ico start stop ⊆ chunkSet (start, size) := by
  have hle : stop ≤ start + size := by
    by_cases hres : flag = false ∧ Big bytes (start, size)
    · rw [(h.reserved hres.1 hres.2).2.2]
      exact Nat.le_add_right ..
    · exact (h.kept hres).2.2.le
  exact Set.Ico_subset_Ico_right hle

/-- The reserved region is in the chunk, or as it was. -/
lemma ChunkSpec.reservedSet (h : ChunkSpec bytes start size flag bm r bm' stop) (hD : Partitioned D bm.pages)
    (hdisj : Disjoint D (chunkSet (start, size))) :
    (reservedSet bm'.pages ⊆ D ∪ chunkSet (start, size)) ∧
      Disjoint (Set.Ico start stop) (reservedSet bm'.pages) ∧
        ∀ a ∈ bm.pages.list, Disjoint (sectionSet a) (reservedSet bm'.pages) := by
  by_cases hres : flag = false ∧ Big bytes (start, size)
  · obtain ⟨hstart, hstop, hsum⟩ := h.reserved hres.1 hres.2
    have hset : Boot.reservedSet bm'.pages = Set.Ico stop (start + size) := by
      rw [Boot.reservedSet, hstart, hstop]
    have hle : bytes + pageSize ≤ size := hres.2.le
    have hsub : Set.Ico stop (start + size) ⊆ chunkSet (start, size) :=
      Set.Ico_subset_Ico_left (by omega)
    rw [hset]
    exact ⟨hsub.trans Set.subset_union_right, Set.Ico_disjoint_Ico_same,
      fun a ha => hdisj.mono (hD.declared a ha) hsub⟩
  · obtain ⟨hstart, hstop, hsum⟩ := h.kept hres
    have hset : Boot.reservedSet bm'.pages = Boot.reservedSet bm.pages := by
      rw [Boot.reservedSet, Boot.reservedSet, hstart, hstop]
    rw [hset]
    exact ⟨hD.reservedDeclared.trans Set.subset_union_left,
      (hdisj.mono hD.reservedDeclared h.section_subset).symm, hD.reserved⟩

lemma ChunkSpec.partitioned (h : ChunkSpec bytes start size flag bm r bm' stop)
    (hD : Partitioned D bm.pages) (hdisj : Disjoint D (chunkSet (start, size))) :
    Partitioned (D ∪ chunkSet (start, size)) bm'.pages := by
  obtain ⟨hsub, hnew, hold⟩ := h.reservedSet hD hdisj
  rcases h.list with hlist | ⟨alloc, hlist⟩
  · refine ⟨hlist ▸ hD.sections, hlist ▸ hold, ?_, hsub⟩
    rw [hlist]
    exact fun a ha => (hD.declared a ha).trans Set.subset_union_left
  · constructor
    · rw [hlist, List.pairwise_append]
      refine ⟨hD.sections, List.pairwise_singleton .., fun a ha c hc => ?_⟩
      rw [List.mem_singleton.mp hc]
      exact hdisj.mono (hD.declared a ha) h.section_subset
    · intro a ha
      rw [hlist, List.mem_append, List.mem_singleton] at ha
      rcases ha with ha | rfl
      · exact hold a ha
      · exact hnew
    · intro a ha
      rw [hlist, List.mem_append, List.mem_singleton] at ha
      rcases ha with ha | rfl
      · exact (hD.declared a ha).trans Set.subset_union_left
      · exact h.section_subset.trans Set.subset_union_right
    · exact hsub

lemma declared_cons {e : ℕ × ℕ} : declared (e :: es) = chunkSet e ∪ declared es := by
  ext x
  simp [declared]

lemma declared_append {l : List (ℕ × ℕ)} : declared (es ++ l) = declared es ∪ declared l := by
  ext x
  simp [declared, or_and_right, exists_or]

lemma disjoint_declared {e : ℕ × ℕ} (h : ∀ f ∈ es, Disjoint (chunkSet e) (chunkSet f)) :
    Disjoint (chunkSet e) (declared es) := by
  rw [Set.disjoint_right]
  rintro x ⟨f, hf, hx⟩
  exact Set.disjoint_right.mp (h f hf) hx

/-- Every chunk begins and ends at a page. -/
def Aligned (es : List (ℕ × ℕ)) : Prop := ∀ e ∈ es, e.1 % pageSize = 0 ∧ e.2 % pageSize = 0

lemma parseChunks_partitioned {f : Bool} (hes : Aligned es)
    (hapart : es.Pairwise fun e f => Disjoint (chunkSet e) (chunkSet f))
    (hdisj : Disjoint D (declared es)) (hD : Partitioned D bm.pages)
    (h : parseChunks words bytes es flag bm = some (f, bm')) :
    Partitioned (D ∪ declared es) bm'.pages := by
  induction es generalizing D flag bm with
  | nil =>
    cases h
    exact hD.mono Set.subset_union_left
  | cons e es ih =>
    obtain ⟨start, size⟩ := e
    rw [declared_cons, Set.disjoint_union_right] at hdisj
    rw [List.pairwise_cons] at hapart
    rw [declared_cons, ← Set.union_assoc]
    obtain ⟨hstart, hsize⟩ := hes _ List.mem_cons_self
    rw [parseChunks] at h
    cases hc : parseChunk words bytes start size flag bm with
    | none   => simp [hc] at h
    | some s =>
      obtain ⟨r, bm₁⟩ := s
      obtain ⟨stop, hspec⟩ := parseChunk_spec hstart hsize hc
      have hstep := hspec.partitioned hD hdisj.1
      rw [hc] at h
      cases r with
      | none   =>
        cases h
        exact hstep.mono Set.subset_union_left
      | some f =>
        refine ih (fun e he => hes e (List.mem_cons_of_mem _ he)) hapart.2 ?_ hstep h
        exact Set.disjoint_union_left.mpr ⟨hdisj.2, disjoint_declared hapart.1⟩

/-! ### Reservations -/

/-- The chunks of one node: the flag says whether one of them is big enough, and the first of these
gives the region. -/
lemma parseChunks_reserves {f : Bool} (hes : Aligned es) (hout : bm'.ranOut = false)
    (h : parseChunks words bytes es flag bm = some (f, bm')) :
    bm.ranOut = false ∧ f = (flag || es.any fun e => Big bytes e) ∧
      reservedSize bm'.pages =
        if !flag && es.any fun e => Big bytes e then bytes + pageSize else reservedSize bm.pages := by
  induction es generalizing flag bm with
  | nil =>
    cases h
    simp [hout]
  | cons e es ih =>
    obtain ⟨start, size⟩ := e
    obtain ⟨hstart, hsize⟩ := hes _ List.mem_cons_self
    have hes' : Aligned es := fun e he => hes e (List.mem_cons_of_mem _ he)
    rw [parseChunks] at h
    cases hc : parseChunk words bytes start size flag bm with
    | none   => simp [hc] at h
    | some s =>
      obtain ⟨r, bm₁⟩ := s
      obtain ⟨stop, hspec⟩ := parseChunk_spec hstart hsize hc
      rw [hc] at h
      rcases hspec.result with ⟨rfl, hout₁⟩ | ⟨rfl, heq⟩
      · cases h
        rw [hout] at hout₁
        cases hout₁
      · obtain ⟨hout₁, rfl, hsz⟩ := ih hes' h
        refine ⟨heq ▸ hout₁, by simp [Bool.or_assoc], hsz.trans ?_⟩
        by_cases hres : flag = false ∧ Big bytes (start, size)
        · obtain ⟨h₁, h₂, h₃⟩ := hspec.reserved hres.1 hres.2
          simp [hres.1, hres.2, reservedSize, h₁, h₂, h₃]
        · obtain ⟨h₁, h₂, -⟩ := hspec.kept hres
          have hsize₁ : reservedSize bm₁.pages = reservedSize bm.pages := by
            rw [reservedSize, reservedSize, h₁, h₂]
          rw [hsize₁]
          cases flag with
          | false =>
            have hno : decide (Big bytes (start, size)) = false := decide_eq_false (not_and.mp hres rfl)
            rw [List.any_cons, hno, Bool.false_or, Bool.false_or]
          | true  => rfl

end BootMemory

end PiKachulm.Boot

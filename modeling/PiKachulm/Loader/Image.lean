import PiKachulm.Loader.CreateTask
import PiKachulm.Memory.PageTables
import Mathlib.Algebra.BigOperators.Intervals

/-!
# The image of a program

A well-formed file describes the bytes of its segments. Each segment is loaded into pages of its own,
which take the place of pages that were mapped there before: when segments share a page, what was loaded
of the earlier one is lost.
-/

namespace PiKachulm.Loader

open Core Libk Memory Mmu Services

/-- The fields of a program header that are used. -/
structure Segment where
  type : ℕ
  flags : ℕ
  offset : ℕ
  virtualAddr : ℕ
  fileSize : ℕ
  memSize : ℕ
  deriving DecidableEq

namespace Segment

/-- The segment that program header `i` describes. -/
def read (buffer : List UInt8) (phOff i : ℕ) : Segment where
  type := (phType buffer (programHeaderAt phOff i)).getD 0
  flags := (phFlags buffer (programHeaderAt phOff i)).getD 0
  offset := (phOffset buffer (programHeaderAt phOff i)).getD 0
  virtualAddr := (phVirtualAddr buffer (programHeaderAt phOff i)).getD 0
  fileSize := (phFileSize buffer (programHeaderAt phOff i)).getD 0
  memSize := (phMemSize buffer (programHeaderAt phOff i)).getD 0

def IsLoad (s : Segment) : Prop := s.type = 1

instance (s : Segment) : Decidable s.IsLoad := inferInstanceAs (Decidable (_ = _))

/-- The flags of a program header are bits. -/
def IsExecutable (s : Segment) : Prop := s.flags.testBit 0 = true

def IsWritable (s : Segment) : Prop := s.flags.testBit 1 = true

/-- The addresses of the segment. -/
def Covers (s : Segment) (a : ℕ) : Prop := s.virtualAddr ≤ a ∧ a < s.virtualAddr + s.memSize

def firstPage (s : Segment) : ℕ := s.virtualAddr / 4096

def nbPages (s : Segment) : ℕ := nbPagesOf s.virtualAddr s.memSize

/-- The pages that the segment is loaded into. -/
def HasPage (s : Segment) (p : ℕ) : Prop := s.firstPage ≤ p ∧ p < s.firstPage + s.nbPages

instance (s : Segment) (p : ℕ) : Decidable (s.HasPage p) := inferInstanceAs (Decidable (_ ∧ _))

/-- The byte at an address of the segment: it comes from the file, or is zero. -/
def byteAt (buffer : List UInt8) (s : Segment) (a : ℕ) : UInt8 :=
  if a < s.virtualAddr + s.fileSize then (buffer[s.offset + (a - s.virtualAddr)]?).getD 0 else 0

end Segment

open Segment

/-- A file whose program headers and segments lie in it, with segments that lie apart from each other in
the address space of a process. -/
structure WellFormed (buffer : List UInt8) (phOff count : ℕ) : Prop where
  length : buffer.length < 2 ^ 64
  offset : programHeaderOffset buffer = some phOff
  entries : programHeaderEntryCount buffer = some count
  headers : phOff + 56 * count ≤ buffer.length
  data : ∀ i < count, (read buffer phOff i).IsLoad →
    (read buffer phOff i).offset + (read buffer phOff i).fileSize ≤ buffer.length
  sizes : ∀ i < count, (read buffer phOff i).IsLoad →
    (read buffer phOff i).fileSize ≤ (read buffer phOff i).memSize
  space : ∀ i < count, (read buffer phOff i).IsLoad →
    (read buffer phOff i).virtualAddr + (read buffer phOff i).memSize ≤ 2 ^ 48
  disjoint : ∀ i < count, ∀ j < count, (read buffer phOff i).IsLoad → (read buffer phOff j).IsLoad →
    i ≠ j → ∀ a, (read buffer phOff i).Covers a → ¬(read buffer phOff j).Covers a

/-- The pages that program header `i` calls for. -/
def pagesFor (buffer : List UInt8) (phOff i : ℕ) : ℕ :=
  if (read buffer phOff i).IsLoad then (read buffer phOff i).nbPages else 0

/-- There are frames for the stack and for the pages of every segment, all of them different, and pages
for the translation tables. -/
structure EnoughMemory (S : Services) (buffer : List UInt8) (phOff count : ℕ) (stack : Provision)
    (env : ℕ → Provision) (stackFrames : List Frame) (frames : ℕ → List Frame) : Prop where
  stack : stack.Gives stackFrames ∧ stackFrames.length = 2
  segments : ∀ i < count, (read buffer phOff i).IsLoad →
    (env i).Gives (frames i) ∧ (frames i).length = (read buffer phOff i).nbPages
  distinct : ∀ i < count, ∀ j < count, (read buffer phOff i).IsLoad → (read buffer phOff j).IsLoad →
    ∀ (k l : ℕ) (f f' : Frame), (frames i)[k]? = some f → (frames j)[l]? = some f' →
      f.address = f'.address → i = j ∧ k = l
  tables : Lasts S.alloc (3 * (∑ i ∈ Finset.range count, pagesFor buffer phOff i + 2)) []

/-- The process finds a byte at an address: the page translates to a page of a chunk that has it. -/
def LoadedTask.Finds (tbl : MMUTable) (task : LoadedTask) (a : ℕ) (attr : PagesAttributes)
    (b : UInt8) : Prop :=
  ∃ pa, translate tbl task.table (pageAddr (a / 4096)) = some (pa, attr) ∧
    ∃ c ∈ task.chunks, ∃ pas k, c.pas = some pas ∧ k < c.nbPages ∧ pas k = pa ∧
      c.bytes (4096 * k + a % 4096) = b

/-- `create_task` returns a task in whose address space the segments are, with the permissions that they
ask for. -/
def BuildsImage (tbl : MMUTable) (buffer : List UInt8) (phOff count : ℕ) (stack : Provision)
    (env : ℕ → Provision) : Prop :=
  ∃ task, createTask tbl buffer env (createTaskCommon tbl stack) = some (some task) ∧
    ∀ i < count, (read buffer phOff i).IsLoad → ∀ a, (read buffer phOff i).Covers a →
      ∃ attr, task.Finds tbl a attr ((read buffer phOff i).byteAt buffer a) ∧
        attr.access = .allProcess ∧ ((read buffer phOff i).IsWritable → attr.rw = .readWrite) ∧
        ((read buffer phOff i).IsExecutable → attr.exec = .processExecute)

/-- What an earlier segment has in the pages of a later one is zero. -/
def NothingLost (buffer : List UInt8) (phOff count : ℕ) : Prop :=
  ∀ i j, i < j → j < count → (read buffer phOff i).IsLoad → (read buffer phOff j).IsLoad →
    ∀ a, (read buffer phOff i).Covers a → (read buffer phOff j).HasPage (a / 4096) →
      (read buffer phOff i).byteAt buffer a = 0

/-! ### Reading a segment -/

variable {S : Services} {buffer : List UInt8} {phOff count : ℕ} {stack : Provision} {env : ℕ → Provision}
  {stackFrames : List Frame} {frames : ℕ → List Frame} {task : LoadedTask} {i j k o a p : ℕ}

lemma WellFormed.programHeaderAt_eq (hw : WellFormed buffer phOff count) (hi : i < count) :
    programHeaderAt phOff i = phOff + 56 * i := by
  apply wadd_of_lt
  have hlen := hw.length
  have hheaders := hw.headers
  omega

lemma WellFormed.inside (hw : WellFormed buffer phOff count) (hi : i < count) (ho : o + k ≤ 56) :
    Inside buffer k (programHeaderAt phOff i + o) := by
  apply inside_of_le _ hw.length
  have hheaders := hw.headers
  rw [hw.programHeaderAt_eq hi]
  omega

/-- The fields of the segments can be read. -/
lemma WellFormed.readWord_eq (hw : WellFormed buffer phOff count) (hi : i < count) (ho : o + k ≤ 56) :
    readWord (imageByte buffer) k (programHeaderAt phOff i + o) =
      some ((readWord (imageByte buffer) k (programHeaderAt phOff i + o)).getD 0) := by
  obtain ⟨n, hn⟩ := Option.isSome_iff_exists.mp (isSome_readWord_iff.mpr (hw.inside hi ho))
  rw [hn, Option.getD_some]

lemma WellFormed.phType_eq (hw : WellFormed buffer phOff count) (hi : i < count) :
    phType buffer (programHeaderAt phOff i) = some (read buffer phOff i).type :=
  hw.readWord_eq hi (by norm_num : 0 + 4 ≤ 56)

lemma WellFormed.phFlags_eq (hw : WellFormed buffer phOff count) (hi : i < count) :
    phFlags buffer (programHeaderAt phOff i) = some (read buffer phOff i).flags :=
  hw.readWord_eq hi (by norm_num)

lemma WellFormed.phOffset_eq (hw : WellFormed buffer phOff count) (hi : i < count) :
    phOffset buffer (programHeaderAt phOff i) = some (read buffer phOff i).offset :=
  hw.readWord_eq hi (by norm_num)

lemma WellFormed.phVirtualAddr_eq (hw : WellFormed buffer phOff count) (hi : i < count) :
    phVirtualAddr buffer (programHeaderAt phOff i) = some (read buffer phOff i).virtualAddr :=
  hw.readWord_eq hi (by norm_num)

lemma WellFormed.phFileSize_eq (hw : WellFormed buffer phOff count) (hi : i < count) :
    phFileSize buffer (programHeaderAt phOff i) = some (read buffer phOff i).fileSize :=
  hw.readWord_eq hi (by norm_num)

lemma WellFormed.phMemSize_eq (hw : WellFormed buffer phOff count) (hi : i < count) :
    phMemSize buffer (programHeaderAt phOff i) = some (read buffer phOff i).memSize :=
  hw.readWord_eq hi (by norm_num)

/-! ### The pages of a segment -/

lemma sub_vaStart (va : ℕ) : va - vaStart va = va % 4096 := by
  rw [vaStart, Nat.mul_comm]
  exact Nat.sub_eq_of_eq_add (Nat.mod_add_div va 4096).symm

lemma nbPagesOf_eq {va memSize : ℕ} (h : va + memSize ≤ 2 ^ 48) :
    nbPagesOf va memSize = (va % 4096 + memSize + 4095) / 4096 := by
  have hmod : va % 4096 < 4096 := Nat.mod_lt va (by norm_num)
  have h₁ : va % 4096 + memSize < 2 ^ 64 := by omega
  have h₂ : va % 4096 + memSize + 4096 < 2 ^ 64 := by omega
  rw [nbPagesOf, sub_vaStart, wadd_of_lt h₁, wadd_of_lt h₂, wsub_of_le (by omega) h₂]
  rfl

section

variable {s : Segment}

lemma Segment.firstPage_add_nbPages (h : s.virtualAddr + s.memSize ≤ 2 ^ 48) :
    s.firstPage + s.nbPages = (s.virtualAddr + s.memSize + 4095) / 4096 := by
  rw [firstPage, nbPages, nbPagesOf_eq h]
  omega

/-- The pages are in the address space of a process. -/
lemma Segment.fits (h : s.virtualAddr + s.memSize ≤ 2 ^ 48) : s.firstPage + s.nbPages ≤ 2 ^ 36 := by
  rw [firstPage_add_nbPages h]
  omega

/-- The segment has the pages of its addresses. -/
lemma Segment.hasPage_of_covers (h : s.virtualAddr + s.memSize ≤ 2 ^ 48) (ha : s.Covers a) :
    s.HasPage (a / 4096) := by
  rw [HasPage, firstPage_add_nbPages h, firstPage]
  obtain ⟨hle, hlt⟩ := ha
  omega

lemma Segment.getByteSize_chunk (h : s.virtualAddr + s.memSize ≤ 2 ^ 48) (q : Provision) :
    (q.chunk s.nbPages).getByteSize = s.nbPages * 4096 := by
  have hfit := fits h
  rw [MemoryChunk.getByteSize, Provision.nbPages_chunk]
  exact Nat.mod_eq_of_lt (by omega)

/-- What comes from the file fits in the pages. -/
lemma Segment.fileSize_fits (h : s.virtualAddr + s.memSize ≤ 2 ^ 48) (hsize : s.fileSize ≤ s.memSize) :
    s.virtualAddr % 4096 + s.fileSize ≤ s.nbPages * 4096 := by
  rw [nbPages, nbPagesOf_eq h]
  omega

end

/-! ### The chunk of a segment -/

/-- The bytes that a segment has in the file. -/
def Segment.data (buffer : List UInt8) (s : Segment) : List UInt8 :=
  (buffer.drop s.offset).take s.fileSize

/-- The chunk that is made for a segment. -/
def Segment.chunk (buffer : List UInt8) (s : Segment) (q : Provision) : MemoryChunk :=
  (q.chunk s.nbPages).write (s.virtualAddr % 4096) (s.data buffer)

section

variable {s : Segment} {q : Provision} {c : MemoryChunk}

lemma Segment.length_data (h : s.offset + s.fileSize ≤ buffer.length) :
    (s.data buffer).length = s.fileSize := by
  rw [data, List.length_take, List.length_drop]
  exact Nat.min_eq_left (Nat.le_sub_of_add_le' h)

lemma Segment.getElem_data (hi : i < s.fileSize) :
    (s.data buffer)[i]? = buffer[s.offset + i]? := by
  rw [data, List.getElem?_take_of_lt hi, List.getElem?_drop]

lemma Segment.readBytes_data (hlen : buffer.length < 2 ^ 64)
    (h : s.offset + s.fileSize ≤ buffer.length) :
    readBytes (imageByte buffer) s.fileSize s.offset = some (s.data buffer) := by
  refine readBytes_eq_some_iff.mpr ⟨length_data h, fun i hi => ?_⟩
  have hi' : i < s.fileSize := length_data h ▸ hi
  have hlt : s.offset + i < 2 ^ 64 := (Nat.add_lt_add_left hi' _).trans_le (h.trans hlen.le)
  rw [imageByte, Nat.mod_eq_of_lt hlt, ← getElem_data hi', List.getElem?_eq_getElem hi]

lemma write_nil : c.write k [] = c := by
  have hbytes : blit c.bytes k [] = c.bytes := by
    funext i
    rw [blit]
    split_ifs <;> rfl
  rw [MemoryChunk.write, List.take_nil, hbytes]

/-- The whole data of the segment is copied. -/
lemma WellFormed.copySegment_eq (hw : WellFormed buffer phOff count) (hi : i < count)
    (hload : (read buffer phOff i).IsLoad) (hmem : (q.chunk (read buffer phOff i).nbPages).hasMemory = true) :
    copySegment buffer (programHeaderAt phOff i) ((read buffer phOff i).virtualAddr % 4096)
      (q.chunk (read buffer phOff i).nbPages) = some ((read buffer phOff i).chunk buffer q) := by
  have hdata := hw.data i hi hload
  have hspace := hw.space i hi hload
  rw [copySegment, hw.phFileSize_eq hi, Option.bind_eq_bind, Option.bind_some, Segment.chunk]
  by_cases hpos : 0 < (read buffer phOff i).fileSize
  · have hfits := fileSize_fits hspace (hw.sizes i hi hload)
    rw [← getByteSize_chunk hspace q] at hfits
    rw [if_pos hpos, hw.phOffset_eq hi, Option.bind_some, MemoryChunk.writeSize_of_le hmem hpos hfits]
    simp only [readBytes_data hw.length hdata, Option.bind_eq_bind, Option.bind_some, if_true,
      Option.pure_def]
  · have hnil : (read buffer phOff i).data buffer = [] := by
      rw [Segment.data, Nat.eq_zero_of_not_pos hpos, List.take_zero]
    rw [if_neg hpos, hnil, write_nil]
    rfl

/-- The bytes of the chunk: what the file has for the segment, and zeros around it. -/
lemma Segment.bytes_chunk (hmem : (q.chunk s.nbPages).hasMemory = true)
    (hdata : s.offset + s.fileSize ≤ buffer.length) (hspace : s.virtualAddr + s.memSize ≤ 2 ^ 48)
    (hsizes : s.fileSize ≤ s.memSize) (ha : s.firstPage ≤ a / 4096) :
    (s.chunk buffer q).bytes (4096 * (a / 4096 - s.firstPage) + a % 4096) =
      if s.virtualAddr ≤ a then s.byteAt buffer a else 0 := by
  have hlen := length_data hdata
  have hva := Nat.div_add_mod s.virtualAddr 4096
  have hdiv := Nat.div_add_mod a 4096
  rw [Segment.firstPage] at ha ⊢
  rw [Segment.chunk]
  split_ifs with hle
  · have hindex : 4096 * (a / 4096 - s.virtualAddr / 4096) + a % 4096 =
        s.virtualAddr % 4096 + (a - s.virtualAddr) := by omega
    rw [hindex, byteAt]
    split_ifs with hlt
    · have hpos : a - s.virtualAddr < (s.data buffer).length := by omega
      rw [MemoryChunk.bytes_write_of_le hmem, blit_add hpos, ← getElem_data (by omega),
        List.getElem?_eq_getElem hpos, Option.getD_some]
      rw [getByteSize_chunk hspace, hlen]
      exact fileSize_fits hspace hsizes
    · rw [MemoryChunk.bytes_write_of_ge]
      · rfl
      · rw [hlen]
        omega
  · rw [MemoryChunk.bytes_write_of_lt]
    · rfl
    · omega

end

/-! ### Loading -/

/-- A segment of a well-formed file is loaded when there is enough memory. -/
lemma WellFormed.loadSegment_eq (hw : WellFormed buffer phOff count) (hi : i < count)
    (hload : (read buffer phOff i).IsLoad) (hkind : S.kind = .process) {q : Provision} {fs : List Frame}
    (hgives : q.Gives fs) (hlen : fs.length = (read buffer phOff i).nbPages) {n : ℕ}
    (ht : PageTables S task.table (n + (read buffer phOff i).nbPages)) :
    ∃ task', loadSegment S.table buffer q (programHeaderAt phOff i) task = some (some task') ∧
      task'.chunks = task.chunks ++ [(read buffer phOff i).chunk buffer q] ∧
      PageTables S task'.table n ∧ ∃ pas, ((read buffer phOff i).chunk buffer q).pas = some pas ∧
        (∀ k (hk : k < fs.length), pas k = fs[k].address) ∧ ∀ p < 2 ^ 36,
          translate S.table task'.table (pageAddr p) =
            if (read buffer phOff i).HasPage p then
              some (pas (p - (read buffer phOff i).firstPage), getProperties false true)
            else translate S.table task.table (pageAddr p) := by
  have hspace := hw.space i hi hload
  have hserves := hgives.serves
  have hmem := hgives.hasMemory
  obtain ⟨pas, hpas, hframes⟩ := hgives.exists_pas
  rw [hlen] at hserves hmem hpas
  obtain ⟨table', hmap, ht', htr⟩ : ∃ table', MemoryChunk.mapPages S.table (getProperties false true) pas
      ((read buffer phOff i).firstPage * 4096) 0 (read buffer phOff i).nbPages task.table = _ ∧ _ :=
    PageTables.mapPages ht hkind (fun k _ hk => ⟨fs[k], hframes k (by omega)⟩) (fits hspace)
  have hchunk : mapSegment S.table q (read buffer phOff i).virtualAddr (read buffer phOff i).memSize
      task.table = some (true, table') := by
    rw [mapSegment]
    exact (MemoryChunk.mapChunk_of_pas hpas).trans hmap
  have hcopy := hw.copySegment_eq hi hload hmem
  rw [← sub_vaStart] at hcopy
  have hrun : loadSegment S.table buffer q (programHeaderAt phOff i) task = _ :=
    loadSegment_of_serves (hload ▸ hw.phType_eq hi) (hw.phVirtualAddr_eq hi) (hw.phMemSize_eq hi)
      (hw.phFlags_eq hi) hserves
  refine ⟨⟨task.pc, task.chunks ++ [(read buffer phOff i).chunk buffer q], table'⟩, ?_, rfl, ht', pas,
    hpas, hframes, htr⟩
  rw [nbPages] at hcopy
  rw [hrun, hchunk, Option.bind_some, if_pos rfl, hcopy, Option.bind_some]

/-- The task after the program headers before `i`: its chunks, and which of them has the pages that are
not taken by a later one. -/
structure ImageUpTo (S : Services) (buffer : List UInt8) (phOff : ℕ) (env : ℕ → Provision) (i : ℕ)
    (task : LoadedTask) : Prop where
  chunks : ∀ c, c ∈ task.chunks ↔
    ∃ j < i, (read buffer phOff j).IsLoad ∧ c = (read buffer phOff j).chunk buffer (env j)
  pages : ∀ j < i, (read buffer phOff j).IsLoad → ∀ p, (read buffer phOff j).HasPage p →
    (∀ l, j < l → l < i → (read buffer phOff l).IsLoad → ¬(read buffer phOff l).HasPage p) →
    ∃ pas, ((read buffer phOff j).chunk buffer (env j)).pas = some pas ∧
      translate S.table task.table (pageAddr p) =
        some (pas (p - (read buffer phOff j).firstPage), getProperties false true)

lemma ImageUpTo.skip (h : ImageUpTo S buffer phOff env i task) (hno : ¬(read buffer phOff i).IsLoad) :
    ImageUpTo S buffer phOff env (i + 1) task := by
  constructor
  · intro c
    rw [h.chunks]
    constructor
    · rintro ⟨j, hj, hload, rfl⟩
      exact ⟨j, hj.trans (Nat.lt_succ_self i), hload, rfl⟩
    · rintro ⟨j, hj, hload, rfl⟩
      have hne : j ≠ i := by
        rintro rfl
        exact hno hload
      exact ⟨j, lt_of_le_of_ne (Nat.le_of_lt_succ hj) hne, hload, rfl⟩
  · intro j hj hload p hp hlast
    have hne : j ≠ i := by
      rintro rfl
      exact hno hload
    exact h.pages j (lt_of_le_of_ne (Nat.le_of_lt_succ hj) hne) hload p hp fun l hjl hli =>
      hlast l hjl (hli.trans (Nat.lt_succ_self i))

/-- The chunk of one more segment takes its pages. -/
lemma ImageUpTo.load {task' : LoadedTask} {pas : ℕ → PhysicalPA}
    (h : ImageUpTo S buffer phOff env i task) (hw : WellFormed buffer phOff count) (hi : i < count)
    (hload : (read buffer phOff i).IsLoad)
    (hchunks : task'.chunks = task.chunks ++ [(read buffer phOff i).chunk buffer (env i)])
    (hpas : ((read buffer phOff i).chunk buffer (env i)).pas = some pas)
    (htr : ∀ p < 2 ^ 36, translate S.table task'.table (pageAddr p) =
      if (read buffer phOff i).HasPage p then
        some (pas (p - (read buffer phOff i).firstPage), getProperties false true)
      else translate S.table task.table (pageAddr p)) :
    ImageUpTo S buffer phOff env (i + 1) task' := by
  constructor
  · intro c
    rw [hchunks, List.mem_append, List.mem_singleton, h.chunks]
    constructor
    · rintro (⟨j, hj, hj', rfl⟩ | rfl)
      · exact ⟨j, hj.trans (Nat.lt_succ_self i), hj', rfl⟩
      · exact ⟨i, Nat.lt_succ_self i, hload, rfl⟩
    · rintro ⟨j, hj, hj', rfl⟩
      rcases Nat.lt_succ_iff_lt_or_eq.mp hj with hlt | rfl
      · exact Or.inl ⟨j, hlt, hj', rfl⟩
      · exact Or.inr rfl
  · intro j hj hj' p hp hlast
    have hp36 : p < 2 ^ 36 :=
      hp.2.trans_le (fits (hw.space j ((Nat.le_of_lt_succ hj).trans_lt hi) hj'))
    rw [htr p hp36]
    rcases Nat.lt_succ_iff_lt_or_eq.mp hj with hlt | rfl
    · rw [if_neg (hlast i hlt (Nat.lt_succ_self i) hload)]
      exact h.pages j hlt hj' p hp fun l hjl hli => hlast l hjl (hli.trans (Nat.lt_succ_self i))
    · rw [if_pos hp]
      exact ⟨pas, hpas, rfl⟩

/-- All segments are loaded when no program header is refused. -/
lemma WellFormed.loadSegments_eq (hw : WellFormed buffer phOff count) (hkind : S.kind = .process)
    (hgives : ∀ j < count, (read buffer phOff j).IsLoad →
      (env j).Gives (frames j) ∧ (frames j).length = (read buffer phOff j).nbPages)
    (hsizes : ∀ j < count, (read buffer phOff j).fileSize ≤ (read buffer phOff j).memSize) {left : ℕ}
    (hi : i + left = count) (himage : ImageUpTo S buffer phOff env i task)
    (ht : PageTables S task.table (∑ j ∈ Finset.Ico i count, pagesFor buffer phOff j)) :
    ∃ task', loadSegments S.table buffer env i left task = some (some task') ∧
      ImageUpTo S buffer phOff env count task' := by
  induction left generalizing i task with
  | zero =>
    rw [Nat.add_zero] at hi
    subst hi
    exact ⟨task, rfl, himage⟩
  | succ left ih =>
    have hlt : i < count := hi ▸ Nat.lt_add_of_pos_right (Nat.succ_pos left)
    have hnext : i + 1 + left = count := by
      rw [← hi]
      ring
    rw [Finset.sum_eq_sum_Ico_succ_bot hlt, Nat.add_comm, pagesFor] at ht
    rw [loadSegments, getProgramHeader_eq hlt hw.entries hw.offset (hw.phMemSize_eq hlt)
      (hw.phFileSize_eq hlt), if_neg (hsizes i hlt).not_gt]
    by_cases hload : (read buffer phOff i).IsLoad
    · rw [if_pos hload] at ht
      obtain ⟨hgive, hlen⟩ := hgives i hlt hload
      obtain ⟨task₁, hrun, hchunks, ht₁, pas, hpas, -, htr⟩ := hw.loadSegment_eq hlt hload hkind hgive hlen ht
      obtain ⟨task₂, hrest, himage₂⟩ := ih hnext (himage.load hw hlt hload hchunks hpas htr) ht₁
      refine ⟨task₂, ?_, himage₂⟩
      simp [hrun, hrest]
    · rw [if_neg hload, Nat.add_zero] at ht
      obtain ⟨task₂, hrest, himage₂⟩ := ih hnext (himage.skip hload) ht
      refine ⟨task₂, ?_, himage₂⟩
      simp [loadSegment_of_ne (hw.phType_eq hlt) hload, hrest]

/-- A program header with more bytes in the file than in memory ends the loading. -/
lemma WellFormed.sizes_of_loadSegments {tbl : MMUTable} {task' : LoadedTask} {left : ℕ}
    (hw : WellFormed buffer phOff count) (hi : i + left = count)
    (hrun : loadSegments tbl buffer env i left task = some (some task')) :
    ∀ j, i ≤ j → j < count → (read buffer phOff j).fileSize ≤ (read buffer phOff j).memSize := by
  induction left generalizing i task with
  | zero =>
    intro j hij hj
    rw [← hi] at hj
    exact absurd hj (Nat.not_lt.mpr hij)
  | succ left ih =>
    have hlt : i < count := hi ▸ Nat.lt_add_of_pos_right (Nat.succ_pos left)
    have hnext : i + 1 + left = count := by
      rw [← hi]
      ring
    rw [loadSegments, getProgramHeader_eq hlt hw.entries hw.offset (hw.phMemSize_eq hlt)
      (hw.phFileSize_eq hlt)] at hrun
    by_cases hsize : (read buffer phOff i).memSize < (read buffer phOff i).fileSize
    · rw [if_pos hsize] at hrun
      cases hrun
    · rw [if_neg hsize, Option.bind_eq_bind, Option.bind_some] at hrun
      obtain ⟨r, -, hrun⟩ := Option.bind_eq_some_iff.mp hrun
      intro j hij hj
      rcases Nat.eq_or_lt_of_le hij with rfl | hij
      · exact Nat.le_of_not_lt hsize
      · cases r with
        | none => cases hrun
        | some task => exact ih hnext hrun j hij hj

/-- A new process has its stack. -/
lemma createTaskCommon_eq (hkind : S.kind = .process) (hstack : stack.Gives stackFrames)
    (hlen : stackFrames.length = 2) {n : ℕ} (hl : Lasts S.alloc (3 * (n + 2)) []) :
    ∃ table, createTaskCommon S.table stack = some (some table) ∧ PageTables S table n := by
  have hserves := hstack.serves
  have hmem := hstack.hasMemory
  obtain ⟨pas, hpas, hframes⟩ := hstack.exists_pas
  rw [hlen] at hserves hmem hpas
  have hnew : PageTables S emptyState (n + 2) :=
    ⟨_, holds_emptyState S, Entries.wf_empty, hl⟩
  obtain ⟨table, hmap, ht, -⟩ : ∃ table, MemoryChunk.mapPages S.table (getProperties false false) pas
      (0xf00000000 * 4096) 0 2 emptyState = _ ∧ _ :=
    PageTables.mapPages hnew hkind (fun k _ hk => ⟨stackFrames[k], hframes k (by omega)⟩) (by norm_num)
  refine ⟨table, ?_, ht⟩
  rw [createTaskCommon, MemoryChunk.create_eq_some_iff.mpr ⟨hserves, rfl⟩, Option.bind_eq_bind,
    Option.bind_some, if_pos hmem, MemoryChunk.mapChunk_of_pas hpas]
  change (MemoryChunk.mapPages S.table (getProperties false false) pas (0xf00000000 * 4096) 0 2
    emptyState).bind _ = _
  rw [hmap]
  rfl

/-! ### The image -/

lemma exists_last {P : ℕ → Prop} (hi : i < count) (hP : P i) :
    ∃ l, i ≤ l ∧ l < count ∧ P l ∧ ∀ m, l < m → m < count → ¬P m := by
  classical
  have hle : i ≤ count - 1 := Nat.le_sub_one_of_lt hi
  refine ⟨Nat.findGreatest P (count - 1), Nat.le_findGreatest hle hP, ?_, Nat.findGreatest_spec hle hP,
    fun m hm hmc => Nat.findGreatest_is_greatest hm (Nat.le_sub_one_of_lt hmc)⟩
  exact (Nat.findGreatest_le _).trans_lt (Nat.sub_lt (Nat.zero_lt_of_lt hi) Nat.one_pos)

/-- The pages of the chunk of a segment are its frames. -/
lemma EnoughMemory.exists_pas (hm : EnoughMemory S buffer phOff count stack env stackFrames frames)
    (hi : i < count) (hload : (read buffer phOff i).IsLoad) :
    ∃ pas, ((read buffer phOff i).chunk buffer (env i)).pas = some pas ∧
      ∀ k < (read buffer phOff i).nbPages, ∃ f, (frames i)[k]? = some f ∧ pas k = f.address := by
  obtain ⟨hgives, hlen⟩ := hm.segments i hi hload
  obtain ⟨pas, hpas, hframes⟩ := hgives.exists_pas
  rw [hlen] at hpas
  refine ⟨pas, hpas, fun k hk => ?_⟩
  rw [← hlen] at hk
  exact ⟨_, List.getElem?_eq_getElem hk, hframes k hk⟩

/-- The process finds at an address what the last segment that takes its page has there. -/
lemma ImageUpTo.finds_iff (himage : ImageUpTo S buffer phOff env count task)
    (hw : WellFormed buffer phOff count)
    (hm : EnoughMemory S buffer phOff count stack env stackFrames frames) (hi : i < count)
    (hload : (read buffer phOff i).IsLoad) (hpage : (read buffer phOff i).HasPage (a / 4096))
    (hlast : ∀ l, i < l → l < count → (read buffer phOff l).IsLoad →
      ¬(read buffer phOff l).HasPage (a / 4096)) {attr : PagesAttributes} {b : UInt8} :
    task.Finds S.table a attr b ↔ attr = getProperties false true ∧
      b = if (read buffer phOff i).virtualAddr ≤ a then (read buffer phOff i).byteAt buffer a else 0 := by
  have hmem : ((env i).chunk (read buffer phOff i).nbPages).hasMemory = true := by
    obtain ⟨hgives, hlen⟩ := hm.segments i hi hload
    exact hlen ▸ hgives.hasMemory
  have hbytes := bytes_chunk hmem (hw.data i hi hload) (hw.space i hi hload) (hw.sizes i hi hload) hpage.1
  have hk : a / 4096 - (read buffer phOff i).firstPage < (read buffer phOff i).nbPages :=
    Nat.sub_lt_left_of_lt_add hpage.1 hpage.2
  obtain ⟨pas, hpas, htr⟩ := himage.pages i hi hload _ hpage hlast
  obtain ⟨pas', hpas', hframe⟩ := hm.exists_pas hi hload
  cases hpas.symm.trans hpas'
  rw [LoadedTask.Finds, htr]
  constructor
  · rintro ⟨pa, hpa, c, hc, pas', k, hcpas, hkc, hk', rfl⟩
    cases hpa
    obtain ⟨j, hj, hj', rfl⟩ := (himage.chunks c).mp hc
    obtain ⟨pas'', hpas'', hframe'⟩ := hm.exists_pas hj hj'
    cases hcpas.symm.trans hpas''
    obtain ⟨f, hf, hfa⟩ := hframe _ hk
    obtain ⟨f', hf', hfa'⟩ := hframe' k hkc
    obtain ⟨rfl, rfl⟩ := hm.distinct i hi j hj hload hj' _ _ f f' hf hf'
      (hfa.symm.trans (hk'.symm.trans hfa'))
    exact ⟨rfl, hbytes⟩
  · rintro ⟨rfl, rfl⟩
    exact ⟨_, rfl, _, (himage.chunks _).mpr ⟨i, hi, hload, rfl⟩, pas, _, hpas, hk, rfl, hbytes⟩

/-- A byte of a segment against the last segment that takes its page: the bytes of that one around its own
addresses are zero. -/
lemma ImageUpTo.finds_of_covers (himage : ImageUpTo S buffer phOff env count task)
    (hw : WellFormed buffer phOff count)
    (hm : EnoughMemory S buffer phOff count stack env stackFrames frames) (hi : i < count)
    (hload : (read buffer phOff i).IsLoad) (ha : (read buffer phOff i).Covers a) :
    ∃ l, i ≤ l ∧ l < count ∧ (read buffer phOff l).IsLoad ∧
      (∀ m, l < m → m < count → (read buffer phOff m).IsLoad →
        ¬(read buffer phOff m).HasPage (a / 4096)) ∧
      (read buffer phOff l).HasPage (a / 4096) ∧
      ∀ attr b, task.Finds S.table a attr b ↔ attr = getProperties false true ∧
        b = if l = i then (read buffer phOff i).byteAt buffer a else 0 := by
  have hpage := hasPage_of_covers (hw.space i hi hload) ha
  obtain ⟨l, hil, hl, ⟨hload', hpage'⟩, hlast⟩ := exists_last hi
    (P := fun l => (read buffer phOff l).IsLoad ∧ (read buffer phOff l).HasPage (a / 4096)) ⟨hload, hpage⟩
  have hlast' : ∀ m, l < m → m < count → (read buffer phOff m).IsLoad →
      ¬(read buffer phOff m).HasPage (a / 4096) := fun m hlm hm hload hp => hlast m hlm hm ⟨hload, hp⟩
  refine ⟨l, hil, hl, hload', hlast', hpage', fun attr b => ?_⟩
  rw [himage.finds_iff hw hm hl hload' hpage' hlast']
  by_cases hli : l = i
  · subst hli
    rw [if_pos ha.1, if_pos rfl]
  · have hout : ¬(read buffer phOff l).Covers a :=
      hw.disjoint i hi l hl hload hload' (Ne.symm hli) a ha
    have hzero : (if (read buffer phOff l).virtualAddr ≤ a then (read buffer phOff l).byteAt buffer a
        else 0) = 0 := by
      split_ifs with hle
      · have hsizes := hw.sizes l hl hload'
        have hbehind : (read buffer phOff l).virtualAddr + (read buffer phOff l).memSize ≤ a :=
          Nat.le_of_not_lt fun hlt => hout ⟨hle, hlt⟩
        rw [byteAt, if_neg]
        omega
      · rfl
    rw [hzero, if_neg hli]

lemma createTask_eq_some_iff {tbl : MMUTable} {table : Mmu.State} {entry : ℕ}
    (hcount : programHeaderEntryCount buffer = some count) (hentry : entryAddr buffer = some entry) :
    createTask tbl buffer env (some (some table)) = some (some task) ↔
      ∃ task', loadSegments tbl buffer env 0 count ⟨0, [], table⟩ = some (some task') ∧
        task = { task' with pc := entry } := by
  rw [createTask, hcount, hentry]
  cases hrun : loadSegments tbl buffer env 0 count ⟨0, [], table⟩ with
  | none => simp [hrun]
  | some r => cases r <;> simp [hrun, eq_comm]

lemma exists_entryAddr (hw : WellFormed buffer phOff count) : ∃ entry, entryAddr buffer = some entry :=
  Option.isSome_iff_exists.mp (isSome_readWord_iff.mpr (inside_header hw.length
    (isSome_readWord_iff.mp (Option.isSome_of_eq_some hw.entries)) (by norm_num)))

/-- The task that is made when no program header is refused. -/
lemma WellFormed.createTask_eq (hkind : S.kind = .process) (hw : WellFormed buffer phOff count)
    (hm : EnoughMemory S buffer phOff count stack env stackFrames frames)
    (hsizes : ∀ i < count, (read buffer phOff i).fileSize ≤ (read buffer phOff i).memSize) :
    ∃ task, createTask S.table buffer env (createTaskCommon S.table stack) = some (some task) ∧
      ImageUpTo S buffer phOff env count task := by
  obtain ⟨table, hcommon, ht⟩ := createTaskCommon_eq hkind hm.stack.1 hm.stack.2 hm.tables
  obtain ⟨entry, hentry⟩ := exists_entryAddr hw
  have hnone : ImageUpTo S buffer phOff env 0 ⟨0, [], table⟩ := by
    refine ⟨fun c => ?_, fun j hj => absurd hj (Nat.not_lt_zero j)⟩
    simp
  rw [Finset.range_eq_Ico] at ht
  obtain ⟨task, hrun, himage⟩ := hw.loadSegments_eq hkind hm.segments hsizes (Nat.zero_add count) hnone ht
  refine ⟨{ task with pc := entry }, ?_, himage.chunks, himage.pages⟩
  rw [hcommon]
  exact (createTask_eq_some_iff hw.entries hentry).mpr ⟨task, hrun, rfl⟩

lemma WellFormed.sizes_of_createTask {tbl : MMUTable} {common : Option (Option Mmu.State)}
    (hw : WellFormed buffer phOff count) (hrun : createTask tbl buffer env common = some (some task)) :
    ∀ i < count, (read buffer phOff i).fileSize ≤ (read buffer phOff i).memSize := by
  obtain ⟨entry, hentry⟩ := exists_entryAddr hw
  match common, hrun with
  | some (some table), hrun =>
    obtain ⟨task', hrun', -⟩ := (createTask_eq_some_iff hw.entries hentry).mp hrun
    exact fun i hi => hw.sizes_of_loadSegments (Nat.zero_add count) hrun' i (Nat.zero_le i) hi

lemma nothingLost_of_buildsImage (hkind : S.kind = .process) (hw : WellFormed buffer phOff count)
    (hm : EnoughMemory S buffer phOff count stack env stackFrames frames)
    (h : BuildsImage S.table buffer phOff count stack env) : NothingLost buffer phOff count := by
  obtain ⟨task, hrun, hfinds⟩ := h
  obtain ⟨task', hrun', himage⟩ := hw.createTask_eq hkind hm (hw.sizes_of_createTask hrun)
  cases hrun.symm.trans hrun'
  intro i j hij hj hloadi hloadj a ha hp
  obtain ⟨attr, hfind, -⟩ := hfinds i (hij.trans hj) hloadi a ha
  obtain ⟨l, hil, hl, -, hlast, -, hiff⟩ := himage.finds_of_covers hw hm (hij.trans hj) hloadi ha
  have hlj : l ≠ i := by
    rintro rfl
    exact hlast j hij hj hloadj hp
  rw [((hiff _ _).mp hfind).2, if_neg hlj]

lemma buildsImage_of_nothingLost (hkind : S.kind = .process) (hw : WellFormed buffer phOff count)
    (hm : EnoughMemory S buffer phOff count stack env stackFrames frames)
    (hsizes : ∀ i < count, (read buffer phOff i).fileSize ≤ (read buffer phOff i).memSize)
    (hlost : NothingLost buffer phOff count) : BuildsImage S.table buffer phOff count stack env := by
  obtain ⟨task, hrun, himage⟩ := hw.createTask_eq hkind hm hsizes
  refine ⟨task, hrun, fun i hi hloadi a ha => ⟨getProperties false true, ?_, rfl, fun _ => rfl,
    fun _ => rfl⟩⟩
  obtain ⟨l, hil, hl, hloadl, -, hp, hiff⟩ := himage.finds_of_covers hw hm hi hloadi ha
  refine (hiff _ _).mpr ⟨rfl, ?_⟩
  split_ifs with hli
  · rfl
  · exact hlost i l (lt_of_le_of_ne hil (Ne.symm hli)) hl hloadi hloadl a ha hp

/-- The image is what the file describes exactly when no program header is refused, and no segment takes
a page in which an earlier one has more than zeros. -/
theorem buildsImage_iff (hkind : S.kind = .process) (hw : WellFormed buffer phOff count)
    (hm : EnoughMemory S buffer phOff count stack env stackFrames frames) :
    BuildsImage S.table buffer phOff count stack env ↔
      (∀ i < count, (read buffer phOff i).fileSize ≤ (read buffer phOff i).memSize) ∧
        NothingLost buffer phOff count := by
  constructor
  · intro h
    obtain ⟨task, hrun, -⟩ := id h
    exact ⟨hw.sizes_of_createTask hrun, nothingLost_of_buildsImage hkind hw hm h⟩
  · rintro ⟨hsizes, hlost⟩
    exact buildsImage_of_nothingLost hkind hw hm hsizes hlost

/-! ### Two segments -/

/-- A program header for a segment of one byte that can be written. -/
def oneByteSegment (offset virtualAddr : ℕ) : List UInt8 :=
  leBytes 4 1 ++ leBytes 4 6 ++ leBytes 8 offset ++ leBytes 8 virtualAddr ++ leBytes 8 virtualAddr ++
    leBytes 8 1 ++ leBytes 8 1 ++ leBytes 8 4096

/-- A file with two segments of one byte each, the first at `0x1000`. -/
def twoSegments (virtualAddr : ℕ) : List UInt8 :=
  [0x7f, 0x45, 0x4c, 0x46, 2, 1, 1] ++ List.replicate 9 0 ++ leBytes 2 2 ++ leBytes 2 0xb7 ++
    leBytes 4 1 ++ leBytes 8 0x1000 ++ leBytes 8 64 ++ leBytes 8 0 ++ leBytes 4 0 ++ leBytes 2 64 ++
    leBytes 2 56 ++ leBytes 2 2 ++ leBytes 6 0 ++ oneByteSegment 176 0x1000 ++
    oneByteSegment 177 virtualAddr ++ [0xaa, 0xbb]

def frameAt (n : ℕ) : Frame where
  address := pageAddr (0x40000 + n % 16)
  aligned := by
    rw [toNat_pageAddr]
    omega
  fits := by
    rw [toNat_pageAddr]
    omega

lemma frameAt_inj {n m : ℕ} (hn : n < 16) (hm : m < 16) :
    (frameAt n).address = (frameAt m).address → n = m := by
  rw [frameAt, frameAt, pageAddr_inj (by omega) (by omega)]
  omega

def stackOfTwo : Provision := ⟨some fun _ => 0, [.page (frameAt 0), .page (frameAt 1)]⟩

def pageForEach (i : ℕ) : Provision := ⟨some fun _ => 0, [.page (frameAt (2 + i))]⟩

section

variable {va : ℕ}

lemma wellFormed_twoSegments
    (hheader : programHeaderOffset (twoSegments va) = some 64 ∧
      programHeaderEntryCount (twoSegments va) = some 2)
    (hlen : (twoSegments va).length = 178) (h₀ : read (twoSegments va) 64 0 = ⟨1, 6, 176, 0x1000, 1, 1⟩)
    (h₁ : read (twoSegments va) 64 1 = ⟨1, 6, 177, va, 1, 1⟩) (hne : va ≠ 0x1000) (hva : va + 1 ≤ 2 ^ 48) :
    WellFormed (twoSegments va) 64 2 := by
  have hread : ∀ i < 2, read (twoSegments va) 64 i = ⟨1, 6, 176, 0x1000, 1, 1⟩ ∨
      read (twoSegments va) 64 i = ⟨1, 6, 177, va, 1, 1⟩ := by
    intro i hi
    interval_cases i
    · exact Or.inl h₀
    · exact Or.inr h₁
  refine ⟨?_, hheader.1, hheader.2, ?_, ?_, ?_, ?_, ?_⟩
  · rw [hlen]
    norm_num
  · rw [hlen]
    norm_num
  · intro i hi _
    rcases hread i hi with h | h <;> simp [h, hlen]
  · intro i hi _
    rcases hread i hi with h | h <;> rw [h]
  · intro i hi _
    rcases hread i hi with h | h <;> rw [h]
    · norm_num
    · exact hva
  · intro i hi j hj _ _ hij a
    interval_cases i <;> interval_cases j <;> simp only [h₀, h₁, Covers] <;> omega

lemma enoughMemory_twoSegments (h₀ : read (twoSegments va) 64 0 = ⟨1, 6, 176, 0x1000, 1, 1⟩)
    (h₁ : read (twoSegments va) 64 1 = ⟨1, 6, 177, va, 1, 1⟩) (hpages : nbPagesOf va 1 = 1) :
    EnoughMemory (identity .process) (twoSegments va) 64 2 stackOfTwo pageForEach
      [frameAt 0, frameAt 1] fun i => [frameAt (2 + i)] := by
  have hone : ∀ i < 2, (read (twoSegments va) 64 i).nbPages = 1 := by
    intro i hi
    interval_cases i
    · rw [h₀]
      decide
    · rw [h₁]
      exact hpages
  refine ⟨⟨⟨rfl, [], rfl⟩, rfl⟩, fun i hi _ => ⟨⟨rfl, [], rfl⟩, (hone i hi).symm⟩, ?_, ?_⟩
  · intro i hi j hj _ _ k l f f' hf hf' haddr
    match k, l with
    | 0, 0 =>
      cases hf
      cases hf'
      have heq : 2 + i = 2 + j := frameAt_inj (by omega) (by omega) haddr
      exact ⟨Nat.add_left_cancel heq, rfl⟩
    | k + 1, _ => simp at hf
    | 0, l + 1 => simp at hf'
  · have hfor : ∀ i < 2, pagesFor (twoSegments va) 64 i = 1 := by
      intro i hi
      rw [pagesFor, if_pos, hone i hi]
      interval_cases i
      · rw [h₀, IsLoad]
      · rw [h₁, IsLoad]
    rw [Finset.sum_range_succ, Finset.sum_range_one, hfor 0 (by norm_num), hfor 1 (by norm_num)]
    exact (by decide +kernel : Lasts poolAlloc 12 [])

end

/-- Two segments in two pages. -/
theorem buildsImage_iff_twoPages :
    BuildsImage (identity .process).table (twoSegments 0x2000) 64 2 stackOfTwo pageForEach := by
  have h₀ : read (twoSegments 0x2000) 64 0 = ⟨1, 6, 176, 0x1000, 1, 1⟩ := by decide +kernel
  have h₁ : read (twoSegments 0x2000) 64 1 = ⟨1, 6, 177, 0x2000, 1, 1⟩ := by decide +kernel
  have hw : WellFormed (twoSegments 0x2000) 64 2 :=
    wellFormed_twoSegments (by decide +kernel) (by decide +kernel) h₀ h₁ (by norm_num) (by norm_num)
  refine (buildsImage_iff rfl hw (enoughMemory_twoSegments h₀ h₁ (by decide))).mpr ⟨?_, ?_⟩
  · intro i hi
    interval_cases i
    · rw [h₀]
    · rw [h₁]
  · intro i j hij hj _ _ a ha hp
    obtain ⟨rfl, rfl⟩ : i = 0 ∧ j = 1 := by omega
    rw [h₀] at ha
    rw [h₁] at hp
    have hle : 0x1000 ≤ a ∧ a < 0x1000 + 1 := ha
    have hpage : 0x2000 / 4096 ≤ a / 4096 := hp.1
    omega

/-- Two segments in one page: of the first, a zero is left. -/
theorem not_buildsImage_onePage :
    ¬BuildsImage (identity .process).table (twoSegments 0x1001) 64 2 stackOfTwo pageForEach := by
  have h₀ : read (twoSegments 0x1001) 64 0 = ⟨1, 6, 176, 0x1000, 1, 1⟩ := by decide +kernel
  have h₁ : read (twoSegments 0x1001) 64 1 = ⟨1, 6, 177, 0x1001, 1, 1⟩ := by decide +kernel
  have hw : WellFormed (twoSegments 0x1001) 64 2 :=
    wellFormed_twoSegments (by decide +kernel) (by decide +kernel) h₀ h₁ (by norm_num) (by norm_num)
  intro h
  have hlost := nothingLost_of_buildsImage rfl hw (enoughMemory_twoSegments h₀ h₁ (by decide)) h 0 1
    Nat.one_pos (by norm_num)
  rw [h₀, h₁] at hlost
  have hzero : byteAt (twoSegments 0x1001) ⟨1, 6, 176, 0x1000, 1, 1⟩ 0x1000 = 0 :=
    hlost rfl rfl 0x1000 ⟨by decide, by decide⟩ ⟨by decide, by decide⟩
  exact absurd hzero (by decide +kernel)

end PiKachulm.Loader

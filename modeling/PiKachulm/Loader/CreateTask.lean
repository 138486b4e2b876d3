import PiKachulm.Loader.Elf
import PiKachulm.Memory.MemoryChunk

/-!
# Loading a program

`create_task` reads an ELF file and maps a chunk for each of its segments. What the kernel still has of
memory is given, for each segment, by a `Provision`, and by the allocator of the translation tables. A
computation without a result reads outside the buffer of the file, fails an assertion or panics.
-/

namespace PiKachulm.Loader

open Core Libk Memory Mmu Services

/-- What `create_task` makes of the task: its program counter, its chunks and its tables. -/
structure LoadedTask where
  pc : ℕ
  chunks : List MemoryChunk
  table : Mmu.State

/-- The first address of the page of a segment. -/
def vaStart (virtualAddr : ℕ) : ℕ := virtualAddr / 4096 * 4096

/-- `div_round_up` of the size of a segment from the start of its first page, in 64 bits. -/
def nbPagesOf (virtualAddr memSize : ℕ) : ℕ :=
  wsub (wadd (wadd (virtualAddr - vaStart virtualAddr) memSize) 4096) 1 / 4096

/-- The flags are tested with `operator&`. -/
def isExecutable (flags : ℕ) : Bool := andFlag flags 1 ≠ 0

def isWritable (flags : ℕ) : Bool := andFlag flags 2 ≠ 0

/-- The bytes of the segment are copied from the file; the assertion is that there was room for all of
them. -/
def copySegment (buffer : List UInt8) (ph byteOffset : ℕ) (chunk : MemoryChunk) :
    Option MemoryChunk := do
  let fileSize ← phFileSize buffer ph
  if fileSize > 0 then
    let offset ← phOffset buffer ph
    let writtenBytes := chunk.writeSize byteOffset fileSize
    let data ← readBytes (imageByte buffer) writtenBytes offset
    if writtenBytes = fileSize then pure (chunk.write byteOffset data) else none
  else pure chunk

/-- The body of the loop of `create_task`, for the program header at `ph`; the result is null when the
pages cannot be mapped. -/
def loadSegment (tbl : MMUTable) (buffer : List UInt8) (p : Provision) (ph : ℕ) (task : LoadedTask) :
    Option (Option LoadedTask) := do
  let type ← phType buffer ph
  if isLoad type then
    let virtualAddr ← phVirtualAddr buffer ph
    let memSize ← phMemSize buffer ph
    let flags ← phFlags buffer ph
    let chunk ← MemoryChunk.create (nbPagesOf virtualAddr memSize) p
    let (isMapped, table) ← chunk.mapChunk tbl (vaStart virtualAddr) (!isWritable flags)
      (isExecutable flags) task.table
    if isMapped then
      let chunk ← copySegment buffer ph (virtualAddr - vaStart virtualAddr) chunk
      pure (some { task with chunks := task.chunks ++ [chunk], table := table })
    else pure none
  else pure (some task)

/-- The loop of `create_task` from program header `i` on. -/
def loadSegments (tbl : MMUTable) (buffer : List UInt8) (env : ℕ → Provision) :
    ℕ → ℕ → LoadedTask → Option (Option LoadedTask)
  | _, 0, task        => some (some task)
  | i, left + 1, task => do
    match ← getProgramHeader buffer i with
    | none    => pure none
    | some ph =>
      match ← loadSegment tbl buffer (env i) ph task with
      | none      => pure none
      | some task => loadSegments tbl buffer env (i + 1) left task

/-- `PROCESS_STACK_BASE`. -/
def processStackBase : ℕ := 0xf00000000000

/-- `create_task_common` for a process, as far as its memory goes: the stack, of two pages, is mapped in
new tables. The kernel panics when there is no memory for it. -/
def createTaskCommon (tbl : MMUTable) (stack : Provision) : Option (Option Mmu.State) := do
  let chunk ← MemoryChunk.create 2 stack
  if chunk.hasMemory then
    let (_, table) ← chunk.mapChunk tbl processStackBase false false emptyState
    pure (some table)
  else none

/-- `create_task` for a program image. `common` is what `create_task_common` makes: the tables of the
new task, in which its stack is mapped. -/
def createTask (tbl : MMUTable) (buffer : List UInt8) (env : ℕ → Provision)
    (common : Option (Option Mmu.State)) : Option (Option LoadedTask) := do
  match ← common with
  | none       => pure none
  | some table =>
    let count ← programHeaderEntryCount buffer
    match ← loadSegments tbl buffer env 0 count { pc := 0, chunks := [], table := table } with
    | none      => pure none
    | some task =>
      let entry ← entryAddr buffer
      pure (some { task with pc := entry })

/-- Whether the file can be opened, there is a buffer for it, and it can be read. -/
structure FileAnswer where
  opened : Bool
  allocated : Bool
  read : Bool

/-- The buffer into which a file is read, whose size is a 32-bit number. -/
def elfBuffer (file : List UInt8) : List UInt8 := file.take (file.length % 2 ^ 32)

/-- `create_task` for a path. -/
def createTaskOfPath (tbl : MMUTable) (answer : FileAnswer) (file : List UInt8)
    (env : ℕ → Provision) (common : Option (Option Mmu.State)) : Option (Option LoadedTask) :=
  if answer.opened && answer.allocated && answer.read then do
    match ← checkHeader (elfBuffer file) with
    | .none => createTask tbl (elfBuffer file) env common
    | _     => pure none
  else pure none

/-! ### What is needed to survive a file -/

/-- The pages of a segment are mapped to those that are found for it. -/
def mapSegment (tbl : MMUTable) (p : Provision) (virtualAddr memSize : ℕ) (table : Mmu.State) :
    Option (Bool × Mmu.State) :=
  (p.chunk (nbPagesOf virtualAddr memSize)).mapChunk tbl (vaStart virtualAddr) false true table

variable {tbl : MMUTable} {buffer : List UInt8} {p : Provision} {ph : ℕ} {task : LoadedTask}

@[simp] lemma isExecutable_eq (flags : ℕ) : isExecutable flags = true :=
  decide_eq_true (andFlag_ne_zero Nat.one_ne_zero)

@[simp] lemma isWritable_eq (flags : ℕ) : isWritable flags = true :=
  decide_eq_true (andFlag_ne_zero (Nat.succ_ne_zero 1))

/-- A segment is loaded through its chunk, once its fields are known. -/
lemma loadSegment_eq {virtualAddr memSize flags : ℕ} (htype : phType buffer ph = some 1)
    (hva : phVirtualAddr buffer ph = some virtualAddr) (hmem : phMemSize buffer ph = some memSize)
    (hflags : phFlags buffer ph = some flags) :
    loadSegment tbl buffer p ph task =
      (MemoryChunk.create (nbPagesOf virtualAddr memSize) p).bind fun chunk =>
        (chunk.mapChunk tbl (vaStart virtualAddr) false true task.table).bind fun r =>
          if r.1 then
            (copySegment buffer ph (virtualAddr - vaStart virtualAddr) chunk).bind fun chunk =>
              some (some { task with chunks := task.chunks ++ [chunk], table := r.2 })
          else some none := by
  have hload : isLoad 1 = true := decide_eq_true rfl
  rw [loadSegment, htype, Option.bind_eq_bind, Option.bind_some, if_pos hload, hva, Option.bind_some,
    hmem, Option.bind_some, hflags, Option.bind_some, isWritable_eq, isExecutable_eq, Bool.not_true]
  refine congrArg (Option.bind _) (funext fun chunk => ?_)
  exact congrArg (Option.bind _) (funext fun ⟨isMapped, table⟩ => rfl)

lemma loadSegment_of_serves {virtualAddr memSize flags : ℕ} (htype : phType buffer ph = some 1)
    (hva : phVirtualAddr buffer ph = some virtualAddr) (hmem : phMemSize buffer ph = some memSize)
    (hflags : phFlags buffer ph = some flags) (hserves : p.Serves (nbPagesOf virtualAddr memSize)) :
    loadSegment tbl buffer p ph task =
      (mapSegment tbl p virtualAddr memSize task.table).bind fun r =>
        if r.1 then
          (copySegment buffer ph (virtualAddr - vaStart virtualAddr)
            (p.chunk (nbPagesOf virtualAddr memSize))).bind fun chunk =>
              some (some { task with chunks := task.chunks ++ [chunk], table := r.2 })
        else some none := by
  rw [loadSegment_eq htype hva hmem hflags, MemoryChunk.create_eq_some_iff.mpr ⟨hserves, rfl⟩,
    Option.bind_some, mapSegment]

/-- A segment that is not loaded leaves the task as it is. -/
lemma loadSegment_of_ne {type : ℕ} (htype : phType buffer ph = some type) (hne : type ≠ 1) :
    loadSegment tbl buffer p ph task = some (some task) := by
  rw [loadSegment, htype, Option.bind_eq_bind, Option.bind_some, if_neg]
  · rfl
  · rw [isLoad, decide_eq_true_iff]
    exact hne

variable {env : ℕ → Provision} {i left count phOff : ℕ}

lemma getProgramHeader_eq {memSize fileSize : ℕ} (hi : i < count)
    (hcount : programHeaderEntryCount buffer = some count)
    (hoff : programHeaderOffset buffer = some phOff)
    (hmem : phMemSize buffer (programHeaderAt phOff i) = some memSize)
    (hfile : phFileSize buffer (programHeaderAt phOff i) = some fileSize) :
    getProgramHeader buffer i =
      some (if memSize < fileSize then none else some (programHeaderAt phOff i)) := by
  rw [getProgramHeader, hcount, Option.bind_eq_bind, Option.bind_some, if_neg hi.not_ge, hoff]
  simp only [Option.bind_some, hmem, hfile]
  split_ifs <;> rfl

variable {file : List UInt8} {answer : FileAnswer} {common : Option (Option Mmu.State)}

/-- The other fields of the header that are read lie before its count of program headers. -/
lemma inside_header (hlen : buffer.length < 2 ^ 64) (h : Inside buffer 2 56) {k a : ℕ}
    (ha : a + k ≤ 58) : Inside buffer k a := by
  apply inside_of_le _ hlen
  have hlast : 57 < buffer.length := h 1 Nat.one_lt_two
  exact ha.trans hlast

end PiKachulm.Loader

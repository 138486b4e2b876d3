import PiKachulm.Loader.Image
import PiKachulm.Memory.Grants
import PiKachulm.Syscalls.Kernel
import PiKachulm.Syscalls.Spawn
import PiKachulm.Tasks.Scheduler

/-!
# Tasks that cannot be created

`create_task` enters a task in the list of the task manager and in that of its parent before it reads
the segments of the program, and `spawn` maps a page for the arguments after that. When a call that
fails leaves the lists, the memory of the kernel and the files as they were. A computation without a
result fails an assertion, panics or follows a null pointer.
-/

namespace PiKachulm.Syscalls

open Core Libk Loader Memory Mmu Tasks

/-- What the creation of a task changes: `m_tasks`, the `m_children` of the tasks, the memory of the
kernel, and the number of files that are open. -/
@[ext]
structure Holdings where
  tasks : List TaskPtr
  children : TaskPtr → List TaskPtr
  memory : KernelMemory
  openFiles : ℕ

/-- What a computation takes of the kernel's memory: requests to the heap, and pages. -/
structure Usage where
  grants : List Grant
  pages : Finset ℕ

/-- What `f_open` and `f_read` come to: whether the volume of the path is mounted, what there is for
the buffer of long names, whether there is such a file, and whether it can be read. -/
structure Disk where
  mounted : Bool
  lfn : Grant
  found : Bool
  read : Bool

/-- What there is for a new task: the disk and the buffer for the file; the task and the block that
counts its references, and the nodes of the two lists; the stack of the task and what its memory
takes; the chunks of the segments and what they take; and the chunk of the arguments. -/
structure Supply where
  disk : Disk
  buffer : Grant
  task : Grant
  block : Grant
  childNode : Grant
  taskNode : Grant
  stack : Provision
  memory : Usage
  segments : ℕ → Provision
  loading : Usage
  args : Provision
  passing : Usage

namespace Holdings

variable (h : Holdings) (tbl : MMUTable) (file buffer : List UInt8) (parent : Option TaskPtr)
  (x : Supply)

/-! ### Memory and files -/

def kmalloc (g : Grant) : Option (ℕ × Holdings) := do
  let (ptr, memory) ← h.memory.kmalloc g
  pure (ptr, { h with memory := memory })

def kfree (ptr : ℕ) : Option Holdings := do
  let memory ← h.memory.kfree ptr
  pure { h with memory := memory }

/-- An object made by `new`. A null pointer is followed or fails an assertion. -/
def new (g : Grant) : Option (ℕ × Holdings) := do
  let (ptr, h) ← h.kmalloc g
  if ptr = 0 then none else pure (ptr, h)

def takes (h : Holdings) (u : Usage) : Option Holdings := do
  let h ← u.grants.foldlM (fun h g => Prod.snd <$> h.kmalloc g) h
  let memory ← h.memory.freshPages u.pages
  pure { h with memory := memory }

/-- `f_open`. The buffer of long names is given back whether there is such a file or not. -/
def fOpen (d : Disk) : Option (Bool × Holdings) :=
  if d.mounted then do
    let (lfn, h) ← h.kmalloc d.lfn
    if lfn = 0 then pure (false, h)
    else
      let h ← h.kfree lfn
      pure (d.found, if d.found then { h with openFiles := h.openFiles + 1 } else h)
  else pure (false, h)

def fClose : Holdings := { h with openFiles := h.openFiles - 1 }

/-! ### Creating a task -/

/-- `parent->m_children.push_back(task)`, when there is a parent. -/
def addChild (task : TaskPtr) (node : Grant) : Option Holdings :=
  match parent with
  | none        => pure h
  | some parent => do
    let (_, h) ← h.new node
    pure { h with children := Function.update h.children parent (h.children parent ++ [task]) }

/-- `create_task_common` for a process: the task, and its tables. -/
def createTaskCommon : Option ((TaskPtr × Option Mmu.State) × Holdings) := do
  let (task, h) ← h.new x.task
  let (_, h) ← h.new x.block
  let h ← h.addChild parent task x.childNode
  let table ← Loader.createTaskCommon tbl x.stack
  let h ← h.takes x.memory
  let (_, h) ← h.new x.taskNode
  pure ((task, table), { h with tasks := h.tasks ++ [task] })

/-- `create_task` for a program image. -/
def createTask : Option (Option (TaskPtr × LoadedTask) × Holdings) := do
  let ((task, table), h) ← h.createTaskCommon tbl parent x
  let loaded ← Loader.createTask tbl buffer x.segments (some table)
  let h ← h.takes x.loading
  pure (loaded.map fun t => (task, t), h)

/-- `create_task` for a path, where `file` is what the file contains. -/
def createTaskOfPath : Option (Option (TaskPtr × LoadedTask) × Holdings) := do
  let (opened, h) ← h.fOpen x.disk
  if opened then
    let (elfBuffer, h) ← h.kmalloc x.buffer
    if elfBuffer = 0 then pure (none, h)
    else if x.disk.read then
      let h := h.fClose
      let error ← checkHeader (Loader.elfBuffer file)
      if error ≠ .none then
        let h ← h.kfree elfBuffer
        pure (none, h)
      else
        let (task, h) ← h.createTask tbl (Loader.elfBuffer file) parent x
        let h ← h.kfree elfBuffer
        pure (task, h)
    else
      let h ← h.kfree elfBuffer
      pure (none, h.fClose)
  else pure (none, h)

/-- `pika_sys_spawn` returns without an answer when a pointer is null, with an error, or with a task
that is started. -/
inductive SpawnOutcome where
  | refused
  | failed (e : SysError)
  | started (task : TaskPtr)

def SpawnOutcome.task : SpawnOutcome → Option TaskPtr
  | started task => some task
  | _            => none

/-- `pika_sys_spawn`, given the pointers to the path, to the table of arguments and in the table. The
arguments of a task that is started are written to its page, and it is woken. -/
def pikaSysSpawn (current : TaskPtr) (pointers : List Word) :
    Option (SpawnOutcome × Holdings) :=
  if 0 ∈ pointers then pure (.refused, h)
  else do
    let (task, h) ← h.createTaskOfPath tbl file (some current) x
    match task with
    | none           => pure (.failed .generic, h)
    | some (task, t) =>
      let chunk ← MemoryChunk.create 1 x.args
      let (isMapped, _) ← chunk.mapChunk tbl sysArgsAddress true false t.table
      let h ← h.takes x.passing
      if isMapped then pure (.started task, h) else pure (.failed .outOfMem, h)

end Holdings

/-- The calls that create a task from a file. -/
inductive Creation where
  | createTask (parent : Option TaskPtr)
  | spawn (current : TaskPtr) (pointers : List Word)

/-- The task that the call creates, if it does. -/
def Creation.run (h : Holdings) (tbl : MMUTable) (file : List UInt8) (x : Supply) :
    Creation → Option (Option TaskPtr × Holdings)
  | createTask parent      => do
    let (task, h) ← h.createTaskOfPath tbl file parent x
    pure (task.map Prod.fst, h)
  | spawn current pointers => do
    let (outcome, h) ← h.pikaSysSpawn tbl file x current pointers
    pure (outcome.task, h)

/-! ### When nothing is left behind -/

/-- `map_chunk` maps `n` pages from `pageVa` on: there is an array of pages, and `check_va` accepts
the addresses. -/
def Mappable (kind : Kind) (p : Provision) (n pageVa : ℕ) : Prop :=
  p.array.isSome ∧ ∀ i < n, checkVa kind (BitVec.ofNat 64 (pageVa + i * 4096)) = true

/-- The program header has no more bytes in the file than in memory, and its pages can be mapped when
it is to be loaded. -/
structure SegmentLoads (kind : Kind) (buffer : List UInt8) (p : Provision) (ph : ℕ) : Prop where
  sizes : ∀ memSize fileSize, phMemSize buffer ph = some memSize →
    phFileSize buffer ph = some fileSize → fileSize ≤ memSize
  maps : phType buffer ph = some 1 → ∀ virtualAddr memSize, phVirtualAddr buffer ph = some virtualAddr →
    phMemSize buffer ph = some memSize →
    Mappable kind p (nbPagesOf virtualAddr memSize) (vaStart virtualAddr)

def ImageLoads (kind : Kind) (buffer : List UInt8) (segments : ℕ → Provision) : Prop :=
  ∀ phOff count, programHeaderOffset buffer = some phOff →
    programHeaderEntryCount buffer = some count →
    ∀ i < count, SegmentLoads kind buffer (segments i) (programHeaderAt phOff i)

/-- The file is opened. -/
def Disk.Opens (d : Disk) : Prop := d.mounted = true ∧ d.lfn.ptr ≠ 0 ∧ d.found = true

/-- The pages that the heap takes for the buffer of long names. -/
def Disk.pages (d : Disk) : Finset ℕ := if d.mounted then d.lfn.pages else ∅

/-- The file can be read, and is a program. -/
def Supply.Reads (x : Supply) (file : List UInt8) : Prop :=
  x.disk.read = true ∧ checkHeader (Loader.elfBuffer file) = some .none

/-- What the disk, the file and the memory of the kernel have to meet: a file that is opened has a
buffer; a call that stops before there is a task has not made the heap take a page; and a program that
can be read can be loaded, and gets its page of arguments (`accepted`). -/
structure Supply.LeavesNothing (x : Supply) (kind : Kind) (file : List UInt8) (accepted : Prop) :
    Prop where
  unopened : ¬x.disk.Opens → x.disk.pages = ∅
  buffer : x.disk.Opens → x.buffer.ptr ≠ 0
  unread : x.disk.Opens → ¬x.Reads file → x.disk.pages = ∅ ∧ x.buffer.pages = ∅
  loads : x.disk.Opens → x.Reads file → ImageLoads kind (Loader.elfBuffer file) x.segments ∧ accepted

def Creation.LeavesNothing (kind : Kind) (file : List UInt8) (x : Supply) : Creation → Prop
  | createTask _     => x.LeavesNothing kind file True
  | spawn _ pointers => 0 ∈ pointers ∨ x.LeavesNothing kind file (Mappable kind x.args 1 sysArgsAddress)

/-! ### Mapping and loading -/

section

variable {S : Services} {p : Provision} {c : MemoryChunk} {n pageVa ph i left count phOff : ℕ}
  {readOnly executable b : Bool} {s s' : Mmu.State} {buffer : List UInt8} {pas : ℕ → PhysicalPA}
  {attr : PagesAttributes} {task : LoadedTask} {segments : ℕ → Provision}

/-- `map_chunk` stops at the first page that `check_va` does not accept. -/
lemma mapPages_eq_true_iff {pageId : ℕ}
    (hrun : MemoryChunk.mapPages S.table attr pas pageVa pageId left s = some (b, s')) :
    b = true ↔ ∀ i, pageId ≤ i → i < pageId + left →
      checkVa S.kind (BitVec.ofNat 64 (pageVa + i * 4096)) = true := by
  induction left generalizing pageId s with
  | zero =>
    rw [MemoryChunk.mapPages, Option.some.injEq, Prod.mk.injEq] at hrun
    exact iff_of_true hrun.1.symm fun i h₁ h₂ => absurd h₁ (Nat.not_le_of_lt h₂)
  | succ left ih =>
    rw [MemoryChunk.mapPages] at hrun
    obtain ⟨⟨mapped, s₁⟩, hmap, hrun⟩ := Option.bind_eq_some_iff.mp hrun
    have hcheck := eq_checkVa_of_mapRange hmap
    cases mapped with
    | false =>
      cases hrun
      refine iff_of_false Bool.false_ne_true fun hall => ?_
      rw [hall pageId le_rfl (by omega)] at hcheck
      exact Bool.false_ne_true hcheck
    | true =>
      rw [ih hrun]
      constructor
      · intro hall i h₁ h₂
        rcases Nat.eq_or_lt_of_le h₁ with rfl | h₁
        · exact hcheck.symm
        · exact hall i h₁ (by omega)
      · exact fun hall i h₁ h₂ => hall i (by omega) (by omega)

lemma mapChunk_eq_true_iff
    (hrun : (p.chunk n).mapChunk S.table pageVa readOnly executable s = some (b, s')) :
    b = true ↔ Mappable S.kind p n pageVa := by
  rw [MemoryChunk.mapChunk, Provision.chunk, Mappable] at *
  cases harray : p.array with
  | none =>
    rw [harray] at hrun
    cases hrun
    simp
  | some a =>
    rw [harray] at hrun
    simpa using mapPages_eq_true_iff hrun

/-- A segment is loaded when its pages can be mapped. -/
lemma isSome_of_loadSegment {r : Option LoadedTask}
    (hrun : loadSegment S.table buffer p ph task = some r) : r.isSome ↔
      (phType buffer ph = some 1 → ∀ virtualAddr memSize, phVirtualAddr buffer ph = some virtualAddr →
        phMemSize buffer ph = some memSize →
        Mappable S.kind p (nbPagesOf virtualAddr memSize) (vaStart virtualAddr)) := by
  cases htype : phType buffer ph with
  | none => simp [loadSegment, htype] at hrun
  | some type =>
    by_cases hload : type = 1
    · subst hload
      cases hva : phVirtualAddr buffer ph with
      | none => simp [loadSegment, htype, hva, isLoad] at hrun
      | some virtualAddr =>
        cases hmem : phMemSize buffer ph with
        | none => simp [loadSegment, htype, hva, hmem, isLoad] at hrun
        | some memSize =>
          cases hflags : phFlags buffer ph with
          | none => simp [loadSegment, htype, hva, hmem, hflags, isLoad] at hrun
          | some flags =>
            rw [loadSegment_eq htype hva hmem hflags] at hrun
            obtain ⟨chunk, hchunk, hrun⟩ := Option.bind_eq_some_iff.mp hrun
            obtain ⟨⟨isMapped, table⟩, hmap, hrun⟩ := Option.bind_eq_some_iff.mp hrun
            obtain ⟨-, rfl⟩ := MemoryChunk.create_eq_some_iff.mp hchunk
            have hiff := mapChunk_eq_true_iff hmap
            simp only [Option.some.injEq, forall_const]
            cases isMapped with
            | false =>
              cases hrun
              refine iff_of_false Bool.false_ne_true fun hmaps => Bool.false_ne_true (hiff.mpr ?_)
              exact hmaps _ _ rfl rfl
            | true =>
              rw [if_pos rfl] at hrun
              obtain ⟨_, -, hr⟩ := Option.bind_eq_some_iff.mp hrun
              cases hr
              refine iff_of_true rfl ?_
              rintro _ _ rfl rfl
              exact hiff.mp rfl
    · rw [loadSegment_of_ne htype hload] at hrun
      cases hrun
      simp [hload]

/-- The loop goes through when every program header that it comes to can be loaded. -/
lemma isSome_of_loadSegments {r : Option LoadedTask}
    (hcount : programHeaderEntryCount buffer = some count)
    (hoff : programHeaderOffset buffer = some phOff) (hi : i + left = count)
    (hrun : loadSegments S.table buffer segments i left task = some r) : r.isSome ↔
      ∀ j, i ≤ j → j < count → SegmentLoads S.kind buffer (segments j) (programHeaderAt phOff j) := by
  induction left generalizing i task with
  | zero =>
    cases hrun
    exact iff_of_true rfl fun j h₁ h₂ => absurd h₁ (by omega)
  | succ left ih =>
    have hlt : i < count := by omega
    rw [loadSegments] at hrun
    obtain ⟨ph, hph, hrun⟩ := Option.bind_eq_some_iff.mp hrun
    rw [getProgramHeader, hcount, Option.bind_eq_bind, Option.bind_some, if_neg hlt.not_ge, hoff,
      Option.bind_some] at hph
    obtain ⟨memSize, hmem, hph⟩ := Option.bind_eq_some_iff.mp hph
    obtain ⟨fileSize, hfile, hph⟩ := Option.bind_eq_some_iff.mp hph
    have hsplit : (∀ j, i ≤ j → j < count →
        SegmentLoads S.kind buffer (segments j) (programHeaderAt phOff j)) ↔
        SegmentLoads S.kind buffer (segments i) (programHeaderAt phOff i) ∧ ∀ j, i + 1 ≤ j → j < count →
          SegmentLoads S.kind buffer (segments j) (programHeaderAt phOff j) := by
      constructor
      · exact fun hall => ⟨hall i le_rfl hlt, fun j hj => hall j (by omega)⟩
      · rintro ⟨hfirst, hall⟩ j hj
        rcases Nat.eq_or_lt_of_le hj with rfl | hj
        · exact fun _ => hfirst
        · exact hall j hj
    by_cases hsize : memSize < fileSize
    · rw [if_pos hsize] at hph
      cases hph
      cases hrun
      refine iff_of_false Bool.false_ne_true fun hall => ?_
      exact absurd ((hall i le_rfl hlt).sizes _ _ hmem hfile) (Nat.not_le_of_lt hsize)
    · rw [if_neg hsize] at hph
      cases hph
      obtain ⟨seg, hseg, hrun⟩ := Option.bind_eq_some_iff.mp hrun
      have hiff := isSome_of_loadSegment hseg
      have hsizes : ∀ m f, phMemSize buffer (programHeaderAt phOff i) = some m →
          phFileSize buffer (programHeaderAt phOff i) = some f → f ≤ m := by
        intro m f hm hf
        rw [hmem, Option.some.injEq] at hm
        rw [hfile, Option.some.injEq] at hf
        omega
      cases seg with
      | none =>
        cases hrun
        refine iff_of_false Bool.false_ne_true fun hall => ?_
        exact Bool.false_ne_true (hiff.mpr (hall i le_rfl hlt).maps)
      | some task' =>
        rw [ih (by omega) hrun, hsplit, and_iff_right]
        exact ⟨hsizes, hiff.mp rfl⟩

/-- A program that can be read is loaded when all of its segments are. -/
lemma isSome_of_createTask {common : Option Mmu.State} {r : Option LoadedTask}
    (hcommon : common.isSome)
    (hrun : Loader.createTask S.table buffer segments (some common) = some r) :
    r.isSome ↔ ImageLoads S.kind buffer segments := by
  obtain ⟨table, rfl⟩ := Option.isSome_iff_exists.mp hcommon
  rw [Loader.createTask, Option.bind_eq_bind, Option.bind_some] at hrun
  obtain ⟨count, hcount, hrun⟩ := Option.bind_eq_some_iff.mp hrun
  obtain ⟨loaded, hload, hrun⟩ := Option.bind_eq_some_iff.mp hrun
  have hsame : r.isSome = loaded.isSome := by
    cases loaded with
    | none =>
      cases hrun
      rfl
    | some t =>
      obtain ⟨entry, -, hr⟩ := Option.bind_eq_some_iff.mp hrun
      cases hr
      rfl
  rw [hsame]
  cases hoff : programHeaderOffset buffer with
  | none =>
    cases count with
    | zero =>
      cases hload
      refine iff_of_true rfl fun phOff count hoff' => ?_
      rw [hoff] at hoff'
      cases hoff'
    | succ count => simp [loadSegments, getProgramHeader, hcount, hoff] at hload
  | some phOff =>
    rw [isSome_of_loadSegments hcount hoff (Nat.zero_add count) hload, ImageLoads]
    simp [hcount, hoff]

end

/-! ### What a call leaves -/

namespace Holdings

variable {S : Services} {h h' : Holdings} {x : Supply} {file buffer : List UInt8}
  {parent : Option TaskPtr} {g : Grant} {d : Disk} {ptr : ℕ} {b : Bool}

/-- The same without these free pages. -/
def without (h : Holdings) (pages : Finset ℕ) : Holdings :=
  { h with memory := { h.memory with freePages := h.memory.freePages \ pages } }

lemma kmalloc_eq_some_iff {r : ℕ × Holdings} : h.kmalloc g = some r ↔
    h.memory.Grants g ∧ r = (g.ptr, { h with memory := h.memory.granted g }) := by
  rw [kmalloc, Option.bind_eq_bind, Option.bind_eq_some_iff]
  constructor
  · rintro ⟨_, hkmalloc, hr⟩
    obtain ⟨hgrants, rfl⟩ := KernelMemory.kmalloc_eq_some_iff.mp hkmalloc
    exact ⟨hgrants, (Option.some_inj.mp hr).symm⟩
  · rintro ⟨hgrants, rfl⟩
    exact ⟨_, KernelMemory.kmalloc_eq_some_iff.mpr ⟨hgrants, rfl⟩, rfl⟩

/-- A buffer that is given back. -/
lemma kfree_granted (hgrants : h.memory.Grants g) :
    kfree { h with memory := h.memory.granted g } g.ptr = some (h.without g.pages) := by
  rw [kfree, KernelMemory.kfree_granted hgrants]
  rfl

lemma kfree_fClose (hgrants : h.memory.Grants g) :
    kfree (fClose { h with memory := h.memory.granted g }) g.ptr =
      some (h.fClose.without g.pages) :=
  kfree_granted (h := h.fClose) hgrants

lemma tasks_of_kmalloc {r : ℕ × Holdings} (hrun : h.kmalloc g = some r) : r.2.tasks = h.tasks := by
  obtain ⟨-, rfl⟩ := kmalloc_eq_some_iff.mp hrun
  rfl

lemma tasks_of_kfree (hrun : h.kfree ptr = some h') : h'.tasks = h.tasks := by
  obtain ⟨_, -, hr⟩ := Option.bind_eq_some_iff.mp hrun
  cases hr
  rfl

lemma tasks_of_new {r : ℕ × Holdings} (hrun : h.new g = some r) : r.2.tasks = h.tasks := by
  obtain ⟨⟨_, h₁⟩, hkmalloc, hrun⟩ := Option.bind_eq_some_iff.mp hrun
  dsimp only at hrun
  split_ifs at hrun
  cases hrun
  exact tasks_of_kmalloc hkmalloc

lemma tasks_of_grants {grants : List Grant}
    (hrun : grants.foldlM (fun h g => Prod.snd <$> h.kmalloc g) h = some h') :
    h'.tasks = h.tasks := by
  induction grants generalizing h with
  | nil =>
    cases hrun
    rfl
  | cons g grants ih =>
    rw [List.foldlM_cons] at hrun
    obtain ⟨h₁, hg, hrun⟩ := Option.bind_eq_some_iff.mp hrun
    obtain ⟨r, hkmalloc, rfl⟩ := Option.map_eq_some_iff.mp hg
    exact (ih hrun).trans (tasks_of_kmalloc hkmalloc)

lemma tasks_of_takes {u : Usage} (hrun : h.takes u = some h') : h'.tasks = h.tasks := by
  obtain ⟨h₁, hgrants, hrun⟩ := Option.bind_eq_some_iff.mp hrun
  obtain ⟨_, -, hr⟩ := Option.bind_eq_some_iff.mp hrun
  cases hr
  show h₁.tasks = h.tasks
  exact tasks_of_grants hgrants

lemma tasks_of_addChild {t : TaskPtr} (hrun : h.addChild parent t g = some h') :
    h'.tasks = h.tasks := by
  cases parent with
  | none =>
    cases hrun
    rfl
  | some p =>
    obtain ⟨⟨_, h₁⟩, hnew, hr⟩ := Option.bind_eq_some_iff.mp hrun
    cases hr
    exact tasks_of_new hnew

/-- `create_task_common` enters the task in the list of the task manager. -/
lemma tasks_of_createTaskCommon {task : TaskPtr} {table : Option Mmu.State}
    (hrun : h.createTaskCommon S.table parent x = some ((task, table), h')) :
    h'.tasks = h.tasks ++ [task] ∧ table.isSome := by
  obtain ⟨⟨t, h₁⟩, hnew, hrun⟩ := Option.bind_eq_some_iff.mp hrun
  obtain ⟨⟨_, h₂⟩, hblock, hrun⟩ := Option.bind_eq_some_iff.mp hrun
  obtain ⟨h₃, hchild, hrun⟩ := Option.bind_eq_some_iff.mp hrun
  obtain ⟨tables, hcommon, hrun⟩ := Option.bind_eq_some_iff.mp hrun
  obtain ⟨h₄, htakes, hrun⟩ := Option.bind_eq_some_iff.mp hrun
  obtain ⟨⟨_, h₅⟩, hnode, hr⟩ := Option.bind_eq_some_iff.mp hrun
  cases hr
  have htasks : h₅.tasks = h.tasks := by
    rw [tasks_of_new hnode, tasks_of_takes htakes, tasks_of_addChild hchild, tasks_of_new hblock,
      tasks_of_new hnew]
  refine ⟨by rw [htasks], ?_⟩
  obtain ⟨chunk, -, hcommon⟩ := Option.bind_eq_some_iff.mp hcommon
  split_ifs at hcommon
  obtain ⟨_, -, hr⟩ := Option.bind_eq_some_iff.mp hcommon
  cases hr
  rfl

/-- The task stays in the list, whether its segments are loaded or not. -/
lemma createTask_spec {r : Option (TaskPtr × LoadedTask)}
    (hrun : h.createTask S.table buffer parent x = some (r, h')) :
    (∃ task, h'.tasks = h.tasks ++ [task]) ∧
      (r.isSome ↔ ImageLoads S.kind buffer x.segments) := by
  obtain ⟨⟨⟨task, table⟩, h₁⟩, hcommon, hrun⟩ := Option.bind_eq_some_iff.mp hrun
  obtain ⟨loaded, hload, hrun⟩ := Option.bind_eq_some_iff.mp hrun
  obtain ⟨h₂, htakes, hr⟩ := Option.bind_eq_some_iff.mp hrun
  cases hr
  obtain ⟨htasks, htable⟩ := tasks_of_createTaskCommon hcommon
  refine ⟨⟨task, (tasks_of_takes htakes).trans htasks⟩, ?_⟩
  rw [Option.isSome_map]
  exact isSome_of_createTask htable hload

/-- `f_open` leaves what it found, but for a file that is open and the pages of the heap. -/
lemma fOpen_spec (hrun : h.fOpen d = some (b, h')) : (b = true ↔ d.Opens) ∧
    d.pages ⊆ h.memory.freePages ∧ h' =
      { h.without d.pages with openFiles := if b then h.openFiles + 1 else h.openFiles } := by
  rw [fOpen] at hrun
  rw [Disk.Opens, Disk.pages]
  by_cases hmounted : d.mounted = true
  · rw [if_pos hmounted] at hrun ⊢
    obtain ⟨⟨lfn, h₁⟩, hkmalloc, hrun⟩ := Option.bind_eq_some_iff.mp hrun
    obtain ⟨hgrants, hr⟩ := kmalloc_eq_some_iff.mp hkmalloc
    cases hr
    have hfree := kfree_granted hgrants
    by_cases hlfn : d.lfn.ptr = 0
    · simp only [hlfn, if_true] at hrun
      rw [hlfn, kfree, KernelMemory.kfree, if_pos rfl] at hfree
      cases hrun
      refine ⟨by simp [hlfn], hgrants.2, ?_⟩
      exact Option.some_inj.mp hfree
    · simp only [if_neg hlfn] at hrun
      rw [Option.bind_eq_bind, hfree] at hrun
      cases hrun
      refine ⟨by simp [hmounted, hlfn], hgrants.2, ?_⟩
      cases d.found <;> rfl
  · rw [if_neg hmounted] at hrun ⊢
    cases hrun
    refine ⟨by simp [hmounted], Finset.empty_subset _, ?_⟩
    rw [without, Finset.sdiff_empty]
    rfl

lemma without_eq_self_iff {pages : Finset ℕ} (hpages : pages ⊆ h.memory.freePages) :
    h.without pages = h ↔ pages = ∅ := by
  have hgrants : h.memory.Grants ⟨0, pages⟩ := ⟨fun hne => absurd rfl hne, hpages⟩
  rw [← KernelMemory.sdiff_eq_self_iff hgrants, Holdings.ext_iff, KernelMemory.ext_iff]
  simp [without]

/-- What `create_task` for a path comes to: the file is not opened; it gets no buffer; it cannot be
read or is no program; or there is a task. -/
inductive PathResult (h : Holdings) (kind : Kind) (file : List UInt8) (x : Supply) :
    Option (TaskPtr × LoadedTask) → Holdings → Prop
  | unopened (hopens : ¬x.disk.Opens) : PathResult h kind file x none (h.without x.disk.pages)
  | noBuffer {h' : Holdings} (hopens : x.disk.Opens) (hptr : x.buffer.ptr = 0)
      (hfiles : h'.openFiles = h.openFiles + 1) : PathResult h kind file x none h'
  | unread (hopens : x.disk.Opens) (hptr : x.buffer.ptr ≠ 0) (hreads : ¬x.Reads file)
      (hpages : x.buffer.pages ⊆ (h.without x.disk.pages).memory.freePages) :
      PathResult h kind file x none ((h.without x.disk.pages).without x.buffer.pages)
  | entered {r : Option (TaskPtr × LoadedTask)} {h' : Holdings} {task : TaskPtr}
      (hopens : x.disk.Opens) (hptr : x.buffer.ptr ≠ 0) (hreads : x.Reads file)
      (htasks : h'.tasks = h.tasks ++ [task])
      (hloads : r.isSome ↔ ImageLoads kind (Loader.elfBuffer file) x.segments) :
      PathResult h kind file x r h'

lemma createTaskOfPath_result {r : Option (TaskPtr × LoadedTask)}
    (hrun : h.createTaskOfPath S.table file parent x = some (r, h')) :
    x.disk.pages ⊆ h.memory.freePages ∧ PathResult h S.kind file x r h' := by
  obtain ⟨⟨opened, h₁⟩, hopen, hrun⟩ := Option.bind_eq_some_iff.mp hrun
  obtain ⟨hopens, hpages, rfl⟩ := fOpen_spec hopen
  refine ⟨hpages, ?_⟩
  cases opened with
  | false =>
    cases hrun
    exact .unopened fun h => Bool.false_ne_true (hopens.mpr h)
  | true =>
    have hopens := hopens.mp rfl
    simp only [if_true] at hrun
    obtain ⟨⟨elfBuffer, h₂⟩, hkmalloc, hrun⟩ := Option.bind_eq_some_iff.mp hrun
    obtain ⟨hgrants, hr⟩ := kmalloc_eq_some_iff.mp hkmalloc
    cases hr
    by_cases hptr : x.buffer.ptr = 0
    · simp only [if_pos hptr] at hrun
      cases hrun
      exact .noBuffer hopens hptr rfl
    simp only [if_neg hptr] at hrun
    have hfree := kfree_granted hgrants
    by_cases hread : x.disk.read = true
    · rw [if_pos hread] at hrun
      obtain ⟨error, hcheck, hrun⟩ := Option.bind_eq_some_iff.mp hrun
      by_cases herror : error ≠ .none
      · -- the file is closed before its buffer is given back
        rw [if_pos herror, Option.bind_eq_bind, kfree_fClose hgrants] at hrun
        cases hrun
        refine .unread hopens hptr (fun hreads => herror ?_) hgrants.2
        exact Option.some_inj.mp (hcheck.symm.trans hreads.2)
      · rw [if_neg herror] at hrun
        obtain ⟨⟨task, h₃⟩, hcreate, hrun⟩ := Option.bind_eq_some_iff.mp hrun
        obtain ⟨h₄, hkfree, hr⟩ := Option.bind_eq_some_iff.mp hrun
        cases hr
        obtain ⟨⟨t, htasks⟩, hloads⟩ := createTask_spec hcreate
        rw [ne_eq, not_not] at herror
        subst herror
        exact .entered hopens hptr ⟨hread, hcheck⟩ ((tasks_of_kfree hkfree).trans htasks) hloads
    · rw [if_neg hread, Option.bind_eq_bind, hfree] at hrun
      cases hrun
      exact .unread hopens hptr (fun hreads => hread hreads.1) hgrants.2

/-- What is left behind, when the call goes on after `create_task`: it then succeeds under the
condition `accepted`, and removes no task. -/
lemma PathResult.leavesNothing_iff {kind : Kind} {r : Option (TaskPtr × LoadedTask)}
    {h₁ : Holdings} {done accepted : Prop} (hres : PathResult h kind file x r h₁)
    (hpages : x.disk.pages ⊆ h.memory.freePages) (hfail : r = none → ¬done ∧ h' = h₁)
    (hgoes : r.isSome → (done ↔ accepted) ∧ h'.tasks = h₁.tasks) :
    (¬done → h' = h) ↔ x.LeavesNothing kind file accepted := by
  cases hres with
  | unopened hopens =>
    obtain ⟨hdone, rfl⟩ := hfail rfl
    rw [imp_iff_right hdone, without_eq_self_iff hpages]
    constructor
    · intro hnone
      exact ⟨fun _ => hnone, fun h => absurd h hopens, fun h => absurd h hopens,
        fun h => absurd h hopens⟩
    · exact fun hleaves => hleaves.unopened hopens
  | noBuffer hopens hptr hfiles =>
    obtain ⟨hdone, rfl⟩ := hfail rfl
    refine iff_of_false (fun hsame => ?_) fun hleaves => hleaves.buffer hopens hptr
    rw [hsame hdone] at hfiles
    exact Nat.succ_ne_self _ hfiles.symm
  | unread hopens hptr hreads hbuffer =>
    obtain ⟨hdone, rfl⟩ := hfail rfl
    rw [imp_iff_right hdone]
    constructor
    · intro hsame
      have hunion : h.without (x.disk.pages ∪ x.buffer.pages) = h := by
        rw [without, ← Finset.sup_eq_union, ← sdiff_sdiff_left]
        exact hsame
      rw [without_eq_self_iff] at hunion
      · obtain ⟨hdisk, hbuf⟩ := Finset.union_eq_empty.mp hunion
        exact ⟨fun hno => absurd hopens hno, fun _ => hptr, fun _ _ => ⟨hdisk, hbuf⟩,
          fun _ h => absurd h hreads⟩
      · exact Finset.union_subset hpages (hbuffer.trans Finset.sdiff_subset)
    · intro hleaves
      obtain ⟨hdisk, hbuf⟩ := hleaves.unread hopens hreads
      rw [(without_eq_self_iff hbuffer).mpr hbuf, (without_eq_self_iff hpages).mpr hdisk]
  | entered hopens hptr hreads htasks hloads =>
    have hmore : h'.tasks = h₁.tasks → h' ≠ h := by
      rintro htasks' rfl
      rw [htasks] at htasks'
      exact List.cons_ne_nil _ _ (List.self_eq_append_right.mp htasks')
    cases r with
    | none =>
      obtain ⟨hdone, rfl⟩ := hfail rfl
      refine iff_of_false (fun hsame => hmore rfl (hsame hdone)) fun hleaves => ?_
      exact Bool.false_ne_true (hloads.mpr (hleaves.loads hopens hreads).1)
    | some t =>
      obtain ⟨hdone, htasks'⟩ := hgoes rfl
      rw [hdone]
      constructor
      · intro hsame
        have haccepted : accepted := by
          by_contra hno
          exact hmore htasks' (hsame hno)
        exact ⟨fun hno => absurd hopens hno, fun _ => hptr, fun _ hno => absurd hreads hno,
          fun _ _ => ⟨hloads.mp rfl, haccepted⟩⟩
      · exact fun hleaves hno => absurd (hleaves.loads hopens hreads).2 hno

end Holdings

/-- A call that fails leaves everything as it was exactly when the condition holds. -/
theorem Creation.eq_of_failed_iff {S : Services} {h h' : Holdings} {file : List UInt8} {x : Supply}
    {created : Option TaskPtr} (c : Creation)
    (hrun : c.run h S.table file x = some (created, h')) :
    (created = none → h' = h) ↔ c.LeavesNothing S.kind file x := by
  cases c with
  | createTask parent =>
    obtain ⟨⟨r, h₁⟩, hcreate, hr⟩ := Option.bind_eq_some_iff.mp hrun
    cases hr
    obtain ⟨hpages, hres⟩ := Holdings.createTaskOfPath_result hcreate
    have hiff : (¬r.isSome → h' = h) ↔ x.LeavesNothing S.kind file True :=
      hres.leavesNothing_iff hpages (fun hnone => ⟨by simp [hnone], rfl⟩)
        fun hsome => ⟨by simp [hsome], rfl⟩
    rw [Creation.LeavesNothing, ← hiff, Option.map_eq_none_iff, Option.not_isSome_iff_eq_none]
  | spawn current pointers =>
    obtain ⟨⟨outcome, h₁⟩, hspawn, hr⟩ := Option.bind_eq_some_iff.mp hrun
    rw [Creation.LeavesNothing]
    rw [Holdings.pikaSysSpawn] at hspawn
    by_cases hnull : 0 ∈ pointers
    · rw [if_pos hnull] at hspawn
      cases hspawn
      cases hr
      exact iff_of_true (fun _ => rfl) (.inl hnull)
    · rw [if_neg hnull] at hspawn
      obtain ⟨⟨r, h₂⟩, hcreate, hspawn⟩ := Option.bind_eq_some_iff.mp hspawn
      obtain ⟨hpages, hres⟩ := Holdings.createTaskOfPath_result hcreate
      have hiff : (¬outcome.task.isSome → h' = h) ↔
          x.LeavesNothing S.kind file (Mappable S.kind x.args 1 sysArgsAddress) := by
        cases hr
        refine hres.leavesNothing_iff hpages ?_ ?_
        · rintro rfl
          cases hspawn
          exact ⟨Bool.false_ne_true, rfl⟩
        · intro hsome
          obtain ⟨⟨task, t⟩, rfl⟩ := Option.isSome_iff_exists.mp hsome
          obtain ⟨chunk, hchunk, hspawn⟩ := Option.bind_eq_some_iff.mp hspawn
          obtain ⟨⟨isMapped, table⟩, hmap, hspawn⟩ := Option.bind_eq_some_iff.mp hspawn
          obtain ⟨h₃, htakes, hspawn⟩ := Option.bind_eq_some_iff.mp hspawn
          obtain ⟨-, rfl⟩ := MemoryChunk.create_eq_some_iff.mp hchunk
          have hmaps := mapChunk_eq_true_iff hmap
          cases isMapped with
          | false =>
            cases hspawn
            exact ⟨iff_of_false Bool.false_ne_true fun h => Bool.false_ne_true (hmaps.mpr h),
              Holdings.tasks_of_takes htakes⟩
          | true =>
            cases hspawn
            exact ⟨iff_of_true rfl (hmaps.mp rfl), Holdings.tasks_of_takes htakes⟩
      cases hr
      rw [or_iff_right hnull, ← hiff, Option.not_isSome_iff_eq_none]

/-! ### A program header with too many bytes -/

/-- A program with one program header, which claims to have one byte in the file and none in memory. -/
def badProgramHeader : List UInt8 :=
  [0x7f, 0x45, 0x4c, 0x46, 2, 1, 1] ++ List.replicate 11 0 ++ [0xb7] ++ List.replicate 13 0 ++ [64] ++
    List.replicate 23 0 ++ [1] ++ List.replicate 39 0 ++ [1] ++ List.replicate 23 0

/-- The kernel without tasks, with some free pages. -/
def noTasks : Holdings := ⟨[], fun _ => [], ⟨∅, Finset.range 16⟩, 0⟩

/-- Heap blocks for all that is asked for; the memory of the task takes its tables and its stack. -/
def enough : Supply where
  disk := ⟨true, ⟨1, ∅⟩, true, true⟩
  buffer := ⟨1, ∅⟩
  task := ⟨2, ∅⟩
  block := ⟨3, ∅⟩
  childNode := ⟨4, ∅⟩
  taskNode := ⟨5, ∅⟩
  stack := stackOfTwo
  memory := ⟨[⟨6, ∅⟩, ⟨7, ∅⟩, ⟨8, ∅⟩, ⟨9, ∅⟩, ⟨10, ∅⟩], Finset.range 6⟩
  segments _ := ⟨none, []⟩
  loading := ⟨[], ∅⟩
  args := ⟨none, []⟩
  passing := ⟨[], ∅⟩

lemma run_badProgramHeader : ∃ h', (Creation.createTask none).run noTasks
    (Services.identity .process).table badProgramHeader enough = some (none, h') ∧ h'.tasks = [2] := by
  have hrun : ((Creation.createTask none).run noTasks (Services.identity .process).table
      badProgramHeader enough).any (fun r => decide (r.1 = none ∧ r.2.tasks = [2])) = true := by
    decide +kernel
  obtain ⟨⟨created, h'⟩, hsome, hr⟩ := (Option.any_eq_true _ _).mp hrun
  obtain ⟨hnone, htasks⟩ := of_decide_eq_true hr
  dsimp only at hnone htasks
  subst hnone
  exact ⟨h', hsome, htasks⟩

theorem Creation.eq_of_failed_iff_badProgramHeader : ∃ h', ((none : Option TaskPtr) = none → h' = noTasks) ↔
    (Creation.createTask none).LeavesNothing .process badProgramHeader enough := by
  obtain ⟨h', hrun, -⟩ := run_badProgramHeader
  exact ⟨h', Creation.eq_of_failed_iff _ hrun⟩

/-- The task without a program stays in the list of the task manager. -/
theorem Creation.not_eq_of_failed : ¬∀ (h h' : Holdings) (file : List UInt8) (x : Supply) (c : Creation),
    c.run h (Services.identity .process).table file x = some (none, h') → h' = h := by
  intro hall
  obtain ⟨h', hrun, htasks⟩ := run_badProgramHeader
  rw [hall _ _ _ _ _ hrun] at htasks
  cases htasks

end PiKachulm.Syscalls

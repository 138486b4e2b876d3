import PiKachulm.Tasks.Scheduler

/-!
# Who owns a task

The references to the task objects, and the pages that go with a process. An object is destroyed with
the last reference to it, and gives its pages back. The list `m_tasks` of the task manager keeps a
reference to every task that was ever created, so that this never happens.
-/

namespace PiKachulm.Tasks

/-- What may hold a reference to a task, besides the list of all tasks. -/
inductive Holder where
  | variable
  | childList (parent : TaskPtr)
  | scheduler
  | deltaQueue
  | waitList (list : ℕ)
  | window (window : ℕ)
  deriving DecidableEq

/-- A holder that lets the task go when it is killed: the scheduler, and the windows, which are destroyed. -/
def Holder.leavesKilled : Holder → Bool
  | .scheduler => true
  | .window _  => true
  | _          => false

/-- A memory chunk, with its mapping in the kernel. -/
structure Chunk where
  pages : List ℕ
  kernelVa : ℕ
  deriving DecidableEq

/-- The pages of a process: those of its tables, of its heap, and its chunks, with the stack. -/
structure ProcessPages where
  tables : List ℕ
  heap : List ℕ
  chunks : List Chunk

/-- The free pages, the kernel mappings of chunks, the list `m_tasks`, and for every task the references
to it, its pages, and how often it was destroyed. -/
structure Ownership where
  free : ℕ → Bool
  kernelVas : List ℕ
  tasks : List TaskPtr
  holders : TaskPtr → List Holder
  pages : TaskPtr → ProcessPages
  destroyed : TaskPtr → ℕ

namespace Ownership

variable (s : Ownership) (t : TaskPtr)

def allocPages (pages : List ℕ) : Option Ownership :=
  if pages.Nodup ∧ ∀ p ∈ pages, s.free p then
    some { s with free := fun p => s.free p && decide (p ∉ pages) }
  else none

def freePages (pages : List ℕ) : Ownership := { s with free := fun p => s.free p || decide (p ∈ pages) }

def setPages (f : ProcessPages → ProcessPages) : Ownership :=
  { s with pages := Function.update s.pages t (f (s.pages t)) }

/-- A chunk of the process: its pages are allocated, and it is mapped in the kernel and in the process. -/
def mapChunk (chunk : Chunk) (tables : List ℕ) : Option Ownership := do
  let s ← s.allocPages (chunk.pages ++ tables)
  if chunk.kernelVa ∈ s.kernelVas then none
  else some (({ s with kernelVas := s.kernelVas ++ [chunk.kernelVa] } : Ownership).setPages t fun p =>
    { p with tables := p.tables ++ tables, chunks := p.chunks ++ [chunk] })

/-- `create_task_common`, for a user task: it has a new table and a stack of two pages. -/
def createTaskCommon (parent : Option TaskPtr) (table : ℕ) (stack : Chunk) (tables : List ℕ) :
    Option Ownership :=
  if t ∈ s.tasks ∨ s.holders t ≠ [] ∨ stack.pages.length ≠ 2 then none
  else do
    let s := { s with
      holders := Function.update s.holders t (.variable :: (parent.map Holder.childList).toList) }
    let s ← s.allocPages [table]
    let s := s.setPages t fun _ => ⟨[table], [], []⟩
    let s ← s.mapChunk t stack tables
    pure { s with tasks := s.tasks ++ [t] }

/-- `create_task`: every segment gets a chunk. -/
def createTask (parent : Option TaskPtr) (table : ℕ) (stack : Chunk) (tables : List ℕ)
    (segments : List (Chunk × List ℕ)) : Option Ownership := do
  let s ← s.createTaskCommon t parent table stack tables
  segments.foldlM (fun s segment => s.mapChunk t segment.1 segment.2) s

/-- The heap grows. -/
def growHeap (pages tables : List ℕ) : Option Ownership :=
  (s.allocPages (pages ++ tables)).map fun s => s.setPages t fun p =>
    { p with heap := p.heap ++ pages, tables := p.tables ++ tables }

/-- The heap shrinks. -/
def shrinkHeap (pages : List ℕ) : Option Ownership :=
  if ∀ p ∈ pages, p ∈ (s.pages t).heap then
    some ((s.freePages pages).setPages t fun p => { p with heap := p.heap.filter (· ∉ pages) })
  else none

/-- The destructor of the task: its memory is given back with it. -/
def destroy : Ownership :=
  let pages := s.pages t
  { s.freePages (pages.tables ++ pages.heap ++ pages.chunks.flatMap Chunk.pages) with
    kernelVas := s.kernelVas.filter (· ∉ pages.chunks.map Chunk.kernelVa)
    pages := Function.update s.pages t ⟨[], [], []⟩
    destroyed := Function.update s.destroyed t (s.destroyed t + 1) }

/-- A task to which there are no more references is destroyed. -/
def release : Ownership := if t ∉ s.tasks ∧ s.holders t = [] then s.destroy t else s

def setHolders (f : List Holder → List Holder) : Ownership :=
  { s with holders := Function.update s.holders t (f (s.holders t)) }

def hold (h : Holder) : Ownership := s.setHolders t fun hs => h :: hs

def drop (h : Holder) : Ownership := (s.setHolders t fun hs => hs.erase h).release t

def killTask : Ownership := (s.setHolders t fun hs => hs.filter fun h => !Holder.leavesKilled h).release t

/-- What happens to a process between its creation and the time at which it should be gone. -/
inductive Op where
  | mapChunk (chunk : Chunk) (tables : List ℕ)
  | growHeap (pages tables : List ℕ)
  | shrinkHeap (pages : List ℕ)
  | hold (h : Holder)
  | drop (h : Holder)
  | killTask

def Op.run : Op → Option Ownership
  | .mapChunk chunk tables => s.mapChunk t chunk tables
  | .growHeap pages tables => s.growHeap t pages tables
  | .shrinkHeap pages      => s.shrinkHeap t pages
  | .hold h                => some (s.hold t h)
  | .drop h                => some (s.drop t h)
  | .killTask              => some (s.killTask t)

def runAll (ops : List Op) : Option Ownership := ops.foldlM (fun s op => op.run s t) s

/-- The process has given everything back. -/
structure GivesBack (s s' : Ownership) (t : TaskPtr) : Prop where
  destroyed : s'.destroyed t = s.destroyed t + 1
  free : s'.free = s.free
  kernelVas : s'.kernelVas.Perm s.kernelVas
  tasks : s'.tasks = s.tasks

variable {s t} {s' : Ownership} {stack chunk : Chunk} {l : List TaskPtr} {n : ℕ} {pages tables : List ℕ}
  {op : Op} {ops : List Op} {parent : Option TaskPtr} {table : ℕ} {segments : List (Chunk × List ℕ)}

/-- What a process keeps: it stays in the list of all tasks, and its stack is allocated. -/
structure Keeps (s : Ownership) (t : TaskPtr) (stack : Chunk) (l : List TaskPtr) (n : ℕ) : Prop where
  tasks : s.tasks = l ++ [t]
  destroyed : s.destroyed t = n
  free : ∀ p ∈ stack.pages, s.free p = false
  heap : ∀ p ∈ stack.pages, p ∉ (s.pages t).heap
  kernelVa : stack.kernelVa ∈ s.kernelVas

/-! ### Steps -/

lemma allocPages_eq_some (hs : s.allocPages pages = some s') : (∀ p ∈ pages, s.free p) ∧
    s' = { s with free := fun p => s.free p && decide (p ∉ pages) } := by
  rw [allocPages] at hs
  split_ifs at hs with hfree
  cases hs
  exact ⟨hfree.2, rfl⟩

lemma Keeps.allocPages (h : s.Keeps t stack l n) (hs : s.allocPages pages = some s') :
    s'.Keeps t stack l n ∧ ∀ p ∈ stack.pages, p ∉ pages := by
  obtain ⟨hfree, rfl⟩ := allocPages_eq_some hs
  refine ⟨⟨h.tasks, h.destroyed, fun p hp => ?_, h.heap, h.kernelVa⟩, fun p hp hmem => ?_⟩
  · show (s.free p && _) = false
    rw [h.free p hp, Bool.false_and]
  · have hp' := hfree p hmem
    rw [h.free p hp] at hp'
    cases hp'

lemma Keeps.setPages {f : ProcessPages → ProcessPages} (h : s.Keeps t stack l n)
    (hheap : ∀ p ∈ stack.pages, p ∉ (f (s.pages t)).heap) : (s.setPages t f).Keeps t stack l n := by
  refine ⟨h.tasks, h.destroyed, h.free, fun p hp => ?_, h.kernelVa⟩
  show p ∉ (Function.update s.pages t (f (s.pages t)) t).heap
  rw [Function.update_self]
  exact hheap p hp

lemma mapChunk_eq_some (hs : s.mapChunk t chunk tables = some s') : ∃ s₁,
    s.allocPages (chunk.pages ++ tables) = some s₁ ∧ chunk.kernelVa ∉ s₁.kernelVas ∧
      s' = ({ s₁ with kernelVas := s₁.kernelVas ++ [chunk.kernelVa] } : Ownership).setPages t fun p =>
        { p with tables := p.tables ++ tables, chunks := p.chunks ++ [chunk] } := by
  obtain ⟨s₁, h₁, hs⟩ := Option.bind_eq_some_iff.mp hs
  split_ifs at hs with hva
  cases hs
  exact ⟨s₁, h₁, hva, rfl⟩

lemma Keeps.mapChunk (h : s.Keeps t stack l n) (hs : s.mapChunk t chunk tables = some s') :
    s'.Keeps t stack l n := by
  obtain ⟨s₁, h₁, -, rfl⟩ := mapChunk_eq_some hs
  obtain ⟨hkeeps, -⟩ := h.allocPages h₁
  have hva : ({ s₁ with kernelVas := s₁.kernelVas ++ [chunk.kernelVa] } : Ownership).Keeps t stack l n :=
    ⟨hkeeps.tasks, hkeeps.destroyed, hkeeps.free, hkeeps.heap, List.mem_append_left _ hkeeps.kernelVa⟩
  exact hva.setPages hkeeps.heap

/-- The list of all tasks holds on to the task. -/
lemma Keeps.release (h : s.Keeps t stack l n) : s.release t = s := by
  rw [Ownership.release, if_neg]
  rintro ⟨hnot, -⟩
  apply hnot
  rw [h.tasks]
  exact List.mem_append_right _ (List.mem_singleton_self t)

lemma Keeps.setHolders {f : List Holder → List Holder} (h : s.Keeps t stack l n) :
    (s.setHolders t f).Keeps t stack l n :=
  ⟨h.tasks, h.destroyed, h.free, h.heap, h.kernelVa⟩

lemma Keeps.run (h : s.Keeps t stack l n) (hs : op.run s t = some s') : s'.Keeps t stack l n := by
  cases op with
  | mapChunk chunk tables => exact h.mapChunk hs
  | growHeap pages tables =>
    obtain ⟨s₁, h₁, rfl⟩ := Option.map_eq_some_iff.mp hs
    obtain ⟨hkeeps, hnot⟩ := h.allocPages h₁
    refine hkeeps.setPages fun p hp hmem => ?_
    rcases List.mem_append.mp hmem with hmem | hmem
    · exact hkeeps.heap p hp hmem
    · exact hnot p hp (List.mem_append_left _ hmem)
  | shrinkHeap pages      =>
    rw [Op.run, Ownership.shrinkHeap] at hs
    split_ifs at hs with hheap
    cases hs
    have hfreed : (s.freePages pages).Keeps t stack l n := by
      refine ⟨h.tasks, h.destroyed, fun p hp => ?_, h.heap, h.kernelVa⟩
      show (s.free p || decide (p ∈ pages)) = false
      rw [h.free p hp, Bool.false_or, decide_eq_false_iff_not]
      exact fun hmem => h.heap p hp (hheap p hmem)
    exact hfreed.setPages fun p hp hmem => h.heap p hp (List.mem_of_mem_filter hmem)
  | hold holder           =>
    cases hs
    exact h.setHolders
  | drop holder           =>
    cases hs
    rw [Ownership.drop, h.setHolders.release]
    exact h.setHolders
  | killTask              =>
    cases hs
    rw [Ownership.killTask, h.setHolders.release]
    exact h.setHolders

/-! ### Runs -/

lemma Keeps.runAll (h : s.Keeps t stack l n) (hs : s.runAll t ops = some s') : s'.Keeps t stack l n := by
  induction ops generalizing s with
  | nil           =>
    cases hs
    exact h
  | cons op ops ih =>
    rw [Ownership.runAll, List.foldlM_cons] at hs
    obtain ⟨s₁, h₁, hs⟩ := Option.bind_eq_some_iff.mp hs
    exact ih (h.run h₁) hs

/-- What has been taken for the stack was free before. -/
lemma createTaskCommon_spec (hs : s.createTaskCommon t parent table stack tables = some s') :
    s'.Keeps t stack s.tasks (s.destroyed t) ∧ (∀ p ∈ stack.pages, s.free p) ∧
      stack.kernelVa ∉ s.kernelVas ∧ stack.pages ≠ [] := by
  rw [createTaskCommon] at hs
  split_ifs at hs with hcond
  obtain ⟨s₁, h₁, hs⟩ := Option.bind_eq_some_iff.mp hs
  obtain ⟨s₂, h₂, hs⟩ := Option.bind_eq_some_iff.mp hs
  obtain ⟨-, rfl⟩ := allocPages_eq_some h₁
  obtain ⟨s₃, h₃, hva, rfl⟩ := mapChunk_eq_some h₂
  obtain ⟨hfree, rfl⟩ := allocPages_eq_some h₃
  cases hs
  refine ⟨⟨rfl, rfl, fun p hp => ?_, fun p hp => ?_, ?_⟩, fun p hp => ?_, hva, ?_⟩
  · show (_ && decide (p ∉ stack.pages ++ tables)) = false
    rw [Bool.and_eq_false_iff, decide_eq_false_iff_not, not_not]
    exact .inr (List.mem_append_left _ hp)
  · simp [setPages]
  · exact List.mem_append_right _ (List.mem_singleton_self _)
  · have hp' := hfree p (List.mem_append_left _ hp)
    exact (Bool.and_eq_true_iff.mp hp').1
  · intro hnil
    rw [hnil] at hcond
    exact hcond (.inr (.inr nofun))

lemma Keeps.mapSegments (h : s.Keeps t stack l n)
    (hs : segments.foldlM (fun s segment => s.mapChunk t segment.1 segment.2) s = some s') :
    s'.Keeps t stack l n := by
  induction segments generalizing s with
  | nil                   =>
    cases hs
    exact h
  | cons segment segments ih =>
    rw [List.foldlM_cons] at hs
    obtain ⟨s₁, h₁, hs⟩ := Option.bind_eq_some_iff.mp hs
    exact ih (h.mapChunk h₁) hs

/-- Whatever happens to a process after its creation, it gives nothing back in the end: the task is not
destroyed and stays in the list of all tasks, and its stack stays allocated and mapped. -/
theorem keeps_of_createTask (hcreate : s.createTask t parent table stack tables segments = some s')
    {s'' : Ownership} (hrun : s'.runAll t ops = some s'') :
    s''.destroyed t ≠ s.destroyed t + 1 ∧ s''.free ≠ s.free ∧ ¬s''.kernelVas.Perm s.kernelVas ∧
      s''.tasks ≠ s.tasks ∧ ¬GivesBack s s'' t := by
  obtain ⟨s₁, h₁, hsegments⟩ := Option.bind_eq_some_iff.mp hcreate
  obtain ⟨hkeeps₁, hfree, hva, hstack⟩ := createTaskCommon_spec h₁
  have hkeeps := (hkeeps₁.mapSegments hsegments).runAll hrun
  have htasks : s''.tasks ≠ s.tasks := by
    rw [hkeeps.tasks]
    exact fun heq => List.cons_ne_nil t [] (List.append_right_eq_self.mp heq)
  refine ⟨?_, fun heq => ?_, fun hperm => ?_, htasks, fun hback => htasks hback.tasks⟩
  · rw [hkeeps.destroyed]
    exact (Nat.succ_ne_self _).symm
  · obtain ⟨p, hp⟩ := List.exists_mem_of_ne_nil _ hstack
    have hp' := hkeeps.free p hp
    rw [heq, hfree p hp] at hp'
    cases hp'
  · exact hva (hperm.mem_iff.mp hkeeps.kernelVa)

/-- All pages are free, and there are no tasks. -/
def start : Ownership := ⟨fun _ => true, [], [], fun _ => [], fun _ => ⟨[], [], []⟩, fun _ => 0⟩

/-- A process with one segment is created. -/
def created : Option Ownership := start.createTask 7 none 0 ⟨[1, 2], 0x1000⟩ [3] [(⟨[4], 0x2000⟩, [5])]

/-- It is woken, its heap grows, and it is killed. -/
def wholeLife : List Op := [.hold .scheduler, .drop .variable, .growHeap [6] [], .killTask]

theorem keeps_of_createTask_wholeLife : ∃ s' s'', created = some s' ∧ s'.runAll 7 wholeLife = some s'' ∧
    s''.destroyed 7 ≠ start.destroyed 7 + 1 ∧ s''.free ≠ start.free ∧
      ¬s''.kernelVas.Perm start.kernelVas ∧ s''.tasks ≠ start.tasks ∧ ¬GivesBack start s'' 7 := by
  have hrun : (created.bind fun s => s.runAll 7 wholeLife).isSome = true := by decide +kernel
  obtain ⟨s'', hs''⟩ := Option.isSome_iff_exists.mp hrun
  obtain ⟨s', hs', hs''⟩ := Option.bind_eq_some_iff.mp hs''
  exact ⟨s', s'', hs', hs'', keeps_of_createTask hs' hs''⟩

/-- In the end nothing but the list of all tasks refers to the process, and it is still there. -/
theorem not_givesBack_wholeLife : ∃ s'', (created.bind fun s => s.runAll 7 wholeLife) = some s'' ∧
    s''.holders 7 = [] ∧ s''.tasks = [7] ∧ s''.free 1 = false ∧ s''.destroyed 7 = 0 ∧
      ¬GivesBack start s'' 7 := by
  have hrun : (created.bind fun s => s.runAll 7 wholeLife).any (fun s => decide (s.holders 7 = [] ∧
      s.tasks = [7] ∧ s.free 1 = false ∧ s.destroyed 7 = 0)) = true := by
    decide +kernel
  obtain ⟨s'', hs'', hdec⟩ := (Option.any_eq_true _ _).mp hrun
  obtain ⟨hholders, htasks, hfree, hdestroyed⟩ := of_decide_eq_true hdec
  refine ⟨s'', hs'', hholders, htasks, hfree, hdestroyed, fun hback => ?_⟩
  have hdestroyed' := hback.destroyed
  rw [hdestroyed] at hdestroyed'
  cases hdestroyed'

end Ownership

end PiKachulm.Tasks

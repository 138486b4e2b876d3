import PiKachulm.Core.Bytes
import PiKachulm.Tasks.Pipe

/-!
# Pipes between tasks

The pipes that tasks have open, and the system calls on them. A pipe is looked up in the open pipes of the
task that made it, but it can only be used by a task that has it among its own, and no system call adds a
pipe to a second task: pipes connect no two tasks.
-/

namespace PiKachulm.Syscalls

open Core Libk Tasks

/-- Pipes are named by the addresses of their objects. -/
abbrev PipePtr := ℕ

/-- What a task gets from a system call on pipes: an error code, a pointer that may be null, its own
argument when a pointer is refused; or the call is made again when the task is woken. -/
inductive PipeReply where
  | ok
  | invalidPipe
  | pipe (p : Option PipePtr)
  | argument
  | again
  deriving DecidableEq

/-- The tasks with their process ids and their memories, the pipes that each of them has open, and the
pipes with their reference counts. -/
structure PipeTable where
  manager : TaskManager
  tasks : List TaskPtr
  pid : TaskPtr → ℕ
  memory : TaskPtr → ℕ → UInt8
  openPipes : TaskPtr → List PipePtr
  pipe : PipePtr → PipeResource
  refCount : PipePtr → ℕ

/-- `strcmp` of two strings, as far as its result is zero; it goes over at most `n` bytes. -/
def sameString (mem : ℕ → UInt8) : ℕ → ℕ → ℕ → Option Bool
  | 0, _, _     => none
  | n + 1, a, c =>
    if mem a ≠ mem c then some false
    else if mem a = 0 then some true
    else sameString mem n (wadd a 1) (wadd c 1)

/-- Whether the string at an address has less than `n` characters. -/
def shorterThan (mem : ℕ → UInt8) (n a : ℕ) : Bool := (List.range n).any fun i => mem (wadd a i) = 0

namespace PipeTable

variable (s : PipeTable)

/-- `find_by_id`; the id 0 stands for the current task. -/
def findById (id : ℕ) : Option TaskPtr :=
  if id = 0 then s.manager.currentTask else s.tasks.find? fun t => s.pid t = id

def ownPipe (t : TaskPtr) (p : PipePtr) : Bool := p ≠ 0 && p ∈ s.openPipes t

/-- The loop of `get_pipe`, which reads names in the memory of the current task. -/
def getPipeFrom (mem : ℕ → UInt8) (t : TaskPtr) (name : ℕ) : List PipePtr → Option (Option PipePtr)
  | []     => some none
  | p :: l =>
    if (s.pipe p).parent ≠ some t ∨ (s.pipe p).name = 0 then getPipeFrom mem t name l
    else do
      if ← sameString mem (2 ^ 64) (s.pipe p).name name then pure (some p) else getPipeFrom mem t name l

def getPipe (mem : ℕ → UInt8) (t : TaskPtr) (name : ℕ) : Option (Option PipePtr) :=
  s.getPipeFrom mem t name (s.openPipes t)

/-- `create_pipe`, with the address and the buffer that `new` finds. -/
def createPipe (t : TaskPtr) (name : ℕ) (new : PipePtr) (buffer : ℕ → UInt8) :
    Option (Option PipePtr × PipeTable) :=
  if name ≠ 0 ∧ shorterThan (s.memory t) 32 name then do
    match ← s.getPipe (s.memory t) t name with
    | some _ => pure (none, s)
    | none   =>
      if new = 0 ∨ s.refCount new ≠ 0 then none
      else pure (some new, { s with
        pipe := Function.update s.pipe new (.create t name 4096 buffer)
        refCount := Function.update s.refCount new 1
        openPipes := Function.update s.openPipes t (s.openPipes t ++ [new]) })
  else none

/-- The pipe is closed when the task is its parent. -/
def closeOwn (t : TaskPtr) (p : PipePtr) : Option PipeTable :=
  if (s.pipe p).parent = some t then do
    let (pipe, manager) ← (s.pipe p).close s.manager
    pure { s with pipe := Function.update s.pipe p pipe, manager := manager }
  else some s

/-- `unregister_pipe`. -/
def unregisterPipe (t : TaskPtr) (p : PipePtr) : Option PipeTable := do
  let s ← s.closeOwn t p
  if p ∈ s.openPipes t ∧ 0 < s.refCount p then
    pure { s with
      openPipes := Function.update s.openPipes t ((s.openPipes t).erase p)
      refCount := Function.update s.refCount p (s.refCount p - 1) }
  else none

/-! ### The system calls -/

def pikaSysPipeOpen (name : ℕ) (new : PipePtr) (buffer : ℕ → UInt8) : Option (PipeReply × PipeTable) :=
  if name = 0 then some (.argument, s)
  else do
    let t ← s.manager.currentTask
    let (p, s) ← s.createPipe t name new buffer
    pure (.pipe p, s)

def pikaSysPipeClose (p : PipePtr) : Option (PipeReply × PipeTable) := do
  let t ← s.manager.currentTask
  if !s.ownPipe t p then pure (.invalidPipe, s)
  else
    let s ← s.unregisterPipe t p
    pure (.ok, s)

/-- The names are read in the memory of the task that calls. -/
def pikaSysPipeGet (pid name : ℕ) : Option (PipeReply × PipeTable) :=
  if name = 0 then some (.argument, s)
  else
    match s.findById (pid % 2 ^ 32) with
    | none   => some (.pipe none, s)
    | some t => do
      let caller ← s.manager.currentTask
      let p ← s.getPipe (s.memory caller) t name
      pure (.pipe p, s)

/-- A number of bytes is stored in the memory of a task, unless the pointer is null. -/
def storeCount (mem : ℕ → UInt8) (ptr count : ℕ) : ℕ → UInt8 :=
  if ptr = 0 then mem else blit mem ptr (leBytes 8 count)

def pikaSysPipeRead (p : PipePtr) (buffer size readBytes : ℕ) : Option (PipeReply × PipeTable) := do
  let t ← s.manager.currentTask
  if !s.ownPipe t p then pure (.invalidPipe, s)
  else if buffer = 0 then pure (.argument, s)
  else
    let (ready, pipe, manager) ← (s.pipe p).waitRead s.manager t
    if !ready then
      pure (.again, { s with pipe := Function.update s.pipe p pipe, manager := manager })
    else
      let (data, pipe, manager) ← pipe.read manager size
      pure (.ok, { s with
        pipe := Function.update s.pipe p pipe
        manager := manager
        memory := Function.update s.memory t
          (storeCount (blit (s.memory t) buffer data) readBytes data.length) })

def pikaSysPipeWrite (p : PipePtr) (buffer size writtenBytes : ℕ) : Option (PipeReply × PipeTable) := do
  let t ← s.manager.currentTask
  if !s.ownPipe t p then pure (.invalidPipe, s)
  else if buffer = 0 then pure (.argument, s)
  else
    let (ready, pipe, manager) ← (s.pipe p).waitWrite s.manager t
    if !ready then
      pure (.again, { s with pipe := Function.update s.pipe p pipe, manager := manager })
    else
      let (count, pipe, manager) ← pipe.write manager (slice (s.memory t) buffer size)
      pure (.ok, { s with
        pipe := Function.update s.pipe p pipe
        manager := manager
        memory := Function.update s.memory t (storeCount (s.memory t) writtenBytes count) })

/-! ### Runs -/

/-- What happens to the pipes of all tasks: tasks are created, make system calls, change their memory, and
are scheduled and killed. The loop that closes the pipes of a task that is killed erases from the list
over which it runs; `closed` are those that it comes to. -/
inductive Op where
  | newTask (t : TaskPtr)
  | pipeOpen (name : ℕ) (new : PipePtr) (buffer : ℕ → UInt8)
  | pipeClose (p : PipePtr)
  | pipeGet (pid name : ℕ)
  | pipeRead (p : PipePtr) (buffer size readBytes : ℕ)
  | pipeWrite (p : PipePtr) (buffer size writtenBytes : ℕ)
  | store (memory : ℕ → UInt8)
  | task (op : TaskManager.Op) (closed : List PipePtr)

/-- `free_resources`, when a task is killed. -/
def freePipes (t : TaskPtr) (closed : List PipePtr) : PipeTable :=
  { s with
    openPipes := Function.update s.openPipes t []
    refCount := fun p => if p ∈ closed ∧ p ∈ s.openPipes t then s.refCount p - 1 else s.refCount p
    pipe := fun p => if p ∈ closed ∧ p ∈ s.openPipes t then
        { s.pipe p with parent := none, capacity := 0, size := 0, readIndex := 0, writeIndex := 0 }
      else s.pipe p }

def Op.run : Op → Option PipeTable
  | .newTask t                  =>
    if t ∈ s.tasks then none
    else some { s with
      tasks := s.tasks ++ [t]
      pid := Function.update s.pid t (s.tasks.length % 2 ^ 32)
      openPipes := Function.update s.openPipes t [] }
  | .pipeOpen name new buffer   => (s.pikaSysPipeOpen name new buffer).map Prod.snd
  | .pipeClose p                => (s.pikaSysPipeClose p).map Prod.snd
  | .pipeGet pid name           => (s.pikaSysPipeGet pid name).map Prod.snd
  | .pipeRead p buffer size n   => (s.pikaSysPipeRead p buffer size n).map Prod.snd
  | .pipeWrite p buffer size n  => (s.pikaSysPipeWrite p buffer size n).map Prod.snd
  | .store memory               =>
    s.manager.currentTask.map fun t => { s with memory := Function.update s.memory t memory }
  | .task op closed             => do
    let manager ← op.run s.manager
    match op with
    | .killTask _ t =>
      if s.manager.isTerminated t then pure { s with manager := manager }
      else pure ({ s with manager := manager }.freePipes t closed)
    | _             => pure { s with manager := manager }

/-- The string at an address, as far as a name may go. -/
def stringAt (mem : ℕ → UInt8) (a : ℕ) : List UInt8 := (slice mem a 32).takeWhile (· ≠ 0)

/-- The names that pipes have been opened with. -/
def Op.names (names : PipePtr → List UInt8) : Op → PipePtr → List UInt8
  | .pipeOpen name new buffer =>
    match s.manager.currentTask, s.pikaSysPipeOpen name new buffer with
    | some t, some (.pipe (some p), _) => Function.update names p (stringAt (s.memory t) name)
    | _, _                             => names
  | _                         => names

/-- The states of runs, with the names of the pipes. -/
inductive Reaches : PipeTable → (PipePtr → List UInt8) → Prop
  | start {s : PipeTable} (hopen : ∀ t, s.openPipes t = []) : Reaches s fun _ => []
  | step {s s' : PipeTable} {names : PipePtr → List UInt8} (h : Reaches s names) (op : Op)
    (hop : op.run s = some s') : Reaches s' (op.names s names)

/-- What it is for a pipe of task `a` to connect it with task `b`: `b` finds it by its name, and what `b`
writes to it and reads from it goes through the buffer in order. -/
structure Connects (names : PipePtr → List UInt8) (a c : TaskPtr) (p : PipePtr) : Prop where
  found : ∀ name, name ≠ 0 → stringAt (s.memory c) name = names p →
    s.pikaSysPipeGet (s.pid a) name = some (.pipe (some p), s)
  written : ∀ buffer size n, buffer ≠ 0 → ∃ r s', s.pikaSysPipeWrite p buffer size n = some (r, s') ∧
    r ≠ .invalidPipe ∧ (r = .ok → ∃ k ≤ size,
      (s'.pipe p).contents = (s.pipe p).contents ++ slice (s.memory c) buffer k)
  read : ∀ buffer size, buffer ≠ 0 → ∃ r s', s.pikaSysPipeRead p buffer size 0 = some (r, s') ∧
    r ≠ .invalidPipe ∧ (r = .ok → ∃ k ≤ size, (s'.pipe p).contents = (s.pipe p).contents.drop k ∧
      slice (s'.memory c) buffer k = (s.pipe p).contents.take k)
  unique : ∀ q ∈ s.openPipes a, names q = names p → q = p

/-! ### Who has a pipe -/

/-- A pipe that a task has open is referenced, and no other task has it. -/
structure Owned : Prop where
  once : ∀ t, (s.openPipes t).Nodup
  apart : ∀ t u p, p ∈ s.openPipes t → p ∈ s.openPipes u → t = u
  referenced : ∀ t p, p ∈ s.openPipes t → s.refCount p ≠ 0

variable {s} {s' : PipeTable} {t u : TaskPtr} {p : PipePtr} {name new buffer size n : ℕ} {r : PipeReply}

/-- Pipes are closed, and those that are left keep their references. -/
lemma Owned.of_sublist (h : s.Owned) (hsub : ∀ u, (s'.openPipes u).Sublist (s.openPipes u))
    (href : ∀ u p, p ∈ s'.openPipes u → s'.refCount p = s.refCount p) : s'.Owned where
  once u := (h.once u).sublist (hsub u)
  apart u v p hu hv := h.apart u v p ((hsub u).subset hu) ((hsub v).subset hv)
  referenced u p hu := by
    rw [href u p hu]
    exact h.referenced u p ((hsub u).subset hu)

lemma Owned.of_eq (h : s.Owned) (hopen : s'.openPipes = s.openPipes) (href : s'.refCount = s.refCount) :
    s'.Owned :=
  h.of_sublist (fun u => by rw [hopen]) fun u p _ => by rw [href]

/-- One task closes pipes. -/
lemma Owned.of_update {l : List PipePtr} (h : s.Owned)
    (hopen : s'.openPipes = Function.update s.openPipes t l) (hl : l.Sublist (s.openPipes t))
    (href : ∀ q, q ∈ l ∨ q ∉ s.openPipes t → s'.refCount q = s.refCount q) : s'.Owned := by
  refine h.of_sublist (fun u => ?_) fun u q hq => ?_
  · rw [hopen]
    by_cases hu : u = t
    · subst hu
      rwa [Function.update_self]
    · rw [Function.update_of_ne hu]
  · rw [hopen] at hq
    by_cases hu : u = t
    · subst hu
      rw [Function.update_self] at hq
      exact href q (Or.inl hq)
    · rw [Function.update_of_ne hu] at hq
      exact href q (Or.inr fun ht => hu (h.apart u t q hq ht))

/-- `create_pipe` finds a pipe of this name, or makes one at an address that is free. -/
lemma createPipe_eq_some {buffer : ℕ → UInt8} {q : Option PipePtr}
    (hrun : s.createPipe t name new buffer = some (q, s')) : s' = s ∨ s.refCount new = 0 ∧ s' = { s with
      pipe := Function.update s.pipe new (.create t name 4096 buffer)
      refCount := Function.update s.refCount new 1
      openPipes := Function.update s.openPipes t (s.openPipes t ++ [new]) } := by
  rw [createPipe] at hrun
  by_cases hname : name ≠ 0 ∧ shorterThan (s.memory t) 32 name
  · rw [if_pos hname] at hrun
    obtain ⟨found, -, hrun⟩ := Option.bind_eq_some_iff.mp hrun
    cases found with
    | some _ =>
      cases hrun
      exact Or.inl rfl
    | none =>
      dsimp only at hrun
      split_ifs at hrun with hnew
      rw [not_or, not_not] at hnew
      cases hrun
      exact Or.inr ⟨hnew.2, rfl⟩
  · rw [if_neg hname] at hrun
    cases hrun

/-- A new pipe is referenced by nobody before. -/
lemma Owned.add (h : s.Owned) (hnew : s.refCount new = 0)
    (hopen : s'.openPipes = Function.update s.openPipes t (s.openPipes t ++ [new]))
    (href : s'.refCount = Function.update s.refCount new 1) : s'.Owned := by
  have hnot : ∀ u, new ∉ s.openPipes u := fun u hu => h.referenced u new hu hnew
  have hmem : ∀ u p, p ∈ s'.openPipes u ↔ p ∈ s.openPipes u ∨ u = t ∧ p = new := by
    intro u p
    rw [hopen]
    by_cases hu : u = t
    · subst hu
      simp
    · simp [hu]
  constructor
  · intro u
    rw [hopen]
    by_cases hu : u = t
    · subst hu
      rw [Function.update_self]
      exact (List.nodup_append_comm).mp (List.nodup_cons.mpr ⟨hnot u, h.once u⟩)
    · rw [Function.update_of_ne hu]
      exact h.once u
  · intro u v p hu hv
    rcases (hmem u p).mp hu with hu | ⟨rfl, rfl⟩
    · rcases (hmem v p).mp hv with hv | ⟨rfl, rfl⟩
      · exact h.apart u v p hu hv
      · exact absurd hu (hnot u)
    · rcases (hmem v p).mp hv with hv | ⟨rfl, -⟩
      · exact absurd hv (hnot v)
      · rfl
  · intro u p hp
    rw [href]
    rcases (hmem u p).mp hp with hp | ⟨-, rfl⟩
    · have hne : p ≠ new := fun heq => hnot u (heq ▸ hp)
      rw [Function.update_of_ne hne]
      exact h.referenced u p hp
    · rw [Function.update_self]
      exact Nat.one_ne_zero

lemma Owned.createPipe {buffer : ℕ → UInt8} {q : Option PipePtr} (h : s.Owned)
    (hrun : s.createPipe t name new buffer = some (q, s')) : s'.Owned := by
  rcases createPipe_eq_some hrun with rfl | ⟨hnew, rfl⟩
  · exact h
  · exact h.add hnew rfl rfl

lemma openPipes_closeOwn (hrun : s.closeOwn t p = some s') :
    s'.openPipes = s.openPipes ∧ s'.refCount = s.refCount := by
  rw [closeOwn] at hrun
  split_ifs at hrun
  · obtain ⟨r, -, hrun⟩ := Option.bind_eq_some_iff.mp hrun
    cases hrun
    exact ⟨rfl, rfl⟩
  · cases hrun
    exact ⟨rfl, rfl⟩

lemma Owned.unregisterPipe (h : s.Owned) (hrun : s.unregisterPipe t p = some s') : s'.Owned := by
  obtain ⟨s₁, h₁, hrun⟩ := Option.bind_eq_some_iff.mp hrun
  obtain ⟨hopen, href⟩ := openPipes_closeOwn h₁
  have hown : s₁.Owned := h.of_eq hopen href
  split_ifs at hrun with hp
  cases hrun
  refine hown.of_update rfl List.erase_sublist fun q hq => Function.update_of_ne ?_ _ _
  rintro rfl
  rcases hq with hq | hq
  · exact (hown.once t).not_mem_erase hq
  · exact hq hp.1

lemma Owned.freePipes (h : s.Owned) (closed : List PipePtr) : (s.freePipes t closed).Owned := by
  refine h.of_update rfl (List.nil_sublist _) fun q hq => if_neg fun hclosed => ?_
  rcases hq with hq | hq
  · cases hq
  · exact hq hclosed.2

/-- The system calls that read and write leave the open pipes alone. -/
lemma openPipes_pikaSysPipeRead (hrun : s.pikaSysPipeRead p buffer size n = some (r, s')) :
    s'.openPipes = s.openPipes ∧ s'.refCount = s.refCount := by
  obtain ⟨t, -, hrun⟩ := Option.bind_eq_some_iff.mp hrun
  split_ifs at hrun
  · cases hrun
    exact ⟨rfl, rfl⟩
  · cases hrun
    exact ⟨rfl, rfl⟩
  · obtain ⟨⟨ready, pipe, manager⟩, -, hrun⟩ := Option.bind_eq_some_iff.mp hrun
    cases ready with
    | false =>
      cases hrun
      exact ⟨rfl, rfl⟩
    | true =>
      obtain ⟨x, -, hrun⟩ := Option.bind_eq_some_iff.mp hrun
      cases hrun
      exact ⟨rfl, rfl⟩

lemma openPipes_pikaSysPipeWrite (hrun : s.pikaSysPipeWrite p buffer size n = some (r, s')) :
    s'.openPipes = s.openPipes ∧ s'.refCount = s.refCount := by
  obtain ⟨t, -, hrun⟩ := Option.bind_eq_some_iff.mp hrun
  split_ifs at hrun
  · cases hrun
    exact ⟨rfl, rfl⟩
  · cases hrun
    exact ⟨rfl, rfl⟩
  · obtain ⟨⟨ready, pipe, manager⟩, -, hrun⟩ := Option.bind_eq_some_iff.mp hrun
    cases ready with
    | false =>
      cases hrun
      exact ⟨rfl, rfl⟩
    | true =>
      obtain ⟨x, -, hrun⟩ := Option.bind_eq_some_iff.mp hrun
      cases hrun
      exact ⟨rfl, rfl⟩

/-- No call lets a second task have a pipe. -/
lemma Owned.run {op : Op} (h : s.Owned) (hop : op.run s = some s') : s'.Owned := by
  cases op with
  | newTask t =>
    rw [Op.run] at hop
    split_ifs at hop
    cases hop
    exact h.of_update rfl (List.nil_sublist _) fun _ _ => rfl
  | pipeOpen name new buffer =>
    obtain ⟨⟨r, s₁⟩, h₁, rfl⟩ := Option.map_eq_some_iff.mp hop
    rw [pikaSysPipeOpen] at h₁
    split_ifs at h₁
    · cases h₁
      exact h
    · obtain ⟨t, -, h₁⟩ := Option.bind_eq_some_iff.mp h₁
      obtain ⟨⟨q, s₂⟩, h₂, h₁⟩ := Option.bind_eq_some_iff.mp h₁
      cases h₁
      exact h.createPipe h₂
  | pipeClose p =>
    obtain ⟨⟨r, s₁⟩, h₁, rfl⟩ := Option.map_eq_some_iff.mp hop
    obtain ⟨t, -, h₁⟩ := Option.bind_eq_some_iff.mp h₁
    split_ifs at h₁
    · cases h₁
      exact h
    · obtain ⟨s₂, h₂, h₁⟩ := Option.bind_eq_some_iff.mp h₁
      cases h₁
      exact h.unregisterPipe h₂
  | pipeGet pid name =>
    obtain ⟨⟨r, s₁⟩, h₁, rfl⟩ := Option.map_eq_some_iff.mp hop
    rw [pikaSysPipeGet] at h₁
    split_ifs at h₁
    · cases h₁
      exact h
    · cases hfind : s.findById (pid % 2 ^ 32) with
      | none =>
        rw [hfind] at h₁
        cases h₁
        exact h
      | some t =>
        rw [hfind] at h₁
        obtain ⟨caller, -, h₁⟩ := Option.bind_eq_some_iff.mp h₁
        obtain ⟨q, -, h₁⟩ := Option.bind_eq_some_iff.mp h₁
        cases h₁
        exact h
  | pipeRead p buffer size n =>
    obtain ⟨⟨r, s₁⟩, h₁, rfl⟩ := Option.map_eq_some_iff.mp hop
    obtain ⟨hopen, href⟩ := openPipes_pikaSysPipeRead h₁
    exact h.of_eq hopen href
  | pipeWrite p buffer size n =>
    obtain ⟨⟨r, s₁⟩, h₁, rfl⟩ := Option.map_eq_some_iff.mp hop
    obtain ⟨hopen, href⟩ := openPipes_pikaSysPipeWrite h₁
    exact h.of_eq hopen href
  | store memory =>
    obtain ⟨t, -, rfl⟩ := Option.map_eq_some_iff.mp hop
    exact h.of_eq rfl rfl
  | task op closed =>
    obtain ⟨manager, -, hop⟩ := Option.bind_eq_some_iff.mp hop
    have hown : ({ s with manager := manager } : PipeTable).Owned := h.of_eq rfl rfl
    cases op with
    | killTask freed t =>
      dsimp only at hop
      split_ifs at hop
      · cases hop
        exact hown
      · cases hop
        exact hown.freePipes closed
    | _ =>
      cases hop
      exact hown

/-- In every run. -/
lemma Reaches.owned {names : PipePtr → List UInt8} (h : Reaches s names) : s.Owned := by
  induction h with
  | start hopen => exact ⟨fun t => by simp [hopen], fun t u p ht => by simp [hopen] at ht,
      fun t p ht => by simp [hopen] at ht⟩
  | step _ op hop ih => exact ih.run hop

/-- A task does not own the pipe of another one. -/
lemma Reaches.not_ownPipe {names : PipePtr → List UInt8} {a c : TaskPtr} (h : Reaches s names)
    (hne : a ≠ c) (hp : p ∈ s.openPipes a) : s.ownPipe c p = false := by
  have hnot : p ∉ s.openPipes c := fun hc => hne (h.owned.apart a c p hp hc)
  simp [ownPipe, hnot]

lemma pikaSysPipeRead_eq {c : TaskPtr} (hcur : s.manager.currentTask = some c)
    (hown : s.ownPipe c p = false) : s.pikaSysPipeRead p buffer size n = some (.invalidPipe, s) := by
  simp [pikaSysPipeRead, hcur, hown]

lemma pikaSysPipeWrite_eq {c : TaskPtr} (hcur : s.manager.currentTask = some c)
    (hown : s.ownPipe c p = false) : s.pikaSysPipeWrite p buffer size n = some (.invalidPipe, s) := by
  simp [pikaSysPipeWrite, hcur, hown]

lemma not_connects_of_not_ownPipe {names : PipePtr → List UInt8} {a c : TaskPtr}
    (hcur : s.manager.currentTask = some c) (hown : s.ownPipe c p = false) : ¬s.Connects names a c p := by
  intro hconnects
  obtain ⟨r, s', hr, hvalid, -⟩ := hconnects.read 1 0 Nat.one_ne_zero
  rw [pikaSysPipeRead_eq hcur hown] at hr
  cases hr
  exact hvalid rfl

/-- No pipe connects two tasks: the bytes of a pipe can neither be read nor written by another task than
the one that opened it. -/
theorem not_connects_of_reaches {names : PipePtr → List UInt8} {a c : TaskPtr} (h : Reaches s names)
    (hcur : s.manager.currentTask = some c) (hne : a ≠ c) (hp : p ∈ s.openPipes a) :
    (∀ buffer size n, s.pikaSysPipeRead p buffer size n = some (.invalidPipe, s) ∧
      s.pikaSysPipeWrite p buffer size n = some (.invalidPipe, s)) ∧ ¬s.Connects names a c p := by
  have hown := h.not_ownPipe hne hp
  exact ⟨fun _ _ _ => ⟨pikaSysPipeRead_eq hcur hown, pikaSysPipeWrite_eq hcur hown⟩,
    not_connects_of_not_ownPipe hcur hown⟩

/-- A list of calls, one after the other. -/
def runAll (s : PipeTable) (names : PipePtr → List UInt8) :
    List Op → Option (PipeTable × (PipePtr → List UInt8))
  | []        => some (s, names)
  | op :: ops => (op.run s).bind fun s' => s'.runAll (op.names s names) ops

lemma Reaches.runAll {names names' : PipePtr → List UInt8} {ops : List Op} (h : Reaches s names)
    (hops : s.runAll names ops = some (s', names')) : Reaches s' names' := by
  induction ops generalizing s names with
  | nil =>
    cases hops
    exact h
  | cons op ops ih =>
    obtain ⟨s₁, h₁, hops⟩ := Option.bind_eq_some_iff.mp hops
    exact ih (h.step op h₁) hops

def newTable : PipeTable where
  manager := .created
  tasks := []
  pid _ := 0
  memory _ _ := 0
  openPipes _ := []
  pipe _ := .create 0 0 0 fun _ => 0
  refCount _ := 0

/-- The first task opens a pipe named `p`, and then the second one runs. -/
def openAndYield : List Op :=
  [.newTask 1, .newTask 2, .task (.wakeTask 1) [], .task (.wakeTask 2) [], .task .schedule [],
    .store fun a => if a = 0x1000 then 0x70 else 0, .pipeOpen 0x1000 64 fun _ => 0, .task .schedule []]

lemma exists_openAndYield : ∃ s names, newTable.runAll (fun _ => []) openAndYield = some (s, names) ∧
    s.manager.currentTask = some 2 ∧ 64 ∈ s.openPipes 1 := by
  have hrun : (newTable.runAll (fun _ => []) openAndYield).any (fun x =>
      x.1.manager.currentTask = some 2 ∧ 64 ∈ x.1.openPipes 1) = true := by decide +kernel
  obtain ⟨⟨s, names⟩, hs, hcond⟩ := (Option.any_eq_true _ _).mp hrun
  exact ⟨s, names, hs, of_decide_eq_true hcond⟩

theorem not_connects_of_reaches_openAndYield : ∃ s names, Reaches s names ∧
    (∀ buffer size n, s.pikaSysPipeRead 64 buffer size n = some (.invalidPipe, s) ∧
      s.pikaSysPipeWrite 64 buffer size n = some (.invalidPipe, s)) ∧ ¬s.Connects names 1 2 64 := by
  obtain ⟨s, names, hrun, hcur, hp⟩ := exists_openAndYield
  have h : Reaches s names := (Reaches.start fun _ => rfl).runAll hrun
  exact ⟨s, names, h, not_connects_of_reaches h hcur (by decide) hp⟩

/-- The second task cannot use the pipe that the first one has opened. -/
theorem not_connects_openAndYield : ∃ s names,
    newTable.runAll (fun _ => []) openAndYield = some (s, names) ∧ s.manager.currentTask = some 2 ∧
      64 ∈ s.openPipes 1 ∧ ¬s.Connects names 1 2 64 := by
  obtain ⟨s, names, hrun, hcur, hp⟩ := exists_openAndYield
  have h : Reaches s names := (Reaches.start fun _ => rfl).runAll hrun
  exact ⟨s, names, hrun, hcur, hp, not_connects_of_not_ownPipe hcur (h.not_ownPipe (by decide) hp)⟩

end PipeTable

end PiKachulm.Syscalls

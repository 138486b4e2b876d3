import PiKachulm.Tasks.Scheduler

/-!
# The task manager

The functions of `TaskManager` on existing tasks, and the wait lists. A result `none` is an
assertion that fails.
-/

namespace PiKachulm.Tasks

open Core Libk

namespace TaskManager

variable (freed : TaskPtr → List TaskPtr) (s : TaskManager) (t : TaskPtr)

/-- `TICK_TIME`, in milliseconds. -/
def tickTime : ℕ := 10

def wakeTask : Option TaskManager :=
  if s.isTerminated t then none
  else if s.isRunning t then some s
  else do
    let s := s.setTask t fun t => { t with elapsedTicks := 0 }
    let s ← s.addTask t
    pure (s.setTask t fun t => { t with state := .running })

def pauseTask : Option TaskManager :=
  if s.isTerminated t then none
  else if !s.isRunning t then some s
  else do
    let (_, s) ← s.removeTask t
    pure (s.setTask t fun t => { t with state := .uninterruptible })

/-- `DeltaQueue::add_task`. -/
def addSleeping (ticks : ℕ) : Option TaskManager :=
  if s.isRunning t then none
  else some { s with items := DeltaQueue.addTask t ticks 0 s.items }

/-- The ticks that `sleep_task` waits for; the division rounds up, and its sum is one of words. -/
def sleepTicks (timeInUs : ℕ) : ℕ :=
  max 1 (wsub (wadd timeInUs (tickTime * 1000)) 1 / (tickTime * 1000))

def sleepTask (timeInUs : ℕ) : Option TaskManager :=
  if s.isTerminated t then none
  else if !s.isRunning t then some s
  else do
    let (_, s) ← s.removeTask t
    let s := s.setTask t fun t => { t with state := .interruptible }
    s.addSleeping t (sleepTicks timeInUs)

/-- `WaitList::wake_all`, on the tasks of the list. -/
def wakeAll (s : TaskManager) (waitList : List TaskPtr) : Option TaskManager :=
  waitList.foldlM (fun s t => if s.isTerminated t then some s else s.wakeTask t) s

/-- `children_begin`, as an index of the list of children. -/
def childrenBegin (_task : Task) : ℕ := 0

/-- `children_end`, as an index of the list of children. The source returns `m_children.begin()`. -/
def childrenEnd (_task : Task) : ℕ := 0

/-- The children between the two iterators. -/
def childrenRange : List TaskPtr :=
  let task := s.task t
  (task.children.drop (childrenBegin task)).take (childrenEnd task - childrenBegin task)

/-- `kill_task`. The windows and the pipes of a task are not part of the state: `freed` gives the
tasks in the wait lists that are woken when the resources of a task are freed. -/
def killTask (s : TaskManager) (t : TaskPtr) : Option TaskManager :=
  if s.isTerminated t then some s
  else do
    let s ← (s.childrenRange t).attach.foldlM (fun s child => s.killTask child.1) s
    let (_, s) ← s.removeTask t
    let s ← s.wakeAll (freed t)
    pure (s.setTask t fun t => { t with state := .terminated })
termination_by t
decreasing_by
  -- the range is empty
  have hmem := child.2
  simp [childrenRange, childrenBegin, childrenEnd] at hmem

/-- `set_task_priority`; the first result is what the function returns. -/
def setTaskPriority (newPriority : ℕ) : Option (Bool × TaskManager) :=
  if s.isTerminated t then none
  else if h : newPriority < 32 then
    let oldPriority := s.getPriority t
    let s := s.setTask t fun t => { t with priority := ⟨newPriority, h⟩ }
    some (true, s.updateTaskPriority t oldPriority)
  else some (false, s)

/-- `DeltaQueue::tick`. -/
def deltaTick : Option TaskManager :=
  let (waking, items) := DeltaQueue.tick s.items
  waking.foldlM wakeTask { s with items := items }

def tick : Option TaskManager := do
  let s ← s.deltaTick
  s.schedulerTick

def disablePreempt : TaskManager :=
  s.setTask t fun t => { t with preemptCount := t.preemptCount + 1 }

def enablePreempt : Option TaskManager :=
  if (s.task t).preemptCount - 1 ≥ 0 then
    some (s.setTask t fun t => { t with preemptCount := t.preemptCount - 1 })
  else none

end TaskManager

end PiKachulm.Tasks

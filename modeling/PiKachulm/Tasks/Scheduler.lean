import Mathlib.Data.Fin.Basic
import Mathlib.Data.Fintype.EquivFin
import PiKachulm.Core.Queues
import PiKachulm.Libk.Utils
import PiKachulm.Tasks.DeltaQueue

/-!
# The scheduler

The tasks, and the functions of `Scheduler`. A result `none` is an assertion that fails.
-/

namespace PiKachulm.Tasks

open Core Libk

/-- Tasks are named by the addresses of their objects. -/
abbrev TaskPtr := ℕ

/-- From `MIN_PRIORITY` to `MAX_PRIORITY`; the functions that set a priority check its bounds. -/
abbrev Priority := Fin 32

inductive State where
  | running
  | interruptible
  | uninterruptible
  | terminated
  deriving DecidableEq

/-- The fields of a task that the task manager works with. -/
structure Task where
  state : State
  priority : Priority
  elapsedTicks : ℕ
  markedKill : Bool
  preemptCount : ℤ
  children : List TaskPtr

/-- The tasks, the current task and the run queues of the scheduler, and the delta queue. -/
structure TaskManager where
  task : TaskPtr → Task
  currentTask : Option TaskPtr
  runQueue : Priority → List TaskPtr
  items : List (Item TaskPtr)

namespace TaskManager

def isRunning (s : TaskManager) (t : TaskPtr) : Bool := (s.task t).state = .running

def isTerminated (s : TaskManager) (t : TaskPtr) : Bool := (s.task t).state = .terminated

def getPriority (s : TaskManager) (t : TaskPtr) : Priority := (s.task t).priority

def canPreempt (s : TaskManager) (t : TaskPtr) : Bool := (s.task t).preemptCount = 0

/-- Changes the object of a task. -/
def setTask (s : TaskManager) (t : TaskPtr) (f : Task → Task) : TaskManager :=
  { s with task := Function.update s.task t (f (s.task t)) }

def addTask (s : TaskManager) (t : TaskPtr) : Option TaskManager :=
  if s.isRunning t then none
  else some { s with runQueue := pushBack s.runQueue (s.getPriority t) t }

/-- The priorities from `MAX_PRIORITY` down to `MIN_PRIORITY`. -/
def descending : List Priority := (List.finRange 32).reverse

/-- The loops over run queues: the first task of the first queue of the list that is not empty. -/
def popTask (s : TaskManager) (priorities : List Priority) : Option TaskPtr × TaskManager :=
  match popFirst s.runQueue priorities with
  | none        => (none, s)
  | some (t, q) => (some t, { s with runQueue := q })

/-- Enqueues the old task, unless it is the new one. -/
def enqueueOld (s : TaskManager) (newTask : TaskPtr) : TaskManager :=
  match s.currentTask with
  | none     => s
  | some old =>
    if old = newTask then s
    else { s with runQueue := pushBack s.runQueue (s.getPriority old) old }

def switchTo (s : TaskManager) : Option TaskPtr → Option TaskManager
  | none         => some s
  | some newTask =>
    if s.isRunning newTask then
      some ({ s.enqueueOld newTask with currentTask := some newTask }.setTask newTask
        fun t => { t with elapsedTicks := 0 })
    else none

/-- There is a current task, and it has disabled preemption. -/
def preemptDisabled (s : TaskManager) : Bool :=
  match s.currentTask with
  | none     => false
  | some old => !s.canPreempt old

def schedule (s : TaskManager) : Option TaskManager :=
  if s.preemptDisabled then some s
  else
    let (newTask, s) := s.popTask descending
    s.switchTo newTask

def removeTask (s : TaskManager) (t : TaskPtr) : Option (Bool × TaskManager) :=
  if s.isRunning t then
    if s.currentTask = some t then ({ s with currentTask := none }.schedule).map fun s => (true, s)
    else if t ∈ s.runQueue (s.getPriority t) then
      some (true, { s with runQueue := eraseFrom s.runQueue (s.getPriority t) t })
    else some (false, s)
  else none

def updateTaskPriority (s : TaskManager) (t : TaskPtr) (oldPriority : Priority) : TaskManager :=
  if s.currentTask = some t then s
  else
    let newPriority := s.getPriority t
    if newPriority = oldPriority then s
    else if t ∈ s.runQueue oldPriority then
      { s with runQueue := pushBack (eraseFrom s.runQueue oldPriority t) newPriority t }
    else s

def getCurrentPriority (s : TaskManager) : Priority :=
  match s.currentTask with
  | none   => 0
  | some t => s.getPriority t

def findHigherPriorityTaskThanCurrent (s : TaskManager) : Option TaskPtr × TaskManager :=
  s.popTask (descending.takeWhile fun i => decide (i > s.getCurrentPriority))

def getTimeSliceForPriority (priority : Priority) : ℕ := if priority = 0 then 1 else 10

/-- The current task has used up its time slice. -/
def sliceUsedUp (s : TaskManager) : Bool :=
  match s.currentTask with
  | none     => false
  | some old => decide ((s.task old).elapsedTicks ≥ getTimeSliceForPriority (s.getPriority old))

/-- The loop that looks for a task when the time slice is used up. It runs over the priorities from
the current one down, but each turn looks at the queue of the current priority. -/
def findInRoundRobin (s : TaskManager) : Option TaskPtr × TaskManager :=
  s.popTask ((descending.dropWhile fun i => decide (i > s.getCurrentPriority)).map
    fun _ => s.getCurrentPriority)

/-- Counts a tick for the current task. -/
def countTick (s : TaskManager) : TaskManager :=
  match s.currentTask with
  | none     => s
  | some old => s.setTask old fun t => { t with elapsedTicks := wadd t.elapsedTicks 1 }

/-- `Scheduler::tick`. -/
def schedulerTick (s : TaskManager) : Option TaskManager :=
  let s := s.countTick
  if s.preemptDisabled then some s
  else
    match s.findHigherPriorityTaskThanCurrent with
    | (some newTask, s) => s.switchTo (some newTask)
    | (none, s)         =>
      if s.sliceUsedUp then
        let (newTask, s) := s.findInRoundRobin
        s.switchTo newTask
      else s.switchTo none

end TaskManager

end PiKachulm.Tasks

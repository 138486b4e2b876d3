import PiKachulm.Hardware.Regs
import PiKachulm.Tasks.Effects

/-!
# Exceptions

`exception_handler` and the context switch in it. The work of a handler is given by the calls of the
task manager that it makes, and by what it does to the frame.
-/

namespace PiKachulm.Hardware

open Tasks

inductive InterruptSource where
  | currentSpEl0
  | currentSpElx
  | lowerAArch64
  | lowerAArch32
  deriving DecidableEq

inductive InterruptKind where
  | synchronous
  | irq
  | fiq
  | serror
  deriving DecidableEq

/-- What a system call does to the frame. -/
inductive Answer where
  | none
  | setError (error : BitVec 64)
  | stepBackOneInst

def Answer.apply : Answer → Registers → Registers
  | none, regs            => regs
  | setError error, regs  => regs.setError error
  | stepBackOneInst, regs => regs.stepBackOneInst

/-- An exception: the registers of the task that it interrupts, and the work of the handlers. -/
structure Exception where
  source : InterruptSource
  kind : InterruptKind
  regs : Registers
  simd : FPURegisters
  spEl0 : BitVec 64
  /-- The task has marked itself to be killed since it was resumed. -/
  marksKill : Bool
  /-- The calls of the system call, or of the handlers of the interrupt. -/
  ops : List TaskManager.Op
  answer : Answer
  /-- The tasks that wait for the resources of a task; they are woken when it is killed. -/
  freed : TaskPtr → List TaskPtr

/-- The task manager, the saved states of the tasks, the frame and the other registers. -/
structure Machine where
  manager : TaskManager
  ready : Bool
  saved : TaskPtr → TaskSavedState
  regs : Registers
  cpu : Cpu

namespace Machine

variable (m : Machine) (e : Exception)

/-- The state at the entry of the handler. -/
def enter : Machine :=
  { m with
    manager :=
      match m.manager.currentTask with
      | none   => m.manager
      | some t => if e.marksKill then m.manager.setTask t fun t => { t with markedKill := true } else m.manager
    regs := e.regs
    cpu := { m.cpu with simd := e.simd, spEl0 := e.spEl0 } }

/-- It only logs. -/
def doKernelspaceInterrupt (_regs : Registers) : Bool := false

/-- `ec` of a system call. -/
def svc : BitVec 64 := 0b010101

/-- Calls of the task manager. -/
def call (ops : List TaskManager.Op) : Option Machine :=
  (m.manager.runAll ops).map fun s => { m with manager := s }

/-- `call_syscall` on the current task. -/
def doSyscall : Option Machine :=
  (m.call e.ops).map fun m => { m with regs := e.answer.apply m.regs }

/-- Kills the current task, and selects another one. -/
def killCurrent : Option Machine :=
  match m.manager.currentTask with
  | none   => none
  | some t => m.call [.killTask e.freed t, .schedule]

def doUserspaceInterrupt : Option Machine := if m.regs.ec = svc then m.doSyscall e else m.killCurrent e

/-- The part of `exception_handler` in which there is a context switcher. -/
def handle : Option Machine :=
  if e.kind = .irq then m.call e.ops
  else if e.source = .currentSpEl0 ∧ e.kind = .synchronous ∧ m.regs.ec = svc then m.doSyscall e
  else if e.source = .lowerAArch64 ∧ e.kind = .synchronous then m.doUserspaceInterrupt e
  else if e.source = .lowerAArch32 then m.killCurrent e
  else none

/-- The calls at the start of the destructor: the old task is killed if it is marked. -/
def killMarked (old : Option TaskPtr) : List TaskManager.Op :=
  match old with
  | none   => []
  | some t => if (m.manager.task t).markedKill then [.killTask e.freed t] else []

/-- The saved states when the old task has been saved; one that is terminated is not. -/
def saveOld (old : Option TaskPtr) : TaskPtr → TaskSavedState :=
  match old with
  | none   => m.saved
  | some t =>
    if m.manager.isTerminated t then m.saved
    else Function.update m.saved t ((m.saved t).save m.regs m.cpu)

/-- Saves the old task and restores the current one. Without a current task the kernel panics. -/
def switchFrom (old : Option TaskPtr) : Option Machine :=
  if m.manager.currentTask = old then some m
  else
    match m.manager.currentTask with
    | none   => none
    | some t =>
      let saved := m.saveOld old
      some { m with
        saved := saved
        regs := (saved t).restoreRegs m.regs
        cpu := (saved t).restoreCpu m.cpu }

/-- The destructor of the context switcher. -/
def switchContext (old : Option TaskPtr) : Option Machine :=
  if !m.ready then some m else (m.call (m.killMarked e old)).bind fun m => m.switchFrom old

def exceptionHandler : Option Machine :=
  if (e.source = .currentSpElx ∨ e.source = .currentSpEl0) ∧ e.kind = .synchronous ∧
      doKernelspaceInterrupt m.regs then some m
  else (m.handle e).bind fun m' => m'.switchContext e m.manager.currentTask

end Machine

end PiKachulm.Hardware

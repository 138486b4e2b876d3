import PiKachulm.Core.Program
import PiKachulm.Hardware.Regs

/-!
# What system calls are made of

The error codes, what tasks own, and the functions of the kernel that the handlers of system calls use:
those that only look at the state of the kernel, and those that are called to change it.
-/

namespace PiKachulm.Syscalls

open Core Hardware

abbrev Word := BitVec 64

instance lawfulBEqWord : LawfulBEq Word := inferInstance

/-- The error codes, in the order of their values. -/
inductive SysError where
  | ok
  | generic
  | internal
  | unknownSyscall
  | invalidPriority
  | msgQueueEmpty
  | outOfMem
  | invalidWindow
  | invalidFile
  | invalidDir
  | invalidPid
  | invalidPipe
  | pipeFull
  | pipeEmpty
  | pipeClosed
  deriving DecidableEq

def SysError.code (e : SysError) : Word := BitVec.ofNat 64 e.ctorIdx

/-- The error codes other than that of success. -/
def IsError (w : Word) : Prop := 0 < w.toNat ∧ w.toNat ≤ SysError.pipeClosed.ctorIdx

instance (w : Word) : Decidable (IsError w) := inferInstanceAs (Decidable (_ ∧ _))

/-- What user programs have handles of. -/
inductive Resource where
  | window
  | file
  | dir
  | pipe
  deriving DecidableEq

/-- The error for a handle that the task does not own. -/
def Resource.invalid : Resource → SysError
  | .window => .invalidWindow
  | .file   => .invalidFile
  | .dir    => .invalidDir
  | .pipe   => .invalidPipe

/-- The functions that change the state of the kernel, with their arguments: pointers are words, and what
they return is a word as well, where null pointers and `false` are 0. A store is one to the memory of the
task that runs. -/
inductive Call where
  | print (pid : BitVec 32) (msg : Word)
  | debug (x : Word) (pid : BitVec 32)
  | killTask (task : Word) (exitCode : BitVec 32)
  | sleepTask (task timeInUs : Word)
  | schedule
  | setTaskPriority (task : Word) (priority : BitVec 32)
  | createTask (path parent : Word)
  | wakeTask (task : Word)
  | mapChunk (task nbPages addr : Word) (executable readOnly : Bool)
  | writeFrom (chunk byteOffset data dataByteLength : Word)
  | writeWord (chunk byteOffset value : Word)
  | changeHeapEnd (task increment : Word)
  | register (r : Resource) (task p : Word)
  | unregister (r : Resource) (task p : Word)
  | openFile (path : Word) (mode : BitVec 32)
  | closeFile (file : Word)
  | readFile (file buffer bytesToRead readBytes : Word)
  | openDir (path : Word)
  | closeDir (dir : Word)
  | readDir (dir fileInfo : Word)
  | dequeue (window msg : Word)
  | blockTaskUntilNotEmpty (window task : Word)
  | createWindow (task : Word) (flags : BitVec 32)
  | destroyWindow (window : Word)
  | setTitle (window title : Word)
  | setWindowVisibility (window : Word) (visible : Bool)
  | setWindowGeometry (window : Word) (x y w h : BitVec 32)
  | presentWindow (window : Word) (x y width height : BitVec 32)
  | clear (window : Word) (argb : BitVec 32)
  | drawLine (window : Word) (x1 y1 x2 y2 argb : BitVec 32)
  | drawRect (window : Word) (x y width height argb : BitVec 32)
  | fillRect (window : Word) (x y width height argb : BitVec 32)
  | drawText (window : Word) (x y : BitVec 32) (text : Word) (argb : BitVec 32)
  | blit (window : Word) (x y width height : BitVec 32) (argbBuffer : Word)
  | createPipe (task name : Word)
  | waitRead (pipe task : Word)
  | readPipe (pipe buffer size : Word)
  | waitWrite (pipe task : Word)
  | writePipe (pipe buffer size : Word)
  | store8 (ptr : Word) (value : BitVec 8)
  | store32 (ptr : Word) (value : BitVec 32)
  | store64 (ptr value : Word)
  deriving DecidableEq

/-- The geometry of a window. -/
structure WindowGeometry where
  x : BitVec 32
  y : BitVec 32
  width : BitVec 32
  height : BitVec 32

structure FrameBuffer where
  buffer : Word
  width : BitVec 32
  height : BitVec 32
  pitch : BitVec 32

/-- A kernel: what the handlers look at, and what their calls do. -/
structure Kernel (σ : Type) where
  current : σ → Word
  tasks : σ → List Word
  getId : Word → σ → BitVec 32
  getPriority : Word → σ → BitVec 32
  owned : Resource → Word → σ → List Word
  getPipe (task name : Word) : σ → Word
  /-- A word and the length of a string in the memory of the task that runs. -/
  load : Word → σ → Word
  strlen : Word → σ → Word
  getHeapEnd : Word → σ → Word
  getSize : Word → σ → Word
  isVisible : Word → σ → Bool
  getGeometry : Word → σ → WindowGeometry
  /-- Whether the window manager has the window. -/
  isValid : Word → σ → Bool
  frameBuffer : FrameBuffer
  run : Call → σ → Word × σ

namespace Kernel

variable {σ : Type} (k : Kernel σ)

/-- `find_by_id`; the id 0 stands for the current task. -/
def findById (id : BitVec 32) (s : σ) : Option Word :=
  if id = 0 then some (k.current s) else (k.tasks s).find? fun t => k.getId t s = id

/-- `own_window`, `own_file`, `own_dir` and `own_pipe` of the current task. -/
def own (r : Resource) (p : Word) (s : σ) : Bool := p ≠ 0 && p ∈ k.owned r (k.current s) s

/-- What the handlers do, with the calls they make and their answers. -/
abbrev Program (σ α : Type) := Core.Program (Call × Word) σ α

/-- A call for its answer. -/
def ask (c : Call) : Program σ Word := Core.Program.call (k.run c) fun _ a => (c, a)

/-- A call whose answer is discarded. -/
def tell (c : Call) : Program σ Unit := do
  let _ ← k.ask c

/-- A store, unless the pointer is null. -/
def storeAt (ptr : Word) (c : Call) : Program σ Unit := if ptr = 0 then pure () else k.tell c

/-- `Task::current()`. -/
def currentTask : Program σ Word := Core.Program.observe k.current

variable {w : Session (Call × Word) σ} {c : Call} {ptr : Word}

/-- The session after a call. -/
def after (c : Call) (w : Session (Call × Word) σ) : Session (Call × Word) σ :=
  ⟨(k.run c w.state).2, w.calls ++ [(c, (k.run c w.state).1)]⟩

@[simp] lemma ask_apply : k.ask c w = some ((k.run c w.state).1, k.after c w) := rfl

@[simp] lemma tell_apply : k.tell c w = some ((), k.after c w) := rfl

@[simp] lemma storeAt_apply :
    k.storeAt ptr c w = some ((), if ptr = 0 then w else k.after c w) := by
  rw [storeAt, Core.Program.ite_apply]
  split
  · rfl
  · rfl

@[simp] lemma currentTask_apply : k.currentTask w = some (k.current w.state, w) := rfl

end Kernel

end PiKachulm.Syscalls

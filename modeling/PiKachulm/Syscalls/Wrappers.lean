import PiKachulm.Syscalls.Handlers

/-!
# The wrappers of the user library

What a user program calls to make a system call: the functions of `syscall.c`, `pipe.c`, `file.c` and
`window.c`. They load the number of the system call and its arguments into registers and run `svc`, and
what they find in `x0` afterwards is what they return. Most of them do nothing else.
-/

namespace PiKachulm.Syscalls

open Core Hardware

/-- `svc #0`, with the number of a system call in `w8` and the arguments in `x0` and the registers after
it. -/
structure Trap where
  id : SyscallId
  args : List Word
  deriving DecidableEq

/-- `struct __sys_window_t`. -/
structure SysWindow where
  kernelHandle : Word
  flags : BitVec 32
  title : Word

/-- The windows of a user program, by the addresses of their structures, and all other state: that of
its memory and that of the kernel. -/
structure Process (σ : Type) where
  window : Word → SysWindow
  rest : σ

/-- What a user program runs in: the kernel, which answers in `x0`, and the memory. `stack` is where the
local variables of a wrapper are. -/
structure Environment (σ : Type) where
  svc : Trap → σ → Word × σ
  stack : Word
  strlen : Word → σ → Word
  load32 : Word → σ → BitVec 32
  store64 (ptr value : Word) : σ → σ
  memcpy (dst src n : Word) : σ → σ

/-- What a user program does, with its system calls and their answers. -/
abbrev UserProgram (σ α : Type) := Core.Program (Trap × Word) (Process σ) α

/-- `sys_error_t`, and `sys_pid_t`. -/
abbrev CInt := BitVec 32

/-- `SYS_IS_OK`. -/
def isOk (e : CInt) : Bool := e = 0

/-- `SYS_PIPE_NAME_MAX`. -/
def sysPipeNameMax : Word := 32

namespace Environment

variable {σ : Type} (e : Environment σ)

/-- `__syscall0` to `__syscall5`. -/
def syscall (id : SyscallId) (args : List Word) : UserProgram σ Word :=
  Program.call (fun p => ((e.svc ⟨id, args⟩ p.rest).1, { p with rest := (e.svc ⟨id, args⟩ p.rest).2 }))
    fun _ a => (⟨id, args⟩, a)

/-- A system call whose answer is returned as a `sys_error_t`. -/
def syscallInt (id : SyscallId) (args : List Word) : UserProgram σ CInt := do
  let a ← e.syscall id args
  pure (low a)

/-- A system call whose answer is not returned. -/
def syscallVoid (id : SyscallId) (args : List Word) : UserProgram σ Unit := do
  let _ ← e.syscall id args

def handle (window : Word) : UserProgram σ Word := Program.observe fun p => (p.window window).kernelHandle

def setWindow (window : Word) (w : SysWindow) : UserProgram σ Unit :=
  Program.perform fun p => { p with window := Function.update p.window window w }

/-! ### Processes -/

def sysExit (status : Word) : UserProgram σ Unit := e.syscallVoid .exit [status]

def sysUsleep (timeInUs : Word) : UserProgram σ CInt := e.syscallInt .sleep [timeInUs]

def sysSleep (timeInS : Word) : UserProgram σ CInt := e.sysUsleep (timeInS * 1000000)

def sysPrint (msg : Word) : UserProgram σ CInt := e.syscallInt .print [msg]

def sysSpawn2 (path argc argv : Word) : UserProgram σ CInt := e.syscallInt .spawn [path, argc, argv]

/-- The array `argv` is a local variable. -/
def sysSpawn (path : Word) : UserProgram σ CInt := do
  Program.perform fun p => { p with rest := e.store64 e.stack path p.rest }
  e.sysSpawn2 path 1 e.stack

def sysYield : UserProgram σ CInt := e.syscallInt .yield []

def sysGetpid : UserProgram σ CInt := e.syscallInt .getpid []

def sysSchedSetPriority (pid priority : BitVec 32) : UserProgram σ CInt :=
  e.syscallInt .schedSetPriority [pid.setWidth 64, priority.setWidth 64]

def sysSchedGetPriority (pid : BitVec 32) (priority : Word) : UserProgram σ CInt :=
  e.syscallInt .schedSetPriority [pid.setWidth 64, priority]

def sysDebug (x : Word) : UserProgram σ CInt := e.syscallInt .debug [x]

def sysSbrk (increment : Word) : UserProgram σ Word := e.syscall .sbrk [increment]

def sysGetFramebuffer (pixels width height stride : Word) : UserProgram σ CInt :=
  e.syscallInt .getFramebuffer [pixels, width, height, stride]

def malloc (n : Word) : UserProgram σ Word := e.sysSbrk n

/-! ### Pipes -/

/-- The assertions on the name of a pipe. -/
def ensureName (name : Word) : UserProgram σ Unit := do
  Program.ensure (name ≠ 0)
  let length ← Program.observe fun p => e.strlen name p.rest
  Program.ensure (length < sysPipeNameMax)

def sysPipeOpen (name : Word) : UserProgram σ Word := do
  e.ensureName name
  e.syscall .pipeOpen [name]

def sysPipeClose (pipe : Word) : UserProgram σ CInt := do
  Program.ensure (pipe ≠ 0)
  e.syscallInt .pipeClose [pipe]

def sysPipeGet (pid : BitVec 32) (name : Word) : UserProgram σ Word := do
  e.ensureName name
  e.syscall .pipeGet [pid.setWidth 64, name]

def sysPipeRead (pipe buffer size read : Word) : UserProgram σ CInt := do
  Program.ensure (pipe ≠ 0)
  Program.ensure (size = 0 ∨ buffer ≠ 0)
  e.syscallInt .pipeRead [pipe, buffer, size, read]

def sysPipeWrite (pipe buffer size written : Word) : UserProgram σ CInt := do
  Program.ensure (pipe ≠ 0)
  Program.ensure (size = 0 ∨ buffer ≠ 0)
  e.syscallInt .pipeWrite [pipe, buffer, size, written]

/-! ### Files -/

def sysOpenFile (path : Word) (mode : BitVec 32) : UserProgram σ Word :=
  e.syscall .openFile [path, mode.setWidth 64]

def sysCloseFile (file : Word) : UserProgram σ Unit := do
  Program.ensure (file ≠ 0)
  e.syscallVoid .closeFile [file]

def sysFileRead (file buffer bytesToRead readBytes : Word) : UserProgram σ CInt := do
  Program.ensure (file ≠ 0)
  Program.ensure (bytesToRead = 0 ∨ buffer ≠ 0)
  e.syscallInt .readFile [file, buffer, bytesToRead, readBytes]

def sysGetFileSize (file : Word) : UserProgram σ Word := do
  Program.ensure (file ≠ 0)
  e.syscall .getFileSize [file]

def sysOpenDir (path : Word) : UserProgram σ Word := do
  Program.ensure (path ≠ 0)
  e.syscall .openDir [path]

def sysCloseDir (dir : Word) : UserProgram σ Unit := do
  Program.ensure (dir ≠ 0)
  e.syscallVoid .closeDir [dir]

def sysReadDir (dir info : Word) : UserProgram σ CInt := do
  Program.ensure (dir ≠ 0 ∧ info ≠ 0)
  e.syscallInt .readDir [dir, info]

/-! ### Windows -/

/-- A system call that returns a `sys_error_t` and gets the handle of a window before its other
arguments. -/
def windowSyscall (id : SyscallId) (window : Word) (args : List Word) : UserProgram σ CInt := do
  Program.ensure (window ≠ 0)
  let handle ← handle window
  e.syscallInt id (handle :: args)

/-- The call is made for the null handle. -/
def sysWindowDestroy (window : Word) : UserProgram σ Unit :=
  if window = 0 then pure ()
  else do
    let handle ← handle window
    if handle = 0 then e.syscallVoid .windowDestroy [handle] else pure ()

def sysPollMessage (window msg : Word) : UserProgram σ Bool := do
  Program.ensure (window ≠ 0)
  let handle ← handle window
  let result ← e.syscall .pollMessage [handle, msg]
  pure (result = 0)

/-- The message is a local variable. The loop ends when there is no message, or fails when there are more
than `fuel`. -/
def sysPollAllMessages (window : Word) : ℕ → UserProgram σ Unit
  | 0        => Program.fail
  | fuel + 1 => do
    if ← e.sysPollMessage window e.stack then sysPollAllMessages window fuel else pure ()

def sysWaitMessage (window msg : Word) : UserProgram σ Unit := do
  Program.ensure (window ≠ 0)
  let handle ← handle window
  e.syscallVoid .waitMessage [handle, msg]

/-- The window keeps a copy of its title, and the kernel gets the copy. -/
def sysWindowSetTitle (window title : Word) : UserProgram σ CInt := do
  Program.ensure (window ≠ 0 ∧ title ≠ 0)
  let titleLength ← Program.observe fun p => e.strlen title p.rest + 1
  let copy ← e.malloc titleLength
  let w ← Program.observe fun p => p.window window
  setWindow window { w with title := copy }
  if copy = 0 then pure (low SysError.outOfMem.code)
  else do
    Program.perform fun p => { p with rest := e.memcpy copy title titleLength p.rest }
    e.syscallInt .windowSetTitle [w.kernelHandle, copy]

def sysWindowSetVisibility (window : Word) (visible : Bool) : UserProgram σ CInt :=
  e.windowSyscall .windowSetVisibility window [BitVec.ofNat 64 visible.toNat]

def sysWindowGetVisibility (window visible : Word) : UserProgram σ CInt :=
  e.windowSyscall .windowGetVisibility window [visible]

def sysWindowSetGeometry (window : Word) (x y width height : BitVec 32) : UserProgram σ CInt :=
  e.windowSyscall .windowSetGeometry window
    [x.signExtend 64, y.signExtend 64, width.setWidth 64, height.setWidth 64]

def sysWindowGetGeometry (window x y width height : Word) : UserProgram σ CInt :=
  e.windowSyscall .windowGetGeometry window [x, y, width, height]

def sysWindowPresent2 (window : Word) (x y width height : BitVec 32) : UserProgram σ CInt :=
  e.windowSyscall .windowPresent window
    [x.setWidth 64, y.setWidth 64, width.setWidth 64, height.setWidth 64]

/-- `width` and `height` are local variables. -/
def sysWindowPresent (window : Word) : UserProgram σ CInt := do
  Program.ensure (window ≠ 0)
  let _ ← e.sysWindowGetGeometry window 0 0 e.stack (e.stack + 4)
  let width ← Program.observe fun p => e.load32 e.stack p.rest
  let height ← Program.observe fun p => e.load32 (e.stack + 4) p.rest
  e.sysWindowPresent2 window 0 0 width height

/-- `sizeof(sys_window_t)`. -/
def sysWindowSize : Word := 24

/-- The label `error` of `sys_window_create`. -/
def discardWindow (window : Word) : UserProgram σ Word := do
  e.sysWindowDestroy window
  pure 0

/-- The rest of `sys_window_create` once the window has its handle, with the fuel of
`sys_poll_all_messages`. -/
def configureWindow (fuel : ℕ) (window title : Word) (x y width height : BitVec 32) :
    UserProgram σ Word := do
  let titled ← e.sysWindowSetTitle window title
  if !isOk titled then e.discardWindow window
  else do
    let placed ← e.sysWindowSetGeometry window x y width height
    if !isOk placed then e.discardWindow window
    else do
      let shown ← e.sysWindowSetVisibility window true
      if !isOk shown then e.discardWindow window
      else do
        e.sysPollAllMessages window fuel
        pure window

def sysWindowCreate (fuel : ℕ) (title : Word) (x y width height flags : BitVec 32) :
    UserProgram σ Word := do
  Program.ensure (title ≠ 0)
  let window ← e.malloc sysWindowSize
  if window = 0 then e.discardWindow window
  else do
    setWindow window ⟨0, flags, 0⟩
    let handle ← e.syscall .windowCreate [flags.setWidth 64]
    setWindow window ⟨handle, flags, 0⟩
    if handle = 0 then e.discardWindow window
    else e.configureWindow fuel window title x y width height

/-! ### Drawing -/

/-- Two 32-bit values in one register. -/
def packCouple (x y : BitVec 32) : Word := x.setWidth 64 ||| (y.setWidth 64 <<< 32)

def sysGfxClear (window : Word) (argb : BitVec 32) : UserProgram σ CInt :=
  e.windowSyscall .gfxClear window [argb.setWidth 64]

def sysGfxDrawLine (window : Word) (x0 y0 x1 y1 argb : BitVec 32) : UserProgram σ CInt :=
  e.windowSyscall .gfxDrawLine window [packCouple x0 y0, packCouple x1 y1, argb.setWidth 64]

def sysGfxDrawRect (window : Word) (x y width height argb : BitVec 32) : UserProgram σ CInt :=
  e.windowSyscall .gfxDrawRect window [packCouple x y, packCouple width height, argb.setWidth 64]

def sysGfxFillRect (window : Word) (x y width height argb : BitVec 32) : UserProgram σ CInt :=
  e.windowSyscall .gfxFillRect window [packCouple x y, packCouple width height, argb.setWidth 64]

def sysGfxDrawText (window : Word) (x y : BitVec 32) (text : Word) (argb : BitVec 32) :
    UserProgram σ CInt :=
  e.windowSyscall .gfxDrawText window [packCouple x y, text, argb.setWidth 64]

def sysGfxBlit (window : Word) (x y width height : BitVec 32) (argbBuffer : Word) :
    UserProgram σ CInt :=
  e.windowSyscall .gfxBlit window [packCouple x y, packCouple width height, argbBuffer]

end Environment

/-! ### All wrappers -/

/-- A call of a wrapper. -/
inductive Wrapper where
  | exit (status : Word)
  | sleep (timeInS : Word)
  | usleep (timeInUs : Word)
  | print (msg : Word)
  | spawn (path : Word)
  | spawn2 (path argc argv : Word)
  | yield
  | getpid
  | schedSetPriority (pid priority : BitVec 32)
  | schedGetPriority (pid : BitVec 32) (priority : Word)
  | debug (x : Word)
  | sbrk (increment : Word)
  | getFramebuffer (pixels width height stride : Word)
  | pipeOpen (name : Word)
  | pipeClose (pipe : Word)
  | pipeGet (pid : BitVec 32) (name : Word)
  | pipeRead (pipe buffer size read : Word)
  | pipeWrite (pipe buffer size written : Word)
  | openFile (path : Word) (mode : BitVec 32)
  | closeFile (file : Word)
  | fileRead (file buffer bytesToRead readBytes : Word)
  | getFileSize (file : Word)
  | openDir (path : Word)
  | closeDir (dir : Word)
  | readDir (dir info : Word)
  | windowCreate (title : Word) (x y width height flags : BitVec 32)
  | windowDestroy (window : Word)
  | pollMessage (window msg : Word)
  | pollAllMessages (window : Word)
  | waitMessage (window msg : Word)
  | windowSetTitle (window title : Word)
  | windowSetVisibility (window : Word) (visible : Bool)
  | windowGetVisibility (window visible : Word)
  | windowSetGeometry (window : Word) (x y width height : BitVec 32)
  | windowGetGeometry (window x y width height : Word)
  | windowPresent (window : Word)
  | windowPresent2 (window : Word) (x y width height : BitVec 32)
  | gfxClear (window : Word) (argb : BitVec 32)
  | gfxDrawLine (window : Word) (x0 y0 x1 y1 argb : BitVec 32)
  | gfxDrawRect (window : Word) (x y width height argb : BitVec 32)
  | gfxFillRect (window : Word) (x y width height argb : BitVec 32)
  | gfxDrawText (window : Word) (x y : BitVec 32) (text : Word) (argb : BitVec 32)
  | gfxBlit (window : Word) (x y width height : BitVec 32) (argbBuffer : Word)

/-- What a wrapper returns, in its own type. -/
inductive Value where
  | void
  | int (v : CInt)
  | word (v : Word)
  | bool (v : Bool)

namespace Wrapper

variable {σ : Type} (e : Environment σ) (fuel : ℕ)

def int (p : UserProgram σ CInt) : UserProgram σ Value := do
  let v ← p
  pure (.int v)

def word (p : UserProgram σ Word) : UserProgram σ Value := do
  let v ← p
  pure (.word v)

def void (p : UserProgram σ Unit) : UserProgram σ Value := do
  p
  pure .void

def run : Wrapper → UserProgram σ Value
  | exit status => void (e.sysExit status)
  | sleep timeInS => int (e.sysSleep timeInS)
  | usleep timeInUs => int (e.sysUsleep timeInUs)
  | print msg => int (e.sysPrint msg)
  | spawn path => int (e.sysSpawn path)
  | spawn2 path argc argv => int (e.sysSpawn2 path argc argv)
  | yield => int e.sysYield
  | getpid => int e.sysGetpid
  | schedSetPriority pid priority => int (e.sysSchedSetPriority pid priority)
  | schedGetPriority pid priority => int (e.sysSchedGetPriority pid priority)
  | debug x => int (e.sysDebug x)
  | sbrk increment => word (e.sysSbrk increment)
  | getFramebuffer pixels width height stride => int (e.sysGetFramebuffer pixels width height stride)
  | pipeOpen name => word (e.sysPipeOpen name)
  | pipeClose pipe => int (e.sysPipeClose pipe)
  | pipeGet pid name => word (e.sysPipeGet pid name)
  | pipeRead pipe buffer size read => int (e.sysPipeRead pipe buffer size read)
  | pipeWrite pipe buffer size written => int (e.sysPipeWrite pipe buffer size written)
  | openFile path mode => word (e.sysOpenFile path mode)
  | closeFile file => void (e.sysCloseFile file)
  | fileRead file buffer bytesToRead readBytes => int (e.sysFileRead file buffer bytesToRead readBytes)
  | getFileSize file => word (e.sysGetFileSize file)
  | openDir path => word (e.sysOpenDir path)
  | closeDir dir => void (e.sysCloseDir dir)
  | readDir dir info => int (e.sysReadDir dir info)
  | windowCreate title x y width height flags =>
    word (e.sysWindowCreate fuel title x y width height flags)
  | windowDestroy window => void (e.sysWindowDestroy window)
  | pollMessage window msg => do
    let v ← e.sysPollMessage window msg
    pure (.bool v)
  | pollAllMessages window => void (e.sysPollAllMessages window fuel)
  | waitMessage window msg => void (e.sysWaitMessage window msg)
  | windowSetTitle window title => int (e.sysWindowSetTitle window title)
  | windowSetVisibility window visible => int (e.sysWindowSetVisibility window visible)
  | windowGetVisibility window visible => int (e.sysWindowGetVisibility window visible)
  | windowSetGeometry window x y width height => int (e.sysWindowSetGeometry window x y width height)
  | windowGetGeometry window x y width height => int (e.sysWindowGetGeometry window x y width height)
  | windowPresent window => int (e.sysWindowPresent window)
  | windowPresent2 window x y width height => int (e.sysWindowPresent2 window x y width height)
  | gfxClear window argb => int (e.sysGfxClear window argb)
  | gfxDrawLine window x0 y0 x1 y1 argb => int (e.sysGfxDrawLine window x0 y0 x1 y1 argb)
  | gfxDrawRect window x y width height argb => int (e.sysGfxDrawRect window x y width height argb)
  | gfxFillRect window x y width height argb => int (e.sysGfxFillRect window x y width height argb)
  | gfxDrawText window x y text argb => int (e.sysGfxDrawText window x y text argb)
  | gfxBlit window x y width height argbBuffer => int (e.sysGfxBlit window x y width height argbBuffer)

end Wrapper

end PiKachulm.Syscalls

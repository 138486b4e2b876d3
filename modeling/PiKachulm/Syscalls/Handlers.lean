import PiKachulm.Syscalls.Kernel
import PiKachulm.Syscalls.Spawn

/-!
# The handlers of system calls

A handler reads its arguments from the registers, checks them and then does its work. What it reads is a
request; the handlers are given by what they read, and `Request.serve` is the rest of them. The value of
`x0` when a handler is left is what the user program gets.
-/

namespace PiKachulm.Syscalls

open Core Hardware

/-- The system calls, in the order of their numbers. -/
inductive SyscallId where
  | exit
  | print
  | getpid
  | debug
  | spawn
  | sleep
  | yield
  | schedSetPriority
  | schedGetPriority
  | pipeOpen
  | pipeClose
  | pipeGet
  | pipeRead
  | pipeWrite
  | sbrk
  | getFramebuffer
  | openFile
  | closeFile
  | readFile
  | getFileSize
  | openDir
  | closeDir
  | readDir
  | pollMessage
  | waitMessage
  | windowCreate
  | windowDestroy
  | windowSetTitle
  | windowGetVisibility
  | windowSetVisibility
  | windowGetGeometry
  | windowSetGeometry
  | windowPresent
  | gfxClear
  | gfxDrawLine
  | gfxDrawRect
  | gfxFillRect
  | gfxDrawText
  | gfxBlit
  deriving DecidableEq

def SyscallId.number (id : SyscallId) : ℕ := id.ctorIdx

/-- What the handlers read: the arguments of a system call, in the types of the handler. -/
inductive Request where
  | exit (exitCode : BitVec 32)
  | print (msg : Word)
  | getpid
  | debug (x : Word)
  | spawn (path argc argv : Word)
  | sleep (timeInUs : Word)
  | yield
  | schedSetPriority (priority : BitVec 32)
  | schedGetPriority (priority : Word)
  | pipeOpen (name : Word)
  | pipeClose (pipe : Word)
  | pipeGet (pid : BitVec 32) (name : Word)
  | pipeRead (pipe buffer size readBytes : Word)
  | pipeWrite (pipe buffer size writtenBytes : Word)
  | sbrk (increment : Word)
  | getFramebuffer (pixels width height stride : Word)
  | openFile (path : Word) (mode : BitVec 32)
  | closeFile (file : Word)
  | readFile (file buffer bytesToRead readBytes : Word)
  | getFileSize (file : Word)
  | openDir (path : Word)
  | closeDir (dir : Word)
  | readDir (dir fileInfo : Word)
  | pollMsg (window msg : Word)
  | waitMsg (window msg : Word)
  | windowCreate (flags : Word)
  | windowDestroy (window : Word)
  | windowSetTitle (window title : Word)
  | windowGetVisibility (window isVisible : Word)
  | windowSetVisibility (window : Word) (isVisible : Bool)
  | windowGetGeometry (window x y width height : Word)
  | windowSetGeometry (window : Word) (x y width height : BitVec 32)
  | windowPresent (window : Word) (x y width height : BitVec 32)
  | gfxClear (window : Word) (argb : BitVec 32)
  | gfxDrawLine (window : Word) (x0 y0 x1 y1 argb : BitVec 32)
  | gfxDrawRect (window : Word) (x y width height argb : BitVec 32)
  | gfxFillRect (window : Word) (x y width height argb : BitVec 32)
  | gfxDrawText (window : Word) (x y : BitVec 32) (text : Word) (argb : BitVec 32)
  | gfxBlit (window : Word) (x y width height : BitVec 32) (argbBuffer : Word)
  deriving DecidableEq

/-! ### What handlers have in common -/

/-- The argument, and later the result, of a system call. -/
def x0 (regs : Registers) : Word := regs.gpRegs 0

def setX0 (regs : Registers) (value : Word) : Registers :=
  { regs with gpRegs := Function.update regs.gpRegs 0 value }

def failWith (regs : Registers) (e : SysError) : Registers := regs.setError e.code

def succeed (regs : Registers) : Registers := failWith regs .ok

variable {σ : Type} (k : Kernel σ) (regs : Registers)

/-- `check_window`, `check_file`, `check_dir`, and the check of pipes: the rest of the handler is left out
when the task does not own the handle. -/
def checkHandle (r : Resource) (p : Word) (rest : Kernel.Program σ Registers) : Kernel.Program σ Registers := do
  if ← Program.observe (k.own r p) then rest else pure (failWith regs r.invalid)

/-- `check_ptr`; the handler is left when the pointer is null. -/
def checkPtr (ptr : Word) (rest : Kernel.Program σ Registers) : Kernel.Program σ Registers :=
  if ptr ≠ 0 then rest else pure regs

/-- What a handler does when a call has succeeded or failed. -/
def report (answer : Word) (e : SysError) : Kernel.Program σ Registers :=
  pure (if answer ≠ 0 then succeed regs else failWith regs e)

/-! ### Some handlers in parts -/

/-- How the writes to a chunk are done: as the code does them, which discards how many bytes have been
written, or so that the program fails when these are not all. -/
abbrev Writer (σ : Type) := Call → Word → Kernel.Program σ Unit

def discardCount : Writer σ := fun c _ => k.tell c

def wholeOrFail : Writer σ := fun c n => do
  let written ← k.ask c
  Program.ensure (written = n)

/-- `SYS_ARGS_ADDRESS`. -/
def argsAddress : Word := BitVec.ofNat 64 sysArgsAddress

/-- The loop of `pika_sys_spawn` from argument `i` on. -/
def writeArgv (write : Writer σ) (chunk argv : Word) : ℕ → Word → Word → Kernel.Program σ Unit
  | 0, _, _                       => pure ()
  | left + 1, i, argvDataOffset => do
    let data ← Program.observe (k.load (argv + 8 * i))
    let dataLen ← Program.observe fun s => k.strlen data s + 1
    write (.writeFrom chunk argvDataOffset data dataLen) dataLen
    write (.writeWord chunk (8 + 8 * i) (argsAddress + argvDataOffset)) 8
    writeArgv write chunk argv left (i + 1) (argvDataOffset + dataLen)

/-- The chunk of the arguments is filled. -/
def writeSpawnArgs (write : Writer σ) (chunk argc argv : Word) : Kernel.Program σ Unit := do
  write (.writeWord chunk 0 argc) 8
  writeArgv k write chunk argv argc.toNat 0 (argc + 8 * (argc + 1))

/-- `pika_sys_spawn` after its checks. -/
def startTask (path argc argv : Word) : Kernel.Program σ Registers := do
  let parent ← k.currentTask
  let task ← k.ask (.createTask path parent)
  if task = 0 then pure (failWith regs .generic)
  else do
    let argsChunk ← k.ask (.mapChunk task 1 argsAddress false true)
    if argsChunk = 0 then pure (failWith regs .outOfMem)
    else do
      writeSpawnArgs k (discardCount k) argsChunk argc argv
      k.tell (.wakeTask task)
      pure (succeed regs)

/-- The properties of the framebuffer are stored; `h` is what is stored for its height. -/
def storeProperties (width height stride : Word) (h : BitVec 32) : Kernel.Program σ Unit := do
  k.storeAt width (.store32 width k.frameBuffer.width)
  k.storeAt height (.store32 height h)
  k.storeAt stride (.store32 stride k.frameBuffer.pitch)

/-- The size that the handler gives for the pixels of the framebuffer. -/
def pixelBytes : Word := (k.frameBuffer.width * k.frameBuffer.height).setWidth 64 * 4

/-- The pixels are written to a chunk. -/
def writePixels (write : Writer σ) (chunk : Word) : Kernel.Program σ Unit :=
  write (.writeFrom chunk 0 k.frameBuffer.buffer (pixelBytes k)) (pixelBytes k)

/-- `pika_sys_get_framebuffer` once the properties are stored. -/
def mapPixels (pixels : Word) : Kernel.Program σ Registers :=
  if pixels = 0 then pure (succeed regs)
  else do
    let task ← k.currentTask
    let pixelsChunk ← k.ask (.mapChunk task 1 0 false true)
    if pixelsChunk = 0 then pure (failWith regs .outOfMem)
    else do
      writePixels k (discardCount k) pixelsChunk
      k.tell (.store64 pixels 0)
      pure (succeed regs)

/-- What `open_file` and `open_dir` do with what they have opened. -/
def registerOpen (r : Resource) (p : Word) : Kernel.Program σ Registers :=
  if p = 0 then pure (setX0 regs p)
  else do
    let task ← k.currentTask
    k.tell (.register r task p)
    pure (setX0 regs p)

/-- What `close_file` and `close_dir` do after their checks. -/
def closeHandle (r : Resource) (close : Call) (p : Word) : Kernel.Program σ Registers := do
  k.tell close
  let task ← k.currentTask
  k.tell (.unregister r task p)
  pure (succeed regs)

/-- What `pipe_read` and `pipe_write` do after their checks; a task that has to wait makes the call again
when it goes on. -/
def transfer (wait : Word → Call) (move : Call) (count : Word) : Kernel.Program σ Registers := do
  let task ← k.currentTask
  let ready ← k.ask (wait task)
  if ready = 0 then pure regs.stepBackOneInst
  else do
    let n ← k.ask move
    k.storeAt count (.store64 count n)
    pure (succeed regs)

/-- A function of a window that returns nothing. -/
def windowCall (window : Word) (c : Call) : Kernel.Program σ Registers :=
  checkHandle k regs .window window do
    k.tell c
    pure (succeed regs)

/-! ### The handlers after they have read their arguments -/

/-- `Dir::read`, with its assertion. -/
def dirRead (dir fileInfo : Word) : Kernel.Program σ Word := do
  Program.ensure (fileInfo ≠ 0)
  k.ask (.readDir dir fileInfo)

/-- What a handler does with the registers, once it has read its request. -/
def Request.serve : Request → Kernel.Program σ Registers
  | .exit exitCode => do
    let task ← k.currentTask
    k.tell (.killTask task exitCode)
    pure regs
  | .print msg => checkPtr regs msg do
    let task ← k.currentTask
    let pid ← Program.observe (k.getId task)
    k.tell (.print pid msg)
    pure (succeed regs)
  | .getpid => do
    let task ← k.currentTask
    let pid ← Program.observe (k.getId task)
    pure (setX0 regs (pid.setWidth 64))
  | .debug x => do
    let task ← k.currentTask
    let pid ← Program.observe (k.getId task)
    k.tell (.debug x pid)
    pure (succeed regs)
  | .spawn path argc argv => checkPtr regs path <| checkPtr regs argv do
    let nullArg ← Program.observe fun s =>
      (List.range argc.toNat).any fun i => k.load (argv + 8 * BitVec.ofNat 64 i) s = 0
    if nullArg then pure regs else startTask k regs path argc argv
  | .sleep timeInUs =>
    if 0 < timeInUs then do
      let task ← k.currentTask
      k.tell (.sleepTask task timeInUs)
      pure (succeed regs)
    else pure (succeed regs)
  | .yield => do
    k.tell .schedule
    pure (succeed regs)
  | .schedSetPriority priority => do
    let task ← k.currentTask
    let success ← k.ask (.setTaskPriority task priority)
    report regs success .invalidPriority
  | .schedGetPriority priority => checkPtr regs priority do
    let task ← k.currentTask
    let value ← Program.observe (k.getPriority task)
    k.tell (.store32 priority value)
    pure (succeed regs)
  | .pipeOpen name => checkPtr regs name do
    let task ← k.currentTask
    let pipe ← k.ask (.createPipe task name)
    pure (setX0 regs pipe)
  | .pipeClose pipe => checkHandle k regs .pipe pipe do
    let task ← k.currentTask
    k.tell (.unregister .pipe task pipe)
    pure (succeed regs)
  | .pipeGet pid name => checkPtr regs name do
    match ← Program.observe (k.findById pid) with
    | none      => pure (setX0 regs 0)
    | some task => do
      let pipe ← Program.observe (k.getPipe task name)
      pure (setX0 regs pipe)
  | .pipeRead pipe buffer size readBytes => checkHandle k regs .pipe pipe <| checkPtr regs buffer <|
    transfer k regs (.waitRead pipe) (.readPipe pipe buffer size) readBytes
  | .pipeWrite pipe buffer size writtenBytes => checkHandle k regs .pipe pipe <| checkPtr regs buffer <|
    transfer k regs (.waitWrite pipe) (.writePipe pipe buffer size) writtenBytes
  | .sbrk increment => do
    let task ← k.currentTask
    let previousBrk ← Program.observe (k.getHeapEnd task)
    k.tell (.changeHeapEnd task increment)
    pure (setX0 regs previousBrk)
  | .getFramebuffer pixels width height stride => do
    -- the width is stored a second time in place of the height
    storeProperties k width height stride k.frameBuffer.width
    mapPixels k regs pixels
  | .openFile path mode => checkPtr regs path do
    let file ← k.ask (.openFile path mode)
    registerOpen k regs .file file
  | .closeFile file => checkHandle k regs .file file <| closeHandle k regs .file (.closeFile file) file
  | .readFile file buffer bytesToRead readBytes => checkHandle k regs .file file <|
    checkPtr regs buffer <| checkPtr regs readBytes do
      let success ← k.ask (.readFile file buffer bytesToRead readBytes)
      report regs success .generic
  | .getFileSize file => checkHandle k regs .file file do
    let size ← Program.observe (k.getSize file)
    pure (setX0 regs size)
  | .openDir path => checkPtr regs path do
    let dir ← k.ask (.openDir path)
    registerOpen k regs .dir dir
  | .closeDir dir => checkHandle k regs .dir dir <| closeHandle k regs .dir (.closeDir dir) dir
  | .readDir dir fileInfo => checkHandle k regs .dir dir <| checkHandle k regs .dir dir do
    -- the directory is checked a second time in place of the pointer
    let success ← dirRead k dir fileInfo
    report regs success .generic
  | .pollMsg window msg => checkHandle k regs .window window <| checkPtr regs msg do
    let success ← k.ask (.dequeue window msg)
    report regs success .msgQueueEmpty
  | .waitMsg window msg => checkHandle k regs .window window <| checkPtr regs msg do
    let task ← k.currentTask
    let blocked ← k.ask (.blockTaskUntilNotEmpty window task)
    if blocked ≠ 0 then pure regs.stepBackOneInst
    else do
      let success ← k.ask (.dequeue window msg)
      report regs success .internal
  | .windowCreate flags => do
    let task ← k.currentTask
    let window ← k.ask (.createWindow task (flags.setWidth 32))
    pure (setX0 regs window)
  | .windowDestroy window => checkHandle k regs .window window (pure (succeed regs))
  | .windowSetTitle window title => checkHandle k regs .window window <| checkPtr regs title do
    k.tell (.setTitle window title)
    pure (succeed regs)
  | .windowGetVisibility window isVisible => checkHandle k regs .window window do
    let visible ← Program.observe (k.isVisible window)
    k.storeAt isVisible (.store8 isVisible (.ofNat 8 visible.toNat))
    pure (succeed regs)
  | .windowSetVisibility window isVisible =>
    windowCall k regs window (.setWindowVisibility window isVisible)
  | .windowGetGeometry window x y width height => checkHandle k regs .window window do
    let geometry ← Program.observe (k.getGeometry window)
    k.storeAt x (.store32 x geometry.x)
    k.storeAt y (.store32 y geometry.y)
    k.storeAt width (.store32 width geometry.width)
    k.storeAt height (.store32 height geometry.height)
    pure (succeed regs)
  | .windowSetGeometry window x y width height =>
    windowCall k regs window (.setWindowGeometry window x y width height)
  | .windowPresent window x y width height =>
    windowCall k regs window (.presentWindow window x y width height)
  | .gfxClear window argb => windowCall k regs window (.clear window argb)
  | .gfxDrawLine window x0 y0 x1 y1 argb => windowCall k regs window (.drawLine window x0 y0 x1 y1 argb)
  | .gfxDrawRect window x y width height argb =>
    windowCall k regs window (.drawRect window x y width height argb)
  | .gfxFillRect window x y width height argb =>
    windowCall k regs window (.fillRect window x y width height argb)
  | .gfxDrawText window x y text argb => checkHandle k regs .window window <| checkPtr regs text do
    k.tell (.drawText window x y text argb)
    pure (succeed regs)
  | .gfxBlit window x y width height argbBuffer =>
    checkHandle k regs .window window <| checkPtr regs argbBuffer do
      k.tell (.blit window x y width height argbBuffer)
      pure (succeed regs)

/-! ### What the handlers read -/

/-- The low half of a register. -/
def low (reg : Word) : BitVec 32 := reg.setWidth 32

def unpackCouple (reg : Word) : BitVec 32 × BitVec 32 :=
  (low (reg &&& 0xFFFFFFFF), low ((reg >>> 32) &&& 0xFFFFFFFF))

def pikaSysExit : Request := .exit (low (regs.gpRegs 0))

def pikaSysPrint : Request := .print (regs.gpRegs 0)

def pikaSysGetpid (_regs : Registers) : Request := .getpid

def pikaSysDebug : Request := .debug (regs.gpRegs 0)

def pikaSysSpawnArgs : Request := .spawn (regs.gpRegs 0) (regs.gpRegs 1) (regs.gpRegs 2)

def pikaSysSleep : Request := .sleep (regs.gpRegs 0)

def pikaSysYield (_regs : Registers) : Request := .yield

/-- The process id in `x0` is not used. -/
def pikaSysSchedSetPriority : Request := .schedSetPriority (low (regs.gpRegs 1))

/-- The process id in `x0` is not used. -/
def pikaSysSchedGetPriority : Request := .schedGetPriority (regs.gpRegs 1)

def pikaSysPipeOpen : Request := .pipeOpen (regs.gpRegs 0)

def pikaSysPipeClose : Request := .pipeClose (regs.gpRegs 0)

def pikaSysPipeGet : Request := .pipeGet (low (regs.gpRegs 0)) (regs.gpRegs 1)

def pikaSysPipeRead : Request :=
  .pipeRead (regs.gpRegs 0) (regs.gpRegs 1) (regs.gpRegs 2) (regs.gpRegs 3)

def pikaSysPipeWrite : Request :=
  .pipeWrite (regs.gpRegs 0) (regs.gpRegs 1) (regs.gpRegs 2) (regs.gpRegs 3)

def pikaSysSbrk : Request := .sbrk (regs.gpRegs 0)

def pikaSysGetFramebuffer : Request :=
  .getFramebuffer (regs.gpRegs 0) (regs.gpRegs 1) (regs.gpRegs 2) (regs.gpRegs 3)

def pikaSysOpenFile : Request := .openFile (regs.gpRegs 0) (low (regs.gpRegs 1))

def pikaSysCloseFile : Request := .closeFile (regs.gpRegs 0)

def pikaSysReadFile : Request :=
  .readFile (regs.gpRegs 0) (regs.gpRegs 1) (regs.gpRegs 2) (regs.gpRegs 3)

def pikaSysGetFileSize : Request := .getFileSize (regs.gpRegs 0)

def pikaSysOpenDir : Request := .openDir (regs.gpRegs 0)

def pikaSysCloseDir : Request := .closeDir (regs.gpRegs 0)

def pikaSysReadDir : Request := .readDir (regs.gpRegs 0) (regs.gpRegs 1)

def pikaSysPollMsg : Request := .pollMsg (regs.gpRegs 0) (regs.gpRegs 1)

def pikaSysWaitMsg : Request := .waitMsg (regs.gpRegs 0) (regs.gpRegs 1)

def pikaSysWindowCreate : Request := .windowCreate (regs.gpRegs 0)

def pikaSysWindowDestroy : Request := .windowDestroy (regs.gpRegs 0)

def pikaSysWindowSetTitle : Request := .windowSetTitle (regs.gpRegs 0) (regs.gpRegs 1)

def pikaSysWindowGetVisibility : Request := .windowGetVisibility (regs.gpRegs 0) (regs.gpRegs 1)

def pikaSysWindowSetVisibility : Request :=
  .windowSetVisibility (regs.gpRegs 0) (regs.gpRegs 1 ≠ 0)

def pikaSysWindowGetGeometry : Request :=
  .windowGetGeometry (regs.gpRegs 0) (regs.gpRegs 1) (regs.gpRegs 2) (regs.gpRegs 3) (regs.gpRegs 4)

def pikaSysWindowSetGeometry : Request :=
  .windowSetGeometry (regs.gpRegs 0) (low (regs.gpRegs 1)) (low (regs.gpRegs 2)) (low (regs.gpRegs 3))
    (low (regs.gpRegs 4))

def pikaSysWindowPresent : Request :=
  .windowPresent (regs.gpRegs 0) (low (regs.gpRegs 1)) (low (regs.gpRegs 2)) (low (regs.gpRegs 3))
    (low (regs.gpRegs 4))

def pikaSysGfxClear : Request := .gfxClear (regs.gpRegs 0) (low (regs.gpRegs 1))

def pikaSysGfxDrawLine : Request :=
  let p0 := unpackCouple (regs.gpRegs 1)
  let p1 := unpackCouple (regs.gpRegs 2)
  .gfxDrawLine (regs.gpRegs 0) p0.1 p0.2 p1.1 p1.2 (low (regs.gpRegs 3))

def pikaSysGfxDrawRect : Request :=
  let pos := unpackCouple (regs.gpRegs 1)
  let size := unpackCouple (regs.gpRegs 2)
  .gfxDrawRect (regs.gpRegs 0) pos.1 pos.2 size.1 size.2 (low (regs.gpRegs 3))

def pikaSysGfxFillRect : Request :=
  let pos := unpackCouple (regs.gpRegs 1)
  let size := unpackCouple (regs.gpRegs 2)
  .gfxFillRect (regs.gpRegs 0) pos.1 pos.2 size.1 size.2 (low (regs.gpRegs 3))

def pikaSysGfxDrawText : Request :=
  let pos := unpackCouple (regs.gpRegs 1)
  .gfxDrawText (regs.gpRegs 0) pos.1 pos.2 (regs.gpRegs 2) (low (regs.gpRegs 3))

def pikaSysGfxBlit : Request :=
  let pos := unpackCouple (regs.gpRegs 1)
  let size := unpackCouple (regs.gpRegs 2)
  .gfxBlit (regs.gpRegs 0) pos.1 pos.2 size.1 size.2 (regs.gpRegs 3)

/-! ### The table of system calls -/

/-- A handler, by what it reads. -/
abbrev SyscallCallback := Registers → Request

abbrev SyscallTable := ℕ → Option SyscallCallback

/-- `register_syscall`, which leaves a handler that is there as it is. -/
def registerSyscall (table : SyscallTable) (entry : SyscallId × SyscallCallback) : SyscallTable :=
  match table entry.1.number with
  | some _ => table
  | none   => Function.update table entry.1.number (some entry.2)

/-- What is registered, in the order of the source. -/
def pikaSyscalls : List (SyscallId × SyscallCallback) :=
  [(.exit, pikaSysExit), (.print, pikaSysPrint), (.getpid, pikaSysGetpid), (.spawn, pikaSysSpawnArgs),
    (.debug, pikaSysDebug), (.sbrk, pikaSysSbrk), (.getFramebuffer, pikaSysGetFramebuffer),
    (.sleep, pikaSysSleep), (.yield, pikaSysYield), (.schedSetPriority, pikaSysSchedSetPriority),
    (.schedGetPriority, pikaSysSchedGetPriority), (.pipeOpen, pikaSysPipeOpen),
    (.pipeClose, pikaSysPipeClose), (.pipeGet, pikaSysPipeGet), (.pipeRead, pikaSysPipeRead),
    (.pipeWrite, pikaSysPipeWrite), (.openFile, pikaSysOpenFile), (.closeFile, pikaSysCloseFile),
    (.readFile, pikaSysReadFile), (.getFileSize, pikaSysGetFileSize), (.openDir, pikaSysOpenDir),
    (.closeDir, pikaSysCloseDir), (.readDir, pikaSysReadDir), (.pollMessage, pikaSysPollMsg),
    (.waitMessage, pikaSysWaitMsg), (.windowCreate, pikaSysWindowCreate),
    (.windowDestroy, pikaSysWindowDestroy), (.windowSetTitle, pikaSysWindowSetTitle),
    (.windowGetVisibility, pikaSysWindowGetVisibility),
    (.windowSetVisibility, pikaSysWindowSetVisibility), (.windowGetGeometry, pikaSysWindowGetGeometry),
    (.windowSetGeometry, pikaSysWindowSetGeometry), (.windowPresent, pikaSysWindowPresent),
    (.gfxClear, pikaSysGfxClear), (.gfxDrawLine, pikaSysGfxDrawLine),
    (.gfxDrawRect, pikaSysGfxDrawRect), (.gfxFillRect, pikaSysGfxFillRect),
    (.gfxDrawText, pikaSysGfxDrawText), (.gfxBlit, pikaSysGfxBlit)]

def createPikaSyscalls : SyscallTable := pikaSyscalls.foldl registerSyscall fun _ => none

/-- The number of a system call is in the low half of `x8`. -/
def syscallId : ℕ := (low (regs.gpRegs 8)).toNat

/-- The request of the handler that is called, when there is one for the number. -/
def requestOf : Option Request :=
  if syscallId regs ≥ 512 then none else (createPikaSyscalls (syscallId regs)).map fun read => read regs

/-- `call_syscall`. -/
def callSyscall : Kernel.Program σ Registers :=
  match requestOf regs with
  | some request => request.serve k regs
  | none         => pure (failWith regs .unknownSyscall)

end PiKachulm.Syscalls

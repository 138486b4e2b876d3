import PiKachulm.Syscalls.Handlers

/-!
# Refused system calls

When a required pointer is null, or a handle is not one of the current task, a system call is to leave the
kernel as it is and to return an error; and when it returns success, what it has been asked for is to have
been done. This is stated against the operations that the requests name, and it is shown which calls the
handlers treat in this way.
-/

namespace PiKachulm.Syscalls

open Core Hardware

variable {σ : Type} (k : Kernel σ) (regs : Registers)

namespace Request

/-! ### What is asked for -/

/-- The handle that the task has to own. -/
def handle : Request → Option (Resource × Word)
  | .pipeClose pipe | .pipeRead pipe _ _ _ | .pipeWrite pipe _ _ _ => some (.pipe, pipe)
  | .closeFile file | .readFile file _ _ _ | .getFileSize file => some (.file, file)
  | .closeDir dir | .readDir dir _ => some (.dir, dir)
  | .pollMsg window _ | .waitMsg window _ | .windowDestroy window | .windowSetTitle window _
  | .windowGetVisibility window _ | .windowSetVisibility window _ | .windowGetGeometry window _ _ _ _
  | .windowSetGeometry window _ _ _ _ | .windowPresent window _ _ _ _ | .gfxClear window _
  | .gfxDrawLine window _ _ _ _ _ | .gfxDrawRect window _ _ _ _ _ | .gfxFillRect window _ _ _ _ _
  | .gfxDrawText window _ _ _ _ | .gfxBlit window _ _ _ _ _ => some (.window, window)
  | _ => none

/-- The pointers that must not be null. -/
def pointers (s : σ) : Request → List Word
  | .print msg => [msg]
  | .spawn path argc argv => path :: argv ::
    (List.range argc.toNat).map fun i => k.load (argv + 8 * BitVec.ofNat 64 i) s
  | .schedGetPriority priority => [priority]
  | .pipeOpen name | .pipeGet _ name => [name]
  | .pipeRead _ buffer _ _ | .pipeWrite _ buffer _ _ => [buffer]
  | .openFile path _ | .openDir path => [path]
  | .readFile _ buffer _ readBytes => [buffer, readBytes]
  | .readDir _ fileInfo => [fileInfo]
  | .pollMsg _ msg | .waitMsg _ msg => [msg]
  | .windowSetTitle _ title => [title]
  | .gfxDrawText _ _ _ text _ => [text]
  | .gfxBlit _ _ _ _ _ argbBuffer => [argbBuffer]
  | _ => []

/-- The calls that return a handle, which is null when they fail. -/
def returnsHandle : Request → Bool
  | .pipeOpen _ | .pipeGet _ _ | .openFile _ _ | .openDir _ | .windowCreate _ => true
  | _ => false

/-- The handle is not one of the current task. -/
def NotOwned (s : σ) (q : Request) : Prop := ∃ r p, q.handle = some (r, p) ∧ k.own r p s = false

def NullPointer (s : σ) (q : Request) : Prop := 0 ∈ q.pointers k s

def Refused (s : σ) (q : Request) : Prop := q.NotOwned k s ∨ q.NullPointer k s

/-- What `x0` is to be after a call that is refused. -/
def Failure (q : Request) (x : Word) : Prop := if q.returnsHandle then x = 0 else IsError x

/-- What `x0` is after a call that has succeeded. -/
def Success (q : Request) (x : Word) : Prop := if q.returnsHandle then x ≠ 0 else x = 0

/-- The task whose process id is in `x0`. -/
def namedTask : Kernel.Program σ Word := do
  match ← Program.observe (k.findById (low (x0 regs))) with
  | some task => pure task
  | none      => Program.fail

/-- The operation that a request names. It fails when it cannot be carried out. -/
def operation : Request → Kernel.Program σ Unit
  | .exit exitCode => do
    let task ← k.currentTask
    k.tell (.killTask task exitCode)
  | .print msg => do
    let task ← k.currentTask
    let pid ← Program.observe (k.getId task)
    k.tell (.print pid msg)
  | .debug x => do
    let task ← k.currentTask
    let pid ← Program.observe (k.getId task)
    k.tell (.debug x pid)
  | .spawn path argc argv => do
    let parent ← k.currentTask
    let task ← k.ask (.createTask path parent)
    Program.ensure (task ≠ 0)
    let argsChunk ← k.ask (.mapChunk task 1 argsAddress false true)
    Program.ensure (argsChunk ≠ 0)
    writeSpawnArgs k (wholeOrFail k) argsChunk argc argv
    k.tell (.wakeTask task)
  | .sleep timeInUs => do
    let task ← k.currentTask
    if 0 < timeInUs then k.tell (.sleepTask task timeInUs) else pure ()
  | .yield => k.tell .schedule
  | .schedSetPriority priority => do
    let task ← namedTask k regs
    let success ← k.ask (.setTaskPriority task priority)
    Program.ensure (success ≠ 0)
  | .schedGetPriority priority => do
    let task ← namedTask k regs
    let value ← Program.observe (k.getPriority task)
    k.tell (.store32 priority value)
  | .pipeOpen name => do
    let task ← k.currentTask
    let pipe ← k.ask (.createPipe task name)
    Program.ensure (pipe ≠ 0)
  | .pipeClose pipe => do
    let task ← k.currentTask
    k.tell (.unregister .pipe task pipe)
  | .pipeRead pipe buffer size readBytes => do
    let task ← k.currentTask
    let ready ← k.ask (.waitRead pipe task)
    Program.ensure (ready ≠ 0)
    let n ← k.ask (.readPipe pipe buffer size)
    k.storeAt readBytes (.store64 readBytes n)
  | .pipeWrite pipe buffer size writtenBytes => do
    let task ← k.currentTask
    let ready ← k.ask (.waitWrite pipe task)
    Program.ensure (ready ≠ 0)
    let n ← k.ask (.writePipe pipe buffer size)
    k.storeAt writtenBytes (.store64 writtenBytes n)
  | .sbrk increment => do
    let task ← k.currentTask
    let newBrk ← k.ask (.changeHeapEnd task increment)
    Program.ensure (newBrk ≠ 0)
  | .getFramebuffer pixels width height stride => do
    storeProperties k width height stride k.frameBuffer.height
    if pixels = 0 then pure ()
    else do
      let task ← k.currentTask
      let pixelsChunk ← k.ask (.mapChunk task 1 0 false true)
      Program.ensure (pixelsChunk ≠ 0)
      writePixels k (wholeOrFail k) pixelsChunk
      k.tell (.store64 pixels 0)
  | .openFile path mode => do
    let file ← k.ask (.openFile path mode)
    Program.ensure (file ≠ 0)
    let task ← k.currentTask
    k.tell (.register .file task file)
  | .closeFile file => do
    k.tell (.closeFile file)
    let task ← k.currentTask
    k.tell (.unregister .file task file)
  | .readFile file buffer bytesToRead readBytes => do
    let success ← k.ask (.readFile file buffer bytesToRead readBytes)
    Program.ensure (success ≠ 0)
  | .openDir path => do
    let dir ← k.ask (.openDir path)
    Program.ensure (dir ≠ 0)
    let task ← k.currentTask
    k.tell (.register .dir task dir)
  | .closeDir dir => do
    k.tell (.closeDir dir)
    let task ← k.currentTask
    k.tell (.unregister .dir task dir)
  | .readDir dir fileInfo => do
    let success ← k.ask (.readDir dir fileInfo)
    Program.ensure (success ≠ 0)
  | .pollMsg window msg => do
    let success ← k.ask (.dequeue window msg)
    Program.ensure (success ≠ 0)
  | .waitMsg window msg => do
    let task ← k.currentTask
    let blocked ← k.ask (.blockTaskUntilNotEmpty window task)
    Program.ensure (blocked = 0)
    let success ← k.ask (.dequeue window msg)
    Program.ensure (success ≠ 0)
  | .windowCreate flags => do
    let task ← k.currentTask
    let window ← k.ask (.createWindow task (flags.setWidth 32))
    Program.ensure (window ≠ 0)
  | .windowDestroy window => k.tell (.destroyWindow window)
  | .windowSetTitle window title => k.tell (.setTitle window title)
  | .windowGetVisibility window isVisible => do
    let visible ← Program.observe (k.isVisible window)
    k.storeAt isVisible (.store8 isVisible (.ofNat 8 visible.toNat))
  | .windowSetVisibility window isVisible => k.tell (.setWindowVisibility window isVisible)
  | .windowGetGeometry window x y width height => do
    let geometry ← Program.observe (k.getGeometry window)
    k.storeAt x (.store32 x geometry.x)
    k.storeAt y (.store32 y geometry.y)
    k.storeAt width (.store32 width geometry.width)
    k.storeAt height (.store32 height geometry.height)
  | .windowSetGeometry window x y width height => k.tell (.setWindowGeometry window x y width height)
  | .windowPresent window x y width height => k.tell (.presentWindow window x y width height)
  | .gfxClear window argb => k.tell (.clear window argb)
  | .gfxDrawLine window x0 y0 x1 y1 argb => k.tell (.drawLine window x0 y0 x1 y1 argb)
  | .gfxDrawRect window x y width height argb => k.tell (.drawRect window x y width height argb)
  | .gfxFillRect window x y width height argb => k.tell (.fillRect window x y width height argb)
  | .gfxDrawText window x y text argb => k.tell (.drawText window x y text argb)
  | .gfxBlit window x y width height argbBuffer => k.tell (.blit window x y width height argbBuffer)
  -- the values of these are all there is to them
  | .getpid | .pipeGet _ _ | .getFileSize _ => pure ()

/-- The operation has been carried out, and a window that has been destroyed is not there any more. -/
def Done (s : σ) (q : Request) (w : Session (Call × Word) σ) : Prop :=
  q.operation k regs ⟨s, []⟩ = some ((), w) ∧
    ∀ window, q = .windowDestroy window → k.isValid window w.state = false

/-- A refused call leaves the kernel as it is and returns an error, and a call that returns success has done
what it has been asked for. -/
structure Complies (s : σ) (q : Request) : Prop where
  refused : q.Refused k s →
    ∃ regs', callSyscall k regs ⟨s, []⟩ = some (regs', ⟨s, []⟩) ∧ q.Failure (x0 regs')
  done : ∀ regs' w, callSyscall k regs ⟨s, []⟩ = some (regs', w) → q.Success (x0 regs') →
    q.Done k regs s w

/-! ### Which calls comply -/

/-- `pika_sys_spawn` up to its writes: the chunk of the arguments, which is null when there is none. -/
def spawnChunk (path : Word) : Kernel.Program σ Word := do
  let parent ← k.currentTask
  let task ← k.ask (.createTask path parent)
  if task = 0 then pure 0 else k.ask (.mapChunk task 1 argsAddress false true)

/-- `pika_sys_get_framebuffer` up to its write: the chunk of the pixels. -/
def pixelsChunk (width height stride : Word) : Kernel.Program σ Word := do
  storeProperties k width height stride k.frameBuffer.width
  let task ← k.currentTask
  k.ask (.mapChunk task 1 0 false true)

/-- The width is the height, or the height is not asked for. -/
def SameHeight (height : Word) : Prop := height = 0 ∨ k.frameBuffer.width = k.frameBuffer.height

/-- What it takes for a call that is not refused to do what it has been asked for. -/
def CarriesOut (s : σ) : Request → Prop
  | .spawn path argc argv => ∀ chunk w, spawnChunk k path ⟨s, []⟩ = some (chunk, w) → chunk ≠ 0 →
    (writeSpawnArgs k (wholeOrFail k) chunk argc argv w).isSome
  | .schedSetPriority priority => (k.run (.setTaskPriority (k.current s) priority) s).1 ≠ 0 →
    k.findById (low (x0 regs)) s = some (k.current s)
  | .schedGetPriority _ => ∃ task, k.findById (low (x0 regs)) s = some task ∧
    k.getPriority task s = k.getPriority (k.current s) s
  | .sbrk increment => k.getHeapEnd (k.current s) s = 0 →
    (k.run (.changeHeapEnd (k.current s) increment) s).1 ≠ 0
  | .getFramebuffer pixels width height stride =>
    if pixels = 0 then SameHeight k height
    else ∀ chunk w, pixelsChunk k width height stride ⟨s, []⟩ = some (chunk, w) → chunk ≠ 0 →
      SameHeight k height ∧ (writePixels k (wholeOrFail k) chunk w).isSome
  | .windowDestroy _ => False
  | _ => True

/-- The condition for a call to comply. A handler that refuses a null pointer leaves `x0` as it is, and
`read_dir` does not look at its pointer. -/
structure Sound (s : σ) (q : Request) : Prop where
  refused : ¬q.NotOwned k s → q.NullPointer k s →
    (∀ dir fileInfo, q ≠ .readDir dir fileInfo) ∧ q.Failure (x0 regs)
  carriesOut : ¬q.Refused k s → q.CarriesOut k regs s

/-! ### Refusals -/

variable {k regs} {s : σ} {q : Request} {w : Session (Call × Word) σ} {r : Resource} {p : Word}

@[simp] lemma x0_failWith (e : SysError) : x0 (failWith regs e) = e.code := rfl

@[simp] lemma x0_succeed : x0 (succeed regs) = 0 := rfl

@[simp] lemma x0_setX0 (value : Word) : x0 (setX0 regs value) = value := rfl

lemma isError_invalid (r : Resource) : IsError r.invalid.code := by
  cases r <;> decide

lemma checkHandle_apply (rest : Kernel.Program σ Registers) : checkHandle k regs r p rest w =
    if k.own r p w.state then rest w else some (failWith regs r.invalid, w) := by
  simp [checkHandle]

lemma checkPtr_apply (rest : Kernel.Program σ Registers) : checkPtr regs p rest w =
    if p = 0 then some (regs, w) else rest w := by
  simp [checkPtr, ite_not]

/-- A handle is checked before anything else. -/
lemma serve_of_not_own (hq : q.handle = some (r, p)) (hown : k.own r p w.state = false) :
    q.serve k regs w = some (failWith regs r.invalid, w) := by
  cases q <;> simp only [handle, Option.some.injEq, Prod.mk.injEq, reduceCtorEq] at hq
  all_goals
    obtain ⟨rfl, rfl⟩ := hq
    simp [serve, windowCall, checkHandle_apply, hown]

/-- The task owns the handle, when there is one. -/
def Owned (k : Kernel σ) (s : σ) (q : Request) : Prop :=
  ∀ r p, q.handle = some (r, p) → k.own r p s = true

lemma owned_iff : q.Owned k s ↔ ¬q.NotOwned k s := by
  simp [Owned, NotOwned]

/-- The check of `spawn` finds the arguments that are null. -/
lemma any_null_iff {argc argv : Word} :
    ((List.range argc.toNat).any fun i => k.load (argv + 8 * BitVec.ofNat 64 i) s = 0) = true ↔
      0 ∈ (List.range argc.toNat).map fun i => k.load (argv + 8 * BitVec.ofNat 64 i) s := by
  simp

/-- A handler that finds a null pointer leaves everything as it is, `x0` as well. -/
lemma serve_of_null (hown : q.Owned k w.state) (hnull : q.NullPointer k w.state)
    (hq : ∀ dir fileInfo, q ≠ .readDir dir fileInfo) : q.serve k regs w = some (regs, w) := by
  cases q <;> simp only [NullPointer, pointers, List.mem_cons, List.not_mem_nil, or_false] at hnull
  case readDir dir fileInfo => exact absurd rfl (hq dir fileInfo)
  case spawn path argc argv =>
    rw [← any_null_iff] at hnull
    rw [serve, checkPtr_apply, checkPtr_apply]
    split_ifs with hpath hargv
    · rfl
    · rfl
    · obtain h | h | h := hnull
      · exact absurd h.symm hpath
      · exact absurd h.symm hargv
      · rw [Program.bind_apply, Program.observe_apply, Option.bind_some, if_pos h]
        rfl
  case readFile =>
    have h := hown _ _ rfl
    obtain hnull | hnull := hnull <;> simp [serve, checkHandle_apply, checkPtr_apply, h, ← hnull]
  case print | schedGetPriority | pipeOpen | pipeGet | openFile | openDir =>
    simp [serve, checkPtr_apply, ← hnull]
  all_goals
    have h := hown _ _ rfl
    simp [serve, checkHandle_apply, checkPtr_apply, h, ← hnull]

/-- `Dir::read` does not return when its pointer is null. -/
lemma serve_readDir_null {dir : Word} (hown : k.own .dir dir w.state = true) :
    (Request.readDir dir 0).serve k regs w = none := by
  simp [serve, checkHandle_apply, hown, dirRead]

lemma isError_handle (hq : q.handle = some (r, p)) : q.Failure r.invalid.code := by
  have hno : q.returnsHandle = false := by
    cases q <;> simp [handle, returnsHandle] at hq ⊢
  rw [Failure, hno]
  exact isError_invalid r

/-- The first half of compliance. -/
lemma refused_iff : (q.Refused k s →
      ∃ regs', q.serve k regs ⟨s, []⟩ = some (regs', ⟨s, []⟩) ∧ q.Failure (x0 regs')) ↔
    (¬q.NotOwned k s → q.NullPointer k s →
      (∀ dir fileInfo, q ≠ .readDir dir fileInfo) ∧ q.Failure (x0 regs)) := by
  constructor
  · intro h hown hnull
    have hread : ∀ dir fileInfo, q ≠ .readDir dir fileInfo := by
      rintro dir fileInfo rfl
      obtain ⟨regs', hrun, -⟩ := h (.inr hnull)
      rw [NullPointer, pointers, List.mem_singleton] at hnull
      subst hnull
      rw [serve_readDir_null (owned_iff.2 hown _ _ rfl)] at hrun
      exact absurd hrun nofun
    obtain ⟨regs', hrun, hfail⟩ := h (.inr hnull)
    rw [serve_of_null (owned_iff.2 hown) hnull hread] at hrun
    cases hrun
    exact ⟨hread, hfail⟩
  · intro h href
    by_cases hown : q.NotOwned k s
    · obtain ⟨r, p, hq, hno⟩ := hown
      exact ⟨_, serve_of_not_own hq hno, isError_handle hq⟩
    · have hnull := href.resolve_left hown
      exact ⟨_, serve_of_null (owned_iff.2 hown) hnull (h hown hnull).1, (h hown hnull).2⟩

/-! ### Writes that are complete -/

/-- A writer that fails when a write is not complete does otherwise what the code does. -/
lemma wholeOrFail_refines (c : Call) (n : Word) : (wholeOrFail k c n).Refines (discardCount k c n) := by
  intro w r hr
  rw [wholeOrFail, Program.bind_apply, Kernel.ask_apply, Option.bind_some, Program.ensure_apply] at hr
  split_ifs at hr
  exact hr

lemma total_discardCount (c : Call) (n : Word) : (discardCount k c n).Total := fun _ => rfl

lemma writeArgv_refines {write write' : Writer σ} (h : ∀ c n, (write c n).Refines (write' c n))
    (chunk argv : Word) (left : ℕ) (i offset : Word) :
    (writeArgv k write chunk argv left i offset).Refines (writeArgv k write' chunk argv left i offset) := by
  induction left generalizing i offset with
  | zero => exact .refl _
  | succ left ih =>
    refine .bind (.refl _) fun data => .bind (.refl _) fun dataLen => ?_
    exact .bind (h _ _) fun _ => .bind (h _ _) fun _ => ih _ _

lemma total_writeArgv {write : Writer σ} (h : ∀ c n, (write c n).Total) (chunk argv : Word) (left : ℕ)
    (i offset : Word) : (writeArgv k write chunk argv left i offset).Total := by
  induction left generalizing i offset with
  | zero => exact fun _ => rfl
  | succ left ih =>
    refine .bind (fun _ => rfl) fun data => .bind (fun _ => rfl) fun dataLen => ?_
    exact .bind (h _ _) fun _ => .bind (h _ _) fun _ => ih _ _

lemma writeSpawnArgs_refines (chunk argc argv : Word) :
    (writeSpawnArgs k (wholeOrFail k) chunk argc argv).Refines
      (writeSpawnArgs k (discardCount k) chunk argc argv) :=
  .bind (wholeOrFail_refines _ _) fun _ => writeArgv_refines wholeOrFail_refines _ _ _ _ _

lemma total_writeSpawnArgs (chunk argc argv : Word) :
    (writeSpawnArgs k (discardCount k) chunk argc argv).Total :=
  .bind (total_discardCount _ _) fun _ => total_writeArgv total_discardCount _ _ _ _ _

lemma writePixels_refines (chunk : Word) :
    (writePixels k (wholeOrFail k) chunk).Refines (writePixels k (discardCount k) chunk) :=
  wholeOrFail_refines _ _

lemma total_writePixels (chunk : Word) : (writePixels k (discardCount k) chunk).Total :=
  total_discardCount _ _

/-! ### Operations that are carried out -/

variable {regs' : Registers} {w' : Session (Call × Word) σ} {c : Call} {e : SysError} {count : Word}
  {wait : Word → Call} {priority : BitVec 32}

@[simp] lemma code_eq_zero : e.code = 0#64 ↔ e = .ok := by
  cases e <;> decide

@[simp] lemma x0_stepBackOneInst : x0 regs.stepBackOneInst = x0 regs := by
  rw [Registers.stepBackOneInst]
  split
  · rfl
  · rfl

lemma ne_zero_of_own (hown : k.own r p s = true) : p ≠ 0 := by
  rw [Kernel.own, Bool.and_eq_true] at hown
  simpa using hown.1

lemma report_apply (answer : Word) :
    report regs answer e w = some (if answer ≠ 0 then succeed regs else failWith regs e, w) := rfl

/-- Sessions that have come from the same one by a call tell what the call was. -/
lemma call_eq_of_after_eq {c c' : Call} (h : k.after c w = k.after c' w) : c = c' := by
  have hcalls := congrArg Session.calls h
  rw [Kernel.after, Kernel.after, List.append_cancel_left_eq, List.cons.injEq, Prod.mk.injEq] at hcalls
  exact hcalls.1.1

/-- What has been called before a call. -/
lemma calls_eq_of_calls_after_eq {c c' : Call} (h : (k.after c w).calls = (k.after c' w').calls) :
    w.calls = w'.calls :=
  (List.append_inj' h rfl).1

/-- A call whose answer is reported. -/
lemma done_of_report (he : e.code ≠ 0) (hx0 : x0 regs' = 0)
    (hrun : (do let success ← k.ask c; report regs success e) w = some (regs', w')) :
    (do let success ← k.ask c; Program.ensure (success ≠ 0)) w = some ((), w') := by
  rw [Program.bind_apply, Kernel.ask_apply, Option.bind_some] at hrun ⊢
  rw [report_apply] at hrun
  rw [Program.ensure_apply]
  split_ifs at hrun ⊢ with h
  · cases hrun
    rfl
  · cases hrun
    exact absurd hx0 he

/-- A read from a pipe, or a write to one. -/
lemma done_of_transfer (hregs : x0 regs ≠ 0) (hx0 : x0 regs' = 0)
    (hrun : transfer k regs wait c count w = some (regs', w')) :
    (do
      let task ← k.currentTask
      let ready ← k.ask (wait task)
      Program.ensure (ready ≠ 0)
      let n ← k.ask c
      k.storeAt count (.store64 count n)) w = some ((), w') := by
  by_cases h : (k.run (wait (k.current w.state)) w.state).1 = 0#64
  · simp [transfer, h] at hrun
    rw [← hrun.1, x0_stepBackOneInst] at hx0
    exact absurd hx0 hregs
  · simp [transfer, h] at hrun ⊢
    exact hrun.2

/-- A file or a directory that is opened. -/
lemma done_of_registerOpen (hx0 : x0 regs' ≠ 0)
    (hrun : (do let p ← k.ask c; registerOpen k regs r p) w = some (regs', w')) :
    (do
      let p ← k.ask c
      Program.ensure (p ≠ 0)
      let task ← k.currentTask
      k.tell (.register r task p)) w = some ((), w') := by
  by_cases h : (k.run c w.state).1 = 0#64
  · simp [registerOpen, h] at hrun
    rw [← hrun.1, x0_setX0] at hx0
    exact absurd rfl hx0
  · simp [registerOpen, h] at hrun ⊢
    exact hrun.2

/-- A message that is waited for. -/
lemma done_of_waitMsg {window msg : Word} (hown : k.own .window window w.state = true)
    (hmsg : msg ≠ 0) (hregs : x0 regs ≠ 0) (hx0 : x0 regs' = 0)
    (hrun : (Request.waitMsg window msg).serve k regs w = some (regs', w')) :
    (Request.waitMsg window msg).operation k regs w = some ((), w') := by
  rw [serve, checkHandle_apply, if_pos hown, checkPtr_apply, if_neg hmsg] at hrun
  by_cases h : (k.run (.blockTaskUntilNotEmpty window (k.current w.state)) w.state).1 = 0#64
  · simp [operation, report_apply, h] at hrun ⊢
    refine ⟨fun hno => ?_, hrun.2⟩
    rw [← hrun.1, if_pos hno, x0_failWith] at hx0
    exact absurd hx0 (by decide)
  · simp [h] at hrun
    rw [← hrun.1, x0_stepBackOneInst] at hx0
    exact absurd hx0 hregs

/-- The requests for which nothing but the checks of the handler matters. -/
def Plain : Request → Prop
  | .spawn _ _ _ | .schedSetPriority _ | .schedGetPriority _ | .sbrk _ | .getFramebuffer _ _ _ _
  | .windowDestroy _ => False
  | _ => True

lemma done_of_plain (hregs : ∀ r p, q.handle = some (r, p) → x0 regs = p) (hown : q.Owned k s)
    (hptr : ∀ p ∈ q.pointers k s, p ≠ 0) (hq : q.Plain)
    (hrun : q.serve k regs ⟨s, []⟩ = some (regs', w)) (hsucc : q.Success (x0 regs')) :
    q.operation k regs ⟨s, []⟩ = some ((), w) := by
  have hne : ∀ r p, q.handle = some (r, p) → x0 regs ≠ 0 := fun r p h =>
    hregs r p h ▸ ne_zero_of_own (hown r p h)
  cases q <;> simp only [Plain] at hq
  case pipeRead | pipeWrite =>
    rw [serve, checkHandle_apply, if_pos (hown _ _ rfl), checkPtr_apply, if_neg (hptr _ (.head _))] at hrun
    exact done_of_transfer (hne _ _ rfl) hsucc hrun
  case waitMsg => exact done_of_waitMsg (hown _ _ rfl) (hptr _ (.head _)) (hne _ _ rfl) hsucc hrun
  case openFile | openDir =>
    rw [serve, checkPtr_apply, if_neg (hptr _ (.head _))] at hrun
    exact done_of_registerOpen hsucc hrun
  case pollMsg =>
    rw [serve, checkHandle_apply, if_pos (hown _ _ rfl), checkPtr_apply, if_neg (hptr _ (.head _))] at hrun
    exact done_of_report (by decide) hsucc hrun
  case readFile =>
    rw [serve, checkHandle_apply, if_pos (hown _ _ rfl), checkPtr_apply, if_neg (hptr _ (.head _)),
      checkPtr_apply, if_neg (hptr _ (.tail _ (.head _)))] at hrun
    exact done_of_report (by decide) hsucc hrun
  case readDir =>
    rw [serve, checkHandle_apply, if_pos (hown _ _ rfl), checkHandle_apply, if_pos (hown _ _ rfl),
      Program.bind_apply, dirRead, Program.bind_apply, Program.ensure_apply,
      if_pos (hptr _ (.head _))] at hrun
    exact done_of_report (by decide) hsucc hrun
  case sleep timeInUs =>
    by_cases h : 0#64 < timeInUs
    · simp [serve, operation, h] at hrun ⊢
      exact hrun.2
    · simp [serve, operation, h] at hrun ⊢
      exact hrun.2
  case pipeGet pid name =>
    rw [serve, checkPtr_apply, if_neg (hptr _ (.head _)), Program.bind_apply, Program.observe_apply,
      Option.bind_some] at hrun
    cases h : k.findById pid s <;> rw [h] at hrun <;> cases hrun
    · rfl
    · rfl
  case pipeOpen | windowCreate =>
    simp [pointers] at hptr
    simp [serve, operation, checkPtr_apply, hptr] at hrun ⊢
    rw [← hrun.1] at hsucc
    exact ⟨hsucc, hrun.2⟩
  all_goals
    simp [pointers] at hptr
    simp [Owned, handle] at hown
    simp [serve, operation, checkHandle_apply, checkPtr_apply, windowCall, closeHandle, hown, hptr] at hrun ⊢
    exact hrun.2

/-- After a program, a handler succeeds; the operation has a program in its place that refines it. -/
lemma succeed_bind_iff {p q : Kernel.Program σ Unit} (href : p.Refines q) (htot : q.Total)
    (g : Session (Call × Word) σ → Session (Call × Word) σ) :
    (∀ regs' w', ((q w).bind fun r => some (succeed regs, g r.2)) = some (regs', w') → x0 regs' = 0 →
        ((p w).bind fun r => some ((), g r.2)) = some ((), w')) ↔ (p w).isSome := by
  obtain ⟨r, hq⟩ := Option.isSome_iff_exists.1 (htot w)
  constructor
  · intro h
    have hp := h _ _ (by rw [hq]; rfl) x0_succeed
    rw [Option.bind_eq_some_iff] at hp
    obtain ⟨r', hp, -⟩ := hp
    rw [hp]
    rfl
  · intro h regs' w' hrun _
    obtain ⟨r', hp⟩ := Option.isSome_iff_exists.1 h
    rw [href w r' hp] at hrun
    rw [hp]
    cases hrun
    rfl

/-- Of `spawn` there remains that the writes of the arguments are complete. -/
lemma done_spawn_iff {path argc argv : Word} :
    (∀ regs' w, startTask k regs path argc argv ⟨s, []⟩ = some (regs', w) → x0 regs' = 0 →
        (Request.spawn path argc argv).operation k regs ⟨s, []⟩ = some ((), w)) ↔
      (Request.spawn path argc argv).CarriesOut k regs s := by
  rw [CarriesOut, spawnChunk]
  by_cases htask : (k.run (.createTask path (k.current s)) s).1 = 0#64
  · simp [startTask, htask]
  · simp [startTask, operation, htask]
    generalize (k.run (.createTask path (k.current s)) s).1 = task
    generalize k.after (.createTask path (k.current s)) ⟨s, []⟩ = w₁
    generalize (k.run (.mapChunk task 1 argsAddress false true) w₁.state).1 = chunk
    generalize k.after (.mapChunk task 1 argsAddress false true) w₁ = w₂
    by_cases hchunk : chunk = 0#64
    · simp [hchunk]
    · simp [hchunk]
      exact succeed_bind_iff (writeSpawnArgs_refines chunk argc argv)
        (total_writeSpawnArgs chunk argc argv) (k.after (.wakeTask task))

/-- The priority is set for the task that is named when this is the current one. -/
lemma done_setPriority_iff :
    (∀ regs' w, (Request.schedSetPriority priority).serve k regs ⟨s, []⟩ = some (regs', w) → x0 regs' = 0 →
        (Request.schedSetPriority priority).operation k regs ⟨s, []⟩ = some ((), w)) ↔
      (Request.schedSetPriority priority).CarriesOut k regs s := by
  rw [CarriesOut]
  by_cases hset : (k.run (.setTaskPriority (k.current s) priority) s).1 = 0#64
  · simp [serve, report_apply, hset]
  · cases hfind : k.findById (low (x0 regs)) s with
    | none      => simp [serve, operation, namedTask, report_apply, hset, hfind]
    | some task =>
      simp [serve, operation, namedTask, report_apply, hset, hfind]
      constructor
      · rintro ⟨-, h⟩
        cases call_eq_of_after_eq h
        rfl
      · rintro rfl
        exact ⟨hset, rfl⟩

/-- The priority that is stored is that of the task that is named when the current one has the same. -/
lemma done_getPriority_iff {priority : Word} (hptr : priority ≠ 0) :
    (∀ regs' w, (Request.schedGetPriority priority).serve k regs ⟨s, []⟩ = some (regs', w) →
        x0 regs' = 0 → (Request.schedGetPriority priority).operation k regs ⟨s, []⟩ = some ((), w)) ↔
      (Request.schedGetPriority priority).CarriesOut k regs s := by
  rw [CarriesOut, serve, checkPtr_apply, if_neg hptr]
  cases hfind : k.findById (low (x0 regs)) s with
  | none      => simp [operation, namedTask, hfind]
  | some task =>
    simp [operation, namedTask, hfind]
    constructor
    · intro h
      exact (Call.store32.inj (call_eq_of_after_eq h)).2
    · intro h
      rw [h]

/-- The heap is changed unless the old end of it looks like success. -/
lemma done_sbrk_iff {increment : Word} :
    (∀ regs' w, (Request.sbrk increment).serve k regs ⟨s, []⟩ = some (regs', w) → x0 regs' = 0 →
        (Request.sbrk increment).operation k regs ⟨s, []⟩ = some ((), w)) ↔
      (Request.sbrk increment).CarriesOut k regs s := by
  simp [serve, operation, CarriesOut]

/-- The session after `storeProperties`. -/
def propertiesStored (k : Kernel σ) (width height stride : Word) (h : BitVec 32)
    (w : Session (Call × Word) σ) : Session (Call × Word) σ :=
  let w := if width = 0 then w else k.after (.store32 width k.frameBuffer.width) w
  let w := if height = 0 then w else k.after (.store32 height h) w
  if stride = 0 then w else k.after (.store32 stride k.frameBuffer.pitch) w

@[simp] lemma storeProperties_apply {width height stride : Word} {h : BitVec 32} :
    storeProperties k width height stride h w = some ((), propertiesStored k width height stride h w) := by
  simp [storeProperties, propertiesStored]

/-- The calls tell what has been stored for the height. -/
lemma sameHeight_of_calls_eq {width height stride : Word}
    (h : (propertiesStored k width height stride k.frameBuffer.width w).calls =
      (propertiesStored k width height stride k.frameBuffer.height w).calls) : SameHeight k height := by
  by_cases hheight : height = 0#64
  · exact .inl hheight
  · right
    rw [propertiesStored, propertiesStored] at h
    generalize (if width = 0 then w else k.after (.store32 width k.frameBuffer.width) w) = w₁ at h
    by_cases hstride : stride = 0#64
    · simp [hheight, hstride, Kernel.after] at h
      exact h.1
    · simp [hheight, hstride, Kernel.after] at h
      exact h.1.1

lemma propertiesStored_of_sameHeight {width height stride : Word} (h : SameHeight k height) :
    propertiesStored k width height stride k.frameBuffer.height w =
      propertiesStored k width height stride k.frameBuffer.width w := by
  obtain h | h := h
  · simp [propertiesStored, h]
  · rw [h]

/-- Of `get_framebuffer` there remains that the pixels are written, and that the width that is stored for the
height is the height. -/
lemma done_getFramebuffer_iff {pixels width height stride : Word} :
    (∀ regs' w, (Request.getFramebuffer pixels width height stride).serve k regs ⟨s, []⟩ = some (regs', w) →
        x0 regs' = 0 →
        (Request.getFramebuffer pixels width height stride).operation k regs ⟨s, []⟩ = some ((), w)) ↔
      (Request.getFramebuffer pixels width height stride).CarriesOut k regs s := by
  by_cases hpixels : pixels = 0#64
  · simp [CarriesOut, serve, operation, mapPixels, hpixels]
    constructor
    · intro h
      exact sameHeight_of_calls_eq (congrArg Session.calls h).symm
    · exact propertiesStored_of_sameHeight
  · by_cases hsame : SameHeight k height
    · simp [CarriesOut, serve, operation, mapPixels, pixelsChunk, hpixels, hsame,
        propertiesStored_of_sameHeight hsame]
      generalize propertiesStored k width height stride k.frameBuffer.width ⟨s, []⟩ = w₁
      generalize (k.run (.mapChunk (k.current w₁.state) 1 0 false true) w₁.state).1 = chunk
      generalize k.after (.mapChunk (k.current w₁.state) 1 0 false true) w₁ = w₂
      by_cases hchunk : chunk = 0#64
      · simp [hchunk]
      · simp [hchunk]
        exact succeed_bind_iff (writePixels_refines chunk) (total_writePixels chunk)
          (k.after (.store64 pixels 0))
    · -- the calls for the properties differ, and so do all that start with them
      have hne : (propertiesStored k width height stride k.frameBuffer.width ⟨s, []⟩).calls ≠
          (propertiesStored k width height stride k.frameBuffer.height ⟨s, []⟩).calls :=
        mt sameHeight_of_calls_eq hsame
      simp [CarriesOut, serve, operation, mapPixels, pixelsChunk, hpixels, hsame]
      generalize propertiesStored k width height stride k.frameBuffer.width ⟨s, []⟩ = w₁ at hne ⊢
      generalize propertiesStored k width height stride k.frameBuffer.height ⟨s, []⟩ = w₂ at hne ⊢
      constructor
      · intro h
        by_contra hchunk
        simp [hchunk, writePixels, discardCount, wholeOrFail] at h
        simp only [Option.bind_eq_some_iff, Option.ite_none_left_eq_some, Option.ite_none_right_eq_some,
          Option.some.injEq] at h
        obtain ⟨r, ⟨-, rfl⟩, r', ⟨-, rfl⟩, hcalls⟩ := h
        have h := calls_eq_of_calls_after_eq (congrArg (fun r => r.2.calls) hcalls)
        exact hne (calls_eq_of_calls_after_eq (calls_eq_of_calls_after_eq h)).symm
      · intro h
        simp [h]

lemma serve_spawn {path argc argv : Word} (hptr : ∀ p ∈ (Request.spawn path argc argv).pointers k s, p ≠ 0) :
    (Request.spawn path argc argv).serve k regs ⟨s, []⟩ = startTask k regs path argc argv ⟨s, []⟩ := by
  have hargs : ¬((List.range argc.toNat).any
      fun i => k.load (argv + 8 * BitVec.ofNat 64 i) s = 0) = true := by
    rw [any_null_iff]
    exact fun h => hptr 0 (.tail _ (.tail _ h)) rfl
  rw [serve, checkPtr_apply, if_neg (hptr _ (.head _)), checkPtr_apply, if_neg (hptr _ (.tail _ (.head _))),
    Program.bind_apply, Program.observe_apply, Option.bind_some, if_neg hargs]

/-- The second half of compliance, for a request that is not refused. -/
lemma done_iff (hregs : ∀ r p, q.handle = some (r, p) → x0 regs = p) (hown : q.Owned k s)
    (hptr : ∀ p ∈ q.pointers k s, p ≠ 0) :
    (∀ regs' w, q.serve k regs ⟨s, []⟩ = some (regs', w) → q.Success (x0 regs') → q.Done k regs s w) ↔
      q.CarriesOut k regs s := by
  have hdone : ∀ w, (∀ window, q ≠ .windowDestroy window) →
      (q.Done k regs s w ↔ q.operation k regs ⟨s, []⟩ = some ((), w)) := fun w hq =>
    and_iff_left fun window h => absurd h (hq window)
  cases q
  case spawn =>
    simp only [hdone _ nofun, serve_spawn hptr]
    exact done_spawn_iff
  case schedSetPriority =>
    simp only [hdone _ nofun]
    exact done_setPriority_iff
  case schedGetPriority =>
    simp only [hdone _ nofun]
    exact done_getPriority_iff (hptr _ (.head _))
  case sbrk =>
    simp only [hdone _ nofun]
    exact done_sbrk_iff
  case getFramebuffer =>
    simp only [hdone _ nofun]
    exact done_getFramebuffer_iff
  case windowDestroy window =>
    -- nothing is called
    refine iff_of_false (fun h => ?_) id
    have hserve : (Request.windowDestroy window).serve k regs ⟨s, []⟩ = some (succeed regs, ⟨s, []⟩) := by
      rw [serve, checkHandle_apply, if_pos (hown _ _ rfl), Program.pure_apply]
    have hrun := (h _ _ hserve x0_succeed).1
    exact absurd (congrArg (fun r => r.map fun r => r.2.calls) hrun) nofun
  all_goals
    refine iff_of_true (fun regs' w hrun hsucc => ?_) trivial
    rw [hdone _ nofun]
    exact done_of_plain hregs hown hptr trivial hrun hsucc

lemma not_success_of_failure {x : Word} (h : q.Failure x) : ¬q.Success x := by
  intro hsucc
  rw [Failure] at h
  rw [Success] at hsucc
  split_ifs at h hsucc
  · exact hsucc h
  · rw [hsucc] at h
    exact absurd h (by decide)

/-! ### The calls of the table -/

/-- What the table has comes from a registration. -/
lemma mem_of_foldl_registerSyscall {l : List (SyscallId × SyscallCallback)} {table : SyscallTable} {n : ℕ}
    {read : SyscallCallback} (h : l.foldl registerSyscall table n = some read) :
    table n = some read ∨ ∃ id, (id, read) ∈ l := by
  induction l generalizing table with
  | nil => exact .inl h
  | cons entry l ih =>
    obtain h | ⟨id, h⟩ := ih h
    · rw [registerSyscall] at h
      cases htable : table entry.1.number with
      | some _ =>
        simp only [htable] at h
        exact .inl h
      | none   =>
        simp only [htable] at h
        by_cases hn : n = entry.1.number
        · rw [hn, Function.update_self] at h
          cases h
          exact .inr ⟨entry.1, .head _⟩
        · rw [Function.update_of_ne hn] at h
          exact .inl h
    · exact .inr ⟨id, .tail _ h⟩

/-- All handlers read their handle in `x0`. -/
lemma x0_of_mem_pikaSyscalls : ∀ entry ∈ pikaSyscalls, ∀ regs r p,
    (entry.2 regs).handle = some (r, p) → x0 regs = p := by
  simp only [pikaSyscalls, List.forall_mem_cons, List.not_mem_nil, IsEmpty.forall_iff, implies_true, and_true]
  and_intros
  all_goals
    intro regs r p h
    first
    | exact congrArg Prod.snd (Option.some.inj h)
    | exact absurd h (Option.some_ne_none (r, p)).symm

lemma x0_of_requestOf (hq : requestOf regs = some q) (hhandle : q.handle = some (r, p)) : x0 regs = p := by
  rw [requestOf] at hq
  split_ifs at hq
  obtain ⟨read, hread, rfl⟩ := Option.map_eq_some_iff.1 hq
  obtain h | ⟨id, h⟩ := mem_of_foldl_registerSyscall hread
  · exact absurd h nofun
  · exact x0_of_mem_pikaSyscalls _ h regs r p hhandle

lemma ne_zero_of_not_refused (hno : ¬q.Refused k s) : ∀ p ∈ q.pointers k s, p ≠ 0 := by
  rintro p hp rfl
  exact hno (.inr hp)

/-- A call complies if and only if the condition holds. -/
lemma complies_iff_sound (hq : requestOf regs = some q) : q.Complies k regs s ↔ q.Sound k regs s := by
  have hcall : callSyscall k regs = q.serve k regs := by rw [callSyscall, hq]
  constructor
  · rintro ⟨href, hdone⟩
    rw [hcall] at href hdone
    exact ⟨refused_iff.1 href, fun hno => (done_iff (fun r p => x0_of_requestOf hq)
      (owned_iff.2 fun h => hno (.inl h)) (ne_zero_of_not_refused hno)).1 hdone⟩
  · rintro ⟨href, hcarries⟩
    refine ⟨?_, ?_⟩
    · rw [hcall]
      exact refused_iff.2 href
    · rw [hcall]
      intro regs' w hrun hsucc
      by_cases hno : q.Refused k s
      · -- a refused call does not return success
        obtain ⟨regs'', hrun', hfail⟩ := refused_iff.2 href hno
        rw [hrun] at hrun'
        cases hrun'
        exact absurd hsucc (not_success_of_failure hfail)
      · exact (done_iff (fun r p => x0_of_requestOf hq) (owned_iff.2 fun h => hno (.inl h))
          (ne_zero_of_not_refused hno)).2 (hcarries hno) regs' w hrun hsucc

end Request

/-- The system call that the registers ask for complies, when it is a registered one. -/
def CallComplies (s : σ) : Prop := ∀ q, requestOf regs = some q → q.Complies k regs s

/-- System calls report what has become of them exactly when the condition holds: the handler does not find
a null pointer that it is to report, and does what is asked for. -/
theorem callComplies_iff (k : Kernel σ) (regs : Registers) (s : σ) :
    CallComplies k regs s ↔ ∀ q, requestOf regs = some q → q.Sound k regs s :=
  forall₂_congr fun _ hq => Request.complies_iff_sound hq

/-! ### A window that is not destroyed -/

/-- One task, and windows that are all its own. -/
def windowKernel : Kernel (List Word) where
  current _ := 1
  tasks _ := [1]
  getId _ _ := 0
  getPriority _ _ := 15
  owned r _ s := if r = .window then s else []
  getPipe _ _ _ := 0
  load _ _ := 0
  strlen _ _ := 0
  getHeapEnd _ _ := 0
  getSize _ _ := 0
  isVisible _ _ := true
  getGeometry _ _ := ⟨0, 0, 100, 100⟩
  isValid window s := window ∈ s
  frameBuffer := ⟨0, 640, 480, 640⟩
  run
    | .destroyWindow window, s => (0, s.erase window)
    | _, s                     => (0, s)

/-- The registers of `window_destroy` for a window. -/
def destroyRegs (window : Word) : Registers where
  gpRegs i := if i = 0 then window else if i = 8 then 26 else 0
  elr := 0
  spsr := 0
  esr := 0

theorem not_callComplies_windowDestroy : ¬CallComplies windowKernel (destroyRegs 0x1000) [0x1000] := by
  intro h
  have hreq : requestOf (destroyRegs 0x1000) = some (.windowDestroy 0x1000) := rfl
  have hcall : callSyscall windowKernel (destroyRegs 0x1000) ⟨[0x1000], []⟩ =
      some (succeed (destroyRegs 0x1000), ⟨[0x1000], []⟩) := rfl
  have hgone := ((h _ hreq).done _ _ hcall rfl).2 _ rfl
  exact absurd hgone (by decide)

end PiKachulm.Syscalls

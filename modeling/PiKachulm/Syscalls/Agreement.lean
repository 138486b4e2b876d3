import PiKachulm.Syscalls.Wrappers
import Mathlib.Data.List.Nodup
import Mathlib.Algebra.Order.Ring.Nat

/-!
# Wrappers and handlers

The two halves of a system call are written by hand: the wrapper loads the registers, the handler reads
them. They agree when the handler is the one of the operation that the wrapper is named after, reads the
arguments of the wrapper, and leaves in `x0` what the wrapper returns.
-/

namespace PiKachulm.Syscalls

open Core Hardware

/-- The registers from `i` on hold the arguments. -/
def Loaded (regs : Registers) (i : ℕ) : List Word → Prop
  | []        => True
  | a :: args => regs.gpRegs (Fin.ofNat 32 i) = a ∧ Loaded regs (i + 1) args

namespace Trap

/-- The registers of a task that makes the system call; what the call does not load can be anything. -/
def Loads (t : Trap) (regs : Registers) : Prop := syscallId regs = t.id.number ∧ Loaded regs 0 t.args

/-- The system call is handled as the request. -/
def Reaches (t : Trap) (q : Request) : Prop := ∀ regs, t.Loads regs → requestOf regs = some q

end Trap

namespace Wrapper

variable {σ : Type}

/-- The request is for the operation that the wrapper is named after, with the arguments of the wrapper.
The process `p` is the one that calls it, `p'` the one it returns to, and `pid` the process id. -/
def Asks (e : Environment σ) (p p' : Process σ) (pid : BitVec 32) (q : Request) : Wrapper → Prop
  | exit status => ∃ c : BitVec 32, q = .exit c ∧ c.toInt = status.toInt
  | sleep timeInS => ∃ t : Word, q = .sleep t ∧ t.toNat = timeInS.toNat * 1000000
  | usleep timeInUs => q = .sleep timeInUs
  | print msg => q = .print msg
  | spawn path => q = .spawn path 1 e.stack
  | spawn2 path argc argv => q = .spawn path argc argv
  | yield => q = .yield
  | getpid => q = .getpid
  | schedSetPriority id priority => q = .schedSetPriority priority ∧ (id = 0 ∨ id = pid)
  | schedGetPriority id priority => q = .schedGetPriority priority ∧ (id = 0 ∨ id = pid)
  | debug x => q = .debug x
  | sbrk increment => q = .sbrk increment
  | getFramebuffer pixels width height stride => q = .getFramebuffer pixels width height stride
  | pipeOpen name => q = .pipeOpen name
  | pipeClose pipe => q = .pipeClose pipe
  | pipeGet id name => q = .pipeGet id name
  | pipeRead pipe buffer size read => q = .pipeRead pipe buffer size read
  | pipeWrite pipe buffer size written => q = .pipeWrite pipe buffer size written
  | openFile path mode => q = .openFile path mode
  | closeFile file => q = .closeFile file
  | fileRead file buffer bytesToRead readBytes => q = .readFile file buffer bytesToRead readBytes
  | getFileSize file => q = .getFileSize file
  | openDir path => q = .openDir path
  | closeDir dir => q = .closeDir dir
  | readDir dir info => q = .readDir dir info
  | windowCreate _ _ _ _ _ flags => q = .windowCreate (flags.setWidth 64)
  | windowDestroy window => q = .windowDestroy (p.window window).kernelHandle
  | pollMessage window msg => q = .pollMsg (p.window window).kernelHandle msg
  | pollAllMessages window => q = .pollMsg (p.window window).kernelHandle e.stack
  | waitMessage window msg => q = .waitMsg (p.window window).kernelHandle msg
  | windowSetTitle window _ =>
    q = .windowSetTitle (p.window window).kernelHandle (p'.window window).title
  | windowSetVisibility window visible =>
    q = .windowSetVisibility (p.window window).kernelHandle visible
  | windowGetVisibility window visible =>
    q = .windowGetVisibility (p.window window).kernelHandle visible
  | windowSetGeometry window x y width height => ∃ w h : BitVec 32,
    q = .windowSetGeometry (p.window window).kernelHandle x y w h ∧ w.toInt = width.toNat ∧
      h.toInt = height.toNat
  | windowGetGeometry window x y width height =>
    q = .windowGetGeometry (p.window window).kernelHandle x y width height
  | windowPresent window => ∃ width height,
    q = .windowPresent (p.window window).kernelHandle 0 0 width height
  | windowPresent2 window x y width height =>
    q = .windowPresent (p.window window).kernelHandle x y width height
  | gfxClear window argb => q = .gfxClear (p.window window).kernelHandle argb
  | gfxDrawLine window x0 y0 x1 y1 argb =>
    q = .gfxDrawLine (p.window window).kernelHandle x0 y0 x1 y1 argb
  | gfxDrawRect window x y width height argb =>
    q = .gfxDrawRect (p.window window).kernelHandle x y width height argb
  | gfxFillRect window x y width height argb =>
    q = .gfxFillRect (p.window window).kernelHandle x y width height argb
  | gfxDrawText window x y text argb =>
    q = .gfxDrawText (p.window window).kernelHandle x y text argb
  | gfxBlit window x y width height argbBuffer =>
    q = .gfxBlit (p.window window).kernelHandle x y width height argbBuffer

/-- The kernel has returned the handle of a new window. -/
def Created (calls : List (Trap × Word)) (handle : Word) : Prop :=
  ∃ c ∈ calls, c.1.id = .windowCreate ∧ c.2 = handle

/-- The request is for something else that the wrapper needs, with its own arguments as well. -/
def Helps (p : Process σ) (calls : List (Trap × Word)) : Wrapper → Request → Prop
  | windowCreate .., .sbrk _ | windowSetTitle .., .sbrk _ => True
  | windowCreate .., .windowSetTitle handle _ | windowCreate .., .pollMsg handle _
  | windowCreate .., .windowDestroy handle => Created calls handle
  | windowCreate _ x y width height _, .windowSetGeometry handle x' y' w h =>
    Created calls handle ∧ x' = x ∧ y' = y ∧ w.toInt = width.toNat ∧ h.toInt = height.toNat
  | windowCreate .., .windowSetVisibility handle visible => Created calls handle ∧ visible = true
  | windowPresent window, .windowGetGeometry handle x y _ _ =>
    handle = (p.window window).kernelHandle ∧ x = 0 ∧ y = 0
  | _, _ => False

/-- The wrapper returns what the handler has left in `x0`, or keeps it as the handle of the window that it
returns. -/
def Returns (p' : Process σ) (x0 : Word) (v : Value) : Wrapper → Prop
  | exit _ | closeFile _ | closeDir _ | windowDestroy _ | pollAllMessages _ | waitMessage _ _ => v = .void
  | sbrk _ | pipeOpen _ | pipeGet _ _ | openFile _ _ | getFileSize _ | openDir _ => v = .word x0
  | pollMessage _ _ => v = .bool (x0 = 0)
  | windowCreate .. => ∃ window, v = .word window ∧ (window ≠ 0 → (p'.window window).kernelHandle = x0)
  | _ => v = .int (low x0)

/-- The wrapper has to make its system call: the window that it destroys has a handle, the memory that it
takes first is there. -/
def Due (p : Process σ) (calls : List (Trap × Word)) : Wrapper → Prop
  | windowDestroy window => window ≠ 0 ∧ (p.window window).kernelHandle ≠ 0
  | windowCreate .. | windowSetTitle .. => ∀ c ∈ calls.head?, c.2 ≠ 0
  | _ => True

/-- A call of a wrapper agrees with the handlers. -/
structure Agreed (e : Environment σ) (pid : BitVec 32) (p : Process σ) (w : Wrapper) (v : Value)
    (s : Session (Trap × Word) (Process σ)) : Prop where
  reaches : ∀ c ∈ s.calls, ∃ q, c.1.Reaches q ∧
    (w.Asks e p s.state pid q ∨ w.Helps p s.calls q)
  issued : w.Due p s.calls → ∃ c ∈ s.calls, ∃ q, c.1.Reaches q ∧
    w.Asks e p s.state pid q ∧ w.Returns s.state c.2 v

/-- Whatever the kernel answers, a call of the wrapper that returns agrees with the handlers. The process has
the windows `window` and the process id `pid`. -/
def Agrees (window : Word → SysWindow) (pid : BitVec 32) (w : Wrapper) : Prop :=
  ∀ (σ : Type) (e : Environment σ) (fuel : ℕ) (rest : σ) v s,
    w.run e fuel ⟨⟨window, rest⟩, []⟩ = some (v, s) → w.Agreed e pid ⟨window, rest⟩ v s

/-- The handler reads the number as a signed integer. -/
def Fits (n : BitVec 32) : Prop := n.toNat < 2 ^ 31

/-- When the two halves agree. -/
def Sound (window : Word → SysWindow) (pid : BitVec 32) : Wrapper → Prop
  | exit status => (low status).toInt = status.toInt
  | sleep timeInS => timeInS.toNat * 1000000 < 2 ^ 64
  | schedSetPriority id _ => id = 0 ∨ id = pid
  | schedGetPriority _ _ => False
  | windowCreate title _ _ width height _ => title = 0 ∨ Fits width ∧ Fits height
  | windowDestroy w => w = 0 ∨ (window w).kernelHandle = 0
  | windowSetGeometry w _ _ width height => w = 0 ∨ Fits width ∧ Fits height
  | _ => True

end Wrapper

/-! ### The handler that is reached -/

variable {t : Trap} {q q' : Request} {regs : Registers}

lemma registerSyscall_of_some {table : SyscallTable} {n : ℕ} {read : SyscallCallback}
    (h : table n = some read) (entry : SyscallId × SyscallCallback) :
    registerSyscall table entry n = some read := by
  rw [registerSyscall]
  cases hentry : table entry.1.number with
  | some _ => exact h
  | none =>
    have hne : n ≠ entry.1.number := by
      rintro rfl
      exact absurd (h.symm.trans hentry) (by simp)
    exact (Function.update_of_ne hne _ _).trans h

/-- What is registered stays as it is. -/
lemma foldl_registerSyscall_of_some {l : List (SyscallId × SyscallCallback)} {table : SyscallTable}
    {n : ℕ} {read : SyscallCallback} (h : table n = some read) :
    l.foldl registerSyscall table n = some read := by
  induction l generalizing table with
  | nil => exact h
  | cons entry l ih => exact ih (registerSyscall_of_some h entry)

/-- A table that is filled with different numbers has all of them. -/
lemma foldl_registerSyscall {l : List (SyscallId × SyscallCallback)} {table : SyscallTable}
    (hl : (l.map fun entry => entry.1.number).Nodup) (htable : ∀ entry ∈ l, table entry.1.number = none) :
    ∀ entry ∈ l, l.foldl registerSyscall table entry.1.number = some entry.2 := by
  induction l generalizing table with
  | nil => exact fun entry h => absurd h List.not_mem_nil
  | cons first l ih =>
    rw [List.map_cons, List.nodup_cons] at hl
    have hfirst : registerSyscall table first = Function.update table first.1.number (some first.2) := by
      rw [registerSyscall, htable first List.mem_cons_self]
    intro entry hentry
    rw [List.foldl_cons]
    rcases List.mem_cons.mp hentry with rfl | hentry
    · apply foldl_registerSyscall_of_some
      rw [hfirst, Function.update_self]
    · refine ih hl.2 (fun other hother => ?_) entry hentry
      have hne : other.1.number ≠ first.1.number := by
        intro heq
        exact hl.1 (heq ▸ List.mem_map_of_mem hother)
      rw [hfirst, Function.update_of_ne hne]
      exact htable other (List.mem_cons_of_mem _ hother)

lemma createPikaSyscalls_of_mem {id : SyscallId} {read : SyscallCallback}
    (h : (id, read) ∈ pikaSyscalls) : createPikaSyscalls id.number = some read :=
  foldl_registerSyscall (by decide) (fun _ _ => rfl) (id, read) h

lemma number_lt (id : SyscallId) : id.number < 512 := by
  cases id <;> decide

/-- A trap reaches the handler that is registered for its number. -/
lemma Trap.reaches (read : SyscallCallback) (h : (t.id, read) ∈ pikaSyscalls)
    (hread : ∀ regs, Loaded regs 0 t.args → read regs = q) : t.Reaches q := by
  rintro regs ⟨hid, hargs⟩
  rw [requestOf, hid, if_neg (Nat.not_le.mpr (number_lt t.id)), createPikaSyscalls_of_mem h,
    Option.map_some, hread regs hargs]

lemma loaded_of_getElem? {args : List Word} {i : ℕ}
    (h : ∀ j a, args[j]? = some a → regs.gpRegs (Fin.ofNat 32 (i + j)) = a) : Loaded regs i args := by
  induction args generalizing i with
  | nil => trivial
  | cons a args ih =>
    refine ⟨h 0 a rfl, ih fun j b hb => ?_⟩
    rw [Nat.add_right_comm, Nat.add_assoc]
    exact h (j + 1) b hb

/-- Registers that the trap has loaded. -/
def Trap.load (t : Trap) : Registers where
  gpRegs := fun i => if i = 8 then BitVec.ofNat 64 t.id.number else t.args.getD i.1 0
  elr := 0
  spsr := 0
  esr := 0

lemma Trap.loads_load (h : t.args.length ≤ 8) : t.Loads t.load := by
  constructor
  · have hlt := number_lt t.id
    rw [syscallId, low]
    simp only [Trap.load, if_true, BitVec.toNat_setWidth, BitVec.toNat_ofNat]
    omega
  · apply loaded_of_getElem?
    intro j a ha
    obtain ⟨hj, -⟩ := List.getElem?_eq_some_iff.mp ha
    have hj8 : j < 8 := Nat.lt_of_lt_of_le hj h
    have hval : (Fin.ofNat 32 (0 + j)).1 = j := by
      rw [Fin.val_ofNat, Nat.zero_add]
      exact Nat.mod_eq_of_lt (Nat.lt_trans hj8 (by decide))
    have hne : Fin.ofNat 32 (0 + j) ≠ 8 := by
      intro heq
      rw [heq] at hval
      exact absurd (hval ▸ hj8) (by decide)
    simp only [Trap.load, if_neg hne, hval, List.getD_eq_getElem?_getD, ha, Option.getD_some]

/-- The registers determine the request. -/
lemma Trap.Reaches.eq (h : t.Reaches q) (h' : t.Reaches q') (hargs : t.args.length ≤ 8) : q = q' := by
  have hloads := Trap.loads_load hargs
  exact Option.some_inj.mp ((h _ hloads).symm.trans (h' _ hloads))

lemma low_mask (reg : Word) : low (reg &&& 0xFFFFFFFF) = low reg := by
  apply BitVec.eq_of_toNat_eq
  have hmask : (0xFFFFFFFF : Word).toNat = 2 ^ 32 - 1 := rfl
  rw [low, low, BitVec.toNat_setWidth, BitVec.toNat_setWidth, BitVec.toNat_and, hmask,
    Nat.and_two_pow_sub_one_eq_mod, Nat.mod_mod]

/-- The two values that a wrapper puts in a register are those that the handler takes from it. -/
@[simp] lemma unpackCouple_packCouple (x y : BitVec 32) :
    unpackCouple (Environment.packCouple x y) = (x, y) := by
  rw [unpackCouple, low_mask, low_mask, Environment.packCouple, low, low, Prod.mk.injEq]
  constructor
  · ext i hi
    simp
  · ext i hi
    have hlt : 32 + i < 64 := by omega
    have hlt' : i < 64 := by omega
    simp [hlt, hlt', BitVec.getLsbD_eq_getElem hi]

@[simp] lemma low_setWidth (x : BitVec 32) : low (x.setWidth 64) = x := by
  rw [low]
  ext i hi
  simp

@[simp] lemma low_signExtend (x : BitVec 32) : low (x.signExtend 64) = x := by
  rw [low]
  ext i hi
  have hi' : i < 64 := by omega
  rw [BitVec.getElem_setWidth, BitVec.getLsbD_signExtend]
  simp [hi, hi']

/-! ### Runs of wrappers -/

namespace Environment

variable {σ : Type} (e : Environment σ) {w : Session (Trap × Word) (Process σ)}

/-- The session after a system call. -/
def after (t : Trap) (w : Session (Trap × Word) (Process σ)) : Session (Trap × Word) (Process σ) :=
  ⟨{ w.state with rest := (e.svc t w.state.rest).2 }, w.calls ++ [(t, (e.svc t w.state.rest).1)]⟩

@[simp] lemma syscall_apply (id : SyscallId) (args : List Word) :
    e.syscall id args w = some ((e.svc ⟨id, args⟩ w.state.rest).1, e.after ⟨id, args⟩ w) := rfl

@[simp] lemma syscallInt_apply (id : SyscallId) (args : List Word) :
    e.syscallInt id args w = some (low (e.svc ⟨id, args⟩ w.state.rest).1, e.after ⟨id, args⟩ w) := rfl

@[simp] lemma syscallVoid_apply (id : SyscallId) (args : List Word) :
    e.syscallVoid id args w = some ((), e.after ⟨id, args⟩ w) := rfl

end Environment

namespace Wrapper

open Environment

variable {σ : Type} {e : Environment σ} {pid : BitVec 32} {p p' : Process σ} {w : Wrapper}
  {window : Word → SysWindow} {v : Value}

/-- One system call, for what the wrapper is named after. -/
lemma Agreed.single {a : Word} (hreach : t.Reaches q) (hasks : w.Asks e p p' pid q)
    (hreturns : w.Returns p' a v) : w.Agreed e pid p v ⟨p', [(t, a)]⟩ where
  reaches := by
    intro c hc
    rw [List.mem_singleton.mp hc]
    exact ⟨q, hreach, .inl hasks⟩
  issued := fun _ => ⟨(t, a), List.mem_singleton_self _, q, hreach, hasks, hreturns⟩

/-- The system call of a wrapper that makes a single one, and what is read from the registers. -/
def call (window : Word → SysWindow) : Wrapper → Option (Trap × Request)
  | exit status => some (⟨.exit, [status]⟩, .exit (low status))
  | sleep timeInS => some (⟨.sleep, [timeInS * 1000000]⟩, .sleep (timeInS * 1000000))
  | usleep timeInUs => some (⟨.sleep, [timeInUs]⟩, .sleep timeInUs)
  | print msg => some (⟨.print, [msg]⟩, .print msg)
  | spawn2 path argc argv => some (⟨.spawn, [path, argc, argv]⟩, .spawn path argc argv)
  | yield => some (⟨.yield, []⟩, .yield)
  | getpid => some (⟨.getpid, []⟩, .getpid)
  | schedSetPriority pid priority =>
    some (⟨.schedSetPriority, [pid.setWidth 64, priority.setWidth 64]⟩, .schedSetPriority priority)
  | schedGetPriority pid priority =>
    some (⟨.schedSetPriority, [pid.setWidth 64, priority]⟩, .schedSetPriority (low priority))
  | debug x => some (⟨.debug, [x]⟩, .debug x)
  | sbrk increment => some (⟨.sbrk, [increment]⟩, .sbrk increment)
  | getFramebuffer pixels width height stride =>
    some (⟨.getFramebuffer, [pixels, width, height, stride]⟩, .getFramebuffer pixels width height stride)
  | pipeOpen name => some (⟨.pipeOpen, [name]⟩, .pipeOpen name)
  | pipeClose pipe => some (⟨.pipeClose, [pipe]⟩, .pipeClose pipe)
  | pipeGet pid name => some (⟨.pipeGet, [pid.setWidth 64, name]⟩, .pipeGet pid name)
  | pipeRead pipe buffer size read =>
    some (⟨.pipeRead, [pipe, buffer, size, read]⟩, .pipeRead pipe buffer size read)
  | pipeWrite pipe buffer size written =>
    some (⟨.pipeWrite, [pipe, buffer, size, written]⟩, .pipeWrite pipe buffer size written)
  | openFile path mode => some (⟨.openFile, [path, mode.setWidth 64]⟩, .openFile path mode)
  | closeFile file => some (⟨.closeFile, [file]⟩, .closeFile file)
  | fileRead file buffer bytesToRead readBytes =>
    some (⟨.readFile, [file, buffer, bytesToRead, readBytes]⟩,
      .readFile file buffer bytesToRead readBytes)
  | getFileSize file => some (⟨.getFileSize, [file]⟩, .getFileSize file)
  | openDir path => some (⟨.openDir, [path]⟩, .openDir path)
  | closeDir dir => some (⟨.closeDir, [dir]⟩, .closeDir dir)
  | readDir dir info => some (⟨.readDir, [dir, info]⟩, .readDir dir info)
  | pollMessage w msg =>
    some (⟨.pollMessage, [(window w).kernelHandle, msg]⟩, .pollMsg (window w).kernelHandle msg)
  | waitMessage w msg =>
    some (⟨.waitMessage, [(window w).kernelHandle, msg]⟩, .waitMsg (window w).kernelHandle msg)
  | windowSetVisibility w visible =>
    some (⟨.windowSetVisibility, [(window w).kernelHandle, BitVec.ofNat 64 visible.toNat]⟩,
      .windowSetVisibility (window w).kernelHandle visible)
  | windowGetVisibility w visible =>
    some (⟨.windowGetVisibility, [(window w).kernelHandle, visible]⟩,
      .windowGetVisibility (window w).kernelHandle visible)
  | windowSetGeometry w x y width height =>
    some (⟨.windowSetGeometry, [(window w).kernelHandle, x.signExtend 64, y.signExtend 64,
      width.setWidth 64, height.setWidth 64]⟩,
      .windowSetGeometry (window w).kernelHandle x y width height)
  | windowGetGeometry w x y width height =>
    some (⟨.windowGetGeometry, [(window w).kernelHandle, x, y, width, height]⟩,
      .windowGetGeometry (window w).kernelHandle x y width height)
  | windowPresent2 w x y width height =>
    some (⟨.windowPresent, [(window w).kernelHandle, x.setWidth 64, y.setWidth 64, width.setWidth 64,
      height.setWidth 64]⟩, .windowPresent (window w).kernelHandle x y width height)
  | gfxClear w argb =>
    some (⟨.gfxClear, [(window w).kernelHandle, argb.setWidth 64]⟩,
      .gfxClear (window w).kernelHandle argb)
  | gfxDrawLine w x0 y0 x1 y1 argb =>
    some (⟨.gfxDrawLine, [(window w).kernelHandle, packCouple x0 y0, packCouple x1 y1,
      argb.setWidth 64]⟩, .gfxDrawLine (window w).kernelHandle x0 y0 x1 y1 argb)
  | gfxDrawRect w x y width height argb =>
    some (⟨.gfxDrawRect, [(window w).kernelHandle, packCouple x y, packCouple width height,
      argb.setWidth 64]⟩, .gfxDrawRect (window w).kernelHandle x y width height argb)
  | gfxFillRect w x y width height argb =>
    some (⟨.gfxFillRect, [(window w).kernelHandle, packCouple x y, packCouple width height,
      argb.setWidth 64]⟩, .gfxFillRect (window w).kernelHandle x y width height argb)
  | gfxDrawText w x y text argb =>
    some (⟨.gfxDrawText, [(window w).kernelHandle, packCouple x y, text, argb.setWidth 64]⟩,
      .gfxDrawText (window w).kernelHandle x y text argb)
  | gfxBlit w x y width height argbBuffer =>
    some (⟨.gfxBlit, [(window w).kernelHandle, packCouple x y, packCouple width height, argbBuffer]⟩,
      .gfxBlit (window w).kernelHandle x y width height argbBuffer)
  | _ => none

/-- The program makes one system call, and returns `f` of the answer. -/
def Makes {α : Type} (e : Environment σ) (window : Word → SysWindow) (t : Trap) (f : Word → α)
    (p : UserProgram σ α) : Prop :=
  ∀ rest r, p ⟨⟨window, rest⟩, []⟩ = some r →
    r = (f (e.svc t rest).1, e.after t ⟨⟨window, rest⟩, []⟩)

section Makes

variable {α β : Type} {f : Word → α} {prog : UserProgram σ α} {id : SyscallId} {args : List Word}

lemma makes_syscall : Makes e window ⟨id, args⟩ (fun a => a) (e.syscall id args) :=
  fun _ _ h => (Option.some_inj.mp h).symm

lemma Makes.map (h : Makes e window t f prog) (g : α → β) :
    Makes e window t (fun a => g (f a)) (prog >>= fun b => pure (g b)) := by
  intro rest r hr
  rw [Program.bind_apply] at hr
  obtain ⟨x, hx, hr⟩ := Option.bind_eq_some_iff.mp hr
  rw [h rest x hx] at hr
  exact (Option.some_inj.mp hr).symm

lemma Makes.ensure (h : Makes e window t f prog) (c : Prop) [Decidable c] :
    Makes e window t f (Program.ensure c >>= fun _ => prog) := by
  intro rest r hr
  rw [Program.bind_apply, Program.ensure_apply] at hr
  split_ifs at hr
  · exact h rest r hr
  · exact absurd hr (by simp)

lemma Makes.observe {γ : Type} {g : Process σ → γ} {progs : γ → UserProgram σ α}
    (h : ∀ rest, Makes e window t f (progs (g ⟨window, rest⟩))) :
    Makes e window t f (Program.observe g >>= progs) :=
  fun rest r hr => h rest rest r hr

lemma Makes.ensureName (h : Makes e window t f prog) (name : Word) :
    Makes e window t f (e.ensureName name >>= fun _ => prog) := by
  intro rest r hr
  have hname : (e.ensureName name >>= fun _ => prog) = (do
      Program.ensure (name ≠ 0)
      let length ← Program.observe fun p => e.strlen name p.rest
      Program.ensure (length < sysPipeNameMax)
      prog) := by
    funext w
    simp [Environment.ensureName, Option.bind_assoc]
  rw [hname] at hr
  exact (Makes.observe fun _ => h.ensure _).ensure _ rest r hr

lemma makes_windowSyscall (w : Word) : Makes e window ⟨id, (window w).kernelHandle :: args⟩ low
    (e.windowSyscall id w args) :=
  Makes.ensure (Makes.observe fun _ => makes_syscall.map low) _

lemma makes_sysPollMessage (a msg : Word) : Makes e window ⟨.pollMessage, [(window a).kernelHandle, msg]⟩
    (fun x0 => decide (x0 = 0)) (e.sysPollMessage a msg) :=
  Makes.ensure (Makes.observe fun _ => makes_syscall.map fun x0 => decide (x0 = 0)) _

end Makes

/-- A wrapper with a single system call makes no other, and returns what is in `x0`. -/
lemma makes_of_call (hcall : w.call window = some (t, q)) (fuel : ℕ) :
    ∃ f, Makes e window t f (w.run e fuel) ∧
      ∀ (p' : Process σ) x0, w.Returns p' x0 (f x0) := by
  have hint : ∀ id args, Makes e window ⟨id, args⟩ (fun a => Value.int (low a)) (int (e.syscallInt id args)) :=
    fun _ _ => (makes_syscall.map low).map Value.int
  have hvoid : ∀ id args, Makes e window ⟨id, args⟩ (fun _ => Value.void) (void (e.syscallVoid id args)) :=
    fun _ _ => (makes_syscall.map fun _ => ()).map fun _ => Value.void
  have hwindow : ∀ id w args, Makes e window ⟨id, (window w).kernelHandle :: args⟩
      (fun a => Value.int (low a)) (int (e.windowSyscall id w args)) :=
    fun _ w _ => (makes_windowSyscall w).map Value.int
  cases w <;> cases hcall
  case pipeOpen name =>
    exact ⟨_, (makes_syscall.ensureName name).map Value.word, fun _ _ => rfl⟩
  case pipeGet pid name =>
    exact ⟨_, (makes_syscall.ensureName name).map Value.word, fun _ _ => rfl⟩
  case pipeClose pipe =>
    exact ⟨_, ((makes_syscall.map low).ensure _).map Value.int, fun _ _ => rfl⟩
  case pipeRead pipe buffer size read =>
    exact ⟨_, (((makes_syscall.map low).ensure _).ensure _).map Value.int, fun _ _ => rfl⟩
  case pipeWrite pipe buffer size read =>
    exact ⟨_, (((makes_syscall.map low).ensure _).ensure _).map Value.int, fun _ _ => rfl⟩
  case fileRead file buffer bytesToRead readBytes =>
    exact ⟨_, (((makes_syscall.map low).ensure _).ensure _).map Value.int, fun _ _ => rfl⟩
  case readDir dir info =>
    exact ⟨_, ((makes_syscall.map low).ensure _).map Value.int, fun _ _ => rfl⟩
  case openFile path mode => exact ⟨_, makes_syscall.map Value.word, fun _ _ => rfl⟩
  case sbrk increment => exact ⟨_, makes_syscall.map Value.word, fun _ _ => rfl⟩
  case getFileSize file => exact ⟨_, (makes_syscall.ensure _).map Value.word, fun _ _ => rfl⟩
  case openDir path => exact ⟨_, (makes_syscall.ensure _).map Value.word, fun _ _ => rfl⟩
  case closeFile file =>
    exact ⟨_, ((makes_syscall.map fun _ => ()).ensure _).map fun _ => Value.void, fun _ _ => rfl⟩
  case closeDir dir =>
    exact ⟨_, ((makes_syscall.map fun _ => ()).ensure _).map fun _ => Value.void, fun _ _ => rfl⟩
  case exit status => exact ⟨_, hvoid _ _, fun _ _ => rfl⟩
  case pollMessage w msg =>
    exact ⟨_, (makes_sysPollMessage w msg).map Value.bool, fun _ _ => rfl⟩
  case waitMessage w msg =>
    exact ⟨_, (Makes.ensure (Makes.observe fun _ => makes_syscall.map fun _ => ()) _).map
      fun _ => Value.void, fun _ _ => rfl⟩
  all_goals first
    | exact ⟨_, hint _ _, fun _ _ => rfl⟩
    | exact ⟨_, hwindow _ _ _, fun _ _ => rfl⟩

/-- The handler of a single system call. -/
lemma reaches_of_call (hcall : w.call window = some (t, q)) : t.Reaches q ∧ t.args.length ≤ 8 := by
  have hvisible : ∀ b : Bool, decide (BitVec.ofNat 64 b.toNat = 0#64) = !b := by decide
  cases w <;> cases hcall
  all_goals
    refine ⟨Trap.reaches _ (by simp [pikaSyscalls]; rfl) ?_, by simp⟩
    simp +contextual [-Fin.ofNat_eq_cast, Loaded, hvisible, pikaSysExit, pikaSysSleep, pikaSysPrint,
      pikaSysSpawnArgs, pikaSysYield,
      pikaSysGetpid, pikaSysSchedSetPriority, pikaSysDebug, pikaSysSbrk, pikaSysGetFramebuffer,
      pikaSysPipeOpen, pikaSysPipeClose, pikaSysPipeGet, pikaSysPipeRead, pikaSysPipeWrite,
      pikaSysOpenFile, pikaSysCloseFile, pikaSysReadFile, pikaSysGetFileSize, pikaSysOpenDir,
      pikaSysCloseDir, pikaSysReadDir, pikaSysPollMsg, pikaSysWaitMsg, pikaSysWindowSetVisibility,
      pikaSysWindowGetVisibility, pikaSysWindowSetGeometry, pikaSysWindowGetGeometry,
      pikaSysWindowPresent, pikaSysGfxClear, pikaSysGfxDrawLine, pikaSysGfxDrawRect,
      pikaSysGfxFillRect, pikaSysGfxDrawText, pikaSysGfxBlit]

/-- A wrapper with a single system call agrees when it is read as the wrapper means it. -/
lemma agrees_of_call (hcall : w.call window = some (t, q))
    (hasks : ∀ {σ : Type} (e : Environment σ) fuel rest v s,
      w.run e fuel ⟨⟨window, rest⟩, []⟩ = some (v, s) → w.Asks e ⟨window, rest⟩ s.state pid q) :
    w.Agrees window pid := by
  intro σ e fuel rest v s hrun
  obtain ⟨f, hmakes, hreturns⟩ := makes_of_call (e := e) hcall fuel
  have hq := hasks e fuel rest v s hrun
  obtain ⟨rfl, rfl⟩ := Prod.mk.inj (hmakes rest _ hrun)
  exact .single (reaches_of_call hcall).1 hq (hreturns _ _)

/-- A user program alone with a kernel that gives it memory, a window and no messages. -/
def quiet : Environment Unit where
  svc := fun t s => match t.id with
    | .sbrk | .windowCreate => (1, s)
    | .pollMessage => (SysError.msgQueueEmpty.code, s)
    | _ => (0, s)
  stack := 0
  strlen := fun _ _ => 0
  load32 := fun _ _ => 0
  store64 := fun _ _ s => s
  memcpy := fun _ _ _ s => s

lemma asks_of_agrees (hcall : w.call window = some (t, q)) (h : w.Agrees window pid)
    (hrun : (w.run quiet 1 ⟨⟨window, ()⟩, []⟩).isSome) :
    ∃ p p' : Process Unit, p.window = window ∧ w.Asks quiet p p' pid q := by
  obtain ⟨⟨v, s⟩, hrun⟩ := Option.isSome_iff_exists.mp hrun
  obtain ⟨f, hmakes, -⟩ := makes_of_call (e := quiet) hcall 1
  have hagreed := h Unit quiet 1 () v s hrun
  obtain ⟨rfl, rfl⟩ := Prod.mk.inj (hmakes () _ hrun)
  have hdue : w.Due ⟨window, ()⟩ (quiet.after t ⟨⟨window, ()⟩, []⟩).calls := by
    cases w <;> trivial
  obtain ⟨c, hc, q', hreach, hasks, -⟩ := hagreed.issued hdue
  rw [List.mem_singleton.mp hc] at hreach
  obtain ⟨hreach', hargs⟩ := reaches_of_call hcall
  exact ⟨_, _, rfl, hreach.eq hreach' hargs ▸ hasks⟩

lemma fits_iff {n : BitVec 32} : n.toInt = n.toNat ↔ Fits n := by
  have hlt := n.isLt
  rw [BitVec.toInt_eq_toNat_cond, Fits]
  split_ifs <;> omega

lemma sysWindowSetGeometry_null {x y width height : BitVec 32}
    {s : Session (Trap × Word) (Process σ)} : e.sysWindowSetGeometry 0 x y width height s = none := by
  simp [sysWindowSetGeometry, windowSyscall]

lemma agrees_of_sound (hcall : w.call window = some (t, q)) (hsound : w.Sound window pid) :
    w.Agrees window pid := by
  apply agrees_of_call hcall
  intro σ e fuel rest v s hrun
  cases w <;> cases hcall
  case exit status => exact ⟨_, rfl, hsound⟩
  case sleep timeInS =>
    refine ⟨_, rfl, ?_⟩
    rw [BitVec.toNat_mul]
    exact Nat.mod_eq_of_lt hsound
  case schedSetPriority id priority => exact ⟨rfl, hsound⟩
  case schedGetPriority id priority => exact hsound.elim
  case windowSetGeometry w x y width height =>
    rcases hsound with rfl | ⟨hwidth, hheight⟩
    · rw [run, int, Program.bind_apply, sysWindowSetGeometry_null] at hrun
      exact absurd hrun (by simp)
    · exact ⟨_, _, rfl, fits_iff.mpr hwidth, fits_iff.mpr hheight⟩
  all_goals rfl

lemma sound_of_agrees (hcall : w.call window = some (t, q)) (h : w.Agrees window pid) :
    w.Sound window pid := by
  have hasks := asks_of_agrees hcall h
  cases w <;> cases hcall
  case exit status =>
    obtain ⟨p, p', -, c, hq, hc⟩ := hasks rfl
    cases hq
    exact hc
  case sleep timeInS =>
    obtain ⟨p, p', -, t, hq, ht⟩ := hasks rfl
    cases hq
    rw [Sound, ← ht]
    exact BitVec.isLt _
  case schedSetPriority id priority =>
    obtain ⟨p, p', -, -, hid⟩ := hasks rfl
    exact hid
  case schedGetPriority id priority =>
    obtain ⟨p, p', -, hq, -⟩ := hasks rfl
    cases hq
  case windowSetGeometry w x y width height =>
    by_cases hw : w = 0
    · exact .inl hw
    · have hrun : (run quiet 1 (windowSetGeometry w x y width height) ⟨⟨window, ()⟩, []⟩).isSome := by
        have hne : w ≠ 0#64 := hw
        simp [run, int, sysWindowSetGeometry, windowSyscall, handle, hne]
      obtain ⟨p, p', rfl, w', h', hq, hwidth, hheight⟩ := hasks hrun
      cases hq
      exact .inr ⟨fits_iff.mp hwidth, fits_iff.mp hheight⟩
  all_goals trivial

/-! ### Wrappers with several system calls -/

lemma agrees_spawn (path : Word) : (spawn path).Agrees window pid := by
  intro σ e fuel rest v s hrun
  have hreach := (reaches_of_call (show (spawn2 path 1 e.stack).call window = some (_, _) from rfl)).1
  obtain ⟨rfl, rfl⟩ := Prod.mk.inj (Option.some_inj.mp hrun)
  exact .single hreach rfl rfl

lemma reaches_windowDestroy (handle : Word) : Trap.Reaches ⟨.windowDestroy, [handle]⟩ (.windowDestroy handle) :=
  Trap.reaches pikaSysWindowDestroy (by simp [pikaSyscalls]) fun _ h => congrArg Request.windowDestroy h.1

lemma agrees_windowDestroy_iff (a : Word) :
    (windowDestroy a).Agrees window pid ↔ (windowDestroy a).Sound window pid := by
  constructor
  · intro h
    by_contra hsound
    obtain ⟨ha, hhandle⟩ := not_or.mp hsound
    have hrun : run quiet 1 (windowDestroy a) ⟨⟨window, ()⟩, []⟩ = some (.void, ⟨⟨window, ()⟩, []⟩) := by
      have ha' : a ≠ 0#64 := ha
      have hhandle' : (window a).kernelHandle ≠ 0#64 := hhandle
      simp [run, void, sysWindowDestroy, handle, ha', hhandle']
    obtain ⟨c, hc, -⟩ := (h Unit quiet 1 () _ _ hrun).issued ⟨ha, hhandle⟩
    exact absurd hc List.not_mem_nil
  · intro hsound σ e fuel rest v s hrun
    by_cases ha : a = 0
    · simp only [run, void, sysWindowDestroy, ha, if_true] at hrun
      obtain ⟨rfl, rfl⟩ := Prod.mk.inj (Option.some_inj.mp hrun)
      exact ⟨fun c hc => absurd hc List.not_mem_nil, fun hdue => absurd ha hdue.1⟩
    · have hhandle := hsound.resolve_left ha
      have hdone : run e fuel (windowDestroy a) ⟨⟨window, rest⟩, []⟩ =
          some (.void, e.after ⟨.windowDestroy, [0]⟩ ⟨⟨window, rest⟩, []⟩) := by
        have ha' : a ≠ 0#64 := ha
        simp [run, void, sysWindowDestroy, handle, ha', hhandle]
      obtain ⟨rfl, rfl⟩ := Prod.mk.inj (Option.some_inj.mp (hdone.symm.trans hrun))
      refine .single (reaches_windowDestroy 0) ?_ rfl
      rw [Asks, hhandle]

/-- The window has the handle. -/
def HasHandle (a handle : Word) (p : Process σ) : Prop := (p.window a).kernelHandle = handle

/-- The system call is handled as a request of this kind. -/
def Meets (D : Request → Prop) (c : Trap × Word) : Prop := ∃ q, c.1.Reaches q ∧ D q

section Keeps

variable {a handle : Word} {D : Request → Prop} {id : SyscallId} {args : List Word}

lemma keeps_syscall (hreach : Trap.Reaches ⟨id, args⟩ q) (hq : D q) :
    Program.Keeps (HasHandle a handle) (Meets D) (e.syscall id args) fun _ => True :=
  .call (fun _ h => h) (fun _ _ => ⟨q, hreach, hq⟩) fun _ _ => trivial

lemma keeps_windowSyscall (hreach : Trap.Reaches ⟨id, handle :: args⟩ q) (hq : D q) :
    Program.Keeps (HasHandle a handle) (Meets D) (e.windowSyscall id a args) fun _ => True := by
  refine .bind .ensure fun _ _ => .bind (.observe (Q := fun h => h = handle) fun _ h => h) ?_
  rintro _ rfl
  exact .bind (keeps_syscall hreach hq) fun _ _ => .pure trivial

lemma reaches_pollMessage (handle msg : Word) :
    Trap.Reaches ⟨.pollMessage, [handle, msg]⟩ (.pollMsg handle msg) :=
  (reaches_of_call
    (show (pollMessage 0 msg).call (fun _ => ⟨handle, 0, 0⟩) = some (_, _) from rfl)).1

lemma keeps_sysPollMessage {msg : Word} (hq : D (.pollMsg handle msg)) :
    Program.Keeps (HasHandle a handle) (Meets D) (e.sysPollMessage a msg) fun _ => True := by
  refine .bind .ensure fun _ _ => .bind (.observe (Q := fun h => h = handle) fun _ h => h) ?_
  rintro _ rfl
  exact .bind (keeps_syscall (reaches_pollMessage _ _) hq) fun _ _ => .pure trivial

lemma keeps_sysPollAllMessages (hq : D (.pollMsg handle e.stack)) (fuel : ℕ) :
    Program.Keeps (HasHandle a handle) (Meets D) (e.sysPollAllMessages a fuel) fun _ => True := by
  induction fuel with
  | zero => exact .fail
  | succ fuel ih =>
    exact .bind (keeps_sysPollMessage hq) fun _ _ => .ite (fun _ => ih) fun _ => .pure trivial

lemma reaches_sbrk (n : Word) : Trap.Reaches ⟨.sbrk, [n]⟩ (.sbrk n) :=
  (reaches_of_call (show (sbrk n).call (fun _ => ⟨0, 0, 0⟩) = some (_, _) from rfl)).1

lemma reaches_windowSetTitle (handle title : Word) :
    Trap.Reaches ⟨.windowSetTitle, [handle, title]⟩ (.windowSetTitle handle title) :=
  Trap.reaches pikaSysWindowSetTitle (by simp [pikaSyscalls]) fun regs h => by
    obtain ⟨h0, h1, -⟩ := h
    exact congrArg₂ Request.windowSetTitle h0 h1

lemma keeps_sysWindowSetTitle {title : Word} (hsbrk : ∀ n, D (.sbrk n))
    (hq : ∀ copy, D (.windowSetTitle handle copy)) :
    Program.Keeps (HasHandle a handle) (Meets D) (e.sysWindowSetTitle a title) fun _ => True := by
  refine .bind .ensure fun _ _ => .bind (.observe (Q := fun _ => True) fun _ _ => trivial) fun n _ => ?_
  refine .bind (keeps_syscall (reaches_sbrk n) (hsbrk n)) fun copy _ => ?_
  refine .bind (.observe (Q := fun w : SysWindow => w.kernelHandle = handle) fun _ h => h) fun w hw => ?_
  refine .bind (.perform fun p _ => ?_) fun _ _ => .ite (fun _ => .pure trivial) fun _ => ?_
  · simpa [HasHandle] using hw
  · refine .bind (.perform fun p h => h) fun _ _ => ?_
    rw [hw]
    exact .bind (keeps_syscall (reaches_windowSetTitle _ _) (hq copy)) fun _ _ => .pure trivial

lemma keeps_discardWindow (hq : D (.windowDestroy handle)) :
    Program.Keeps (HasHandle a handle) (Meets D) (e.discardWindow a) fun v => v = 0 := by
  refine .bind (Q := fun _ => True) (.ite (fun _ => .pure trivial) fun _ => ?_) fun _ _ => .pure rfl
  refine .bind (.observe (Q := fun h => h = handle) fun _ h => h) ?_
  rintro _ rfl
  refine .ite (fun _ => ?_) fun _ => .pure trivial
  exact .bind (keeps_syscall (reaches_windowDestroy _) hq) fun _ _ => .pure trivial

lemma keeps_configureWindow {title : Word} {x y width height : BitVec 32} (fuel : ℕ)
    (hsbrk : ∀ n, D (.sbrk n)) (htitle : ∀ copy, D (.windowSetTitle handle copy))
    (hgeometry : D (.windowSetGeometry handle x y width height))
    (hvisible : D (.windowSetVisibility handle true)) (hpoll : D (.pollMsg handle e.stack))
    (hdestroy : D (.windowDestroy handle)) :
    Program.Keeps (HasHandle a handle) (Meets D) (e.configureWindow fuel a title x y width height)
      fun v => v = 0 ∨ v = a := by
  have hdiscard : Program.Keeps (HasHandle a handle) (Meets D) (e.discardWindow a)
      fun v => v = 0 ∨ v = a := (keeps_discardWindow hdestroy).mono fun _ => .inl
  have hset := (reaches_of_call (show (windowSetGeometry a x y width height).call
    (fun _ => ⟨handle, 0, 0⟩) = some (_, _) from rfl)).1
  have hshow := (reaches_of_call (show (windowSetVisibility a true).call
    (fun _ => ⟨handle, 0, 0⟩) = some (_, _) from rfl)).1
  refine .bind (keeps_sysWindowSetTitle hsbrk htitle) fun _ _ => .ite (fun _ => hdiscard) fun _ => ?_
  refine .bind (keeps_windowSyscall hset hgeometry) fun _ _ => .ite (fun _ => hdiscard) fun _ => ?_
  refine .bind (keeps_windowSyscall hshow hvisible) fun _ _ => .ite (fun _ => hdiscard) fun _ => ?_
  exact .bind (keeps_sysPollAllMessages hpoll fuel) fun _ _ => .pure (.inr rfl)

end Keeps

lemma agrees_pollAllMessages (a : Word) : (pollAllMessages a).Agrees window pid := by
  intro σ e fuel rest v s hrun
  obtain ⟨r, hr, hrun⟩ := Option.bind_eq_some_iff.mp hrun
  obtain ⟨rfl, rfl⟩ := Prod.mk.inj (Option.some_inj.mp hrun)
  let poll : Trap := ⟨.pollMessage, [(window a).kernelHandle, e.stack]⟩
  let asked : Request → Prop := fun q => q = .pollMsg (window a).kernelHandle e.stack
  have hreach : Trap.Reaches poll (.pollMsg (window a).kernelHandle e.stack) := reaches_pollMessage _ _
  cases fuel with
  | zero => exact absurd hr (by simp [sysPollAllMessages])
  | succ fuel =>
    -- a message is asked for at least once
    obtain ⟨first, hfirst, hr⟩ := Option.bind_eq_some_iff.mp hr
    rw [makes_sysPollMessage a e.stack rest first hfirst] at hr
    have hkeeps : Program.Keeps (HasHandle a (window a).kernelHandle) (Meets asked)
        (if decide ((e.svc poll rest).1 = 0) = true then e.sysPollAllMessages a fuel else pure ())
        fun _ => True :=
      .ite (fun _ => keeps_sysPollAllMessages (D := asked) rfl fuel) fun _ => .pure trivial
    obtain ⟨-, -, l, hl, hall⟩ := hkeeps (e.after poll ⟨⟨window, rest⟩, []⟩) r rfl hr
    have hcalls : r.2.calls = (poll, (e.svc poll rest).1) :: l := hl
    constructor
    · intro c hc
      rw [hcalls] at hc
      rcases List.mem_cons.mp hc with rfl | hc
      · exact ⟨_, hreach, .inl rfl⟩
      · obtain ⟨q, hq, rfl⟩ := hall c hc
        exact ⟨_, hq, .inl rfl⟩
    · intro _
      exact ⟨_, hcalls ▸ List.mem_cons_self, _, hreach, rfl, rfl⟩

lemma agrees_windowSetTitle (a title : Word) : (windowSetTitle a title).Agrees window pid := by
  intro σ e fuel rest v s hrun
  simp only [run, int, sysWindowSetTitle, malloc, sysSbrk, setWindow, Program.bind_apply,
    Program.ensure_apply, Program.observe_apply, Program.perform_apply, syscall_apply,
    syscallInt_apply, Program.ite_apply, Option.bind_some, Program.pure_apply] at hrun
  by_cases hnull : a ≠ 0 ∧ title ≠ 0
  · rw [if_pos hnull, Option.bind_some] at hrun
    let alloc : Trap := ⟨.sbrk, [e.strlen title rest + 1]⟩
    have halloc : Trap.Reaches alloc (.sbrk (e.strlen title rest + 1)) := reaches_sbrk _
    by_cases hcopy : (e.svc alloc rest).1 = 0
    · rw [if_pos hcopy, Option.bind_some] at hrun
      obtain ⟨rfl, rfl⟩ := Prod.mk.inj (Option.some_inj.mp hrun)
      constructor
      · intro c hc
        rw [List.mem_singleton.mp hc]
        exact ⟨_, halloc, .inr trivial⟩
      · intro hdue
        exact absurd hcopy (hdue _ rfl)
    · rw [if_neg hcopy, Option.bind_some] at hrun
      obtain ⟨rfl, rfl⟩ := Prod.mk.inj (Option.some_inj.mp hrun)
      have htitle := reaches_windowSetTitle (window a).kernelHandle (e.svc alloc rest).1
      have hasks : ∀ rest', (windowSetTitle a title).Asks e ⟨window, rest⟩
          ⟨Function.update window a { window a with title := (e.svc alloc rest).1 }, rest'⟩ pid
          (.windowSetTitle (window a).kernelHandle (e.svc alloc rest).1) := by
        simp [Asks]
      constructor
      · intro c hc
        rcases List.mem_cons.mp hc with rfl | hc
        · exact ⟨_, halloc, .inr trivial⟩
        · rw [List.mem_singleton.mp hc]
          exact ⟨_, htitle, .inl (hasks _)⟩
      · intro _
        exact ⟨_, List.mem_cons_of_mem _ (List.mem_singleton_self _), _, htitle, hasks _, rfl⟩
  · rw [if_neg hnull] at hrun
    exact absurd hrun (by simp)

lemma agrees_windowPresent (a : Word) : (windowPresent a).Agrees window pid := by
  intro σ e fuel rest v s hrun
  have hget : Trap.Reaches ⟨.windowGetGeometry, [(window a).kernelHandle, 0, 0, e.stack, e.stack + 4]⟩
      (.windowGetGeometry (window a).kernelHandle 0 0 e.stack (e.stack + 4)) :=
    (reaches_of_call (w := windowGetGeometry a 0 0 e.stack (e.stack + 4)) rfl).1
  have hpresent : ∀ width height, Trap.Reaches ⟨.windowPresent, [(window a).kernelHandle,
      (0 : BitVec 32).setWidth 64, (0 : BitVec 32).setWidth 64, width.setWidth 64, height.setWidth 64]⟩
      (.windowPresent (window a).kernelHandle 0 0 width height) :=
    fun width height => (reaches_of_call (w := windowPresent2 a 0 0 width height) rfl).1
  simp only [run, int, sysWindowPresent, sysWindowGetGeometry, sysWindowPresent2, windowSyscall, handle,
    Program.bind_apply, Program.ensure_apply, Program.observe_apply, syscallInt_apply] at hrun
  by_cases ha : a ≠ 0
  · simp only [if_pos ha, Option.bind_some] at hrun
    obtain ⟨rfl, rfl⟩ := Prod.mk.inj (Option.some_inj.mp hrun)
    constructor
    · intro c hc
      rcases List.mem_cons.mp hc with rfl | hc
      · exact ⟨_, hget, .inr ⟨rfl, rfl, rfl⟩⟩
      · rw [List.mem_singleton.mp hc]
        exact ⟨_, hpresent _ _, .inl ⟨_, _, rfl⟩⟩
    · intro _
      exact ⟨_, List.mem_cons_of_mem _ (List.mem_singleton_self _), _, hpresent _ _, ⟨_, _, rfl⟩, rfl⟩
  · rw [if_neg ha] at hrun
    exact absurd hrun (by simp)

lemma reaches_windowCreate (flags : BitVec 32) :
    Trap.Reaches ⟨.windowCreate, [flags.setWidth 64]⟩ (.windowCreate (flags.setWidth 64)) :=
  Trap.reaches pikaSysWindowCreate (by simp [pikaSyscalls]) fun _ h => congrArg Request.windowCreate h.1

lemma agrees_windowCreate {title : Word} {x y width height flags : BitVec 32}
    (hsound : (windowCreate title x y width height flags).Sound window pid) :
    (windowCreate title x y width height flags).Agrees window pid := by
  intro σ e fuel rest v s hrun
  obtain ⟨r, hr, hrun⟩ := Option.bind_eq_some_iff.mp hrun
  obtain ⟨rfl, rfl⟩ := Prod.mk.inj (Option.some_inj.mp hrun)
  obtain ⟨_, hensure, hr⟩ := Option.bind_eq_some_iff.mp hr
  rw [Program.ensure_apply] at hensure
  split_ifs at hensure with hnull
  obtain rfl := Option.some_inj.mp hensure
  obtain ⟨hwidth, hheight⟩ := hsound.resolve_left hnull
  let alloc : Trap := ⟨.sbrk, [sysWindowSize]⟩
  let create : Trap := ⟨.windowCreate, [flags.setWidth 64]⟩
  have halloc : Trap.Reaches alloc (.sbrk sysWindowSize) := reaches_sbrk _
  have hcreate : Trap.Reaches create (.windowCreate (flags.setWidth 64)) := reaches_windowCreate flags
  obtain ⟨_, hmalloc, hr⟩ := Option.bind_eq_some_iff.mp hr
  obtain rfl := Option.some_inj.mp hmalloc
  dsimp only at hr
  by_cases hwindow : (e.svc alloc rest).1 = 0
  · have hdiscard : ∀ w, e.discardWindow (e.svc alloc rest).1 w = some (0, w) := by
      intro w
      rw [hwindow]
      simp [discardWindow, sysWindowDestroy]
    rw [if_pos hwindow, hdiscard] at hr
    obtain rfl := Option.some_inj.mp hr
    constructor
    · intro c hc
      rw [List.mem_singleton.mp hc]
      exact ⟨_, halloc, .inr trivial⟩
    · exact fun hdue => absurd hwindow (hdue _ rfl)
  · rw [if_neg hwindow] at hr
    obtain ⟨_, hset, hr⟩ := Option.bind_eq_some_iff.mp hr
    obtain rfl := Option.some_inj.mp hset
    obtain ⟨_, hsvc, hr⟩ := Option.bind_eq_some_iff.mp hr
    obtain rfl := Option.some_inj.mp hsvc
    obtain ⟨_, hset, hr⟩ := Option.bind_eq_some_iff.mp hr
    obtain rfl := Option.some_inj.mp hset
    dsimp only at hr
    generalize hhandle : (e.svc create (e.svc alloc rest).2).1 = handle at hr
    let asked : Request → Prop := fun q => ∀ calls, Created calls handle →
      (windowCreate title x y width height flags).Helps ⟨window, rest⟩ calls q
    have hkeeps : Program.Keeps (HasHandle (e.svc alloc rest).1 handle) (Meets asked)
        (if handle = 0 then e.discardWindow (e.svc alloc rest).1
          else e.configureWindow fuel (e.svc alloc rest).1 title x y width height)
        fun v => v = 0 ∨ v = (e.svc alloc rest).1 := by
      have hdestroy : asked (.windowDestroy handle) := fun _ h => h
      refine .ite (fun _ => (keeps_discardWindow hdestroy).mono fun _ => .inl) fun _ => ?_
      exact keeps_configureWindow fuel (fun _ _ _ => trivial) (fun _ _ h => h)
        (fun _ h => ⟨h, rfl, rfl, fits_iff.mpr hwidth, fits_iff.mpr hheight⟩) (fun _ h => ⟨h, rfl⟩)
        (fun _ h => h) hdestroy
    have hstart : HasHandle (e.svc alloc rest).1 handle
        (⟨Function.update (Function.update window (e.svc alloc rest).1 ⟨0, flags, 0⟩)
          (e.svc alloc rest).1 ⟨handle, flags, 0⟩, (e.svc create (e.svc alloc rest).2).2⟩ : Process σ) := by
      simp [HasHandle]
    obtain ⟨hI, hv, l, hl, hall⟩ := hkeeps _ r hstart hr
    have hcalls : r.2.calls = (alloc, (e.svc alloc rest).1) :: (create, handle) :: l := hhandle ▸ hl
    have hcreated : Created r.2.calls handle := by
      refine ⟨(create, handle), ?_, rfl, rfl⟩
      rw [hcalls]
      exact List.mem_cons_of_mem _ List.mem_cons_self
    constructor
    · intro c hc
      rw [hcalls] at hc
      rcases List.mem_cons.mp hc with rfl | hc
      · exact ⟨_, halloc, .inr trivial⟩
      rcases List.mem_cons.mp hc with rfl | hc
      · exact ⟨_, hcreate, .inl rfl⟩
      · obtain ⟨q, hq, hasked⟩ := hall c hc
        exact ⟨q, hq, .inr (hasked _ hcreated)⟩
    · intro _
      refine ⟨(create, handle), ?_, _, hcreate, rfl, r.1, rfl, fun hne => ?_⟩
      · rw [hcalls]
        exact List.mem_cons_of_mem _ List.mem_cons_self
      · rw [hv.resolve_left hne]
        exact hI

/-- A window that is created and configured without an error. -/
lemma run_quiet_windowCreate {title : Word} {x y width height flags : BitVec 32} (hnull : title ≠ 0) :
    ∃ v s, run quiet 1 (windowCreate title x y width height flags) ⟨⟨window, ()⟩, []⟩ = some (v, s) ∧
      ∃ a, (⟨.windowSetGeometry, [1, x.signExtend 64, y.signExtend 64, width.setWidth 64,
        height.setWidth 64]⟩, a) ∈ s.calls := by
  have hnull' : title ≠ 0#64 := hnull
  have hempty : SysError.msgQueueEmpty.code = 5#64 := rfl
  simp [run, word, sysWindowCreate, malloc, sysSbrk, setWindow, configureWindow, sysWindowSetTitle,
    sysWindowSetGeometry, sysWindowSetVisibility, windowSyscall, handle, sysPollAllMessages,
    sysPollMessage, quiet, after, isOk, low, hnull', hempty]

lemma sound_of_windowCreate {title : Word} {x y width height flags : BitVec 32}
    (h : (windowCreate title x y width height flags).Agrees window pid) :
    (windowCreate title x y width height flags).Sound window pid := by
  by_cases hnull : title = 0
  · exact .inl hnull
  obtain ⟨v, s, hrun, a, hmem⟩ := run_quiet_windowCreate hnull
  obtain ⟨q, hreach, hq⟩ := (h Unit quiet 1 () v s hrun).reaches _ hmem
  have hset := reaches_of_call (show (windowSetGeometry 0 x y width height).call
    (fun _ => ⟨1, 0, 0⟩) = some (_, _) from rfl)
  cases hreach.eq hset.1 hset.2
  rcases hq with hasks | ⟨-, -, -, hwidth, hheight⟩
  · cases hasks
  · exact .inr ⟨fits_iff.mp hwidth, fits_iff.mp hheight⟩

/-- The wrappers agree with the handlers when they do not ask for the priority, destroy no window that has a
handle, name no other process, and have arguments that the handler's types have as well. -/
theorem agrees_iff_sound (window : Word → SysWindow) (pid : BitVec 32) (w : Wrapper) :
    w.Agrees window pid ↔ w.Sound window pid := by
  cases hcall : w.call window with
  | some tq => exact ⟨sound_of_agrees hcall, agrees_of_sound hcall⟩
  | none =>
    cases w with
    | spawn path => exact iff_of_true (agrees_spawn path) trivial
    | windowCreate title x y width height flags => exact ⟨sound_of_windowCreate, agrees_windowCreate⟩
    | windowDestroy a => exact agrees_windowDestroy_iff a
    | pollAllMessages a => exact iff_of_true (agrees_pollAllMessages a) trivial
    | windowSetTitle a title => exact iff_of_true (agrees_windowSetTitle a title) trivial
    | windowPresent a => exact iff_of_true (agrees_windowPresent a) trivial
    | _ => cases hcall

/-- The system call for the priority of a task sets it. -/
theorem not_agrees_schedGetPriority :
    ¬(schedGetPriority 0 0x1000).Agrees (fun _ => ⟨0, 0, 0⟩) 1 :=
  fun h => sound_of_agrees rfl h

end Wrapper

end PiKachulm.Syscalls

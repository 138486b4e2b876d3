import PiKachulm.Libk.Utils
import Mathlib.Data.Fintype.EquivFin
import Mathlib.Tactic.FinCases
import Mathlib.Tactic.IntervalCases

/-!
# Registers

The registers of a task: the frame that an exception pushes, the vector registers and the stack
pointer, and how `TaskSavedState` saves and restores them.
-/

namespace PiKachulm.Hardware

/-- `x0` to `x30`, and `xzr`. -/
abbrev GPRegisters := Fin 32 → BitVec 64

/-- `v0` to `v31`; in memory they are next to each other. -/
abbrev FPURegisters := Fin 32 → BitVec 128

/-! ### Vector registers -/

/-- `st1` or `ld1` with four registers, from `first` on, at the address of an operand. The post-index
form advances the operand by 64 bytes, which are four registers. -/
structure Transfer where
  first : ℕ
  operand : Fin 4
  postIndex : Bool

namespace FPURegisters

/-- The operands `%0` to `%3` are the addresses of `v0`, `v8`, `v16` and `v24`. -/
def operands (i : Fin 4) : ℕ := 8 * i

/-- The instructions of `save`, and those of `restore`. -/
def transfers : List Transfer :=
  [⟨0, 0, false⟩, ⟨4, 0, true⟩, ⟨8, 1, false⟩, ⟨12, 1, true⟩,
    ⟨16, 2, false⟩, ⟨20, 2, true⟩, ⟨24, 3, false⟩, ⟨28, 3, true⟩]

/-- The operands after an instruction. -/
def advance (ops : Fin 4 → ℕ) (i : Transfer) : Fin 4 → ℕ :=
  if i.postIndex then Function.update ops i.operand (ops i.operand + 4) else ops

/-- `st1`. -/
def st1 (v : FPURegisters) (r : (Fin 4 → ℕ) × FPURegisters) (i : Transfer) : (Fin 4 → ℕ) × FPURegisters :=
  (advance r.1 i, fun n =>
    if r.1 i.operand ≤ n.1 ∧ n.1 < r.1 i.operand + 4 then v (Fin.ofNat 32 (i.first + (n.1 - r.1 i.operand)))
    else r.2 n)

/-- `ld1`. -/
def ld1 (mem : FPURegisters) (r : (Fin 4 → ℕ) × FPURegisters) (i : Transfer) : (Fin 4 → ℕ) × FPURegisters :=
  (advance r.1 i, fun n =>
    if i.first ≤ n.1 ∧ n.1 < i.first + 4 then mem (Fin.ofNat 32 (r.1 i.operand + (n.1 - i.first)))
    else r.2 n)

/-- The memory after the registers `v` have been saved in it. -/
def save (mem v : FPURegisters) : FPURegisters := (transfers.foldl (st1 v) (operands, mem)).2

/-- The registers after they have been restored from memory. -/
def restore (mem v : FPURegisters) : FPURegisters := (transfers.foldl (ld1 mem) (operands, v)).2

/-- The register of the second half of a group of eight, at the place of `n` in its half. -/
def upper (n : Fin 32) : Fin 32 := ⟨8 * (n.1 / 8) + 4 + n.1 % 4, by omega⟩

/-- Both halves of each group of eight registers are the same. -/
def Paired (v : FPURegisters) : Prop := ∀ n, v (upper n) = v n

instance (v : FPURegisters) : Decidable (Paired v) := inferInstanceAs (Decidable (∀ _, _))

variable {mem v w : FPURegisters} {n : Fin 32}

/-- The second `st1` of each group overwrites what the first one has stored. -/
lemma save_apply : save mem v n = if n.1 % 8 < 4 then v (upper n) else mem n := by
  fin_cases n <;> rfl

/-- Both `ld1` of a group read the first half of it. -/
lemma restore_apply : restore mem v n = mem ⟨8 * (n.1 / 8) + n.1 % 4, by omega⟩ := by
  fin_cases n <;> rfl

lemma restore_save_apply : restore (save mem v) w n = v (upper n) := by
  rw [restore_apply, save_apply]
  fin_cases n <;> rfl

/-- What has been saved is restored exactly when both halves of the groups are the same. -/
lemma restore_save_eq_iff : restore (save mem v) w = v ↔ Paired v := by
  rw [funext_iff]
  exact forall_congr' fun n => by rw [restore_save_apply]

end FPURegisters

/-! ### The frame of an exception -/

/-- The frame on the stack. -/
structure Registers where
  gpRegs : GPRegisters
  elr : BitVec 64
  spsr : BitVec 64
  esr : BitVec 64

/-- The registers that are not part of the frame, and the memory that is active. -/
structure Cpu where
  simd : FPURegisters
  spEl0 : BitVec 64
  activeMemory : Option ℕ

/-- The condition flags. -/
def nzcv (spsr : BitVec 64) : BitVec 4 := spsr.extractLsb 31 28

namespace Registers

/-- The exception class. -/
def ec (regs : Registers) : BitVec 64 := (regs.esr >>> 26) &&& 0x3F

def setError (regs : Registers) (error : BitVec 64) : Registers :=
  { regs with gpRegs := Function.update regs.gpRegs 0 error }

def stepBackOneInst (regs : Registers) : Registers :=
  if regs.esr &&& (1 <<< 25) ≠ 0 then { regs with elr := regs.elr - 4 } else { regs with elr := regs.elr - 2 }

end Registers

/-! ### Saved states -/

/-- Memories are named by the addresses of their objects. -/
structure TaskSavedState where
  gpRegs : GPRegisters
  fpuRegs : FPURegisters
  memory : Option ℕ
  pc : BitVec 64
  sp : BitVec 64
  isKernel : Bool

namespace TaskSavedState

def save (state : TaskSavedState) (regs : Registers) (cpu : Cpu) : TaskSavedState :=
  { state with
    gpRegs := regs.gpRegs
    fpuRegs := FPURegisters.save state.fpuRegs cpu.simd
    pc := regs.elr
    sp := cpu.spEl0 }

/-- `restore`, on the frame: of `spsr` only the mode is set. -/
def restoreRegs (state : TaskSavedState) (regs : Registers) : Registers :=
  { regs with
    gpRegs := state.gpRegs
    elr := state.pc
    spsr := if state.isKernel then (regs.spsr &&& ~~~0b1111) ||| 0b0100 else regs.spsr &&& ~~~0b1111 }

/-- `restore`, on the other registers. -/
def restoreCpu (state : TaskSavedState) (cpu : Cpu) : Cpu where
  simd := FPURegisters.restore state.fpuRegs cpu.simd
  spEl0 := state.sp
  activeMemory := state.memory.or cpu.activeMemory

variable {state : TaskSavedState} {regs : Registers}

/-- The condition flags stay those of the frame. -/
lemma nzcv_restoreRegs : nzcv (state.restoreRegs regs).spsr = nzcv regs.spsr := by
  apply BitVec.eq_of_getLsbD_eq
  intro i hi
  rw [restoreRegs]
  interval_cases i <;> cases state.isKernel <;> simp [nzcv]

end TaskSavedState

end PiKachulm.Hardware

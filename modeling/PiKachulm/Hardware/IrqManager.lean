import Mathlib.Algebra.Order.Ring.Nat
import Mathlib.Logic.Function.Basic
import Mathlib.Tactic.Common

/-!
# Interrupt dispatch

`IRQManager` keeps a table of callbacks for each kind of interrupt, `BCM2837_IRQManager` finds out from
three pending registers which interrupt to handle. The tables are arrays: what lies outside is not theirs.
-/

namespace PiKachulm.Hardware

inductive IrqType where
  | armCore
  | videoCore
  deriving DecidableEq

structure Irq where
  type : IrqType
  id : ℕ
  deriving DecidableEq

def armcIrqNb : ℕ := 7

def vcIrqNb : ℕ := 64

def armcTimer : Irq := ⟨.armCore, 0⟩

def armcMailbox : Irq := ⟨.armCore, 1⟩

def armcDoorbell0 : Irq := ⟨.armCore, 2⟩

def armcDoorbell1 : Irq := ⟨.armCore, 3⟩

def armcGpu0Halted : Irq := ⟨.armCore, 4⟩

def armcGpu1Halted : Irq := ⟨.armCore, 5⟩

def armcIllegalAccessType1 : Irq := ⟨.armCore, 6⟩

def armcIllegalAccessType0 : Irq := ⟨.armCore, 7⟩

/-- `VC_TIMER_BASE`, for the timer `n`. -/
def vcTimer (n : ℕ) : Irq := ⟨.videoCore, 0 + n⟩

def vcAux : Irq := ⟨.videoCore, 29⟩

/-- `VC_GPIO_BASE`, for the bank `n`. -/
def vcGpio (n : ℕ) : Irq := ⟨.videoCore, 49 + n⟩

def vcI2c : Irq := ⟨.videoCore, 53⟩

def vcSpi : Irq := ⟨.videoCore, 54⟩

def vcPcm : Irq := ⟨.videoCore, 55⟩

def vcUart : Irq := ⟨.videoCore, 57⟩

def vcEmmc : Irq := ⟨.videoCore, 62⟩

/-! ### The controller -/

/-- What is read from `IRQ_PEND_BASIC`, `IRQ_PEND_1` and `IRQ_PEND_2`. -/
structure Pending where
  basic : BitVec 32
  vc1 : BitVec 32
  vc2 : BitVec 32

/-- `enable_irq`; `false` when it panics. -/
def enableIrq (irq : Irq) : Bool :=
  match irq.type with
  | .armCore   => !(irq.id > 7)
  | .videoCore => !(irq.id / 32 % 2 ^ 8 > 1)

/-- A chain of `FILL_IRQ`. -/
def fillIrq (register : BitVec 32) : List (ℕ × Irq) → Option Irq
  | []                => none
  | (bit, irq) :: bits => if register.getLsbD bit then some irq else fillIrq register bits

def vc1Bits : List (ℕ × Irq) :=
  [(0, vcTimer 0), (1, vcTimer 1), (2, vcTimer 2), (3, vcTimer 3), (29, vcAux)]

def vc2Bits : List (ℕ × Irq) :=
  [(17, vcGpio 0), (18, vcGpio 1), (19, vcGpio 2), (20, vcGpio 3), (21, vcI2c), (22, vcSpi),
    (23, vcPcm), (25, vcUart), (30, vcEmmc)]

def basicBits : List (ℕ × Irq) :=
  [(0, armcTimer), (1, armcMailbox), (2, armcDoorbell0), (3, armcDoorbell1), (4, armcGpu0Halted),
    (5, armcGpu1Halted), (6, armcIllegalAccessType1), (7, armcIllegalAccessType0), (15, vcI2c),
    (16, vcSpi), (17, vcPcm), (19, vcUart), (20, vcEmmc)]

def Pending.fillVc1 (c : Pending) : Option Irq := fillIrq c.vc1 vc1Bits

def Pending.fillVc2 (c : Pending) : Option Irq := fillIrq c.vc2 vc2Bits

def Pending.hasPendingInterrupt (c : Pending) : Option Irq :=
  (fillIrq c.basic basicBits).or <|
    (if c.basic.getLsbD 8 then c.fillVc1 else none).or <|
      if c.basic.getLsbD 9 then c.fillVc2 else none

/-! ### The manager -/

/-- The address of a callback, 0 when there is none, and its handle. -/
structure CallBackAssoc where
  cb : ℕ := 0
  cbHandle : ℕ := 0
  deriving DecidableEq

def tableSize : IrqType → ℕ
  | .armCore   => armcIrqNb
  | .videoCore => vcIrqNb

/-- The interrupt has a place in its table. -/
def Irq.Inside (irq : Irq) : Prop := irq.id < tableSize irq.type

instance (irq : Irq) : Decidable irq.Inside := inferInstanceAs (Decidable (_ < _))

/-- `armc_handler` and `vc_handler`. -/
abbrev HandlerTables := Irq → CallBackAssoc

/-- The write of `register_irq_handler`; `none` when it is not in the table. -/
def writeHandler (t : HandlerTables) (irq : Irq) (assoc : CallBackAssoc) : Option HandlerTables :=
  if irq.Inside then some (Function.update t irq assoc) else none

/-- What becomes of the tables; the answer of `activate_irq` is `enableIrq`. -/
def registerAll : HandlerTables → List (Irq × CallBackAssoc) → Option HandlerTables
  | t, []                   => some t
  | t, (irq, assoc) :: regs => do
    let t ← writeHandler t irq assoc
    registerAll t regs

inductive IrqEvent where
  | call (assoc : CallBackAssoc)
  | panic
  | outside
  deriving DecidableEq

/-- `handle_interrupts`, with what the registers hold at each turn of the loop. -/
def handleInterrupts (t : HandlerTables) : List Pending → List IrqEvent
  | []      => []
  | c :: cs =>
    match c.hasPendingInterrupt with
    | none     => []
    | some irq =>
      if irq.Inside then
        if (t irq).cb = 0 then [.panic] else .call (t irq) :: handleInterrupts t cs
      else [.outside]

/-! ### What dispatch should do -/

/-- The callback last registered for an interrupt. -/
def lastRegistered (regs : List (Irq × CallBackAssoc)) (irq : Irq) : Option CallBackAssoc :=
  (regs.reverse.find? fun reg => reg.1 = irq).map Prod.snd

/-- The interrupts of the second core that the basic register shows too. -/
def shortcuts : List (ℕ × ℕ) := [(15, 53), (16, 54), (17, 55), (18, 56), (19, 57), (20, 62)]

/-- The bit of the interrupt is set, in its own register or through a shortcut. -/
def Pending.SourcePending (c : Pending) (irq : Irq) : Prop :=
  irq.type = .armCore ∧ c.basic.getLsbD irq.id = true ∨
    irq.type = .videoCore ∧
      ((if irq.id < 32 then c.vc1 else c.vc2).getLsbD (irq.id % 32) = true ∨
        ∃ bit, (bit, irq.id) ∈ shortcuts ∧ c.basic.getLsbD bit = true)

/-- One after the other, the pending interrupts get the callbacks last registered for them. -/
def dispatch (regs : List (Irq × CallBackAssoc)) : List Pending → List IrqEvent
  | []      => []
  | c :: cs =>
    match c.hasPendingInterrupt with
    | none     => []
    | some irq =>
      match lastRegistered regs irq with
      | none       => [.panic]
      | some assoc => if assoc.cb = 0 then [.panic] else .call assoc :: dispatch regs cs

/-- Nothing is written or read outside the tables, what is found is pending, and it gets its callback. -/
structure Dispatches (regs : List (Irq × CallBackAssoc)) (cs : List Pending) : Prop where
  registered : (registerAll (fun _ => {}) regs).isSome
  found : ∀ c ∈ cs, ∀ irq, c.hasPendingInterrupt = some irq → irq.Inside ∧ c.SourcePending irq
  handled : ∀ t, registerAll (fun _ => {}) regs = some t → handleInterrupts t cs = dispatch regs cs

/-- An illegal access of type 0 is all that the first bits show. -/
def Pending.ShowsIllegalAccess0 (c : Pending) : Prop :=
  c.basic.getLsbD 7 = true ∧ ∀ bit < 7, c.basic.getLsbD bit = false

/-! ### Which interrupt is found -/

variable {register : BitVec 32} {bits : List (ℕ × Irq)} {irq : Irq} {c : Pending} {cs : List Pending}
  {regs : List (Irq × CallBackAssoc)} {t t' : HandlerTables} {assoc : CallBackAssoc}

lemma fillIrq_eq_some (h : fillIrq register bits = some irq) :
    ∃ bit, (bit, irq) ∈ bits ∧ register.getLsbD bit = true := by
  induction bits with
  | nil => cases h
  | cons x bits ih =>
    obtain ⟨bit, irq'⟩ := x
    rw [fillIrq] at h
    split at h
    next hbit =>
      cases h
      exact ⟨bit, List.mem_cons_self, hbit⟩
    · obtain ⟨bit, hmem, hbit⟩ := ih h
      exact ⟨bit, List.mem_cons_of_mem _ hmem, hbit⟩

lemma hasPendingInterrupt_cases (h : c.hasPendingInterrupt = some irq) :
    fillIrq c.basic basicBits = some irq ∨ c.fillVc1 = some irq ∨ c.fillVc2 = some irq := by
  rw [Pending.hasPendingInterrupt, Option.or_eq_some_iff, Option.or_eq_some_iff] at h
  rcases h with h | ⟨-, h | ⟨-, h⟩⟩
  · exact .inl h
  · exact .inr (.inl (Option.ite_none_right_eq_some.mp h).2)
  · exact .inr (.inr (Option.ite_none_right_eq_some.mp h).2)

/-- Each bit of the registers stands for a pending source. -/
lemma sourcePending_of_found (h : c.hasPendingInterrupt = some irq) : c.SourcePending irq := by
  rcases hasPendingInterrupt_cases h with h | h | h
  · obtain ⟨bit, hmem, hbit⟩ := fillIrq_eq_some h
    have hall : ∀ x ∈ basicBits, x.2.type = .armCore ∧ x.2.id = x.1 ∨
        x.2.type = .videoCore ∧ (x.1, x.2.id) ∈ shortcuts := by decide
    rcases hall _ hmem with ⟨htype, hid⟩ | ⟨htype, hid⟩
    · exact .inl ⟨htype, by rwa [hid]⟩
    · exact .inr ⟨htype, .inr ⟨bit, hid, hbit⟩⟩
  · obtain ⟨bit, hmem, hbit⟩ := fillIrq_eq_some h
    have hall : ∀ x ∈ vc1Bits, x.2.type = .videoCore ∧ x.2.id < 32 ∧ x.2.id % 32 = x.1 := by decide
    obtain ⟨htype, hlt, hid⟩ := hall _ hmem
    exact .inr ⟨htype, .inl (by rwa [if_pos hlt, hid])⟩
  · obtain ⟨bit, hmem, hbit⟩ := fillIrq_eq_some h
    have hall : ∀ x ∈ vc2Bits, x.2.type = .videoCore ∧ ¬x.2.id < 32 ∧ x.2.id % 32 = x.1 := by decide
    obtain ⟨htype, hge, hid⟩ := hall _ hmem
    exact .inr ⟨htype, .inl (by rwa [if_neg hge, hid])⟩

/-- Only an illegal access of type 0 has no place in its table. -/
lemma inside_of_found (h : c.hasPendingInterrupt = some irq) (hne : irq ≠ armcIllegalAccessType0) :
    irq.Inside := by
  have hall : ∀ x ∈ basicBits ++ vc1Bits ++ vc2Bits, x.2 = armcIllegalAccessType0 ∨ x.2.Inside := by decide
  have hmem : ∃ bit, (bit, irq) ∈ basicBits ++ vc1Bits ++ vc2Bits := by
    rcases hasPendingInterrupt_cases h with h | h | h
    · obtain ⟨bit, hmem, -⟩ := fillIrq_eq_some h
      exact ⟨bit, List.mem_append_left _ (List.mem_append_left _ hmem)⟩
    · obtain ⟨bit, hmem, -⟩ := fillIrq_eq_some h
      exact ⟨bit, List.mem_append_left _ (List.mem_append_right _ hmem)⟩
    · obtain ⟨bit, hmem, -⟩ := fillIrq_eq_some h
      exact ⟨bit, List.mem_append_right _ hmem⟩
  obtain ⟨bit, hmem⟩ := hmem
  exact (hall _ hmem).resolve_left hne

/-- An interrupt of a chain is found when its bit is set and none of those before it is. -/
lemma fillIrq_append_iff {bit : ℕ} {pre post : List (ℕ × Irq)} (hpre : ∀ x ∈ pre, x.2 ≠ irq)
    (hpost : ∀ x ∈ post, x.2 ≠ irq) : fillIrq register (pre ++ (bit, irq) :: post) = some irq ↔
      register.getLsbD bit = true ∧ ∀ x ∈ pre, register.getLsbD x.1 = false := by
  induction pre with
  | nil =>
    rw [List.nil_append, fillIrq]
    constructor
    · intro h
      split at h
      next hbit => exact ⟨hbit, fun x hx => absurd hx List.not_mem_nil⟩
      · obtain ⟨bit', hmem, -⟩ := fillIrq_eq_some h
        exact absurd rfl (hpost _ hmem)
    · rintro ⟨hbit, -⟩
      rw [if_pos hbit]
  | cons x pre ih =>
    obtain ⟨hx, hpre⟩ := List.forall_mem_cons.mp hpre
    rw [List.cons_append, fillIrq, List.forall_mem_cons]
    by_cases hbit : register.getLsbD x.1 = true
    · simp [hbit, hx]
    · simp [hbit, ih hpre]

/-- It is found when no bit before its own is set. -/
lemma found_illegalAccess0_iff :
    c.hasPendingInterrupt = some armcIllegalAccessType0 ↔ c.ShowsIllegalAccess0 := by
  have hchain : fillIrq c.basic basicBits = some armcIllegalAccessType0 ↔ c.ShowsIllegalAccess0 := by
    have hpre : ∀ x ∈ basicBits.take 7, x.2 ≠ armcIllegalAccessType0 := by decide
    have hpost : ∀ x ∈ basicBits.drop 8, x.2 ≠ armcIllegalAccessType0 := by decide
    refine (@fillIrq_append_iff _ _ 7 _ _ hpre hpost).trans (and_congr_right fun _ => ?_)
    have hbits : ∀ bit < 7, ∃ x ∈ basicBits.take 7, x.1 = bit := by decide
    have hlt : ∀ x ∈ basicBits.take 7, x.1 < 7 := by decide
    constructor
    · intro h bit hbit
      obtain ⟨x, hx, rfl⟩ := hbits bit hbit
      exact h x hx
    · exact fun h x hx => h x.1 (hlt x hx)
  rw [← hchain]
  constructor
  · intro h
    rcases hasPendingInterrupt_cases h with h | h | h
    · exact h
    · obtain ⟨bit, hmem, -⟩ := fillIrq_eq_some h
      exact absurd rfl ((by decide : ∀ x ∈ vc1Bits, x.2 ≠ armcIllegalAccessType0) _ hmem)
    · obtain ⟨bit, hmem, -⟩ := fillIrq_eq_some h
      exact absurd rfl ((by decide : ∀ x ∈ vc2Bits, x.2 ≠ armcIllegalAccessType0) _ hmem)
  · intro h
    rw [Pending.hasPendingInterrupt, h, Option.some_or]

/-! ### Registration -/

/-- Where all interrupts have a place, the tables hold what was registered last. -/
lemma registerAll_eq (h : ∀ reg ∈ regs, reg.1.Inside) :
    registerAll t regs = some fun irq => (lastRegistered regs irq).getD (t irq) := by
  induction regs generalizing t with
  | nil => rfl
  | cons reg regs ih =>
    obtain ⟨irq', assoc⟩ := reg
    obtain ⟨hreg, hregs⟩ := List.forall_mem_cons.mp h
    rw [registerAll, writeHandler, if_pos hreg, Option.bind_eq_bind, Option.bind_some, ih hregs]
    congr 1
    funext irq
    have hlast : lastRegistered ((irq', assoc) :: regs) irq =
        (lastRegistered regs irq).or (if irq' = irq then some assoc else none) := by
      rw [lastRegistered, List.reverse_cons, List.find?_append, Option.map_or, lastRegistered]
      by_cases heq : irq' = irq
      · simp [heq]
      · simp [heq]
    rw [hlast]
    cases lastRegistered regs irq with
    | some assoc' => rfl
    | none =>
      by_cases heq : irq' = irq
      · subst heq
        simp
      · simp [heq, Function.update_of_ne (Ne.symm heq)]

lemma registerAll_isSome_iff : (registerAll t regs).isSome ↔ ∀ reg ∈ regs, reg.1.Inside := by
  constructor
  · induction regs generalizing t with
    | nil => exact fun _ reg hreg => absurd hreg List.not_mem_nil
    | cons reg regs ih =>
      intro h
      rw [registerAll, writeHandler] at h
      by_cases hreg : reg.1.Inside
      · rw [if_pos hreg] at h
        exact List.forall_mem_cons.mpr ⟨hreg, ih h⟩
      · rw [if_neg hreg] at h
        cases h
  · intro h
    rw [registerAll_eq h]
    rfl

/-! ### The loop -/

lemma handleInterrupts_eq (hregs : ∀ reg ∈ regs, reg.1.Inside)
    (hcs : ∀ c ∈ cs, ¬c.ShowsIllegalAccess0) (ht : registerAll (fun _ => {}) regs = some t) :
    handleInterrupts t cs = dispatch regs cs := by
  rw [registerAll_eq hregs, Option.some.injEq] at ht
  induction cs with
  | nil => rfl
  | cons c cs ih =>
    obtain ⟨hc, hcs⟩ := List.forall_mem_cons.mp hcs
    rw [handleInterrupts, dispatch]
    cases hfound : c.hasPendingInterrupt with
    | none => rfl
    | some irq =>
      have hne : irq ≠ armcIllegalAccessType0 := by
        rintro rfl
        exact hc (found_illegalAccess0_iff.mp hfound)
      have hentry : t irq = (lastRegistered regs irq).getD {} := (congrFun ht irq).symm
      dsimp only
      rw [if_pos (inside_of_found hfound hne), hentry, ih hcs]
      cases lastRegistered regs irq <;> rfl

/-- An interrupt that the controller takes is outside its table when it is the one that the table is too
short for, or when the number of its register wraps. -/
lemma inside_iff_of_enabled (h : enableIrq irq = true) :
    irq.Inside ↔ irq ≠ armcIllegalAccessType0 ∧ irq.id < 2 ^ 13 := by
  obtain ⟨type, id⟩ := irq
  cases type with
  | armCore =>
    have hle : id ≤ 7 := by simpa [enableIrq] using h
    have hne : (⟨.armCore, id⟩ : Irq) ≠ armcIllegalAccessType0 ↔ id ≠ 7 := by
      simp [armcIllegalAccessType0]
    rw [hne, Irq.Inside, tableSize, armcIrqNb]
    dsimp only
    omega
  | videoCore =>
    have hle : id / 32 % 2 ^ 8 ≤ 1 := by simpa [enableIrq] using h
    have hne : (⟨.videoCore, id⟩ : Irq) ≠ armcIllegalAccessType0 := by simp [armcIllegalAccessType0]
    rw [and_iff_right hne, Irq.Inside, tableSize, vcIrqNb]
    dsimp only
    omega

/-- When no registration panics, interrupts are dispatched as they should be exactly when none has been
registered that has no place in its table, and no illegal access of type 0 comes up. -/
theorem dispatches_iff (hpanic : ∀ reg ∈ regs, enableIrq reg.1 = true) : Dispatches regs cs ↔
    (∀ reg ∈ regs, reg.1 ≠ armcIllegalAccessType0 ∧ reg.1.id < 2 ^ 13) ∧
      ∀ c ∈ cs, ¬c.ShowsIllegalAccess0 := by
  have hinside : (∀ reg ∈ regs, reg.1.Inside) ↔
      ∀ reg ∈ regs, reg.1 ≠ armcIllegalAccessType0 ∧ reg.1.id < 2 ^ 13 :=
    forall₂_congr fun reg hreg => inside_iff_of_enabled (hpanic reg hreg)
  rw [← hinside]
  constructor
  · intro h
    refine ⟨registerAll_isSome_iff.mp h.registered, fun c hc hshows => ?_⟩
    exact absurd (h.found c hc _ (found_illegalAccess0_iff.mpr hshows)).1 (by decide)
  · rintro ⟨hregs, hcs⟩
    refine ⟨registerAll_isSome_iff.mpr hregs, fun c hc irq hfound => ?_,
      fun t ht => handleInterrupts_eq hregs hcs ht⟩
    refine ⟨inside_of_found hfound ?_, sourcePending_of_found hfound⟩
    rintro rfl
    exact hcs c hc (found_illegalAccess0_iff.mp hfound)

/-- Timer 1 and the UART, registered and pending one after the other. -/
theorem dispatches_timer : Dispatches [(vcTimer 1, ⟨0x80000, 1⟩), (vcUart, ⟨0x90000, 0⟩)]
    [⟨0x100, 0x2, 0⟩, ⟨0x80000, 0, 0⟩, ⟨0, 0, 0⟩] := by
  refine (dispatches_iff (by decide)).mpr ⟨by decide, fun c hc hshows => ?_⟩
  have hbits : ∀ c ∈ ([⟨0x100, 0x2, 0⟩, ⟨0x80000, 0, 0⟩, ⟨0, 0, 0⟩] : List Pending),
      c.basic.getLsbD 7 = false := by simp
  exact Bool.false_ne_true ((hbits c hc).symm.trans hshows.1)

/-- An illegal access of type 0 can be registered, which writes after the end of its table; that it comes up
is enough for a read there. -/
theorem not_dispatches_illegal_access :
    (enableIrq armcIllegalAccessType0 = true ∧
      ¬Dispatches [(armcIllegalAccessType0, ⟨0x80000, 0⟩)] []) ∧
    ¬Dispatches [] [⟨0x80, 0, 0⟩] := by
  refine ⟨⟨by decide, fun h => ?_⟩, fun h => ?_⟩
  · exact absurd h.registered (by decide)
  · exact absurd (h.found _ List.mem_cons_self armcIllegalAccessType0 (by decide)).1 (by decide)

end PiKachulm.Hardware

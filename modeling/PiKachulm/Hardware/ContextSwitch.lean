import PiKachulm.Hardware.Interrupts

/-!
# Context switches

A run of exceptions is watched: for every task, the context that it had at its last exception is
remembered. When the handler returns, the current task runs, in this context. Of the vector registers
and of the condition flags this is so only when the context switch happens to do no harm to them.
-/

namespace PiKachulm.Hardware

open Tasks

/-- What a task has in the registers. -/
structure Context where
  gpRegs : GPRegisters
  pc : BitVec 64
  sp : BitVec 64
  simd : FPURegisters
  flags : BitVec 4

/-- The general registers, the program counter and the stack pointer. -/
abbrev Core := GPRegisters × BitVec 64 × BitVec 64

def Context.core (c : Context) : Core := (c.gpRegs, c.pc, c.sp)

def TaskSavedState.core (state : TaskSavedState) : Core := (state.gpRegs, state.pc, state.sp)

/-- What is in the registers. -/
def Machine.context (m : Machine) : Context :=
  ⟨m.regs.gpRegs, m.regs.elr, m.cpu.spEl0, m.cpu.simd, nzcv m.regs.spsr⟩

/-- The machine, and for every task the context after its last exception was handled; a task that has
not been started has the one that it was created with. -/
structure Watched where
  machine : Machine
  latest : TaskPtr → Context
  started : TaskPtr → Bool

namespace Watched

/-- The state when the task manager is ready. -/
def start (m : Machine) : Watched where
  machine := m
  latest u := ⟨(m.saved u).gpRegs, (m.saved u).pc, (m.saved u).sp, (m.saved u).fpuRegs, 0⟩
  started _ := false

/-- The context of the task that was interrupted, when the work of the handlers is done. -/
def note (w : Watched) (m m' : Machine) : TaskPtr → Context :=
  match m.manager.currentTask with
  | none   => w.latest
  | some t => Function.update w.latest t m'.context

/-- The current task is interrupted, and the exception is handled. -/
def step (w : Watched) (e : Exception) : Option Watched :=
  let m := w.machine.enter e
  (m.handle e).bind fun m' => (m.exceptionHandler e).map fun m'' => {
    machine := m''
    latest := w.note m m'
    started := fun t => w.started t || decide (m.manager.currentTask = some t) }

def runAll (w : Watched) (es : List Exception) : Option Watched := es.foldlM step w

/-- The current task runs in its latest context, and the contexts of the others are saved. -/
structure OnlyCurrent (w : Watched) : Prop where
  current : ∃ t, w.machine.manager.currentTask = some t ∧ w.machine.manager.states t = .running ∧
    w.machine.context.core = (w.latest t).core ∧
    ∀ memory, (w.machine.saved t).memory = some memory → w.machine.cpu.activeMemory = some memory
  others : ∀ u, w.machine.manager.currentTask ≠ some u → w.machine.manager.states u ≠ .terminated →
    (w.machine.saved u).core = (w.latest u).core

end Watched

/-- The task manager is ready, and the first task has been selected in a run of its functions. -/
structure Start (m : Machine) : Prop where
  ready : m.ready
  reaches : TaskManager.Reaches m.manager
  current : ∃ t, m.manager.currentTask = some t ∧
    ∀ memory, (m.saved t).memory = some memory → m.cpu.activeMemory = some memory

variable {m m' m'' : Machine} {e : Exception} {w w' : Watched} {t u : TaskPtr} {old : Option TaskPtr}
  {es : List Exception}

namespace Machine

/-! ### The work of the handlers -/

/-- What the handlers leave: the task manager stays consistent, and nothing is saved or restored. -/
structure Works (m m' : Machine) : Prop where
  scheduled : m.manager.Scheduled → m'.manager.Scheduled
  terminated : m.manager.Scheduled → ∀ u, m.manager.states u = .terminated → m'.manager.states u = .terminated
  ready : m'.ready = m.ready
  saved : m'.saved = m.saved
  cpu : m'.cpu = m.cpu
  spsr : m'.regs.spsr = m.regs.spsr

lemma works_call {ops : List TaskManager.Op} (h : m.call ops = some m') : Works m m' ∧ m'.regs = m.regs := by
  obtain ⟨s', hs', rfl⟩ := Option.map_eq_some_iff.mp h
  exact ⟨⟨fun hsched => (hsched.runAll hs').1, fun hsched => (hsched.runAll hs').2, rfl, rfl, rfl, rfl⟩, rfl⟩

lemma spsr_apply {answer : Answer} {regs : Registers} : (answer.apply regs).spsr = regs.spsr := by
  cases answer with
  | none            => rfl
  | setError error  => rfl
  | stepBackOneInst =>
    rw [Answer.apply, Registers.stepBackOneInst]
    split_ifs <;> rfl

lemma works_doSyscall (h : m.doSyscall e = some m') : Works m m' := by
  obtain ⟨m₁, h₁, rfl⟩ := Option.map_eq_some_iff.mp h
  obtain ⟨hworks, -⟩ := works_call h₁
  exact ⟨hworks.scheduled, hworks.terminated, hworks.ready, hworks.saved, hworks.cpu,
    spsr_apply.trans hworks.spsr⟩

lemma works_killCurrent (h : m.killCurrent e = some m') : Works m m' := by
  rw [killCurrent] at h
  split at h
  · cases h
  · exact (works_call h).1

lemma works_handle (h : m.handle e = some m') : Works m m' := by
  rw [handle] at h
  split_ifs at h
  · exact (works_call h).1
  · exact works_doSyscall h
  · rw [doUserspaceInterrupt] at h
    split_ifs at h
    · exact works_doSyscall h
    · exact works_killCurrent h
  · exact works_killCurrent h

lemma Works.trans {m₁ m₂ m₃ : Machine} (h : Works m₁ m₂) (h' : Works m₂ m₃) : Works m₁ m₃ where
  scheduled hsched := h'.scheduled (h.scheduled hsched)
  terminated hsched u ht := h'.terminated (h.scheduled hsched) u (h.terminated hsched u ht)
  ready := h'.ready.trans h.ready
  saved := h'.saved.trans h.saved
  cpu := h'.cpu.trans h.cpu
  spsr := h'.spsr.trans h.spsr

lemma currentTask_enter : (m.enter e).manager.currentTask = m.manager.currentTask := by
  rw [enter]
  dsimp only
  split
  · rfl
  · split_ifs <;> rfl

lemma states_enter : (m.enter e).manager.states = m.manager.states := by
  rw [enter]
  dsimp only
  split
  · rfl
  · split_ifs
    · exact TaskManager.states_setTask_of_eq rfl
    · rfl

lemma scheduled_enter (h : m.manager.Scheduled) : (m.enter e).manager.Scheduled := by
  rw [enter]
  dsimp only
  split
  · exact h
  · split_ifs
    · exact h.setTask rfl rfl
    · exact h

lemma exceptionHandler_eq :
    m.exceptionHandler e = (m.handle e).bind fun m' => m'.switchContext e m.manager.currentTask := by
  rw [exceptionHandler, if_neg]
  rintro ⟨-, -, hfalse⟩
  cases hfalse

/-! ### The switch -/

/-- What the context switcher does: either the old task goes on, or it is saved and the current one
is restored. -/
lemma switchContext_eq_some (hready : m.ready) (h : m.switchContext e old = some m'') :
    ∃ m', Works m m' ∧ m'.regs = m.regs ∧ ((m'.manager.currentTask = old ∧ m'' = m') ∨
      ∃ t, m'.manager.currentTask = some t ∧ old ≠ some t ∧ m'' = { m' with
        saved := m'.saveOld old
        regs := (m'.saveOld old t).restoreRegs m'.regs
        cpu := (m'.saveOld old t).restoreCpu m'.cpu }) := by
  rw [switchContext, if_neg (by simpa using hready)] at h
  obtain ⟨m', hcall, h⟩ := Option.bind_eq_some_iff.mp h
  obtain ⟨hworks, hregs⟩ := works_call hcall
  refine ⟨m', hworks, hregs, ?_⟩
  rw [switchFrom] at h
  split_ifs at h with hcur
  · cases h
    exact .inl ⟨hcur, rfl⟩
  · split at h
    · cases h
    · rename_i t ht
      cases h
      exact .inr ⟨t, ht, fun heq => hcur (ht.trans heq.symm), rfl⟩

lemma saveOld_of_ne (hne : old ≠ some u) : m.saveOld old u = m.saved u := by
  cases old with
  | none   => rfl
  | some t =>
    rw [saveOld]
    split_ifs
    · rfl
    · rw [Function.update_of_ne]
      rintro rfl
      exact hne rfl

lemma saveOld_self (ht : m.manager.states t ≠ .terminated) :
    m.saveOld (some t) t = (m.saved t).save m.regs m.cpu := by
  rw [saveOld, if_neg (mt TaskManager.isTerminated_iff_states.mp ht), Function.update_self]

/-- The current task runs. -/
lemma running_of_currentTask (h : m.manager.Scheduled) (ht : m.manager.currentTask = some t) :
    m.manager.states t = .running := by
  rw [TaskManager.Scheduled, TaskManager.Places, ht] at h
  exact TaskManager.isRunning_iff_states.mp h.active_of_slot

end Machine

namespace Watched

/-! ### Steps -/

/-- The invariant of a run. -/
structure Good (w : Watched) : Prop where
  ready : w.machine.ready
  scheduled : w.machine.manager.Scheduled
  current : ∃ t, w.machine.manager.currentTask = some t ∧
    ∀ memory, (w.machine.saved t).memory = some memory → w.machine.cpu.activeMemory = some memory
  core : ∀ u, w.machine.manager.currentTask ≠ some u → w.machine.manager.states u ≠ .terminated →
    (w.machine.saved u).core = (w.latest u).core
  simd : ∀ u, w.machine.manager.currentTask ≠ some u → w.machine.manager.states u ≠ .terminated →
    w.started u → ∀ v, FPURegisters.restore (w.machine.saved u).fpuRegs v =
      (w.latest u).simd ∘ FPURegisters.upper

/-- The task goes on after its own exception. -/
def GoesOn (w w' : Watched) (t : TaskPtr) : Prop :=
  w.machine.manager.currentTask = some t ∧ w'.machine.context = w'.latest t

/-- Another task is resumed: its vector registers are the upper halves of what they were, and the
condition flags are those of the task that was interrupted. -/
structure Resumes (w : Watched) (e : Exception) (w' : Watched) (t : TaskPtr) : Prop where
  other : w.machine.manager.currentTask ≠ some t
  started : w'.started t = w.started t
  latest : w'.latest t = w.latest t
  core : w'.machine.context.core = (w.latest t).core
  simd : w.started t → w'.machine.context.simd = (w.latest t).simd ∘ FPURegisters.upper
  flags : w'.machine.context.flags = nzcv e.regs.spsr

lemma step_eq_some (hs : w.step e = some w') : ∃ m', (w.machine.enter e).handle e = some m' ∧
    m'.switchContext e w.machine.manager.currentTask = some w'.machine ∧
      w'.latest = w.note (w.machine.enter e) m' ∧
        ∀ t, w'.started t = (w.started t || decide (w.machine.manager.currentTask = some t)) := by
  obtain ⟨m', hhandle, hs⟩ := Option.bind_eq_some_iff.mp hs
  obtain ⟨m'', hm'', rfl⟩ := Option.map_eq_some_iff.mp hs
  rw [Machine.exceptionHandler_eq, hhandle, Option.bind_some, Machine.currentTask_enter] at hm''
  exact ⟨m', hhandle, hm'', rfl, fun t => by rw [Machine.currentTask_enter]⟩

lemma note_self (ht : m.manager.currentTask = some t) : w.note m m' t = m'.context := by
  rw [note, ht]
  exact Function.update_self ..

lemma note_of_ne (hu : m.manager.currentTask ≠ some u) : w.note m m' u = w.latest u := by
  rw [note]
  cases hcur : m.manager.currentTask with
  | none   => rfl
  | some t =>
    dsimp only
    rw [Function.update_of_ne]
    rintro rfl
    exact hu hcur

/-- What is known when the work of the handlers is done, in the state `m`, and a marked task has been
killed. -/
structure Worked (w : Watched) (e : Exception) (w' : Watched) (old : TaskPtr) (m : Machine) : Prop where
  current : w.machine.manager.currentTask = some old
  ready : m.ready
  scheduled : m.manager.Scheduled
  saved : m.saved = w.machine.saved
  activeMemory : m.cpu.activeMemory = w.machine.cpu.activeMemory
  flags : m.context.flags = nzcv e.regs.spsr
  latest : w'.latest old = m.context
  other : ∀ u, old ≠ u → m.manager.states u ≠ .terminated →
    w.machine.manager.currentTask ≠ some u ∧ w.machine.manager.states u ≠ .terminated ∧
      w'.latest u = w.latest u ∧ w'.started u = w.started u

lemma Good.worked (h : w.Good) (hs : w.step e = some w') : ∃ old m, Worked w e w' old m ∧
    ((m.manager.currentTask = some old ∧ w'.machine = m) ∨
      ∃ t, m.manager.currentTask = some t ∧ old ≠ t ∧ w'.machine = { m with
        saved := m.saveOld (some old)
        regs := (m.saveOld (some old) t).restoreRegs m.regs
        cpu := (m.saveOld (some old) t).restoreCpu m.cpu }) := by
  obtain ⟨m₁, hhandle, hswitch, hlatest, hstarted⟩ := step_eq_some hs
  obtain ⟨old, hold, -⟩ := h.current
  have hold' : (w.machine.enter e).manager.currentTask = some old := Machine.currentTask_enter.trans hold
  have hworks₁ := Machine.works_handle hhandle
  have hsched := Machine.scheduled_enter (e := e) h.scheduled
  obtain ⟨m, hworks₂, hregs, hcases⟩ :=
    Machine.switchContext_eq_some (hworks₁.ready.trans h.ready) hswitch
  have hworks := hworks₁.trans hworks₂
  refine ⟨old, m, ?_, ?_⟩
  · refine ⟨hold, hworks.ready.trans h.ready, hworks.scheduled hsched, hworks.saved, ?_, ?_, ?_, ?_⟩
    · rw [hworks.cpu]
      rfl
    · rw [Machine.context, hworks.spsr]
      rfl
    · rw [hlatest, note_self hold', Machine.context, Machine.context, hregs, hworks₂.cpu]
    · intro u hne hterm
      have hcur : some old ≠ some u := fun heq => hne (Option.some.inj heq)
      refine ⟨hold ▸ hcur, fun hterm' => hterm (hworks.terminated hsched u ?_), ?_, ?_⟩
      · rw [Machine.states_enter, hterm']
      · rw [hlatest, note_of_ne (hold' ▸ hcur)]
      · rw [hstarted, hold, decide_eq_false hcur, Bool.or_false]
  · rw [hold] at hcases
    rcases hcases with hcase | ⟨t, hcur, hne, heq⟩
    · exact .inl hcase
    · exact .inr ⟨t, hcur, fun hot => hne (hot ▸ rfl), heq⟩

/-- The old task goes on. -/
lemma Good.goesOn (h : w.Good) (hm : Worked w e w' t m) (hcur : m.manager.currentTask = some t)
    (heq : w'.machine = m) : w'.Good ∧ w.GoesOn w' t := by
  have hother : ∀ u, m.manager.currentTask ≠ some u → t ≠ u := fun u hu htu => hu (htu ▸ hcur)
  refine ⟨⟨heq ▸ hm.ready, heq ▸ hm.scheduled, ⟨t, heq ▸ hcur, ?_⟩, ?_, ?_⟩, hm.current, ?_⟩
  · obtain ⟨old, hold, hmemory⟩ := h.current
    rw [hm.current] at hold
    cases hold
    rw [heq, hm.saved, hm.activeMemory]
    exact hmemory
  · rw [heq, hm.saved]
    intro u hu hterm
    obtain ⟨hu', hterm', hlatest, -⟩ := hm.other u (hother u hu) hterm
    rw [hlatest]
    exact h.core u hu' hterm'
  · rw [heq, hm.saved]
    intro u hu hterm
    obtain ⟨hu', hterm', hlatest, hstarted⟩ := hm.other u (hother u hu) hterm
    rw [hlatest, hstarted]
    exact h.simd u hu' hterm'
  · rw [heq, hm.latest]

variable {o : TaskPtr}

/-- Another task is resumed, and the old one is saved unless it is terminated. -/
lemma Good.resumes (h : w.Good) (hm : Worked w e w' o m) (hcur : m.manager.currentTask = some t)
    (hne : o ≠ t) (heq : w'.machine = { m with
      saved := m.saveOld (some o)
      regs := (m.saveOld (some o) t).restoreRegs m.regs
      cpu := (m.saveOld (some o) t).restoreCpu m.cpu }) : w'.Good ∧ w.Resumes e w' t := by
  have hnot : m.manager.states t ≠ .terminated := by
    rw [Machine.running_of_currentTask hm.scheduled hcur]
    exact nofun
  obtain ⟨hcur', hterm', hlatest', hstarted'⟩ := hm.other t hne hnot
  have hsaved : ∀ u, o ≠ u → m.saveOld (some o) u = w.machine.saved u := by
    intro u hou
    rw [Machine.saveOld_of_ne fun hou' => hou (Option.some.inj hou'), hm.saved]
  refine ⟨⟨heq ▸ hm.ready, heq ▸ hm.scheduled, ⟨t, heq ▸ hcur, ?_⟩, ?_, ?_⟩,
    hcur', hstarted', hlatest', ?_, ?_, ?_⟩
  · rw [heq]
    intro memory hmemory
    show (m.saveOld (some o) t).memory.or _ = some memory
    rw [hmemory]
    rfl
  · rw [heq]
    intro u hu hterm
    show (m.saveOld (some o) u).core = _
    by_cases hou : o = u
    · subst hou
      rw [Machine.saveOld_self (m := m) hterm, hm.latest]
      rfl
    · obtain ⟨hu', hterm', hlatest, -⟩ := hm.other u hou hterm
      rw [hsaved u hou, hlatest]
      exact h.core u hu' hterm'
  · rw [heq]
    intro u hu hterm hstarted v
    show FPURegisters.restore (m.saveOld (some o) u).fpuRegs v = _
    by_cases hou : o = u
    · subst hou
      rw [Machine.saveOld_self (m := m) hterm, hm.latest]
      exact funext fun n => FPURegisters.restore_save_apply
    · obtain ⟨hu', hterm', hlatest, hstarted'⟩ := hm.other u hou hterm
      rw [hstarted'] at hstarted
      rw [hsaved u hou, hlatest]
      exact h.simd u hu' hterm' hstarted v
  · rw [heq, hsaved t hne]
    exact h.core t hcur' hterm'
  · rw [heq, hsaved t hne]
    exact fun hstarted => h.simd t hcur' hterm' hstarted m.cpu.simd
  · rw [heq, ← hm.flags]
    exact TaskSavedState.nzcv_restoreRegs

/-- What a step of a run does: the old task goes on, or another one is resumed. -/
lemma Good.step (h : w.Good) (hs : w.step e = some w') : w'.Good ∧
    ∃ t, w'.machine.manager.currentTask = some t ∧ (w.GoesOn w' t ∨ w.Resumes e w' t) := by
  obtain ⟨old, m, hm, ⟨hcur, heq⟩ | ⟨t, hcur, hne, heq⟩⟩ := h.worked hs
  · obtain ⟨hgood, hgoes⟩ := h.goesOn hm hcur heq
    exact ⟨hgood, old, heq ▸ hcur, .inl hgoes⟩
  · obtain ⟨hgood, hresumes⟩ := h.resumes hm hcur hne heq
    exact ⟨hgood, t, heq ▸ hcur, .inr hresumes⟩

/-! ### Runs -/

lemma Good.runAll (h : w.Good) (hs : w.runAll es = some w') : w'.Good := by
  induction es generalizing w with
  | nil         =>
    cases hs
    exact h
  | cons e es ih =>
    rw [Watched.runAll, List.foldlM_cons] at hs
    obtain ⟨w₁, h₁, hs⟩ := Option.bind_eq_some_iff.mp hs
    exact ih (h.step h₁).1 hs

lemma good_start (h : Start m) : (start m).Good :=
  ⟨h.ready, TaskManager.scheduled_of_reaches h.reaches, h.current, fun _ _ _ => rfl, fun _ _ _ => nofun⟩

/-- When the handler returns, the task that is resumed finds its latest context. -/
def Invisible (w' : Watched) : Prop :=
  ∀ t, w'.machine.manager.currentTask = some t → w'.started t → w'.machine.context = w'.latest t

/-- If the handler switches to another task that was started before, the vector registers of this task
were the same in both halves of each group of eight, and its condition flags were those of the task
that is interrupted now. -/
def Harmless (w : Watched) (e : Exception) (w' : Watched) : Prop :=
  ∀ t, w'.machine.manager.currentTask = some t → w.machine.manager.currentTask ≠ some t → w.started t →
    (w.latest t).simd.Paired ∧ (w.latest t).flags = nzcv e.regs.spsr

/-- No context switch of the run is visible. -/
def AlwaysInvisible (w : Watched) : List Exception → Prop
  | []      => True
  | e :: es => ∀ w', w.step e = some w' → w'.Invisible ∧ w'.AlwaysInvisible es

/-- All context switches of the run are harmless. -/
def AlwaysHarmless (w : Watched) : List Exception → Prop
  | []      => True
  | e :: es => ∀ w', w.step e = some w' → w.Harmless e w' ∧ w'.AlwaysHarmless es

lemma Resumes.context_eq_iff (h : w.Resumes e w' t) (hstarted : w.started t) :
    w'.machine.context = w'.latest t ↔
      (w.latest t).simd.Paired ∧ (w.latest t).flags = nzcv e.regs.spsr := by
  have hcore := h.core
  rw [Context.core, Context.core, Prod.mk.injEq, Prod.mk.injEq] at hcore
  rw [h.latest, FPURegisters.Paired, ← h.flags]
  constructor
  · intro heq
    refine ⟨fun n => ?_, by rw [heq]⟩
    have hsimd := h.simd hstarted
    rw [heq] at hsimd
    exact (congrFun hsimd n).symm
  · rintro ⟨hpaired, hflags⟩
    have hsimd : w'.machine.context.simd = (w.latest t).simd :=
      (h.simd hstarted).trans (funext hpaired)
    cases hc : w'.machine.context
    cases hl : w.latest t
    rw [hc, hl] at hcore hsimd hflags
    obtain ⟨hregs, hpc, hsp⟩ := hcore
    cases hregs
    cases hpc
    cases hsp
    cases hsimd
    cases hflags
    rfl

/-- After every exception only the current task executes: it runs, it finds its latest context, and the
contexts of the other tasks are saved, those that are terminated apart. -/
theorem onlyCurrent_of_step (h : Start m) (hrun : (start m).runAll es = some w) (hs : w.step e = some w') :
    w'.OnlyCurrent := by
  obtain ⟨hgood, t, hcur, hcase⟩ := ((good_start h).runAll hrun).step hs
  refine ⟨⟨t, hcur, Machine.running_of_currentTask hgood.scheduled hcur, ?_, ?_⟩, hgood.core⟩
  · rcases hcase with hgoes | hresumes
    · rw [hgoes.2]
    · rw [hresumes.core, hresumes.latest]
  · obtain ⟨t', hcur', hmemory⟩ := hgood.current
    rw [hcur] at hcur'
    cases hcur'
    exact hmemory

lemma Good.invisible_iff (h : w.Good) (hs : w.step e = some w') : w'.Invisible ↔ w.Harmless e w' := by
  obtain ⟨-, t, hcur, hgoes | hresumes⟩ := h.step hs
  · refine iff_of_true (fun u hu _ => ?_) fun u hu hne => ?_
    · rw [hcur] at hu
      cases hu
      exact hgoes.2
    · rw [hcur] at hu
      cases hu
      exact (hne hgoes.1).elim
  · constructor
    · intro hinv u hu _ hstarted
      rw [hcur] at hu
      cases hu
      exact (hresumes.context_eq_iff hstarted).mp (hinv t hcur (hresumes.started.trans hstarted))
    · intro hharm u hu hstarted
      rw [hcur] at hu
      cases hu
      have hstarted' := hresumes.started.symm.trans hstarted
      exact (hresumes.context_eq_iff hstarted').mpr (hharm t hcur hresumes.other hstarted')

lemma Good.alwaysInvisible_iff_alwaysHarmless (h : w.Good) : w.AlwaysInvisible es ↔ w.AlwaysHarmless es := by
  induction es generalizing w with
  | nil         => exact Iff.rfl
  | cons e es ih => exact forall₂_congr fun w' hs => and_congr (h.invisible_iff hs) (ih (h.step hs).1)

end Watched

/-- In a run of exceptions the context switches are invisible exactly when each of them is harmless. -/
theorem alwaysInvisible_iff (h : Start m) (es : List Exception) :
    (Watched.start m).AlwaysInvisible es ↔ (Watched.start m).AlwaysHarmless es :=
  (Watched.good_start h).alwaysInvisible_iff_alwaysHarmless

/-! ### Two tasks -/

/-- A machine with two user tasks, of which the first one has been selected. -/
def twoTasks : Machine where
  manager := (TaskManager.created.runAll [.wakeTask 1, .wakeTask 2, .schedule]).getD TaskManager.created
  ready := true
  saved t := ⟨fun _ => 0, fun _ => 0, some t, 0x1000, 0x8000, false⟩
  regs := ⟨fun _ => 0, 0x1000, 0, 0⟩
  cpu := ⟨fun _ => 0, 0x8000, some 1⟩

lemma start_twoTasks : Start twoTasks := by
  have hrun : (TaskManager.created.runAll [.wakeTask 1, .wakeTask 2, .schedule]).isSome = true := by
    decide
  obtain ⟨s, hs⟩ := Option.isSome_iff_exists.mp hrun
  refine ⟨rfl, ?_, 1, by decide, fun memory h => h⟩
  rw [twoTasks, hs]
  exact (TaskManager.Reaches.start TaskManager.initial_created).runAll hs

/-- The timer interrupts a task, with the given first vector register and flags, and another task is
selected. -/
def timer (pc : BitVec 64) (v0 : BitVec 128) (spsr : BitVec 64) : Exception where
  source := .lowerAArch64
  kind := .irq
  regs := ⟨fun _ => 0, pc, spsr, 0⟩
  simd n := if n = 0 then v0 else 0
  spEl0 := 0x8000
  marksKill := false
  ops := [.tick, .schedule]
  answer := .none
  freed _ := []

/-- The current task calls `exit`. -/
def exit (t : TaskPtr) : Exception where
  source := .lowerAArch64
  kind := .synchronous
  regs := ⟨fun _ => 0, 0x1234, 0, 0b010101 <<< 26⟩
  simd _ := 0
  spEl0 := 0x8000
  marksKill := false
  ops := [.killTask (fun _ => []) t]
  answer := .none
  freed _ := []

theorem onlyCurrent_of_step_twoTasks : ∃ w w', (Watched.start twoTasks).runAll
    [timer 0x1004 7 0, exit 2] = some w ∧ w.step (timer 0x1008 0 0x40000000) = some w' ∧ w'.OnlyCurrent := by
  have hrun : (((Watched.start twoTasks).runAll [timer 0x1004 7 0, exit 2]).bind fun w =>
      w.step (timer 0x1008 0 0x40000000)).isSome = true := by
    decide +kernel
  obtain ⟨w', h⟩ := Option.isSome_iff_exists.mp hrun
  obtain ⟨w, hw, hw'⟩ := Option.bind_eq_some_iff.mp h
  exact ⟨w, w', hw, hw', Watched.onlyCurrent_of_step start_twoTasks hw hw'⟩

/-- Task 1 exits, and its context is not saved. -/
theorem not_saved_of_exit : ¬∀ w', (Watched.start twoTasks).step (exit 1) = some w' →
    ∀ u, w'.machine.manager.currentTask ≠ some u → (w'.machine.saved u).core = (w'.latest u).core := by
  intro h
  have hrun : ((Watched.start twoTasks).step (exit 1)).any (fun w' =>
      decide (w'.machine.manager.currentTask = some 2 ∧ (w'.machine.saved 1).pc = 0x1000 ∧
        (w'.latest 1).pc = 0x1234)) = true := by
    decide +kernel
  obtain ⟨w', hw', hdec⟩ := (Option.any_eq_true _ _).mp hrun
  obtain ⟨hcur, hsaved, hlatest⟩ := of_decide_eq_true hdec
  have hne : w'.machine.manager.currentTask ≠ some 1 := by
    rw [hcur]
    exact nofun
  have hpc := congrArg (fun core : Core => core.2.1) (h w' hw' 1 hne)
  change (w'.machine.saved 1).pc = (w'.latest 1).pc at hpc
  rw [hsaved, hlatest] at hpc
  cases hpc

/-- Task 1 is interrupted with zeros in the vector registers, and resumed after task 2, which leaves the flags
clear. -/
theorem alwaysInvisible_iff_twoTasks :
    (∃ w, (Watched.start twoTasks).runAll [timer 0x1004 0 0, timer 0x1008 7 0] = some w ∧
      w.machine.manager.currentTask = some 1 ∧ w.started 1) ∧
    (Watched.start twoTasks).AlwaysInvisible [timer 0x1004 0 0, timer 0x1008 7 0] := by
  have hrun : ((Watched.start twoTasks).runAll [timer 0x1004 0 0, timer 0x1008 7 0]).any (fun w =>
      decide (w.machine.manager.currentTask = some 1 ∧ w.started 1)) = true := by
    decide
  have hsecond : ((Watched.start twoTasks).step (timer 0x1004 0 0)).all (fun w =>
      (w.step (timer 0x1008 7 0)).all fun w' => decide (w'.machine.manager.currentTask = some 1 ∧
        (w.latest 1).simd.Paired ∧ (w.latest 1).flags = 0)) = true := by
    decide
  constructor
  · obtain ⟨w, hw, hresumed⟩ := (Option.any_eq_true _ _).mp hrun
    exact ⟨w, hw, of_decide_eq_true hresumed⟩
  · refine (alwaysInvisible_iff start_twoTasks _).mpr fun w hw => ⟨fun t _ _ => nofun, fun w' hw' => ⟨?_, trivial⟩⟩
    have hsecond' := (Option.all_eq_true _ _).mp ((Option.all_eq_true _ _).mp hsecond w hw) w' hw'
    obtain ⟨hcur, hpaired, hflags⟩ := of_decide_eq_true hsecond'
    intro t ht _ _
    rw [hcur] at ht
    cases ht
    exact ⟨hpaired, hflags⟩

/-- Task 1 had 7 in `v0` and clear flags. When it is resumed after task 2, which has set the flag `Z`,
`v0` is zero and `Z` is set. -/
theorem not_alwaysInvisible_twoTimers :
    ¬(Watched.start twoTasks).AlwaysInvisible [timer 0x1004 7 0, timer 0x1008 0 0x40000000] := by
  intro h
  have hrun : (((Watched.start twoTasks).step (timer 0x1004 7 0)).bind fun w =>
      w.step (timer 0x1008 0 0x40000000)).any (fun w' => decide (w'.machine.manager.currentTask = some 1 ∧
        w'.started 1 ∧ w'.machine.context.simd 0 = 0 ∧ (w'.latest 1).simd 0 = 7 ∧
          w'.machine.context.flags = 0b0100 ∧ (w'.latest 1).flags = 0)) = true := by
    decide
  obtain ⟨w', hw', hdec⟩ := (Option.any_eq_true _ _).mp hrun
  obtain ⟨w, hw, hw'⟩ := Option.bind_eq_some_iff.mp hw'
  obtain ⟨hcur, hstarted, hzero, hseven, -⟩ := of_decide_eq_true hdec
  have hinv := ((h w hw).2 w' hw').1 1 hcur hstarted
  rw [hinv, hseven] at hzero
  cases hzero

end PiKachulm.Hardware

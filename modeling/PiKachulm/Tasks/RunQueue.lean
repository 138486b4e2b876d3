import PiKachulm.Tasks.Places

/-!
# Run queues

In every run the running tasks are those in the current task and in the run queues, each of them once
and in the queue of its priority.
-/

namespace PiKachulm.Tasks

open Core

namespace TaskManager

variable {s s' : TaskManager} {t c : TaskPtr} {f : Task → Task} {freed : TaskPtr → List TaskPtr}

/-- The invariant of the scheduler: the running tasks are placed. -/
abbrev Scheduled (s : TaskManager) : Prop := s.Places fun t => s.isRunning t

/-! ### Operations -/

lemma Frame.scheduled (hframe : Frame s s') (h : s'.Places fun t => s.isRunning t) : s'.Scheduled :=
  h.congr fun t => by rw [hframe.isRunning]

/-- A task that has left its place stops running. -/
lemma scheduled_setTask (h : s.Places fun c => s.isRunning c ∧ c ≠ t)
    (hstate : (f (s.task t)).state ≠ .running) (hprio : (f (s.task t)).priority = (s.task t).priority) :
    (s.setTask t f).Scheduled := by
  rw [Scheduled, Places, getPriority_setTask hprio]
  refine h.congr fun c => ?_
  by_cases hc : c = t
  · subst hc
    simpa using hstate
  · rw [isRunning, task_setTask_of_ne hc]
    exact (and_iff_left hc).symm

/-- The tasks that run do so in their places when a task is woken. -/
lemma Wakes.scheduled (hw : Wakes s s')
    (h : s'.Places fun c => s.isRunning c ∨ (s'.isRunning c ∧ ¬s.isRunning c)) : s'.Scheduled := by
  refine h.congr fun c => ⟨fun hc => ?_, fun hc => hc.elim hw.isRunning And.left⟩
  by_cases hrun : s.isRunning c
  · exact .inl hrun
  · exact .inr ⟨hc, hrun⟩

lemma Scheduled.schedule (h : s.Scheduled) (hs : s.schedule = some s') : s'.Scheduled := by
  obtain ⟨s₁, h₁, hplaces, hframe⟩ := schedule_spec h fun _ hc => hc
  rw [h₁] at hs
  cases hs
  exact hframe.scheduled hplaces

lemma Scheduled.schedulerTick (h : s.Scheduled) (hs : s.schedulerTick = some s') : s'.Scheduled := by
  obtain ⟨s₁, h₁, hplaces, hframe⟩ := schedulerTick_spec h fun _ hc => hc
  rw [h₁] at hs
  cases hs
  exact hframe.scheduled hplaces

/-- `remove_task`, with what its callers do to the state of the task. -/
lemma Scheduled.removeTask (h : s.Scheduled) (hrun : s.isRunning t) :
    ∃ s₁, s.removeTask t = some (true, s₁) ∧ Frame s s₁ ∧
      s₁.Places fun c => s₁.isRunning c ∧ c ≠ t := by
  obtain ⟨s₁, h₁, hplaces, hframe⟩ := removeTask_spec h (fun _ hc => hc) hrun
  exact ⟨s₁, h₁, hframe, hplaces.congr fun c => by rw [hframe.isRunning]⟩

lemma Scheduled.wakeTask (h : s.Scheduled) (hs : s.wakeTask t = some s') : s'.Scheduled := by
  by_cases hterm : s.isTerminated t
  · rw [TaskManager.wakeTask, if_pos hterm] at hs
    cases hs
  · obtain ⟨s₁, h₁, -, hw, hp⟩ := wakeTask_spec hterm
    rw [h₁] at hs
    cases hs
    exact hw.scheduled (hp _ (fun _ hc => hc) h)

lemma pauseTask_eq_some (hs : s.pauseTask t = some s') : ¬s.isTerminated t ∧
    ((¬s.isRunning t ∧ s' = s) ∨ (s.isRunning t ∧ ∃ b s₁, s.removeTask t = some (b, s₁) ∧
      s' = s₁.setTask t fun t => { t with state := .uninterruptible })) := by
  rw [pauseTask] at hs
  split_ifs at hs with hterm hrun
  · cases hs
    exact ⟨hterm, .inl ⟨by simpa using hrun, rfl⟩⟩
  · obtain ⟨⟨b, s₁⟩, h₁, h⟩ := Option.bind_eq_some_iff.mp hs
    cases h
    exact ⟨hterm, .inr ⟨by simpa using hrun, b, s₁, h₁, rfl⟩⟩

lemma Scheduled.pauseTask (h : s.Scheduled) (hs : s.pauseTask t = some s') : s'.Scheduled := by
  obtain ⟨-, ⟨-, rfl⟩ | ⟨hrun, b, s₁, h₁, rfl⟩⟩ := pauseTask_eq_some hs
  · exact h
  · obtain ⟨s₂, h₂, -, hplaces⟩ := h.removeTask hrun
    rw [h₁] at h₂
    cases h₂
    exact scheduled_setTask hplaces nofun rfl

lemma sleepTask_eq_some {timeInUs : ℕ} (hs : s.sleepTask t timeInUs = some s') : ¬s.isTerminated t ∧
    ((¬s.isRunning t ∧ s' = s) ∨ (s.isRunning t ∧ ∃ b s₁, s.removeTask t = some (b, s₁) ∧
      s' = { s₁.setTask t fun t => { t with state := .interruptible } with
        items := DeltaQueue.addTask t (sleepTicks timeInUs) 0 s₁.items })) := by
  rw [sleepTask] at hs
  split_ifs at hs with hterm hrun
  · cases hs
    exact ⟨hterm, .inl ⟨by simpa using hrun, rfl⟩⟩
  · obtain ⟨⟨b, s₁⟩, h₁, h⟩ := Option.bind_eq_some_iff.mp hs
    dsimp only at h
    rw [addSleeping] at h
    split_ifs at h
    cases h
    exact ⟨hterm, .inr ⟨by simpa using hrun, b, s₁, h₁, rfl⟩⟩

lemma Scheduled.sleepTask {timeInUs : ℕ} (h : s.Scheduled) (hs : s.sleepTask t timeInUs = some s') :
    s'.Scheduled := by
  obtain ⟨-, ⟨-, rfl⟩ | ⟨hrun, b, s₁, h₁, rfl⟩⟩ := sleepTask_eq_some hs
  · exact h
  · obtain ⟨s₂, h₂, -, hplaces⟩ := h.removeTask hrun
    rw [h₁] at h₂
    cases h₂
    exact scheduled_setTask (f := fun t => { t with state := .interruptible }) hplaces nofun rfl

@[simp] lemma childrenRange_eq_nil : s.childrenRange t = [] := by
  simp [childrenRange, childrenBegin, childrenEnd]

/-- No child is killed: the range of the loop is empty. -/
lemma killTask_eq : s.killTask freed t =
    if s.isTerminated t then some s
    else (s.removeTask t).bind fun r => (r.2.wakeAll (freed t)).map fun s =>
      s.setTask t fun t => { t with state := .terminated } := by
  have hnil : (s.childrenRange t).attach = [] := List.attach_eq_nil_iff.mpr childrenRange_eq_nil
  rw [killTask, hnil, List.foldlM_nil, pure_bind]
  split_ifs
  · rfl
  · cases s.removeTask t with
    | none   => rfl
    | some r =>
      rw [Option.bind_eq_bind, Option.bind_some, Option.bind_some, Option.map_eq_bind]
      rfl

lemma killTask_eq_some (hs : s.killTask freed t = some s') :
    (s.isTerminated t ∧ s' = s) ∨ ∃ b s₁ s₂, s.removeTask t = some (b, s₁) ∧
      s₁.wakeAll (freed t) = some s₂ ∧ s' = s₂.setTask t fun t => { t with state := .terminated } := by
  rw [killTask_eq] at hs
  split_ifs at hs with hterm
  · cases hs
    exact .inl ⟨hterm, rfl⟩
  · obtain ⟨⟨b, s₁⟩, h₁, h⟩ := Option.bind_eq_some_iff.mp hs
    obtain ⟨s₂, h₂, rfl⟩ := Option.map_eq_some_iff.mp h
    exact .inr ⟨b, s₁, s₂, h₁, h₂, rfl⟩

lemma isRunning_of_removeTask {r : Bool × TaskManager} (hs : s.removeTask t = some r) : s.isRunning t := by
  by_contra hrun
  rw [removeTask, if_neg hrun] at hs
  cases hs

lemma Scheduled.killTask (h : s.Scheduled) (hs : s.killTask freed t = some s') : s'.Scheduled := by
  rcases killTask_eq_some hs with ⟨-, rfl⟩ | ⟨b, s₁, s₂, h₁, h₂, rfl⟩
  · exact h
  · obtain ⟨s₁', h₁', -, hplaces⟩ := h.removeTask (isRunning_of_removeTask h₁)
    rw [h₁] at h₁'
    cases h₁'
    obtain ⟨s₂', h₂', hw, hp⟩ := wakeAll_spec (s := s₁) (freed t)
    rw [h₂] at h₂'
    cases h₂'
    have hrun : s₁.isRunning t := by
      obtain ⟨s₁'', h₁'', hframe, -⟩ := h.removeTask (isRunning_of_removeTask h₁)
      rw [h₁] at h₁''
      cases h₁''
      rw [hframe.isRunning]
      exact isRunning_of_removeTask h₁
    refine scheduled_setTask ((hp _ (fun _ hc => hc.1) hplaces).congr fun c => ?_) nofun rfl
    by_cases hc : c = t
    · subst hc
      simp [hrun]
    · simp only [ne_eq, hc, not_false_eq_true, and_true]
      by_cases hrunc : s₁.isRunning c
      · simp [hrunc, hw.isRunning hrunc]
      · simp [hrunc]

/-- A task that is in no run queue may get another priority. -/
lemma rekey_setTask {active : TaskPtr → Prop} {currentTask : Option TaskPtr}
    {runQueue : Priority → List TaskPtr} (h : Placed currentTask runQueue s.getPriority active)
    (ht : ∀ p, t ∉ runQueue p) : Placed currentTask runQueue (s.setTask t f).getPriority active := by
  refine h.rekey fun p c hc => ?_
  have hne : c ≠ t := fun heq => ht p (heq ▸ hc)
  rw [getPriority, task_setTask_of_ne hne]
  rfl

lemma Scheduled.setTaskPriority {p : ℕ} {b : Bool} (h : s.Scheduled)
    (hs : s.setTaskPriority t p = some (b, s')) : s'.Scheduled := by
  rw [TaskManager.setTaskPriority] at hs
  split_ifs at hs with hterm hp
  · have hstate : ∀ c, (s.setTask t fun t => { t with priority := ⟨p, hp⟩ }).isRunning c = s.isRunning c := by
      intro c
      by_cases hc : c = t
      · subst hc
        rw [isRunning, task_setTask_self]
        rfl
      · rw [isRunning, task_setTask_of_ne hc]
        rfl
    cases hs
    rw [updateTaskPriority]
    dsimp only
    split_ifs with hcur hsame hmem
    · -- the current task is in no queue
      have h' : Placed (some t) s.runQueue s.getPriority fun c => s.isRunning c := by
        rw [Scheduled, Places, show s.currentTask = some t from hcur] at h
        exact h
      exact (rekey_setTask h fun _ => h'.not_mem_of_slot).congr fun c => by rw [hstate]
    · rw [Scheduled, Places, getPriority_setTask]
      · exact h.congr fun c => by rw [hstate]
      · rw [getPriority, task_setTask_self] at hsame
        exact hsame
    · have hrun : s.isRunning t := h.active_of_mem hmem
      have herase := h.erase hmem
      have hpush := (rekey_setTask (f := fun t => { t with priority := ⟨p, hp⟩ }) herase
        fun i hi => (herase.active_of_mem hi).2 rfl).push fun ht => ht.2 rfl
      refine hpush.congr fun c => (Bool.eq_iff_iff.mp (hstate c)).trans ?_
      by_cases hc : c = t
      · subst hc
        simpa using hrun
      · simp [hc]
    · have hnot : ∀ i, t ∉ s.runQueue i := by
        intro i hi
        rw [← h.key i t hi] at hi
        exact hmem hi
      exact (rekey_setTask h hnot).congr fun c => by rw [hstate]
  · cases hs
    exact h

lemma Scheduled.foldlM_wakeTask {l : List TaskPtr} (h : s.Scheduled)
    (hs : l.foldlM TaskManager.wakeTask s = some s') : s'.Scheduled := by
  induction l generalizing s with
  | nil         =>
    cases hs
    exact h
  | cons t l ih =>
    rw [List.foldlM_cons] at hs
    obtain ⟨s₁, h₁, hs⟩ := Option.bind_eq_some_iff.mp hs
    exact ih (h.wakeTask h₁) hs

lemma Scheduled.tick (h : s.Scheduled) (hs : s.tick = some s') : s'.Scheduled := by
  obtain ⟨s₁, h₁, hs⟩ := Option.bind_eq_some_iff.mp hs
  have hitems : ({ s with items := (DeltaQueue.tick s.items).2 } : TaskManager).Scheduled := h
  exact (hitems.foldlM_wakeTask h₁).schedulerTick hs

/-- Other fields of a task may change. -/
lemma Scheduled.setTask (h : s.Scheduled) (hstate : (f (s.task t)).state = (s.task t).state)
    (hprio : (f (s.task t)).priority = (s.task t).priority) : (s.setTask t f).Scheduled := by
  rw [Scheduled, Places, getPriority_setTask hprio]
  refine h.congr fun c => ?_
  by_cases hc : c = t
  · subst hc
    rw [isRunning_iff, isRunning_iff, task_setTask_self, hstate]
  · rw [isRunning, task_setTask_of_ne hc]
    rfl

/-! ### Runs -/

/-- The calls of the task manager. -/
inductive Op where
  | wakeTask (t : TaskPtr)
  | pauseTask (t : TaskPtr)
  | sleepTask (t : TaskPtr) (timeInUs : ℕ)
  | setTaskPriority (t : TaskPtr) (newPriority : ℕ)
  | schedule
  | tick
  | disablePreempt (t : TaskPtr)
  | enablePreempt (t : TaskPtr)
  | killTask (freed : TaskPtr → List TaskPtr) (t : TaskPtr)

def Op.run (s : TaskManager) : Op → Option TaskManager
  | .wakeTask t          => s.wakeTask t
  | .pauseTask t         => s.pauseTask t
  | .sleepTask t time    => s.sleepTask t time
  | .setTaskPriority t p => (s.setTaskPriority t p).map Prod.snd
  | .schedule            => s.schedule
  | .tick                => s.tick
  | .disablePreempt t    => some (s.disablePreempt t)
  | .enablePreempt t     => s.enablePreempt t
  | .killTask freed t    => s.killTask freed t

/-- Tasks have been created, and none has been woken. -/
structure Initial (s : TaskManager) : Prop where
  state : ∀ t, (s.task t).state = .interruptible
  currentTask : s.currentTask = none
  runQueue : ∀ p, s.runQueue p = []
  items : s.items = []

/-- The states of runs in which no assertion fails. -/
inductive Reaches : TaskManager → Prop
  | start {s : TaskManager} (h : Initial s) : Reaches s
  | step {s s' : TaskManager} (h : Reaches s) (op : Op) (hop : op.run s = some s') : Reaches s'

/-- A list of calls, one after the other. -/
def runAll (s : TaskManager) (ops : List Op) : Option TaskManager := ops.foldlM Op.run s

lemma Reaches.runAll {ops : List Op} (h : Reaches s) (hops : s.runAll ops = some s') : Reaches s' := by
  induction ops generalizing s with
  | nil           =>
    cases hops
    exact h
  | cons op ops ih =>
    rw [TaskManager.runAll, List.foldlM_cons] at hops
    obtain ⟨s₁, h₁, hops⟩ := Option.bind_eq_some_iff.mp hops
    exact ih (h.step op h₁) hops

/-- Tasks as they are created, with `DEFAULT_PRIORITY`. -/
def created : TaskManager where
  task _ := ⟨.interruptible, 15, 0, false, 0, []⟩
  currentTask := none
  runQueue _ := []
  items := []

lemma initial_created : Initial created := ⟨fun _ => rfl, rfl, fun _ => rfl, rfl⟩

lemma Initial.scheduled (h : Initial s) : s.Scheduled where
  once t ht := by
    rw [isRunning_iff, h.state] at ht
    cases ht
  absent t _ := by
    simp [occurrences, h.currentTask, h.runQueue]
  key p t ht := by
    rw [h.runQueue] at ht
    cases ht

/-- Every call keeps the invariant. -/
lemma Scheduled.run {op : Op} (h : s.Scheduled) (hop : op.run s = some s') : s'.Scheduled := by
  cases op with
  | wakeTask t          => exact h.wakeTask hop
  | pauseTask t         => exact h.pauseTask hop
  | sleepTask t time    => exact h.sleepTask hop
  | setTaskPriority t p =>
    obtain ⟨⟨b, s₁⟩, h₁, rfl⟩ := Option.map_eq_some_iff.mp hop
    exact h.setTaskPriority h₁
  | schedule            => exact h.schedule hop
  | tick                => exact h.tick hop
  | disablePreempt t    =>
    cases hop
    exact h.setTask rfl rfl
  | enablePreempt t     =>
    rw [Op.run, enablePreempt] at hop
    split_ifs at hop
    cases hop
    exact h.setTask rfl rfl
  | killTask freed t    => exact h.killTask hop

lemma scheduled_of_reaches (h : Reaches s) : s.Scheduled := by
  induction h with
  | start h       => exact h.scheduled
  | step _ _ hop ih => exact ih.run hop

/-- In every run the running tasks are placed, and no function of the scheduler selects a task that
does not run. -/
theorem runQueues_of_reaches (h : Reaches s) : s.Scheduled ∧ (∃ s', s.schedule = some s') ∧
    (∃ s', s.schedulerTick = some s') ∧
      ∀ t, s.isRunning t → ∃ s', s.removeTask t = some (true, s') := by
  have hsched := scheduled_of_reaches h
  obtain ⟨s₁, h₁, -⟩ := schedule_spec hsched fun _ hc => hc
  obtain ⟨s₂, h₂, -⟩ := schedulerTick_spec hsched fun _ hc => hc
  refine ⟨hsched, ⟨s₁, h₁⟩, ⟨s₂, h₂⟩, fun t ht => ?_⟩
  obtain ⟨s₃, h₃, -⟩ := hsched.removeTask ht
  exact ⟨s₃, h₃⟩

theorem runQueues_of_reaches_two :
    ∃ s, created.runAll [.wakeTask 1, .wakeTask 2, .setTaskPriority 2 20, .schedule, .sleepTask 2 30000,
      .tick, .killTask (fun _ => [2]) 1] = some s ∧ s.Scheduled ∧ (∃ s', s.schedule = some s') ∧
        (∃ s', s.schedulerTick = some s') ∧
          ∀ t, s.isRunning t → ∃ s', s.removeTask t = some (true, s') := by
  have hrun : (created.runAll [.wakeTask 1, .wakeTask 2, .setTaskPriority 2 20, .schedule,
    .sleepTask 2 30000, .tick, .killTask (fun _ => [2]) 1]).isSome = true := by decide +kernel
  obtain ⟨s, hs⟩ := Option.isSome_iff_exists.mp hrun
  exact ⟨s, hs, runQueues_of_reaches ((Reaches.start initial_created).runAll hs)⟩

end TaskManager

end PiKachulm.Tasks

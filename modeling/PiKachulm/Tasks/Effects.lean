import PiKachulm.Tasks.RunQueue

/-!
# What the calls do to the states of tasks

For each call of the task manager, the states of the tasks and the delta queue after it.
-/

namespace PiKachulm.Tasks

open Core

namespace TaskManager

variable {s s' : TaskManager} {t u : TaskPtr} {f : Task → Task} {freed : TaskPtr → List TaskPtr}
  {l : List TaskPtr}

/-- The states of all tasks. -/
def states (s : TaskManager) (t : TaskPtr) : State := (s.task t).state

lemma states_setTask : (s.setTask t f).states = Function.update s.states t (f (s.task t)).state := by
  funext u
  by_cases hu : u = t
  · subst hu
    rw [states, task_setTask_self, Function.update_self]
  · rw [states, task_setTask_of_ne hu, Function.update_of_ne hu]
    rfl

lemma states_setTask_of_eq (hf : (f (s.task t)).state = (s.task t).state) :
    (s.setTask t f).states = s.states := by
  rw [states_setTask, hf]
  exact Function.update_eq_self ..

lemma Frame.states (h : Frame s s') : s'.states = s.states := funext h.state

lemma isRunning_iff_states : s.isRunning t ↔ s.states t = .running := isRunning_iff

lemma isTerminated_iff_states : s.isTerminated t ↔ s.states t = .terminated := isTerminated_iff

/-- `wake_task` makes the task run. -/
lemma states_wakeTask (hs : s.wakeTask t = some s') : s.states t ≠ .terminated ∧
    s'.states = Function.update s.states t .running ∧ s'.items = s.items := by
  by_cases hterm : s.isTerminated t
  · rw [wakeTask, if_pos hterm] at hs
    cases hs
  · rw [wakeTask_eq hterm] at hs
    refine ⟨mt isTerminated_iff_states.mpr hterm, ?_⟩
    cases hs
    by_cases hrun : s.isRunning t
    · rw [if_pos hrun, ← isRunning_iff_states.mp hrun, Function.update_eq_self]
      exact ⟨rfl, rfl⟩
    · rw [if_neg hrun]
      refine ⟨funext fun u => ?_, rfl⟩
      by_cases hu : u = t
      · subst hu
        rw [states, task_woken_self, Function.update_self]
      · rw [states, task_woken_of_ne hu, Function.update_of_ne hu]
        rfl

/-- The tasks of a list run, those that are terminated apart. -/
def wokenStates (st : TaskPtr → State) (l : List TaskPtr) (u : TaskPtr) : State :=
  if u ∈ l ∧ st u ≠ .terminated then .running else st u

lemma wokenStates_of_terminated {st : TaskPtr → State} {l : List TaskPtr} (h : st u = .terminated) :
    wokenStates st l u = .terminated := by
  rw [wokenStates, if_neg (fun hu => hu.2 h), h]

lemma wokenStates_cons {st : TaskPtr → State} (hterm : st t ≠ .terminated) :
    wokenStates (Function.update st t .running) l = wokenStates st (t :: l) := by
  funext u
  by_cases hu : u = t
  · subst hu
    simp [wokenStates, hterm]
  · simp [wokenStates, hu]

lemma states_wakeAll (hs : s.wakeAll l = some s') :
    s'.states = wokenStates s.states l ∧ s'.items = s.items := by
  induction l generalizing s with
  | nil         =>
    cases hs
    exact ⟨funext fun u => by simp [wokenStates], rfl⟩
  | cons t l ih =>
    rw [wakeAll, List.foldlM_cons] at hs
    obtain ⟨s₁, h₁, hs⟩ := Option.bind_eq_some_iff.mp hs
    split_ifs at h₁ with hterm
    · cases h₁
      obtain ⟨hstates, hitems⟩ := ih hs
      refine ⟨hstates.trans (funext fun u => ?_), hitems⟩
      rw [isTerminated_iff_states] at hterm
      by_cases hu : u = t
      · subst hu
        simp [wokenStates, hterm]
      · simp [wokenStates, hu]
    · obtain ⟨hnot, hstates₁, hitems₁⟩ := states_wakeTask h₁
      obtain ⟨hstates, hitems⟩ := ih hs
      rw [hstates₁, wokenStates_cons hnot] at hstates
      exact ⟨hstates, hitems.trans hitems₁⟩

/-- The loop of the delta queue; it stops at a task that is terminated. -/
lemma states_foldlM_wakeTask (hs : l.foldlM wakeTask s = some s') :
    (∀ t ∈ l, s.states t ≠ .terminated) ∧ s'.states = wokenStates s.states l ∧ s'.items = s.items := by
  induction l generalizing s with
  | nil         =>
    cases hs
    exact ⟨by simp, funext fun u => by simp [wokenStates], rfl⟩
  | cons t l ih =>
    rw [List.foldlM_cons] at hs
    obtain ⟨s₁, h₁, hs⟩ := Option.bind_eq_some_iff.mp hs
    obtain ⟨hnot, hstates₁, hitems₁⟩ := states_wakeTask h₁
    obtain ⟨hall, hstates, hitems⟩ := ih hs
    rw [hstates₁, wokenStates_cons hnot] at hstates
    refine ⟨List.forall_mem_cons.mpr ⟨hnot, fun u hu => ?_⟩, hstates, hitems.trans hitems₁⟩
    have hu' := hall u hu
    rw [hstates₁] at hu'
    by_cases hut : u = t
    · exact hut ▸ hnot
    · rwa [Function.update_of_ne hut] at hu'

lemma Scheduled.frame_removeTask {b : Bool} (h : s.Scheduled) (hs : s.removeTask t = some (b, s')) :
    Frame s s' := by
  obtain ⟨s₁, h₁, hframe, -⟩ := h.removeTask (isRunning_of_removeTask hs)
  rw [hs] at h₁
  cases h₁
  exact hframe

lemma states_pauseTask (h : s.Scheduled) (hs : s.pauseTask t = some s') : s.states t ≠ .terminated ∧
    s'.items = s.items ∧ ((s.states t ≠ .running ∧ s'.states = s.states) ∨
      (s.states t = .running ∧ s'.states = Function.update s.states t .uninterruptible)) := by
  obtain ⟨hterm, ⟨hrun, rfl⟩ | ⟨hrun, b, s₁, h₁, rfl⟩⟩ := pauseTask_eq_some hs
  · exact ⟨mt isTerminated_iff_states.mpr hterm, rfl, .inl ⟨mt isRunning_iff_states.mpr hrun, rfl⟩⟩
  · have hframe := h.frame_removeTask h₁
    refine ⟨mt isTerminated_iff_states.mpr hterm, hframe.items, .inr ⟨isRunning_iff_states.mp hrun, ?_⟩⟩
    rw [states_setTask, hframe.states]

lemma states_sleepTask {time : ℕ} (h : s.Scheduled) (hs : s.sleepTask t time = some s') :
    s.states t ≠ .terminated ∧ ((s.states t ≠ .running ∧ s' = s) ∨
      (s.states t = .running ∧ s'.states = Function.update s.states t .interruptible ∧
        s'.items = DeltaQueue.addTask t (sleepTicks time) 0 s.items)) := by
  obtain ⟨hterm, ⟨hrun, rfl⟩ | ⟨hrun, b, s₁, h₁, rfl⟩⟩ := sleepTask_eq_some hs
  · exact ⟨mt isTerminated_iff_states.mpr hterm, .inl ⟨mt isRunning_iff_states.mpr hrun, rfl⟩⟩
  · have hframe := h.frame_removeTask h₁
    refine ⟨mt isTerminated_iff_states.mpr hterm, .inr ⟨isRunning_iff_states.mp hrun, ?_, ?_⟩⟩
    · show (s₁.setTask t fun t => { t with state := .interruptible }).states = _
      rw [states_setTask, hframe.states]
    · rw [hframe.items]

lemma states_killTask (h : s.Scheduled) (hs : s.killTask freed t = some s') :
    (s.states t = .terminated ∧ s' = s) ∨ (s.states t = .running ∧ s'.items = s.items ∧
      s'.states = Function.update (wokenStates s.states (freed t)) t .terminated) := by
  rcases killTask_eq_some hs with ⟨hterm, rfl⟩ | ⟨b, s₁, s₂, h₁, h₂, rfl⟩
  · exact .inl ⟨isTerminated_iff_states.mp hterm, rfl⟩
  · have hframe := h.frame_removeTask h₁
    obtain ⟨hstates, hitems⟩ := states_wakeAll h₂
    refine .inr ⟨isRunning_iff_states.mp (isRunning_of_removeTask h₁), hitems.trans hframe.items, ?_⟩
    rw [states_setTask, hstates, hframe.states]

lemma states_setTaskPriority {p : ℕ} {b : Bool} (hs : s.setTaskPriority t p = some (b, s')) :
    s'.states = s.states ∧ s'.items = s.items := by
  rw [setTaskPriority] at hs
  split_ifs at hs with hterm hp
  · have hset : (s.setTask t fun t => { t with priority := ⟨p, hp⟩ }).states = s.states := by
      rw [states_setTask]
      exact Function.update_eq_self ..
    cases hs
    rw [updateTaskPriority]
    dsimp only
    split_ifs <;> exact ⟨hset, rfl⟩
  · cases hs
    exact ⟨rfl, rfl⟩

lemma states_tick (h : s.Scheduled) (hs : s.tick = some s') :
    (∀ t ∈ (DeltaQueue.tick s.items).1, s.states t ≠ .terminated) ∧
      s'.states = wokenStates s.states (DeltaQueue.tick s.items).1 ∧
        s'.items = (DeltaQueue.tick s.items).2 := by
  obtain ⟨s₁, h₁, hs⟩ := Option.bind_eq_some_iff.mp hs
  have hitems : ({ s with items := (DeltaQueue.tick s.items).2 } : TaskManager).Scheduled := h
  obtain ⟨hall, hstates, hitems₁⟩ := states_foldlM_wakeTask h₁
  obtain ⟨s₂, h₂, -, hframe⟩ := schedulerTick_spec (hitems.foldlM_wakeTask h₁) fun _ hc => hc
  rw [hs] at h₂
  cases h₂
  exact ⟨hall, hframe.states.trans hstates, hframe.items.trans hitems₁⟩

lemma states_schedule (h : s.Scheduled) (hs : s.schedule = some s') :
    s'.states = s.states ∧ s'.items = s.items := by
  obtain ⟨s₁, h₁, -, hframe⟩ := schedule_spec h fun _ hc => hc
  rw [hs] at h₁
  cases h₁
  exact ⟨hframe.states, hframe.items⟩


/-- The delta queue after a call: only `sleep_task` and the tick change it. -/
lemma items_run {op : Op} (h : s.Scheduled) (hop : op.run s = some s') :
    s'.items = match op with
      | .sleepTask t time => if s.isRunning t then DeltaQueue.addTask t (sleepTicks time) 0 s.items else s.items
      | .tick             => (DeltaQueue.tick s.items).2
      | _                 => s.items := by
  cases op with
  | wakeTask t          => exact (states_wakeTask hop).2.2
  | pauseTask t         => exact (states_pauseTask h hop).2.1
  | sleepTask t time    =>
    dsimp only
    obtain ⟨-, ⟨hrun, rfl⟩ | ⟨hrun, -, hitems⟩⟩ := states_sleepTask h hop
    · rw [if_neg (mt isRunning_iff_states.mp hrun)]
    · rw [if_pos (isRunning_iff_states.mpr hrun), hitems]
  | setTaskPriority t p =>
    obtain ⟨⟨b, s₁⟩, h₁, rfl⟩ := Option.map_eq_some_iff.mp hop
    exact (states_setTaskPriority h₁).2
  | schedule            => exact (states_schedule h hop).2
  | tick                => exact (states_tick h hop).2.2
  | disablePreempt t    =>
    cases hop
    rfl
  | enablePreempt t     =>
    rw [Op.run, enablePreempt] at hop
    split_ifs at hop
    cases hop
    rfl
  | killTask freed t    =>
    rcases states_killTask h hop with ⟨-, rfl⟩ | ⟨-, hitems, -⟩
    · rfl
    · exact hitems

/-- A terminated task stays terminated. -/
lemma terminated_run {op : Op} (h : s.Scheduled) (hop : op.run s = some s') (ht : s.states u = .terminated) :
    s'.states u = .terminated := by
  have hne {t : TaskPtr} (hnot : s.states t ≠ .terminated) : u ≠ t := fun heq => hnot (heq ▸ ht)
  cases op with
  | wakeTask t          =>
    obtain ⟨hnot, hstates, -⟩ := states_wakeTask hop
    rw [hstates, Function.update_of_ne (hne hnot), ht]
  | pauseTask t         =>
    obtain ⟨hnot, -, ⟨-, hstates⟩ | ⟨-, hstates⟩⟩ := states_pauseTask h hop
    · rw [hstates, ht]
    · rw [hstates, Function.update_of_ne (hne hnot), ht]
  | sleepTask t time    =>
    obtain ⟨hnot, ⟨-, rfl⟩ | ⟨-, hstates, -⟩⟩ := states_sleepTask h hop
    · exact ht
    · rw [hstates, Function.update_of_ne (hne hnot), ht]
  | setTaskPriority t p =>
    obtain ⟨⟨b, s₁⟩, h₁, rfl⟩ := Option.map_eq_some_iff.mp hop
    rw [(states_setTaskPriority h₁).1, ht]
  | schedule            => rw [(states_schedule h hop).1, ht]
  | tick                =>
    obtain ⟨-, hstates, -⟩ := states_tick h hop
    rw [hstates, wokenStates_of_terminated ht]
  | disablePreempt t    =>
    cases hop
    exact (congrFun (states_setTask_of_eq rfl) u).trans ht
  | enablePreempt t     =>
    rw [Op.run, enablePreempt] at hop
    split_ifs at hop
    cases hop
    exact (congrFun (states_setTask_of_eq rfl) u).trans ht
  | killTask freed t    =>
    rcases states_killTask h hop with ⟨-, rfl⟩ | ⟨-, -, hstates⟩
    · exact ht
    · rw [hstates]
      by_cases hu : u = t
      · rw [hu, Function.update_self]
      · rw [Function.update_of_ne hu, wokenStates_of_terminated ht]

/-- Both hold in whole runs. -/
lemma Scheduled.runAll {ops : List Op} (h : s.Scheduled) (hops : s.runAll ops = some s') :
    s'.Scheduled ∧ ∀ u, s.states u = .terminated → s'.states u = .terminated := by
  induction ops generalizing s with
  | nil           =>
    cases hops
    exact ⟨h, fun _ ht => ht⟩
  | cons op ops ih =>
    rw [TaskManager.runAll, List.foldlM_cons] at hops
    obtain ⟨s₁, h₁, hops⟩ := Option.bind_eq_some_iff.mp hops
    obtain ⟨h', hterm⟩ := ih (h.run h₁) hops
    exact ⟨h', fun u ht => hterm u (terminated_run h h₁ ht)⟩

end TaskManager

end PiKachulm.Tasks

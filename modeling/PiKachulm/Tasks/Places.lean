import PiKachulm.Tasks.TaskManager

/-!
# Places of tasks

What each function of the scheduler and of the task manager does to the current task and to the run
queues, for any set of tasks that are placed there. None of their assertions on selected tasks fails.
-/

namespace PiKachulm.Tasks

open Core Libk

namespace TaskManager

variable {s s' : TaskManager} {t c : TaskPtr} {active : TaskPtr → Prop} {f : Task → Task}
  {ps : List Priority}

@[simp] lemma isRunning_iff : s.isRunning t = true ↔ (s.task t).state = .running := decide_eq_true_iff

@[simp] lemma isRunning_eq_false : s.isRunning t = false ↔ (s.task t).state ≠ .running :=
  decide_eq_false_iff_not

@[simp] lemma isTerminated_iff : s.isTerminated t = true ↔ (s.task t).state = .terminated :=
  decide_eq_true_iff

@[simp] lemma task_setTask_self : (s.setTask t f).task t = f (s.task t) := Function.update_self ..

lemma task_setTask_of_ne (h : c ≠ t) : (s.setTask t f).task c = s.task c :=
  Function.update_of_ne h ..

@[simp] lemma currentTask_setTask : (s.setTask t f).currentTask = s.currentTask := rfl

@[simp] lemma runQueue_setTask : (s.setTask t f).runQueue = s.runQueue := rfl

@[simp] lemma items_setTask : (s.setTask t f).items = s.items := rfl

lemma getPriority_setTask (hf : (f (s.task t)).priority = (s.task t).priority) :
    (s.setTask t f).getPriority = s.getPriority := by
  funext c
  by_cases hc : c = t
  · subst hc
    rw [getPriority, task_setTask_self, hf]
    rfl
  · rw [getPriority, task_setTask_of_ne hc]
    rfl

/-- Only the places and the elapsed ticks of tasks differ. -/
structure Frame (s s' : TaskManager) : Prop where
  task : ∀ t, ∃ n, s'.task t = { s.task t with elapsedTicks := n }
  items : s'.items = s.items

namespace Frame

lemma refl (s : TaskManager) : Frame s s := ⟨fun _ => ⟨_, rfl⟩, rfl⟩

lemma trans {s₁ s₂ s₃ : TaskManager} (h : Frame s₁ s₂) (h' : Frame s₂ s₃) : Frame s₁ s₃ where
  task t := by
    obtain ⟨n, hn⟩ := h.task t
    obtain ⟨n', hn'⟩ := h'.task t
    exact ⟨n', by rw [hn', hn]⟩
  items := h'.items.trans h.items

lemma setElapsed {n : ℕ} (s : TaskManager) (t : TaskPtr) :
    Frame s (s.setTask t fun t => { t with elapsedTicks := n }) where
  task c := by
    by_cases hc : c = t
    · subst hc
      exact ⟨n, task_setTask_self⟩
    · exact ⟨_, task_setTask_of_ne hc⟩
  items := rfl

lemma state (h : Frame s s') (t : TaskPtr) : (s'.task t).state = (s.task t).state := by
  obtain ⟨n, hn⟩ := h.task t
  rw [hn]

lemma isRunning (h : Frame s s') (t : TaskPtr) : s'.isRunning t = s.isRunning t := by
  rw [TaskManager.isRunning, TaskManager.isRunning, h.state]

lemma getPriority (h : Frame s s') : s'.getPriority = s.getPriority := by
  funext t
  obtain ⟨n, hn⟩ := h.task t
  rw [TaskManager.getPriority, TaskManager.getPriority, hn]

end Frame

/-- The tasks of `active` are placed in the current task and the run queues. -/
abbrev Places (s : TaskManager) (active : TaskPtr → Prop) : Prop :=
  Placed s.currentTask s.runQueue s.getPriority active

/-! ### The scheduler -/

lemma frame_enqueueOld : Frame s (s.enqueueOld t) := by
  rw [enqueueOld]
  split
  · exact .refl s
  · split_ifs <;> exact ⟨fun _ => ⟨_, rfl⟩, rfl⟩

/-- The slot goes from the old task to one that was not placed. -/
lemma placed_enqueueOld (h : s.Places active) (hna : ¬active t) :
    Placed (some t) (s.enqueueOld t).runQueue s.getPriority fun c => active c ∨ c = t := by
  rw [enqueueOld]
  cases hcur : s.currentTask with
  | none     =>
    rw [Places, hcur] at h
    exact h.fill hna
  | some old =>
    rw [Places, hcur] at h
    have hact := h.active_of_slot
    have hne : old ≠ t := fun heq => hna (heq ▸ hact)
    have hold : ¬(active old ∧ old ≠ old) := fun hold => hold.2 rfl
    have hnew : ¬((active t ∧ t ≠ old) ∨ t = old) := fun hnew =>
      hnew.elim (fun ht => hna ht.1) (fun ht => hne ht.symm)
    dsimp only
    rw [if_neg hne]
    refine ((h.vacate.push hold).fill hnew).congr fun c => or_congr_left ?_
    by_cases hc : c = old
    · simp [hc, hact]
    · simp [hc]

lemma switchTo_spec (h : s.Places fun c => active c ∧ c ≠ t) (hact : active t) (hrun : s.isRunning t) :
    ∃ s', s.switchTo (some t) = some s' ∧ s'.Places active ∧ Frame s s' := by
  refine ⟨_, by rw [switchTo, if_pos hrun], ?_, ?_⟩
  · have hplaced := placed_enqueueOld h (t := t) fun ht => ht.2 rfl
    have hframe : Frame s (s.enqueueOld t) := frame_enqueueOld
    rw [Places, getPriority_setTask rfl]
    show Placed (some t) _ (s.enqueueOld t).getPriority active
    rw [hframe.getPriority]
    refine hplaced.congr fun c => ?_
    by_cases hc : c = t
    · simp [hc, hact]
    · simp [hc]
  · have hcur : Frame (s.enqueueOld t) { s.enqueueOld t with currentTask := some t } :=
      ⟨fun _ => ⟨_, rfl⟩, rfl⟩
    exact frame_enqueueOld.trans (hcur.trans (.setElapsed _ t))

/-- A task that is popped is one of those placed, and switching to it keeps the places. -/
lemma switchTo_popTask (ps : List Priority) (h : s.Places active) (hrun : ∀ t, active t → s.isRunning t) :
    ∃ s', (s.popTask ps).2.switchTo (s.popTask ps).1 = some s' ∧ s'.Places active ∧ Frame s s' := by
  rw [popTask]
  cases hpop : popFirst s.runQueue ps with
  | none   => exact ⟨s, rfl, h, .refl s⟩
  | some r =>
    obtain ⟨t, q⟩ := r
    obtain ⟨hact, hq⟩ := h.pop hpop
    have hframe : Frame s { s with runQueue := q } := ⟨fun _ => ⟨_, rfl⟩, rfl⟩
    obtain ⟨s', hs', hplaces, hframe'⟩ := switchTo_spec (s := { s with runQueue := q }) hq hact (hrun t hact)
    exact ⟨s', hs', hplaces, hframe.trans hframe'⟩

lemma eq_of_popTask_none (h : s.popTask ps = (none, s')) : s' = s := by
  rw [popTask] at h
  split at h <;> cases h
  rfl

lemma schedule_spec (h : s.Places active) (hrun : ∀ t, active t → s.isRunning t) :
    ∃ s', s.schedule = some s' ∧ s'.Places active ∧ Frame s s' := by
  rw [schedule]
  split_ifs
  · exact ⟨s, rfl, h, .refl s⟩
  · exact switchTo_popTask _ h hrun

lemma places_countTick : s.countTick.Places active ↔ s.Places active := by
  rw [countTick]
  split
  · exact Iff.rfl
  · rw [Places, getPriority_setTask rfl]
    exact Iff.rfl

lemma frame_countTick : Frame s s.countTick := by
  rw [countTick]
  split
  · exact .refl s
  · exact .setElapsed s _

lemma schedulerTick_spec (h : s.Places active) (hrun : ∀ t, active t → s.isRunning t) :
    ∃ s', s.schedulerTick = some s' ∧ s'.Places active ∧ Frame s s' := by
  have hcount := places_countTick.mpr h
  have hrun' : ∀ t, active t → s.countTick.isRunning t := fun t ht => by
    rw [frame_countTick.isRunning]
    exact hrun t ht
  rw [schedulerTick]
  split_ifs
  · exact ⟨_, rfl, hcount, frame_countTick⟩
  · cases hfind : s.countTick.findHigherPriorityTaskThanCurrent with
    | mk newTask s₁ =>
      cases newTask with
      | some newTask =>
        rw [findHigherPriorityTaskThanCurrent] at hfind
        have hswitch := switchTo_popTask
          (descending.takeWhile fun i => decide (i > s.countTick.getCurrentPriority)) hcount hrun'
        rw [hfind] at hswitch
        obtain ⟨s', hs', hplaces, hframe⟩ := hswitch
        exact ⟨s', hs', hplaces, frame_countTick.trans hframe⟩
      | none         =>
        cases eq_of_popTask_none hfind
        dsimp only
        split_ifs
        · obtain ⟨s', hs', hplaces, hframe⟩ := switchTo_popTask _ hcount hrun'
          exact ⟨s', hs', hplaces, frame_countTick.trans hframe⟩
        · exact ⟨_, rfl, hcount, frame_countTick⟩

/-- A running task is found, and leaves its place. -/
lemma removeTask_spec (h : s.Places active) (hrun : ∀ t, active t → s.isRunning t) (ht : active t) :
    ∃ s', s.removeTask t = some (true, s') ∧ s'.Places (fun c => active c ∧ c ≠ t) ∧ Frame s s' := by
  rw [removeTask, if_pos (hrun t ht)]
  by_cases hcur : s.currentTask = some t
  · rw [if_pos hcur]
    have hvacant : Places { s with currentTask := none } fun c => active c ∧ c ≠ t := by
      rw [Places, hcur] at h
      exact h.vacate
    have hframe : Frame s { s with currentTask := none } := ⟨fun _ => ⟨_, rfl⟩, rfl⟩
    obtain ⟨s', hs', hplaces, hframe'⟩ := schedule_spec hvacant fun c hc => hrun c hc.1
    rw [hs']
    exact ⟨s', rfl, hplaces, hframe.trans hframe'⟩
  · have hmem := (h.mem_of_active ht).resolve_left hcur
    rw [if_neg hcur, if_pos hmem]
    exact ⟨_, rfl, h.erase hmem, ⟨fun _ => ⟨_, rfl⟩, rfl⟩⟩

/-! ### The task manager -/

/-- A task that does not run is woken. -/
def woken (s : TaskManager) (t : TaskPtr) : TaskManager where
  task := Function.update s.task t { s.task t with elapsedTicks := 0, state := .running }
  currentTask := s.currentTask
  runQueue := pushBack s.runQueue (s.getPriority t) t
  items := s.items

@[simp] lemma task_woken_self :
    (s.woken t).task t = { s.task t with elapsedTicks := 0, state := .running } :=
  Function.update_self ..

lemma task_woken_of_ne (h : c ≠ t) : (s.woken t).task c = s.task c := Function.update_of_ne h ..

lemma getPriority_woken : (s.woken t).getPriority = s.getPriority := by
  funext c
  by_cases hc : c = t
  · subst hc
    rw [getPriority, task_woken_self]
    rfl
  · rw [getPriority, task_woken_of_ne hc]
    rfl

lemma isRunning_woken : (s.woken t).isRunning c ↔ s.isRunning c ∨ c = t := by
  by_cases hc : c = t
  · subst hc
    simp
  · rw [isRunning, task_woken_of_ne hc, or_iff_left hc]
    rfl

/-- `wake_task` as one update. -/
lemma wakeTask_eq (hterm : ¬s.isTerminated t) :
    s.wakeTask t = some (if s.isRunning t then s else s.woken t) := by
  rw [wakeTask, if_neg hterm]
  by_cases hrun : s.isRunning t
  · rw [if_pos hrun, if_pos hrun]
  · rw [if_neg hrun, if_neg hrun]
    have hrun' : ¬(s.setTask t fun t => { t with elapsedTicks := 0 }).isRunning t := by
      rw [isRunning_iff, task_setTask_self] at *
      exact hrun
    dsimp only
    rw [addTask, if_neg hrun', getPriority_setTask rfl, Option.bind_eq_bind, Option.bind_some]
    simp [setTask, woken]

/-- Some tasks are woken. -/
structure Wakes (s s' : TaskManager) : Prop where
  task : ∀ t, s'.task t = s.task t ∨ (s.isRunning t = false ∧ s.isTerminated t = false ∧
    ∃ n, s'.task t = { s.task t with elapsedTicks := n, state := .running })
  items : s'.items = s.items
  currentTask : s'.currentTask = s.currentTask

namespace Wakes

lemma refl (s : TaskManager) : Wakes s s := ⟨fun _ => .inl rfl, rfl, rfl⟩

lemma isRunning (h : Wakes s s') (hrun : s.isRunning t) : s'.isRunning t := by
  rcases h.task t with heq | ⟨hnot, -⟩
  · rw [TaskManager.isRunning, heq]
    exact hrun
  · rw [hrun] at hnot
    cases hnot

lemma trans {s₁ s₂ s₃ : TaskManager} (h : Wakes s₁ s₂) (h' : Wakes s₂ s₃) : Wakes s₁ s₃ where
  task t := by
    rcases h'.task t with heq' | ⟨hrun, hterm, n, heq'⟩
    · rw [heq']
      exact h.task t
    · rcases h.task t with heq | ⟨-, -, n', heq⟩
      · rw [TaskManager.isRunning, heq] at hrun
        rw [TaskManager.isTerminated, heq] at hterm
        exact .inr ⟨hrun, hterm, n, by rw [heq', heq]⟩
      · rw [TaskManager.isRunning, heq] at hrun
        cases hrun
  items := h'.items.trans h.items
  currentTask := h'.currentTask.trans h.currentTask

end Wakes

/-- A task that is not terminated can be woken; those that run afterwards are placed. -/
lemma wakeTask_spec (hterm : ¬s.isTerminated t) : ∃ s', s.wakeTask t = some s' ∧ s'.isRunning t ∧
    Wakes s s' ∧ ∀ active, (∀ c, active c → s.isRunning c) → s.Places active →
      s'.Places fun c => active c ∨ (s'.isRunning c ∧ ¬s.isRunning c) := by
  refine ⟨_, wakeTask_eq hterm, ?_⟩
  by_cases hrun : s.isRunning t
  · rw [if_pos hrun]
    exact ⟨hrun, .refl s, fun active _ h => h.congr fun c => by simp⟩
  · rw [if_neg hrun]
    refine ⟨isRunning_woken.mpr (.inr rfl), ⟨fun c => ?_, rfl, rfl⟩, fun active hact h => ?_⟩
    · by_cases hc : c = t
      · subst hc
        exact .inr ⟨Bool.eq_false_of_not_eq_true hrun, Bool.eq_false_of_not_eq_true hterm, 0,
          task_woken_self⟩
      · exact .inl (task_woken_of_ne hc)
    · have hplaces := h.push (a := t) fun ht => hrun (hact t ht)
      rw [Places, getPriority_woken]
      refine hplaces.congr fun c => or_congr_right ?_
      rw [isRunning_woken]
      by_cases hc : c = t
      · subst hc
        simpa using hrun
      · simp [hc]

lemma wakeAll_spec (l : List TaskPtr) : ∃ s', s.wakeAll l = some s' ∧
    Wakes s s' ∧ ∀ active, (∀ c, active c → s.isRunning c) → s.Places active →
      s'.Places fun c => active c ∨ (s'.isRunning c ∧ ¬s.isRunning c) := by
  induction l generalizing s with
  | nil         => exact ⟨s, rfl, .refl s, fun active _ h => h.congr fun c => by simp⟩
  | cons t l ih =>
    rw [wakeAll, List.foldlM_cons]
    by_cases hterm : s.isTerminated t
    · rw [if_pos hterm, Option.bind_eq_bind, Option.bind_some]
      exact ih
    · obtain ⟨s₁, h₁, -, hw₁, hp₁⟩ := wakeTask_spec hterm
      obtain ⟨s', h', hw', hp'⟩ := @ih s₁
      rw [if_neg hterm, h₁, Option.bind_eq_bind, Option.bind_some]
      refine ⟨s', h', hw₁.trans hw', fun active hact h => ?_⟩
      have hact₁ : ∀ c, (active c ∨ (s₁.isRunning c ∧ ¬s.isRunning c)) → s₁.isRunning c := fun c hc =>
        hc.elim (fun hc => hw₁.isRunning (hact c hc)) (fun hc => hc.1)
      refine (hp' _ hact₁ (hp₁ active hact h)).congr fun c => ?_
      rw [or_assoc]
      refine or_congr_right ⟨fun hc => ?_, fun hc => ?_⟩
      · by_cases h₁ : s₁.isRunning c
        · exact .inl ⟨h₁, hc.2⟩
        · exact .inr ⟨hc.1, h₁⟩
      · rcases hc with hc | hc
        · exact ⟨hw'.isRunning hc.1, hc.2⟩
        · exact ⟨hc.1, fun h => hc.2 (hw₁.isRunning h)⟩

end TaskManager

end PiKachulm.Tasks

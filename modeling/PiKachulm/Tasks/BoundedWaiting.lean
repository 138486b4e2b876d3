import PiKachulm.Tasks.Tick

/-!
# Waiting for a turn

The tasks of one priority take turns. While no task of a higher priority runs, a task in a run queue becomes
the current one after a number of ticks that depends only on its place in the queue, whatever else happens:
tasks are woken, pause, sleep, are killed, or get other priorities.
-/

namespace PiKachulm.Tasks

open Core Libk

namespace TaskManager

variable {s s' : TaskManager} {t c u : TaskPtr} {p : Priority} {n k : ℕ} {ahead : List TaskPtr}

/-! ### Tasks that wait -/

/-- No task that runs has a higher priority. -/
def NoneAbove (s : TaskManager) (p : Priority) : Prop := ∀ c, s.isRunning c → s.getPriority c ≤ p

/-- The ticks that pass before the tasks ahead and the current one have had their time slices. -/
def ticksLeft (p : Priority) (ahead elapsed : ℕ) : ℕ :=
  getTimeSliceForPriority p * ahead + max 1 (getTimeSliceForPriority p - elapsed)

/-- The task is in the run queue, behind some other tasks. -/
def Behind (s : TaskManager) (t : TaskPtr) (p : Priority) (ahead : List TaskPtr) : Prop :=
  ∃ behind, s.runQueue p = ahead ++ t :: behind

/-- The current task, with some ticks of its time slice. -/
structure Turn (s : TaskManager) (c : TaskPtr) (elapsed : ℕ) : Prop where
  currentTask : s.currentTask = some c
  isRunning : s.isRunning c
  elapsedTicks : (s.task c).elapsedTicks = elapsed
  elapsed_lt : elapsed + 1 < 2 ^ 64

/-- The task waits, for `n` ticks at most. -/
def Waits (s : TaskManager) (t : TaskPtr) (p : Priority) (n : ℕ) : Prop :=
  ∃ c elapsed ahead, s.Turn c elapsed ∧ s.Behind t p ahead ∧ ticksLeft p ahead.length elapsed ≤ n

/-- It is the turn of the task, or it waits. -/
def Progresses (s : TaskManager) (t : TaskPtr) (p : Priority) (n : ℕ) : Prop :=
  s.currentTask = some t ∨ s.Waits t p n

lemma getTimeSliceForPriority_pos (p : Priority) : 0 < getTimeSliceForPriority p := by
  rw [getTimeSliceForPriority]
  split_ifs <;> decide

/-- When the tasks ahead are one less and a new time slice starts. -/
lemma ticksLeft_switch (p : Priority) (ahead elapsed : ℕ) :
    ticksLeft p ahead 0 + 1 ≤ ticksLeft p (ahead + 1) elapsed := by
  have hpos := getTimeSliceForPriority_pos p
  rw [ticksLeft, ticksLeft, Nat.mul_add, Nat.mul_one, Nat.sub_zero, max_eq_right hpos]
  omega

lemma ticksLeft_mono {ahead ahead' : ℕ} (h : ahead' ≤ ahead) (elapsed : ℕ) :
    ticksLeft p ahead' elapsed ≤ ticksLeft p ahead elapsed :=
  Nat.add_le_add_right (Nat.mul_le_mul_left _ h) _

lemma Waits.mono (h : s.Waits t p n) (hn : n ≤ k) : s.Waits t p k := by
  obtain ⟨c, elapsed, ahead, hturn, hbehind, hle⟩ := h
  exact ⟨c, elapsed, ahead, hturn, hbehind, hle.trans hn⟩

lemma Progresses.mono (h : s.Progresses t p n) (hn : n ≤ k) : s.Progresses t p k :=
  h.imp_right fun h => h.mono hn

/-- The run queues of higher priorities are empty. -/
lemma NoneAbove.empty (h : s.NoneAbove p) (hsched : s.Scheduled) (i : Priority) (hi : p < i) :
    s.runQueue i = [] := by
  refine List.eq_nil_iff_forall_not_mem.mpr fun c hc => ?_
  have hle := h c (hsched.active_of_mem hc)
  rw [hsched.key i c hc] at hle
  exact hle.not_gt hi

lemma NoneAbove.highest (h : s.NoneAbove p) (hsched : s.Scheduled) (hbehind : s.Behind t p ahead)
    {P : Priority → Prop} (hp : P p) : s.Highest P p := by
  obtain ⟨behind, hq⟩ := hbehind
  refine ⟨hp, ?_, fun i _ hi => h.empty hsched i hi⟩
  rw [hq]
  exact List.append_ne_nil_of_right_ne_nil _ (List.cons_ne_nil _ _)

/-! ### A switch -/

/-- When the first task of the queue gets its turn, it is the task or the next one that is ahead of it. -/
lemma Switches.progresses {elapsed : ℕ} (h : s.Switches p s') (hrunning : ∀ a ∈ s.runQueue p, s.isRunning a)
    (hbehind : s.Behind t p ahead) : s'.Progresses t p (ticksLeft p ahead.length elapsed - 1) := by
  obtain ⟨behind, hq⟩ := hbehind
  obtain ⟨a, hhead, hcur, htask⟩ := h.current
  cases ahead with
  | nil =>
    rw [hq] at hhead
    obtain rfl := Option.some_inj.mp hhead
    exact .inl hcur
  | cons b rest =>
    rw [hq] at hhead
    obtain rfl := Option.some_inj.mp hhead
    have hmem : b ∈ s.runQueue p := by
      rw [hq]
      exact List.mem_cons_self
    have hrun : s.isRunning b := hrunning b hmem
    refine .inr ⟨b, 0, rest, ⟨hcur, ?_, ?_, by decide⟩, ?_, ?_⟩
    · rw [isRunning_iff] at hrun ⊢
      rw [htask, Function.update_self]
      exact hrun
    · rw [htask, Function.update_self]
    · have hqueue : ∃ l, Function.update s.runQueue p (s.runQueue p).tail p = rest ++ t :: l :=
        ⟨behind, by rw [Function.update_self, hq]; rfl⟩
      obtain ⟨l, hl⟩ := hqueue
      rw [Behind, h.runQueue, switchedQueue]
      cases hold : s.currentTask with
      | none => exact ⟨l, hl⟩
      | some old =>
        dsimp only
        by_cases hp : s.getPriority old = p
        · refine ⟨l ++ [old], ?_⟩
          rw [pushBack, hp, Function.update_self, hl, List.append_assoc, List.cons_append]
        · refine ⟨l, ?_⟩
          rw [pushBack, Function.update_of_ne (Ne.symm hp), hl]
    · have := ticksLeft_switch p rest.length elapsed
      rw [List.length_cons]
      omega

/-- The first task of the queue gets its turn when there is no current task. -/
lemma schedule_of_none (hrunning : ∀ a ∈ s.runQueue p, s.isRunning a) (hcur : s.currentTask = none)
    (hempty : ∀ i, p < i → s.runQueue i = []) (hbehind : s.Behind t p ahead) (hs : s.schedule = some s') :
    s.Switches p s' := by
  obtain ⟨behind, hq⟩ := hbehind
  obtain ⟨a, rest, ha⟩ : ∃ a rest, s.runQueue p = a :: rest := by
    cases ahead with
    | nil => exact ⟨_, _, hq⟩
    | cons a l => exact ⟨_, _, hq⟩
  have hpop := (popFirst_eq_some_of_sorted descending_sorted).mpr
    ⟨p, rest, mem_descending _, ha, fun i _ hi => hempty i hi, rfl⟩
  have hrun : isRunning { s with runQueue := Function.update s.runQueue p rest } a = true :=
    hrunning a (by rw [ha]; exact List.mem_cons_self)
  have hpre : ¬s.preemptDisabled := by
    rw [preemptDisabled, hcur]
    exact Bool.false_ne_true
  have hfind : s.popTask descending =
      (some a, { s with runQueue := Function.update s.runQueue p rest }) := by
    rw [popTask, hpop]
  rw [schedule, if_neg hpre, hfind] at hs
  dsimp only at hs
  rw [switchTo, if_pos hrun, enqueueOld] at hs
  simp only [hcur] at hs
  obtain rfl := Option.some_inj.mp hs
  refine ⟨⟨a, by rw [ha]; rfl, rfl, rfl⟩, ?_, rfl⟩
  rw [switchedQueue, hcur, ha]
  rfl

/-! ### Tasks that are woken -/

lemma Waits.wakeTask (h : s.Waits t p n) (hs : s.wakeTask u = some s') : s'.Waits t p n := by
  obtain ⟨c, elapsed, ahead, hturn, ⟨behind, hq⟩, hle⟩ := h
  by_cases hterm : s.isTerminated u
  · rw [TaskManager.wakeTask, if_pos hterm] at hs
    cases hs
  · rw [wakeTask_eq hterm] at hs
    obtain rfl := Option.some_inj.mp hs
    split_ifs with hrun
    · exact ⟨c, elapsed, ahead, hturn, ⟨behind, hq⟩, hle⟩
    · have hne : c ≠ u := fun heq => hrun (heq ▸ hturn.isRunning)
      refine ⟨c, elapsed, ahead, ⟨hturn.currentTask, isRunning_woken.mpr (.inl hturn.isRunning), ?_,
        hturn.elapsed_lt⟩, ?_, hle⟩
      · rw [task_woken_of_ne hne]
        exact hturn.elapsedTicks
      · by_cases hp : s.getPriority u = p
        · refine ⟨behind ++ [u], ?_⟩
          change pushBack s.runQueue (s.getPriority u) u p = _
          rw [pushBack, hp, Function.update_self, hq, List.append_assoc, List.cons_append]
        · refine ⟨behind, ?_⟩
          change pushBack s.runQueue (s.getPriority u) u p = _
          rw [pushBack, Function.update_of_ne (Ne.symm hp), hq]

lemma currentTask_wakeTask (hs : s.wakeTask u = some s') : s'.currentTask = s.currentTask := by
  by_cases hterm : s.isTerminated u
  · rw [TaskManager.wakeTask, if_pos hterm] at hs
    cases hs
  · rw [wakeTask_eq hterm] at hs
    obtain rfl := Option.some_inj.mp hs
    split_ifs <;> rfl

lemma Progresses.wakeTask (h : s.Progresses t p n) (hs : s.wakeTask u = some s') : s'.Progresses t p n :=
  h.imp (fun hcur => (currentTask_wakeTask hs).trans hcur) fun h => h.wakeTask hs

lemma Progresses.wakeAll {l : List TaskPtr} (h : s.Progresses t p n) (hs : s.wakeAll l = some s') :
    s'.Progresses t p n := by
  induction l generalizing s with
  | nil =>
    cases hs
    exact h
  | cons u l ih =>
    rw [TaskManager.wakeAll, List.foldlM_cons] at hs
    obtain ⟨s₁, h₁, hs⟩ := Option.bind_eq_some_iff.mp hs
    refine ih ?_ hs
    split_ifs at h₁
    · cases h₁
      exact h
    · exact h.wakeTask h₁

lemma Waits.foldlM_wakeTask {l : List TaskPtr} (h : s.Waits t p n)
    (hs : l.foldlM TaskManager.wakeTask s = some s') : s'.Waits t p n := by
  induction l generalizing s with
  | nil =>
    cases hs
    exact h
  | cons u l ih =>
    rw [List.foldlM_cons] at hs
    obtain ⟨s₁, h₁, hs⟩ := Option.bind_eq_some_iff.mp hs
    exact ih (h.wakeTask h₁) hs

/-! ### Tasks that are removed -/

/-- Another task leaves its place. -/
lemma Waits.removeTask {b : Bool} (h : s.Waits t p n) (hsched : s.Scheduled) (habove : s.NoneAbove p)
    (hne : u ≠ t) (hs : s.removeTask u = some (b, s')) : s'.Progresses t p n ∧ s'.currentTask ≠ some u := by
  obtain ⟨c, elapsed, ahead, hturn, hbehind, hle⟩ := h
  have hrun := isRunning_of_removeTask hs
  rw [TaskManager.removeTask, if_pos hrun] at hs
  split_ifs at hs with hcur hmem
  · obtain ⟨s₁, h₁, heq⟩ := Option.map_eq_some_iff.mp hs
    obtain rfl : s₁ = s' := (Prod.mk.inj heq).2
    have hswitch := schedule_of_none (s := { s with currentTask := none }) (fun a ha => hsched.active_of_mem ha)
      rfl (habove.empty hsched) hbehind h₁
    refine ⟨((hswitch.progresses (fun a ha => hsched.active_of_mem ha) hbehind).mono
      ((Nat.sub_le _ _).trans hle)), ?_⟩
    obtain ⟨a, hcur', hmem⟩ := hswitch.mem
    rw [hcur']
    rintro ⟨rfl⟩
    rw [Scheduled, Places, hcur] at hsched
    exact hsched.not_mem_of_slot hmem
  · obtain rfl : _ = s' := (Prod.mk.inj (Option.some_inj.mp hs)).2
    refine ⟨.inr ?_, hcur⟩
    obtain ⟨behind, hq⟩ := hbehind
    have hturn' : Turn { s with runQueue := eraseFrom s.runQueue (s.getPriority u) u } c elapsed :=
      ⟨hturn.currentTask, hturn.isRunning, hturn.elapsedTicks, hturn.elapsed_lt⟩
    by_cases hp : s.getPriority u = p
    · by_cases hahead : u ∈ ahead
      · refine ⟨c, elapsed, ahead.erase u, hturn', ⟨behind, ?_⟩,
          (ticksLeft_mono (List.length_erase_le) _).trans hle⟩
        change eraseFrom s.runQueue (s.getPriority u) u p = _
        rw [eraseFrom, hp, Function.update_self, hq, List.erase_append_left _ hahead]
      · refine ⟨c, elapsed, ahead, hturn', ⟨behind.erase u, ?_⟩, hle⟩
        change eraseFrom s.runQueue (s.getPriority u) u p = _
        rw [eraseFrom, hp, Function.update_self, hq, List.erase_append_right _ hahead,
          List.erase_cons_tail (by simpa using hne.symm)]
    · refine ⟨c, elapsed, ahead, hturn', ⟨behind, ?_⟩, hle⟩
      change eraseFrom s.runQueue (s.getPriority u) u p = _
      rw [eraseFrom, Function.update_of_ne (Ne.symm hp), hq]
  · obtain rfl : s = s' := (Prod.mk.inj (Option.some_inj.mp hs)).2
    exact ⟨.inr ⟨c, elapsed, ahead, hturn, hbehind, hle⟩, hcur⟩

/-! ### Other changes -/

/-- The object of a task changes; when it is the current task, it runs as before. -/
lemma Progresses.setTask {f : Task → Task} (h : s.Progresses t p n) (hf : s.currentTask = some u →
      (f (s.task u)).state = (s.task u).state ∧ (f (s.task u)).elapsedTicks = (s.task u).elapsedTicks) :
    (s.setTask u f).Progresses t p n := by
  refine h.imp id ?_
  rintro ⟨c, elapsed, ahead, hturn, hbehind, hle⟩
  refine ⟨c, elapsed, ahead, ⟨hturn.currentTask, ?_, ?_, hturn.elapsed_lt⟩, hbehind, hle⟩
  · have hrun := hturn.isRunning
    by_cases hc : c = u
    · subst hc
      rw [isRunning_iff] at hrun ⊢
      rw [task_setTask_self, (hf hturn.currentTask).1, hrun]
    · rw [isRunning_iff] at hrun ⊢
      rw [task_setTask_of_ne hc, hrun]
  · by_cases hc : c = u
    · subst hc
      rw [task_setTask_self, (hf hturn.currentTask).2, hturn.elapsedTicks]
    · rw [task_setTask_of_ne hc, hturn.elapsedTicks]

lemma Waits.setTaskPriority {q : ℕ} {b : Bool} (h : s.Waits t p n) (hne : u ≠ t)
    (hs : s.setTaskPriority u q = some (b, s')) : s'.Progresses t p n := by
  rw [TaskManager.setTaskPriority] at hs
  split_ifs at hs with hterm hq
  · have hset : (s.setTask u fun t => { t with priority := ⟨q, hq⟩ }).Progresses t p n :=
      Progresses.setTask (.inr h) fun _ => ⟨rfl, rfl⟩
    obtain rfl : _ = s' := (Prod.mk.inj (Option.some_inj.mp hs)).2
    rw [updateTaskPriority]
    dsimp only
    split_ifs with hcur hsame hmem
    · exact hset
    · exact hset
    · refine hset.imp id ?_
      rintro ⟨c, elapsed, ahead, hturn, ⟨behind, hqueue⟩, hle⟩
      generalize s.setTask u (fun t => { t with priority := ⟨q, hq⟩ }) = s₁ at *
      -- the task leaves its old queue, and is the last one in its new queue
      have herase : ∃ ahead' behind', eraseFrom s₁.runQueue (s.getPriority u) u p = ahead' ++ t :: behind' ∧
          ahead'.length ≤ ahead.length := by
        by_cases hp : s.getPriority u = p
        · rw [eraseFrom, hp, Function.update_self, hqueue]
          by_cases hahead : u ∈ ahead
          · exact ⟨ahead.erase u, behind, List.erase_append_left _ hahead, List.length_erase_le⟩
          · refine ⟨ahead, behind.erase u, ?_, le_rfl⟩
            rw [List.erase_append_right _ hahead, List.erase_cons_tail (by simpa using hne.symm)]
        · exact ⟨ahead, behind, by rw [eraseFrom, Function.update_of_ne (Ne.symm hp), hqueue], le_rfl⟩
      obtain ⟨ahead', behind', hq', hlength⟩ := herase
      refine ⟨c, elapsed, ahead', ⟨hturn.currentTask, hturn.isRunning, hturn.elapsedTicks, hturn.elapsed_lt⟩,
        ?_, (ticksLeft_mono hlength _).trans hle⟩
      by_cases hp : s₁.getPriority u = p
      · refine ⟨behind' ++ [u], ?_⟩
        change pushBack _ _ u p = _
        rw [pushBack, hp, Function.update_self, hq', List.append_assoc, List.cons_append]
      · refine ⟨behind', ?_⟩
        change pushBack _ _ u p = _
        rw [pushBack, Function.update_of_ne (Ne.symm hp), hq']
    · exact hset
  · obtain rfl : s = s' := (Prod.mk.inj (Option.some_inj.mp hs)).2
    exact .inr h

/-! ### The scheduler -/

lemma Waits.schedule (h : s.Waits t p n) (hsched : s.Scheduled) (habove : s.NoneAbove p)
    (hs : s.schedule = some s') : s'.Progresses t p n := by
  rw [TaskManager.schedule] at hs
  split_ifs at hs with hpre
  · obtain rfl := Option.some_inj.mp hs
    exact .inr h
  · obtain ⟨c, elapsed, ahead, hturn, hbehind, hle⟩ := h
    obtain ⟨a, s₁, hfst, hs₁, hswitch⟩ := switchTo_highest hsched descending_sorted
      (habove.highest hsched hbehind (mem_descending p))
    obtain rfl : s₁ = s' := by
      revert hfst hs₁ hs
      generalize s.popTask descending = r
      obtain ⟨newTask, s₂⟩ := r
      rintro hs rfl hs₁
      exact Option.some_inj.mp (hs₁.symm.trans hs)
    exact (hswitch.progresses (fun a ha => hsched.active_of_mem ha) hbehind).mono
      ((Nat.sub_le _ _).trans hle)

lemma Behind.countTick (h : s.Behind t p ahead) : s.countTick.Behind t p ahead := by
  rw [Behind, runQueue_countTick]
  exact h

lemma isRunning_of_mem_countTick (hsched : s.Scheduled) : ∀ a ∈ s.countTick.runQueue p, s.countTick.isRunning a := by
  intro a ha
  rw [runQueue_countTick] at ha
  rw [frame_countTick.isRunning]
  exact hsched.active_of_mem ha

/-- The time slice of the current task is not over: there is one tick less to wait for. -/
lemma Waits.countTick (h : s.Waits t p n) (hcur : s.currentTask = some c) (hp : s.getPriority c = p)
    (hslice : ¬s.countTick.sliceUsedUp) : s.countTick.Waits t p (n - 1) := by
  obtain ⟨c', elapsed, ahead, hturn, hbehind, hle⟩ := h
  obtain rfl : c' = c := Option.some_inj.mp (hturn.currentTask.symm.trans hcur)
  have hticks : (s.countTick.task c').elapsedTicks = elapsed + 1 := by
    have hcount : s.countTick = s.setTask c' fun t => { t with elapsedTicks := wadd t.elapsedTicks 1 } := by
      rw [TaskManager.countTick, hcur]
    rw [hcount, task_setTask_self, hturn.elapsedTicks]
    exact Nat.mod_eq_of_lt hturn.elapsed_lt
  have hlt : elapsed + 1 < getTimeSliceForPriority p := by
    rw [sliceUsedUp, currentTask_countTick, hcur] at hslice
    simp only [decide_eq_true_eq, not_le] at hslice
    rw [hticks, frame_countTick.getPriority, hp] at hslice
    exact hslice
  have hten : getTimeSliceForPriority p ≤ 10 := by
    rw [getTimeSliceForPriority]
    split_ifs <;> decide
  refine ⟨c', elapsed + 1, ahead, ⟨?_, ?_, hticks, by omega⟩, hbehind.countTick, ?_⟩
  · rw [currentTask_countTick, hcur]
  · rw [frame_countTick.isRunning]
    exact hturn.isRunning
  · rw [ticksLeft] at hle ⊢
    omega

lemma Waits.schedulerTick (h : s.Waits t p n) (hsched : s.Scheduled) (habove : s.NoneAbove p)
    (hpre : ¬s.preemptDisabled) (hs : s.schedulerTick = some s') : s'.Progresses t p (n - 1) := by
  have hwaits := h
  obtain ⟨c, elapsed, ahead, hturn, hbehind, hle⟩ := h
  have hcur := hturn.currentTask
  have hprio := getCurrentPriority_countTick hcur
  have hcount : s.countTick.Scheduled := frame_countTick.scheduled (places_countTick.mpr hsched)
  have hswitch : ∀ {s'}, s.countTick.Switches p s' → s'.Progresses t p (n - 1) := fun hswitch =>
    (hswitch.progresses (isRunning_of_mem_countTick hsched) hbehind.countTick).mono (Nat.sub_le_sub_right hle 1)
  obtain hlt | heq := (habove c hturn.isRunning).lt_or_eq
  · obtain ⟨s₁, h₁, hsw⟩ := schedulerTick_higher hsched hpre
      (habove.highest hsched hbehind (P := fun i => s.countTick.getCurrentPriority < i) (hprio ▸ hlt))
    rw [h₁] at hs
    obtain rfl := Option.some_inj.mp hs
    exact hswitch hsw
  · rw [schedulerTick_of_empty hpre fun i hi => habove.empty hsched i (heq ▸ hprio ▸ hi)] at hs
    split_ifs at hs with hslice
    · obtain ⟨behind, hq⟩ := hbehind.countTick
      obtain ⟨a, rest, ha⟩ : ∃ a rest, s.countTick.runQueue p = a :: rest := by
        cases ahead with
        | nil => exact ⟨_, _, hq⟩
        | cons a l => exact ⟨_, _, hq⟩
      obtain ⟨s₁, h₁, hsw⟩ := switchTo_switches hcount ha
      have hfind : s.countTick.findInRoundRobin =
          (some a, { s.countTick with runQueue := Function.update s.countTick.runQueue p rest }) := by
        have hqueue : s.countTick.runQueue s.countTick.getCurrentPriority = a :: rest := by
          rw [hprio, heq, ha]
        have hpop := findInRoundRobin_of_cons hqueue
        rw [hprio, heq] at hpop
        exact hpop
      rw [hfind, h₁] at hs
      obtain rfl := Option.some_inj.mp hs
      exact hswitch hsw
    · obtain rfl := Option.some_inj.mp hs
      exact .inr (hwaits.countTick hcur heq hslice)

/-! ### Runs -/

/-- The call is not about the task itself: the task may be woken, but does not lose its place. -/
def Op.Spares (t : TaskPtr) : Op → Prop
  | .pauseTask u         => u ≠ t
  | .sleepTask u _       => u ≠ t
  | .setTaskPriority u _ => u ≠ t
  | .killTask _ u        => u ≠ t
  | _                    => True

/-- How many ticks a call counts for. -/
def Op.ticks : Op → ℕ
  | .tick => 1
  | _     => 0

/-- The calls of a run, and the states between them: the calls are not about the task, no task of a higher
priority runs, and preemption is enabled at each tick. -/
def Quiet (t : TaskPtr) (p : Priority) : TaskManager → List Op → Prop
  | s, []        => s.NoneAbove p
  | s, op :: ops => s.NoneAbove p ∧ op.Spares t ∧ (op = .tick → ¬s.preemptDisabled) ∧
      ∀ s', op.run s = some s' → Quiet t p s' ops

lemma preemptDisabled_eq (s : TaskManager) :
    s.preemptDisabled = s.currentTask.elim false fun old => !s.canPreempt old := by
  rw [preemptDisabled]
  cases s.currentTask <;> rfl

lemma preemptDisabled_wakeTask (hs : s.wakeTask u = some s') : s'.preemptDisabled = s.preemptDisabled := by
  rw [preemptDisabled_eq, preemptDisabled_eq, currentTask_wakeTask hs]
  by_cases hterm : s.isTerminated u
  · rw [TaskManager.wakeTask, if_pos hterm] at hs
    cases hs
  · rw [wakeTask_eq hterm] at hs
    obtain rfl := Option.some_inj.mp hs
    split_ifs with hrun
    · rfl
    · cases s.currentTask with
      | none => rfl
      | some old =>
        rw [Option.elim_some, Option.elim_some, canPreempt, canPreempt]
        by_cases hold : old = u
        · rw [hold, task_woken_self]
        · rw [task_woken_of_ne hold]

lemma preemptDisabled_foldlM {l : List TaskPtr} (hs : l.foldlM TaskManager.wakeTask s = some s') :
    s'.preemptDisabled = s.preemptDisabled := by
  induction l generalizing s with
  | nil =>
    cases hs
    rfl
  | cons u l ih =>
    rw [List.foldlM_cons] at hs
    obtain ⟨s₁, h₁, hs⟩ := Option.bind_eq_some_iff.mp hs
    rw [ih hs, preemptDisabled_wakeTask h₁]

/-- The deadlines of the sleeping tasks do not matter. -/
lemma Waits.items {l : List (Item TaskPtr)} (h : s.Waits t p n) :
    ({ s with items := l } : TaskManager).Waits t p n := by
  obtain ⟨c, elapsed, ahead, ⟨hcur, hrun, helapsed, hlt⟩, hbehind, hle⟩ := h
  exact ⟨c, elapsed, ahead, ⟨hcur, hrun, helapsed, hlt⟩, hbehind, hle⟩

lemma Progresses.items {l : List (Item TaskPtr)} (h : s.Progresses t p n) :
    ({ s with items := l } : TaskManager).Progresses t p n :=
  h.imp_right Waits.items

lemma Waits.tick (h : s.Waits t p n) (hsched : s.Scheduled) (hpre : ¬s.preemptDisabled)
    (hs : s.tick = some s') (habove : s'.NoneAbove p) : s'.Progresses t p (n - 1) := by
  obtain ⟨s₁, h₁, hs⟩ := Option.bind_eq_some_iff.mp hs
  have hitems : ({ s with items := (DeltaQueue.tick s.items).2 } : TaskManager).Scheduled := hsched
  have hsched₁ := hitems.foldlM_wakeTask h₁
  obtain ⟨s₂, h₂, -, hframe⟩ := schedulerTick_spec hsched₁ fun _ hc => hc
  obtain rfl := Option.some_inj.mp (h₂.symm.trans hs)
  refine (h.items.foldlM_wakeTask h₁).schedulerTick hsched₁ (fun c hc => ?_) ?_ hs
  · have hle := habove c (by rw [hframe.isRunning]; exact hc)
    rw [hframe.getPriority] at hle
    exact hle
  · rw [preemptDisabled_foldlM h₁]
    exact hpre

/-- Whatever the call is: it is the turn of the task, or it goes on waiting, one tick less if the call is a
tick. -/
lemma Waits.run {op : Op} (h : s.Waits t p n) (hsched : s.Scheduled) (habove : s.NoneAbove p)
    (hspares : op.Spares t) (hpre : op = .tick → ¬s.preemptDisabled) (hop : op.run s = some s')
    (habove' : s'.NoneAbove p) : s'.Progresses t p (n - op.ticks) := by
  cases op with
  | wakeTask u => exact .inr (h.wakeTask hop)
  | pauseTask u =>
    obtain ⟨-, ⟨-, rfl⟩ | ⟨-, b, s₁, h₁, rfl⟩⟩ := pauseTask_eq_some hop
    · exact .inr h
    · obtain ⟨hprogress, hcur⟩ := h.removeTask hsched habove hspares h₁
      exact hprogress.setTask fun heq => absurd heq hcur
  | sleepTask u time =>
    obtain ⟨-, ⟨-, rfl⟩ | ⟨-, b, s₁, h₁, rfl⟩⟩ := sleepTask_eq_some hop
    · exact .inr h
    · obtain ⟨hprogress, hcur⟩ := h.removeTask hsched habove hspares h₁
      exact (hprogress.setTask fun heq => absurd heq hcur).items
  | setTaskPriority u q =>
    obtain ⟨⟨b, s₁⟩, h₁, rfl⟩ := Option.map_eq_some_iff.mp hop
    exact h.setTaskPriority hspares h₁
  | schedule => exact h.schedule hsched habove hop
  | tick => exact h.tick hsched (hpre rfl) hop habove'
  | disablePreempt u =>
    obtain rfl := Option.some_inj.mp hop
    exact Progresses.setTask (.inr h) fun _ => ⟨rfl, rfl⟩
  | enablePreempt u =>
    rw [Op.run, enablePreempt] at hop
    split_ifs at hop
    obtain rfl := Option.some_inj.mp hop
    exact Progresses.setTask (.inr h) fun _ => ⟨rfl, rfl⟩
  | killTask freed u =>
    obtain ⟨-, rfl⟩ | ⟨b, s₁, s₂, h₁, h₂, rfl⟩ := killTask_eq_some hop
    · exact .inr h
    · obtain ⟨hprogress, hcur⟩ := h.removeTask hsched habove hspares h₁
      obtain ⟨s₃, h₃, hwakes, -⟩ := wakeAll_spec (s := s₁) (freed u)
      obtain rfl := Option.some_inj.mp (h₃.symm.trans h₂)
      exact (hprogress.wakeAll h₂).setTask fun heq => absurd (hwakes.currentTask ▸ heq) hcur

/-- The number of ticks in a list of calls. -/
def countTicks (ops : List Op) : ℕ := (ops.map Op.ticks).sum

lemma Quiet.noneAbove {ops : List Op} (h : Quiet t p s ops) : s.NoneAbove p := by
  cases ops with
  | nil => exact h
  | cons op ops => exact h.1

lemma Waits.exists_turn {ops : List Op} (h : s.Waits t p n) (hsched : s.Scheduled) (hquiet : Quiet t p s ops)
    (hrun : s.runAll ops = some s') (hticks : n ≤ countTicks ops) :
    ∃ pre s₁, pre <+: ops ∧ s.runAll pre = some s₁ ∧ s₁.currentTask = some t := by
  induction ops generalizing s n with
  | nil =>
    obtain ⟨c, elapsed, ahead, -, -, hle⟩ := h
    have hzero : n = 0 := Nat.le_zero.mp hticks
    rw [hzero, ticksLeft] at hle
    omega
  | cons op ops ih =>
    obtain ⟨habove, hspares, hpre, hquiet⟩ := hquiet
    rw [TaskManager.runAll, List.foldlM_cons] at hrun
    obtain ⟨s₁, h₁, hrun⟩ := Option.bind_eq_some_iff.mp hrun
    have hstep : ∀ pre, s.runAll (op :: pre) = s₁.runAll pre := by
      intro pre
      rw [TaskManager.runAll, List.foldlM_cons, h₁]
      rfl
    obtain hcur | hwaits := h.run hsched habove hspares hpre h₁ (hquiet s₁ h₁).noneAbove
    · exact ⟨[op], s₁, ⟨ops, rfl⟩, hstep [], hcur⟩
    · rw [countTicks, List.map_cons, List.sum_cons] at hticks
      obtain ⟨pre, s₂, ⟨post, rfl⟩, hpre', hcur⟩ := ih hwaits (hsched.run h₁) (hquiet s₁ h₁) hrun
        (Nat.sub_le_iff_le_add'.mpr hticks)
      exact ⟨op :: pre, s₂, ⟨post, rfl⟩, (hstep pre).trans hpre', hcur⟩

/-- A task behind some others in the run queue of its priority gets its turn at the latest when each of them
and the current task have used up a time slice, in every run in which no task of a higher priority runs. -/
theorem exists_turn_of_behind {ops : List Op} (h : Reaches s) (hcur : s.currentTask = some c)
    (hticks : (s.task c).elapsedTicks + 1 < 2 ^ 64) (hbehind : s.Behind t p ahead) (hquiet : Quiet t p s ops)
    (hrun : s.runAll ops = some s') (hle : getTimeSliceForPriority p * (ahead.length + 1) ≤ countTicks ops) :
    ∃ pre s₁, pre <+: ops ∧ s.runAll pre = some s₁ ∧ s₁.currentTask = some t := by
  have hsched := scheduled_of_reaches h
  have hturn : s.Turn c (s.task c).elapsedTicks := by
    refine ⟨hcur, ?_, rfl, hticks⟩
    rw [Scheduled, Places, hcur] at hsched
    exact hsched.active_of_slot
  refine Waits.exists_turn ⟨c, _, ahead, hturn, hbehind, ?_⟩ hsched hquiet hrun hle
  have hpos := getTimeSliceForPriority_pos p
  rw [ticksLeft, Nat.mul_add, Nat.mul_one]
  omega

/-- While only ticks happen, and no priority is above that of the task. -/
lemma quiet_replicate_tick (habove : ∀ s : TaskManager, s.NoneAbove p)
    (h : ∀ i < n, (s.runAll (List.replicate i .tick)).all fun s' => !s'.preemptDisabled) :
    Quiet t p s (List.replicate n .tick) := by
  induction n generalizing s with
  | zero => exact habove s
  | succ n ih =>
    refine ⟨habove s, trivial, fun _ => ?_, fun s₁ h₁ => ih fun i hi => ?_⟩
    · have hzero := h 0 n.succ_pos
      rw [List.replicate_zero, TaskManager.runAll, List.foldlM_nil] at hzero
      simpa using hzero
    · have hsucc := h (i + 1) (Nat.succ_lt_succ hi)
      rw [List.replicate_succ, TaskManager.runAll, List.foldlM_cons, h₁] at hsucc
      exact hsucc

/-- The calls that put a task behind another one, with the highest priority. -/
def twoAhead : List Op :=
  [.wakeTask 1, .wakeTask 2, .wakeTask 3, .setTaskPriority 1 31, .setTaskPriority 2 31,
    .setTaskPriority 3 31, .schedule]

theorem exists_turn_of_behind_twoAhead :
    ∃ s s', created.runAll twoAhead = some s ∧ s.runAll (List.replicate 20 .tick) = some s' ∧
      ∃ pre s₁, pre <+: List.replicate 20 .tick ∧ s.runAll pre = some s₁ ∧ s₁.currentTask = some 3 := by
  have hstart : (created.runAll twoAhead).any (fun s => decide ((s.currentTask = some 1 ∧
      (s.task 1).elapsedTicks = 0 ∧ s.runQueue 31 = [2, 3]) ∧
        (s.runAll (List.replicate 20 .tick)).isSome ∧
          ∀ i < 20, (s.runAll (List.replicate i .tick)).all fun s' => !s'.preemptDisabled)) = true := by
    decide +kernel
  obtain ⟨s, hs, hcheck⟩ := (Option.any_eq_true _ _).mp hstart
  obtain ⟨⟨hcur, helapsed, hqueue⟩, hrun, hpre⟩ := of_decide_eq_true hcheck
  obtain ⟨s', hs'⟩ := Option.isSome_iff_exists.mp hrun
  have habove (s : TaskManager) : s.NoneAbove 31 := fun c _ => Fin.le_last _
  have hticks : (s.task 1).elapsedTicks + 1 < 2 ^ 64 := by
    rw [helapsed]
    decide
  have hbehind : s.Behind 3 31 [2] := ⟨[], hqueue⟩
  exact ⟨s, s', hs, hs', exists_turn_of_behind ((Reaches.start initial_created).runAll hs) hcur hticks
    hbehind (quiet_replicate_tick habove hpre) hs' (by decide)⟩

end TaskManager

end PiKachulm.Tasks

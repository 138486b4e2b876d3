import Mathlib.Data.Finset.Max
import Mathlib.Data.List.TakeWhile
import PiKachulm.Tasks.RunQueue

/-!
# The scheduling policy

`Scheduler::tick` compared with the multilevel queue that its comment describes. It differs in two
cases: the search below the current priority looks at the queue of the current priority only, and
without a current task the queue of the lowest priority is not looked at.
-/

namespace PiKachulm.Tasks

open Core

namespace TaskManager

variable {s s' : TaskManager} {t old : TaskPtr} {p : Priority} {rest : List TaskPtr}

/-- `p` is the highest priority of `P` whose run queue has a task. -/
structure Highest (s : TaskManager) (P : Priority → Prop) (p : Priority) : Prop where
  mem : P p
  nonempty : s.runQueue p ≠ []
  empty : ∀ i, P i → p < i → s.runQueue i = []

/-- All run queues of `P` are empty. -/
def AllEmpty (s : TaskManager) (P : Priority → Prop) : Prop := ∀ i, P i → s.runQueue i = []

/-- The run queues after the first task of `p` has been taken and the current task enqueued. -/
def switchedQueue (s : TaskManager) (p : Priority) : Priority → List TaskPtr :=
  let q := Function.update s.runQueue p (s.runQueue p).tail
  match s.currentTask with
  | none     => q
  | some old => pushBack q (s.getPriority old) old

/-- The first task of the queue of `p` becomes the current one, with a new time slice, and the old
current task is the last of the queue of its priority. -/
structure Switches (s : TaskManager) (p : Priority) (s' : TaskManager) : Prop where
  current : ∃ t, (s.runQueue p).head? = some t ∧ s'.currentTask = some t ∧
    s'.task = Function.update s.task t { s.task t with elapsedTicks := 0 }
  runQueue : s'.runQueue = s.switchedQueue p
  items : s'.items = s.items

/-- The multilevel queue policy, one constructor for each case of a state. The tick is counted first,
and the count is what is compared with the time slice. -/
inductive TickPolicy (s : TaskManager) : TaskManager → Prop
  | disabled (h : s.preemptDisabled) : TickPolicy s s.countTick
  | higher {s' : TaskManager} {old : TaskPtr} {p : Priority} (hcur : s.currentTask = some old)
    (hpre : s.canPreempt old) (hp : s.Highest (fun i => s.getPriority old < i) p)
    (hs : s.countTick.Switches p s') : TickPolicy s s'
  | same {s' : TaskManager} {old : TaskPtr} (hcur : s.currentTask = some old) (hpre : s.canPreempt old)
    (hempty : s.AllEmpty fun i => s.getPriority old < i) (hslice : s.countTick.sliceUsedUp)
    (hsame : s.runQueue (s.getPriority old) ≠ []) (hs : s.countTick.Switches (s.getPriority old) s') :
    TickPolicy s s'
  | lower {s' : TaskManager} {old : TaskPtr} {p : Priority} (hcur : s.currentTask = some old)
    (hpre : s.canPreempt old) (hempty : s.AllEmpty fun i => s.getPriority old ≤ i)
    (hslice : s.countTick.sliceUsedUp) (hp : s.Highest (fun i => i < s.getPriority old) p)
    (hs : s.countTick.Switches p s') : TickPolicy s s'
  | alone {old : TaskPtr} (hcur : s.currentTask = some old) (hpre : s.canPreempt old)
    (hslice : s.countTick.sliceUsedUp) (hempty : s.AllEmpty fun _ => True) : TickPolicy s s.countTick
  | slice {old : TaskPtr} (hcur : s.currentTask = some old) (hpre : s.canPreempt old)
    (hempty : s.AllEmpty fun i => s.getPriority old < i) (hslice : ¬s.countTick.sliceUsedUp) :
    TickPolicy s s.countTick
  | idle {s' : TaskManager} {p : Priority} (hcur : s.currentTask = none) (hp : s.Highest (fun _ => True) p)
    (hs : s.Switches p s') : TickPolicy s s'
  | nothing (hcur : s.currentTask = none) (hempty : s.AllEmpty fun _ => True) : TickPolicy s s

/-- The states in which the policy switches to a task that the function does not look for. -/
def Overlooks (s : TaskManager) : Prop :=
  (∃ old, s.currentTask = some old ∧ s.canPreempt old ∧ s.countTick.sliceUsedUp ∧
    s.AllEmpty (fun i => s.getPriority old ≤ i) ∧ ∃ i, s.runQueue i ≠ []) ∨
  (s.currentTask = none ∧ s.AllEmpty (fun i => 0 < i) ∧ s.runQueue 0 ≠ [])

/-! ### Searches -/

lemma descending_sorted : descending.Pairwise (· > ·) := List.pairwise_reverse.mpr (List.pairwise_lt_finRange 32)

lemma mem_descending (i : Priority) : i ∈ descending := List.mem_reverse.mpr (List.mem_finRange i)

lemma mem_higher {i : Priority} : i ∈ descending.takeWhile (fun i => decide (i > p)) ↔ p < i := by
  rw [mem_takeWhile_of_sorted descending_sorted, and_iff_right (mem_descending i)]

lemma higher_sorted : (descending.takeWhile fun i => decide (i > p)).Pairwise (· > ·) :=
  descending_sorted.sublist (List.takeWhile_sublist _)

lemma exists_highest {P : Priority → Prop} (h : ¬s.AllEmpty P) : ∃ p, s.Highest P p := by
  simp only [AllEmpty, not_forall] at h
  obtain ⟨i, hi, hne⟩ := h
  classical
  obtain ⟨p, hp, hmax⟩ := Finset.exists_max_image {i | P i ∧ s.runQueue i ≠ []} id
    ⟨i, Finset.mem_filter.mpr ⟨Finset.mem_univ i, hi, hne⟩⟩
  obtain ⟨-, hp, hpne⟩ := Finset.mem_filter.mp hp
  refine ⟨p, hp, hpne, fun j hj hlt => ?_⟩
  by_contra hjne
  exact (hmax j (Finset.mem_filter.mpr ⟨Finset.mem_univ j, hj, hjne⟩)).not_gt hlt

lemma popTask_of_empty {is : List Priority} (h : ∀ i ∈ is, s.runQueue i = []) :
    s.popTask is = (none, s) := by
  rw [popTask, popFirst_eq_none.mpr h]

/-- The first task of a queue is taken and switched to. -/
lemma switchTo_switches (h : s.Scheduled) (hp : s.runQueue p = t :: rest) : ∃ s',
    switchTo { s with runQueue := Function.update s.runQueue p rest } (some t) = some s' ∧
      s.Switches p s' := by
  have hmem : t ∈ s.runQueue p := hp ▸ List.mem_cons_self
  have hrun : isRunning { s with runQueue := Function.update s.runQueue p rest } t = true :=
    h.active_of_mem hmem
  refine ⟨_, by rw [switchTo, if_pos hrun], ⟨t, by rw [hp]; rfl, rfl, ?_⟩, ?_, ?_⟩
  all_goals
    rw [enqueueOld]
    cases hcur : s.currentTask with
    | none     => simp [setTask, switchedQueue, hcur, hp]
    | some old =>
      have hne : old ≠ t := by
        rintro rfl
        rw [Scheduled, Places, hcur] at h
        exact h.not_mem_of_slot hmem
      simp [setTask, switchedQueue, hcur, hp, hne, getPriority]

/-- A search along a decreasing list switches to the highest queue that is not empty. -/
lemma switchTo_highest {is : List Priority} (h : s.Scheduled) (hsorted : is.Pairwise (· > ·))
    (hp : s.Highest (· ∈ is) p) : ∃ t s', (s.popTask is).1 = some t ∧
      (s.popTask is).2.switchTo (some t) = some s' ∧ s.Switches p s' := by
  obtain ⟨t, rest, hq⟩ := List.exists_cons_of_ne_nil hp.nonempty
  have hpop := (popFirst_eq_some_of_sorted hsorted).mpr ⟨p, rest, hp.mem, hq, hp.empty, rfl⟩
  obtain ⟨s', hs', hsw⟩ := switchTo_switches h hq
  refine ⟨t, s', ?_, ?_, hsw⟩ <;> rw [popTask, hpop]
  exact hs'

/-! ### The state after the tick is counted -/

@[simp] lemma currentTask_countTick : s.countTick.currentTask = s.currentTask := by
  rw [countTick]
  split <;> rfl

@[simp] lemma runQueue_countTick : s.countTick.runQueue = s.runQueue := by
  rw [countTick]
  split <;> rfl

lemma countTick_of_none (hcur : s.currentTask = none) : s.countTick = s := by
  rw [countTick, hcur]

lemma getCurrentPriority_countTick (hcur : s.currentTask = some old) :
    s.countTick.getCurrentPriority = s.getPriority old := by
  rw [getCurrentPriority, currentTask_countTick, hcur]
  exact congrFun frame_countTick.getPriority old

lemma preemptDisabled_countTick : s.countTick.preemptDisabled = s.preemptDisabled := by
  rw [preemptDisabled, preemptDisabled, currentTask_countTick]
  split
  · rfl
  · rename_i old _
    obtain ⟨n, hn⟩ := (frame_countTick (s := s)).task old
    rw [canPreempt, canPreempt, hn]

lemma preemptDisabled_of_some (hcur : s.currentTask = some old) :
    s.preemptDisabled = !s.canPreempt old := by
  rw [preemptDisabled, hcur]

lemma Highest.countTick {P : Priority → Prop} (h : s.Highest P p) : s.countTick.Highest P p := by
  obtain ⟨hmem, hne, hempty⟩ := h
  constructor <;> simpa only [runQueue_countTick]

lemma Highest.congr {P Q : Priority → Prop} (h : s.Highest P p) (hiff : ∀ i, Q i ↔ P i) :
    s.Highest Q p :=
  ⟨(hiff p).mpr h.mem, h.nonempty, fun i hi => h.empty i ((hiff i).mp hi)⟩

/-! ### The function -/

/-- A task of higher priority preempts. -/
lemma schedulerTick_higher (h : s.Scheduled) (hpre : ¬s.preemptDisabled)
    (hp : s.Highest (fun i => s.countTick.getCurrentPriority < i) p) :
    ∃ s', s.schedulerTick = some s' ∧ s.countTick.Switches p s' := by
  have hcount : s.countTick.Scheduled := frame_countTick.scheduled (places_countTick.mpr h)
  obtain ⟨t, s', hfst, hs', hsw⟩ := switchTo_highest hcount higher_sorted
    (hp.countTick.congr fun _ => mem_higher)
  refine ⟨s', ?_, hsw⟩
  rw [schedulerTick]
  dsimp only
  rw [preemptDisabled_countTick, if_neg hpre, findHigherPriorityTaskThanCurrent]
  revert hfst hs'
  generalize s.countTick.popTask _ = r
  obtain ⟨newTask, s₁⟩ := r
  rintro rfl hs'
  exact hs'

/-- Without such a task the time slice decides. -/
lemma schedulerTick_of_empty (hpre : ¬s.preemptDisabled)
    (hempty : s.AllEmpty fun i => s.countTick.getCurrentPriority < i) :
    s.schedulerTick = if s.countTick.sliceUsedUp then
      s.countTick.findInRoundRobin.2.switchTo s.countTick.findInRoundRobin.1 else some s.countTick := by
  have hfind : s.countTick.findHigherPriorityTaskThanCurrent = (none, s.countTick) := by
    apply popTask_of_empty
    intro i hi
    rw [runQueue_countTick]
    exact hempty i (mem_higher.mp hi)
  rw [schedulerTick]
  dsimp only
  rw [preemptDisabled_countTick, if_neg hpre, hfind]
  rfl

lemma findInRoundRobin_of_cons (hq : s.runQueue s.getCurrentPriority = t :: rest) :
    s.findInRoundRobin =
      (some t, { s with runQueue := Function.update s.runQueue s.getCurrentPriority rest }) := by
  have hne : descending.dropWhile (fun i => decide (i > s.getCurrentPriority)) ≠ [] := by
    rw [ne_eq, List.dropWhile_eq_nil_iff]
    exact fun hall => lt_irrefl _ (of_decide_eq_true (hall _ (mem_descending _)))
  rw [findInRoundRobin, popTask, popFirst_map_const hne hq]

lemma findInRoundRobin_of_nil (hq : s.runQueue s.getCurrentPriority = []) :
    s.findInRoundRobin = (none, s) := by
  apply popTask_of_empty
  intro i hi
  obtain ⟨-, -, rfl⟩ := List.mem_map.mp hi
  exact hq

lemma Switches.mem (h : s.Switches p s') : ∃ t, s'.currentTask = some t ∧ t ∈ s.runQueue p := by
  obtain ⟨t, hhead, hcur, -⟩ := h.current
  exact ⟨t, hcur, List.mem_of_head? hhead⟩

/-- Where a task is overlooked the policy makes a queued task the current one. -/
lemma TickPolicy.mem_of_overlooks (h : TickPolicy s s') (hover : s.Overlooks) :
    ∃ t p, s'.currentTask = some t ∧ t ∈ s.runQueue p := by
  have hswitch : ∀ p, s.countTick.Switches p s' → ∃ t p, s'.currentTask = some t ∧ t ∈ s.runQueue p := by
    intro p hs
    obtain ⟨t, hcur, hmem⟩ := hs.mem
    rw [runQueue_countTick] at hmem
    exact ⟨t, p, hcur, hmem⟩
  rcases hover with ⟨old, hcur, hpre, hslice, hempty, i, hi⟩ | ⟨hcur, hempty, hzero⟩
  · cases h with
    | disabled h              =>
      rw [preemptDisabled_of_some hcur, hpre] at h
      cases h
    | higher _ _ _ hs         => exact hswitch _ hs
    | same _ _ _ _ _ hs       => exact hswitch _ hs
    | lower _ _ _ _ _ hs      => exact hswitch _ hs
    | alone _ _ _ hall        => exact (hi (hall i trivial)).elim
    | slice _ _ _ hnot        => exact (hnot hslice).elim
    | idle hnone _ _          =>
      rw [hcur] at hnone
      cases hnone
    | nothing hnone _         =>
      rw [hcur] at hnone
      cases hnone
  · cases h with
    | disabled h              =>
      rw [preemptDisabled, hcur] at h
      cases h
    | higher _ _ _ hs         => exact hswitch _ hs
    | same _ _ _ _ _ hs       => exact hswitch _ hs
    | lower _ _ _ _ _ hs      => exact hswitch _ hs
    | alone hsome _ _ _       =>
      rw [hcur] at hsome
      cases hsome
    | slice hsome _ _ _       =>
      rw [hcur] at hsome
      cases hsome
    | idle _ _ hs             =>
      obtain ⟨t, hcur', hmem⟩ := hs.mem
      exact ⟨t, _, hcur', hmem⟩
    | nothing _ hall          => exact (hzero (hall 0 trivial)).elim

/-- A current task is in no queue, so that the policy does not leave it where a task is overlooked. -/
lemma not_tickPolicy (h : s.Scheduled) (hover : s.Overlooks) (hcur : s'.currentTask = s.currentTask) :
    ¬TickPolicy s s' := by
  intro hpol
  obtain ⟨t, p, ht, hmem⟩ := hpol.mem_of_overlooks hover
  rw [hcur] at ht
  rw [Scheduled, Places, ht] at h
  exact h.not_mem_of_slot hmem

/-- Without a current task. -/
lemma tickPolicy_of_none (h : s.Scheduled) (hcur : s.currentTask = none) :
    ∃ s', s.schedulerTick = some s' ∧ (TickPolicy s s' ↔ ¬s.Overlooks) := by
  have hcount := countTick_of_none hcur
  have hpre : ¬s.preemptDisabled := by simp [preemptDisabled, hcur]
  have hprio : s.countTick.getCurrentPriority = 0 := by rw [hcount, getCurrentPriority, hcur]
  have hnone : ∀ old, s.currentTask ≠ some old := by simp [hcur]
  by_cases hempty : s.AllEmpty fun i => 0 < i
  · refine ⟨s, ?_, ?_⟩
    · rw [schedulerTick_of_empty hpre (by rwa [hprio]), hcount, sliceUsedUp, hcur]
      rfl
    · by_cases hzero : s.runQueue 0 = []
      · refine iff_of_true (.nothing hcur fun i _ => ?_) ?_
        · rcases eq_or_ne i 0 with rfl | hi
          · exact hzero
          · exact hempty i (Fin.pos_iff_ne_zero.mpr hi)
        · rintro (⟨old, hold, -⟩ | ⟨-, -, hne⟩)
          · exact hnone old hold
          · exact hne hzero
      · have hover : s.Overlooks := .inr ⟨hcur, hempty, hzero⟩
        exact iff_of_false (not_tickPolicy h hover rfl) (not_not.mpr hover)
  · obtain ⟨p, hp⟩ := exists_highest hempty
    obtain ⟨s', hs', hsw⟩ := schedulerTick_higher h hpre (hp.congr fun i => by rw [hprio])
    rw [hcount] at hsw
    refine ⟨s', hs', iff_of_true (.idle hcur ⟨trivial, hp.nonempty, fun i _ hlt => ?_⟩ hsw) ?_⟩
    · exact hp.empty i (lt_trans hp.mem hlt) hlt
    · rintro (⟨old, hold, -⟩ | ⟨-, hall, -⟩)
      · exact hnone old hold
      · exact hempty hall

lemma overlooks_of_some (hcur : s.currentTask = some old) (hcan : s.canPreempt old) :
    s.Overlooks ↔ s.countTick.sliceUsedUp ∧ s.AllEmpty (fun i => s.getPriority old ≤ i) ∧
      ∃ i, s.runQueue i ≠ [] := by
  constructor
  · rintro (⟨old', hcur', -, hslice⟩ | ⟨hcur', -⟩) <;> rw [hcur] at hcur' <;> cases hcur'
    exact hslice
  · rintro ⟨hslice, hover⟩
    exact .inl ⟨old, hcur, hcan, hslice, hover⟩

/-- With a current task that can be preempted. -/
lemma tickPolicy_of_some (h : s.Scheduled) (hcur : s.currentTask = some old) (hcan : s.canPreempt old) :
    ∃ s', s.schedulerTick = some s' ∧ (TickPolicy s s' ↔ ¬s.Overlooks) := by
  have hcount : s.countTick.Scheduled := frame_countTick.scheduled (places_countTick.mpr h)
  have hpre : ¬s.preemptDisabled := by simp [preemptDisabled_of_some hcur, hcan]
  have hprio := getCurrentPriority_countTick hcur
  rw [overlooks_of_some hcur hcan]
  by_cases hempty : s.AllEmpty fun i => s.getPriority old < i
  · have htick := schedulerTick_of_empty hpre (by rwa [hprio])
    by_cases hslice : s.countTick.sliceUsedUp
    · rw [if_pos hslice] at htick
      cases hq : s.runQueue (s.getPriority old) with
      | nil         =>
        rw [findInRoundRobin_of_nil (by rwa [runQueue_countTick, hprio])] at htick
        refine ⟨_, htick, ?_⟩
        by_cases hall : s.AllEmpty fun _ => True
        · exact iff_of_true (.alone hcur hcan hslice hall) fun ⟨_, _, i, hi⟩ => hi (hall i trivial)
        · have hover : s.countTick.sliceUsedUp ∧ s.AllEmpty (fun i => s.getPriority old ≤ i) ∧
              ∃ i, s.runQueue i ≠ [] := by
            refine ⟨hslice, fun i hi => ?_, ?_⟩
            · rcases hi.eq_or_lt with rfl | hlt
              · exact hq
              · exact hempty i hlt
            · simpa [AllEmpty] using hall
          exact iff_of_false (not_tickPolicy h ((overlooks_of_some hcur hcan).mpr hover) currentTask_countTick)
            (not_not.mpr hover)
      | cons t rest =>
        have hq' : s.countTick.runQueue s.countTick.getCurrentPriority = t :: rest := by
          rwa [runQueue_countTick, hprio]
        rw [findInRoundRobin_of_cons hq'] at htick
        obtain ⟨s', hs', hsw⟩ := switchTo_switches hcount hq'
        rw [hprio] at hsw
        refine ⟨s', htick.trans hs', iff_of_true (.same hcur hcan hempty hslice (by simp [hq]) hsw) ?_⟩
        rintro ⟨-, hall, -⟩
        rw [hall _ le_rfl] at hq
        cases hq
    · rw [if_neg hslice] at htick
      exact ⟨_, htick, iff_of_true (.slice hcur hcan hempty hslice) fun hover => hslice hover.1⟩
  · obtain ⟨p, hp⟩ := exists_highest hempty
    obtain ⟨s', hs', hsw⟩ := schedulerTick_higher h hpre (hp.congr fun i => by rw [hprio])
    exact ⟨s', hs', iff_of_true (.higher hcur hcan hp hsw)
      fun hover => hempty fun i hi => hover.2.1 i hi.le⟩

/-- The function follows the policy except where it overlooks a task. -/
theorem tickPolicy_iff (h : s.Scheduled) :
    ∃ s', s.schedulerTick = some s' ∧ (TickPolicy s s' ↔ ¬s.Overlooks) := by
  cases hcur : s.currentTask with
  | none     => exact tickPolicy_of_none h hcur
  | some old =>
    by_cases hcan : s.canPreempt old
    · exact tickPolicy_of_some h hcur hcan
    · have hpre : s.preemptDisabled := by simp [preemptDisabled_of_some hcur, hcan]
      refine ⟨s.countTick, ?_, iff_of_true (.disabled hpre) ?_⟩
      · rw [schedulerTick]
        dsimp only
        rw [preemptDisabled_countTick, if_pos hpre]
      · rintro (⟨old', hcur', hcan', -⟩ | ⟨hcur', -⟩) <;> rw [hcur] at hcur' <;> cases hcur'
        exact hcan hcan'

/-- The current task has one tick left, and another one with the same priority waits. -/
def lastTick : List Op := [.wakeTask 1, .wakeTask 2, .schedule] ++ List.replicate 9 .tick

theorem tickPolicy_iff_lastTick : ∃ s s', created.runAll lastTick = some s ∧ s.currentTask = some 1 ∧
    s.runQueue 15 = [2] ∧ s.countTick.sliceUsedUp ∧ s.schedulerTick = some s' ∧ TickPolicy s s' := by
  have hrun : (created.runAll lastTick).any (fun s => decide (s.currentTask = some 1 ∧ s.runQueue 15 = [2] ∧
      s.getPriority 1 = 15 ∧ s.countTick.sliceUsedUp = true)) = true := by
    decide +kernel
  obtain ⟨s, hs, h⟩ := (Option.any_eq_true _ _).mp hrun
  obtain ⟨hcur, hqueue, hprio, hslice⟩ := of_decide_eq_true h
  obtain ⟨s', hs', hiff⟩ := tickPolicy_iff (scheduled_of_reaches ((Reaches.start initial_created).runAll hs))
  refine ⟨s, s', hs, hcur, hqueue, hslice, hs', hiff.mpr ?_⟩
  rintro (⟨old, hold, -, -, hall, -⟩ | ⟨hnone, -⟩)
  · obtain rfl : 1 = old := Option.some_inj.mp (hcur.symm.trans hold)
    rw [hall 15 hprio.le] at hqueue
    cases hqueue
  · cases hcur.symm.trans hnone

/-- A task of priority 20 has used nine ticks, and one of priority 15 waits. -/
def nineTicks : List Op :=
  [.wakeTask 1, .setTaskPriority 1 20, .schedule, .wakeTask 2] ++ List.replicate 9 .tick

/-- The tenth tick leaves the current task, although its slice is used up and a task of lower priority
waits. -/
theorem not_tickPolicy_nineTicks : ∃ s s', created.runAll nineTicks = some s ∧ s.Scheduled ∧
    s.schedulerTick = some s' ∧ ¬TickPolicy s s' := by
  have hrun : (created.runAll nineTicks).any (fun s => decide (s.currentTask = some 1 ∧
      s.canPreempt 1 = true ∧ s.countTick.sliceUsedUp = true ∧
      (∀ i, s.getPriority 1 ≤ i → s.runQueue i = []) ∧ s.runQueue 15 ≠ [] ∧
      s.schedulerTick.any (fun s' => decide (s'.currentTask = s.currentTask)) = true)) = true := by
    decide +kernel
  obtain ⟨s, hs, h⟩ := (Option.any_eq_true _ _).mp hrun
  obtain ⟨hcur, hcan, hslice, hempty, hlower, htick⟩ := of_decide_eq_true h
  obtain ⟨s', hs', hsame⟩ := (Option.any_eq_true _ _).mp htick
  have hsched := scheduled_of_reaches ((Reaches.start initial_created).runAll hs)
  exact ⟨s, s', hs, hsched, hs', not_tickPolicy hsched
    (.inl ⟨1, hcur, hcan, hslice, hempty, 15, hlower⟩) (of_decide_eq_true hsame)⟩

end TaskManager

end PiKachulm.Tasks

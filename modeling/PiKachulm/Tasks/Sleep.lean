import PiKachulm.Tasks.Effects

/-!
# Sleeping tasks

A run is watched: every call of `sleep_task` has a number, the entries of the delta queue remember
it, and so do the tasks as long as they sleep because of it. The entries belong to tasks that sleep
because of them exactly in the runs in which nothing but the tick wakes a task that has an entry.
-/

namespace PiKachulm.Tasks

open Core

namespace TaskManager

/-- A state of a run, and what is remembered of the calls of `sleep_task`. -/
structure Watched where
  state : TaskManager
  entries : List (Item (TaskPtr × ℕ))
  asleep : TaskPtr → Option ℕ
  calls : ℕ

namespace Watched

/-- At the start of a run no task sleeps because of a call. -/
def start (s : TaskManager) : Watched := ⟨s, [], fun _ => none, 0⟩

/-- The number of the call is given to the task and to its entry. -/
def noteSleep (w : Watched) (t : TaskPtr) (timeInUs : ℕ) : Watched :=
  if w.state.isRunning t then
    { w with
      entries := DeltaQueue.addTask (t, w.calls) (sleepTicks timeInUs) 0 w.entries
      asleep := Function.update w.asleep t (some w.calls)
      calls := w.calls + 1 }
  else w

/-- What is remembered when a call has been made. -/
def note (w : Watched) : Op → Watched
  | .sleepTask t time => w.noteSleep t time
  | .tick             => { w with entries := (DeltaQueue.tick w.entries).2 }
  | _                 => w

/-- A call; a task sleeps on as long as its state is the one that `sleep_task` gave it. -/
def step (w : Watched) (op : Op) : Option Watched :=
  (op.run w.state).map fun s' => { w.note op with
    state := s'
    asleep := fun t => if s'.states t = .interruptible then (w.note op).asleep t else none }

/-- The entries belong to tasks that are asleep because of them, and the tick wakes only these. -/
structure Sound (w : Watched) : Prop where
  owner : ∀ it ∈ w.entries, w.state.states it.value.1 ≠ .terminated ∧
    w.asleep it.value.1 = some it.value.2
  once : (w.entries.map fun it => it.value.1).Nodup
  tick : ∃ s', w.state.tick = some s'
  due : ∀ e ∈ (DeltaQueue.tick w.entries).1, w.state.states e.1 = .interruptible ∧
    w.asleep e.1 = some e.2

/-- The call does not wake a task that has an entry. -/
def WakesNoSleeper (s : TaskManager) : Op → Prop
  | .wakeTask t       => t ∉ DeltaQueue.values s.items
  | .killTask freed t => s.states t = .terminated ∨ ∀ u ∈ freed t, u ∉ DeltaQueue.values s.items
  | _                 => True

/-- All states of the run are sound. -/
def AlwaysSound (w : Watched) : List Op → Prop
  | []        => w.Sound
  | op :: ops => w.Sound ∧ ∀ w', w.step op = some w' → w'.AlwaysSound ops

/-- All calls of the run leave the tasks with entries asleep. -/
def AlwaysAsleep (w : Watched) : List Op → Prop
  | []        => True
  | op :: ops => ∀ w', w.step op = some w' → WakesNoSleeper w.state op ∧ w'.AlwaysAsleep ops

variable {w w' : Watched} {s s' : TaskManager} {t u : TaskPtr} {op : Op} {ops : List Op}

/-! ### What is remembered -/

/-- The entries are those of the delta queue, and tasks that are asleep are in the state of it. -/
structure Coherent (w : Watched) : Prop where
  scheduled : w.state.Scheduled
  items : w.entries.map (Item.map Prod.fst) = w.state.items
  asleep : ∀ t, w.asleep t ≠ none → w.state.states t = .interruptible

/-- The first two parts of `Sound`. -/
structure Fresh (w : Watched) : Prop where
  owner : ∀ e ∈ DeltaQueue.values w.entries, w.asleep e.1 = some e.2
  once : (DeltaQueue.values w.state.items).Nodup

lemma Coherent.values (h : w.Coherent) :
    (DeltaQueue.values w.entries).map Prod.fst = DeltaQueue.values w.state.items := by
  rw [← h.items, DeltaQueue.values, DeltaQueue.values, List.map_map, List.map_map]
  rfl

lemma Coherent.due (h : w.Coherent) :
    (DeltaQueue.tick w.entries).1.map Prod.fst = (DeltaQueue.tick w.state.items).1 := by
  rw [← h.items, DeltaQueue.map_tick]

/-- A task with an entry sleeps. -/
lemma Fresh.interruptible (hf : w.Fresh) (h : w.Coherent) (ht : t ∈ DeltaQueue.values w.state.items) :
    w.state.states t = .interruptible := by
  rw [← h.values] at ht
  obtain ⟨e, he, rfl⟩ := List.mem_map.mp ht
  apply h.asleep
  rw [hf.owner e he]
  exact Option.some_ne_none _

lemma exists_foldlM_wakeTask {l : List TaskPtr} (hl : ∀ t ∈ l, s.states t ≠ .terminated) :
    ∃ s', l.foldlM TaskManager.wakeTask s = some s' := by
  induction l generalizing s with
  | nil         => exact ⟨s, rfl⟩
  | cons t l ih =>
    obtain ⟨ht, hl⟩ := List.forall_mem_cons.mp hl
    obtain ⟨s₁, h₁, -⟩ := wakeTask_spec (mt isTerminated_iff_states.mp ht)
    rw [List.foldlM_cons, h₁]
    apply ih
    intro u hu
    rw [(states_wakeTask h₁).2.1]
    by_cases hut : u = t
    · subst hut
      rw [Function.update_self]
      exact nofun
    · rw [Function.update_of_ne hut]
      exact hl u hu

/-- The tick does not fail when it wakes tasks that are not terminated. -/
lemma exists_tick (h : s.Scheduled) (hdue : ∀ t ∈ (DeltaQueue.tick s.items).1, s.states t ≠ .terminated) :
    ∃ s', s.tick = some s' := by
  have hitems : ({ s with items := (DeltaQueue.tick s.items).2 } : TaskManager).Scheduled := h
  obtain ⟨s₁, h₁⟩ := exists_foldlM_wakeTask (s := { s with items := (DeltaQueue.tick s.items).2 }) hdue
  obtain ⟨s₂, h₂, -⟩ := schedulerTick_spec (hitems.foldlM_wakeTask h₁) fun _ hc => hc
  refine ⟨s₂, ?_⟩
  rw [TaskManager.tick, deltaTick]
  dsimp only
  rw [h₁]
  exact h₂

lemma Coherent.mem_of_due {e : TaskPtr × ℕ} (he : e ∈ (DeltaQueue.tick w.entries).1) :
    e ∈ DeltaQueue.values w.entries := by
  rw [← DeltaQueue.values_tick]
  exact List.mem_append_left _ he

/-- The last two parts of `Sound` follow from the first two. -/
lemma sound_iff (h : w.Coherent) : w.Sound ↔ w.Fresh := by
  constructor
  · intro hsound
    refine ⟨fun e he => ?_, ?_⟩
    · obtain ⟨it, hit, rfl⟩ := List.mem_map.mp he
      exact (hsound.owner it hit).2
    · have honce := hsound.once
      rw [← h.values, DeltaQueue.values, List.map_map]
      exact honce
  · intro hf
    have hmem : ∀ e ∈ DeltaQueue.values w.entries, e.1 ∈ DeltaQueue.values w.state.items := by
      intro e he
      rw [← h.values]
      exact List.mem_map_of_mem he
    refine ⟨fun it hit => ?_, ?_, ?_, fun e he => ?_⟩
    · have he : it.value ∈ DeltaQueue.values w.entries := List.mem_map_of_mem hit
      refine ⟨?_, hf.owner _ he⟩
      rw [hf.interruptible h (hmem _ he)]
      intro heq
      cases heq
    · have honce := hf.once
      rw [← h.values, DeltaQueue.values, List.map_map] at honce
      exact honce
    · refine exists_tick h.scheduled fun t ht => ?_
      rw [← h.due] at ht
      obtain ⟨e, he, rfl⟩ := List.mem_map.mp ht
      rw [hf.interruptible h (hmem e (Coherent.mem_of_due he))]
      intro heq
      cases heq
    · have he' := Coherent.mem_of_due he
      exact ⟨hf.interruptible h (hmem e he'), hf.owner e he'⟩

/-! ### Steps -/

lemma step_eq_some (hs : w.step op = some w') : op.run w.state = some w'.state ∧
    w'.entries = (w.note op).entries ∧ ∀ t,
      w'.asleep t = if w'.state.states t = .interruptible then (w.note op).asleep t else none := by
  obtain ⟨s', hrun, rfl⟩ := Option.map_eq_some_iff.mp hs
  exact ⟨hrun, rfl, fun _ => rfl⟩

lemma Coherent.step (h : w.Coherent) (hs : w.step op = some w') : w'.Coherent := by
  obtain ⟨hop, hentries, hasleep⟩ := step_eq_some hs
  refine ⟨h.scheduled.run hop, ?_, fun t ht => ?_⟩
  · rw [hentries, items_run h.scheduled hop]
    cases op with
    | sleepTask t time =>
      rw [note, noteSleep]
      dsimp only
      split_ifs
      · rw [DeltaQueue.map_addTask, h.items]
      · exact h.items
    | tick             =>
      show (DeltaQueue.tick w.entries).2.map (Item.map Prod.fst) = (DeltaQueue.tick w.state.items).2
      rw [← h.items, DeltaQueue.map_tick]
    | _                => exact h.items
  · by_contra hnot
    rw [hasleep, if_neg hnot] at ht
    exact ht rfl

/-- When the entries stay as they are, they stay fresh exactly when their tasks sleep on. -/
lemma Fresh.iff_of_same (hf : w.Fresh) (h : w.Coherent) (hentries : w'.entries = w.entries)
    (hitems : w'.state.items = w.state.items)
    (hasleep : ∀ t, w'.asleep t = if w'.state.states t = .interruptible then w.asleep t else none) :
    w'.Fresh ↔ ∀ t ∈ DeltaQueue.values w.state.items, w'.state.states t = .interruptible := by
  constructor
  · intro hf' t ht
    rw [← h.values] at ht
    obtain ⟨e, he, rfl⟩ := List.mem_map.mp ht
    rw [← hentries] at he
    by_contra hnot
    have howner := hf'.owner e he
    rw [hasleep, if_neg hnot] at howner
    cases howner
  · intro hsleep
    refine ⟨fun e he => ?_, hitems ▸ hf.once⟩
    rw [hentries] at he
    have hmem : e.1 ∈ DeltaQueue.values w.state.items := by
      rw [← h.values]
      exact List.mem_map_of_mem he
    rw [hasleep, if_pos (hsleep _ hmem)]
    exact hf.owner e he

lemma Fresh.wokenStates_iff {l : List TaskPtr} (hf : w.Fresh) (h : w.Coherent) :
    (∀ t ∈ DeltaQueue.values w.state.items, wokenStates w.state.states l t = .interruptible) ↔
      ∀ u ∈ l, u ∉ DeltaQueue.values w.state.items := by
  constructor
  · intro hsleep u hu hmem
    have hne : w.state.states u ≠ .terminated := by
      rw [hf.interruptible h hmem]
      exact nofun
    have hwoken := hsleep u hmem
    rw [wokenStates, if_pos ⟨hu, hne⟩] at hwoken
    cases hwoken
  · intro hnot t ht
    rw [wokenStates, if_neg fun hl => hnot t hl.1 ht]
    exact hf.interruptible h ht

/-- The tasks that the tick wakes have no other entries. -/
lemma Fresh.tick (hf : w.Fresh) (h : w.Coherent) (hs : w.step .tick = some w') : w'.Fresh := by
  obtain ⟨hop, hentries, hasleep⟩ := step_eq_some hs
  obtain ⟨-, hstates, hitems⟩ := states_tick h.scheduled hop
  have honce := hf.once
  rw [← DeltaQueue.values_tick, List.nodup_append] at honce
  refine ⟨fun e he => ?_, ?_⟩
  · rw [hentries] at he
    have hstay : e.1 ∈ DeltaQueue.values (DeltaQueue.tick w.state.items).2 := by
      rw [← hitems, ← (h.step hs).values, hentries]
      exact List.mem_map_of_mem he
    have he' : e ∈ DeltaQueue.values w.entries := by
      rw [← DeltaQueue.values_tick]
      exact List.mem_append_right _ he
    have hmem : e.1 ∈ DeltaQueue.values w.state.items := by
      rw [← DeltaQueue.values_tick]
      exact List.mem_append_right _ hstay
    have hnot : e.1 ∉ (DeltaQueue.tick w.state.items).1 := fun hdue => honce.2.2 _ hdue _ hstay rfl
    have hsleep : w'.state.states e.1 = .interruptible := by
      rw [hstates, wokenStates, if_neg fun hl => hnot hl.1]
      exact hf.interruptible h hmem
    rw [hasleep, if_pos hsleep]
    exact hf.owner e he'
  · rw [hitems]
    exact honce.2.1

/-- The new entry belongs to a task that had none. -/
lemma Fresh.sleepTask {time : ℕ} (hf : w.Fresh) (h : w.Coherent)
    (hs : w.step (.sleepTask t time) = some w') (hrun : w.state.states t = .running) : w'.Fresh := by
  obtain ⟨hop, hentries, hasleep⟩ := step_eq_some hs
  obtain ⟨-, ⟨hnot, -⟩ | ⟨-, hstates, hitems⟩⟩ := states_sleepTask h.scheduled hop
  · exact (hnot hrun).elim
  have hnot : t ∉ DeltaQueue.values w.state.items := by
    intro ht
    rw [hf.interruptible h ht] at hrun
    cases hrun
  rw [note, noteSleep, if_pos (isRunning_iff_states.mpr hrun)] at hentries hasleep
  dsimp only at hentries hasleep
  refine ⟨fun e he => ?_, ?_⟩
  · rw [hentries, DeltaQueue.values_addTask.mem_iff, List.mem_cons] at he
    rcases he with rfl | he
    · rw [hasleep, hstates, Function.update_self, if_pos rfl, Function.update_self]
    · have hmem : e.1 ∈ DeltaQueue.values w.state.items := by
        rw [← h.values]
        exact List.mem_map_of_mem he
      have hne : e.1 ≠ t := fun heq => hnot (heq ▸ hmem)
      rw [hasleep, hstates, Function.update_of_ne hne, Function.update_of_ne hne,
        if_pos (hf.interruptible h hmem)]
      exact hf.owner e he
  · rw [hitems, DeltaQueue.values_addTask.nodup_iff, List.nodup_cons]
    exact ⟨hnot, hf.once⟩

/-- A call keeps the entries fresh exactly when it wakes no task that has one. -/
lemma Fresh.step_iff (hf : w.Fresh) (h : w.Coherent) (hs : w.step op = some w') :
    w'.Fresh ↔ WakesNoSleeper w.state op := by
  obtain ⟨hop, hentries, hasleep⟩ := step_eq_some hs
  have hitems := items_run h.scheduled hop
  cases op with
  | wakeTask t          =>
    obtain ⟨-, hstates, -⟩ := states_wakeTask hop
    rw [hf.iff_of_same h hentries hitems hasleep, hstates, WakesNoSleeper]
    constructor
    · intro hsleep ht
      have htsleep := hsleep t ht
      rw [Function.update_self] at htsleep
      cases htsleep
    · intro ht u hu
      have hne : u ≠ t := fun heq => ht (heq ▸ hu)
      rw [Function.update_of_ne hne]
      exact hf.interruptible h hu
  | pauseTask t         =>
    refine iff_of_true ((hf.iff_of_same h hentries hitems hasleep).mpr fun u hu => ?_) trivial
    have hu' := hf.interruptible h hu
    obtain ⟨-, -, ⟨-, hstates⟩ | ⟨hrun, hstates⟩⟩ := states_pauseTask h.scheduled hop
    · rw [hstates, hu']
    · rw [hstates, Function.update_of_ne, hu']
      rintro rfl
      rw [hu'] at hrun
      cases hrun
  | sleepTask t time    =>
    refine iff_of_true ?_ trivial
    obtain ⟨-, ⟨hrun, hstate⟩ | ⟨hrun, -⟩⟩ := states_sleepTask h.scheduled hop
    · have hnot : ¬w.state.isRunning t := mt isRunning_iff_states.mp hrun
      rw [note, noteSleep, if_neg hnot] at hentries hasleep
      dsimp only at hitems
      rw [if_neg hnot] at hitems
      refine (hf.iff_of_same h hentries hitems hasleep).mpr fun u hu => ?_
      rw [hstate]
      exact hf.interruptible h hu
    · exact hf.sleepTask h hs hrun
  | setTaskPriority t p =>
    obtain ⟨⟨b, s₁⟩, h₁, heq⟩ := Option.map_eq_some_iff.mp hop
    refine iff_of_true ((hf.iff_of_same h hentries hitems hasleep).mpr fun u hu => ?_) trivial
    rw [← heq, (states_setTaskPriority h₁).1]
    exact hf.interruptible h hu
  | schedule            =>
    refine iff_of_true ((hf.iff_of_same h hentries hitems hasleep).mpr fun u hu => ?_) trivial
    rw [(states_schedule h.scheduled hop).1]
    exact hf.interruptible h hu
  | tick                => exact iff_of_true (hf.tick h hs) trivial
  | disablePreempt t    =>
    refine iff_of_true ((hf.iff_of_same h hentries hitems hasleep).mpr fun u hu => ?_) trivial
    rw [← Option.some.inj hop]
    show (w.state.setTask t _).states u = .interruptible
    rw [states_setTask_of_eq rfl]
    exact hf.interruptible h hu
  | enablePreempt t     =>
    refine iff_of_true ((hf.iff_of_same h hentries hitems hasleep).mpr fun u hu => ?_) trivial
    rw [Op.run, enablePreempt] at hop
    split_ifs at hop
    rw [← Option.some.inj hop, states_setTask_of_eq rfl]
    exact hf.interruptible h hu
  | killTask freed t    =>
    rw [hf.iff_of_same h hentries hitems hasleep, WakesNoSleeper]
    rcases states_killTask h.scheduled hop with ⟨hterm, hstate⟩ | ⟨hrun, -, hstates⟩
    · refine iff_of_true (fun u hu => ?_) (.inl hterm)
      rw [hstate]
      exact hf.interruptible h hu
    · have hterm : w.state.states t ≠ .terminated := by
        rw [hrun]
        intro heq
        cases heq
      rw [or_iff_right hterm, hstates, ← hf.wokenStates_iff h]
      refine forall₂_congr fun u hu => ?_
      rw [Function.update_of_ne]
      rintro rfl
      rw [hf.interruptible h hu] at hrun
      cases hrun

/-! ### Runs -/

lemma alwaysSound_iff_of_fresh (hf : w.Fresh) (h : w.Coherent) : w.AlwaysSound ops ↔ w.AlwaysAsleep ops := by
  induction ops generalizing w with
  | nil           => exact iff_of_true ((sound_iff h).mpr hf) trivial
  | cons op ops ih =>
    rw [AlwaysSound, AlwaysAsleep, and_iff_right ((sound_iff h).mpr hf)]
    refine forall₂_congr fun w' hs => ?_
    have h' := h.step hs
    rw [← hf.step_iff h hs]
    constructor
    · intro hsound
      have hf' : w'.Fresh := by
        cases ops with
        | nil      => exact (sound_iff h').mp hsound
        | cons _ _ => exact (sound_iff h').mp hsound.1
      exact ⟨hf', (ih hf' h').mp hsound⟩
    · rintro ⟨hf', hasleep⟩
      exact (ih hf' h').mpr hasleep

/-- The calls of a run, one after the other. -/
def runAll (w : Watched) (ops : List Op) : Option Watched := ops.foldlM step w

lemma AlwaysSound.runAll (h : w.AlwaysSound ops) (hops : w.runAll ops = some w') : w'.Sound := by
  induction ops generalizing w with
  | nil           =>
    cases hops
    exact h
  | cons op ops ih =>
    rw [Watched.runAll, List.foldlM_cons] at hops
    obtain ⟨w₁, h₁, hops⟩ := Option.bind_eq_some_iff.mp hops
    exact ih (h.2 w₁ h₁) hops

end Watched

/-- The entries of the delta queue are never stale exactly in the runs in which nothing but the tick wakes
a task that has an entry. -/
theorem alwaysSound_iff {s : TaskManager} (h : Initial s) (ops : List Op) :
    (Watched.start s).AlwaysSound ops ↔ (Watched.start s).AlwaysAsleep ops := by
  refine Watched.alwaysSound_iff_of_fresh ⟨nofun, ?_⟩ ⟨h.scheduled, ?_, fun _ hne => (hne rfl).elim⟩
  · rw [Watched.start, h.items]
    exact List.nodup_nil
  · rw [Watched.start, h.items]
    rfl

theorem alwaysSound_iff_created :
    (Watched.start created).AlwaysSound [.wakeTask 1, .sleepTask 1 20000, .tick] ↔
      (Watched.start created).AlwaysAsleep [.wakeTask 1, .sleepTask 1 20000, .tick] :=
  alwaysSound_iff initial_created [.wakeTask 1, .sleepTask 1 20000, .tick]

/-- Task 2 sleeps for two ticks, is woken and paused. Its entry stays, and the second tick wakes it. -/
theorem not_alwaysSound_wokenSleeper :
    ¬(Watched.start created).AlwaysSound
      [.wakeTask 1, .wakeTask 2, .schedule, .sleepTask 2 20000, .wakeTask 2, .pauseTask 2, .tick] ∧
    (created.runAll [.wakeTask 1, .wakeTask 2, .schedule, .sleepTask 2 20000, .wakeTask 2, .pauseTask 2,
      .tick]).any (fun s => decide (s.states 2 = .uninterruptible) &&
        s.tick.any fun s' => decide (s'.states 2 = .running)) = true := by
  constructor
  · intro h
    have hrun : ((Watched.start created).runAll [.wakeTask 1, .wakeTask 2, .schedule, .sleepTask 2 20000,
        .wakeTask 2, .pauseTask 2, .tick]).any fun w =>
          decide (2 ∈ DeltaQueue.values w.state.items ∧ w.asleep 2 = none ∧
            w.entries.map Item.value = [(2, 0)]) := by
      decide +kernel
    obtain ⟨w, hw, hdec⟩ := (Option.any_eq_true _ _).mp hrun
    obtain ⟨-, hnone, hentries⟩ := of_decide_eq_true hdec
    have hmem : ((2, 0) : TaskPtr × ℕ) ∈ w.entries.map Item.value := by
      rw [hentries]
      exact List.mem_singleton_self _
    obtain ⟨it, hit, hvalue⟩ := List.mem_map.mp hmem
    have howner := ((h.runAll hw).owner it hit).2
    rw [hvalue, hnone] at howner
    cases howner
  · decide +kernel

end TaskManager

end PiKachulm.Tasks

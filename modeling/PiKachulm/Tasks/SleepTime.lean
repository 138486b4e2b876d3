import Mathlib.Data.Real.Basic
import PiKachulm.Tasks.Deadlines
import PiKachulm.Tasks.Sleep

/-!
# How long a task sleeps

`sleep_task` puts a task to sleep for a minimum duration, which it rounds up to a number of ticks. The
first of these ticks may come at once, so that the task sleeps up to one period less than its ticks.
-/

namespace PiKachulm.Tasks

open Core Libk Agenda

namespace TaskManager

variable {s s' s₁ s₂ : TaskManager} {t u : TaskPtr} {op : Op} {ops : List Op} {l : List (ℝ × Op)}
  {phase : ℝ} {time now base k m n : ℕ}

/-- The time between two ticks, in microseconds. -/
def period : ℕ := tickTime * 1000

/-- How many ticks a call makes. -/
def Op.tickCount : Op → ℕ
  | .tick => 1
  | _     => 0

/-- The calls after an instant, in order, each with its own instant. `ticks` ticks have been made since
time 0, and tick number `k` comes at `phase + k * period`. -/
def Timeline (phase : ℝ) : ℕ → ℝ → List (ℝ × Op) → Prop
  | _, _, []                       => True
  | ticks, now, (instant, op) :: l =>
    now ≤ instant ∧ instant ≤ phase + ticks * period ∧ (op.tickCount = 1 → instant = phase + ticks * period) ∧
      Timeline phase (ticks + op.tickCount) instant l

/-- The instant of the last call. -/
def lastInstant : ℝ → List (ℝ × Op) → ℝ
  | now, []              => now
  | _, (instant, _) :: l => lastInstant instant l

/-- No call of a run makes the task run, the ticks apart. -/
def OnlyTickWakes (t : TaskPtr) : TaskManager → List Op → Prop
  | _, []        => True
  | s, op :: ops => ∀ s', op.run s = some s' →
    (op.tickCount = 0 → s.states t ≠ .running → s'.states t ≠ .running) ∧ OnlyTickWakes t s' ops

/-- A task that is put to sleep at time 0, and that nothing else wakes, runs only after `timeInUs`
microseconds, when the first tick comes at `phase`. -/
def SleepsLongEnough (timeInUs : ℕ) (phase : ℝ) : Prop :=
  ∀ s s₁ t, Reaches s → s.states t = .running → t ∉ DeltaQueue.values s.items →
    s.sleepTask t timeInUs = some s₁ → ∀ l s₂, Timeline phase 0 0 l → OnlyTickWakes t s₁ (l.map Prod.snd) →
      s₁.runAll (l.map Prod.snd) = some s₂ → s₂.states t = .running → (timeInUs : ℝ) ≤ lastInstant 0 l

/-- The sum of `div_round_up` does not wrap, and the first tick comes late enough. -/
def RoundsEnough (timeInUs : ℕ) (phase : ℝ) : Prop :=
  timeInUs = 0 ∨ timeInUs + 9999 < 2 ^ 64 ∧ (((timeInUs - 1) % 10000 + 1 : ℕ) : ℝ) ≤ phase

/-! ### The number of ticks -/

lemma one_le_sleepTicks : 1 ≤ sleepTicks time := Nat.le_max_left ..

lemma sleepTicks_lt : sleepTicks time < 2 ^ 64 := by
  rw [sleepTicks]
  refine max_lt (by norm_num) ((Nat.div_le_self ..).trans_lt ?_)
  exact Nat.mod_lt _ (by norm_num)

lemma sleepTicks_of_lt (hpos : 0 < time) (hlt : time + 9999 < 2 ^ 64) :
    sleepTicks time = (time - 1) / 10000 + 1 := by
  have hsum : wsub (wadd time (tickTime * 1000)) 1 = time + 9999 := by
    simp only [wsub, wadd, tickTime] at *
    omega
  rw [sleepTicks, hsum, tickTime, max_eq_right]
  · omega
  · omega

/-- The sum wraps, and the task waits for one tick only. -/
lemma sleepTicks_of_le (hlt : time < 2 ^ 64) (hle : 2 ^ 64 ≤ time + 9999) : sleepTicks time = 1 := by
  have hsum : wsub (wadd time (tickTime * 1000)) 1 = time + 9999 - 2 ^ 64 := by
    simp only [wsub, wadd, tickTime] at *
    omega
  rw [sleepTicks, hsum, tickTime, max_eq_left]
  omega

lemma cast_period : (period : ℝ) = 10000 := by
  have hperiod : period = 10000 := rfl
  rw [hperiod, Nat.cast_ofNat]

/-- The instant of the last of the ticks. -/
lemma le_lastTick_iff (htime : time < 2 ^ 64) (h0 : 0 ≤ phase) (h1 : phase ≤ period) :
    (time : ℝ) ≤ phase + (sleepTicks time - 1 : ℕ) * period ↔ RoundsEnough time phase := by
  rw [cast_period] at *
  rcases Nat.eq_zero_or_pos time with rfl | hpos
  · refine ⟨fun _ => .inl rfl, fun _ => ?_⟩
    rw [Nat.cast_zero]
    positivity
  · have hne : time ≠ 0 := hpos.ne'
    by_cases hlt : time + 9999 < 2 ^ 64
    · have hsplit : time = (time - 1) % 10000 + 1 + (time - 1) / 10000 * 10000 := by omega
      have hcast : (time : ℝ) = ((time - 1) % 10000 + 1 : ℕ) + ((time - 1) / 10000 : ℕ) * 10000 := by
        exact_mod_cast hsplit
      rw [RoundsEnough, sleepTicks_of_lt hpos hlt, Nat.add_sub_cancel, hcast]
      constructor
      · exact fun h => .inr ⟨hlt, le_of_add_le_add_right h⟩
      · rintro (h | ⟨-, h⟩)
        · exact absurd h hne
        · exact add_le_add_left h _
    · refine ⟨fun h => ?_, ?_⟩
      · rw [sleepTicks_of_le htime (not_lt.mp hlt), Nat.sub_self, Nat.cast_zero, zero_mul, add_zero] at h
        have hle : time ≤ 10000 := by exact_mod_cast h.trans h1
        omega
      · rintro (h | ⟨h, -⟩)
        · exact absurd h hne
        · exact absurd h hlt

/-! ### The delta queue of a run -/

lemma Op.eq_tick_or (op : Op) : op = .tick ∨ op.tickCount = 0 := by
  cases op with
  | tick => exact .inl rfl
  | _    => exact .inr rfl

lemma items_of_tickCount (h : s.Scheduled) (hop : op.run s = some s') (hzero : op.tickCount = 0) :
    s'.items = s.items ∨ ∃ u time, s.states u = .running ∧
      s'.items = DeltaQueue.addTask u (sleepTicks time) 0 s.items := by
  have hitems := items_run h hop
  cases op with
  | sleepTask u time =>
    dsimp only at hitems
    split_ifs at hitems with hrun
    · exact .inr ⟨u, time, isRunning_iff_states.mp hrun, hitems⟩
    · exact .inl hitems
  | tick             => cases hzero
  | _                => exact .inl hitems

/-- The delta queue holds what has been added and is not due. -/
def Timed (now : ℕ) (s : TaskManager) : Prop := ∃ added, DeltaQueue.Tracks now added s.items

lemma Timed.run (op : Op) (ht : s.Timed now) (h : s.Scheduled) (hop : op.run s = some s') :
    s'.Timed (now + op.tickCount) := by
  obtain ⟨added, ht⟩ := ht
  rcases op.eq_tick_or with rfl | hzero
  · exact ⟨added, by rw [(states_tick h hop).2.2]; exact ht.tick.2⟩
  · rw [hzero, Nat.add_zero]
    rcases items_of_tickCount h hop hzero with hitems | ⟨u, time, -, hitems⟩
    · exact ⟨added, by rwa [hitems]⟩
    · exact ⟨_, by rw [hitems]; exact ht.addTask one_le_sleepTicks sleepTicks_lt⟩

lemma timed_of_reaches (h : Reaches s) : ∃ now, s.Timed now := by
  induction h with
  | start hinit        => exact ⟨0, [], by rw [hinit.items]; exact .nil⟩
  | step hs op hop ih =>
    obtain ⟨now, ht⟩ := ih
    exact ⟨_, ht.run _ (scheduled_of_reaches hs) hop⟩

/-! ### A task that sleeps -/

/-- The task does not run, and the delta queue has it for the tick number `due` only. -/
structure Asleep (t : TaskPtr) (now due : ℕ) (s : TaskManager) : Prop where
  scheduled : s.Scheduled
  timed : s.Timed now
  entry : ∀ d, (t, d) ∈ DeltaQueue.deadlines now s.items → d = due
  state : s.states t ≠ .running

lemma deadlines_addTask_of_timed (ht : s.Timed now) :
    DeltaQueue.deadlines now (DeltaQueue.addTask u (sleepTicks time) 0 s.items) =
      put (u, now + sleepTicks time) (DeltaQueue.deadlines now s.items) := by
  obtain ⟨added, ht⟩ := ht
  exact DeltaQueue.deadlines_addTask (Nat.zero_le _) sleepTicks_lt ht.bound

lemma asleep_of_sleepTask (h : s.Scheduled) (ht : s.Timed now) (hrun : s.states t = .running)
    (hfree : t ∉ DeltaQueue.values s.items) (hs : s.sleepTask t time = some s₁) :
    Asleep t now (now + sleepTicks time) s₁ ∧
      (t, now + sleepTicks time) ∈ DeltaQueue.deadlines now s₁.items := by
  obtain ⟨-, ⟨hnot, -⟩ | ⟨-, hstates, hitems⟩⟩ := states_sleepTask h hs
  · exact absurd hrun hnot
  · refine ⟨⟨h.sleepTask hs, ht.run (.sleepTask t time) h hs, fun d hd => ?_, ?_⟩, ?_⟩
    · rw [hitems, deadlines_addTask_of_timed ht] at hd
      rcases mem_put.mp hd with hd | hd
      · exact congrArg Prod.snd hd
      · rw [← DeltaQueue.values_deadlines now] at hfree
        exact absurd (List.mem_map_of_mem hd) hfree
    · rw [hstates, Function.update_self]
      exact nofun
    · rw [hitems, deadlines_addTask_of_timed ht]
      exact mem_put.mpr (.inl rfl)

lemma Asleep.run_of_tickCount {due : ℕ} (h : Asleep t now due s) (hop : op.run s = some s')
    (hzero : op.tickCount = 0) (hstate : s'.states t ≠ .running) : Asleep t now due s' := by
  have htimed := h.timed.run _ h.scheduled hop
  rw [hzero] at htimed
  refine ⟨h.scheduled.run hop, htimed, fun d hd => ?_, hstate⟩
  rcases items_of_tickCount h.scheduled hop hzero with hitems | ⟨u, time, hrun, hitems⟩
  · rw [hitems] at hd
    exact h.entry d hd
  · rw [hitems, deadlines_addTask_of_timed h.timed] at hd
    rcases mem_put.mp hd with hd | hd
    · have heq : t = u := congrArg Prod.fst hd
      exact absurd (heq ▸ hrun) h.state
    · exact h.entry d hd

lemma tick_of_timed (h : s.Scheduled) (ht : s.Timed now) (hs : s.tick = some s') :
    s'.states = wokenStates s.states ((dueOn (now + 1) (DeltaQueue.deadlines now s.items)).map Prod.fst) ∧
      DeltaQueue.deadlines (now + 1) s'.items = dueAfter (now + 1) (DeltaQueue.deadlines now s.items) := by
  obtain ⟨-, hstates, hitems⟩ := states_tick h hs
  obtain ⟨added, ht⟩ := ht
  obtain ⟨hreleased, hrest⟩ := DeltaQueue.deadlines_tick ht.head ht.bound
  exact ⟨by rw [hstates, hreleased], by rw [hitems, hrest]⟩

/-- The ticks before the right one do not wake the task. -/
lemma Asleep.tick {due : ℕ} (h : Asleep t now due s) (hs : s.tick = some s') (hne : now + 1 ≠ due) :
    Asleep t (now + 1) due s' := by
  obtain ⟨hstates, hrest⟩ := tick_of_timed h.scheduled h.timed hs
  refine ⟨h.scheduled.tick hs, h.timed.run .tick h.scheduled hs, fun d hd => ?_, ?_⟩
  · rw [hrest] at hd
    exact h.entry d (List.mem_filter.mp hd).1
  · rw [hstates, wokenStates, if_neg]
    · exact h.state
    · rintro ⟨hmem, -⟩
      obtain ⟨⟨u, d⟩, he, rfl⟩ := List.mem_map.mp hmem
      obtain ⟨hmem, hd⟩ := mem_dueOn.mp he
      exact hne (hd.symm.trans (h.entry d hmem))

/-! ### Histories -/

lemma le_lastInstant {instant : ℝ} (hl : Timeline phase k instant l) : instant ≤ lastInstant instant l := by
  induction l generalizing instant k with
  | nil         => exact le_refl instant
  | cons e l ih => exact hl.1.trans (ih hl.2.2.2)

/-- The task runs only after the last of its `n` ticks. -/
lemma Asleep.le_lastInstant {instant : ℝ} (h : Asleep t (base + k) (base + n) s) (hk : k < n)
    (hl : Timeline phase k instant l) (honly : OnlyTickWakes t s (l.map Prod.snd))
    (hrun : s.runAll (l.map Prod.snd) = some s') (hstate : s'.states t = .running) :
    phase + (n - 1 : ℕ) * period ≤ lastInstant instant l := by
  induction l generalizing instant k s with
  | nil         =>
    cases hrun
    exact absurd hstate h.state
  | cons e l ih =>
    obtain ⟨instant', op⟩ := e
    obtain ⟨-, -, htick, hrest⟩ := hl
    rw [List.map_cons, runAll, List.foldlM_cons] at hrun
    obtain ⟨s₁, hop, hrun₁⟩ := Option.bind_eq_some_iff.mp hrun
    obtain ⟨hnot, honly₁⟩ := honly s₁ hop
    rcases op.eq_tick_or with rfl | hzero
    · by_cases hlast : k + 1 = n
      · -- this is the tick that the task waits for
        have hle := TaskManager.le_lastInstant hrest
        rw [htick rfl] at hle
        rw [← hlast, Nat.add_sub_cancel, lastInstant, htick rfl]
        exact hle
      · have hne : base + k + 1 ≠ base + n := fun heq => hlast (Nat.add_left_cancel heq)
        exact ih (h.tick hop hne) (lt_of_le_of_ne hk hlast) hrest honly₁ hrun₁
    · rw [hzero, Nat.add_zero] at hrest
      exact ih (h.run_of_tickCount hop hzero (hnot hzero h.state)) hk hrest honly₁ hrun₁

/-- Nothing happens but `m` ticks, the first of them with the number `k`. -/
def ticksFrom (phase : ℝ) (k m : ℕ) : List (ℝ × Op) :=
  (List.range' k m).map fun i : ℕ => (phase + (i : ℝ) * period, Op.tick)

lemma ticksFrom_succ :
    ticksFrom phase k (m + 1) = (phase + k * period, .tick) :: ticksFrom phase (k + 1) m := by
  rw [ticksFrom, List.range'_succ, List.map_cons]
  rfl

lemma timeline_ticksFrom {instant : ℝ} (h : instant ≤ phase + k * period) :
    Timeline phase k instant (ticksFrom phase k m) := by
  induction m generalizing k instant with
  | zero      => trivial
  | succ m ih =>
    rw [ticksFrom_succ]
    refine ⟨h, le_refl _, fun _ => rfl, ih ?_⟩
    gcongr
    exact Nat.le_succ k

lemma lastInstant_ticksFrom {instant : ℝ} :
    lastInstant instant (ticksFrom phase k (m + 1)) = phase + (k + m : ℕ) * period := by
  induction m generalizing k instant with
  | zero      => rfl
  | succ m ih =>
    rw [ticksFrom_succ, lastInstant, ih, Nat.add_assoc, Nat.add_comm 1 m]

lemma onlyTickWakes_ticksFrom : OnlyTickWakes t s ((ticksFrom phase k m).map Prod.snd) := by
  induction m generalizing k s with
  | zero      => trivial
  | succ m ih =>
    rw [ticksFrom_succ]
    exact fun s' _ => ⟨nofun, ih⟩

lemma exists_tick_of_live (h : s.Scheduled)
    (hlive : ∀ u ∈ DeltaQueue.values s.items, s.states u ≠ .terminated) : ∃ s', s.tick = some s' := by
  refine Watched.exists_tick h fun u hu => hlive u ?_
  rw [← DeltaQueue.values_tick]
  exact List.mem_append_left _ hu

lemma live_tick (h : s.Scheduled) (hs : s.tick = some s')
    (hlive : ∀ u ∈ DeltaQueue.values s.items, s.states u ≠ .terminated) :
    ∀ u ∈ DeltaQueue.values s'.items, s'.states u ≠ .terminated := by
  obtain ⟨-, hstates, hitems⟩ := states_tick h hs
  intro u hu
  rw [hitems] at hu
  have hmem : u ∈ DeltaQueue.values s.items := by
    rw [← DeltaQueue.values_tick]
    exact List.mem_append_right _ hu
  rw [hstates, wokenStates]
  split_ifs
  · intro heq
    cases heq
  · exact hlive u hmem

/-- When no task with an entry is terminated, the ticks run, and the last of them wakes the task. -/
lemma Asleep.exists_run (h : Asleep t now (now + m + 1) s)
    (hmem : (t, now + m + 1) ∈ DeltaQueue.deadlines now s.items)
    (hlive : ∀ u ∈ DeltaQueue.values s.items, s.states u ≠ .terminated) :
    ∃ s', s.runAll ((ticksFrom phase k (m + 1)).map Prod.snd) = some s' ∧ s'.states t = .running := by
  induction m generalizing now k s with
  | zero      =>
    obtain ⟨s₁, hs₁⟩ := exists_tick_of_live h.scheduled hlive
    obtain ⟨hstates, -⟩ := tick_of_timed h.scheduled h.timed hs₁
    refine ⟨s₁, ?_, ?_⟩
    · rw [ticksFrom_succ, List.map_cons, runAll, List.foldlM_cons]
      exact Option.bind_eq_some_iff.mpr ⟨s₁, hs₁, rfl⟩
    · rw [hstates, wokenStates, if_pos]
      refine ⟨List.mem_map.mpr ⟨_, mem_dueOn.mpr ⟨hmem, rfl⟩, rfl⟩, hlive t ?_⟩
      rw [← DeltaQueue.values_deadlines now]
      exact List.mem_map_of_mem hmem
  | succ m ih =>
    obtain ⟨s₁, hs₁⟩ := exists_tick_of_live h.scheduled hlive
    obtain ⟨-, hrest⟩ := tick_of_timed h.scheduled h.timed hs₁
    have hne : now + 1 ≠ now + (m + 1) + 1 := by omega
    have hdue : now + (m + 1) + 1 = now + 1 + m + 1 := by omega
    have h₁ := h.tick hs₁ hne
    rw [hdue] at h₁ hmem
    obtain ⟨s', hs', hstate⟩ := ih (k := k + 1) h₁ (by
      rw [hrest]
      exact List.mem_filter.mpr ⟨hmem, decide_eq_true (by dsimp only; omega)⟩) (live_tick h.scheduled hs₁ hlive)
    refine ⟨s', ?_, hstate⟩
    rw [ticksFrom_succ, List.map_cons, runAll, List.foldlM_cons]
    exact Option.bind_eq_some_iff.mpr ⟨s₁, hs₁, hs'⟩

/-! ### When a task sleeps long enough -/

/-- A task sleeps until the last of its ticks. -/
lemma sleepsLongEnough_of_le (h : (time : ℝ) ≤ phase + (sleepTicks time - 1 : ℕ) * period) :
    SleepsLongEnough time phase := by
  intro s s₁ t hs hrun hfree hsleep l s₂ hl honly hops hstate
  obtain ⟨now, ht⟩ := timed_of_reaches hs
  obtain ⟨hasleep, -⟩ := asleep_of_sleepTask (scheduled_of_reaches hs) ht hrun hfree hsleep
  exact h.trans (hasleep.le_lastInstant (k := 0) one_le_sleepTicks hl honly hops hstate)

/-- Where the tasks with entries are not terminated, the task runs from the last of its ticks on. -/
lemma SleepsLongEnough.le (h : SleepsLongEnough time phase) (h0 : 0 ≤ phase) (hs : Reaches s)
    (hrun : s.states t = .running) (hfree : t ∉ DeltaQueue.values s.items)
    (hsleep : s.sleepTask t time = some s₁)
    (hlive : ∀ u ∈ DeltaQueue.values s₁.items, s₁.states u ≠ .terminated) :
    (time : ℝ) ≤ phase + (sleepTicks time - 1 : ℕ) * period := by
  obtain ⟨now, ht⟩ := timed_of_reaches hs
  obtain ⟨hasleep, hmem⟩ := asleep_of_sleepTask (scheduled_of_reaches hs) ht hrun hfree hsleep
  obtain ⟨m, hm⟩ : ∃ m, sleepTicks time = m + 1 := ⟨_, (Nat.sub_add_cancel one_le_sleepTicks).symm⟩
  rw [hm, ← Nat.add_assoc] at hasleep hmem
  obtain ⟨s₂, hops, hstate⟩ : ∃ s₂, s₁.runAll ((ticksFrom phase 0 (m + 1)).map Prod.snd) = some s₂ ∧
      s₂.states t = .running := hasleep.exists_run hmem hlive
  have hstart : (0 : ℝ) ≤ phase + (0 : ℕ) * period := by simpa using h0
  have hle := h s s₁ t hs hrun hfree hsleep _ s₂ (timeline_ticksFrom hstart) onlyTickWakes_ticksFrom hops hstate
  rw [lastInstant_ticksFrom, Nat.zero_add] at hle
  rwa [hm, Nat.add_sub_cancel]

/-- A task that runs alone can be put to sleep for any time. -/
lemma exists_sleeper (time : ℕ) : ∃ s s₁, Reaches s ∧ s.states 0 = .running ∧ 0 ∉ DeltaQueue.values s.items ∧
    s.sleepTask 0 time = some s₁ ∧ ∀ u ∈ DeltaQueue.values s₁.items, s₁.states u ≠ .terminated := by
  obtain ⟨s, s₁, hs, hs₁⟩ : ∃ s s₁, created.wakeTask 0 = some s ∧ s.sleepTask 0 time = some s₁ :=
    ⟨_, _, rfl, rfl⟩
  have hreaches := Reaches.step (.start initial_created) (.wakeTask 0) hs
  obtain ⟨-, hstates, hitems⟩ := states_wakeTask hs
  have hrun : s.states 0 = .running := by rw [hstates, Function.update_self]
  refine ⟨s, s₁, hreaches, hrun, ?_, hs₁, fun u hu => ?_⟩
  · rw [hitems]
    exact List.not_mem_nil
  · obtain ⟨-, ⟨hnot, -⟩ | ⟨-, hstates₁, hitems₁⟩⟩ := states_sleepTask (scheduled_of_reaches hreaches) hs₁
    · exact absurd hrun hnot
    · rw [hitems₁, hitems] at hu
      rw [List.mem_singleton.mp hu, hstates₁, Function.update_self]
      exact nofun

/-- A sleep lasts as long as it should exactly when the rounding makes up for the time by which the first
tick comes early. -/
theorem sleepsLongEnough_iff (time : ℕ) (htime : time < 2 ^ 64) (phase : ℝ) (h0 : 0 ≤ phase)
    (h1 : phase ≤ period) : SleepsLongEnough time phase ↔ RoundsEnough time phase := by
  rw [← le_lastTick_iff htime h0 h1]
  refine ⟨fun h => ?_, sleepsLongEnough_of_le⟩
  obtain ⟨s, s₁, hs, hrun, hfree, hsleep, hlive⟩ := exists_sleeper time
  exact h.le h0 hs hrun hfree hsleep hlive

theorem sleepsLongEnough_iff_oneTick : SleepsLongEnough 10000 10000 ↔ RoundsEnough 10000 10000 :=
  sleepsLongEnough_iff 10000 (by norm_num) 10000 (by norm_num) cast_period.ge

/-- A task that asks for one period is woken by a tick that comes a microsecond later. -/
theorem not_sleepsLongEnough_earlyTick : ¬SleepsLongEnough 10000 1 := by
  intro h
  obtain ⟨s, s₁, hs, hrun, hfree, hsleep, hlive⟩ := exists_sleeper 10000
  have hle := h.le zero_le_one hs hrun hfree hsleep hlive
  rw [sleepTicks_of_lt (by norm_num) (by norm_num)] at hle
  norm_num at hle

end TaskManager

end PiKachulm.Tasks

import Mathlib.Logic.Relation
import PiKachulm.Tasks.Effects

/-!
# Killing a task

`kill_task` is meant to terminate a task with all of its descendants, in whatever state these are. It
does so only where the descendants are terminated already: its loop over the children is empty, and a
task that sleeps or is paused fails an assertion of the scheduler.
-/

namespace PiKachulm.Tasks

open Core

namespace TaskManager

variable {s s' : TaskManager} {t u : TaskPtr} {freed : TaskPtr → List TaskPtr}

/-- The task is terminated, and nothing will wake it. -/
structure Dead (s : TaskManager) (u : TaskPtr) : Prop where
  terminated : s.states u = .terminated
  items : u ∉ DeltaQueue.values s.items

/-- A dead task stays dead. -/
lemma Dead.run {op : Op} (hd : s.Dead u) (h : s.Scheduled) (hop : op.run s = some s') : s'.Dead u := by
  refine ⟨terminated_run h hop hd.terminated, ?_⟩
  rw [items_run h hop]
  cases op with
  | sleepTask t time =>
    dsimp only
    split_ifs with hrun
    · rw [DeltaQueue.values_addTask.mem_iff, List.mem_cons, not_or]
      refine ⟨?_, hd.items⟩
      rintro rfl
      rw [isRunning_iff_states, hd.terminated] at hrun
      cases hrun
    · exact hd.items
  | tick             =>
    intro hu
    apply hd.items
    rw [← DeltaQueue.values_tick, List.mem_append]
    exact .inr hu
  | _                => exact hd.items

/-- A dead task stays dead in a whole run. -/
lemma Dead.runAll {ops : List Op} (hd : s.Dead u) (h : s.Scheduled) (hops : s.runAll ops = some s') :
    s'.Dead u := by
  induction ops generalizing s with
  | nil           =>
    cases hops
    exact hd
  | cons op ops ih =>
    rw [TaskManager.runAll, List.foldlM_cons] at hops
    obtain ⟨s₁, h₁, hops⟩ := Option.bind_eq_some_iff.mp hops
    exact ih (hd.run h h₁) (h.run h₁) hops

/-- A terminated task has no place in the scheduler. -/
lemma Dead.gone (hd : s.Dead u) (h : s.Scheduled) : s.currentTask ≠ some u ∧ ∀ p, u ∉ s.runQueue p := by
  have hnot : ¬s.isRunning u := by
    rw [isRunning_iff_states, hd.terminated]
    exact nofun
  refine ⟨fun hcur => ?_, fun p hu => hnot (h.active_of_mem hu)⟩
  rw [Scheduled, Places, hcur] at h
  exact hnot h.active_of_slot

/-! ### The subtree -/

end TaskManager

end PiKachulm.Tasks

import PiKachulm.Tasks.Pipe

/-!
# Waking one task of a wait list

`wake_one` is meant to retrieve the first task of the list that is not terminated, and to wake it. Its
loop goes on while the task is not terminated, so that it drops the live tasks from the list, and it
hands the first terminated task to `wake_task`, which asserts that the task is not terminated.
-/

namespace PiKachulm.Tasks

open Core

namespace WaitList

variable {s s' : TaskManager} {t : TaskPtr} {l l' : List TaskPtr}

/-- `WaitList::wake_one`. -/
def wakeOne : List TaskPtr → TaskManager → Option (List TaskPtr × TaskManager)
  | [], s        => some ([], s)
  | task :: l, s => if s.isTerminated task then (s.wakeTask task).map fun s => (l, s) else wakeOne l s

/-- The function is called `n` times. -/
def wakeTimes : ℕ → List TaskPtr → TaskManager → Option (List TaskPtr × TaskManager)
  | 0, l, s     => some (l, s)
  | n + 1, l, s => (wakeOne l s).bind fun (l, s) => wakeTimes n l s

/-- The tasks of the list that are not terminated. -/
def live (s : TaskManager) (l : List TaskPtr) : List TaskPtr := l.filter fun t => !s.isTerminated t

/-- What is left of the list when its first `n` live tasks are taken out of it, with the terminated ones
that come before them. -/
def behind (s : TaskManager) : ℕ → List TaskPtr → List TaskPtr
  | 0, l     => l
  | n + 1, l => behind s n (l.dropWhile s.isTerminated).tail

/-- Each call wakes the first live task of the list, if there is one, and no other task; it takes this
task and the terminated ones before it out of the list. -/
def WakesInOrder (l : List TaskPtr) (s : TaskManager) : Prop :=
  ∀ n, ∃ s', wakeTimes n l s = some (behind s n l, s') ∧
    s'.states = TaskManager.wokenStates s.states ((live s l).take n)

/-! ### What the loop does -/

/-- The live tasks in front are lost; a terminated task behind them fails the assertion. -/
lemma wakeOne_eq : wakeOne l s = if l.any s.isTerminated then none else some ([], s) := by
  induction l with
  | nil         => rfl
  | cons t l ih =>
    rw [wakeOne, List.any_cons]
    by_cases hterm : s.isTerminated t
    · rw [if_pos hterm, hterm, Bool.true_or, if_pos rfl, TaskManager.wakeTask, if_pos hterm]
      rfl
    · rw [if_neg hterm, ih, Bool.eq_false_of_not_eq_true hterm, Bool.false_or]

lemma wakeTimes_one : wakeTimes 1 l s = wakeOne l s := by
  rw [wakeTimes]
  cases wakeOne l s with
  | none   => rfl
  | some r => rfl

/-- Where no task is terminated, the first call empties the list and the others do nothing. -/
lemma wakeTimes_succ_eq (h : l.any s.isTerminated = false) (n : ℕ) : wakeTimes (n + 1) l s = some ([], s) := by
  induction n generalizing l with
  | zero      => rw [wakeTimes_one, wakeOne_eq, h, if_neg Bool.false_ne_true]
  | succ n ih =>
    rw [wakeTimes, wakeOne_eq, h, if_neg Bool.false_ne_true, Option.bind_some]
    exact ih rfl

lemma behind_nil (n : ℕ) : behind s n [] = [] := by
  induction n with
  | zero      => rfl
  | succ n ih => exact ih

/-! ### When the calls wake the tasks -/

/-- A task that runs stays as it is when it is woken. -/
lemma wokenStates_singleton (ht : s.states t = .running) :
    TaskManager.wokenStates s.states [t] = s.states := by
  funext u
  rw [TaskManager.wokenStates]
  split_ifs with hu
  · rw [List.mem_singleton.mp hu.1, ht]
  · rfl

/-- The first call leaves every task in its state, and it empties the list. -/
lemma eq_singleton_of_wakesInOrder (h : WakesInOrder (t :: l) s) : l = [] ∧ s.states t = .running := by
  obtain ⟨s', hs', hstates⟩ := h 1
  rw [wakeTimes_one, wakeOne_eq] at hs'
  split_ifs at hs' with hany
  rw [List.any_cons, Bool.or_eq_true, not_or] at hany
  obtain ⟨hl, rfl⟩ := Prod.mk.inj (Option.some.inj hs')
  have hlive : live s (t :: l) = t :: live s l := by
    rw [live, List.filter_cons_of_pos]
    · rfl
    · simp [hany.1]
  have hbehind : behind s 1 (t :: l) = l := by
    show ((t :: l).dropWhile s.isTerminated).tail = l
    rw [List.dropWhile_cons_of_neg hany.1]
    rfl
  rw [hlive, List.take_succ_cons, List.take_zero] at hstates
  refine ⟨hbehind.symm.trans hl.symm, ?_⟩
  rw [hstates, TaskManager.wokenStates, if_pos]
  exact ⟨List.mem_singleton_self t, mt TaskManager.isTerminated_iff_states.mpr hany.1⟩

/-- The calls wake the tasks of the list in order exactly when there is nothing to wake. -/
theorem wakesInOrder_iff (l : List TaskPtr) (s : TaskManager) :
    WakesInOrder l s ↔ l = [] ∨ ∃ t, l = [t] ∧ s.states t = .running := by
  constructor
  · intro h
    cases l with
    | nil      => exact .inl rfl
    | cons t l =>
      obtain ⟨rfl, ht⟩ := eq_singleton_of_wakesInOrder h
      exact .inr ⟨t, rfl, ht⟩
  · rintro (rfl | ⟨t, rfl, ht⟩) n
    · refine ⟨s, ?_, ?_⟩
      · rw [behind_nil]
        cases n with
        | zero   => rfl
        | succ n => exact wakeTimes_succ_eq rfl n
      · funext u
        simp [live, TaskManager.wokenStates]
    · have hterm : s.isTerminated t = false := by
        rw [← Bool.not_eq_true, TaskManager.isTerminated_iff_states, ht]
        intro heq
        cases heq
      have hany : [t].any s.isTerminated = false := by simp [hterm]
      refine ⟨s, ?_, ?_⟩
      · cases n with
        | zero   => rfl
        | succ n =>
          rw [wakeTimes_succ_eq hany, behind, List.dropWhile_cons_of_neg (by simp [hterm])]
          exact congrArg some (congrArg (·, s) (behind_nil n).symm)
      · have hlive : live s [t] = [t] := by simp [live, hterm]
        cases n with
        | zero   =>
          funext u
          simp [TaskManager.wokenStates]
        | succ n => rw [hlive, List.take_succ_cons, List.take_nil, wokenStates_singleton ht]

/-- A task that waits alone is dropped, and it sleeps for ever. -/
theorem not_wakesInOrder_waiting : ∃ s l s', TaskManager.Reaches s ∧ add [] s 0 = some (l, s') ∧ l = [0] ∧
    wakeOne l s' = some ([], s') ∧ ¬WakesInOrder l s' := by
  obtain ⟨s, s', hs, hs'⟩ : ∃ s s', TaskManager.created.wakeTask 0 = some s ∧ s.pauseTask 0 = some s' :=
    ⟨_, _, rfl, rfl⟩
  have hreaches := TaskManager.Reaches.step (.start TaskManager.initial_created) (.wakeTask 0) hs
  have hrun : s.states 0 = .running := by
    rw [(TaskManager.states_wakeTask hs).2.1, Function.update_self]
  obtain ⟨hterm, -, ⟨hnot, -⟩ | ⟨-, hstates⟩⟩ :=
    TaskManager.states_pauseTask (TaskManager.scheduled_of_reaches hreaches) hs'
  · exact absurd hrun hnot
  · have hpaused : s'.states 0 = .uninterruptible := by rw [hstates, Function.update_self]
    refine ⟨s, [0], s', hreaches, ?_, rfl, ?_, fun h => ?_⟩
    · rw [add, if_neg (mt TaskManager.isTerminated_iff_states.mp hterm), hs']
      rfl
    · have hlive : ¬s'.isTerminated 0 := by
        rw [TaskManager.isTerminated_iff_states, hpaused]
        intro heq
        cases heq
      rw [wakeOne, if_neg hlive, wakeOne]
    · have ht := (eq_singleton_of_wakesInOrder h).2
      rw [hpaused] at ht
      cases ht

end WaitList

end PiKachulm.Tasks

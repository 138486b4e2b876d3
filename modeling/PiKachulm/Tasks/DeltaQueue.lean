import PiKachulm.Libk.Word

/-!
# Delta queues

The queue of sleeping tasks: each item holds the ticks that remain once the items before it are
gone. The functions work on any type of elements.
-/

namespace PiKachulm.Tasks

open Libk

structure Item (α : Type*) where
  value : α
  remainingTicks : ℕ

/-- Replaces the element of an item. -/
def Item.map {α β : Type*} (f : α → β) (it : Item α) : Item β := ⟨f it.value, it.remainingTicks⟩

namespace DeltaQueue

variable {α β : Type*}

/-- `add_task`, from the item at which `elapsedTime` ticks have been passed. -/
def addTask (sleepy : α) (ticks elapsedTime : ℕ) : List (Item α) → List (Item α)
  | []         => [⟨sleepy, wsub ticks elapsedTime⟩]
  | it :: rest =>
    if wadd elapsedTime it.remainingTicks > ticks then
      let remainingTime := wsub ticks elapsedTime
      ⟨sleepy, remainingTime⟩ ::
        { it with remainingTicks := wsub it.remainingTicks remainingTime } :: rest
    else it :: addTask sleepy ticks (wadd elapsedTime it.remainingTicks) rest

/-- The loop of `tick`: the elements that are popped, and the items that stay. -/
def popDue : List (Item α) → List α × List (Item α)
  | []         => ([], [])
  | it :: rest =>
    if it.remainingTicks = 0 then (it.value :: (popDue rest).1, (popDue rest).2) else ([], it :: rest)

def tick : List (Item α) → List α × List (Item α)
  | []         => ([], [])
  | it :: rest => popDue ({ it with remainingTicks := wsub it.remainingTicks 1 } :: rest)

/-- The elements of a queue. -/
def values (q : List (Item α)) : List α := q.map Item.value

variable {sleepy : α} {ticks elapsed : ℕ} {q : List (Item α)} {f : α → β}

lemma values_addTask : (values (addTask sleepy ticks elapsed q)).Perm (sleepy :: values q) := by
  induction q generalizing elapsed with
  | nil            => exact List.Perm.refl _
  | cons it rest ih =>
    rw [addTask]
    split_ifs
    · exact List.Perm.refl _
    · exact (ih.cons it.value).trans (List.Perm.swap ..)

lemma values_popDue : (popDue q).1 ++ values (popDue q).2 = values q := by
  induction q with
  | nil            => rfl
  | cons it rest ih =>
    rw [popDue]
    split_ifs
    · show it.value :: ((popDue rest).1 ++ values (popDue rest).2) = it.value :: values rest
      rw [ih]
    · rfl

/-- What is released comes first, and the rest stays. -/
lemma values_tick : (tick q).1 ++ values (tick q).2 = values q := by
  cases q with
  | nil          => rfl
  | cons it rest =>
    rw [tick, values_popDue, values, List.map_cons, values, List.map_cons]

lemma map_addTask : (addTask sleepy ticks elapsed q).map (Item.map f) =
    addTask (f sleepy) ticks elapsed (q.map (Item.map f)) := by
  induction q generalizing elapsed with
  | nil            => rfl
  | cons it rest ih =>
    rw [List.map_cons, addTask, addTask]
    show _ = if wadd elapsed it.remainingTicks > ticks then _ else _
    split_ifs
    · rfl
    · rw [List.map_cons, ih]
      rfl

lemma map_popDue : popDue (q.map (Item.map f)) = ((popDue q).1.map f, (popDue q).2.map (Item.map f)) := by
  induction q with
  | nil            => rfl
  | cons it rest ih =>
    rw [List.map_cons, popDue, popDue, ih]
    show (if it.remainingTicks = 0 then _ else _) = _
    split_ifs <;> rfl

/-- The elements play no role for the ticks. -/
lemma map_tick : tick (q.map (Item.map f)) = ((tick q).1.map f, (tick q).2.map (Item.map f)) := by
  cases q with
  | nil          => rfl
  | cons it rest =>
    rw [tick, ← map_popDue]
    rfl

end DeltaQueue

end PiKachulm.Tasks

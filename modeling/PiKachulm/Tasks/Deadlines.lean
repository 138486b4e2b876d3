import Mathlib.Data.List.Perm.Basic
import Mathlib.Tactic.Linarith
import PiKachulm.Core.Agenda
import PiKachulm.Tasks.DeltaQueue

/-!
# Deadlines of a delta queue

Each item of a delta queue holds the ticks that remain once the items before it are gone. Summed up, these
are the deadlines of the items: an agenda, in which `add_task` puts an entry and from which `tick` takes
the entries of the first date. So every entry is released by the tick it was added for.
-/

namespace PiKachulm.Tasks

open Core Libk Agenda

namespace DeltaQueue

variable {α : Type*} {now n elapsed : ℕ} {x : α} {q : List (Item α)} {added : List (α × ℕ)}

/-- The numbers of the ticks that release the items, when `now` ticks have been made. -/
def deadlines (now : ℕ) : List (Item α) → List (α × ℕ)
  | []         => []
  | it :: rest => (it.value, now + it.remainingTicks) :: deadlines (now + it.remainingTicks) rest

/-- The sums and the differences of `add_task` do not wrap. -/
def AddsExactly (ticks elapsedTime : ℕ) : List (Item α) → Prop
  | []         => elapsedTime ≤ ticks
  | it :: rest => elapsedTime + it.remainingTicks < 2 ^ 64 ∧
    if wadd elapsedTime it.remainingTicks > ticks then
      elapsedTime ≤ ticks ∧ wsub ticks elapsedTime ≤ it.remainingTicks
    else AddsExactly ticks (wadd elapsedTime it.remainingTicks) rest

/-- The difference of `tick` does not wrap. -/
def TicksExactly (q : List (Item α)) : Prop := ∀ it ∈ q.head?, 1 ≤ it.remainingTicks

/-! ### The agenda of a queue -/

lemma values_deadlines (now : ℕ) : (deadlines now q).map Prod.fst = values q := by
  induction q generalizing now with
  | nil            => rfl
  | cons it rest ih =>
    rw [deadlines, List.map_cons, ih]
    rfl

lemma le_of_mem_deadlines {e : α × ℕ} (he : e ∈ deadlines now q) : now ≤ e.2 := by
  induction q generalizing now with
  | nil            => cases he
  | cons it rest ih =>
    rcases List.mem_cons.mp he with rfl | he
    · exact Nat.le_add_right ..
    · exact (Nat.le_add_right ..).trans (ih he)

lemma inOrder_deadlines : InOrder (deadlines now q) := by
  induction q generalizing now with
  | nil            => exact List.Pairwise.nil
  | cons it rest ih => exact List.pairwise_cons.mpr ⟨fun _ he => le_of_mem_deadlines he, ih⟩

lemma TicksExactly.lt_of_mem {e : α × ℕ} (h : TicksExactly q) (he : e ∈ deadlines now q) : now < e.2 := by
  cases q with
  | nil          => cases he
  | cons it rest =>
    have hpos := h it rfl
    rcases List.mem_cons.mp he with rfl | he
    · exact Nat.lt_add_of_pos_right hpos
    · exact (Nat.lt_add_of_pos_right hpos).trans_le (le_of_mem_deadlines he)

/-! ### Adding -/

/-- All deadlines are less than `2 ^ 64` ticks ahead, so that the sums of `add_task` are exact. -/
lemma sum_lt {it : Item α} (h : ∀ e ∈ deadlines (now + elapsed) (it :: q), e.2 < now + 2 ^ 64) :
    elapsed + it.remainingTicks < 2 ^ 64 := by
  have hlt := h _ (List.mem_cons_self ..)
  rw [Nat.add_assoc] at hlt
  exact Nat.lt_of_add_lt_add_left hlt

lemma bound_tail {it : Item α} (h : ∀ e ∈ deadlines (now + elapsed) (it :: q), e.2 < now + 2 ^ 64) :
    ∀ e ∈ deadlines (now + (elapsed + it.remainingTicks)) q, e.2 < now + 2 ^ 64 := by
  intro e he
  rw [← Nat.add_assoc] at he
  exact h e (List.mem_cons_of_mem _ he)

lemma addsExactly_of_bound (helapsed : elapsed ≤ n) (hn : n < 2 ^ 64)
    (h : ∀ e ∈ deadlines (now + elapsed) q, e.2 < now + 2 ^ 64) : AddsExactly n elapsed q := by
  induction q generalizing elapsed with
  | nil            => exact helapsed
  | cons it rest ih =>
    have hit := sum_lt h
    rw [AddsExactly, wadd_of_lt hit, wsub_of_le helapsed hn]
    refine ⟨hit, ?_⟩
    split_ifs with hlt
    · exact ⟨helapsed, Nat.sub_le_iff_le_add'.mpr hlt.le⟩
    · exact ih (not_lt.mp hlt) (bound_tail h)

/-- `add_task` puts the entry in front of the first one with a later deadline. -/
lemma deadlines_addTask (helapsed : elapsed ≤ n) (hn : n < 2 ^ 64)
    (h : ∀ e ∈ deadlines (now + elapsed) q, e.2 < now + 2 ^ 64) :
    deadlines (now + elapsed) (addTask x n elapsed q) = put (x, now + n) (deadlines (now + elapsed) q) := by
  induction q generalizing elapsed with
  | nil            =>
    have hsum : now + elapsed + (n - elapsed) = now + n := by omega
    rw [addTask, wsub_of_le helapsed hn]
    show [(x, now + elapsed + (n - elapsed))] = [(x, now + n)]
    rw [hsum]
  | cons it rest ih =>
    have hit := sum_lt h
    rw [addTask, deadlines, put_cons, wadd_of_lt hit]
    by_cases hlt : elapsed + it.remainingTicks > n
    · have hle : n - elapsed ≤ it.remainingTicks := Nat.sub_le_iff_le_add'.mpr hlt.le
      have hfirst : now + elapsed + (n - elapsed) = now + n := by omega
      have hsecond : now + n + (it.remainingTicks - (n - elapsed)) = now + elapsed + it.remainingTicks := by
        omega
      have hlater : now + n < now + elapsed + it.remainingTicks := by omega
      rw [if_pos hlt, if_pos hlater]
      dsimp only
      rw [wsub_of_le helapsed hn, wsub_of_le hle (by omega), deadlines, deadlines, hfirst, hsecond]
    · have hlater : ¬now + n < now + elapsed + it.remainingTicks := by omega
      rw [if_neg hlt, if_neg hlater, deadlines, Nat.add_assoc now, ih (not_lt.mp hlt) (bound_tail h)]

/-! ### Ticks -/

lemma deadlines_popDue :
    (popDue q).1 = ((deadlines now q).takeWhile fun e => decide (e.2 = now)).map Prod.fst ∧
      deadlines now (popDue q).2 = (deadlines now q).dropWhile fun e => decide (e.2 = now) := by
  induction q with
  | nil            => exact ⟨rfl, rfl⟩
  | cons it rest ih =>
    rw [popDue, deadlines]
    split_ifs with hzero
    · rw [hzero, Nat.add_zero, List.takeWhile_cons_of_pos (by simp), List.dropWhile_cons_of_pos (by simp),
        List.map_cons, ih.1]
      exact ⟨rfl, ih.2⟩
    · rw [List.takeWhile_cons_of_neg (by simpa using hzero), List.dropWhile_cons_of_neg (by simpa using hzero)]
      exact ⟨rfl, rfl⟩

/-- A tick takes the entries of the next date. -/
lemma deadlines_tick (h : TicksExactly q) (hbound : ∀ e ∈ deadlines now q, e.2 < now + 2 ^ 64) :
    (tick q).1 = (dueOn (now + 1) (deadlines now q)).map Prod.fst ∧
      deadlines (now + 1) (tick q).2 = dueAfter (now + 1) (deadlines now q) := by
  cases q with
  | nil          => exact ⟨rfl, rfl⟩
  | cons it rest =>
    have hpos := h it rfl
    have hlt : it.remainingTicks < 2 ^ 64 := Nat.lt_of_add_lt_add_left (hbound _ (List.mem_cons_self ..))
    have hsame : deadlines (now + 1) (⟨it.value, wsub it.remainingTicks 1⟩ :: rest) =
        deadlines now (it :: rest) := by
      rw [wsub_of_le hpos hlt, deadlines, deadlines, Nat.add_assoc, Nat.add_sub_cancel' hpos]
    obtain ⟨htake, hdrop⟩ := inOrder_deadlines.takeWhile_eq (d := now + 1)
      fun e (he : e ∈ deadlines now (it :: rest)) => h.lt_of_mem he
    rw [tick, deadlines_popDue.1, deadlines_popDue.2, hsame, htake, hdrop]
    exact ⟨rfl, rfl⟩

/-! ### The invariant -/

/-- The queue holds what has been added and is not due yet. -/
structure Tracks (now : ℕ) (added : List (α × ℕ)) (q : List (Item α)) : Prop where
  same : ∀ d, now < d → dueOn d (deadlines now q) = dueOn d added
  head : TicksExactly q
  bound : ∀ e ∈ deadlines now q, e.2 < now + 2 ^ 64

lemma Tracks.nil : Tracks 0 [] ([] : List (Item α)) := ⟨fun _ _ => rfl, nofun, nofun⟩

lemma Tracks.addsExactly (h : Tracks now added q) (hn : n < 2 ^ 64) : AddsExactly n 0 q :=
  addsExactly_of_bound (Nat.zero_le n) hn h.bound

lemma ticksExactly_of_lt (now : ℕ) (h : ∀ e ∈ deadlines now q, now < e.2) : TicksExactly q := by
  intro it hit
  cases q with
  | nil          => cases hit
  | cons _ rest =>
    cases hit
    exact Nat.pos_of_lt_add_right (h _ (List.mem_cons_self ..))

lemma Tracks.addTask (h : Tracks now added q) (hpos : 1 ≤ n) (hn : n < 2 ^ 64) :
    Tracks now (added ++ [(x, now + n)]) (addTask x n 0 q) := by
  have hput : deadlines now (DeltaQueue.addTask x n 0 q) = put (x, now + n) (deadlines now q) :=
    deadlines_addTask (Nat.zero_le n) hn h.bound
  refine ⟨fun d hd => ?_, ticksExactly_of_lt now fun e he => ?_, fun e he => ?_⟩
  · rw [hput, dueOn_append, ← h.same d hd]
    by_cases heq : now + n = d
    · rw [dueOn_put_of_eq heq inOrder_deadlines, dueOn_cons, if_pos heq, dueOn_nil]
    · rw [dueOn_put_of_ne heq, dueOn_cons, if_neg heq, dueOn_nil, List.append_nil]
  · rw [hput] at he
    rcases mem_put.mp he with rfl | he
    · exact Nat.lt_add_of_pos_right hpos
    · exact h.head.lt_of_mem he
  · rw [hput] at he
    rcases mem_put.mp he with rfl | he
    · exact Nat.add_lt_add_left hn now
    · exact h.bound e he

/-- The tick releases what is due, in the order in which it was added. -/
lemma Tracks.tick (h : Tracks now added q) :
    (tick q).1 = (dueOn (now + 1) added).map Prod.fst ∧ Tracks (now + 1) added (tick q).2 := by
  obtain ⟨hreleased, hrest⟩ := deadlines_tick h.head h.bound
  refine ⟨by rw [hreleased, h.same _ (Nat.lt_succ_self now)], fun d hd => ?_, ?_, fun e he => ?_⟩
  · rw [hrest, dueOn_dueAfter hd, h.same d ((Nat.lt_succ_self now).trans hd)]
  · refine ticksExactly_of_lt (now + 1) fun e he => ?_
    rw [hrest] at he
    simpa using (List.mem_filter.mp he).2
  · rw [hrest] at he
    exact (h.bound e (List.mem_filter.mp he).1).trans_le (Nat.add_le_add_right (Nat.le_succ now) _)

/-- The elements of the queue are those that are not due yet. -/
lemma Tracks.perm_values (h : Tracks now added q) : (values q).Perm ((dueAfter now added).map Prod.fst) := by
  classical
  rw [← values_deadlines now]
  refine List.Perm.map _ (List.perm_iff_count.mpr fun e => ?_)
  by_cases he : now < e.2
  · have hsame := congrArg (List.count e) (h.same e.2 he)
    rw [dueOn, dueOn, List.count_filter (by simp), List.count_filter (by simp)] at hsame
    rw [hsame, dueAfter, List.count_filter (by simpa using he)]
  · rw [List.count_eq_zero_of_not_mem fun hmem => he (h.head.lt_of_mem hmem),
      List.count_eq_zero_of_not_mem fun hmem => he (by simpa using (List.mem_filter.mp hmem).2)]

/-! ### Runs -/

inductive Call (α : Type*)
  | addTask (task : α) (ticks : ℕ)
  | tick

/-- A queue, the number of ticks made so far, what has been added with the number of the tick that is to
release it, and what each tick has released. -/
structure Clock (α : Type*) where
  items : List (Item α)
  ticks : ℕ
  added : List (α × ℕ)
  released : List (List α)

namespace Clock

def start : Clock α := ⟨[], 0, [], []⟩

/-- The entry that is added now is to be released by the tick that comes `ticks` ticks later. -/
def step (c : Clock α) : Call α → Clock α
  | .addTask task ticks =>
    { c with
      items := DeltaQueue.addTask task ticks 0 c.items
      added := c.added ++ [(task, c.ticks + ticks)] }
  | .tick               =>
    { c with
      items := (DeltaQueue.tick c.items).2
      ticks := c.ticks + 1
      released := c.released ++ [(DeltaQueue.tick c.items).1] }

def run (calls : List (Call α)) : Clock α := calls.foldl step start

end Clock

def Call.Valid : Call α → Prop
  | .addTask _ ticks => 1 ≤ ticks ∧ ticks < 2 ^ 64
  | .tick            => True

/-- No sum and no difference of the call wraps. -/
def Call.IsExact (q : List (Item α)) : Call α → Prop
  | .addTask _ ticks => AddsExactly ticks 0 q
  | .tick            => TicksExactly q

/-- Each tick has released the entries that were added for it, in the order in which they were added; the
other entries are in the queue. -/
structure Clock.Exact (c : Clock α) : Prop where
  ticks : c.released.length = c.ticks
  released : ∀ k < c.ticks, c.released[k]? = some ((dueOn (k + 1) c.added).map Prod.fst)
  waiting : (values c.items).Perm ((dueAfter c.ticks c.added).map Prod.fst)
  head : ∀ it ∈ c.items.head?, 1 ≤ it.remainingTicks
  noWrap : ∀ call : Call α, call.Valid → call.IsExact c.items

/-- The invariant of a run. -/
structure Clock.Good (c : Clock α) : Prop where
  tracks : Tracks c.ticks c.added c.items
  ticks : c.released.length = c.ticks
  released : ∀ k < c.ticks, c.released[k]? = some ((dueOn (k + 1) c.added).map Prod.fst)

lemma Clock.Good.exact {c : Clock α} (h : c.Good) : c.Exact where
  ticks := h.ticks
  released := h.released
  waiting := h.tracks.perm_values
  head := h.tracks.head
  noWrap call hcall := by
    cases call with
    | addTask x n => exact h.tracks.addsExactly hcall.2
    | tick        => exact h.tracks.head

lemma Clock.Good.step {c : Clock α} {call : Call α} (h : c.Good) (hcall : call.Valid) : (c.step call).Good := by
  cases call with
  | addTask x n =>
    refine ⟨h.tracks.addTask hcall.1 hcall.2, h.ticks, fun k hk => ?_⟩
    -- the new entry is due after all ticks made so far
    have hlater : c.ticks + n ≠ k + 1 := ((Nat.succ_le_of_lt hk).trans_lt (Nat.lt_add_of_pos_right hcall.1)).ne'
    show c.released[k]? = some ((dueOn (k + 1) (c.added ++ [(x, c.ticks + n)])).map Prod.fst)
    rw [dueOn_append, dueOn_cons, if_neg hlater, dueOn_nil, List.append_nil, h.released k hk]
  | tick        =>
    obtain ⟨hreleased, htracks⟩ := h.tracks.tick
    refine ⟨htracks, ?_, fun k hk => ?_⟩
    · show (c.released ++ [_]).length = c.ticks + 1
      rw [List.length_append, h.ticks, List.length_singleton]
    · show (c.released ++ [(DeltaQueue.tick c.items).1])[k]? = _
      rcases (Nat.lt_succ_iff.mp hk).lt_or_eq with hlt | rfl
      · rw [List.getElem?_append_left (h.ticks.symm ▸ hlt)]
        exact h.released k hlt
      · rw [← h.ticks, List.getElem?_concat_length, hreleased, h.ticks]
        rfl

/-- In every run each entry is released by the tick for which it was added. -/
theorem run_exact (calls : List (Call α)) (h : ∀ call ∈ calls, call.Valid) : (Clock.run calls).Exact := by
  suffices hgood : ∀ c : Clock α, c.Good → (calls.foldl Clock.step c).Good from
    (hgood Clock.start ⟨.nil, rfl, nofun⟩).exact
  induction calls with
  | nil             => exact fun c hc => hc
  | cons call calls ih =>
    obtain ⟨hcall, hcalls⟩ := List.forall_mem_cons.mp h
    exact fun c hc => ih hcalls _ (hc.step hcall)

theorem run_exact_ties : (Clock.run [.addTask 'a' 2, .addTask 'b' 1, .addTask 'c' 2, .tick, .tick]).released =
    [['b'], ['a', 'c']] ∧
      (Clock.run [.addTask 'a' 2, .addTask 'b' 1, .addTask 'c' 2, .tick, .tick]).Exact := by
  refine ⟨by decide +kernel, run_exact _ ?_⟩
  simp [Call.Valid]

end DeltaQueue

end PiKachulm.Tasks

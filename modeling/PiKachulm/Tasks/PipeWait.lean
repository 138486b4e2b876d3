import PiKachulm.Tasks.Pipe

/-!
# Waiting on pipes

No task waits to read from a pipe that holds a byte, to write to one that has space, or on a closed one;
and no task leaves a wait list without being woken.
-/

namespace PiKachulm.Tasks

open Core Libk

namespace PipeResource

/-- The calls on a pipe, and those of the task manager in between. -/
inductive Op where
  | waitRead (t : TaskPtr)
  | waitWrite (t : TaskPtr)
  | read (count : ℕ)
  | write (data : List UInt8)
  | close
  | task (op : TaskManager.Op)

def Op.run (p : PipeResource) (s : TaskManager) : Op → Option (PipeResource × TaskManager)
  | .waitRead t  => (p.waitRead s t).map Prod.snd
  | .waitWrite t => (p.waitWrite s t).map Prod.snd
  | .read count  => (p.read s count).map Prod.snd
  | .write data  => (p.write s data).map Prod.snd
  | .close       => p.close s
  | .task op     => (op.run s).map fun s => (p, s)

/-- The states of runs on a pipe, whose capacity is a word that is not zero. -/
inductive Waits : PipeResource → TaskManager → Prop
  | start {parent : TaskPtr} {name capacity : ℕ} {buffer : ℕ → UInt8} {s : TaskManager}
    (hpos : 0 < capacity) (hlt : capacity < 2 ^ 64) : Waits (create parent name capacity buffer) s
  | step {p p' : PipeResource} {s s' : TaskManager} (h : Waits p s) (op : Op)
    (hop : op.run p s = some (p', s')) : Waits p' s'

/-- No task waits for what is there. -/
structure NoLostWakeup (p : PipeResource) : Prop where
  readers : 0 < p.size → p.readWaitList = []
  writers : p.isClosed = false → p.size < p.capacity → p.writeWaitList = []
  closed : p.isClosed = true → p.readWaitList = [] ∧ p.writeWaitList = []

/-- Those that leave a wait list run, if they are not terminated. -/
def Released (l l' : List TaskPtr) (s' : TaskManager) : Prop :=
  ∀ t ∈ l, t ∈ l' ∨ s'.states t = .terminated ∨ s'.states t = .running

variable {p p' : PipeResource} {s s' : TaskManager} {count : ℕ} {data : List UInt8} {t : TaskPtr} {b : Bool}
  {l l' : List TaskPtr} {op : Op}

lemma Released.refl : Released l l s := fun _ ht => .inl ht

lemma released_wakeAll (hs : s.wakeAll l = some s') : Released l l' s' := by
  intro t ht
  rw [(TaskManager.states_wakeAll hs).1, TaskManager.wokenStates]
  split_ifs with hwoken
  · exact .inr (.inr rfl)
  · rw [not_and, not_not] at hwoken
    exact .inr (.inl (hwoken ht))

/-- A task that runs or is terminated does so after other tasks have been woken. -/
lemma Released.wakeAll (h : Released l [] s) (hs : s.wakeAll l' = some s') : Released l [] s' := by
  intro t ht
  rw [(TaskManager.states_wakeAll hs).1, TaskManager.wokenStates]
  split_ifs
  · exact .inr (.inr rfl)
  · exact h t ht

/-! ### The calls -/

lemma read_eq_some (h : p.read s count = some (data, p', s')) : (p' = p ∧ s' = s) ∨
    ∃ n readIndex, 0 < n ∧ n ≤ p.size ∧ s.wakeAll p.writeWaitList = some s' ∧
      p' = { p with readIndex := readIndex, size := wsub p.size n, writeWaitList := [] } := by
  rw [read] at h
  dsimp only at h
  split_ifs at h with hclosed hzero
  · cases h
    exact .inl ⟨rfl, rfl⟩
  · cases h
    exact .inl ⟨rfl, rfl⟩
  · obtain ⟨bytes, -, h⟩ := Option.bind_eq_some_iff.mp h
    obtain ⟨s₁, h₁, h⟩ := Option.bind_eq_some_iff.mp h
    cases h
    exact .inr ⟨_, _, Nat.pos_of_ne_zero hzero, min_le_right .., h₁, rfl⟩

lemma writeBytes_eq_some (h : p.writeBytes data = some p') : ∃ buffer, p' = { p with buffer := buffer } := by
  have hcopy : ∀ {p p' : PipeResource} {start : ℕ} {data : List UInt8}, p.copyIn start data = some p' →
      ∃ buffer, p' = { p with buffer := buffer } := by
    intro p p' start data h
    rw [copyIn] at h
    split_ifs at h
    cases h
    exact ⟨_, rfl⟩
  rw [writeBytes] at h
  split_ifs at h
  · exact hcopy h
  · obtain ⟨p₁, h₁, h⟩ := Option.bind_eq_some_iff.mp h
    obtain ⟨b₁, rfl⟩ := hcopy h₁
    obtain ⟨b₂, rfl⟩ := hcopy h
    exact ⟨b₂, rfl⟩

lemma write_eq_some (h : p.write s data = some (count, p', s')) : (p' = p ∧ s' = s) ∨
    ∃ n buffer writeIndex, 0 < n ∧ n ≤ wsub p.capacity p.size ∧ s.wakeAll p.readWaitList = some s' ∧
      p' = { p with
        buffer := buffer, writeIndex := writeIndex, size := wadd p.size n, readWaitList := [] } := by
  rw [write] at h
  dsimp only at h
  split_ifs at h with hclosed hzero
  · cases h
    exact .inl ⟨rfl, rfl⟩
  · cases h
    exact .inl ⟨rfl, rfl⟩
  · obtain ⟨p₁, h₁, h⟩ := Option.bind_eq_some_iff.mp h
    obtain ⟨s₁, h₂, h⟩ := Option.bind_eq_some_iff.mp h
    obtain ⟨buffer, rfl⟩ := writeBytes_eq_some h₁
    cases h
    exact .inr ⟨_, _, _, Nat.pos_of_ne_zero hzero, min_le_right .., h₂, rfl⟩

/-- `close` empties the pipe and wakes all tasks that wait on it. -/
lemma close_spec (p : PipeResource) (s : TaskManager) : ∃ p' s', p.close s = some (p', s') ∧
    p'.isClosed = true ∧ p'.size = 0 ∧ p'.capacity = 0 ∧ p'.readWaitList = [] ∧ p'.writeWaitList = [] ∧
      Released p.readWaitList [] s' ∧ Released p.writeWaitList [] s' := by
  obtain ⟨s₁, h₁, -⟩ := TaskManager.wakeAll_spec (s := s) p.readWaitList
  obtain ⟨s₂, h₂, -⟩ := TaskManager.wakeAll_spec (s := s₁) p.writeWaitList
  refine ⟨⟨none, p.name, [], [], p.buffer, 0, 0, 0, 0⟩, s₂, ?_, rfl, rfl, rfl, rfl, rfl,
    (released_wakeAll h₁).wakeAll h₂, released_wakeAll h₂⟩
  rw [close]
  dsimp only
  rw [h₁, Option.bind_eq_bind, Option.bind_some, h₂]
  rfl

/-! ### Runs -/

/-- The invariant of a run; a size is at most the capacity, which is a word. -/
structure Waiting (p : PipeResource) : Prop extends p.NoLostWakeup where
  size : p.size ≤ p.capacity
  capacity : p.capacity < 2 ^ 64

/-- What a call does to the tasks that wait. -/
structure Wakes (p p' : PipeResource) (s' : TaskManager) : Prop where
  readers : Released p.readWaitList p'.readWaitList s'
  writers : Released p.writeWaitList p'.writeWaitList s'
  closed : p.isClosed = true → p'.isClosed = true

lemma Wakes.refl : Wakes p p s := ⟨.refl, .refl, id⟩

lemma Waiting.run (h : p.Waiting) (hop : op.run p s = some (p', s')) : p'.Waiting ∧ Wakes p p' s' := by
  cases op with
  | waitRead t  =>
    obtain ⟨⟨b, p₁, s₁⟩, h₁, heq⟩ := Option.map_eq_some_iff.mp hop
    cases heq
    rcases waitRead_eq_some h₁ with rfl | ⟨u, hsize, hopen, rfl⟩
    · exact ⟨h, .refl⟩
    · refine ⟨⟨⟨?_, h.writers, ?_⟩, h.size, h.capacity⟩, fun v hv => ?_, .refl, id⟩
      · intro hpos
        exact absurd hsize (Nat.ne_of_gt hpos)
      · intro hclosed
        exact absurd (hopen.symm.trans hclosed) Bool.false_ne_true
      · exact .inl (List.mem_append_left _ hv)
  | waitWrite t =>
    obtain ⟨⟨b, p₁, s₁⟩, h₁, heq⟩ := Option.map_eq_some_iff.mp hop
    cases heq
    rcases waitWrite_eq_some h₁ with rfl | ⟨u, hfull, hopen, rfl⟩
    · exact ⟨h, .refl⟩
    · refine ⟨⟨⟨h.readers, fun _ hlt => (hfull hlt).elim, ?_⟩, h.size, h.capacity⟩, .refl, fun v hv => ?_, id⟩
      · intro hclosed
        exact absurd (hopen.symm.trans hclosed) Bool.false_ne_true
      · exact .inl (List.mem_append_left _ hv)
  | read count  =>
    obtain ⟨⟨bytes, p₁, s₁⟩, h₁, heq⟩ := Option.map_eq_some_iff.mp hop
    cases heq
    rcases read_eq_some h₁ with ⟨rfl, rfl⟩ | ⟨n, readIndex, hpos, hn, hwake, rfl⟩
    · exact ⟨h, .refl⟩
    · have hsize := h.size
      have hcap := h.capacity
      have hsub : wsub p.size n = p.size - n := wsub_of_le hn (by omega)
      refine ⟨⟨⟨fun _ => ?_, fun _ _ => rfl, fun hclosed => ⟨(h.closed hclosed).1, rfl⟩⟩, ?_, h.capacity⟩,
        .refl, released_wakeAll hwake, id⟩
      · exact h.readers (hpos.trans_le hn)
      · show wsub p.size n ≤ p.capacity
        rw [hsub]
        exact (Nat.sub_le ..).trans hsize
  | write data  =>
    obtain ⟨⟨c, p₁, s₁⟩, h₁, heq⟩ := Option.map_eq_some_iff.mp hop
    cases heq
    rcases write_eq_some h₁ with ⟨rfl, rfl⟩ | ⟨n, buffer, writeIndex, hpos, hn, hwake, rfl⟩
    · exact ⟨h, .refl⟩
    · have hsize := h.size
      have hcap := h.capacity
      rw [wsub_of_le hsize hcap] at hn
      have hadd : wadd p.size n = p.size + n := wadd_of_lt (by omega)
      refine ⟨⟨⟨fun _ => rfl, fun hopen _ => ?_, fun hclosed => ⟨rfl, (h.closed hclosed).2⟩⟩, ?_, h.capacity⟩,
        released_wakeAll hwake, .refl, id⟩
      · exact h.writers hopen (by omega)
      · show wadd p.size n ≤ p.capacity
        rw [hadd]
        omega
  | close       =>
    obtain ⟨p₁, s₁, h₁, hclosed, hsize, hcap, hreaders, hwriters, hreleased, hreleased'⟩ := close_spec p s
    rw [Op.run, h₁] at hop
    cases hop
    refine ⟨⟨⟨fun _ => hreaders, fun _ _ => hwriters, fun _ => ⟨hreaders, hwriters⟩⟩, ?_, ?_⟩, ?_, ?_,
      fun _ => hclosed⟩
    · rw [hsize]
      exact Nat.zero_le _
    · rw [hcap]
      exact Nat.two_pow_pos 64
    · rwa [hreaders]
    · rwa [hwriters]
  | task op     =>
    obtain ⟨s₁, -, heq⟩ := Option.map_eq_some_iff.mp hop
    cases heq
    exact ⟨h, .refl⟩

lemma Waits.waiting (h : Waits p s) : p.Waiting := by
  induction h with
  | start hpos hlt => exact ⟨⟨fun _ => rfl, fun _ _ => rfl, fun _ => ⟨rfl, rfl⟩⟩, Nat.zero_le _, hlt⟩
  | step _ op hop ih => exact (ih.run hop).1

/-- In every run no task waits on a pipe that it could use or that is closed, what leaves a wait list is
woken, and `close` leaves both lists empty for ever. -/
theorem noLostWakeup_of_waits (h : Waits p s) : p.NoLostWakeup ∧
    (∀ op p' s', Op.run p s op = some (p', s') → Wakes p p' s') ∧
      ∃ p' s', p.close s = some (p', s') ∧ p'.isClosed = true ∧ p'.readWaitList = [] ∧ p'.writeWaitList = [] ∧
        ∀ t, (t ∈ p.readWaitList ∨ t ∈ p.writeWaitList) → s'.states t ≠ .terminated →
          s'.states t = .running := by
  refine ⟨h.waiting.toNoLostWakeup, fun op p' s' hop => (h.waiting.run hop).2, ?_⟩
  obtain ⟨p', s', hclose, hclosed, -, -, hreaders, hwriters, hreleased, hreleased'⟩ := close_spec p s
  refine ⟨p', s', hclose, hclosed, hreaders, hwriters, fun t ht hterm => ?_⟩
  have hstate : t ∈ ([] : List TaskPtr) ∨ s'.states t = .terminated ∨ s'.states t = .running :=
    ht.elim (hreleased t) (hreleased' t)
  rcases hstate with hnil | hterm' | hrun
  · cases hnil
  · exact (hterm hterm').elim
  · exact hrun

/-- A task waits to read, and another one writes a byte. -/
theorem noLostWakeup_of_waits_written : ∃ p s, Waits p s ∧ p.size = 1 ∧ p.NoLostWakeup ∧
    (∀ op p' s', Op.run p s op = some (p', s') → Wakes p p' s') ∧
      ∃ p' s', p.close s = some (p', s') ∧ p'.isClosed = true ∧ p'.readWaitList = [] ∧ p'.writeWaitList = [] ∧
        ∀ t, (t ∈ p.readWaitList ∨ t ∈ p.writeWaitList) → s'.states t ≠ .terminated →
          s'.states t = .running := by
  have hrun : ((Op.run (create 1 0 4096 fun _ => 0) TaskManager.created (.task (.wakeTask 2))).bind fun r₁ =>
      (Op.run r₁.1 r₁.2 (.waitRead 2)).bind fun r₂ => Op.run r₂.1 r₂.2 (.write [7])).any
        fun r => decide (r.1.size = 1) := by
    decide +kernel
  obtain ⟨r₃, h, hsize⟩ := (Option.any_eq_true _ _).mp hrun
  obtain ⟨r₁, h₁, h⟩ := Option.bind_eq_some_iff.mp h
  obtain ⟨r₂, h₂, h₃⟩ := Option.bind_eq_some_iff.mp h
  have hwaits : Waits r₃.1 r₃.2 :=
    (((Waits.start (by decide) (by decide)).step _ h₁).step _ h₂).step _ h₃
  exact ⟨r₃.1, r₃.2, hwaits, of_decide_eq_true hsize, noLostWakeup_of_waits hwaits⟩

end PipeResource

end PiKachulm.Tasks

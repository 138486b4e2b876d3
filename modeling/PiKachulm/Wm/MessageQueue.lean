import PiKachulm.Core.Bytes
import PiKachulm.Core.Packed
import PiKachulm.Libk.Memmove
import PiKachulm.Tasks.Pipe

/-!
# Message queues

The queue of a window is an array of messages, from which the first one is taken by moving the others
down, with the tasks that wait for a message. What has been accepted and not yet been taken are the
contents of the queue, in order, and no task waits while there is a message.
-/

namespace PiKachulm.Wm

open Core Libk Tasks

/-- `sys_message_t`. -/
structure SysMessage where
  id : UInt32
  timestamp : UInt32
  param1 : UInt64
  param2 : UInt64
  deriving DecidableEq

namespace SysMessage

/-- The bytes of a message; no padding is between its fields. -/
def encode (m : SysMessage) : List UInt8 :=
  leBytes 4 m.id.toNat ++ (leBytes 4 m.timestamp.toNat ++
    (leBytes 8 m.param1.toNat ++ leBytes 8 m.param2.toNat))

def decode (l : List UInt8) : SysMessage where
  id := .ofNat (leWord (l.take 4))
  timestamp := .ofNat (leWord ((l.drop 4).take 4))
  param1 := .ofNat (leWord ((l.drop 8).take 8))
  param2 := .ofNat (leWord ((l.drop 16).take 8))

lemma length_encode (m : SysMessage) : m.encode.length = 24 := by simp [encode]

lemma ofNat_leBytes_four (x : UInt32) : UInt32.ofNat (leWord (leBytes 4 x.toNat)) = x := by
  have hlt : x.toNat < 256 ^ 4 := x.toNat_lt
  rw [leWord_leBytes, Nat.mod_eq_of_lt hlt, UInt32.ofNat_toNat]

lemma ofNat_leBytes_eight (x : UInt64) : UInt64.ofNat (leWord (leBytes 8 x.toNat)) = x := by
  have hlt : x.toNat < 256 ^ 8 := x.toNat_lt
  rw [leWord_leBytes, Nat.mod_eq_of_lt hlt, UInt64.ofNat_toNat]

lemma decode_encode (m : SysMessage) : decode m.encode = m := by
  have hid : m.encode.take 4 = leBytes 4 m.id.toNat := by
    rw [encode, List.take_left' (length_leBytes ..)]
  have htimestamp : (m.encode.drop 4).take 4 = leBytes 4 m.timestamp.toNat := by
    rw [encode, List.drop_left' (length_leBytes ..), List.take_left' (length_leBytes ..)]
  have hparam1 : (m.encode.drop 8).take 8 = leBytes 8 m.param1.toNat := by
    rw [encode, ← List.append_assoc, List.drop_left' (by simp), List.take_left' (length_leBytes ..)]
  have hparam2 : (m.encode.drop 16).take 8 = leBytes 8 m.param2.toNat := by
    rw [encode, ← List.append_assoc, ← List.append_assoc, List.drop_left' (by simp),
      List.take_of_length_le (by simp)]
  rw [decode, hid, htimestamp, hparam1, hparam2]
  simp only [ofNat_leBytes_four, ofNat_leBytes_eight]

/-- A message has 24 bytes. -/
def layout : Layout SysMessage UInt8 := ⟨24, encode, decode, length_encode, decode_encode⟩

end SysMessage

/-- The array is at the address `queue` of the memory. -/
structure MessageQueue where
  waitList : List TaskPtr
  pendingCount : ℕ
  queue : ℕ
  memory : ℕ → UInt8

namespace MessageQueue

def maxPendingMessages : ℕ := 64

/-- A new queue; what its array holds is not known. -/
def create (queue : ℕ) (memory : ℕ → UInt8) : MessageQueue := ⟨[], 0, queue, memory⟩

variable (q : MessageQueue) (s : TaskManager)

def isEmpty : Bool := q.pendingCount = 0

def isFull : Bool := q.pendingCount = maxPendingMessages

/-- `m_queue[i]`. -/
def message (i : ℕ) : SysMessage := SysMessage.layout.get q.memory q.queue i

/-- `m_queue[i] = msg`. -/
def setMessage (i : ℕ) (msg : SysMessage) : MessageQueue :=
  { q with memory := SysMessage.layout.put q.memory q.queue i msg }

/-- `&m_queue[i]`. -/
def messageAddress (i : ℕ) : ℕ := SysMessage.layout.address q.queue i

def enqueue (msg : SysMessage) : Option (Bool × MessageQueue × TaskManager) :=
  if q.isFull then some (false, q, s)
  else do
    let q := q.setMessage q.pendingCount msg
    let q := { q with pendingCount := q.pendingCount + 1 }
    let s ← s.wakeAll q.waitList
    pure (true, { q with waitList := [] }, s)

/-- `dequeue`; `none` for `false`. -/
def dequeue : Option SysMessage × MessageQueue :=
  if q.isEmpty then (none, q)
  else
    let q := { q with pendingCount := q.pendingCount - 1 }
    let msg := q.message 0
    let size := SysMessage.layout.size * q.pendingCount
    (some msg, { q with memory := memmove q.memory (q.messageAddress 0) (q.messageAddress 1) size })

/-- `peek`; `none` for `false`. -/
def peek : Option SysMessage := if q.isEmpty then none else some (q.message 0)

/-- `block_task_until_not_empty`. -/
def blockTaskUntilNotEmpty (task : TaskPtr) : Option (Bool × MessageQueue × TaskManager) :=
  if !q.isEmpty then some (false, q, s)
  else (WaitList.add q.waitList s task).map fun (l, s) => (true, { q with waitList := l }, s)

/-- The messages that have been accepted and not been taken. -/
def contents : List SysMessage := SysMessage.layout.elements q.memory q.queue q.pendingCount

/-- The address is one of the array. -/
def Covers (a : ℕ) : Prop := q.queue ≤ a ∧ a < q.messageAddress maxPendingMessages

/-- The array stays where it is, and the memory around it what it is. -/
def Keeps (q' : MessageQueue) : Prop :=
  q'.queue = q.queue ∧ ∀ a, ¬q.Covers a → q'.memory a = q.memory a

variable {q s} {q' : MessageQueue} {s' : TaskManager} {msg : SysMessage} {t : TaskPtr} {b : Bool} {a i : ℕ}

@[simp] lemma length_contents : q.contents.length = q.pendingCount := Layout.length_elements

lemma isEmpty_iff : q.isEmpty ↔ q.pendingCount = 0 := decide_eq_true_iff

lemma isEmpty_eq_false_iff : q.isEmpty = false ↔ q.pendingCount ≠ 0 := decide_eq_false_iff_not

lemma isFull_iff : q.isFull ↔ q.pendingCount = maxPendingMessages := decide_eq_true_iff

lemma messageAddress_zero : q.messageAddress 0 = q.queue := by
  rw [messageAddress, Layout.address, Nat.zero_mul, Nat.add_zero]

lemma messageAddress_one : q.messageAddress 1 = q.queue + SysMessage.layout.size := by
  rw [messageAddress, Layout.address, Nat.one_mul]

lemma messageAddress_le {j : ℕ} (h : i ≤ j) : q.messageAddress i ≤ q.messageAddress j :=
  Nat.add_le_add_left (Nat.mul_le_mul_right _ h) q.queue

lemma not_covers_iff : ¬q.Covers a ↔ a < q.queue ∨ q.messageAddress maxPendingMessages ≤ a := by
  rw [Covers, not_and_or, Nat.not_le, Nat.not_lt]

/-! ### The calls -/

lemma enqueue_of_full (h : q.pendingCount = maxPendingMessages) : q.enqueue s msg = some (false, q, s) :=
  if_pos (isFull_iff.mpr h)

/-- A message is added behind the others, and the tasks that waited run. -/
lemma enqueue_spec (h : q.pendingCount < maxPendingMessages) (s : TaskManager) (msg : SysMessage) :
    ∃ q' s', q.enqueue s msg = some (true, q', s') ∧ q'.contents = q.contents ++ [msg] ∧
      q'.pendingCount = q.pendingCount + 1 ∧ q'.waitList = [] ∧ q.Keeps q' ∧
        s'.states = TaskManager.wokenStates s.states q.waitList := by
  obtain ⟨s', hs', -⟩ := TaskManager.wakeAll_spec (s := s) q.waitList
  refine ⟨{ q.setMessage q.pendingCount msg with pendingCount := q.pendingCount + 1, waitList := [] }, s', ?_,
    Layout.elements_put, rfl, rfl, ⟨rfl, fun a ha => ?_⟩, (TaskManager.states_wakeAll hs').1⟩
  · rw [enqueue, if_neg (mt isFull_iff.mp h.ne)]
    dsimp only [setMessage]
    rw [hs']
    rfl
  · apply Layout.put_of_outside
    rcases not_covers_iff.mp ha with hlt | hge
    · exact .inl (hlt.trans_le (Nat.le_add_right ..))
    · exact .inr ((messageAddress_le h).trans hge)

lemma dequeue_of_empty (h : q.pendingCount = 0) : q.dequeue = (none, q) := if_pos (isEmpty_iff.mpr h)

/-- The first message is taken, and the move leaves the others. -/
lemma dequeue_spec (h : q.pendingCount ≠ 0) (hle : q.pendingCount ≤ maxPendingMessages) :
    ∃ q', q.dequeue = (some (q.message 0), q') ∧ q.contents = q.message 0 :: q'.contents ∧
      q'.pendingCount = q.pendingCount - 1 ∧ q'.waitList = q.waitList ∧ q.Keeps q' := by
  refine ⟨_, if_neg (mt isEmpty_iff.mp h), ?_, rfl, rfl, rfl, fun a ha => ?_⟩
  · obtain ⟨n, hn⟩ := Nat.exists_eq_succ_of_ne_zero h
    have hmove : ∀ k < n * SysMessage.layout.size, memmove q.memory (q.messageAddress 0) (q.messageAddress 1)
        (SysMessage.layout.size * n) (q.queue + k) = q.memory (q.queue + SysMessage.layout.size + k) := by
      intro k hk
      rw [memmove_eq, messageAddress_zero, messageAddress_one]
      apply moved_add
      rwa [Nat.mul_comm]
    have hshift := Layout.elements_shift hmove
    simp only [contents, hn, Nat.succ_eq_add_one, Nat.add_sub_cancel]
    exact hshift
  · dsimp only
    rw [memmove_eq, messageAddress_zero]
    apply moved_of_outside
    rcases not_covers_iff.mp ha with hlt | hge
    · exact .inl hlt
    · refine .inr (le_trans ?_ hge)
      rw [Nat.mul_comm]
      exact messageAddress_le ((Nat.sub_le ..).trans hle)

lemma peek_of_empty (h : q.pendingCount = 0) : q.peek = none := if_pos (isEmpty_iff.mpr h)

lemma peek_spec (h : q.pendingCount ≠ 0) : q.peek = some (q.message 0) := if_neg (mt isEmpty_iff.mp h)

lemma block_of_nonempty (h : q.pendingCount ≠ 0) : q.blockTaskUntilNotEmpty s t = some (false, q, s) := by
  rw [blockTaskUntilNotEmpty, isEmpty_eq_false_iff.mpr h]
  rfl

/-- A task that is not terminated is added to those that wait. -/
lemma block_spec (h : q.blockTaskUntilNotEmpty s t = some (b, q', s')) (hempty : q.pendingCount = 0) :
    b = true ∧ q' = { q with
      waitList := if s.isTerminated t then q.waitList else q.waitList ++ [t] } := by
  rw [blockTaskUntilNotEmpty, isEmpty_iff.mpr hempty, Bool.not_true, if_neg Bool.false_ne_true] at h
  obtain ⟨⟨l, s₁⟩, hadd, heq⟩ := Option.map_eq_some_iff.mp h
  cases heq
  rw [WaitList.add] at hadd
  split_ifs at hadd with hterm
  · cases hadd
    rw [if_pos hterm]
    exact ⟨rfl, rfl⟩
  · obtain ⟨s₂, -, heq⟩ := Option.map_eq_some_iff.mp hadd
    cases heq
    rw [if_neg hterm]
    exact ⟨rfl, rfl⟩

/-! ### Runs -/

/-- The runs of the calls on a queue, with the messages that were accepted, those that were delivered and
the tasks that wait since the last message was accepted. The tasks may be in any state at each call, and the
memory outside the array may change between the calls. -/
inductive Reaches : MessageQueue → List SysMessage → List SysMessage → List TaskPtr → Prop
  | start (queue : ℕ) (memory : ℕ → UInt8) : Reaches (create queue memory) [] [] []
  | enqueue {q q' : MessageQueue} {s s' : TaskManager} {accepted delivered : List SysMessage}
    {waiting : List TaskPtr} {msg : SysMessage} (h : Reaches q accepted delivered waiting)
    (hop : q.enqueue s msg = some (true, q', s')) : Reaches q' (accepted ++ [msg]) delivered []
  | refused {q q' : MessageQueue} {s s' : TaskManager} {accepted delivered : List SysMessage}
    {waiting : List TaskPtr} {msg : SysMessage} (h : Reaches q accepted delivered waiting)
    (hop : q.enqueue s msg = some (false, q', s')) : Reaches q' accepted delivered waiting
  | dequeue {q q' : MessageQueue} {accepted delivered : List SysMessage} {waiting : List TaskPtr}
    {msg : SysMessage} (h : Reaches q accepted delivered waiting) (hop : q.dequeue = (some msg, q')) :
    Reaches q' accepted (delivered ++ [msg]) waiting
  | nothing {q q' : MessageQueue} {accepted delivered : List SysMessage} {waiting : List TaskPtr}
    (h : Reaches q accepted delivered waiting) (hop : q.dequeue = (none, q')) :
    Reaches q' accepted delivered waiting
  | block {q q' : MessageQueue} {s s' : TaskManager} {accepted delivered : List SysMessage}
    {waiting : List TaskPtr} {t : TaskPtr} {b : Bool} (h : Reaches q accepted delivered waiting)
    (hop : q.blockTaskUntilNotEmpty s t = some (b, q', s')) :
    Reaches q' accepted delivered (if b && !s.isTerminated t then waiting ++ [t] else waiting)
  | elsewhere {q : MessageQueue} {accepted delivered : List SysMessage} {waiting : List TaskPtr}
    {memory : ℕ → UInt8} (h : Reaches q accepted delivered waiting)
    (hmem : ∀ a, q.Covers a → memory a = q.memory a) :
    Reaches { q with memory := memory } accepted delivered waiting

variable {accepted delivered : List SysMessage} {waiting : List TaskPtr}

/-- The invariant of the runs. -/
structure Accounted (q : MessageQueue) (accepted delivered : List SysMessage) (waiting : List TaskPtr) :
    Prop where
  fifo : accepted = delivered ++ q.contents
  bounded : q.pendingCount ≤ maxPendingMessages
  waits : q.waitList = waiting
  awake : 0 < q.pendingCount → q.waitList = []

lemma contents_elsewhere {memory : ℕ → UInt8} (h : q.pendingCount ≤ maxPendingMessages)
    (hmem : ∀ a, q.Covers a → memory a = q.memory a) :
    ({ q with memory := memory } : MessageQueue).contents = q.contents := by
  refine Layout.elements_congr fun k hk => hmem _ ⟨Nat.le_add_right .., ?_⟩
  exact Nat.add_lt_add_left (hk.trans_le (Nat.mul_le_mul_right _ h)) q.queue

/-- Every call keeps the invariant. -/
lemma Reaches.accounted (h : Reaches q accepted delivered waiting) :
    q.Accounted accepted delivered waiting := by
  induction h with
  | start queue memory => exact ⟨rfl, Nat.zero_le _, rfl, fun _ => rfl⟩
  | @enqueue q q' s s' accepted delivered waiting msg h hop ih =>
    by_cases hfull : q.pendingCount = maxPendingMessages
    · rw [enqueue_of_full hfull] at hop
      cases hop
    · have hlt := Nat.lt_of_le_of_ne ih.bounded hfull
      obtain ⟨q₁, s₁, heq, hcontents, hcount, hwait, -⟩ := enqueue_spec hlt s msg
      rw [heq] at hop
      cases hop
      refine ⟨?_, ?_, hwait, fun _ => hwait⟩
      · rw [hcontents, ← List.append_assoc, ← ih.fifo]
      · rwa [hcount]
  | @refused q q' s s' accepted delivered waiting msg h hop ih =>
    by_cases hfull : q.pendingCount = maxPendingMessages
    · rw [enqueue_of_full hfull] at hop
      cases hop
      exact ih
    · obtain ⟨q₁, s₁, heq, -⟩ := enqueue_spec (Nat.lt_of_le_of_ne ih.bounded hfull) s msg
      rw [heq] at hop
      cases hop
  | @dequeue q q' accepted delivered waiting msg h hop ih =>
    by_cases hempty : q.pendingCount = 0
    · rw [dequeue_of_empty hempty] at hop
      cases hop
    · obtain ⟨q₁, heq, hcontents, hcount, hwait, -⟩ := dequeue_spec hempty ih.bounded
      rw [heq] at hop
      cases hop
      refine ⟨?_, ?_, hwait.trans ih.waits, fun hpos => ?_⟩
      · rw [ih.fifo, hcontents, List.append_assoc, List.singleton_append]
      · rw [hcount]
        exact (Nat.sub_le ..).trans ih.bounded
      · rw [hwait]
        exact ih.awake (Nat.pos_of_ne_zero hempty)
  | @nothing q q' accepted delivered waiting h hop ih =>
    by_cases hempty : q.pendingCount = 0
    · rw [dequeue_of_empty hempty] at hop
      cases hop
      exact ih
    · obtain ⟨q₁, heq, -⟩ := dequeue_spec hempty ih.bounded
      rw [heq] at hop
      cases hop
  | @block q q' s s' accepted delivered waiting t b h hop ih =>
    by_cases hempty : q.pendingCount = 0
    · obtain ⟨rfl, rfl⟩ := block_spec hop hempty
      refine ⟨ih.fifo, ih.bounded, ?_, fun hpos => absurd hempty (Nat.ne_of_gt hpos)⟩
      rw [ih.waits]
      cases s.isTerminated t <;> rfl
    · rw [block_of_nonempty hempty] at hop
      cases hop
      exact ih
  | elsewhere h hmem ih =>
    refine ⟨?_, ih.bounded, ih.waits, ih.awake⟩
    rw [contents_elsewhere ih.bounded hmem]
    exact ih.fifo

/-- What a queue is for: it keeps the messages in their order, it refuses one more message than it has
space for, and it wakes the tasks that wait for one. -/
structure BoundedFifo (q : MessageQueue) (accepted delivered : List SysMessage) (waiting : List TaskPtr) :
    Prop extends q.Accounted accepted delivered waiting where
  length : q.contents.length = q.pendingCount
  full : q.pendingCount = maxPendingMessages → ∀ s msg, q.enqueue s msg = some (false, q, s)
  accepts : q.pendingCount ≠ maxPendingMessages → ∀ s msg, ∃ q' s',
    q.enqueue s msg = some (true, q', s') ∧ q'.contents = q.contents ++ [msg] ∧ q'.waitList = [] ∧
      q.Keeps q' ∧ ∀ t ∈ waiting, s.states t ≠ .terminated → s'.states t = .running
  empty : q.contents = [] → q.dequeue = (none, q) ∧ q.peek = none
  delivers : ∀ msg rest, q.contents = msg :: rest → q.peek = some msg ∧
    ∃ q', q.dequeue = (some msg, q') ∧ q'.contents = rest ∧ q'.waitList = q.waitList ∧ q.Keeps q'
  blocks : ∀ s t b q' s', q.blockTaskUntilNotEmpty s t = some (b, q', s') →
    q'.contents = q.contents ∧ b = decide (q.contents = []) ∧
      q'.waitList = if b && !s.isTerminated t then waiting ++ [t] else waiting

lemma pendingCount_eq_zero_iff : q.pendingCount = 0 ↔ q.contents = [] := by
  rw [← length_contents, List.length_eq_zero_iff]

lemma pendingCount_ne_zero {rest : List SysMessage} (h : q.contents = msg :: rest) : q.pendingCount ≠ 0 := by
  rw [Ne, pendingCount_eq_zero_iff, h]
  exact List.cons_ne_nil msg rest

/-- In every run the queue is a bounded FIFO that loses no message and no wake-up. -/
theorem boundedFifo_of_reaches (h : q.Reaches accepted delivered waiting) :
    q.BoundedFifo accepted delivered waiting where
  toAccounted := h.accounted
  length := length_contents
  full := fun hfull _ _ => enqueue_of_full hfull
  accepts := by
    intro hfull s msg
    have hlt := Nat.lt_of_le_of_ne h.accounted.bounded hfull
    obtain ⟨q', s', heq, hcontents, -, hwait, hkeeps, hstates⟩ := enqueue_spec hlt s msg
    refine ⟨q', s', heq, hcontents, hwait, hkeeps, fun t ht hterm => ?_⟩
    rw [← h.accounted.waits] at ht
    rw [hstates, TaskManager.wokenStates, if_pos ⟨ht, hterm⟩]
  empty := by
    intro hempty
    have hzero := pendingCount_eq_zero_iff.mpr hempty
    exact ⟨dequeue_of_empty hzero, peek_of_empty hzero⟩
  delivers := by
    intro msg rest hcontents
    have hcount := pendingCount_ne_zero hcontents
    obtain ⟨q', heq, hcontents', -, hwait, hkeeps⟩ := dequeue_spec hcount h.accounted.bounded
    rw [hcontents] at hcontents'
    obtain ⟨rfl, rfl⟩ := List.cons.inj hcontents'
    exact ⟨peek_spec hcount, q', heq, rfl, hwait, hkeeps⟩
  blocks := by
    intro s t b q' s' hop
    rw [← h.accounted.waits]
    by_cases hempty : q.pendingCount = 0
    · obtain ⟨rfl, rfl⟩ := block_spec hop hempty
      refine ⟨rfl, (decide_eq_true (pendingCount_eq_zero_iff.mp hempty)).symm, ?_⟩
      cases s.isTerminated t <;> rfl
    · rw [block_of_nonempty hempty] at hop
      cases hop
      exact ⟨rfl, (decide_eq_false (mt pendingCount_eq_zero_iff.mpr hempty)).symm, rfl⟩

/-- A task waits, and a message is posted. -/
theorem boundedFifo_posted : ∃ q accepted, Reaches q accepted [] [] ∧ q.pendingCount = 1 ∧
    q.BoundedFifo accepted [] [] := by
  have hrun : ((TaskManager.created.wakeTask 2).bind fun s =>
      ((create 4096 fun _ => 0).blockTaskUntilNotEmpty s 2).bind fun r =>
        r.2.1.enqueue r.2.2 ⟨3, 0, 640, 480⟩).any fun r => r.1 && r.2.1.pendingCount = 1 := by
    decide +kernel
  obtain ⟨⟨b, q, s⟩, h, hcount⟩ := (Option.any_eq_true _ _).mp hrun
  obtain ⟨s₁, -, h⟩ := Option.bind_eq_some_iff.mp h
  obtain ⟨⟨b₂, q₂, s₂⟩, h₂, h₃⟩ := Option.bind_eq_some_iff.mp h
  obtain ⟨hb, hcount⟩ := Bool.and_eq_true_iff.mp hcount
  dsimp only at hb
  subst hb
  have hreaches : Reaches q ([] ++ [⟨3, 0, 640, 480⟩]) [] [] := ((Reaches.start _ _).block h₂).enqueue h₃
  exact ⟨q, _, hreaches, of_decide_eq_true hcount, boundedFifo_of_reaches hreaches⟩

end MessageQueue

end PiKachulm.Wm

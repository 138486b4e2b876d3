import PiKachulm.Core.Ring
import PiKachulm.Libk.Word
import PiKachulm.Tasks.Effects

/-!
# Pipes

A pipe is a circular buffer of bytes, with the tasks that wait to read from it or to write to it. What
has been written and not yet read are the contents of the buffer, in order.
-/

namespace PiKachulm.Tasks

open Core Libk

/-- `WaitList::add`. -/
def WaitList.add (waitList : List TaskPtr) (s : TaskManager) (t : TaskPtr) :
    Option (List TaskPtr × TaskManager) :=
  if s.isTerminated t then some (waitList, s) else (s.pauseTask t).map fun s => (waitList ++ [t], s)

/-- The name is the address that the parent gave; the buffer has `capacity` bytes. -/
structure PipeResource where
  parent : Option TaskPtr
  name : ℕ
  writeWaitList : List TaskPtr
  readWaitList : List TaskPtr
  buffer : ℕ → UInt8
  capacity : ℕ
  size : ℕ
  readIndex : ℕ
  writeIndex : ℕ

namespace PipeResource

/-- A pipe that `create_pipe` makes. -/
def create (parent : TaskPtr) (name capacity : ℕ) (buffer : ℕ → UInt8) : PipeResource :=
  ⟨some parent, name, [], [], buffer, capacity, 0, 0, 0⟩

variable (p : PipeResource) (s : TaskManager)

def isClosed : Bool := p.parent.isNone

def canRead : Bool := p.size > 0

def canWrite : Bool := p.size < p.capacity

def waitRead (t : TaskPtr) : Option (Bool × PipeResource × TaskManager) :=
  if p.canRead then some (true, p, s)
  else if p.isClosed then some (false, p, s)
  else (WaitList.add p.readWaitList s t).map fun (l, s) => (false, { p with readWaitList := l }, s)

def waitWrite (t : TaskPtr) : Option (Bool × PipeResource × TaskManager) :=
  if p.canWrite then some (true, p, s)
  else if p.isClosed then some (false, p, s)
  else (WaitList.add p.writeWaitList s t).map fun (l, s) => (false, { p with writeWaitList := l }, s)

/-- `memcpy` out of the buffer; `none` when it leaves the buffer. -/
def copyOut (start n : ℕ) : Option (List UInt8) :=
  if start + n ≤ p.capacity then some (slice p.buffer start n) else none

/-- `memcpy` into the buffer; `none` when it leaves the buffer. -/
def copyIn (start : ℕ) (data : List UInt8) : Option PipeResource :=
  if start + data.length ≤ p.capacity then some { p with buffer := blit p.buffer start data } else none

/-- An index of the buffer, advanced by a number of bytes. -/
def advance (index count : ℕ) : ℕ :=
  let index := wadd index count
  if index ≥ p.capacity then wsub index p.capacity else index

/-- The bytes that `read` copies, in one part or in two. -/
def readBytes (count : ℕ) : Option (List UInt8) :=
  if wadd p.readIndex count ≤ p.capacity then p.copyOut p.readIndex count
  else do
    let firstPart := wsub p.capacity p.readIndex
    let first ← p.copyOut p.readIndex firstPart
    let second ← p.copyOut 0 (wsub count firstPart)
    pure (first ++ second)

/-- `read`, with the bytes that it delivers. -/
def read (count : ℕ) : Option (List UInt8 × PipeResource × TaskManager) :=
  if p.isClosed then some ([], p, s)
  else
    let count := min count p.size
    if count = 0 then some ([], p, s)
    else do
      let data ← p.readBytes count
      let s ← s.wakeAll p.writeWaitList
      pure (data, { p with
        readIndex := p.advance p.readIndex count
        size := wsub p.size count
        writeWaitList := [] }, s)

/-- The copies that `write` makes, in one part or in two. -/
def writeBytes (data : List UInt8) : Option PipeResource :=
  if wadd p.writeIndex data.length ≤ p.capacity then p.copyIn p.writeIndex data
  else do
    let firstPart := wsub p.capacity p.writeIndex
    let p ← p.copyIn p.writeIndex (data.take firstPart)
    p.copyIn 0 (data.drop firstPart)

/-- `write` of the bytes of a list; the result is the number of bytes that are accepted. -/
def write (data : List UInt8) : Option (ℕ × PipeResource × TaskManager) :=
  if p.isClosed then some (0, p, s)
  else
    let count := min data.length (wsub p.capacity p.size)
    if count = 0 then some (0, p, s)
    else do
      let p ← p.writeBytes (data.take count)
      let s ← s.wakeAll p.readWaitList
      pure (count, { p with
        writeIndex := p.advance p.writeIndex count
        size := wadd p.size count
        readWaitList := [] }, s)

def close : Option (PipeResource × TaskManager) := do
  let p := { p with parent := none, capacity := 0, size := 0, readIndex := 0, writeIndex := 0 }
  let s ← s.wakeAll p.readWaitList
  let s ← s.wakeAll p.writeWaitList
  pure ({ p with readWaitList := [], writeWaitList := [] }, s)

/-- The bytes that have been written and not been read. -/
def contents : List UInt8 := ring p.buffer p.capacity p.readIndex p.size

/-- The invariant of the buffer. -/
structure WellFormed : Prop where
  isOpen : p.isClosed = false
  capacity : p.capacity < 2 ^ 63
  size : p.size ≤ p.capacity
  readIndex : p.readIndex < p.capacity
  writeIndex : p.writeIndex = (p.readIndex + p.size) % p.capacity

variable {p s} {p' : PipeResource} {s' : TaskManager} {count n index : ℕ} {data : List UInt8}

@[simp] lemma length_contents : p.contents.length = p.size := length_ring

namespace WellFormed

lemma pos (h : p.WellFormed) : 0 < p.capacity := (Nat.zero_le _).trans_lt h.readIndex

lemma writeIndex_lt (h : p.WellFormed) : p.writeIndex < p.capacity := by
  rw [h.writeIndex]
  exact Nat.mod_lt _ h.pos

/-- No sum of an index and a count overflows. -/
lemma wadd_eq (h : p.WellFormed) (hindex : index < p.capacity) (hn : n ≤ p.capacity) :
    wadd index n = index + n := by
  apply wadd_of_lt
  have hcap := h.capacity
  omega

lemma advance_eq (h : p.WellFormed) (hindex : index < p.capacity) (hn : n ≤ p.capacity) :
    p.advance index n = (index + n) % p.capacity := by
  have hcap := h.capacity
  rw [advance, h.wadd_eq hindex hn]
  split_ifs with hge
  · rw [wsub_of_le hge (by omega), Nat.mod_eq_sub_mod hge]
    by_cases heq : index + n - p.capacity < p.capacity
    · rw [Nat.mod_eq_of_lt heq]
    · omega
  · rw [Nat.mod_eq_of_lt (Nat.lt_of_not_le hge)]

/-! ### Reading -/

/-- Both scenarios of `read` copy the first bytes of the contents. -/
lemma readBytes_eq (h : p.WellFormed) (hn : n ≤ p.size) : p.readBytes n = some (p.contents.take n) := by
  have hcap := h.capacity
  have hsize := h.size
  have hread := h.readIndex
  rw [readBytes, h.wadd_eq hread (hn.trans hsize), contents, take_ring hn]
  split_ifs with hfit
  · rw [copyOut, if_pos hfit, ring_eq_slice hfit]
  · have hfirst : wsub p.capacity p.readIndex = p.capacity - p.readIndex :=
      wsub_of_le hread.le (by omega)
    have hrest : wsub n (p.capacity - p.readIndex) = n - (p.capacity - p.readIndex) :=
      wsub_of_le (by omega) (by omega)
    dsimp only
    rw [hfirst, hrest, copyOut, if_pos (by omega), copyOut, if_pos (by omega),
      ring_eq_append hread.le (by omega) (by omega)]
    rfl

/-- The indices after `n` bytes have been read, with other tasks waiting. -/
lemma afterRead (h : p.WellFormed) (hn : n ≤ p.size) (l : List TaskPtr) : ∃ p' : PipeResource,
    p' = { p with
      readIndex := (p.readIndex + n) % p.capacity, size := p.size - n, writeWaitList := l } ∧
      p'.WellFormed ∧ p'.contents = p.contents.drop n := by
  refine ⟨_, rfl, ⟨h.isOpen, h.capacity, (Nat.sub_le ..).trans h.size, Nat.mod_lt _ h.pos, ?_⟩, ?_⟩
  · show p.writeIndex = ((p.readIndex + n) % p.capacity + (p.size - n)) % p.capacity
    rw [h.writeIndex, Nat.mod_add_mod, Nat.add_assoc, Nat.add_sub_cancel' hn]
  · show ring p.buffer p.capacity ((p.readIndex + n) % p.capacity) (p.size - n) = _
    rw [ring_mod, contents, drop_ring hn]

/-- `read` delivers the first bytes of the contents. -/
lemma read_spec (h : p.WellFormed) (s : TaskManager) (count : ℕ) : ∃ p' s',
    p.read s count = some (p.contents.take (min count p.size), p', s') ∧ p'.WellFormed ∧
      p'.contents = p.contents.drop (min count p.size) ∧ p'.capacity = p.capacity := by
  have hcap := h.capacity
  have hsize := h.size
  rw [read, h.isOpen, if_neg Bool.false_ne_true]
  dsimp only
  split_ifs with hzero
  · rw [hzero]
    exact ⟨p, s, rfl, h, rfl, rfl⟩
  · have hle : min count p.size ≤ p.size := min_le_right ..
    obtain ⟨s', hs', -⟩ := TaskManager.wakeAll_spec (s := s) p.writeWaitList
    obtain ⟨p', hp', hwf, hcontents⟩ := h.afterRead hle []
    refine ⟨p', s', ?_, hwf, hcontents, by rw [hp']⟩
    rw [h.readBytes_eq hle, hs', h.advance_eq h.readIndex (hle.trans hsize), wsub_of_le hle (by omega), hp']
    rfl

/-! ### Writing -/

/-- Both scenarios of `write` write the bytes behind the contents. -/
lemma writeBytes_eq (h : p.WellFormed) (hdata : p.size + data.length ≤ p.capacity) :
    p.writeBytes data = some { p with buffer := writeRing p.buffer p.capacity p.writeIndex data } := by
  have hcap := h.capacity
  have hwrite := h.writeIndex_lt
  have hlen : data.length ≤ p.capacity := (Nat.le_add_left ..).trans hdata
  rw [writeBytes, h.wadd_eq hwrite hlen, writeRing]
  split_ifs with hfit
  · rw [copyIn, if_pos hfit]
  · have hfirst : wsub p.capacity p.writeIndex = p.capacity - p.writeIndex :=
      wsub_of_le hwrite.le (by omega)
    have htake : p.writeIndex + (data.take (p.capacity - p.writeIndex)).length ≤ p.capacity := by
      rw [List.length_take]
      omega
    have hdrop : 0 + (data.drop (p.capacity - p.writeIndex)).length ≤ p.capacity := by
      rw [List.length_drop]
      omega
    dsimp only
    rw [hfirst, copyIn, if_pos htake, Option.bind_eq_bind, Option.bind_some, copyIn, if_pos hdrop]

/-- The pipe after bytes have been written, with other tasks waiting. -/
lemma afterWrite (h : p.WellFormed) (hdata : p.size + data.length ≤ p.capacity) (l : List TaskPtr) :
    ∃ p' : PipeResource, p' = { p with
      buffer := writeRing p.buffer p.capacity p.writeIndex data
      writeIndex := (p.writeIndex + data.length) % p.capacity
      size := p.size + data.length
      readWaitList := l } ∧ p'.WellFormed ∧ p'.contents = p.contents ++ data := by
  refine ⟨_, rfl, ⟨h.isOpen, h.capacity, hdata, h.readIndex, ?_⟩, ?_⟩
  · show (p.writeIndex + data.length) % p.capacity = (p.readIndex + (p.size + data.length)) % p.capacity
    rw [h.writeIndex, Nat.mod_add_mod, Nat.add_assoc]
  · exact ring_writeRing h.writeIndex h.pos hdata

/-- `write` adds the bytes for which there is space to the contents. -/
lemma write_spec (h : p.WellFormed) (s : TaskManager) (data : List UInt8) : ∃ p' s',
    p.write s data = some (min data.length (p.capacity - p.size), p', s') ∧ p'.WellFormed ∧
      p'.contents = p.contents ++ data.take (min data.length (p.capacity - p.size)) ∧
        p'.capacity = p.capacity := by
  have hcap := h.capacity
  have hsize := h.size
  rw [write, h.isOpen, if_neg Bool.false_ne_true, wsub_of_le hsize (by omega)]
  dsimp only
  split_ifs with hzero
  · rw [hzero]
    exact ⟨p, s, rfl, h, (List.append_nil _).symm, rfl⟩
  · generalize hcount : min data.length (p.capacity - p.size) = count
    have hlength : (data.take count).length = count := by
      rw [List.length_take, ← hcount, min_eq_left_iff]
      exact min_le_left ..
    have hfit : p.size + (data.take count).length ≤ p.capacity := by
      rw [hlength, ← hcount]
      omega
    obtain ⟨s', hs', -⟩ := TaskManager.wakeAll_spec (s := s) p.readWaitList
    obtain ⟨p', hp', hwf, hcontents⟩ := h.afterWrite hfit []
    refine ⟨p', s', ?_, hwf, hcontents, by rw [hp']⟩
    rw [h.writeBytes_eq hfit, Option.bind_eq_bind, Option.bind_some]
    dsimp only
    rw [hs', Option.bind_eq_bind, Option.bind_some, hp', hlength]
    have hadvance := h.advance_eq h.writeIndex_lt (n := count) (by omega)
    have hadd : wadd p.size count = p.size + count := wadd_of_lt (by omega)
    have hsame : ({ p with buffer := writeRing p.buffer p.capacity p.writeIndex (data.take count) } :
        PipeResource).advance p.writeIndex count = (p.writeIndex + count) % p.capacity := hadvance
    rw [hadd, hsame]
    rfl

end WellFormed

/-! ### Runs -/

/-- The runs of `read` and `write`, and of the functions that wait, on a pipe of a capacity, with the bytes
that were accepted and those that were delivered. The tasks may be in any state at each call. -/
inductive Reaches (capacity : ℕ) : PipeResource → List UInt8 → List UInt8 → Prop
  | start (parent : TaskPtr) (name : ℕ) (buffer : ℕ → UInt8) :
    Reaches capacity (create parent name capacity buffer) [] []
  | read {p p' : PipeResource} {s s' : TaskManager} {accepted delivered data : List UInt8} {count : ℕ}
    (h : Reaches capacity p accepted delivered) (hread : p.read s count = some (data, p', s')) :
    Reaches capacity p' accepted (delivered ++ data)
  | write {p p' : PipeResource} {s s' : TaskManager} {accepted delivered data : List UInt8} {count : ℕ}
    (h : Reaches capacity p accepted delivered) (hwrite : p.write s data = some (count, p', s')) :
    Reaches capacity p' (accepted ++ data.take count) delivered
  | waitRead {p p' : PipeResource} {s s' : TaskManager} {accepted delivered : List UInt8} {t : TaskPtr}
    {b : Bool} (h : Reaches capacity p accepted delivered) (hwait : p.waitRead s t = some (b, p', s')) :
    Reaches capacity p' accepted delivered
  | waitWrite {p p' : PipeResource} {s s' : TaskManager} {accepted delivered : List UInt8} {t : TaskPtr}
    {b : Bool} (h : Reaches capacity p accepted delivered) (hwait : p.waitWrite s t = some (b, p', s')) :
    Reaches capacity p' accepted delivered

variable {capacity : ℕ} {accepted delivered : List UInt8} {t : TaskPtr} {b : Bool}

/-- A task that waits to read finds the pipe open and empty, and is added to the list. -/
lemma waitRead_eq_some (h : p.waitRead s t = some (b, p', s')) : p' = p ∨
    ∃ u, p.size = 0 ∧ p.isClosed = false ∧ p' = { p with readWaitList := p.readWaitList ++ [u] } := by
  rw [waitRead] at h
  split_ifs at h with hread hclosed
  · cases h
    exact .inl rfl
  · cases h
    exact .inl rfl
  · obtain ⟨⟨l, s₁⟩, hadd, heq⟩ := Option.map_eq_some_iff.mp h
    cases heq
    rw [WaitList.add] at hadd
    split_ifs at hadd
    · cases hadd
      exact .inl rfl
    · obtain ⟨s₂, -, heq⟩ := Option.map_eq_some_iff.mp hadd
      cases heq
      refine .inr ⟨t, ?_, Bool.eq_false_of_not_eq_true hclosed, rfl⟩
      simpa [canRead] using hread

lemma waitWrite_eq_some (h : p.waitWrite s t = some (b, p', s')) : p' = p ∨
    ∃ u, ¬p.size < p.capacity ∧ p.isClosed = false ∧
      p' = { p with writeWaitList := p.writeWaitList ++ [u] } := by
  rw [waitWrite] at h
  split_ifs at h with hwrite hclosed
  · cases h
    exact .inl rfl
  · cases h
    exact .inl rfl
  · obtain ⟨⟨l, s₁⟩, hadd, heq⟩ := Option.map_eq_some_iff.mp h
    cases heq
    rw [WaitList.add] at hadd
    split_ifs at hadd
    · cases hadd
      exact .inl rfl
    · obtain ⟨s₂, -, heq⟩ := Option.map_eq_some_iff.mp hadd
      cases heq
      refine .inr ⟨t, ?_, Bool.eq_false_of_not_eq_true hclosed, rfl⟩
      simpa [canWrite] using hwrite

lemma wellFormed_create {parent : TaskPtr} {name : ℕ} {buffer : ℕ → UInt8} (hpos : 0 < capacity)
    (hlt : capacity < 2 ^ 63) : (create parent name capacity buffer).WellFormed :=
  ⟨rfl, hlt, Nat.zero_le _, hpos, (Nat.zero_mod _).symm⟩

/-- The bytes that were accepted are those that were delivered, and then the contents. -/
lemma Reaches.accepted_eq (hpos : 0 < capacity) (hlt : capacity < 2 ^ 63)
    (h : Reaches capacity p accepted delivered) :
    p.WellFormed ∧ p.capacity = capacity ∧ accepted = delivered ++ p.contents := by
  induction h with
  | start parent name buffer => exact ⟨wellFormed_create hpos hlt, rfl, rfl⟩
  | @read p p' s s' accepted delivered data count _ hread ih =>
    obtain ⟨hwf, hcap, hacc⟩ := ih
    obtain ⟨p₁, s₁, h₁, hwf₁, hcontents, hcap₁⟩ := hwf.read_spec s count
    rw [hread] at h₁
    cases h₁
    refine ⟨hwf₁, hcap₁.trans hcap, ?_⟩
    rw [hacc, hcontents, List.append_assoc, List.take_append_drop]
  | @write p p' s s' accepted delivered data count _ hwrite ih =>
    obtain ⟨hwf, hcap, hacc⟩ := ih
    obtain ⟨p₁, s₁, h₁, hwf₁, hcontents, hcap₁⟩ := hwf.write_spec s data
    rw [hwrite] at h₁
    cases h₁
    refine ⟨hwf₁, hcap₁.trans hcap, ?_⟩
    rw [hacc, hcontents, List.append_assoc]
  | waitRead _ hwait ih =>
    obtain ⟨hwf, hcap, hacc⟩ := ih
    rcases waitRead_eq_some hwait with rfl | ⟨u, -, -, rfl⟩
    · exact ⟨hwf, hcap, hacc⟩
    · exact ⟨⟨hwf.isOpen, hwf.capacity, hwf.size, hwf.readIndex, hwf.writeIndex⟩, hcap, hacc⟩
  | waitWrite _ hwait ih =>
    obtain ⟨hwf, hcap, hacc⟩ := ih
    rcases waitWrite_eq_some hwait with rfl | ⟨u, -, -, rfl⟩
    · exact ⟨hwf, hcap, hacc⟩
    · exact ⟨⟨hwf.isOpen, hwf.capacity, hwf.size, hwf.readIndex, hwf.writeIndex⟩, hcap, hacc⟩

/-- A pipe is a bounded queue of bytes: what was delivered is the beginning of what was accepted, and the
rest is in the buffer. No call leaves the buffer. -/
theorem fifo_of_reaches (hpos : 0 < capacity) (hlt : capacity < 2 ^ 63)
    (h : Reaches capacity p accepted delivered) :
    (delivered <+: accepted ∧ accepted.length = delivered.length + p.size) ∧
      (p.size ≤ capacity ∧ p.readIndex < capacity ∧ p.writeIndex < capacity) ∧
        (∀ s count, ∃ data p' s', p.read s count = some (data, p', s') ∧ data.length = min count p.size) ∧
          ∀ s data, ∃ p' s', p.write s data = some (min data.length (capacity - p.size), p', s') := by
  obtain ⟨hwf, rfl, hacc⟩ := h.accepted_eq hpos hlt
  refine ⟨⟨?_, ?_⟩, ⟨hwf.size, hwf.readIndex, hwf.writeIndex_lt⟩, fun s count => ?_, fun s data => ?_⟩
  · rw [hacc]
    exact List.prefix_append ..
  · rw [hacc, List.length_append, length_contents]
  · obtain ⟨p', s', hread, -⟩ := hwf.read_spec s count
    refine ⟨_, p', s', hread, ?_⟩
    rw [List.length_take, length_contents, min_assoc, min_self]
  · obtain ⟨p', s', hwrite, -⟩ := hwf.write_spec s data
    exact ⟨p', s', hwrite⟩

/-- Three bytes are written to a pipe of two. -/
theorem fifo_of_reaches_two : ∃ p, Reaches 2 p [1, 2] [] ∧
    (([] : List UInt8) <+: [1, 2] ∧ ([1, 2] : List UInt8).length = ([] : List UInt8).length + p.size) ∧
      (p.size ≤ 2 ∧ p.readIndex < 2 ∧ p.writeIndex < 2) ∧
        (∀ s count, ∃ data p' s', p.read s count = some (data, p', s') ∧ data.length = min count p.size) ∧
          ∀ s data, ∃ p' s', p.write s data = some (min data.length (2 - p.size), p', s') := by
  have hstart : Reaches 2 (create 1 0 2 fun _ => 0) [] [] := .start 1 0 fun _ => 0
  obtain ⟨p, s, hwrite, -⟩ := (hstart.accepted_eq (by decide) (by decide)).1.write_spec
    TaskManager.created [1, 2, 3]
  have h := hstart.write hwrite
  exact ⟨p, h, fifo_of_reaches (by decide) (by decide) h⟩

end PipeResource

end PiKachulm.Tasks

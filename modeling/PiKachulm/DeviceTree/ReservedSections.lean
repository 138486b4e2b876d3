import PiKachulm.Boot.MemoryReg
import PiKachulm.DeviceTree.Parser
import PiKachulm.Memory.KernelInternalMemory

/-!
# Reserved memory

The memory reservation block is a list of addresses and sizes, big-endian words of 8 bytes, that ends
with two zeros. `MemorySectionIterator` looks for the end of the block when it leaves an entry.
`memory_impl::init` protects the sections that it goes through.
-/

namespace PiKachulm.DeviceTree

open Core Libk Memory
open Boot (alignToPrevious)

structure MemorySection where
  address : ℕ
  size : ℕ
  deriving DecidableEq

namespace DeviceTreeParser

variable (mem : ℕ → Option UInt8) (p : DeviceTreeParser)

def getUint64 (offset : ℕ) : Option ℕ :=
  (readBytes mem 8 (p.dts + offset)).map fun bytes => leWord bytes.reverse

/-- `operator*` of `MemorySectionIterator`. -/
def memorySection (offset : ℕ) : Option MemorySection := do
  let address ← p.getUint64 mem offset
  let size ← p.getUint64 mem (offset + 8)
  return ⟨address, size⟩

/-- `operator++` of `MemorySectionIterator`: the next offset, or `max_value` as `none`. -/
def nextSection (offset : ℕ) : Option (Option ℕ) := do
  let tmpAddress ← p.getUint64 mem (offset + 2 * 8)
  let tmpSize ← p.getUint64 mem (offset + 3 * 8)
  return if tmpAddress = 0 ∧ tmpSize = 0 then none else some (offset + 2 * 8)

end DeviceTreeParser

/-- `ReservedSections`. Its parser knows the offset of the block. -/
structure ReservedSections where
  parser : DeviceTreeParser
  reservedMemoryOffset : ℕ

namespace ReservedSections

variable (mem : ℕ → Option UInt8) (s : ReservedSections)

/-- A loop over the sections from an iterator to `end`. -/
def forFrom {σ : Type} (body : σ → MemorySection → Option σ) : ℕ → Option ℕ → σ → Option σ
  | 0, _, _                  => none
  | _ + 1, none, st          => some st
  | fuel + 1, some offset, st => do
    let sec ← s.parser.memorySection mem offset
    let st ← body st sec
    let offset ← s.parser.nextSection mem offset
    forFrom body fuel offset st

/-- A loop over the sections, from `begin` to `end`. -/
def forEach {σ : Type} (body : σ → MemorySection → Option σ) (fuel : ℕ) (st : σ) : Option σ :=
  s.forFrom mem body fuel (some s.reservedMemoryOffset) st

/-- The sections that a loop goes through. -/
def sections (fuel : ℕ) : Option (List MemorySection) :=
  s.forEach mem (fun l sec => some (l ++ [sec])) fuel []

/-- What `memory_impl::init` does for a section. -/
def markSection (st : KernelInternalMemory) (sec : MemorySection) : Option KernelInternalMemory := do
  let stop ← alignToNext (wadd sec.address sec.size) pageSize
  st.markAsUsedRange (alignToPrevious sec.address pageSize) stop

/-- The loop of `memory_impl::init` over the reserved sections. -/
def protectReserved (fuel : ℕ) (st : KernelInternalMemory) : Option KernelInternalMemory :=
  s.forEach mem markSection fuel st

/-! ### The block -/

/-- An entry of the block. -/
def encode (sec : MemorySection) : List UInt8 :=
  (leBytes 8 sec.address).reverse ++ (leBytes 8 sec.size).reverse

def encodeAll (l : List MemorySection) : List UInt8 := l.flatMap encode ++ encode ⟨0, 0⟩

/-- The memory holds the block of these sections, none of which is the terminator. -/
structure Block (l : List MemorySection) : Prop where
  reads : Reads mem (s.parser.dts + s.reservedMemoryOffset) (encodeAll l)
  words : ∀ sec ∈ l, sec.address < 2 ^ 64 ∧ sec.size < 2 ^ 64
  nonzero : ∀ sec ∈ l, sec ≠ ⟨0, 0⟩

/-- The memory up to the end of the block. -/
def within (l : List MemorySection) : ℕ → Option UInt8 := fun a =>
  if a < s.parser.dts + s.reservedMemoryOffset + (encodeAll l).length then mem a else none

/-- A loop ends after the sections of the list, in order, and `memory_impl::init` protects them. Nothing
behind the block is read. -/
structure Enumerates (l : List MemorySection) : Prop where
  yields : ∃ n, ∀ fuel ≥ n, s.sections (s.within mem l) fuel = some l
  protects : ∀ st, ∃ n, ∀ fuel ≥ n, s.protectReserved (s.within mem l) fuel st = l.foldlM markSection st

/-! ### Reading the block -/

variable {mem} {s} {p : DeviceTreeParser} {offset n fuel : ℕ} {sec : MemorySection} {l : List MemorySection}
  {rest : List UInt8}

lemma length_encode (sec : MemorySection) : (encode sec).length = 2 * 8 := by simp [encode]

/-- The big-endian word at an offset. -/
lemma getUint64_eq (h : Reads mem (p.dts + offset) (leBytes 8 n).reverse) (hn : n < 2 ^ 64) :
    p.getUint64 mem offset = some n := by
  have hlength : (leBytes 8 n).reverse.length = 8 := by simp
  rw [DeviceTreeParser.getUint64, readBytes_eq_some_iff.mpr ⟨hlength, h⟩, Option.map_some,
    List.reverse_reverse, leWord_leBytes, Nat.mod_eq_of_lt]
  exact hn

lemma getUint64_of_encode (h : Reads mem (p.dts + offset) (encode sec))
    (hw : sec.address < 2 ^ 64 ∧ sec.size < 2 ^ 64) :
    p.getUint64 mem offset = some sec.address ∧ p.getUint64 mem (offset + 8) = some sec.size := by
  obtain ⟨haddress, hsize⟩ := reads_append.mp h
  rw [List.length_reverse, length_leBytes] at hsize
  exact ⟨getUint64_eq haddress hw.1, getUint64_eq hsize hw.2⟩

lemma memorySection_eq (h : Reads mem (p.dts + offset) (encode sec))
    (hw : sec.address < 2 ^ 64 ∧ sec.size < 2 ^ 64) : p.memorySection mem offset = some sec := by
  obtain ⟨haddress, hsize⟩ := getUint64_of_encode h hw
  simp [DeviceTreeParser.memorySection, haddress, hsize]

lemma nextSection_eq (h : Reads mem (p.dts + (offset + 2 * 8)) (encode sec))
    (hw : sec.address < 2 ^ 64 ∧ sec.size < 2 ^ 64) :
    p.nextSection mem offset = some (if sec = ⟨0, 0⟩ then none else some (offset + 2 * 8)) := by
  obtain ⟨haddress, hsize⟩ := getUint64_of_encode h hw
  have hzero : sec = ⟨0, 0⟩ ↔ sec.address = 0 ∧ sec.size = 0 := by
    rw [← MemorySection.mk.injEq]
  simp [DeviceTreeParser.nextSection, haddress, hsize, hzero]

lemma encodeAll_cons : encodeAll (sec :: l) = encode sec ++ encodeAll l := by
  rw [encodeAll, encodeAll, List.flatMap_cons, List.append_assoc]

/-- What comes after an entry. -/
lemma Reads.next (h : Reads mem (p.dts + offset) (encodeAll (sec :: l))) :
    Reads mem (p.dts + (offset + 2 * 8)) (encodeAll l) := by
  rw [encodeAll_cons, reads_append, length_encode, Nat.add_assoc] at h
  exact h.2

lemma forFrom_succ {σ : Type} (body : σ → MemorySection → Option σ) {next : Option ℕ}
    (hsec : s.parser.memorySection mem offset = some sec)
    (hnext : s.parser.nextSection mem offset = some next) (st : σ) :
    s.forFrom mem body (fuel + 1) (some offset) st =
      (body st sec).bind fun st => s.forFrom mem body fuel next st := by
  simp [forFrom, hsec, hnext]

/-- From an entry on, a loop goes through the sections up to the terminator. -/
lemma forFrom_eq {σ : Type} (body : σ → MemorySection → Option σ) (sec : MemorySection)
    (h : Reads mem (s.parser.dts + offset) (encodeAll (sec :: l)))
    (hw : ∀ sec' ∈ sec :: l, sec'.address < 2 ^ 64 ∧ sec'.size < 2 ^ 64)
    (hne : ∀ sec' ∈ l, sec' ≠ ⟨0, 0⟩) (hfuel : l.length + 2 ≤ fuel) (st : σ) :
    s.forFrom mem body fuel (some offset) st = (sec :: l).foldlM body st := by
  have hsec : s.parser.memorySection mem offset = some sec := by
    rw [encodeAll_cons, reads_append] at h
    exact memorySection_eq h.1 (hw sec List.mem_cons_self)
  obtain ⟨fuel, rfl⟩ := Nat.exists_eq_add_of_le' ((Nat.le_add_left 1 _).trans hfuel)
  induction l generalizing sec offset fuel st with
  | nil =>
    have hnext : s.parser.nextSection mem offset = some none := by
      rw [nextSection_eq (Reads.next h) (by decide), if_pos rfl]
    obtain ⟨fuel, rfl⟩ := Nat.exists_eq_add_of_le' (Nat.le_of_succ_le_succ hfuel)
    rw [forFrom_succ body hsec hnext, List.foldlM_cons]
    rfl
  | cons next l ih =>
    have hrest := Reads.next h
    have hentry := hrest
    rw [encodeAll_cons, reads_append] at hentry
    have hnextw := hw next (List.mem_cons_of_mem _ List.mem_cons_self)
    have hnext : s.parser.nextSection mem offset = some (some (offset + 2 * 8)) := by
      rw [nextSection_eq hentry.1 hnextw, if_neg (hne next List.mem_cons_self)]
    obtain ⟨fuel, rfl⟩ := Nat.exists_eq_add_of_le' ((Nat.le_add_left 1 _).trans (Nat.le_of_succ_le_succ hfuel))
    rw [forFrom_succ body hsec hnext, List.foldlM_cons]
    refine congrArg _ (funext fun st => ?_)
    exact ih next hrest (fun sec' hsec' => hw sec' (List.mem_cons_of_mem _ hsec'))
      (fun sec' hsec' => hne sec' (List.mem_cons_of_mem _ hsec')) st (memorySection_eq hentry.1 hnextw) fuel
      (Nat.le_of_succ_le_succ hfuel)

/-- A loop reads behind the terminator when the block is empty. -/
lemma forFrom_eq_none {σ : Type} (body : σ → MemorySection → Option σ)
    (hnone : mem (s.parser.dts + offset + 2 * 8) = none)
    (st : σ) : s.forFrom mem body fuel (some offset) st = none := by
  have hnext : s.parser.nextSection mem offset = none := by
    have haddress : s.parser.getUint64 mem (offset + 2 * 8) = none := by
      rw [DeviceTreeParser.getUint64, Option.map_eq_none_iff, ← Option.not_isSome_iff_eq_none,
        readBytes_isSome_iff]
      intro hall
      have hfirst := hall 0 (by decide)
      rw [Nat.add_zero, ← Nat.add_assoc, hnone] at hfirst
      cases hfirst
    rw [DeviceTreeParser.nextSection, haddress]
    rfl
  cases fuel with
  | zero => rfl
  | succ fuel => simp [forFrom, hnext]

lemma reads_within (h : Reads mem (s.parser.dts + s.reservedMemoryOffset) (encodeAll l)) :
    Reads (s.within mem l) (s.parser.dts + s.reservedMemoryOffset) (encodeAll l) := by
  refine h.congr fun i hi => if_pos ?_
  omega

lemma not_enumerates_nil : ¬s.Enumerates mem [] := by
  rintro ⟨⟨n, hn⟩, -⟩
  have hnone : s.within mem [] (s.parser.dts + s.reservedMemoryOffset + 2 * 8) = none := by
    refine if_neg (Nat.not_lt.mpr ?_)
    exact Nat.add_le_add_left (length_encode ⟨0, 0⟩).le _
  have hloop := hn n (Nat.le_refl n)
  rw [sections, forEach, forFrom_eq_none _ hnone] at hloop
  cases hloop

lemma foldlM_append (l l' : List MemorySection) :
    l.foldlM (fun l sec => some (l ++ [sec])) l' = some (l' ++ l) := by
  induction l generalizing l' with
  | nil => rw [List.append_nil]; rfl
  | cons sec l ih =>
    rw [List.foldlM_cons]
    exact (ih _).trans (by rw [List.append_assoc]; rfl)

/-- The sections of a block are enumerated exactly when there is one. -/
theorem enumerates_iff (h : s.Block mem l) : s.Enumerates mem l ↔ l ≠ [] := by
  constructor
  · rintro henumerates rfl
    exact not_enumerates_nil henumerates
  · intro hne
    obtain ⟨sec, l, rfl⟩ := List.exists_cons_of_ne_nil hne
    have hreads := reads_within h.reads
    have hloop : ∀ {σ : Type} (body : σ → MemorySection → Option σ) (st : σ), ∀ fuel ≥ l.length + 2,
        s.forEach (s.within mem (sec :: l)) body fuel st = (sec :: l).foldlM body st :=
      fun body st fuel hfuel => forFrom_eq body sec hreads h.words
        (fun sec' hsec' => h.nonzero sec' (List.mem_cons_of_mem _ hsec')) hfuel st
    refine ⟨⟨l.length + 2, fun fuel hfuel => ?_⟩, fun st => ⟨_, hloop markSection st⟩⟩
    rw [sections, hloop _ _ fuel hfuel, foldlM_append, List.nil_append]

/-- The range that is marked for a section is made of the pages that it touches. -/
lemma markSection_eq (h : sec.address + sec.size + pageSize ≤ 2 ^ 64) :
    ∃ start stop, (∀ st, markSection st sec = st.markAsUsedRange start stop) ∧
      start % pageSize = 0 ∧ start ≤ sec.address ∧ sec.address < start + pageSize ∧
      stop % pageSize = 0 ∧ sec.address + sec.size ≤ stop ∧ stop < sec.address + sec.size + pageSize := by
  obtain ⟨stop, hstop, hle, hlt, hmod, -⟩ := alignToNext_spec _ (by decide) h
  have hsum : wadd sec.address sec.size = sec.address + sec.size :=
    wadd_of_lt ((Nat.lt_add_of_pos_right (by decide)).trans_le h)
  refine ⟨alignToPrevious sec.address pageSize, stop, fun st => ?_, Nat.mul_mod_left _ _,
    Nat.div_mul_le_self _ _, ?_, hmod, hle, hlt⟩
  · rw [markSection, hsum, hstop]
    rfl
  · rw [alignToPrevious, ← Nat.succ_mul, Nat.mul_comm]
    exact Nat.lt_mul_div_succ _ (by decide)

/-- A blob that has nothing but the block. -/
def ofBlock : ReservedSections := ⟨⟨0, 0, 0⟩, 40⟩

def blockMemory (l : List MemorySection) : ℕ → Option UInt8 := fun a => (encodeAll l)[a - 40]?

lemma reads_blockMemory (l : List MemorySection) : Reads (blockMemory l) (0 + 40) (encodeAll l) := by
  intro i hi
  rw [blockMemory, Nat.zero_add, Nat.add_sub_cancel_left]
  exact List.getElem?_eq_getElem hi

/-- Two sections, one of them of size 0. -/
theorem enumerates_two :
    ofBlock.Enumerates (blockMemory [⟨0x1000, 0⟩, ⟨0, 0x2000⟩]) [⟨0x1000, 0⟩, ⟨0, 0x2000⟩] :=
  (enumerates_iff ⟨reads_blockMemory _, by decide, by decide⟩).mpr (List.cons_ne_nil _ _)

/-- The terminator of an empty block is taken for a section, and what is behind it is read. -/
theorem not_enumerates_empty : ofBlock.Block (blockMemory []) [] ∧ ¬ofBlock.Enumerates (blockMemory []) [] :=
  ⟨⟨reads_blockMemory _, by decide, by decide⟩, not_enumerates_nil⟩

end ReservedSections

end PiKachulm.DeviceTree

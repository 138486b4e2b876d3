import PiKachulm.Core.Ring
import PiKachulm.Memory.PageMapping

/-!
# Memory chunks

A chunk is an array of physical pages that the kernel writes to, and that processes have mapped. Its
constructor does not fail: a chunk for which there are not enough pages has no memory, and the array
holds whatever was in it behind the pages that were found.
-/

namespace PiKachulm.Memory

open Core Mmu

/-- What there is for one more page of a chunk: the page that `fresh_page` finds, where the kernel
panics when its tables need a page as well and there is none. -/
inductive PageAnswer where
  | page (f : Frame)
  | noTable

/-- What there is for a new chunk: the block for its array with what it contains, which may be null, and
the pages until `fresh_page` fails. -/
structure Provision where
  array : Option (ℕ → PhysicalPA)
  pages : List PageAnswer

/-- `hasMemory` tells that `_kernel_va` is not 0. The pages of a chunk come zeroed. -/
structure MemoryChunk where
  nbPages : ℕ
  pas : Option (ℕ → PhysicalPA)
  hasMemory : Bool
  bytes : ℕ → UInt8

namespace MemoryChunk

/-- The loop of `allocate_pages_section` from page `pageId` on. There is no result when it writes to an
array that is null, or when the kernel panics. -/
def allocatePages : Option (ℕ → PhysicalPA) → ℕ → ℕ → List PageAnswer →
    Option (Bool × Option (ℕ → PhysicalPA))
  | pas, _, 0, _                            => some (true, pas)
  | pas, _, _ + 1, []                       => some (false, pas)
  | none, _, _ + 1, .page _ :: _            => none
  | some pas, pageId, left + 1, .page f :: pages =>
    allocatePages (some (Function.update pas pageId f.address)) (pageId + 1) left pages
  | _, _, _ + 1, .noTable :: _              => none

/-- The constructor. -/
def create (nbPages : ℕ) (p : Provision) : Option MemoryChunk := do
  let (hasMemory, pas) ← allocatePages p.array 0 nbPages p.pages
  pure { nbPages := nbPages, pas := pas, hasMemory := hasMemory, bytes := fun _ => 0 }

def getByteSize (c : MemoryChunk) : ℕ := c.nbPages * 4096 % 2 ^ 64

/-- The number of bytes that `write` copies and returns. -/
def writeSize (c : MemoryChunk) (byteOffset dataByteLength : ℕ) : ℕ :=
  if byteOffset ≥ c.getByteSize ∨ c.hasMemory = false then 0
  else min (c.getByteSize - byteOffset) dataByteLength

def write (c : MemoryChunk) (byteOffset : ℕ) (data : List UInt8) : MemoryChunk :=
  { c with bytes := blit c.bytes byteOffset (data.take (c.writeSize byteOffset data.length)) }

/-- The loop of `map_chunk` from page `pageId` on. -/
def mapPages (tbl : MMUTable) (attr : PagesAttributes) (pas : ℕ → PhysicalPA) (pageVa : ℕ) :
    ℕ → ℕ → State → Option (Bool × State)
  | _, 0, s             => some (true, s)
  | pageId, left + 1, s => do
    let va := BitVec.ofNat 64 (pageVa + pageId * 4096)
    let (mapped, s) ← mapRange (some tbl) va va (pas pageId) attr s
    if mapped then mapPages tbl attr pas pageVa (pageId + 1) left s else pure (false, s)

/-- `ProcessMemory::map_chunk` on the tables of a process. -/
def mapChunk (tbl : MMUTable) (c : MemoryChunk) (pageVa : ℕ) (readOnly executable : Bool) (s : State) :
    Option (Bool × State) :=
  match c.pas with
  | none     => some (false, s)
  | some pas => mapPages tbl (getProperties readOnly executable) pas pageVa 0 c.nbPages s

end MemoryChunk

/-! ### The constructor -/

namespace Provision

/-- The kernel does not panic over the first `n` pages, and there is an array if one of them is found. -/
def Serves (p : Provision) (n : ℕ) : Prop :=
  (∀ a ∈ p.pages.take n, a ≠ .noTable) ∧ (p.array = none → p.pages.take n = [])

/-- The array with the addresses of the pages that are found, from `pageId` on. -/
def fill : List PageAnswer → ℕ → (ℕ → PhysicalPA) → ℕ → PhysicalPA
  | .page f :: pages, pageId, pas => fill pages (pageId + 1) (Function.update pas pageId f.address)
  | _, _, pas                     => pas

/-- There are an array and these frames. -/
def Gives (p : Provision) (frames : List Frame) : Prop :=
  p.array.isSome ∧ ∃ rest, p.pages = frames.map .page ++ rest

/-- The chunk of `n` pages that is made of what there is. -/
def chunk (p : Provision) (n : ℕ) : MemoryChunk where
  nbPages := n
  pas := p.array.map (fill (p.pages.take n) 0)
  hasMemory := n ≤ p.pages.length
  bytes := fun _ => 0

@[simp] lemma nbPages_chunk (p : Provision) (n : ℕ) : (p.chunk n).nbPages = n := rfl

lemma hasMemory_chunk (p : Provision) (n : ℕ) :
    (p.chunk n).hasMemory = true ↔ n ≤ p.pages.length :=
  decide_eq_true_iff

section

variable {pages : List PageAnswer} {frames : List Frame} {pas : ℕ → PhysicalPA} {i pageId : ℕ}
  {p : Provision}

lemma fill_of_lt (hi : i < pageId) : fill pages pageId pas i = pas i := by
  induction pages generalizing pageId pas with
  | nil => rfl
  | cons a pages ih =>
    cases a with
    | page f => rw [fill, ih (hi.trans (Nat.lt_succ_self _)), Function.update_of_ne hi.ne]
    | noTable => rfl

lemma fill_page (hi : i < frames.length) :
    fill (frames.map .page) pageId pas (pageId + i) = frames[i].address := by
  induction frames generalizing i pageId pas with
  | nil => exact absurd hi (Nat.not_lt_zero i)
  | cons f frames ih =>
    rw [List.map_cons, fill]
    cases i with
    | zero => exact (fill_of_lt (Nat.lt_add_one pageId)).trans (Function.update_self _ _ _)
    | succ i =>
      have hnext : pageId + (i + 1) = pageId + 1 + i := Nat.add_right_comm pageId i 1
      rw [hnext]
      exact ih (Nat.lt_of_succ_lt_succ hi)

lemma Gives.take (h : p.Gives frames) : p.pages.take frames.length = frames.map .page := by
  obtain ⟨-, rest, hpages⟩ := h
  rw [hpages, ← List.length_map (f := PageAnswer.page), List.take_left]

lemma Gives.serves (h : p.Gives frames) : p.Serves frames.length := by
  rw [Serves, h.take]
  refine ⟨fun a ha hno => ?_, fun harray => ?_⟩
  · obtain ⟨f, -, rfl⟩ := List.mem_map.mp ha
    cases hno
  · have hsome := h.1
    rw [harray] at hsome
    cases hsome

lemma Gives.hasMemory (h : p.Gives frames) : (p.chunk frames.length).hasMemory = true := by
  obtain ⟨-, rest, hpages⟩ := h
  rw [hasMemory_chunk, hpages, List.length_append, List.length_map]
  exact Nat.le_add_right _ _

/-- The pages of the chunk are the frames. -/
lemma Gives.exists_pas (h : p.Gives frames) : ∃ pas, (p.chunk frames.length).pas = some pas ∧
    ∀ i (hi : i < frames.length), pas i = frames[i].address := by
  obtain ⟨a, ha⟩ := Option.isSome_iff_exists.mp h.1
  refine ⟨fill (frames.map .page) 0 a, ?_, fun i hi => ?_⟩
  · rw [chunk, ha, h.take, Option.map_some]
  · rw [← fill_page hi, Nat.zero_add]

end

end Provision

namespace MemoryChunk

lemma allocatePages_eq_some_iff {pas : Option (ℕ → PhysicalPA)} {pageId n : ℕ} {pages : List PageAnswer}
    {r : Bool × Option (ℕ → PhysicalPA)} :
    allocatePages pas pageId n pages = some r ↔
      ((∀ a ∈ pages.take n, a ≠ .noTable) ∧ (pas = none → pages.take n = [])) ∧
        r = (decide (n ≤ pages.length), pas.map (Provision.fill (pages.take n) pageId)) := by
  induction n generalizing pas pageId pages with
  | zero => cases pas <;> simp [allocatePages, Provision.fill, eq_comm]
  | succ n ih =>
    match pas, pages with
    | none, []               => simp [allocatePages, eq_comm]
    | some pas, []           => simp [allocatePages, Provision.fill, eq_comm]
    | none, .page f :: _     => simp [allocatePages]
    | none, .noTable :: _    => simp [allocatePages]
    | some _, .noTable :: _  => simp [allocatePages]
    | some pas, .page f :: _ => simp [allocatePages, ih, Provision.fill]

/-- The constructor gives the chunk of what there is, unless the kernel fails over it. -/
lemma create_eq_some_iff {n : ℕ} {p : Provision} {c : MemoryChunk} :
    create n p = some c ↔ p.Serves n ∧ c = p.chunk n := by
  rw [create, Option.bind_eq_bind, Option.bind_eq_some_iff]
  constructor
  · rintro ⟨r, hr, hc⟩
    obtain ⟨hserves, rfl⟩ := allocatePages_eq_some_iff.mp hr
    exact ⟨hserves, (Option.some_inj.mp hc).symm⟩
  · rintro ⟨hserves, rfl⟩
    exact ⟨_, allocatePages_eq_some_iff.mpr ⟨hserves, rfl⟩, rfl⟩

/-! ### Mapping -/

lemma mapChunk_of_pas {tbl : MMUTable} {c : MemoryChunk} {pas : ℕ → PhysicalPA} {pageVa : ℕ}
    {readOnly executable : Bool} {s : State} (hpas : c.pas = some pas) :
    c.mapChunk tbl pageVa readOnly executable s =
      mapPages tbl (getProperties readOnly executable) pas pageVa 0 c.nbPages s := by
  rw [mapChunk, hpas]

/-! ### Writing -/

variable {c : MemoryChunk} {offset i n : ℕ} {data : List UInt8}

@[simp] lemma getByteSize_write : (c.write offset data).getByteSize = c.getByteSize := rfl

@[simp] lemma hasMemory_write : (c.write offset data).hasMemory = c.hasMemory := rfl

/-- Data that fits is written whole. -/
lemma writeSize_of_le (hmem : c.hasMemory = true) (hpos : 0 < n)
    (h : offset + n ≤ c.getByteSize) : c.writeSize offset n = n := by
  have hlt : offset < c.getByteSize := (Nat.lt_add_of_pos_right hpos).trans_le h
  rw [writeSize, if_neg]
  · exact Nat.min_eq_right (Nat.le_sub_of_add_le' h)
  · simp [hmem, hlt]

lemma bytes_write_of_le (hmem : c.hasMemory = true) (h : offset + data.length ≤ c.getByteSize) :
    (c.write offset data).bytes = blit c.bytes offset data := by
  rcases Nat.eq_zero_or_pos data.length with hz | hpos
  · rw [List.length_eq_zero_iff.mp hz, write, List.take_nil]
  · rw [write, writeSize_of_le hmem hpos h, List.take_length]

/-- A write leaves what is before its offset and behind its data. -/
lemma bytes_write_of_lt (h : i < offset) : (c.write offset data).bytes i = c.bytes i :=
  blit_of_lt h

lemma bytes_write_of_ge (h : offset + data.length ≤ i) : (c.write offset data).bytes i = c.bytes i := by
  apply blit_of_ge
  rw [List.length_take]
  exact (Nat.add_le_add_left (Nat.min_le_right _ _) offset).trans h

end MemoryChunk

end PiKachulm.Memory

import PiKachulm.Core.Bytes
import PiKachulm.Libk.Word

/-!
# Reading ELF files

The part of `libelf` that the loader uses. A file is read through pointers into a buffer: addresses
are offsets from its start, wrap around at 64 bits, and have a byte only inside the buffer.
-/

namespace PiKachulm.Loader

open Core Libk

/-- `elf::Error`. -/
inductive ElfError where
  | none
  | unknownError
  | invalidMag0
  | invalidMag1
  | invalidMag2
  | invalidMag3
  | unsupportedClass
  | unsupportedEndianness
  | unsupportedMachine
  | unsupportedVersion
  deriving DecidableEq

/-- The memory around the start of a buffer. -/
def imageByte (buffer : List UInt8) (a : ℕ) : Option UInt8 := buffer[a % 2 ^ 64]?

/-- The bytes from offset `a` on that are read lie in the buffer. -/
def Inside (buffer : List UInt8) (k a : ℕ) : Prop := ∀ i < k, (a + i) % 2 ^ 64 < buffer.length

/-! ### The header -/

/-- A comparison of `check_header`: the field at `offset` has the value that is expected. -/
structure HeaderCheck where
  offset : ℕ
  size : ℕ
  expected : ℕ
  error : ElfError

/-- The comparisons in their order: the magic number, 64 bits, little endian, AArch64, version 1. -/
def headerChecks : List HeaderCheck :=
  [⟨0, 1, 0x7f, .invalidMag0⟩, ⟨1, 1, 0x45, .invalidMag1⟩, ⟨2, 1, 0x4c, .invalidMag2⟩,
    ⟨3, 1, 0x46, .invalidMag3⟩, ⟨4, 1, 2, .unsupportedClass⟩, ⟨5, 1, 1, .unsupportedEndianness⟩,
    ⟨18, 2, 0xb7, .unsupportedMachine⟩, ⟨6, 1, 1, .unsupportedVersion⟩]

def runChecks (buffer : List UInt8) : List HeaderCheck → Option ElfError
  | []          => some .none
  | c :: checks => do
    let field ← readWord (imageByte buffer) c.size c.offset
    if field ≠ c.expected then pure c.error else runChecks buffer checks

/-- `check_header`, for a pointer that is not null. -/
def checkHeader (buffer : List UInt8) : Option ElfError := runChecks buffer headerChecks

/-- `program_header_offset`. -/
def programHeaderOffset (buffer : List UInt8) : Option ℕ := readWord (imageByte buffer) 8 32

/-- `program_header_entry_count`. -/
def programHeaderEntryCount (buffer : List UInt8) : Option ℕ := readWord (imageByte buffer) 2 56

/-- `entry_addr`. -/
def entryAddr (buffer : List UInt8) : Option ℕ := readWord (imageByte buffer) 8 24

/-! ### Program headers -/

/-- The fields of the program header at `ph` that are used. -/
def phType (buffer : List UInt8) (ph : ℕ) : Option ℕ := readWord (imageByte buffer) 4 ph

def phFlags (buffer : List UInt8) (ph : ℕ) : Option ℕ := readWord (imageByte buffer) 4 (ph + 4)

def phOffset (buffer : List UInt8) (ph : ℕ) : Option ℕ := readWord (imageByte buffer) 8 (ph + 8)

def phVirtualAddr (buffer : List UInt8) (ph : ℕ) : Option ℕ := readWord (imageByte buffer) 8 (ph + 16)

def phFileSize (buffer : List UInt8) (ph : ℕ) : Option ℕ := readWord (imageByte buffer) 8 (ph + 32)

def phMemSize (buffer : List UInt8) (ph : ℕ) : Option ℕ := readWord (imageByte buffer) 8 (ph + 40)

/-- The pointer to a program header, of 56 bytes each. -/
def programHeaderAt (offset idx : ℕ) : ℕ := wadd offset (56 * idx)

/-- `get_program_header`, which returns a pointer that may be null. -/
def getProgramHeader (buffer : List UInt8) (idx : ℕ) : Option (Option ℕ) := do
  let count ← programHeaderEntryCount buffer
  if idx ≥ count then pure none
  else
    let offset ← programHeaderOffset buffer
    let ph := programHeaderAt offset idx
    let memSize ← phMemSize buffer ph
    let fileSize ← phFileSize buffer ph
    if memSize < fileSize then pure none else pure (some ph)

/-- `is_load`. -/
def isLoad (type : ℕ) : Bool := type = 1

/-- `operator&` for a `ProgramFlag` computes a disjunction. -/
def andFlag (lhs flag : ℕ) : ℕ := lhs ||| flag

/-! ### Reading inside the buffer -/

variable {buffer : List UInt8} {k a n : ℕ}

lemma isSome_imageByte : (imageByte buffer a).isSome ↔ a % 2 ^ 64 < buffer.length := by
  rw [imageByte, isSome_getElem?]

lemma isSome_readWord_iff : (readWord (imageByte buffer) k a).isSome ↔ Inside buffer k a := by
  rw [readWord_isSome_iff]
  exact forall₂_congr fun i _ => isSome_imageByte

lemma inside_of_le (h : a + k ≤ buffer.length) (hlt : buffer.length < 2 ^ 64) :
    Inside buffer k a := by
  intro i hi
  have hai : a + i < buffer.length := (Nat.add_lt_add_left hi a).trans_le h
  rw [Nat.mod_eq_of_lt (hai.trans hlt)]
  exact hai

lemma andFlag_ne_zero {lhs flag : ℕ} (h : flag ≠ 0) : andFlag lhs flag ≠ 0 := by
  intro hz
  have hle : flag ≤ andFlag lhs flag := Nat.right_le_or
  rw [hz] at hle
  exact h (Nat.le_zero.mp hle)

end PiKachulm.Loader

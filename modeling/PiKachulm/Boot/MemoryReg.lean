import PiKachulm.Boot.Property
import PiKachulm.Libk.Word
import PiKachulm.Memory.PageAllocList

/-!
# The sections of memory

The constructor of `PageAllocList` makes one section of each chunk of memory that the device tree
declares, and reserves the end of a chunk for buffers.
-/

namespace PiKachulm.Boot

open Libk Memory

/-- `_lin_alloc`, the allocator of pages during the boot. -/
structure LinearPageAllocator where
  firstPage : ℕ
  upperBound : ℕ
  nbAllocated : ℕ

/-- `libk::LinearAllocator`, the allocator of the elements of the list. -/
structure LinearAllocator where
  beg : ℕ
  maxAddress : ℕ

/-- `KERNEL_BASE`. -/
def kernelBase : ℕ := 0xFFFF000000000000

/-- `libk::align_to_previous`, for a power of two. -/
def alignToPrevious (value alignment : ℕ) : ℕ := value / alignment * alignment

/-- `none` when the function returns false. -/
def allocatePages (alloc : LinearPageAllocator) (nbPages : ℕ) : Option (ℕ × LinearPageAllocator) :=
  let curPage := alloc.firstPage + pageSize * alloc.nbAllocated
  if curPage + nbPages * pageSize ≥ alloc.upperBound then none
  else some (curPage, { alloc with nbAllocated := alloc.nbAllocated + nbPages })

/-- `none` when there is no room left. -/
def LinearAllocator.malloc (alloc : LinearAllocator) (byteSize align : ℕ) :
    Option (ℕ × LinearAllocator) :=
  if alloc.beg = 0 then none
  else do
    let alignedBeg ← alignToNext alloc.beg align
    let nextBeg := alignedBeg + byteSize
    if nextBeg ≥ alloc.maxAddress then none else some (alignedBeg, { alloc with beg := nextBeg })

/-- What the constructor works on. The flag is not in the source: it remembers that
`allocate_pages` has failed. -/
structure BootMemory where
  linAlloc : LinearPageAllocator
  memAlloc : LinearAllocator
  pages : PageAllocList
  ranOut : Bool

namespace BootMemory

/-- `add_allocator`, with the words found at the address of the array; `none` when there is no room
for the element of the list, which the source writes to without a test. -/
def addAllocator (words : ℕ → ℕ → BitVec 64) (bm : BootMemory)
    (pageStart pageEnd nbPages array : ℕ) : Option BootMemory := do
  let (_, memAlloc) ← bm.memAlloc.malloc 48 8
  let newElm : AllocList := ⟨pageStart, pageEnd, .init nbPages (words array)⟩
  pure { bm with memAlloc := memAlloc, pages := { bm.pages with list := bm.pages.list ++ [newElm] } }

/-- One turn of the loop of `parse_memory_reg`. The first result is `reserved_section`, or `none`
when the function returns false. -/
def parseChunk (words : ℕ → ℕ → BitVec 64) (contiguousResBytes chunkStart chunkSize : ℕ)
    (reservedSection : Bool) (bm : BootMemory) : Option (Option Bool × BootMemory) :=
  let chunkEnd := alignToPrevious (chunkStart + chunkSize) pageSize
  let chunkNbPages := (chunkEnd - chunkStart) / pageSize
  let nbReservedPages := divRoundUp contiguousResBytes pageSize
  let reserves := !reservedSection && decide (chunkNbPages > 2 * nbReservedPages)
  let pageEnd := if reserves then chunkEnd - contiguousResBytes - pageSize else chunkEnd
  let bm := if reserves then
      { bm with pages := { bm.pages with contiguousResStart := pageEnd, contiguousResStop := chunkEnd } }
    else bm
  let nbPages := (pageEnd - chunkStart + 1) / pageSize
  let nbUsedPage := divRoundUp (PageAlloc.memoryNeeded nbPages) pageSize
  match allocatePages bm.linAlloc nbUsedPage with
  | none                              => some (none, { bm with ranOut := true })
  | some (physicalMemory, linAlloc) =>
    ({ bm with linAlloc := linAlloc }.addAllocator words chunkStart pageEnd nbPages
      (physicalMemory + kernelBase)).map fun bm => (some (reservedSection || reserves), bm)

/-- `parse_memory_reg`, from byte `index` of the property on. -/
def parseMemoryReg (words : ℕ → ℕ → BitVec 64) (m : DeviceMemoryProperties) (prop : Property)
    (contiguousResBytes index : ℕ) (reservedSection : Bool) (bm : BootMemory) :
    Option (Bool × BootMemory) :=
  if index < prop.length then
    match _hstart : prop.getVariableInt index m.isArmMemAddressU64 with
    | none              => some (false, bm)
    | some (start, mid) =>
      match _hsize : prop.getVariableInt mid m.isArmMemSizeU64 with
      | none              => some (false, bm)
      | some (size, next) =>
        match parseChunk words contiguousResBytes start size reservedSection bm with
        | none                  => none
        | some (none, bm)       => some (false, bm)
        | some (some flag, bm) => parseMemoryReg words m prop contiguousResBytes next flag bm
  else some (reservedSection, bm)
termination_by prop.length - index
decreasing_by
  have h₁ := Property.lt_of_getVariableInt _hstart
  have h₂ := Property.lt_of_getVariableInt _hsize
  omega

/-- The prefix of the names of memory nodes. -/
def memoryPrefix : List Char := ['m', 'e', 'm', 'o', 'r', 'y', '@']

/-- The turn of the loop of the constructor for one child of the root. -/
def parseNode (words : ℕ → ℕ → BitVec 64) (m : DeviceMemoryProperties) (contiguousResBytes : ℕ)
    (s : Bool × BootMemory) (node : Node) : Option (Bool × BootMemory) :=
  if memoryPrefix.isPrefixOf node.name then
    match node.reg with
    | none      => some s
    | some prop =>
      parseMemoryReg words m prop (if s.1 then 0 else contiguousResBytes) 0 false s.2
  else some s

/-- The constructor, on the children of the root; `none` is a fault. -/
def init (words : ℕ → ℕ → BitVec 64) (m : DeviceMemoryProperties) (nodes : List Node)
    (linAlloc : LinearPageAllocator) (memAlloc : LinearAllocator) (contiguousResBytes : ℕ) :
    Option BootMemory :=
  (nodes.foldlM (parseNode words m contiguousResBytes)
    (false, ⟨linAlloc, memAlloc, ⟨0, 0, []⟩, false⟩)).map Prod.snd

end BootMemory

end PiKachulm.Boot

import PiKachulm.Libk.StringView
import PiKachulm.Libk.Word

/-!
# The device tree in memory

`DeviceTreeParser` reads the structure block of a device tree blob: tokens of 4 bytes, each followed by
what it announces. `Node` gives the properties and the children of a node, which iterators find in the
block. Offsets count from the start of the blob, which does not reach the end of the address space.
-/

namespace PiKachulm.DeviceTree

open Core Libk

/-- `DeviceTreeParser`: the addresses of the blob, of its structure block and of its strings. -/
structure DeviceTreeParser where
  dts : ℕ
  structOfs : ℕ
  stringOfs : ℕ

def dtbBeginNode : ℕ := 1

def dtbEndNode : ℕ := 2

def dtbProp : ℕ := 3

def dtbNop : ℕ := 4

/-- `Property`. -/
structure Property where
  name : StringView
  length : ℕ
  data : ℕ
  deriving DecidableEq

/-- `Node`: the string of its name, and the offset of what follows it. -/
structure Node where
  name : ℕ
  off : ℕ
  deriving DecidableEq

namespace DeviceTreeParser

variable (mem : ℕ → Option UInt8) (p : DeviceTreeParser)

/-- Device tree integers are big endian. -/
def getUint32 (offset : ℕ) : Option ℕ :=
  (readBytes mem 4 (p.dts + offset)).map fun bytes => leWord bytes.reverse

def getString (offset : ℕ) : ℕ := p.dts + offset

def skipProperty (offset : ℕ) : Option ℕ := do
  let token ← p.getUint32 mem offset
  if token ≠ dtbProp then none
  else do
    let propertySize ← p.getUint32 mem (offset + 4)
    alignToNext (offset + 4 + 4 + 4 + propertySize) 4

/-- The token of a node and its name are skipped. -/
def skipName (offset : ℕ) : Option ℕ := do
  let token ← p.getUint32 mem offset
  if token ≠ dtbBeginNode then none
  else do
    let length ← strlen mem (p.getString (offset + 4))
    alignToNext (offset + 4 + (length + 1)) 4

mutual

def skipNode : ℕ → ℕ → Option ℕ
  | 0, _             => none
  | fuel + 1, offset => do
    let offset ← p.skipName mem offset
    skipItems fuel offset

/-- The loop of `skip_node`, up to the end of the node. An unknown token makes it panic. -/
def skipItems : ℕ → ℕ → Option ℕ
  | 0, _             => none
  | fuel + 1, offset => do
    let token ← p.getUint32 mem offset
    if token = dtbBeginNode then do
      let offset ← skipNode fuel offset
      skipItems fuel offset
    else if token = dtbNop then skipItems fuel (offset + 4)
    else if token = dtbProp then do
      let offset ← p.skipProperty mem offset
      skipItems fuel offset
    else if token = dtbEndNode then some (offset + 4)
    else none

end

/-! ### Properties -/

/-- `find_next_property`: the offset of the property, or `max_val` as `none`. -/
def findNextProperty : ℕ → ℕ → Option (Option ℕ)
  | 0, _             => none
  | fuel + 1, offset => do
    let token ← p.getUint32 mem offset
    if token = dtbBeginNode then do
      let offset ← p.skipNode mem fuel offset
      findNextProperty fuel offset
    else if token = dtbProp then some (some offset)
    else if token = dtbNop then findNextProperty fuel (offset + 4)
    else if token = dtbEndNode then some none
    else none

/-- `operator*` of `PropertyIterator`. -/
def property (offset : ℕ) : Option Property := do
  let token ← p.getUint32 mem offset
  if token ≠ dtbProp then none
  else do
    let length ← p.getUint32 mem (offset + 4)
    let nameOffset ← p.getUint32 mem (offset + 2 * 4)
    let name ← StringView.ofString mem (p.getString (p.stringOfs + nameOffset))
    return ⟨name, length, p.getString (offset + 3 * 4)⟩

/-- `operator++` of `PropertyIterator`. -/
def nextProperty (fuel offset : ℕ) : Option (Option ℕ) := do
  let offset ← p.skipProperty mem offset
  p.findNextProperty mem fuel offset

/-! ### Children -/

/-- `find_next_node`. -/
def findNextNode : ℕ → ℕ → Option (Option ℕ)
  | 0, _             => none
  | fuel + 1, offset => do
    let token ← p.getUint32 mem offset
    if token = dtbBeginNode then some (some offset)
    else if token = dtbProp then do
      let offset ← p.skipProperty mem offset
      findNextNode fuel offset
    else if token = dtbNop then findNextNode fuel (offset + 4)
    else if token = dtbEndNode then some none
    else none

/-- The constructor of `Node`, which is also `operator*` of `NodeIterator`. -/
def node (offset : ℕ) : Option Node := do
  let off ← p.skipName mem offset
  return ⟨p.getString (offset + 4), off⟩

/-- `operator++` of `NodeIterator`. -/
def nextNode (fuel offset : ℕ) : Option (Option ℕ) := do
  let offset ← p.skipNode mem fuel offset
  p.findNextNode mem fuel offset

end DeviceTreeParser

namespace Node

variable (mem : ℕ → Option UInt8) (p : DeviceTreeParser)

/-- The elements that an iterator goes through before it reaches `end()`. -/
def collect {α : Type} (get : ℕ → Option α) (next : ℕ → Option (Option ℕ)) :
    ℕ → Option ℕ → Option (List α)
  | 0, _                  => none
  | _ + 1, none           => some []
  | fuel + 1, some offset => do
    let a ← get offset
    let it ← next offset
    let as ← collect get next fuel it
    return a :: as

/-- `get_name`. -/
def getName (n : Node) : Option StringView := StringView.ofString mem n.name

/-- The iteration of `get_properties()`. -/
def properties (fuel : ℕ) (n : Node) : Option (List Property) := do
  let it ← p.findNextProperty mem fuel n.off
  collect (p.property mem) (p.nextProperty mem fuel) fuel it

/-- The iteration of `get_children()`. -/
def children (fuel : ℕ) (n : Node) : Option (List Node) := do
  let it ← p.findNextNode mem fuel n.off
  collect (p.node mem) (p.nextNode mem fuel) fuel it

end Node

end PiKachulm.DeviceTree

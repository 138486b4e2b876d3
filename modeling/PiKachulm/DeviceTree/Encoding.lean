import PiKachulm.DeviceTree.Parser

/-!
# The encoding of a tree

A node is a list of items: properties, children and tokens that mean nothing, in any order. Its encoding
is what the structure block holds for it. The parser finds in the block what has been encoded there, and
reads nothing else: a byte outside the encoding need not exist.
-/

namespace PiKachulm.DeviceTree

open Core Libk

/-- An item of a node. A property has the offset of its name in the block of the strings. -/
inductive Item where
  | nop
  | prop (name : List UInt8) (nameOffset : ℕ) (value : List UInt8)
  | node (name : List UInt8) (items : List Item)

/-- The next multiple of 4. -/
def alignedLength (n : ℕ) : ℕ := (n + 3) / 4 * 4

/-- A big-endian word of 4 bytes. -/
def beBytes (n : ℕ) : List UInt8 := (leBytes 4 n).reverse

/-- The bytes, and zeros up to a multiple of 4. -/
def padded (bytes : List UInt8) : List UInt8 :=
  bytes ++ List.replicate (alignedLength bytes.length - bytes.length) 0

/-- What stands before the items of a node. -/
def nodeHeader (name : List UInt8) : List UInt8 := beBytes dtbBeginNode ++ padded (name ++ [0])

def propEncode (nameOffset : ℕ) (value : List UInt8) : List UInt8 :=
  beBytes dtbProp ++ (beBytes value.length ++ (beBytes nameOffset ++ padded value))

mutual

def Item.encode : Item → List UInt8
  | .nop => beBytes dtbNop
  | .prop _ nameOffset value => propEncode nameOffset value
  | .node name items => nodeHeader name ++ (encodeAll items ++ beBytes dtbEndNode)

def encodeAll : List Item → List UInt8
  | [] => []
  | item :: items => item.encode ++ encodeAll items

end

/-- The properties of a node, without those of its children: name, length and value. -/
def ownProperties (items : List Item) : List (List UInt8 × ℕ × List UInt8) :=
  items.filterMap fun
    | .prop name _ value => some (name, value.length, value)
    | _ => none

/-- The children of a node whose items start at `offset`, with their offsets. -/
def childrenAt : ℕ → List Item → List (ℕ × Item)
  | _, [] => []
  | offset, .node name items :: rest =>
    (offset, .node name items) :: childrenAt (offset + (Item.node name items).encode.length) rest
  | offset, item :: rest => childrenAt (offset + item.encode.length) rest

/-- In the tree `root` at `offset` there is the node `item` at the offset `at'`, at any depth. -/
inductive Occurs (offset : ℕ) (root : Item) : ℕ → Item → Prop where
  | root : Occurs offset root offset root
  | child {o o' : ℕ} {name : List UInt8} {items : List Item} {item : Item}
      (parent : Occurs offset root o (.node name items))
      (mem : (o', item) ∈ childrenAt (o + (nodeHeader name).length) items) :
      Occurs offset root o' item

section

variable (mem : ℕ → Option UInt8) (p : DeviceTreeParser)

mutual

/-- The names have no NUL, those of properties are in the block of the strings, which is smaller than
`2 ^ 32` as the lengths of the values are. -/
def Item.Named : Item → Prop
  | .nop => True
  | .prop name nameOffset value => 0 ∉ name ∧ nameOffset + name.length < 2 ^ 32 ∧
      Reads mem (p.dts + (p.stringOfs + nameOffset)) (name ++ [0]) ∧ value.length < 2 ^ 32
  | .node name items => 0 ∉ name ∧ NamedAll items

def NamedAll : List Item → Prop
  | [] => True
  | item :: items => item.Named ∧ NamedAll items

end

/-- The structure block holds the bytes at an offset. -/
structure Stored (offset : ℕ) (bytes : List UInt8) : Prop where
  reads : Reads mem (p.dts + offset) bytes
  aligned : offset % 4 = 0
  fits : offset + bytes.length + 8 ≤ 2 ^ 64

/-- The name, the length and the value of a property, as the memory shows them. -/
def Property.content (q : Property) : Option (List UInt8 × ℕ × List UInt8) := do
  let name ← readBytes mem q.name.length q.name.data
  let value ← readBytes mem q.length q.data
  return (name, q.length, value)

end

/-! ### Lengths -/

variable {mem : ℕ → Option UInt8} {p : DeviceTreeParser} {offset fuel n : ℕ}
  {bytes rest name value : List UInt8} {items : List Item} {item : Item}

@[simp] lemma length_beBytes (n : ℕ) : (beBytes n).length = 4 := by simp [beBytes]

lemma le_alignedLength (n : ℕ) : n ≤ alignedLength n := by
  rw [alignedLength]
  omega

lemma alignedLength_mod (n : ℕ) : alignedLength n % 4 = 0 := Nat.mul_mod_left _ _

@[simp] lemma length_padded (bytes : List UInt8) :
    (padded bytes).length = alignedLength bytes.length := by
  rw [padded, List.length_append, List.length_replicate]
  exact Nat.add_sub_cancel' (le_alignedLength _)

@[simp] lemma length_nodeHeader (name : List UInt8) :
    (nodeHeader name).length = 4 + alignedLength (name.length + 1) := by
  simp [nodeHeader]

@[simp] lemma length_propEncode (nameOffset : ℕ) (value : List UInt8) :
    (propEncode nameOffset value).length = 12 + alignedLength value.length := by
  simp [propEncode]
  omega

lemma length_node : (Item.node name items).encode.length =
    (nodeHeader name).length + (encodeAll items).length + 4 := by
  simp [Item.encode, Nat.add_assoc]

lemma length_encodeAll_cons : (encodeAll (item :: items)).length =
    item.encode.length + (encodeAll items).length := by
  rw [encodeAll, List.length_append]

lemma length_encodeAll_mod (h : ∀ item ∈ items, item.encode.length % 4 = 0) : (encodeAll items).length % 4 = 0 := by
  induction items with
  | nil => rfl
  | cons item items ih =>
    rw [length_encodeAll_cons, Nat.add_mod, h item List.mem_cons_self,
      ih fun item hitem => h item (List.mem_cons_of_mem _ hitem)]

/-- Every item takes some words of 4 bytes. -/
lemma length_encode_mod (item : Item) : item.encode.length % 4 = 0 := by
  match item with
  | .nop => simp [Item.encode]
  | .prop name nameOffset value =>
    rw [Item.encode, length_propEncode, Nat.add_mod, alignedLength_mod]
  | .node name items =>
    have hitems := length_encodeAll_mod fun item (hitem : item ∈ items) => length_encode_mod item
    have hname := alignedLength_mod (name.length + 1)
    rw [length_node, length_nodeHeader]
    omega

lemma length_encode_pos (item : Item) : 0 < item.encode.length := by
  cases item with
  | nop => simp [Item.encode]
  | prop name nameOffset value =>
    rw [Item.encode, length_propEncode]
    omega
  | node name items =>
    rw [length_node]
    omega

/-! ### Reading the block -/

lemma lt_maxLength (h : n < 2 ^ 64) : n < maxLength := by
  unfold maxLength
  exact h

/-- The big-endian word at an offset. -/
lemma getUint32_eq (h : Reads mem (p.dts + offset) (beBytes n ++ rest)) (hn : n < 2 ^ 32) :
    p.getUint32 mem offset = some n := by
  have hreads := (reads_append.mp h).1
  rw [DeviceTreeParser.getUint32, readBytes_eq_some_iff.mpr ⟨length_beBytes n, hreads⟩,
    Option.map_some, beBytes, List.reverse_reverse, leWord_leBytes, Nat.mod_eq_of_lt]
  exact hn

lemma alignToNext_four (ho : offset % 4 = 0) (h : offset + n + 4 ≤ 2 ^ 64) :
    alignToNext (offset + n) 4 = some (offset + alignedLength n) := by
  obtain ⟨r, hr, hle, hlt, hmod, -⟩ := alignToNext_spec (offset + n) (by decide) h
  have heq : r = offset + alignedLength n := by
    rw [alignedLength]
    omega
  rw [hr, heq]

namespace Stored

lemma left (h : Stored mem p offset (bytes ++ rest)) : Stored mem p offset bytes where
  reads := (reads_append.mp h.reads).1
  aligned := h.aligned
  fits := by
    have hfits := h.fits
    rw [List.length_append] at hfits
    omega

lemma right (h : Stored mem p offset (bytes ++ rest)) (hmod : bytes.length % 4 = 0) :
    Stored mem p (offset + bytes.length) rest where
  reads := by
    rw [← Nat.add_assoc]
    exact (reads_append.mp h.reads).2
  aligned := by
    rw [Nat.add_mod, h.aligned, hmod]
  fits := by
    have hfits := h.fits
    rw [List.length_append] at hfits
    omega

/-- What comes behind a word. -/
lemma next (h : Stored mem p offset (beBytes n ++ rest)) : Stored mem p (offset + 4) rest := by
  have hright := h.right (by rw [length_beBytes])
  rwa [length_beBytes] at hright

lemma getUint32 (h : Stored mem p offset (beBytes n ++ rest)) (hn : n < 2 ^ 32) :
    p.getUint32 mem offset = some n := getUint32_eq h.reads hn

/-- A property is skipped. -/
lemma skipProperty {nameOffset : ℕ} (h : Stored mem p offset (propEncode nameOffset value))
    (hvalue : value.length < 2 ^ 32) :
    p.skipProperty mem offset = some (offset + (propEncode nameOffset value).length) := by
  have hlength := h.next.getUint32 hvalue
  have haligned := h.aligned
  have hfits := h.fits
  have hle := le_alignedLength value.length
  rw [length_propEncode] at hfits
  have htoken : p.getUint32 mem offset = some dtbProp := h.getUint32 (by decide)
  rw [DeviceTreeParser.skipProperty, htoken, length_propEncode, ← Nat.add_assoc]
  simp only [Option.bind_eq_bind, Option.bind_some, ne_eq, not_true_eq_false, if_false, hlength]
  exact alignToNext_four (by omega) (by omega)

/-- The name of a node is skipped. -/
lemma skipName (h : Stored mem p offset (nodeHeader name ++ rest)) (hname : 0 ∉ name) :
    p.skipName mem offset = some (offset + (nodeHeader name).length) := by
  have hfits := h.left.fits
  have haligned := h.aligned
  have hle := le_alignedLength (name.length + 1)
  rw [length_nodeHeader] at hfits
  have htoken : p.getUint32 mem offset = some dtbBeginNode := h.left.getUint32 (by decide)
  have hstring := h.left.next.reads
  rw [padded, List.append_assoc] at hstring
  have hlength : strlen mem (p.getString (offset + 4)) = some name.length :=
    strlen_eq hname hstring (lt_maxLength (by omega))
  rw [DeviceTreeParser.skipName, htoken, length_nodeHeader, ← Nat.add_assoc]
  simp only [Option.bind_eq_bind, Option.bind_some, ne_eq, not_true_eq_false, if_false, hlength]
  exact alignToNext_four (by omega) (by omega)

end Stored

end PiKachulm.DeviceTree

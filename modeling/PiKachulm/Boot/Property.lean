import Mathlib.Tactic.Common

/-!
# Properties of the device tree

A property is an array of bytes; `get_variable_int` reads big-endian integers of 4 or 8 bytes from
it. The `reg` property of a memory node is read as a list of pairs, a start and a size.
-/

namespace PiKachulm.Boot

structure Property where
  length : ℕ
  data : ℕ → BitVec 8

/-- A node: its name, and its `reg` property if it has one. -/
structure Node where
  name : List Char
  reg : Option Property

namespace Property

/-- The big-endian number in the `n` bytes from `index` on. -/
def readBe (p : Property) (index n : ℕ) : ℕ :=
  (List.range n).foldl (fun value i => value * 256 + (p.data (index + i)).toNat) 0

/-- The value, and the index after it. -/
def getU32At (p : Property) (index : ℕ) : Option (ℕ × ℕ) :=
  if index + 4 > p.length then none else some (p.readBe index 4, index + 4)

def getU64At (p : Property) (index : ℕ) : Option (ℕ × ℕ) :=
  if index + 8 > p.length then none else some (p.readBe index 8, index + 8)

def getVariableInt (p : Property) (index : ℕ) (isU64Integer : Bool) : Option (ℕ × ℕ) :=
  if isU64Integer then p.getU64At index else p.getU32At index

variable {p : Property} {index value next : ℕ} {u : Bool}

lemma lt_of_getVariableInt (h : p.getVariableInt index u = some (value, next)) : index < next := by
  rw [getVariableInt, getU64At, getU32At] at h
  split_ifs at h <;> cases h <;> omega

end Property

/-- `DeviceMemoryProperties`. -/
structure DeviceMemoryProperties where
  isArmMemAddressU64 : Bool
  isArmMemSizeU64 : Bool

namespace Property

/-- The pairs from `index` on, when the property is made of such. -/
def entries (m : DeviceMemoryProperties) (p : Property) (index : ℕ) : Option (List (ℕ × ℕ)) :=
  if index < p.length then
    match _hstart : p.getVariableInt index m.isArmMemAddressU64 with
    | none              => none
    | some (start, mid) =>
      match _hsize : p.getVariableInt mid m.isArmMemSizeU64 with
      | none              => none
      | some (size, next) => (entries m p next).map fun l => (start, size) :: l
  else some []
termination_by p.length - index
decreasing_by
  have h₁ := lt_of_getVariableInt _hstart
  have h₂ := lt_of_getVariableInt _hsize
  omega

end Property

end PiKachulm.Boot

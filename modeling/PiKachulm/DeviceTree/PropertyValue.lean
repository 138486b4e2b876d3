import PiKachulm.DeviceTree.Parser
import PiKachulm.Boot.Property
import PiKachulm.Boot.Property

/-!
# Reading the value of a property

The functions of `Property` that look into its value: as a string, as a list of strings which iterators
go through, and as integers of 4 or 8 bytes at a byte index. Lengths and indices are 64-bit words, so
that `length - 1` and `*index + sizeof(uint32_t)` may wrap. Run on a memory that has the bytes of the
value only, a read of anything else fails.
-/

namespace PiKachulm.DeviceTree

open Core Libk

/-- Neither a control character nor beyond ASCII. -/
def isPrintable (c : UInt8) : Bool := !(c ≤ 0x1f || c ≥ 0x7f)

/-- What reading an integer leaves: the answer, `*index` and `*value`. A null pointer is `none`. -/
structure IntegerRead where
  success : Bool
  index : Option (BitVec 64)
  value : Option (BitVec 64)
  deriving DecidableEq

/-- `StringList`. -/
structure StringList where
  prop : Property
  deriving DecidableEq

namespace Property

variable (mem : ℕ → Option UInt8) (q : Property)

/-- The loop of `is_string` and of `is_string_list`, over `n` bytes from `i` on. -/
def allOf (good : UInt8 → Bool) : ℕ → ℕ → Option Bool
  | 0, _     => some true
  | n + 1, i => do
    let c ← mem (q.data + i)
    if good c then allOf good n (i + 1) else some false

def isStringOf (good : UInt8 → Bool) : Option Bool := do
  let all ← q.allOf mem good (wsub q.length 1) 0
  if all then do
    let c ← mem (q.data + wsub q.length 1)
    return c = 0
  else return false

def isString : Option Bool := q.isStringOf mem isPrintable

def isStringList : Option Bool := q.isStringOf mem fun c => isPrintable c || c = 0

def getString : Option (Option StringView) := do
  let success ← q.isString mem
  return if success then some ⟨q.data, wsub q.length 1⟩ else none

def getStringList : Option (Option StringList) := do
  let success ← q.isStringList mem
  return if success then some ⟨q⟩ else none

/-- Device tree integers are big endian. -/
def getIntAt (n : ℕ) (index value : Option (BitVec 64)) : Option IntegerRead :=
  match index with
  | none   => some ⟨false, index, value⟩
  | some i =>
    if (i + BitVec.ofNat 64 n).toNat > q.length then some ⟨false, index, value⟩
    else
      match value with
      | none   => some ⟨true, some (i + BitVec.ofNat 64 n), none⟩
      | some _ => (readBytes mem n (q.data + i.toNat)).map fun bytes =>
        ⟨true, some (i + BitVec.ofNat 64 n), some (BitVec.ofNat 64 (leWord bytes.reverse))⟩

def getU32At (index value : Option (BitVec 64)) : Option IntegerRead := q.getIntAt mem 4 index value

def getU64At (index value : Option (BitVec 64)) : Option IntegerRead := q.getIntAt mem 8 index value

def getVariableInt (index value : Option (BitVec 64)) (isU64Integer : Bool) : Option IntegerRead :=
  if isU64Integer then q.getU64At mem index value else q.getU32At mem index value

end Property

namespace StringList

variable (mem : ℕ → Option UInt8)

/-- The loop from one iterator to another. Each is a pointer, and equal when the pointers are. -/
def piecesFrom (stop : ℕ) : ℕ → ℕ → Option (List StringView)
  | 0, _        => none
  | fuel + 1, p =>
    if p = stop then some []
    else do
      let piece ← StringView.ofString mem p
      let length ← strlen mem p
      let rest ← piecesFrom stop fuel (p + length + 1)
      return piece :: rest

def pieces (l : StringList) : Option (List StringView) :=
  piecesFrom mem (l.prop.data + l.prop.length) maxLength l.prop.data

end StringList

/-! ### Integers -/

variable {mem : ℕ → Option UInt8} {q : Property} {n : ℕ} {index value : Option (BitVec 64)}
  {r : IntegerRead}

/-- A failing read modifies nothing. -/
lemma Property.getIntAt_failed (h : q.getIntAt mem n index value = some r) (hr : r.success = false) :
    r.index = index ∧ r.value = value := by
  unfold getIntAt at h
  split at h
  · cases h
    exact ⟨rfl, rfl⟩
  · split at h
    · cases h
      exact ⟨rfl, rfl⟩
    · split at h
      · cases h
        cases hr
      · obtain ⟨bytes, -, rfl⟩ := Option.map_eq_some_iff.mp h
        cases hr

/-- The value of a property, somewhere in memory. -/
structure PropertyValue where
  name : StringView
  data : ℕ
  bytes : List UInt8
  length_lt : bytes.length < 2 ^ 64

namespace PropertyValue

variable (v : PropertyValue)

def property : Property := ⟨v.name, v.bytes.length, v.data⟩

/-- The memory with the bytes of the value only. -/
def memory : ℕ → Option UInt8 := segment v.data v.bytes

/-- The sum `*index + n` wraps and then looks small enough, and there is something to be stored. -/
def Wraps (n : ℕ) (index value : Option (BitVec 64)) : Prop :=
  ∃ i x, index = some i ∧ value = some x ∧
    2 ^ 64 ≤ i.toNat + n ∧ i.toNat + n - 2 ^ 64 ≤ v.bytes.length

variable {v}

@[simp] lemma property_length : v.property.length = v.bytes.length := rfl

@[simp] lemma property_data : v.property.data = v.data := rfl

@[simp] lemma memory_add (i : ℕ) : v.memory (v.data + i) = v.bytes[i]? := segment_add v.bytes v.data i

lemma reads : Reads v.memory v.data v.bytes := by
  have h := reads_segment_drop v.bytes v.data 0
  rwa [List.drop_zero, Nat.add_zero] at h

lemma readBytes_isSome_iff_le {i : ℕ} (hn : 0 < n) :
    (readBytes v.memory n (v.data + i)).isSome ↔ i + n ≤ v.bytes.length := by
  rw [readBytes_isSome_iff]
  have hmem : ∀ j, (v.memory (v.data + i + j)).isSome ↔ i + j < v.bytes.length := by
    intro j
    rw [Nat.add_assoc, memory_add, isSome_getElem?]
  constructor
  · intro h
    have hlast := (hmem (n - 1)).mp (h (n - 1) (Nat.sub_lt hn Nat.one_pos))
    omega
  · intro h j hj
    exact (hmem j).mpr (by omega)

/-- An integer read stays inside unless its bound check wraps. -/
lemma getIntAt_isSome_iff (hn : 0 < n) (hlt : n < 2 ^ 64) :
    (v.property.getIntAt v.memory n index value).isSome ↔ ¬v.Wraps n index value := by
  have hlength := v.length_lt
  cases index with
  | none => simp [Property.getIntAt, Wraps]
  | some i =>
    have hi := i.isLt
    have hsum : (i + BitVec.ofNat 64 n).toNat = (i.toNat + n) % 2 ^ 64 := by simp
    unfold Property.getIntAt
    dsimp only
    rw [hsum, property_length]
    cases value with
    | none =>
      refine iff_of_true ?_ (by simp [Wraps])
      split <;> rfl
    | some x =>
      have hwraps : v.Wraps n (some i) (some x) ↔
          2 ^ 64 ≤ i.toNat + n ∧ i.toNat + n - 2 ^ 64 ≤ v.bytes.length := by simp [Wraps]
      rw [hwraps]
      split
      · refine iff_of_true rfl ?_
        omega
      · rw [Option.isSome_map, property_data, readBytes_isSome_iff_le hn]
        omega

/-! ### The boot code's view of a property -/

variable (v) in
/-- The property as the parsers of `reg` and `ranges` see it. -/
def toBoot : Boot.Property := ⟨v.bytes.length, fun i => (v.bytes.getD i 0).toBitVec⟩

lemma readBe_toBoot {i n : ℕ} (h : i + n ≤ v.bytes.length) :
    v.toBoot.readBe i n = leWord ((v.bytes.drop i).take n).reverse := by
  induction n with
  | zero => rfl
  | succ n ih =>
    have hlt : n < (v.bytes.drop i).length := by
      rw [List.length_drop]
      omega
    have hi : i + n < v.bytes.length := by omega
    rw [Boot.Property.readBe] at ih ⊢
    rw [List.range_succ, List.foldl_append, ih (by omega), List.take_succ_eq_append_getElem hlt,
      List.reverse_append, List.reverse_singleton, List.singleton_append, leWord, List.getElem_drop,
      Nat.add_comm, Nat.mul_comm]
    simp only [toBoot, List.foldl_cons, List.foldl_nil, List.getD_eq_getElem _ _ hi]
    rfl

/-- Where no index comes near the end of the address space, both read the same integers. -/
lemma getVariableInt_eq (i x : BitVec 64) (isU64Integer : Bool) (hi : i.toNat + 8 < 2 ^ 64) :
    v.property.getVariableInt v.memory (some i) (some x) isU64Integer =
      some (match v.toBoot.getVariableInt i.toNat isU64Integer with
        | none               => ⟨false, some i, some x⟩
        | some (value, next) => ⟨true, some (BitVec.ofNat 64 next), some (BitVec.ofNat 64 value)⟩) := by
  have hread : ∀ n, n ≤ 8 → v.property.getIntAt v.memory n (some i) (some x) =
      if i.toNat + n > v.bytes.length then some ⟨false, some i, some x⟩
      else some ⟨true, some (BitVec.ofNat 64 (i.toNat + n)),
        some (BitVec.ofNat 64 (v.toBoot.readBe i.toNat n))⟩ := by
    intro n hn
    have hsum : (i + BitVec.ofNat 64 n).toNat = i.toNat + n := by
      rw [BitVec.toNat_add, BitVec.toNat_ofNat, Nat.mod_eq_of_lt (by omega : n < 2 ^ 64)]
      exact Nat.mod_eq_of_lt (by omega)
    have hnext : i + BitVec.ofNat 64 n = BitVec.ofNat 64 (i.toNat + n) := by
      rw [← hsum, BitVec.ofNat_toNat, BitVec.setWidth_eq]
    unfold Property.getIntAt
    dsimp only
    rw [hsum, property_length, property_data]
    split
    · rfl
    · have hle : i.toNat + n ≤ v.bytes.length := by omega
      have hbytes : readBytes v.memory n (v.data + i.toNat) = some ((v.bytes.drop i.toNat).take n) := by
        refine readBytes_eq_some_iff.mpr ⟨?_, ?_⟩
        · rw [List.length_take, List.length_drop]
          omega
        · have hdrop := reads_segment_drop v.bytes v.data i.toNat
          rw [← List.take_append_drop n (v.bytes.drop i.toNat)] at hdrop
          exact (reads_append.mp hdrop).1
      rw [hbytes, Option.map_some, readBe_toBoot hle, hnext]
  have hlength : v.toBoot.length = v.bytes.length := rfl
  cases isU64Integer with
  | false =>
    simp only [Property.getVariableInt, Property.getU32At, Boot.Property.getVariableInt,
      Boot.Property.getU32At, Bool.false_eq_true, if_false, hread 4 (by decide), hlength]
    by_cases h : i.toNat + 4 > v.bytes.length
    · rw [if_pos h, if_pos h]
    · rw [if_neg h, if_neg h]
  | true =>
    simp only [Property.getVariableInt, Property.getU64At, Boot.Property.getVariableInt,
      Boot.Property.getU64At, if_true, hread 8 (by decide), hlength]
    by_cases h : i.toNat + 8 > v.bytes.length
    · rw [if_pos h, if_pos h]
    · rw [if_neg h, if_neg h]

/-! ### Strings -/

variable {good : UInt8 → Bool}

lemma allOf_eq {n i : ℕ} (h : i + n ≤ v.bytes.length) :
    v.property.allOf v.memory good n i = some (((v.bytes.drop i).take n).all good) := by
  induction n generalizing i with
  | zero => rfl
  | succ n ih =>
    have hi : i < v.bytes.length := by omega
    rw [Property.allOf, property_data, memory_add, List.getElem?_eq_getElem hi,
      List.drop_eq_getElem_cons hi, List.take_succ_cons, List.all_cons, ih (by omega)]
    cases hc : good v.bytes[i] <;> simp [hc]

/-- A value of no bytes is read at its first byte. -/
lemma isStringOf_nil (h : v.bytes = []) : v.property.isStringOf v.memory good = none := by
  have hn : wsub v.property.length 1 = (2 ^ 64 - 2) + 1 := by
    rw [property_length, h]
    rfl
  have hbyte : v.memory (v.data + 0) = none := by rw [memory_add, h, List.getElem?_nil]
  rw [Property.isStringOf, hn, Property.allOf, property_data, hbyte]
  rfl

/-- The bytes before the last one are all good, and the last one is a NUL. -/
lemma isStringOf_eq (h : v.bytes ≠ []) : v.property.isStringOf v.memory good =
    some (v.bytes.dropLast.all good && v.bytes.getLast h = 0) := by
  have hpos := List.length_pos_of_ne_nil h
  have hn : wsub v.property.length 1 = v.bytes.length - 1 := wsub_of_le hpos v.length_lt
  have hall : v.property.allOf v.memory good (v.bytes.length - 1) 0 =
      some (((v.bytes.drop 0).take (v.bytes.length - 1)).all good) := allOf_eq (by omega)
  rw [List.drop_zero, ← List.dropLast_eq_take] at hall
  have hlast : v.memory (v.data + (v.bytes.length - 1)) = some (v.bytes.getLast h) := by
    rw [memory_add, ← List.getLast?_eq_getElem?, List.getLast?_eq_getLast_of_ne_nil h]
  rw [Property.isStringOf, hn, hall, property_data, hlast]
  cases v.bytes.dropLast.all good <;> simp

lemma isStringOf_isSome_iff : (v.property.isStringOf v.memory good).isSome ↔ v.bytes ≠ [] := by
  by_cases h : v.bytes = []
  · rw [isStringOf_nil h]
    simp [h]
  · rw [isStringOf_eq h]
    simp [h]

/-! ### Lists of strings -/

/-- A list of bytes whose last byte is a NUL is cut at its first NUL. -/
lemma exists_first_piece {l : List UInt8} (h : l ≠ []) (hlast : l.getLast? = some 0) :
    ∃ s rest, l = s ++ 0 :: rest ∧ 0 ∉ s ∧ (rest ≠ [] → rest.getLast? = some 0) := by
  have hmem : (0 : UInt8) ∈ l := List.mem_of_getLast? hlast
  obtain ⟨s, rest, rfl, hs⟩ := List.eq_append_cons_of_mem hmem
  refine ⟨s, rest, rfl, hs, fun hrest => ?_⟩
  rwa [List.getLast?_append_cons, List.getLast?_cons_of_ne_nil hrest] at hlast

variable {mem : ℕ → Option UInt8}

/-- The iterators go through the pieces, and meet the end after the last one. -/
lemma piecesFrom_spec {l : List UInt8} {fuel p : ℕ} (hl : Reads mem p l)
    (hlast : l ≠ [] → l.getLast? = some 0) (hfuel : l.length < fuel) (hmax : fuel ≤ maxLength) :
    ∃ pieces contents, StringList.piecesFrom mem (p + l.length) fuel p = some pieces ∧
      List.Forall₂ (StringView.Shows mem) pieces contents ∧ (∀ s ∈ contents, 0 ∉ s) ∧
      (contents.flatMap fun s => s ++ [0]) = l := by
  induction fuel generalizing l p with
  | zero => exact absurd hfuel (Nat.not_lt_zero _)
  | succ fuel ih =>
    rw [StringList.piecesFrom]
    by_cases hnil : l = []
    · subst hnil
      rw [List.length_nil, Nat.add_zero, if_pos rfl]
      exact ⟨[], [], rfl, .nil, by simp, rfl⟩
    · obtain ⟨s, rest, rfl, hs, hrest⟩ := exists_first_piece hnil (hlast hnil)
      have hlength : (s ++ 0 :: rest).length = s.length + 1 + rest.length := by
        rw [List.length_append, List.length_cons]
        omega
      rw [hlength] at hfuel ⊢
      have hstr : s.length < maxLength := by omega
      have hreads : Reads mem (p + s.length + 1) rest := (reads_cons.mp (reads_append.mp hl).2).2
      obtain ⟨pieces, contents, hpieces, hshows, hzero, hconcat⟩ :=
        ih hreads hrest (by omega) (by omega)
      have hstop : p + (s.length + 1 + rest.length) = p + s.length + 1 + rest.length := by omega
      rw [if_neg (by omega), StringView.ofString_eq hs hl hstr, strlen_eq hs hl hstr, hstop]
      refine ⟨⟨p, s.length⟩ :: pieces, s :: contents, ?_, .cons ⟨(reads_append.mp hl).1, rfl⟩ hshows,
        ?_, ?_⟩
      · simp [hpieces]
      · exact List.forall_mem_cons.mpr ⟨hs, hzero⟩
      · rw [List.flatMap_cons, hconcat, List.append_assoc]
        rfl

/-! ### Everything that reads a value -/

variable (v) in
/-- Only the bytes of the value are read, a list of strings is one, and a failing read of an integer
modifies nothing. -/
structure ReadInside (index value : Option (BitVec 64)) : Prop where
  isString : (v.property.isString v.memory).isSome
  isStringList : (v.property.isStringList v.memory).isSome
  getString : (v.property.getString v.memory).isSome
  getStringList : (v.property.getStringList v.memory).isSome
  pieces : ∀ l, v.property.getStringList v.memory = some (some l) → ∃ pieces contents,
    l.pieces v.memory = some pieces ∧ List.Forall₂ (StringView.Shows v.memory) pieces contents ∧
    (∀ s ∈ contents, 0 ∉ s) ∧ (contents.flatMap fun s => s ++ [0]) = v.bytes
  getU32At : ∃ r, v.property.getU32At v.memory index value = some r ∧
    (r.success = false → r.index = index ∧ r.value = value)
  getU64At : ∃ r, v.property.getU64At v.memory index value = some r ∧
    (r.success = false → r.index = index ∧ r.value = value)

lemma getStringList_eq (h : v.bytes ≠ []) {l : StringList}
    (hl : v.property.getStringList v.memory = some (some l)) :
    l = ⟨v.property⟩ ∧ v.bytes.getLast? = some 0 := by
  rw [Property.getStringList, Option.bind_eq_bind, Option.bind_eq_some_iff] at hl
  obtain ⟨success, hsuccess, hl⟩ := hl
  cases success with
  | false => cases hl
  | true =>
    rw [Property.isStringList, isStringOf_eq h, Option.some.injEq, Bool.and_eq_true] at hsuccess
    cases hl
    refine ⟨rfl, ?_⟩
    rw [List.getLast?_eq_getLast_of_ne_nil h, of_decide_eq_true hsuccess.2]

/-- A read that stays inside is done, and leaves everything when it fails. -/
lemma exists_getIntAt (hn : 0 < n) (hlt : n < 2 ^ 64) (h : ¬v.Wraps n index value) :
    ∃ r, v.property.getIntAt v.memory n index value = some r ∧
      (r.success = false → r.index = index ∧ r.value = value) := by
  obtain ⟨r, hr⟩ := Option.isSome_iff_exists.mp ((getIntAt_isSome_iff hn hlt).mpr h)
  exact ⟨r, hr, Property.getIntAt_failed hr⟩

theorem readInside_iff (v : PropertyValue) (index value : Option (BitVec 64)) :
    v.ReadInside index value ↔ v.bytes ≠ [] ∧ ¬v.Wraps 4 index value ∧ ¬v.Wraps 8 index value := by
  constructor
  · intro h
    obtain ⟨r₄, hr₄, -⟩ := h.getU32At
    obtain ⟨r₈, hr₈, -⟩ := h.getU64At
    refine ⟨isStringOf_isSome_iff.mp h.isString, ?_, ?_⟩
    · exact (getIntAt_isSome_iff (by decide) (by decide)).mp (Option.isSome_of_eq_some hr₄)
    · exact (getIntAt_isSome_iff (by decide) (by decide)).mp (Option.isSome_of_eq_some hr₈)
  · rintro ⟨hne, h₄, h₈⟩
    have hstring : (v.property.isString v.memory).isSome := isStringOf_isSome_iff.mpr hne
    have hlist : (v.property.isStringList v.memory).isSome := isStringOf_isSome_iff.mpr hne
    refine ⟨hstring, hlist, ?_, ?_, fun l hl => ?_, exists_getIntAt (by decide) (by decide) h₄,
      exists_getIntAt (by decide) (by decide) h₈⟩
    · obtain ⟨b, hb⟩ := Option.isSome_iff_exists.mp hstring
      rw [Property.getString, hb]
      rfl
    · obtain ⟨b, hb⟩ := Option.isSome_iff_exists.mp hlist
      rw [Property.getStringList, hb]
      rfl
    · obtain ⟨rfl, hlast⟩ := getStringList_eq hne hl
      exact piecesFrom_spec reads (fun _ => hlast) (by rw [maxLength]; exact v.length_lt) (Nat.le_refl _)

/-- The value of an empty property, as `interrupt-controller` has it, is not read inside. -/
theorem not_readInside_nil : ¬∀ (v : PropertyValue) (index value : Option (BitVec 64)),
    v.ReadInside index value := by
  intro h
  have hread := (h ⟨⟨0, 0⟩, 0, [], by decide⟩ none none).isString
  exact isStringOf_isSome_iff.mp hread rfl

end PropertyValue

end PiKachulm.DeviceTree

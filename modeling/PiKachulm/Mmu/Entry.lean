import PiKachulm.Libk.Utils
import PiKachulm.Core.Slot
import Mathlib.Tactic.IntervalCases

/-!
# Descriptors of the translation tables

The 64-bit entries of the page tables and the address arithmetic of `mmu_table.cpp`: what an
entry is, how attributes are packed into it, and which slot of the address space it covers.
-/

namespace PiKachulm

abbrev VirtualPA := BitVec 64

abbrev PhysicalPA := BitVec 64

def pageSize : BitVec 64 := 4096

def kernelBase : BitVec 64 := 0xffff000000000000

def processBase : BitVec 64 := 0x0000000000000000

def ttbrMask : BitVec 64 := 0xffff000000000000

namespace Mmu

open Libk Core

/-! ### Attributes -/

/-- The field is two bits wide; `reserved` is the value `0b01` that no enumerator of the source
names but that the cast in `decode_entry` can produce. -/
inductive Shareability where
  | nonShareable | reserved | outerShareable | innerShareable
  deriving DecidableEq, Repr

inductive ExecutionPermission where
  | allExecute | processExecute | privilegedExecute | neverExecute
  deriving DecidableEq, Repr

inductive ReadWritePermission where
  | readWrite | readOnly
  deriving DecidableEq, Repr

inductive Accessibility where
  | privileged | allProcess
  deriving DecidableEq, Repr

inductive MemoryType where
  | normal | deviceNGnRnE | deviceNGRE | normalNoCache
  deriving DecidableEq, Repr

structure PagesAttributes where
  sh : Shareability
  exec : ExecutionPermission
  rw : ReadWritePermission
  access : Accessibility
  type : MemoryType
  deriving DecidableEq, Repr

def Shareability.toBits : Shareability → BitVec 64
  | .nonShareable => 0b00
  | .reserved => 0b01
  | .outerShareable => 0b10
  | .innerShareable => 0b11

def Shareability.ofBits (x : BitVec 64) : Shareability :=
  if x = 0b00 then .nonShareable
  else if x = 0b01 then .reserved
  else if x = 0b10 then .outerShareable
  else .innerShareable

def ExecutionPermission.toBits : ExecutionPermission → BitVec 64
  | .allExecute => 0b00
  | .processExecute => 0b01
  | .privilegedExecute => 0b10
  | .neverExecute => 0b11

def ExecutionPermission.ofBits (x : BitVec 64) : ExecutionPermission :=
  if x = 0b00 then .allExecute
  else if x = 0b01 then .processExecute
  else if x = 0b10 then .privilegedExecute
  else .neverExecute

def ReadWritePermission.toBits : ReadWritePermission → BitVec 64
  | .readWrite => 0b0
  | .readOnly => 0b1

def ReadWritePermission.ofBits (x : BitVec 64) : ReadWritePermission :=
  if x = 0b0 then .readWrite else .readOnly

def Accessibility.toBits : Accessibility → BitVec 64
  | .privileged => 0b0
  | .allProcess => 0b1

def Accessibility.ofBits (x : BitVec 64) : Accessibility :=
  if x = 0b0 then .privileged else .allProcess

def MemoryType.toBits : MemoryType → BitVec 64
  | .normal => 0
  | .deviceNGnRnE => 1
  | .deviceNGRE => 2
  | .normalNoCache => 3

def MemoryType.ofBits (x : BitVec 64) : MemoryType :=
  if x = 0 then .normal
  else if x = 1 then .deviceNGnRnE
  else if x = 2 then .deviceNGRE
  else .normalNoCache

/-- `MMUTable::Kind`. -/
inductive Kind where
  | kernel | process
  deriving DecidableEq, Repr

/-! ### Entries -/

inductive EntryKind where
  | invalid | table | page | block
  deriving DecidableEq, Repr

def pageMarker : BitVec 64 := 0b11

def blockMarker : BitVec 64 := 0b01

def tableMarker : BitVec 64 := 0b11

def tableEntries : ℕ := 512

def getBaseAddress : Kind → BitVec 64
  | .kernel => kernelBase
  | .process => processBase

def checkVa (kind : Kind) (va : VirtualPA) : Bool :=
  va &&& ttbrMask = getBaseAddress kind ∧ va &&& maskBits 0 11 = 0

def getEntryKind (entry : BitVec 64) (level : ℕ) : EntryKind :=
  if entry &&& 0b1 = 0 then .invalid
  else if entry &&& 0b10 = 0 then .block
  else if level = 4 then .page
  else .table

def getTablePaFromEntry (entry : BitVec 64) : PhysicalPA := entry &&& maskBits 12 47

def getIndexInTable (va : VirtualPA) (level : ℕ) : ℕ :=
  ((va >>> (12 + 9 * (4 - level))) &&& maskBits 0 8).toNat

def getEntryVaFromTableIndex (tableVa : VirtualPA) (tableLevel entryIndex : ℕ) : VirtualPA :=
  tableVa + (BitVec.ofNat 64 entryIndex <<< (12 + 9 * (4 - tableLevel)))

/-- `none` when the `KASSERT` on the alignment of the table fails. Level `5` stands for the page
below an entry of level 4, where `9 * (4 - table_level)` is `-9` in the arithmetic of `size_t`. -/
def tableLastPage (tableFirstPageVa : VirtualPA) (tableLevel : ℕ) : Option VirtualPA :=
  if tableFirstPageVa &&& maskBits 0 (12 + 9 * 4 - 9 * tableLevel - 1) = 0 then
    some (tableFirstPageVa + maskBits 12 (12 + 9 * (4 + 1 - tableLevel) - 1))
  else none

/-- Of the table only its kind is read. -/
def encodeNewEntry (kind : Kind) (pa : PhysicalPA) (entryLevel : ℕ) (attr : PagesAttributes) :
    BitVec 64 :=
  let upperAttr := attr.exec.toBits <<< 53
  let nGFlag : BitVec 64 := if kind = .kernel then 0 else 1
  let lowerAttr := (attr.type.toBits <<< 2) ||| (attr.access.toBits <<< 6) |||
    (attr.rw.toBits <<< 7) ||| (attr.sh.toBits <<< 8) ||| ((1 : BitVec 64) <<< 10) |||
    (nGFlag <<< 11)
  let marker := if entryLevel = 4 then pageMarker else blockMarker
  upperAttr ||| (pa &&& maskBits 12 47) ||| lowerAttr ||| marker

def decodeEntry (entry : BitVec 64) : PhysicalPA × PagesAttributes :=
  (entry &&& maskBits 12 47,
    { exec := .ofBits ((entry >>> 53) &&& 0b11)
      sh := .ofBits ((entry >>> 8) &&& 0b11)
      rw := .ofBits ((entry >>> 7) &&& 0b1)
      access := .ofBits ((entry >>> 6) &&& 0b1)
      type := .ofBits ((entry >>> 2) &&& 0b11) })

/-! ### Decoding what was encoded -/

@[simp] lemma Shareability.ofBits_toBits (x : Shareability) : ofBits x.toBits = x := by
  cases x <;> rfl

@[simp] lemma ExecutionPermission.ofBits_toBits (x : ExecutionPermission) :
    ofBits x.toBits = x := by
  cases x <;> rfl

@[simp] lemma ReadWritePermission.ofBits_toBits (x : ReadWritePermission) :
    ofBits x.toBits = x := by
  cases x <;> rfl

@[simp] lemma Accessibility.ofBits_toBits (x : Accessibility) : ofBits x.toBits = x := by
  cases x <;> rfl

@[simp] lemma MemoryType.ofBits_toBits (x : MemoryType) : ofBits x.toBits = x := by
  cases x <;> rfl

/-- What `decode_entry` and `get_entry_kind` read of an entry. -/
def entryFields (x : BitVec 64) : List (BitVec 64) :=
  [x &&& maskBits 12 47, (x >>> 53) &&& 0b11, (x >>> 8) &&& 0b11, (x >>> 7) &&& 0b1,
    (x >>> 6) &&& 0b1, (x >>> 2) &&& 0b11, x &&& 0b1, x &&& 0b10]

lemma entryFields_or (x y : BitVec 64) :
    entryFields (x ||| y) = List.zipWith (· ||| ·) (entryFields x) (entryFields y) := by
  simp only [entryFields, List.zipWith, BitVec.ushiftRight_or_distrib,
    BitVec.and_or_distrib_right]

lemma entryFields_and (x y : BitVec 64) :
    entryFields (x &&& y) =
      List.zipWith (· &&& ·) [x, x >>> 53, x >>> 8, x >>> 7, x >>> 6, x >>> 2, x, x]
        (entryFields y) := by
  simp only [entryFields, List.zipWith, BitVec.ushiftRight_and_distrib, BitVec.and_assoc]

/-- The fields of an encoded entry do not overlap. -/
lemma entryFields_encodeNewEntry (kind : Kind) (pa : PhysicalPA) (level : ℕ)
    (attr : PagesAttributes) :
    entryFields (encodeNewEntry kind pa level attr) =
      [pa &&& maskBits 12 47, attr.exec.toBits, attr.sh.toBits, attr.rw.toBits,
        attr.access.toBits, attr.type.toBits, 0b1, if level = 4 then 0b10 else 0] := by
  obtain ⟨sh, exec, rw, access, type⟩ := attr
  have hexec : entryFields (exec.toBits <<< 53) = [0, exec.toBits, 0, 0, 0, 0, 0, 0] := by
    cases exec <;> decide
  have htype : entryFields (type.toBits <<< 2) = [0, 0, 0, 0, 0, type.toBits, 0, 0] := by
    cases type <;> decide
  have haccess : entryFields (access.toBits <<< 6) = [0, 0, 0, 0, access.toBits, 0, 0, 0] := by
    cases access <;> decide
  have hrw : entryFields (rw.toBits <<< 7) = [0, 0, 0, rw.toBits, 0, 0, 0, 0] := by
    cases rw <;> decide
  have hsh : entryFields (sh.toBits <<< 8) = [0, 0, sh.toBits, 0, 0, 0, 0, 0] := by
    cases sh <;> decide
  have haf : entryFields ((1 : BitVec 64) <<< 10) = [0, 0, 0, 0, 0, 0, 0, 0] := by decide
  have hnG : entryFields ((if kind = .kernel then (0 : BitVec 64) else 1) <<< 11) =
      [0, 0, 0, 0, 0, 0, 0, 0] := by
    cases kind <;> decide
  have hmarker : entryFields (if level = 4 then pageMarker else blockMarker) =
      [0, 0, 0, 0, 0, 0, 0b1, if level = 4 then 0b10 else 0] := by
    split <;> decide
  have hpa : entryFields (pa &&& maskBits 12 47) =
      [pa &&& maskBits 12 47, 0, 0, 0, 0, 0, 0, 0] := by
    have hmask : entryFields (maskBits 12 47) = [maskBits 12 47, 0, 0, 0, 0, 0, 0, 0] := by
      decide
    rw [entryFields_and, hmask]
    simp
  simp only [encodeNewEntry, entryFields_or, hexec, htype, haccess, hrw, hsh, haf, hnG, hmarker,
    hpa, List.zipWith]
  simp

/-- `decode_entry` gives back what `encode_new_entry` was given, the address cut to 48 bits. -/
lemma decodeEntry_encodeNewEntry (kind : Kind) (pa : PhysicalPA) (level : ℕ)
    (attr : PagesAttributes) :
    decodeEntry (encodeNewEntry kind pa level attr) = (pa &&& maskBits 12 47, attr) := by
  have h := entryFields_encodeNewEntry kind pa level attr
  simp only [entryFields, List.cons.injEq] at h
  obtain ⟨hpa, hexec, hsh, hrw, haccess, htype, -⟩ := h
  simp only [decodeEntry, hpa, hexec, hsh, hrw, haccess, htype,
    ExecutionPermission.ofBits_toBits, Shareability.ofBits_toBits,
    ReadWritePermission.ofBits_toBits, Accessibility.ofBits_toBits, MemoryType.ofBits_toBits]

lemma getEntryKind_encodeNewEntry (kind : Kind) (pa : PhysicalPA) (level : ℕ)
    (attr : PagesAttributes) :
    getEntryKind (encodeNewEntry kind pa level attr) level =
      if level = 4 then .page else .block := by
  have h := entryFields_encodeNewEntry kind pa level attr
  simp only [entryFields, List.cons.injEq] at h
  obtain ⟨-, -, -, -, -, -, hvalid, htable, -⟩ := h
  rw [getEntryKind, hvalid, htable]
  by_cases hl : level = 4 <;> simp [hl]

/-- The descriptor of a sub-table, for an address that a descriptor can hold. -/
lemma tableMarker_or {pa : PhysicalPA} (h : pa &&& maskBits 12 47 = pa) {level : ℕ}
    (hl : level ≠ 4) :
    getEntryKind (pa ||| tableMarker) level = .table ∧
      getTablePaFromEntry (pa ||| tableMarker) = pa := by
  have h₁ : pa &&& 0b1 = 0 := by
    rw [← h, BitVec.and_assoc]
    exact BitVec.and_zero
  have h₂ : pa &&& 0b10 = 0 := by
    rw [← h, BitVec.and_assoc]
    exact BitVec.and_zero
  constructor
  · rw [getEntryKind, BitVec.and_or_distrib_right, BitVec.and_or_distrib_right, h₁, h₂]
    simp [tableMarker, hl]
  · rw [getTablePaFromEntry, BitVec.and_or_distrib_right, h]
    exact BitVec.or_zero

/-! ### Page numbers

Addresses of pages are handled by page number: `pageAddr n` is the address of page `n`. A page
number has 52 bits, 36 of which fit into the output address of a descriptor. An entry of level
`4 - k` covers a slot of `512 ^ k` pages. -/

def pageAddr (n : ℕ) : BitVec 64 := BitVec.ofNat 64 (n * 4096)

/-- The page number held by a descriptor whose output address is `pa`. -/
def frameOf (pa : PhysicalPA) : ℕ := pa.toNat / 4096 % 2 ^ 36

lemma toNat_pageAddr (n : ℕ) : (pageAddr n).toNat = n % 2 ^ 52 * 4096 := by
  rw [pageAddr, BitVec.toNat_ofNat]
  omega

lemma toNat_pageAddr_of_lt {n : ℕ} (hn : n < 2 ^ 52) : (pageAddr n).toNat = n * 4096 := by
  rw [toNat_pageAddr, Nat.mod_eq_of_lt hn]

lemma toNat_and_mask_frame (pa : PhysicalPA) :
    (pa &&& maskBits 12 47).toNat = frameOf pa * 4096 := by
  exact toNat_and_maskBits pa (by norm_num) (by norm_num)

lemma frameOf_lt (pa : PhysicalPA) : frameOf pa < 2 ^ 36 := Nat.mod_lt _ (by norm_num)

@[simp] lemma frameOf_and_mask (pa : PhysicalPA) : frameOf (pa &&& maskBits 12 47) = frameOf pa := by
  have := frameOf_lt pa
  rw [frameOf, toNat_and_mask_frame]
  omega

lemma pageAddr_lt_pageAddr {a c : ℕ} (ha : a < 2 ^ 52) (hc : c < 2 ^ 52) :
    pageAddr a < pageAddr c ↔ a < c := by
  rw [BitVec.lt_def, toNat_pageAddr_of_lt ha, toNat_pageAddr_of_lt hc]
  omega

lemma pageAddr_le_pageAddr {a c : ℕ} (ha : a < 2 ^ 52) (hc : c < 2 ^ 52) :
    pageAddr a ≤ pageAddr c ↔ a ≤ c := by
  rw [BitVec.le_def, toNat_pageAddr_of_lt ha, toNat_pageAddr_of_lt hc]
  omega

lemma pageAddr_inj {a c : ℕ} (ha : a < 2 ^ 52) (hc : c < 2 ^ 52) :
    pageAddr a = pageAddr c ↔ a = c := by
  rw [← BitVec.toNat_inj, toNat_pageAddr_of_lt ha, toNat_pageAddr_of_lt hc]
  omega

lemma pageAddr_and_mask {n : ℕ} (hn : n < 2 ^ 36) : pageAddr n &&& maskBits 12 47 = pageAddr n := by
  have hn52 : n < 2 ^ 52 := hn.trans (by norm_num)
  apply BitVec.eq_of_toNat_eq
  rw [toNat_and_mask_frame, frameOf, toNat_pageAddr_of_lt hn52, Nat.mul_div_cancel _ (by norm_num),
    Nat.mod_eq_of_lt hn]

lemma pageAddr_sub_pageSize (n : ℕ) :
    pageAddr n - pageSize = pageAddr ((n + (2 ^ 52 - 1)) % 2 ^ 52) := by
  apply BitVec.eq_of_toNat_eq
  rw [BitVec.toNat_sub, toNat_pageAddr, toNat_pageAddr]
  have hsize : pageSize.toNat = 4096 := rfl
  omega

lemma pageAddr_add_pageSize (n : ℕ) : pageAddr n + pageSize = pageAddr ((n + 1) % 2 ^ 52) := by
  apply BitVec.eq_of_toNat_eq
  rw [BitVec.toNat_add, toNat_pageAddr, toNat_pageAddr]
  have hsize : pageSize.toNat = 4096 := rfl
  omega

/-- The page that linear mapping at `pa` from page `v` gives to page `e`. -/
lemma frameOf_add_sub (pa : PhysicalPA) (e : ℕ) {v : ℕ} (hv : v < 2 ^ 52) :
    frameOf (pa + (pageAddr e - pageAddr v)) =
      (e + (pa.toNat / 4096 + 2 ^ 52 - v) % 2 ^ 36) % 2 ^ 36 := by
  rw [frameOf, BitVec.toNat_add, BitVec.toNat_sub, toNat_pageAddr_of_lt hv, toNat_pageAddr]
  omega

/-! ### Slots of the address space -/

lemma getIndexInTable_pageAddr {k n : ℕ} (hk : k ≤ 3) (hn : n < 2 ^ 52) :
    getIndexInTable (pageAddr n) (4 - k) = slot 512 k n % 512 := by
  rw [getIndexInTable, toNat_and_maskBits _ (by norm_num) (by norm_num),
    BitVec.toNat_ushiftRight, toNat_pageAddr_of_lt hn, Nat.shiftRight_eq_div_pow, slot]
  interval_cases k <;> norm_num <;> omega

lemma getEntryVaFromTableIndex_pageAddr {k N i : ℕ} (hk : k ≤ 3) :
    getEntryVaFromTableIndex (pageAddr (lo 512 (k + 1) N)) (4 - k) i =
      pageAddr (lo 512 k (N * 512 + i)) := by
  apply BitVec.eq_of_toNat_eq
  rw [getEntryVaFromTableIndex, BitVec.toNat_add, BitVec.toNat_shiftLeft, toNat_pageAddr,
    toNat_pageAddr, Nat.shiftLeft_eq, BitVec.toNat_ofNat, lo, lo]
  interval_cases k <;> norm_num <;> omega

/-- The last page of the slot that a table covers; `j = 0` is the page below a level 4 entry. -/
lemma tableLastPage_pageAddr {j n : ℕ} (hj : j ≤ 4) (hn : hi 512 j n < 2 ^ 52) :
    tableLastPage (pageAddr (lo 512 j n)) (5 - j) = some (pageAddr (hi 512 j n)) := by
  have hlo : lo 512 j n < 2 ^ 52 := lt_of_le_of_lt lo_le_hi hn
  have hmask : (maskBits 12 (12 + 9 * (4 + 1 - (5 - j)) - 1)).toNat = (512 ^ j - 1) * 4096 := by
    interval_cases j <;> decide
  have hal : pageAddr (lo 512 j n) &&& maskBits 0 (12 + 9 * 4 - 9 * (5 - j) - 1) = 0 := by
    apply BitVec.eq_of_toNat_eq
    rw [toNat_and_maskBits _ (by omega) (by omega), toNat_pageAddr_of_lt hlo, lo,
      show (0 : BitVec 64).toNat = 0 from rfl]
    interval_cases j <;> norm_num <;> omega
  rw [tableLastPage, if_pos hal]
  congr 1
  apply BitVec.eq_of_toNat_eq
  rw [BitVec.toNat_add, hmask, toNat_pageAddr_of_lt hlo, toNat_pageAddr_of_lt hn]
  simp only [hi, lo] at *
  omega

/-- The pages of a user or kernel address space. -/
def basePage : Kind → ℕ
  | .kernel => 2 ^ 52 - 2 ^ 36
  | .process => 0

lemma getBaseAddress_eq (kind : Kind) : getBaseAddress kind = pageAddr (basePage kind) := by
  cases kind <;> decide

/-- `check_va` accepts the addresses of the pages of the address space. -/
lemma checkVa_iff (kind : Kind) (va : VirtualPA) :
    checkVa kind va = true ↔
      ∃ n, va = pageAddr n ∧ basePage kind ≤ n ∧ n < basePage kind + 2 ^ 36 := by
  have htop : (va &&& ttbrMask).toNat = va.toNat / 2 ^ 48 % 2 ^ 16 * 2 ^ 48 := by
    rw [BitVec.toNat_and, show ttbrMask.toNat = (2 ^ 16 - 1) <<< 48 from rfl, nat_and_mask]
  have hlow : (va &&& maskBits 0 11).toNat = va.toNat % 4096 := by
    rw [toNat_and_maskBits va (by norm_num) (by norm_num)]
    norm_num
  have hva := va.isLt
  have hbase : (getBaseAddress kind).toNat = basePage kind * 4096 := by cases kind <;> rfl
  have hpage : basePage kind = 0 ∨ basePage kind = 2 ^ 52 - 2 ^ 36 := by
    cases kind <;> simp [basePage]
  simp only [checkVa, decide_eq_true_eq, ← BitVec.toNat_inj, htop, hlow, hbase,
    show (0 : BitVec 64).toNat = 0 from rfl]
  constructor
  · rintro ⟨h₁, h₂⟩
    refine ⟨va.toNat / 4096, ?_, ?_, ?_⟩
    · rw [toNat_pageAddr]
      omega
    · omega
    · omega
  · rintro ⟨n, hn, h₁, h₂⟩
    rw [toNat_pageAddr] at hn
    omega

end Mmu

end PiKachulm

import PiKachulm.Core.Loop
import PiKachulm.Core.Radix
import PiKachulm.Mmu.Table
import Mathlib.Data.List.Range

/-!
# Page tables as trees

The operations of `mmu_table.cpp` on radix trees, by page number. An entry of height `k` is an
entry of a table of level `4 - k`; tables are threaded together with the history of the calls to
the page allocator. The descriptors of memory are related to these trees in `Mmu.Rep`.
-/

namespace PiKachulm.Mmu

open Core

/-- What a leaf maps its slot to: the first physical page and the attributes. -/
structure Mapping where
  frame : ℕ
  attr : PagesAttributes
  deriving DecidableEq, Repr

abbrev PageTree := Node VirtualPA Mapping

abbrev Table := Entries VirtualPA Mapping

/-- Blocks have height 1 or 2, and a frame is what a descriptor can hold. -/
def LeafOk (k : ℕ) (m : Mapping) : Prop := k ≤ 2 ∧ m.frame < 2 ^ 36

def prevPage (p : ℕ) : ℕ := (p + (2 ^ 52 - 1)) % 2 ^ 52

def nextPage (p : ℕ) : ℕ := (p + 1) % 2 ^ 52

/-- The first and last page of the slot of height `k` that contains `p`. -/
def firstPage (k p : ℕ) : ℕ := lo 512 k (slot 512 k p)

def lastPage (k p : ℕ) : ℕ := hi 512 k (slot 512 k p)

/-- The displacement, modulo `2 ^ 36`, of a linear mapping that starts at page `first`. -/
def displacement (frame first : ℕ) : ℕ := (frame + 2 ^ 52 - first) % 2 ^ 36

/-! ### Walking over the entries of a table -/

/-- The indices of the entries of table `N` that meet the pages from `vs` to `ve`. -/
def touched (k N vs ve : ℕ) : List ℕ :=
  List.range' (max (slot 512 k vs) (N * 512) - N * 512)
    (min (slot 512 k ve + 1) ((N + 1) * 512) - max (slot 512 k vs) (N * 512))

/-- Run `op` on the entries of table `N` that meet the pages from `vs` to `ve`; the entries have
height `k`, and `op` is given the number of the slot of the entry. -/
def onTable (k N vs ve : ℕ)
    (op : ℕ → PageTree × History VirtualPA → Option (PageTree × History VirtualPA))
    (x : Table × History VirtualPA) : Option (Table × History VirtualPA) :=
  if ve < vs then some x else updateCells (fun i => op (N * 512 + i)) (touched k N vs ve) x

/-! ### Mapping -/

/-- `map_range_in_table` on one entry: map the pages of slot `n` that lie between `vs` and `ve`
to themselves displaced by `δ`. -/
def mapEntry (alloc : AllocFun) : ℕ → ℕ → ℕ → ℕ → ℕ → PagesAttributes →
    PageTree × History VirtualPA → Option (PageTree × History VirtualPA)
  | 0, n, _, _, δ, attr, (_, h) => some (.leaf ⟨(n + δ) % 2 ^ 36, attr⟩, h)
  | k + 1, n, vs, ve, δ, attr, (.table q sub, h) =>
    (onTable k n vs ve (fun c => mapEntry alloc k c vs ve δ attr) (sub, h)).map
      fun x => (.table q x.1, x.2)
  | k + 1, n, vs, ve, δ, attr, (.empty, h) =>
    if vs ≤ lo 512 (k + 1) n ∧ hi 512 (k + 1) n ≤ ve ∧ k + 1 ≤ 2 then
      some (.leaf ⟨(lo 512 (k + 1) n + δ) % 2 ^ 36, attr⟩, h)
    else (alloc h).bind fun q =>
      (onTable k n vs ve (fun c => mapEntry alloc k c vs ve δ attr) (.empty, .alloc q :: h)).map
        fun x => (.table q x.1, x.2)
  | k + 1, n, vs, ve, δ, attr, (.leaf m, h) =>
    if vs ≤ lo 512 (k + 1) n ∧ hi 512 (k + 1) n ≤ ve ∧ k + 1 ≤ 2 then
      some (.leaf ⟨(lo 512 (k + 1) n + δ) % 2 ^ 36, attr⟩, h)
    else (alloc h).bind fun q =>
      let old := displacement m.frame (lo 512 (k + 1) n)
      ((onTable k n vs ve (fun c => mapEntry alloc k c vs ve δ attr)
          (.empty, .alloc q :: h)).bind fun x =>
        (onTable k n (lo 512 (k + 1) n) (prevPage vs)
          (fun c => mapEntry alloc k c (lo 512 (k + 1) n) (prevPage vs) old m.attr) x).bind fun y =>
        onTable k n (nextPage ve) (hi 512 (k + 1) n)
          (fun c => mapEntry alloc k c (nextPage ve) (hi 512 (k + 1) n) old m.attr) y).map
        fun x => (.table q x.1, x.2)

/-- `map_range_in_table` on table `N`, whose entries have height `k`. -/
def mapTable (alloc : AllocFun) (k N vs ve δ : ℕ) (attr : PagesAttributes) :
    Table × History VirtualPA → Option (Table × History VirtualPA) :=
  onTable k N vs ve fun c => mapEntry alloc k c vs ve δ attr

/-- Map again what a block covered before and after the pages from `vs` to `ve`. -/
def remapAround (alloc : AllocFun) (k n vs ve stop : ℕ) (m : Mapping)
    (x : Table × History VirtualPA) : Option (Table × History VirtualPA) :=
  let old := displacement m.frame (lo 512 (k + 1) n)
  (mapTable alloc k n (lo 512 (k + 1) n) (prevPage vs) old m.attr x).bind
    (mapTable alloc k n (nextPage ve) stop old m.attr)

section

variable {alloc : AllocFun} {k n vs ve δ : ℕ} {attr : PagesAttributes} {q : VirtualPA}
  {sub : Table} {m : Mapping} {e : PageTree} {h : History VirtualPA}

@[simp] lemma mapEntry_zero :
    mapEntry alloc 0 n vs ve δ attr (e, h) = some (.leaf ⟨(n + δ) % 2 ^ 36, attr⟩, h) := by
  cases e <;> rfl

lemma mapEntry_table :
    mapEntry alloc (k + 1) n vs ve δ attr (.table q sub, h) =
      (mapTable alloc k n vs ve δ attr (sub, h)).map fun x => (.table q x.1, x.2) := rfl

lemma mapEntry_empty :
    mapEntry alloc (k + 1) n vs ve δ attr (.empty, h) =
      if vs ≤ lo 512 (k + 1) n ∧ hi 512 (k + 1) n ≤ ve ∧ k + 1 ≤ 2 then
        some (.leaf ⟨(lo 512 (k + 1) n + δ) % 2 ^ 36, attr⟩, h)
      else (alloc h).bind fun q =>
        (mapTable alloc k n vs ve δ attr (.empty, .alloc q :: h)).map
          fun x => (.table q x.1, x.2) := rfl

lemma mapEntry_leaf :
    mapEntry alloc (k + 1) n vs ve δ attr (.leaf m, h) =
      if vs ≤ lo 512 (k + 1) n ∧ hi 512 (k + 1) n ≤ ve ∧ k + 1 ≤ 2 then
        some (.leaf ⟨(lo 512 (k + 1) n + δ) % 2 ^ 36, attr⟩, h)
      else (alloc h).bind fun q =>
        ((mapTable alloc k n vs ve δ attr (.empty, .alloc q :: h)).bind
          (remapAround alloc k n vs ve (hi 512 (k + 1) n) m)).map
            fun x => (.table q x.1, x.2) := rfl

end

/-! ### Unmapping -/

/-- The last page of the first entry of the table that holds entry `n`: what
`unmap_range_in_table` and `change_properties_for_range` take for the last page of entry `n`. -/
def entryVaStop (k n : ℕ) : ℕ := hi 512 k (n / 512 * 512)

/-- `unmap_range_in_table` on one entry. -/
def unmapEntry (alloc : AllocFun) : ℕ → ℕ → ℕ → ℕ →
    PageTree × History VirtualPA → Option (PageTree × History VirtualPA)
  | 0, _, _, _, (_, h) => some (.empty, h)
  | _ + 1, _, _, _, (.empty, h) => some (.empty, h)
  | k + 1, n, vs, ve, (.leaf m, h) =>
    if vs ≤ lo 512 (k + 1) n ∧ entryVaStop (k + 1) n ≤ ve then some (.empty, h)
    else (alloc h).bind fun q =>
      (remapAround alloc k n vs ve (entryVaStop (k + 1) n) m (.empty, .alloc q :: h)).map
        fun x => (.table q x.1, x.2)
  | k + 1, n, vs, ve, (.table q sub, h) =>
    (onTable k n vs ve (fun c => unmapEntry alloc k c vs ve) (sub, h)).map fun x =>
      if vs ≤ lo 512 (k + 1) n ∧ entryVaStop (k + 1) n ≤ ve then (.empty, .free q :: x.2)
      else (.table q x.1, x.2)

/-- `unmap_range_in_table` on table `N`, whose entries have height `k`. -/
def unmapTable (alloc : AllocFun) (k N vs ve : ℕ) :
    Table × History VirtualPA → Option (Table × History VirtualPA) :=
  onTable k N vs ve fun c => unmapEntry alloc k c vs ve

/-! ### Changing attributes -/

/-- Map again what a block covered, with attributes `attr` between the pages `vs` and `ve`. -/
def recolorAround (alloc : AllocFun) (k n vs ve stop : ℕ) (m : Mapping) (attr : PagesAttributes)
    (x : Table × History VirtualPA) : Option (Table × History VirtualPA) :=
  let old := displacement m.frame (lo 512 (k + 1) n)
  (mapTable alloc k n (lo 512 (k + 1) n) (prevPage vs) old m.attr x).bind fun y =>
    (mapTable alloc k n vs ve old attr y).bind (mapTable alloc k n (nextPage ve) stop old m.attr)

/-- `change_properties_for_range` on one entry. -/
def changeEntry (alloc : AllocFun) : ℕ → ℕ → ℕ → ℕ → PagesAttributes →
    PageTree × History VirtualPA → Option (PageTree × History VirtualPA)
  | _, _, _, _, _, (.empty, h) => some (.empty, h)
  | 0, _, _, _, attr, (.leaf m, h) => some (.leaf { m with attr }, h)
  | 0, _, _, _, _, (.table q sub, h) => some (.table q sub, h)
  | k + 1, n, vs, ve, attr, (.leaf m, h) =>
    if vs ≤ lo 512 (k + 1) n ∧ entryVaStop (k + 1) n ≤ ve then some (.leaf { m with attr }, h)
    else (alloc h).bind fun q =>
      (recolorAround alloc k n vs ve (entryVaStop (k + 1) n) m attr (.empty, .alloc q :: h)).map
        fun x => (.table q x.1, x.2)
  | k + 1, n, vs, ve, attr, (.table q sub, h) =>
    (onTable k n vs ve (fun c => changeEntry alloc k c vs ve attr) (sub, h)).map
      fun x => (.table q x.1, x.2)

/-- `change_properties_for_range` on table `N`, whose entries have height `k`. -/
def changeTable (alloc : AllocFun) (k N vs ve : ℕ) (attr : PagesAttributes) :
    Table × History VirtualPA → Option (Table × History VirtualPA) :=
  onTable k N vs ve fun c => changeEntry alloc k c vs ve attr

/-- `change_attr_va`: rewrite the attributes of the leaf found for page `p`. -/
def setAttr (attr : PagesAttributes) : ℕ → PageTree → ℕ → PageTree
  | _, .empty, _ => .empty
  | _, .leaf m, _ => .leaf { m with attr }
  | 0, .table q sub, _ => .table q sub
  | k + 1, .table q sub, p =>
    .table q (Function.update sub (slot 512 k p % 512) (setAttr attr k (sub (slot 512 k p % 512)) p))

/-- `change_attr_va` on a table whose entries have height `k`. -/
def setAttrInTable (attr : PagesAttributes) (k : ℕ) (t : Table) (p : ℕ) : Table :=
  Function.update t (slot 512 k p % 512) (setAttr attr k (t (slot 512 k p % 512)) p)

/-! ### Clearing -/

/-- `clear_table` on one entry: empty it, and give back the tables below it. -/
def clearEntry : ℕ → PageTree × History VirtualPA → Option (PageTree × History VirtualPA)
  | k + 1, (.table q sub, h) =>
    (updateCells (fun _ => clearEntry k) (List.range 512) (sub, h)).map
      fun x => (.empty, .free q :: x.2)
  | _, (_, h) => some (.empty, h)

def clearEntries (k : ℕ) : Table × History VirtualPA → Option (Table × History VirtualPA) :=
  updateCells (fun _ => clearEntry k) (List.range 512)

end PiKachulm.Mmu

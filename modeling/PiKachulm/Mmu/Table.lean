import PiKachulm.Core.History
import PiKachulm.Mmu.Entry

/-!
# Translation tables in memory

The tables of `mmu_table.cpp` are pages of 64-bit words; the functions that an `MMUTable` is given
to obtain, give back and resolve pages are parameters. A computation that fails returns `none`:
a `KASSERT`, a call through a null pointer, or a failure inside one of these functions. Barriers
and TLB maintenance leave no trace in this model.
-/

namespace PiKachulm

namespace Libk

/-- `libk::min`. -/
protected def min (a c : BitVec 64) : BitVec 64 := if a < c then a else c

/-- `libk::max`. -/
protected def max (a c : BitVec 64) : BitVec 64 := if a < c then c else a

end Libk

namespace Mmu

open Libk Core

/-- The pages an allocator hands out, as a function of the calls made to it so far; `none` when it
fails internally. -/
abbrev AllocFun := History VirtualPA → Option VirtualPA

/-- `MMUTable`. The function pointers may be null. What `free` does with a page is no concern of
the tables, and only whether it is set is kept here. -/
structure MMUTable where
  kind : Kind
  pgd : VirtualPA
  alloc : Option AllocFun
  free : Bool
  resolvePa : Option (PhysicalPA → VirtualPA)
  resolveVa : Option (VirtualPA → PhysicalPA)

/-- The words of the tables, by the virtual address of the table and index, and the calls made to
`alloc` and `free`. -/
structure State where
  mem : VirtualPA → ℕ → BitVec 64
  history : History VirtualPA

/-- `table[index] = entry`. -/
def State.write (s : State) (table : VirtualPA) (index : ℕ) (entry : BitVec 64) : State :=
  { s with mem := Function.update s.mem table (Function.update (s.mem table) index entry) }

/-- The page comes zeroed. -/
def State.obtain (s : State) (page : VirtualPA) : State where
  mem := Function.update s.mem page fun _ => 0
  history := .alloc page :: s.history

def State.release (s : State) (page : VirtualPA) : State :=
  { s with history := .free page :: s.history }

namespace MMUTable

variable (tbl : MMUTable)

/-- `tbl->alloc(tbl->handle)`. -/
def callAlloc (s : State) : Option (VirtualPA × State) := do
  let alloc ← tbl.alloc
  let page ← alloc s.history
  pure (page, s.obtain page)

/-- `tbl->free(tbl->handle, page)`. -/
def callFree (page : VirtualPA) (s : State) : Option State :=
  if tbl.free then some (s.release page) else none

/-- `tbl->resolve_pa(tbl->handle, pa)`. -/
def callResolvePa (pa : PhysicalPA) : Option VirtualPA := tbl.resolvePa.map fun f => f pa

/-- `tbl->resolve_va(tbl->handle, va)`. -/
def callResolveVa (va : VirtualPA) : Option PhysicalPA := tbl.resolveVa.map fun f => f va

end MMUTable

/-! ### Looking up an address -/

/-- `find_entry_in_table`: the table, index and level of the leaf for `entryVa`, where
`tbl->resolve_pa` is set. The recursion stops at level 4, where no entry is a table; `fuel` is the
number of levels that are left. -/
def findEntryInTable (tbl : MMUTable) (s : State) :
    ℕ → VirtualPA → ℕ → VirtualPA → Option (VirtualPA × ℕ × ℕ)
  | 0, _, _, _ => none
  | fuel + 1, curTbl, curLvl, entryVa =>
    let curIndex := getIndexInTable entryVa curLvl
    let curEntry := s.mem curTbl curIndex
    match getEntryKind curEntry curLvl with
    | .invalid => none
    | .table =>
      match tbl.callResolvePa (getTablePaFromEntry curEntry) with
      | none => none
      | some subTable =>
        if subTable = 0 then none else findEntryInTable tbl s fuel subTable (curLvl + 1) entryVa
    | .page | .block => some (curTbl, curIndex, curLvl)

/-- What `get_attr` and `change_attr_va` check before they look up an address. -/
def canLookUp (tbl : MMUTable) (va : VirtualPA) : Bool :=
  tbl.pgd ≠ 0 ∧ tbl.resolvePa.isSome ∧ checkVa tbl.kind va

def getAttr (tbl : Option MMUTable) (va : VirtualPA) (s : State) : Option PagesAttributes := do
  let tbl ← tbl
  if canLookUp tbl va then
    let (table, index, _) ← findEntryInTable tbl s 4 tbl.pgd 1 va
    pure (decodeEntry (s.mem table index)).2
  else none

def changeAttrVa (tbl : Option MMUTable) (va : VirtualPA) (attr : PagesAttributes) (s : State) :
    Bool × State :=
  match tbl with
  | none => (false, s)
  | some tbl =>
    if canLookUp tbl va then
      match findEntryInTable tbl s 4 tbl.pgd 1 va with
      | none => (false, s)
      | some (table, index, level) =>
        let oldPa := (decodeEntry (s.mem table index)).1
        let newEntry := encodeNewEntry tbl.kind oldPa level attr
        (true, (s.write table index 0).write table index newEntry)
    else (false, s)

end Mmu

end PiKachulm

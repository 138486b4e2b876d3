import PiKachulm.Mmu.Table
import Mathlib.Data.List.Range

/-!
# The operations on ranges of addresses

`map_range`, `unmap_range`, `change_attr_range` and `clear_all`, as `mmu_table.cpp` computes them
on the words of the tables. All bounds are inclusive, and addresses wrap around at 64 bits. The
recursions stop at level 4; `fuel` is the number of levels that are left.
-/

namespace PiKachulm.Mmu

open Libk Core

/-- The beginning that `map_range_in_table`, `unmap_range_in_table` and
`change_properties_for_range` share: run `body` on the index and first address of each entry of a
table that meets the addresses from `vaStart` to `vaEnd`. -/
def forEntries (vaStart vaEnd : VirtualPA) (tableLevel : ℕ) (tableFirstPageVa : VirtualPA)
    (body : ℕ → VirtualPA → State → Option State) (s : State) : Option State := do
  let tableLastPageVa ← tableLastPage tableFirstPageVa tableLevel
  if vaEnd < tableFirstPageVa ∨ vaStart > tableLastPageVa ∨ vaStart > vaEnd then
    pure s
  else
    let interStartVa := Libk.max vaStart tableFirstPageVa
    let interEndVa := Libk.min vaEnd tableLastPageVa
    let interStartIndex := getIndexInTable interStartVa tableLevel
    let interEndIndex := getIndexInTable interEndVa tableLevel
    (List.range' interStartIndex (interEndIndex + 1 - interStartIndex)).foldlM
      (fun s index => body index (getEntryVaFromTableIndex tableFirstPageVa tableLevel index) s) s

/-! ### Mapping -/

/-- `map_range_in_table`. -/
def mapRangeInTable (tbl : MMUTable) : ℕ → VirtualPA → VirtualPA → PhysicalPA → PagesAttributes →
    VirtualPA → ℕ → VirtualPA → State → Option State
  | 0, _, _, _, _, _, _, _, _ => none
  | fuel + 1, vaStart, vaEnd, paStart, attr, table, tableLevel, tableFirstPageVa, s =>
    forEntries vaStart vaEnd tableLevel tableFirstPageVa (fun index entryVaStart s =>
      let entry := s.mem table index
      let entryKind := getEntryKind entry tableLevel
      if entryKind = .table then do
        let subTable ← tbl.callResolvePa (getTablePaFromEntry entry)
        mapRangeInTable tbl fuel vaStart vaEnd paStart attr subTable (tableLevel + 1) entryVaStart s
      else do
        let entryVaStop ← tableLastPage entryVaStart (tableLevel + 1)
        if tableLevel = 4 ∨ (vaStart ≤ entryVaStart ∧ entryVaStop ≤ vaEnd ∧ tableLevel ≥ 2) then
          -- map with a block or a page
          let offset := entryVaStart - vaStart
          let entryPa := paStart + offset
          let newEntry := encodeNewEntry tbl.kind entryPa tableLevel attr
          let s := if entryKind ≠ .invalid then s.write table index 0 else s
          pure (s.write table index newEntry)
        else
          -- map with a table
          let (oldPa, oldAttr) := decodeEntry entry
          let s := if entryKind = .block then s.write table index 0 else s
          let (newTable, s) ← tbl.callAlloc s
          let newTablePa ← tbl.callResolveVa newTable
          let s := s.write table index (newTablePa ||| tableMarker)
          let s ← mapRangeInTable tbl fuel vaStart vaEnd paStart attr newTable (tableLevel + 1)
            entryVaStart s
          if entryKind = .block then
            -- remap the untouched regions
            let s ← mapRangeInTable tbl fuel entryVaStart (vaStart - pageSize) oldPa oldAttr newTable
              (tableLevel + 1) entryVaStart s
            let paOffset := vaEnd + pageSize - entryVaStart
            mapRangeInTable tbl fuel (vaEnd + pageSize) entryVaStop (oldPa + paOffset) oldAttr
              newTable (tableLevel + 1) entryVaStart s
          else pure s) s

/-- `map_range`. -/
def mapRange (tbl : Option MMUTable) (vaStart vaEnd : VirtualPA) (paStart : PhysicalPA)
    (attr : PagesAttributes) (s : State) : Option (Bool × State) :=
  match tbl with
  | none => some (false, s)
  | some tbl =>
    if tbl.alloc.isNone || tbl.resolveVa.isNone || tbl.resolvePa.isNone || tbl.pgd = 0 ||
        !checkVa tbl.kind vaStart || !checkVa tbl.kind vaEnd then
      some (false, s)
    else do
      let s ← mapRangeInTable tbl 4 vaStart vaEnd paStart attr tbl.pgd 1 (getBaseAddress tbl.kind) s
      pure (true, s)

/-! ### Unmapping -/

/-- `unmap_range_in_table`. -/
def unmapRangeInTable (tbl : MMUTable) : ℕ → VirtualPA → VirtualPA → VirtualPA → ℕ → VirtualPA →
    State → Option State
  | 0, _, _, _, _, _, _ => none
  | fuel + 1, vaStart, vaEnd, table, tableLevel, tableFirstPageVa, s =>
    forEntries vaStart vaEnd tableLevel tableFirstPageVa (fun index entryVaStart s =>
      let entry := s.mem table index
      match getEntryKind entry tableLevel with
      | .invalid => pure s
      | .block => do
        let entryVaStop ← tableLastPage tableFirstPageVa (tableLevel + 1)
        if vaStart ≤ entryVaStart ∧ entryVaStop ≤ vaEnd then
          pure (s.write table index 0)
        else
          let (entryPa, entryAttr) := decodeEntry entry
          let (newTable, s) ← tbl.callAlloc s
          let newTablePa ← tbl.callResolveVa newTable
          let s := s.write table index 0
          let s := s.write table index (newTablePa ||| tableMarker)
          let s ← mapRangeInTable tbl fuel entryVaStart (vaStart - pageSize) entryPa entryAttr
            newTable (tableLevel + 1) entryVaStart s
          let paOffset := vaEnd + pageSize - entryVaStart
          mapRangeInTable tbl fuel (vaEnd + pageSize) entryVaStop (entryPa + paOffset) entryAttr
            newTable (tableLevel + 1) entryVaStart s
      | .page => pure (s.write table index 0)
      | .table => do
        let entryVaStop ← tableLastPage tableFirstPageVa (tableLevel + 1)
        let subTableVa ← tbl.callResolvePa (getTablePaFromEntry entry)
        let s ← unmapRangeInTable tbl fuel vaStart vaEnd subTableVa (tableLevel + 1) entryVaStart s
        if vaStart ≤ entryVaStart ∧ entryVaStop ≤ vaEnd then
          let s ← tbl.callFree subTableVa s
          pure (s.write table index 0)
        else pure s) s

/-- `unmap_range`. -/
def unmapRange (tbl : Option MMUTable) (vaStart vaEnd : VirtualPA) (s : State) :
    Option (Bool × State) :=
  match tbl with
  | none => some (false, s)
  | some tbl =>
    if tbl.alloc.isNone || !tbl.free || tbl.resolveVa.isNone || tbl.resolvePa.isNone ||
        tbl.pgd = 0 || !checkVa tbl.kind vaStart || !checkVa tbl.kind vaEnd then
      some (false, s)
    else do
      let s ← unmapRangeInTable tbl 4 vaStart vaEnd tbl.pgd 1 (getBaseAddress tbl.kind) s
      pure (true, s)

/-! ### Clearing -/

/-- `clear_table`. The address of the table only serves to compute those of its sub-tables. -/
def clearTable (tbl : MMUTable) : ℕ → VirtualPA → ℕ → VirtualPA → State → Option State
  | 0, _, _, _, _ => none
  | fuel + 1, table, tableLevel, tableVa, s =>
    (List.range tableEntries).foldlM (fun s i =>
      let entry := s.mem table i
      let entryVa := getEntryVaFromTableIndex tableVa tableLevel i
      let s := s.write table i 0
      match getEntryKind entry tableLevel with
      | .invalid => pure s
      | .table => do
        let subTable ← tbl.callResolvePa (getTablePaFromEntry entry)
        let s ← clearTable tbl fuel subTable (tableLevel + 1) entryVa s
        tbl.callFree subTable s
      | .page | .block => pure s) s

/-- `clear_all`. -/
def clearAll (tbl : Option MMUTable) (s : State) : Option State :=
  match tbl with
  | none => some s
  | some tbl =>
    if !tbl.free || tbl.resolvePa.isNone || tbl.pgd = 0 then some s
    else clearTable tbl 4 tbl.pgd 1 (getBaseAddress tbl.kind) s

/-! ### Changing attributes -/

/-- `change_properties_for_range`. -/
def changePropertiesForRange (tbl : MMUTable) : ℕ → VirtualPA → VirtualPA → PagesAttributes →
    VirtualPA → ℕ → VirtualPA → State → Option State
  | 0, _, _, _, _, _, _, _ => none
  | fuel + 1, vaStart, vaEnd, attr, table, tableLevel, tableFirstPageVa, s =>
    forEntries vaStart vaEnd tableLevel tableFirstPageVa (fun index entryVaStart s =>
      let entry := s.mem table index
      match getEntryKind entry tableLevel with
      | .invalid => pure s
      | .block => do
        let entryVaStop ← tableLastPage tableFirstPageVa (tableLevel + 1)
        let (entryPa, entryAttr) := decodeEntry entry
        if vaStart ≤ entryVaStart ∧ entryVaStop ≤ vaEnd then
          pure (s.write table index (encodeNewEntry tbl.kind entryPa tableLevel attr))
        else
          let (newTable, s) ← tbl.callAlloc s
          let newTablePa ← tbl.callResolveVa newTable
          let s := s.write table index (newTablePa ||| tableMarker)
          let s ← mapRangeInTable tbl fuel entryVaStart (vaStart - pageSize) entryPa entryAttr
            newTable (tableLevel + 1) entryVaStart s
          let paOffset1 := vaStart - entryVaStart
          let s ← mapRangeInTable tbl fuel vaStart vaEnd (entryPa + paOffset1) attr newTable
            (tableLevel + 1) entryVaStart s
          let paOffset2 := vaEnd + pageSize - entryVaStart
          mapRangeInTable tbl fuel (vaEnd + pageSize) entryVaStop (entryPa + paOffset2) entryAttr
            newTable (tableLevel + 1) entryVaStart s
      | .page =>
        let entryPa := (decodeEntry entry).1
        pure (s.write table index (encodeNewEntry tbl.kind entryPa tableLevel attr))
      | .table => do
        let subTable ← tbl.callResolvePa (getTablePaFromEntry entry)
        changePropertiesForRange tbl fuel vaStart vaEnd attr subTable (tableLevel + 1) entryVaStart
          s) s

/-- `change_attr_range`. -/
def changeAttrRange (tbl : Option MMUTable) (vaStart vaEnd : VirtualPA) (attr : PagesAttributes)
    (s : State) : Option (Bool × State) :=
  match tbl with
  | none => some (false, s)
  | some tbl =>
    if tbl.alloc.isNone || tbl.resolveVa.isNone || tbl.resolvePa.isNone || tbl.pgd = 0 ||
        !checkVa tbl.kind vaStart || !checkVa tbl.kind vaEnd then
      some (false, s)
    else do
      let s ← changePropertiesForRange tbl 4 vaStart vaEnd attr tbl.pgd 1
        (getBaseAddress tbl.kind) s
      pure (true, s)

end PiKachulm.Mmu

import PiKachulm.Fs.CreateName
import PiKachulm.Fs.Directory

/-!
# Following a path

`follow_path` goes from the root directory from name to name; `dir_find` looks for each name in the directory
that the names before it lead to. What is found is opened as a file or as a directory. These are the branches
for FAT volumes that are mounted.
-/

namespace PiKachulm.Fs

open Core

/-- `ld_clust`. -/
def ldClust (fs : Fatfs) (dir : Slot) : ℕ :=
  if fs.fsType = .fat32 then ldWord dir 26 ||| ldWord dir 20 <<< 16 else ldWord dir 26

/-! ### Finding a name -/

/-- A part of a long name is compared with the name in `lfnbuf`. -/
def compareLfn (b ord sum : UInt8) (blkOfs : ℕ) : DirAction (UInt8 × UInt8) := do
  modify fun s => { s with dp.blkOfs := blkOfs }
  let s ← get
  pure (if b = ord ∧ sum = s.slot 13 ∧ cmpLfn s.lfnbuf s.slot then ord - 1 else 0xFF, sum)

/-- A part of a long name, which may be the start of a sequence. -/
def findLfn (ord sum : UInt8) : DirAction (UInt8 × UInt8) := do
  let s ← get
  let c := s.slot 0
  if s.dp.nsFlag &&& nsNolfn = 0 then
    if c &&& llef ≠ 0 then compareLfn (c &&& ~~~llef) (c &&& ~~~llef) (s.slot 13) s.dp.dptr
    else compareLfn c ord sum s.dp.blkOfs
  else pure (ord, sum)

/-- There is no long name before the next entry. -/
def resetLfn (sum : UInt8) : DirAction (Option (UInt8 × UInt8)) := do
  modify fun s => { s with dp.blkOfs := noLfn }
  pure (some (0xFF, sum))

/-- An entry with a short name: it is found by its long name or by its short name. -/
def findSfn (ord sum : UInt8) : DirAction (Option (UInt8 × UInt8)) := do
  let s ← get
  if ord = 0 ∧ sum = sumSfn s.slot then pure none
  else if s.dp.nsFlag &&& nsLoss = 0 ∧ (List.range 11).map s.slot = s.dp.fn then pure none
  else resetLfn sum

/-- One round of the loop of `dir_find`. There is no result when the name has been found. -/
def findEntry (disk : RamDisk) (ord sum : UInt8) : DirAction (Option (UInt8 × UInt8)) := do
  loadEntry disk
  let s ← get
  let dir := s.slot
  if dir 0 = 0 then throw .noFile
  else
    set { s with dp.attr := attr dir }
    if dir 0 = ddem ∨ attr dir &&& amVol ≠ 0 ∧ attr dir ≠ amLfn then resetLfn sum
    else if attr dir = amLfn then
      let r ← findLfn ord sum
      pure (some r)
    else findSfn ord sum

/-- The loop of `dir_find`. -/
def findEntries (disk : RamDisk) (fs : Fatfs) : ℕ → UInt8 → UInt8 → DirAction Unit
  | 0, _, _ => pure ()
  | fuel + 1, ord, sum => do
    match ← findEntry disk ord sum with
    | none => pure ()
    | some (ord, sum) => do
      dirNext disk fs
      findEntries disk fs fuel ord sum

def dirFind (disk : RamDisk) (fs : Fatfs) : DirAction Unit := do
  dirSdi disk fs 0
  modify fun s => { s with dp.blkOfs := noLfn }
  findEntries disk fs (maxDir / szdire + 1) 0xFF 0xFF

/-! ### Following a path -/

/-- The name of a segment is looked up. -/
def findSegment (disk : RamDisk) (fs : Fatfs) (ns : UInt8) : DirAction Unit :=
  tryCatch (dirFind disk fs) fun res => throw (if res = .noFile ∧ ns &&& nsLast = 0 then .noPath else res)

/-- The directory that has been found is the next one. -/
def enterDir (fs : Fatfs) : DirAction Unit := do
  let s ← get
  if s.dp.attr &&& amDir = 0 then throw .noPath
  else set { s with dp.obj.sclust := ldClust fs fun i => s.window.win (s.dp.dptr % sectorSize + i) }

/-- The loop of `follow_path`. Each round takes a name of the path. -/
def followLoop (disk : RamDisk) (fs : Fatfs) : ℕ → List UInt8 → DirAction Unit
  | 0, _ => pure ()
  | fuel + 1, path => do
    let s ← get
    match createName path s.lfnbuf with
    | none => throw .invalidName
    | some seg => do
      set { s with dp.fn := seg.fn, dp.nsFlag := seg.nsFlag, lfnbuf := seg.lfnbuf }
      findSegment disk fs seg.nsFlag
      if seg.nsFlag &&& nsLast ≠ 0 then pure ()
      else do
        enterDir fs
        followLoop disk fs fuel seg.path

def followPath (disk : RamDisk) (fs : Fatfs) (path : List UInt8) : DirAction Unit := do
  modify fun s => { s with dp.obj.sclust := 0, dp.obj.nFrag := 0 }
  if isTerminator (peek (skipSeparators path)).toNat then do
    modify fun s => { s with dp.nsFlag := nsNoname }
    dirSdi disk fs 0
  else followLoop disk fs (path.length + 1) (skipSeparators path)

/-! ### Opening -/

/-- `get_ldnumber`: the path without the number of the drive, which can only be 0. -/
def getLdnumber (path : List UInt8) : Option (List UInt8) :=
  let tt := path.dropWhile fun tc => decide (0x20 ≤ tc ∧ tc ≠ 0x3A)
  if peek tt = 0x3A then
    if path.length = tt.length + 1 ∧ peek path = 0x30 then some tt.tail else none
  else some path

/-- `mount_volume`, when the volume has been mounted. -/
def mountVolume (path : List UInt8) : DirAction (List UInt8) :=
  match getLdnumber path with
  | none => throw .invalidDrive
  | some path => do
    modify fun s => { s with dp.obj.hasFs := true }
    pure path

/-- `f_open`: the file object, with what it has been before. -/
def fOpen (disk : RamDisk) (fs : Fatfs) (path : List UInt8) (mode : UInt8) (fp : Fil) : DirAction Fil := do
  let path ← mountVolume path
  followPath disk fs path
  let s ← get
  if s.dp.nsFlag &&& nsNoname ≠ 0 then throw .invalidName
  else if s.dp.attr &&& amDir ≠ 0 then throw .noFile
  else pure (Fil.opened fs { fp.obj with sclust := ldClust fs s.slot, objsize := ldDword s.slot 28 }
    (mode &&& faRead) fp.clust fp.buf)

/-- The directory that has been found is the object, unless it is the root directory. -/
def openFound (fs : Fatfs) : DirAction Unit := do
  let s ← get
  if s.dp.nsFlag &&& nsNoname = 0 then
    if s.dp.attr &&& amDir ≠ 0 then set { s with dp.obj.sclust := ldClust fs s.slot }
    else throw .noPath
  else pure ()

/-- `f_opendir`. -/
def fOpendir (disk : RamDisk) (fs : Fatfs) (path : List UInt8) : DirAction Unit :=
  tryCatch (do
      let path ← mountVolume path
      followPath disk fs path
      openFound fs
      modify fun s => { s with dp.obj.id := fs.id }
      dirSdi disk fs 0)
    fun res => do
      modify fun s => { s with dp.obj.hasFs := false }
      throw (if res = .noFile then .noPath else res)

end PiKachulm.Fs

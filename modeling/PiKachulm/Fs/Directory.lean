import PiKachulm.Fs.DirEntry
import PiKachulm.Fs.FileRead

/-!
# Reading directories

A directory is a file whose bytes are a table of entries; the root directory of a FAT12 or FAT16 volume has
sectors of its own. `dir_sdi` and `dir_next` move a directory object over the table, and `dir_read` goes on to
the next file. These are the branches for FAT volumes.
-/

namespace PiKachulm.Fs

open Core

/-- `DIR`. The pointer to the entry is an offset in the window. -/
structure Dir where
  obj : ObjId
  attr : UInt8
  dptr : ℕ
  clust : ℕ
  sect : ℕ
  dir : ℕ
  blkOfs : ℕ
  fn : List UInt8
  nsFlag : UInt8

/-- What a call works on: the window of the volume, the directory object and `lfnbuf`. -/
structure DirAccess where
  window : Window
  dp : Dir
  lfnbuf : ℕ → ℕ

abbrev DirAction := EStateM FResult DirAccess

/-- `MAX_DIR`. -/
def maxDir : ℕ := 0x200000

/-- `SZDIRE`. -/
def szdire : ℕ := 32

/-- There is no long name. -/
def noLfn : ℕ := 0xFFFFFFFF

/-- The entry that the directory object points to, which has no other bytes. -/
def DirAccess.slot (s : DirAccess) : Slot := fun i => if i < szdire then s.window.win (s.dp.dir + i) else 0

/-- `get_fat` for the object of the directory. -/
def lookupDir (disk : RamDisk) (fs : Fatfs) (clst : ℕ) : DirAction ℕ := fun s =>
  .ok (getFat disk fs s.window s.dp.obj clst).1 { s with window := (getFat disk fs s.window s.dp.obj clst).2 }

/-! ### Positions -/

/-- The loop of `dir_sdi` over the clusters before an offset. -/
def sdiLoop (disk : RamDisk) (fs : Fatfs) : ℕ → ℕ → ℕ → DirAction (ℕ × ℕ)
  | 0, ofs, clst => pure (ofs, clst)
  | fuel + 1, ofs, clst =>
    if ofs ≥ fs.csize * sectorSize then do
      let clst ← lookupDir disk fs clst
      if clst = diskError then throw .diskErr
      else if clst < 2 ∨ clst ≥ fs.nFatent then throw .intErr
      else sdiLoop disk fs fuel (ofs - fs.csize * sectorSize) clst
    else pure (ofs, clst)

/-- The last lines of `dir_sdi`. -/
def setSector (clst sect ofs : ℕ) : DirAction Unit := do
  modify fun s => { s with dp.clust := clst, dp.sect := sect }
  if sect = 0 then throw .intErr
  else modify fun s => { s with dp.sect := sect + ofs / sectorSize, dp.dir := ofs % sectorSize }

/-- The object is the root directory, and the root directory has clusters. -/
def rootInClusters (fs : Fatfs) (obj : ObjId) : Bool := decide (obj.sclust = 0 ∧ fs.fsType = .fat32)

/-- The cluster of the table, which is 0 for a root directory with sectors of its own. -/
def startCluster (fs : Fatfs) (obj : ObjId) : ℕ :=
  if rootInClusters fs obj then fs.dirbase % 2 ^ 32 else obj.sclust

def dirSdi (disk : RamDisk) (fs : Fatfs) (ofs : ℕ) : DirAction Unit := do
  let s ← get
  let clst := startCluster fs s.dp.obj
  if ofs ≥ maxDir ∨ ofs % szdire ≠ 0 then throw .intErr
  else
    modify fun s => { s with
      dp.dptr := ofs, dp.obj.stat := if rootInClusters fs s.dp.obj then 0 else s.dp.obj.stat }
    if clst = 0 then
      if ofs / szdire ≥ fs.nRootdir then throw .intErr else setSector 0 fs.dirbase ofs
    else
      let (ofs, clst) ← sdiLoop disk fs ofs ofs clst
      setSector clst (clst2sect fs clst) ofs

/-- The end of the table has been reached. -/
def endOfTable : DirAction Unit := do
  modify fun s => { s with dp.sect := 0 }
  throw .noFile

/-- The next sector of the table. -/
def nextSector (disk : RamDisk) (fs : Fatfs) (ofs : ℕ) : DirAction Unit := do
  modify fun s => { s with dp.sect := s.dp.sect + 1 }
  let s ← get
  if s.dp.clust = 0 then
    if ofs / szdire ≥ fs.nRootdir then endOfTable else pure ()
  else if csect fs ofs = 0 then
    let clst ← lookupDir disk fs s.dp.clust
    if clst ≤ 1 then throw .intErr
    else if clst = diskError then throw .diskErr
    else if clst ≥ fs.nFatent then endOfTable
    else modify fun s => { s with dp.clust := clst, dp.sect := clst2sect fs clst }
  else pure ()

def setOffset (ofs : ℕ) : DirAction Unit :=
  modify fun s => { s with dp.dptr := ofs, dp.dir := ofs % sectorSize }

def dirNext (disk : RamDisk) (fs : Fatfs) : DirAction Unit := do
  let s ← get
  let ofs := s.dp.dptr + szdire
  if ofs ≥ maxDir ∨ s.dp.sect = 0 then endOfTable
  else if ofs % sectorSize = 0 then
    nextSector disk fs ofs
    setOffset ofs
  else setOffset ofs

/-- `move_window` to the sector of the entry. -/
def loadEntry (disk : RamDisk) : DirAction Unit := do
  let s ← get
  match moveWindow disk s.window s.dp.sect with
  | (true, window) => set { s with window := window }
  | (false, window) => do
    set { s with window := window }
    throw .diskErr

/-! ### The next file -/

/-- The validity of a part is checked, and it is captured: the number that the next part must have, and the
checksum. -/
def capturePart (b ord sum : UInt8) (blkOfs : ℕ) : DirAction (UInt8 × UInt8) := do
  modify fun s => { s with dp.blkOfs := blkOfs }
  let s ← get
  if b = ord ∧ sum = s.slot 13 then
    set { s with lfnbuf := (pickLfn s.lfnbuf s.slot).2 }
    pure (if (pickLfn s.lfnbuf s.slot).1 then ord - 1 else 0xFF, sum)
  else pure (0xFF, sum)

/-- A part of a long name, which may be the start of a sequence. -/
def readLfn (ord sum : UInt8) : DirAction (UInt8 × UInt8) := do
  let s ← get
  let b := s.slot 0
  if b &&& llef ≠ 0 then capturePart (b &&& ~~~llef) (b &&& ~~~llef) (s.slot 13) s.dp.dptr
  else capturePart b ord sum s.dp.blkOfs

/-- An entry with a short name: whether the long name before it is its name. -/
def readSfn (ord sum : UInt8) : DirAction Unit := do
  let s ← get
  if ord ≠ 0 ∨ sum ≠ sumSfn s.slot then set { s with dp.blkOfs := noLfn } else pure ()

/-- One round of the loop of `dir_read`. There is no result when a file has been found. -/
def readEntry (disk : RamDisk) (ord sum : UInt8) : DirAction (Option (UInt8 × UInt8)) := do
  loadEntry disk
  let s ← get
  let dir := s.slot
  if dir 0 = 0 then throw .noFile
  else
    set { s with dp.attr := attr dir }
    if dir 0 = ddem ∨ dir 0 = 0x2E ∨ attr dir &&& ~~~amArc = amVol then pure (some (0xFF, sum))
    else if attr dir = amLfn then
      let r ← readLfn ord sum
      pure (some r)
    else
      readSfn ord sum
      pure none

/-- The loop of `dir_read`. Each round moves on by one entry. -/
def readEntries (disk : RamDisk) (fs : Fatfs) : ℕ → FResult → UInt8 → UInt8 → DirAction Unit
  | 0, _, _, _ => pure ()
  | fuel + 1, res, ord, sum => do
    let s ← get
    if s.dp.sect = 0 then if res = .ok then pure () else throw res
    else
      match ← readEntry disk ord sum with
      | none => pure ()
      | some (ord, sum) => do
        dirNext disk fs
        readEntries disk fs fuel .ok ord sum

/-- `DIR_READ_FILE`. -/
def dirRead (disk : RamDisk) (fs : Fatfs) : DirAction Unit :=
  tryCatch (readEntries disk fs (maxDir / szdire + 1) .noFile 0xFF 0xFF) fun res => do
    modify fun s => { s with dp.sect := 0 }
    throw res

/-! ### What is told about a file -/

/-- The short name, in UTF-8; empty if it is not valid. -/
def altName (dir : Slot) : List ℕ → List UInt8 → List UInt8
  | [], altname => altname
  | si :: rest, altname =>
    if dir si = 0x20 then altName dir rest altname
    else
      let altname := if si = 8 ∧ altname.length < 12 then altname ++ [0x2E] else altname
      let wc := oem2uni (if dir si = rddem then ddem else dir si)
      if wc = 0 then []
      else
        match putUtf wc (12 - altname.length) with
        | [] => []
        | bytes => altName dir rest (altname ++ bytes)

/-- The case of the letters, in the name and in the extension. -/
def applyCase (ntRes : UInt8) : UInt8 → List UInt8 → List UInt8
  | _, [] => []
  | lcf, wc :: rest =>
    let lcf := if wc = 0x2E then 0x10 else lcf
    (if 0x41 ≤ wc ∧ wc ≤ 0x5A ∧ ntRes &&& lcf ≠ 0 then wc + 0x20 else wc) :: applyCase ntRes lcf rest

/-- The name of a file without a long name. -/
def shortName (dir : Slot) : List UInt8 :=
  let altname := altName dir (List.range 11) []
  if altname = [] then [0x3F] else applyCase (dir 12) 0x08 altname

/-- The characters in `lfnbuf`. -/
def lfnUnits (lfnbuf : ℕ → ℕ) : List ℕ := ((List.range 256).map lfnbuf).takeWhile (· ≠ 0)

/-- The field `fname` of `FILINFO`. -/
def fname (s : DirAccess) : List UInt8 :=
  let lfn := if s.dp.blkOfs ≠ noLfn then convertLfn (lfnUnits s.lfnbuf) 0 [] else []
  if lfn ≠ [] then lfn else shortName s.slot

/-- `sys_file_info_t`. -/
structure FileInfo where
  name : List UInt8
  isDir : Bool
  deriving DecidableEq

/-- The part of `get_fileinfo` that is told to the user: nothing at the end of the directory. -/
def getFileinfo (s : DirAccess) : Option FileInfo :=
  if s.dp.sect = 0 then none else some ⟨fname s, decide (attr s.slot &&& amDir ≠ 0)⟩

/-- The end of the directory is no error. -/
def ignoreEnd (p : DirAction Unit) : DirAction Unit :=
  tryCatch p fun res => if res = .noFile then pure () else throw res

def fReaddir (disk : RamDisk) (fs : Fatfs) : DirAction (Option FileInfo) := do
  let s ← get
  if validate fs s.dp.obj ≠ .ok then throw (validate fs s.dp.obj)
  else
    ignoreEnd (dirRead disk fs)
    let s ← get
    ignoreEnd (dirNext disk fs)
    pure (getFileinfo s)

/-- `Dir::read`: what the user is told, and the window and the directory object after the call. -/
def Dir.read (disk : RamDisk) (fs : Fatfs) (window : Window) (lfnbuf : ℕ → ℕ) (dp : Dir) :
    Option FileInfo × Window × Dir :=
  match fReaddir disk fs ⟨window, dp, lfnbuf⟩ with
  | .ok info s => (info, s.window, s.dp)
  | .error _ s => (none, s.window, s.dp)

end PiKachulm.Fs

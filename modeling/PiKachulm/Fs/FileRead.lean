import PiKachulm.Core.Lockstep
import PiKachulm.Core.Ring
import PiKachulm.Fs.FatTable
import Mathlib.Logic.Function.Basic

/-!
# Reading open files

`f_read` and `f_lseek` follow the chain of clusters of a file. Whole sectors are copied from the disk; the
sector with the other bytes is kept in the file object. An error that is found on the way stays in the file
object, and each later call returns it.
-/

namespace PiKachulm.Fs

open Core

/-- The values of `FRESULT` that these calls return. -/
inductive FResult where
  | ok
  | diskErr
  | intErr
  | noFile
  | noPath
  | invalidName
  | denied
  | invalidDrive
  | invalidObject
  deriving DecidableEq

/-- `FIL`. -/
structure Fil where
  obj : ObjId
  flag : UInt8
  err : FResult
  fptr : ℕ
  clust : ℕ
  sect : ℕ
  buf : Sector

def faRead : UInt8 := 1

/-- The last lines of `f_open`, when the object of the file has been found. -/
def Fil.opened (fs : Fatfs) (obj : ObjId) (mode : UInt8) (clust : ℕ) (buf : Sector) : Fil :=
  ⟨{ obj with hasFs := true, id := fs.id }, mode, .ok, 0, clust, 0, buf⟩

/-- What a call works on: the window of the volume, the file object, and the bytes that have been copied to
the caller's buffer. -/
structure Access where
  window : Window
  fp : Fil
  out : List UInt8

/-- Code that may leave the function with an error. -/
abbrev Action := EStateM FResult Access

/-- `ABORT`. -/
def abort {α : Type} (res : FResult) : Action α := fun s => .error res { s with fp.err := res }

/-- `get_fat` for the object of the file. -/
def lookup (disk : RamDisk) (fs : Fatfs) (clst : ℕ) : Action ℕ := fun s =>
  .ok (getFat disk fs s.window s.fp.obj clst).1 { s with window := (getFat disk fs s.window s.fp.obj clst).2 }

def readDisk (disk : RamDisk) (sect : ℕ) : Action Sector :=
  match diskRead disk sect with
  | some data => pure data
  | none => abort .diskErr

def validate (fs : Fatfs) (obj : ObjId) : FResult :=
  if obj.hasFs = true ∧ fs.fsType ≠ .notMounted ∧ obj.id = fs.id then .ok else .invalidObject

/-- The sector is put into the buffer of the file object, unless it is there. -/
def loadSector (disk : RamDisk) (sect : ℕ) : Action Unit := do
  let s ← get
  if s.fp.sect ≠ sect then
    let data ← readDisk disk sect
    modify fun s => { s with fp.buf := data, fp.sect := sect }
  else pure ()

/-- The buffer holds the sector that the file object says. -/
def Fil.Cached (bytes : ℕ → UInt8) (fp : Fil) : Prop :=
  fp.sect ≠ 0 → ∀ i < sectorSize, fp.buf i = bytes (fp.sect * sectorSize + i)

/-- Whether it is read or has been there: the buffer holds the sector afterwards. -/
lemma exists_loadSector {bytes : ℕ → UInt8} {s : Access} (h : s.fp.Cached bytes) (sect : ℕ) :
    ∃ buf, ({ s.fp with buf := buf, sect := sect } : Fil).Cached bytes ∧
      loadSector (some bytes) sect s = .ok () { s with fp := { s.fp with buf := buf, sect := sect } } := by
  by_cases hsect : s.fp.sect = sect
  · subst hsect
    refine ⟨s.fp.buf, h, ?_⟩
    change (if s.fp.sect ≠ s.fp.sect then _ else pure () : Action Unit) s = _
    rw [if_neg (not_not.mpr rfl)]
    rfl
  · refine ⟨fun i => bytes (sect * sectorSize + i), fun _ _ _ => rfl, ?_⟩
    change (if s.fp.sect ≠ sect then readDisk (some bytes) sect >>= _ else pure () : Action Unit) s = _
    rw [if_pos hsect]
    rfl

/-! ### Reading -/

/-- The sector offset in the cluster. -/
def csect (fs : Fatfs) (fptr : ℕ) : ℕ := fptr / sectorSize &&& (fs.csize - 1)

/-- The cluster at the pointer: the first one, or the one after the current cluster. -/
def nextCluster (disk : RamDisk) (fs : Fatfs) : Action ℕ := do
  let s ← get
  if s.fp.fptr = 0 then pure s.fp.obj.sclust else lookup disk fs s.fp.clust

/-- On the cluster boundary. -/
def enterCluster (disk : RamDisk) (fs : Fatfs) : Action Unit := do
  let clst ← nextCluster disk fs
  if clst < 2 then abort .intErr
  else if clst = diskError then abort .diskErr
  else modify fun s => { s with fp.clust := clst }

def updateCluster (disk : RamDisk) (fs : Fatfs) : Action Unit := do
  let s ← get
  if csect fs s.fp.fptr = 0 then enterCluster disk fs else pure ()

/-- On the sector boundary. -/
def currentSector (disk : RamDisk) (fs : Fatfs) : Action ℕ := do
  updateCluster disk fs
  let s ← get
  if clst2sect fs s.fp.clust = 0 then abort .intErr
  else pure (clst2sect fs s.fp.clust + csect fs s.fp.fptr)

/-- Bytes of a sector, or of several ones, are copied to the caller; the number of bytes. -/
def transfer (data : Sector) (start rcnt : ℕ) : Action ℕ := do
  modify fun s => { s with fp.fptr := s.fp.fptr + rcnt, out := s.out ++ slice data start rcnt }
  pure rcnt

def transferBuffered (btr : ℕ) : Action ℕ := do
  let s ← get
  transfer s.fp.buf (s.fp.fptr % sectorSize) (min (sectorSize - s.fp.fptr % sectorSize) btr)

/-- The number of contiguous sectors is clipped at the cluster boundary. -/
def clipSectors (fs : Fatfs) (fptr cc : ℕ) : ℕ :=
  if csect fs fptr + cc > fs.csize then fs.csize - csect fs fptr else cc

def transferSectors (disk : RamDisk) (fs : Fatfs) (sect btr : ℕ) : Action ℕ := do
  let s ← get
  let data ← readDisk disk sect
  transfer data 0 (sectorSize * clipSectors fs s.fp.fptr (btr / sectorSize))

/-- One round of the loop of `f_read`. -/
def readRound (disk : RamDisk) (fs : Fatfs) (btr : ℕ) : Action ℕ := do
  let s ← get
  if s.fp.fptr % sectorSize = 0 then
    let sect ← currentSector disk fs
    if btr / sectorSize > 0 then transferSectors disk fs sect btr
    else
      loadSector disk sect
      transferBuffered btr
  else transferBuffered btr

/-- The loop of `f_read`. Each round copies a byte at least, so that there are `btr` rounds at most. -/
def readLoop (disk : RamDisk) (fs : Fatfs) : ℕ → ℕ → Action Unit
  | 0, _ => pure ()
  | fuel + 1, btr =>
    if btr > 0 then do
      let rcnt ← readRound disk fs btr
      readLoop disk fs fuel (btr - rcnt)
    else pure ()

def fRead (disk : RamDisk) (fs : Fatfs) (btr : ℕ) : Action Unit := do
  let s ← get
  if validate fs s.fp.obj ≠ .ok then throw (validate fs s.fp.obj)
  else if s.fp.err ≠ .ok then throw s.fp.err
  else if s.fp.flag &&& faRead = 0 then throw .denied
  else
    let remain := (s.fp.obj.objsize + 2 ^ 64 - s.fp.fptr) % 2 ^ 64
    let btr := if btr > remain then remain else btr
    readLoop disk fs btr btr

/-! ### Seeking -/

/-- The cluster from which the chain is followed, and the distance from there. -/
def seekStart (fs : Fatfs) (ofs : ℕ) : Action (ℕ × ℕ) := do
  let s ← get
  let ifptr := s.fp.fptr
  let bcs := fs.csize * sectorSize
  if ifptr > 0 ∧ (ofs - 1) / bcs ≥ (ifptr - 1) / bcs then
    modify fun s => { s with fp.fptr := (ifptr - 1) &&& (2 ^ 64 - bcs) }
    pure (ofs - ((ifptr - 1) &&& (2 ^ 64 - bcs)), s.fp.clust)
  else
    modify fun s => { s with fp.fptr := 0, fp.clust := s.fp.obj.sclust }
    pure (ofs, s.fp.obj.sclust)

/-- The cluster following loop: the distance that is left, and the cluster. Each round goes over one byte at
least. -/
def seekLoop (disk : RamDisk) (fs : Fatfs) : ℕ → ℕ → ℕ → Action (ℕ × ℕ)
  | 0, ofs, clst => pure (ofs, clst)
  | fuel + 1, ofs, clst =>
    if ofs > fs.csize * sectorSize then do
      modify fun s => { s with fp.fptr := s.fp.fptr + fs.csize * sectorSize }
      let clst ← lookup disk fs clst
      if clst = diskError then abort .diskErr
      else if clst ≤ 1 ∨ clst ≥ fs.nFatent then abort .intErr
      else
        modify fun s => { s with fp.clust := clst }
        seekLoop disk fs fuel (ofs - fs.csize * sectorSize) clst
    else pure (ofs, clst)

/-- To an offset that is not 0. -/
def seekClusters (disk : RamDisk) (fs : Fatfs) (ofs : ℕ) : Action ℕ := do
  let (ofs, clst) ← seekStart fs ofs
  if clst ≠ 0 then
    let (ofs, clst) ← seekLoop disk fs ofs ofs clst
    modify fun s => { s with fp.fptr := s.fp.fptr + ofs }
    if ofs % sectorSize ≠ 0 then
      if clst2sect fs clst = 0 then abort .intErr else pure (clst2sect fs clst + ofs / sectorSize)
    else pure 0
  else pure 0

/-- The pointer is set; the sector that has to be in the buffer, if any. -/
def seekOffset (disk : RamDisk) (fs : Fatfs) (ofs : ℕ) : Action ℕ :=
  if ofs > 0 then seekClusters disk fs ofs
  else do
    modify fun s => { s with fp.fptr := 0 }
    pure 0

/-- The offset that a seek leads to. -/
def clipOffset (fs : Fatfs) (obj : ObjId) (ofs : ℕ) : ℕ :=
  let ofs := if fs.fsType ≠ .exfat ∧ ofs ≥ 0x100000000 then 0xFFFFFFFF else ofs
  if ofs > obj.objsize then obj.objsize else ofs

def seekTo (disk : RamDisk) (fs : Fatfs) (ofs : ℕ) : Action Unit := do
  let nsect ← seekOffset disk fs ofs
  let s ← get
  if s.fp.fptr % sectorSize ≠ 0 then loadSector disk nsect else pure ()

def fLseek (disk : RamDisk) (fs : Fatfs) (ofs : ℕ) : Action Unit := do
  let s ← get
  if validate fs s.fp.obj ≠ .ok then throw (validate fs s.fp.obj)
  else if s.fp.err ≠ .ok then throw s.fp.err
  else seekTo disk fs (clipOffset fs s.fp.obj ofs)

/-! ### Requests -/

/-- A call to the kernel's `File`. -/
inductive Request where
  | read (bytesToRead : UInt64)
  | seek (offset : Int64)

/-- `File::read` and `File::seek`; the number of bytes is an `UINT` and the offset is without sign. -/
def Request.action (disk : RamDisk) (fs : Fatfs) : Request → Action Unit
  | .read bytesToRead => fRead disk fs (bytesToRead.toNat % 2 ^ 32)
  | .seek offset => fLseek disk fs offset.toUInt64.toNat

/-- What the caller gets: whether there was no error, and the bytes. -/
structure Answer where
  success : Bool
  bytes : List UInt8
  deriving DecidableEq

/-- The window of the volume and the files that are open. -/
structure Volume (ι : Type) where
  window : Window
  files : ι → Fil

variable {ι : Type} [DecidableEq ι]

def Volume.put (v : Volume ι) (i : ι) (s : Access) : Volume ι := ⟨s.window, Function.update v.files i s.fp⟩

/-- A request about a file. -/
def Volume.serve (disk : RamDisk) (fs : Fatfs) (v : Volume ι) (i : ι) (request : Request) :
    Answer × Volume ι :=
  match request.action disk fs ⟨v.window, v.files i, []⟩ with
  | .ok _ s => (⟨true, s.out⟩, v.put i s)
  | .error _ s => (⟨false, s.out⟩, v.put i s)

/-- Requests about any files, one after the other. -/
def Volume.run (disk : RamDisk) (fs : Fatfs) : Volume ι → List (ι × Request) → List (ι × Answer)
  | _, [] => []
  | v, (i, request) :: rest =>
    (i, (v.serve disk fs i request).1) :: (v.serve disk fs i request).2.run disk fs rest

end PiKachulm.Fs

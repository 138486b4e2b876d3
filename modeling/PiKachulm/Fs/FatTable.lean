import PiKachulm.Core.Bits

/-!
# The file allocation table

The file system is a FAT volume in a RAM disk, which is only read. `get_fat` finds the entry of a cluster in
the table: an array of integers of 12, 16 or 32 bits without padding, lowest bit first, so that an entry of
12 bits may lie in two sectors. The sector that was used last is kept in a window.
-/

namespace PiKachulm.Fs

open Core

/-! ### The disk -/

/-- `ramdisk_buffer`: the byte at each address, once the buffer is known. -/
abbrev RamDisk := Option (ℕ → UInt8)

/-- `SS(fs)`. -/
def sectorSize : ℕ := 512

/-- A sector, or several ones: the byte at each offset. -/
abbrev Sector := ℕ → UInt8

/-- `disk_read` of the drive 0. -/
def diskRead (disk : RamDisk) (sector : ℕ) : Option Sector :=
  disk.map fun bytes i => bytes (sector * sectorSize + i)

/-- `fs_type`. -/
inductive FsType where
  | notMounted
  | fat12
  | fat16
  | fat32
  | exfat
  deriving DecidableEq

/-- The fields of `FATFS` that are set when the volume is mounted. -/
structure Fatfs where
  fsType : FsType
  id : UInt16
  csize : ℕ
  nFatent : ℕ
  fatbase : ℕ
  database : ℕ
  nRootdir : ℕ
  dirbase : ℕ
  deriving DecidableEq

/-- The fields `winsect` and `win` of `FATFS`. -/
structure Window where
  sect : ℕ
  win : Sector

/-- `FFOBJID`. Its pointer to the volume may be null. -/
structure ObjId where
  hasFs : Bool
  id : UInt16
  stat : UInt8
  sclust : ℕ
  objsize : ℕ
  nCont : ℕ
  nFrag : ℕ

/-- `move_window`: whether the sector could be read, and the window. -/
def moveWindow (disk : RamDisk) (window : Window) (sect : ℕ) : Bool × Window :=
  if sect ≠ window.sect then
    match diskRead disk sect with
    | some data => (true, ⟨sect, data⟩)
    | none => (false, ⟨2 ^ 64 - 1, window.win⟩)
  else (true, window)

/-! ### Entries -/

def ldWord (ptr : Sector) (i : ℕ) : ℕ := (ptr (i + 1)).toNat <<< 8 ||| (ptr i).toNat

def ldDword (ptr : Sector) (i : ℕ) : ℕ :=
  (((ptr (i + 3)).toNat <<< 8 ||| (ptr (i + 2)).toNat) <<< 8 ||| (ptr (i + 1)).toNat) <<< 8 ||| (ptr i).toNat

def diskError : ℕ := 0xFFFFFFFF

def internalError : ℕ := 1

def endOfChain : ℕ := 0x7FFFFFFF

/-- `clst2sect`, which is 0 for an invalid cluster. -/
def clst2sect (fs : Fatfs) (clst : ℕ) : ℕ :=
  let clst := (clst + 2 ^ 32 - 2) % 2 ^ 32
  if clst ≥ fs.nFatent - 2 then 0 else fs.database + fs.csize * clst

/-- The value that the table of an exFAT volume has for a cluster of an object. -/
def getFatEx (disk : RamDisk) (fs : Fatfs) (window : Window) (obj : ObjId) (clst : ℕ) : ℕ × Window :=
  if (obj.objsize ≠ 0 ∧ obj.sclust ≠ 0) ∨ obj.stat = 0 then
    let cofs := (clst + 2 ^ 32 - obj.sclust) % 2 ^ 32
    let clen := ((obj.objsize + 2 ^ 64 - 1) % 2 ^ 64 / sectorSize / fs.csize) % 2 ^ 32
    if obj.stat = 2 ∧ cofs ≤ clen then (if cofs = clen then endOfChain else clst + 1, window)
    else if obj.stat = 3 ∧ cofs < obj.nCont then (clst + 1, window)
    else if obj.stat ≠ 2 then
      if obj.nFrag ≠ 0 then (endOfChain, window)
      else
        match moveWindow disk window (fs.fatbase + clst / (sectorSize / 4)) with
        | (true, window) => (ldDword window.win (clst * 4 % sectorSize) &&& 0x7FFFFFFF, window)
        | (false, window) => (diskError, window)
    else (internalError, window)
  else (internalError, window)

def getFat (disk : RamDisk) (fs : Fatfs) (window : Window) (obj : ObjId) (clst : ℕ) : ℕ × Window :=
  if clst < 2 ∨ clst ≥ fs.nFatent then (internalError, window)
  else
    match fs.fsType with
    | .fat12 =>
      let bc := clst + clst / 2
      match moveWindow disk window (fs.fatbase + bc / sectorSize) with
      | (false, window) => (diskError, window)
      | (true, window) =>
        let wc := (window.win (bc % sectorSize)).toNat
        let bc := bc + 1
        match moveWindow disk window (fs.fatbase + bc / sectorSize) with
        | (false, window) => (diskError, window)
        | (true, window) =>
          let wc := wc ||| (window.win (bc % sectorSize)).toNat <<< 8
          (if clst &&& 1 ≠ 0 then wc >>> 4 else wc &&& 0xFFF, window)
    | .fat16 =>
      match moveWindow disk window (fs.fatbase + clst / (sectorSize / 2)) with
      | (true, window) => (ldWord window.win (clst * 2 % sectorSize), window)
      | (false, window) => (diskError, window)
    | .fat32 =>
      match moveWindow disk window (fs.fatbase + clst / (sectorSize / 4)) with
      | (true, window) => (ldDword window.win (clst * 4 % sectorSize) &&& 0x0FFFFFFF, window)
      | (false, window) => (diskError, window)
    | .exfat => getFatEx disk fs window obj clst
    | .notMounted => (internalError, window)

/-! ### The window -/

/-- The window holds the sector that it says. -/
def Window.Valid (bytes : ℕ → UInt8) (window : Window) : Prop :=
  ∀ i < sectorSize, window.win i = bytes (window.sect * sectorSize + i)

/-- The bytes of the table. -/
def Fatfs.area (fs : Fatfs) (bytes : ℕ → UInt8) : Sector := fun i => bytes (fs.fatbase * sectorSize + i)

variable {bytes : ℕ → UInt8} {fs : Fatfs} {window : Window} {obj : ObjId} {clst i j : ℕ}

/-- Moving the window to the sector of a byte of the table. -/
lemma exists_moveWindow (fs : Fatfs) (h : window.Valid bytes) (i : ℕ) : ∃ w, w.Valid bytes ∧
    moveWindow (some bytes) window (fs.fatbase + i / sectorSize) = (true, w) ∧
      ∀ j, i % sectorSize + j < sectorSize → w.win (i % sectorSize + j) = fs.area bytes (i + j) := by
  have harea : ∀ w : Window, w.Valid bytes → w.sect = fs.fatbase + i / sectorSize →
      ∀ j, i % sectorSize + j < sectorSize → w.win (i % sectorSize + j) = fs.area bytes (i + j) := by
    intro w hw hsect j hj
    rw [hw _ hj, hsect, Fatfs.area, Nat.add_mul, Nat.add_assoc, ← Nat.add_assoc _ (i % sectorSize),
      Nat.div_add_mod']
  by_cases hsect : fs.fatbase + i / sectorSize = window.sect
  · exact ⟨window, h, if_neg (not_not.mpr hsect), harea window h hsect.symm⟩
  · have hw : (Window.mk (fs.fatbase + i / sectorSize)
        fun j => bytes ((fs.fatbase + i / sectorSize) * sectorSize + j)).Valid bytes := fun _ _ => rfl
    exact ⟨_, hw, if_pos hsect, harea _ hw rfl⟩

/-! ### Words -/

lemma field_ldWord (ptr : Sector) (i : ℕ) : Field ptr (8 * i) 16 (ldWord ptr i) :=
  (Field.byte ptr i).append (Field.byte ptr (i + 1))

lemma field_ldDword (ptr : Sector) (i : ℕ) : Field ptr (8 * i) 32 (ldDword ptr i) :=
  (Field.byte ptr i).append <| (Field.byte ptr (i + 1)).append <|
    (Field.byte ptr (i + 2)).append (Field.byte ptr (i + 3))

lemma ldWord_congr {ptr ptr' : Sector} (h : ∀ k < 2, ptr (i + k) = ptr' (j + k)) :
    ldWord ptr i = ldWord ptr' j := by
  have h0 := h 0 (by decide)
  have h1 := h 1 (by decide)
  simp only [Nat.add_zero] at h0
  rw [ldWord, ldWord, h0, h1]

lemma ldDword_congr {ptr ptr' : Sector} (h : ∀ k < 4, ptr (i + k) = ptr' (j + k)) :
    ldDword ptr i = ldDword ptr' j := by
  have h0 := h 0 (by decide)
  have h1 := h 1 (by decide)
  have h2 := h 2 (by decide)
  have h3 := h 3 (by decide)
  simp only [Nat.add_zero] at h0
  rw [ldDword, ldDword, h0, h1, h2, h3]

/-! ### The entries of the table -/

/-- The bits from one entry to the next. -/
def FsType.width : FsType → ℕ
  | .fat12 => 12
  | .fat16 => 16
  | .fat32 => 32
  | .exfat => 32
  | .notMounted => 0

/-- The bits of an entry that are used. -/
def FsType.used : FsType → ℕ
  | .fat12 => 12
  | .fat16 => 16
  | .fat32 => 28
  | .exfat => 31
  | .notMounted => 0

/-- The chain of the object is in the table: it has not been generated for clusters in a row. -/
def ObjId.InTable (fs : Fatfs) (obj : ObjId) : Prop :=
  fs.fsType = .exfat → obj.stat = 0 ∧ obj.nFrag = 0

/-- Two sectors are looked at, as an entry of 12 bits may be in both of them. -/
lemma field_getFat_fat12 (htype : fs.fsType = .fat12) (h : window.Valid bytes)
    (hclst : ¬(clst < 2 ∨ clst ≥ fs.nFatent)) : ∃ v w, getFat (some bytes) fs window obj clst = (v, w) ∧
      w.Valid bytes ∧ Field (fs.area bytes) (12 * clst) 12 v := by
  obtain ⟨w, hw, hmove, hwin⟩ := exists_moveWindow fs h (clst + clst / 2)
  obtain ⟨w', hw', hmove', hwin'⟩ := exists_moveWindow fs hw (clst + clst / 2 + 1)
  have hlow := hwin 0 (Nat.mod_lt _ (by decide))
  have hhigh := hwin' 0 (Nat.mod_lt _ (by decide))
  simp only [Nat.add_zero] at hlow hhigh
  have hword : Field (fs.area bytes) (8 * (clst + clst / 2)) 16
      ((fs.area bytes (clst + clst / 2)).toNat ||| (fs.area bytes (clst + clst / 2 + 1)).toNat <<< 8) := by
    rw [Nat.lor_comm]
    exact field_ldWord _ _
  generalize hword' : (fs.area bytes (clst + clst / 2)).toNat |||
    (fs.area bytes (clst + clst / 2 + 1)).toNat <<< 8 = word at hword
  refine ⟨if clst &&& 1 ≠ 0 then word >>> 4 else word &&& 0xFFF, w', ?_, hw', ?_⟩
  · rw [getFat, if_neg hclst, htype]
    simp only [hmove, hmove', hlow, hhigh, hword']
  · by_cases hodd : clst &&& 1 ≠ 0
    · rw [if_pos hodd]
      rw [Nat.and_one_is_mod] at hodd
      have hstart : 12 * clst = 8 * (clst + clst / 2) + 4 := by omega
      rw [hstart]
      exact hword.shiftRight
    · rw [if_neg hodd]
      rw [Nat.and_one_is_mod] at hodd
      have hstart : 12 * clst = 8 * (clst + clst / 2) := by omega
      rw [hstart]
      exact hword.mask (by decide)

lemma field_getFat_fat16 (htype : fs.fsType = .fat16) (h : window.Valid bytes)
    (hclst : ¬(clst < 2 ∨ clst ≥ fs.nFatent)) : ∃ v w, getFat (some bytes) fs window obj clst = (v, w) ∧
      w.Valid bytes ∧ Field (fs.area bytes) (16 * clst) 16 v := by
  obtain ⟨w, hw, hmove, hwin⟩ := exists_moveWindow fs h (clst * 2)
  have hsect : clst * 2 / sectorSize = clst / (sectorSize / 2) := Nat.mul_div_mul_right clst 256 (by decide)
  have hword : ldWord w.win (clst * 2 % sectorSize) = ldWord (fs.area bytes) (clst * 2) := by
    apply ldWord_congr
    intro k hk
    apply hwin
    simp only [sectorSize]
    omega
  refine ⟨ldWord (fs.area bytes) (clst * 2), w, ?_, hw, ?_⟩
  · rw [getFat, if_neg hclst, htype]
    simp only [← hsect, hmove, hword]
  · have hstart : 16 * clst = 8 * (clst * 2) := by omega
    rw [hstart]
    exact field_ldWord _ _

/-- The entry of 32 bits. -/
lemma exists_dword (fs : Fatfs) (h : window.Valid bytes) (clst : ℕ) : ∃ w, w.Valid bytes ∧
    moveWindow (some bytes) window (fs.fatbase + clst / (sectorSize / 4)) = (true, w) ∧
      Field (fs.area bytes) (32 * clst) 32 (ldDword w.win (clst * 4 % sectorSize)) := by
  obtain ⟨w, hw, hmove, hwin⟩ := exists_moveWindow fs h (clst * 4)
  have hsect : clst * 4 / sectorSize = clst / (sectorSize / 4) := Nat.mul_div_mul_right clst 128 (by decide)
  have hword : ldDword w.win (clst * 4 % sectorSize) = ldDword (fs.area bytes) (clst * 4) := by
    apply ldDword_congr
    intro k hk
    apply hwin
    simp only [sectorSize]
    omega
  refine ⟨w, hw, hsect ▸ hmove, ?_⟩
  have hstart : 32 * clst = 8 * (clst * 4) := by omega
  rw [hword, hstart]
  exact field_ldDword _ _

/-- `get_fat` returns the entry of the cluster, wherever it lies in the table and whatever sector is in the
window. -/
lemma exists_getFat (htype : fs.fsType ≠ .notMounted) (h : window.Valid bytes) (hobj : obj.InTable fs)
    (htwo : 2 ≤ clst) (hlt : clst < fs.nFatent) : ∃ v w,
      getFat (some bytes) fs window obj clst = (v, w) ∧ w.Valid bytes ∧
        Field (fs.area bytes) (fs.fsType.width * clst) fs.fsType.used v := by
  have hclst : ¬(clst < 2 ∨ clst ≥ fs.nFatent) := by
    rw [not_or]
    exact ⟨Nat.not_lt.mpr htwo, Nat.not_le.mpr hlt⟩
  cases hfs : fs.fsType with
  | notMounted => exact absurd hfs htype
  | fat12 => exact field_getFat_fat12 hfs h hclst
  | fat16 => exact field_getFat_fat16 hfs h hclst
  | fat32 =>
    obtain ⟨w, hw, hmove, hfield⟩ := exists_dword fs h clst
    refine ⟨_, w, ?_, hw, hfield.mask (by decide)⟩
    rw [getFat, if_neg hclst, hfs]
    simp only [hmove]
    rfl
  | exfat =>
    obtain ⟨w, hw, hmove, hfield⟩ := exists_dword fs h clst
    obtain ⟨hstat, hfrag⟩ := hobj hfs
    refine ⟨_, w, ?_, hw, hfield.mask (by decide)⟩
    rw [getFat, if_neg hclst, hfs]
    simp only [getFatEx, hstat, hfrag, or_true, hmove]
    rfl

/-- The entries of clusters that are looked up one after the other, for some objects. -/
def getFatAll (disk : RamDisk) (fs : Fatfs) : Window → List (ObjId × ℕ) → List ℕ
  | _, [] => []
  | window, (obj, clst) :: rest =>
    (getFat disk fs window obj clst).1 :: getFatAll disk fs (getFat disk fs window obj clst).2 rest

/-- In every run of lookups, each one finds the entry of its cluster, whatever sectors the others have left in
the window. -/
theorem getFatAll_fields (htype : fs.fsType ≠ .notMounted) (h : window.Valid bytes)
    (queries : List (ObjId × ℕ)) (hqueries : ∀ q ∈ queries, q.1.InTable fs ∧ 2 ≤ q.2 ∧ q.2 < fs.nFatent) :
    List.Forall₂ (fun q v => Field (fs.area bytes) (fs.fsType.width * q.2) fs.fsType.used v) queries
      (getFatAll (some bytes) fs window queries) := by
  induction queries generalizing window with
  | nil => exact .nil
  | cons q rest ih =>
    obtain ⟨hq, hrest⟩ := List.forall_mem_cons.mp hqueries
    obtain ⟨hobj, htwo, hlt⟩ := hq
    obtain ⟨v, w, hget, hw, hfield⟩ := exists_getFat htype h hobj htwo hlt
    rw [getFatAll, hget]
    exact .cons hfield (ih hw hrest)

/-- A disk with a FAT12 volume of five clusters. The cluster 2 is followed by the cluster 3. -/
def smallDisk : Sector := fun i =>
  ([(12, 2), (13, 1), (14, 1), (16, 1), (17, 16), (19, 8), (22, 1), (515, 3), (516, 240), (517, 255),
    (2047, 7), (2048, 9)].lookup i).getD 0

def smallFs : Fatfs := ⟨.fat12, 1, 1, 7, 1, 3, 16, 2⟩

def smallWindow : Window := ⟨0, smallDisk⟩

def smallObj : ObjId := ⟨true, 1, 0, 2, 600, 0, 0⟩

lemma smallWindow_valid : smallWindow.Valid smallDisk := by
  intro i _
  simp only [smallWindow, Nat.zero_mul, Nat.zero_add]

theorem getFatAll_fields_small : List.Forall₂
    (fun q v => Field (smallFs.area smallDisk) (12 * q.2) 12 v) [(smallObj, 3), (smallObj, 2)]
    (getFatAll (some smallDisk) smallFs smallWindow [(smallObj, 3), (smallObj, 2)]) :=
  getFatAll_fields (by simp [smallFs]) smallWindow_valid _
    (by simp [ObjId.InTable, smallFs])

end PiKachulm.Fs

import PiKachulm.Fs.Confinement

/-!
# Mounting a volume

The boot sector of a FAT volume says how many sectors there are and how they are used: reserved sectors, the
tables, the root directory and the clusters. `mount_volume` refuses boot sectors that do not make sense.
-/

namespace PiKachulm.Fs

open Core

/-! ### The boot sector -/

/-- `BPB_FATSz16`, or `BPB_FATSz32`: the sectors of a table. -/
def fatSize (win : Sector) : ℕ := if ldWord win 22 = 0 then ldDword win 36 else ldWord win 22

def numFats (win : Sector) : ℕ := (win 16).toNat

def secPerClus (win : Sector) : ℕ := (win 13).toNat

/-- `BPB_RootEntCnt`. -/
def nRootdir (win : Sector) : ℕ := ldWord win 17

/-- `BPB_RsvdSecCnt`. -/
def nrsv (win : Sector) : ℕ := ldWord win 14

/-- `BPB_TotSec16`, or `BPB_TotSec32`. -/
def tsect (win : Sector) : ℕ := if ldWord win 19 = 0 then ldDword win 32 else ldWord win 19

/-- The sectors before the clusters, in 32 bits. -/
def sysect (win : Sector) : ℕ :=
  (nrsv win + fatSize win * numFats win % 2 ^ 32 + nRootdir win / 16) % 2 ^ 32

/-- The number of clusters. -/
def nclst (win : Sector) : ℕ := (tsect win - sysect win) / secPerClus win

/-! ### Mounting -/

/-- The FAT sub-type follows from the number of clusters. -/
def subType (nclst : ℕ) : Option FsType :=
  if nclst ≤ 0xFF5 then some .fat12
  else if nclst ≤ 0xFFF5 then some .fat16
  else if nclst ≤ 0x0FFFFFF5 then some .fat32
  else none

/-- The bytes of the table that are needed. -/
def szbfat (fmt : FsType) (nFatent : ℕ) : ℕ :=
  match fmt with
  | .fat32 => nFatent * 4
  | .fat16 => nFatent * 2
  | _ => nFatent * 3 / 2 + (nFatent &&& 1)

/-- The cluster of the root directory, or its sector when it is in an area of its own. -/
def dirbase (bsect : ℕ) (win : Sector) (fmt : FsType) : ℕ :=
  if fmt = .fat32 then ldDword win 44 else bsect + nrsv win + fatSize win * numFats win % 2 ^ 32

/-- The part of `mount_volume` that reads the boot sector of a FAT volume, which is the sector `bsect`. -/
def mountFat (id : UInt16) (bsect : ℕ) (win : Sector) : Option Fatfs :=
  if ldWord win 11 ≠ sectorSize then none
  else if numFats win ≠ 1 ∧ numFats win ≠ 2 then none
  else if secPerClus win = 0 ∨ secPerClus win &&& (secPerClus win - 1) ≠ 0 then none
  else if nRootdir win % 16 ≠ 0 then none
  else if nrsv win = 0 then none
  else if tsect win < sysect win then none
  else if nclst win = 0 then none
  else
    match subType (nclst win) with
    | none => none
    | some fmt =>
      if fmt = .fat32 ∧ (ldWord win 42 ≠ 0 ∨ nRootdir win ≠ 0) then none
      else if fmt ≠ .fat32 ∧ nRootdir win = 0 then none
      else if fatSize win < (szbfat fmt (nclst win + 2) + (sectorSize - 1)) / sectorSize then none
      else some ⟨fmt, id, secPerClus win, nclst win + 2, bsect + nrsv win, bsect + sysect win, nRootdir win,
        dirbase bsect win fmt⟩

variable {bytes bytes' : ℕ → UInt8} {win : Sector} {id : UInt16} {bsect : ℕ} {fs : Fatfs} {fmt : FsType}

/-- What a boot sector that is accepted says. -/
structure Accepted (win : Sector) (fmt : FsType) : Prop where
  numFats : numFats win = 1 ∨ numFats win = 2
  csize : secPerClus win ≠ 0 ∧ secPerClus win &&& (secPerClus win - 1) = 0
  nRootdir : nRootdir win % 16 = 0
  nrsv : nrsv win ≠ 0
  sysect : sysect win ≤ tsect win
  nclst_ne_zero : nclst win ≠ 0
  subType : subType (nclst win) = some fmt
  root : fmt = .fat32 ↔ Fs.nRootdir win = 0
  fatSize : (szbfat fmt (nclst win + 2) + (sectorSize - 1)) / sectorSize ≤ Fs.fatSize win

lemma mountFat_eq_some (h : mountFat id bsect win = some fs) : ∃ fmt, Accepted win fmt ∧
    fs = ⟨fmt, id, secPerClus win, nclst win + 2, bsect + nrsv win, bsect + sysect win, nRootdir win,
      dirbase bsect win fmt⟩ := by
  rw [mountFat] at h
  split_ifs at h with hsize hfats hcsize hroot hnrsv hsysect hnclst
  split at h
  · cases h
  · rename_i fmt hfmt
    split_ifs at h with h32 hne hfat
    refine ⟨fmt, ⟨?_, ?_, not_not.mp hroot, hnrsv, not_lt.mp hsysect, hnclst, hfmt, ⟨fun hfat32 => ?_,
      fun hzero => ?_⟩, not_lt.mp hfat⟩, (Option.some_inj.mp h).symm⟩
    · omega
    · simpa only [not_or, not_not] using hcsize
    · by_contra hne
      exact h32 ⟨hfat32, .inr hne⟩
    · by_contra hfat32
      exact hne ⟨hfat32, hzero⟩

lemma subType_eq_some {n : ℕ} (h : subType n = some fmt) :
    fmt ≠ .notMounted ∧ fmt ≠ .exfat ∧ n + 10 < 2 ^ fmt.used := by
  rw [subType] at h
  split_ifs at h with h12 h16 h32
  all_goals
    obtain rfl := Option.some_inj.mp h
    refine ⟨by simp, by simp, ?_⟩
    simp only [FsType.used]
    omega

/-- The bytes that are needed are enough for all the entries. -/
lemma width_mul_le_szbfat {n : ℕ} (h : subType k = some fmt) : fmt.width * n ≤ 8 * szbfat fmt n := by
  rw [subType] at h
  split_ifs at h
  all_goals obtain rfl := Option.some_inj.mp h
  · simp only [FsType.width, szbfat, Nat.and_one_is_mod]
    obtain ⟨m, rfl | rfl⟩ := n.even_or_odd'
    all_goals omega
  all_goals
    simp only [FsType.width, szbfat]
    omega

/-! ### The areas of the volume -/

/-- The sectors before the clusters are counted without overflow. -/
def NoOverflow (win : Sector) : Prop := nrsv win + fatSize win * numFats win + nRootdir win / 16 < 2 ^ 32

instance : Decidable (NoOverflow win) := inferInstanceAs (Decidable (_ < _))

lemma NoOverflow.sysect_eq (h : NoOverflow win) :
    sysect win = nrsv win + fatSize win * numFats win + nRootdir win / 16 := by
  rw [NoOverflow] at h
  rw [sysect, Nat.mod_eq_of_lt (by omega : fatSize win * numFats win < 2 ^ 32), Nat.mod_eq_of_lt h]

lemma clustered_of_mountFat (h : mountFat id bsect win = some fs) : fs.Clustered := by
  obtain ⟨fmt, hwin, rfl⟩ := mountFat_eq_some h
  have hcsize : secPerClus win < 2 ^ 8 := (win 13).toNat_lt
  exact ⟨(subType_eq_some hwin.subType).1, Nat.pos_of_ne_zero hwin.csize.1, hcsize.trans (by decide)⟩

/-- The clusters are in the volume. -/
lemma clusters_of_mountFat (h : mountFat id bsect win = some fs) :
    fs.database + fs.csize * (fs.nFatent - 2) ≤ bsect + tsect win := by
  obtain ⟨fmt, hwin, rfl⟩ := mountFat_eq_some h
  change bsect + sysect win + secPerClus win * (nclst win + 2 - 2) ≤ bsect + tsect win
  rw [Nat.add_sub_cancel, nclst, Nat.add_assoc]
  have := Nat.mul_div_le (tsect win - sysect win) (secPerClus win)
  have := hwin.sysect
  omega

lemma mounted_of_mountFat (h : mountFat id bsect win = some fs) (hover : NoOverflow win) : fs.Mounted := by
  obtain ⟨fmt, hwin, rfl⟩ := mountFat_eq_some h
  obtain ⟨hmounted, -, hnclst⟩ := subType_eq_some hwin.subType
  have hcsize : secPerClus win < 2 ^ 8 := (win 13).toNat_lt
  refine ⟨hmounted, ?_, ?_, ?_⟩
  · obtain ⟨k, hk⟩ := (Nat.and_sub_one_eq_zero_iff_isPowerOfTwo hwin.csize.1).mp hwin.csize.2
    rw [hk] at hcsize
    exact ⟨k, ((Nat.pow_lt_pow_iff_right (by decide)).mp hcsize).trans (by decide), hk⟩
  · have hused : (2 : ℕ) ^ fmt.used ≤ 2 ^ 32 := Nat.pow_le_pow_right (by decide) (by cases fmt <;> decide)
    change nclst win + 2 < 2 ^ 32
    omega
  · have hnrsv := Nat.pos_of_ne_zero hwin.nrsv
    change 0 < bsect + sysect win
    rw [hover.sysect_eq]
    omega

/-- The sectors from the table to the root directory, or to the clusters, hold all the entries. -/
lemma table_of_mountFat (h : mountFat id bsect win = some fs) (rest : ℕ) :
    fs.fatbase * (8 * sectorSize) + fs.fsType.width * fs.nFatent ≤
      (bsect + (nrsv win + fatSize win * numFats win + rest)) * (8 * sectorSize) := by
  obtain ⟨fmt, hwin, rfl⟩ := mountFat_eq_some h
  have hwidth := width_mul_le_szbfat (n := nclst win + 2) hwin.subType
  have hfat := hwin.fatSize
  have hfats : fatSize win ≤ fatSize win * numFats win :=
    Nat.le_mul_of_pos_right _ (by obtain h | h := hwin.numFats <;> omega)
  change (bsect + nrsv win) * (8 * sectorSize) + fmt.width * (nclst win + 2) ≤ _
  simp only [sectorSize] at hfat ⊢
  omega

lemma table_le_database (h : mountFat id bsect win = some fs) (hover : NoOverflow win) :
    fs.fatbase * (8 * sectorSize) + fs.fsType.width * fs.nFatent ≤ fs.database * (8 * sectorSize) := by
  have hdatabase : fs.database = bsect + (nrsv win + fatSize win * numFats win + nRootdir win / 16) := by
    obtain ⟨fmt, -, rfl⟩ := mountFat_eq_some h
    rw [← hover.sysect_eq]
  rw [hdatabase]
  exact table_of_mountFat h _

/-- The root directory of a FAT12 or FAT16 volume is between the table and the clusters. -/
lemma rootdir_of_mountFat (h : mountFat id bsect win = some fs) (hover : NoOverflow win)
    (hfat32 : fs.fsType ≠ .fat32) : 0 < fs.nRootdir ∧ fs.dirbase + fs.nRootdir / 16 = fs.database ∧
      fs.fatbase * (8 * sectorSize) + fs.fsType.width * fs.nFatent ≤ fs.dirbase * (8 * sectorSize) := by
  have htable := table_of_mountFat h 0
  obtain ⟨fmt, hwin, rfl⟩ := mountFat_eq_some h
  have hlt := hover
  rw [NoOverflow] at hlt
  have hdirbase : dirbase bsect win fmt = bsect + (nrsv win + fatSize win * numFats win) := by
    rw [dirbase, if_neg hfat32, Nat.mod_eq_of_lt (by omega), Nat.add_assoc]
  refine ⟨Nat.pos_of_ne_zero fun hzero => hfat32 (hwin.root.mpr hzero), ?_, ?_⟩
  · change dirbase bsect win fmt + nRootdir win / 16 = bsect + sysect win
    rw [hdirbase, hover.sysect_eq, Nat.add_assoc bsect]
  · change _ ≤ dirbase bsect win fmt * (8 * sectorSize)
    rw [hdirbase]
    exact htable

/-- A volume that is mounted: no cluster has the number of an end-of-chain mark, and the table, which has an
entry for each cluster, the root directory and the clusters are in the volume, one after the other. -/
theorem mountFat_layout (h : mountFat id bsect win = some fs) (hover : NoOverflow win) :
    fs.Clustered ∧ fs.Mounted ∧ fs.nFatent + 8 < 2 ^ fs.fsType.used ∧ bsect < fs.fatbase ∧
      fs.fatbase * (8 * sectorSize) + fs.fsType.width * fs.nFatent ≤ fs.database * (8 * sectorSize) ∧
      (fs.fsType ≠ .fat32 → 0 < fs.nRootdir ∧ fs.dirbase + fs.nRootdir / 16 = fs.database ∧
        fs.fatbase * (8 * sectorSize) + fs.fsType.width * fs.nFatent ≤ fs.dirbase * (8 * sectorSize)) ∧
      fs.database + fs.csize * (fs.nFatent - 2) ≤ bsect + tsect win := by
  refine ⟨clustered_of_mountFat h, mounted_of_mountFat h hover, ?_, ?_, table_le_database h hover,
    rootdir_of_mountFat h hover, clusters_of_mountFat h⟩
  · obtain ⟨fmt, hwin, rfl⟩ := mountFat_eq_some h
    exact (subType_eq_some hwin.subType).2.2
  · obtain ⟨fmt, hwin, rfl⟩ := mountFat_eq_some h
    exact Nat.lt_add_of_pos_right (Nat.pos_of_ne_zero hwin.nrsv)

lemma mountFat_smallDisk : mountFat 1 0 smallDisk = some smallFs := by decide +kernel

theorem mountFat_layout_small : mountFat 1 0 smallDisk = some smallFs ∧ smallFs.Mounted ∧
    smallFs.nFatent + 8 < 2 ^ 12 ∧ smallFs.dirbase + smallFs.nRootdir / 16 = smallFs.database ∧
      smallFs.database + smallFs.csize * (smallFs.nFatent - 2) ≤ 0 + tsect smallDisk := by
  obtain ⟨-, hmounted, hnFatent, -, -, hroot, hend⟩ :=
    mountFat_layout mountFat_smallDisk (by decide +kernel : NoOverflow smallDisk)
  exact ⟨mountFat_smallDisk, hmounted, hnFatent, (hroot (by decide)).2.1, hend⟩

/-- The boot sector of a volume of 2004 sectors with two tables of 2 ^ 31 + 1 sectors: in 32 bits the tables
have two sectors. -/
def wrappedDisk : Sector := fun i =>
  ([(0, 0xEB), (12, 2), (13, 1), (14, 1), (16, 2), (17, 16), (19, 0xD4), (20, 7), (36, 1), (39, 0x80), (82, 0x46),
    (83, 0x41), (84, 0x54), (85, 0x33), (86, 0x32), (87, 0x20), (88, 0x20), (89, 0x20), (510, 0x55),
    (511, 0xAA)].lookup i).getD 0

/-- A boot sector the sectors of which overflow is accepted, with the root directory and the clusters in the
sectors of the table. -/
lemma exists_mountFat_wrapped : ∃ fs, mountFat 1 0 wrappedDisk = some fs ∧ fs.dirbase < fs.database ∧
    fs.database * (8 * sectorSize) < fs.fatbase * (8 * sectorSize) + fs.fsType.width * fs.nFatent :=
  ⟨⟨.fat12, 1, 1, 2002, 1, 4, 16, 3⟩, by decide +kernel, by decide, by decide⟩

/-! ### Disks that hold the same volume -/

lemma sameVolume_of_agree (h : mountFat id bsect win = some fs) (hover : NoOverflow win)
    (hbytes : ∀ i, bsect * sectorSize ≤ i → i < (bsect + tsect win) * sectorSize → bytes i = bytes' i) :
    fs.SameVolume bytes bytes' := by
  have htable := table_le_database h hover
  have hend' := Nat.mul_le_mul_right sectorSize (clusters_of_mountFat h)
  have hbsect : bsect ≤ fs.fatbase := by
    obtain ⟨fmt, -, rfl⟩ := mountFat_eq_some h
    exact Nat.le_add_right _ _
  have hfatbase' := Nat.mul_le_mul_right sectorSize hbsect
  have hdata : fs.database * sectorSize ≤ (bsect + tsect win) * sectorSize :=
    (Nat.mul_le_mul_right sectorSize (Nat.le_add_right _ _)).trans hend'
  constructor
  · intro i hi
    apply hbytes
    · exact hfatbase'.trans (Nat.le_add_right _ _)
    · simp only [sectorSize] at htable hdata ⊢
      omega
  · intro i hle hlt
    have hdatabase : fs.fatbase ≤ fs.database :=
      Nat.le_of_mul_le_mul_right ((Nat.le_add_right _ _).trans htable) (by decide)
    exact hbytes i ((Nat.mul_le_mul_right _ (hbsect.trans hdatabase)).trans hle) (hlt.trans_le hend')

variable {ι : Type} [DecidableEq ι] {v v' : Volume ι} {i : ι}

/-- The files of a volume that is mounted do not depend on what is on the disk outside of the volume, nor on
the calls about other files. -/
theorem filter_run_mounted (h : mountFat id bsect win = some fs) (hover : NoOverflow win)
    (hbytes : ∀ i, bsect * sectorSize ≤ i → i < (bsect + tsect win) * sectorSize → bytes i = bytes' i)
    (hfile : v.SameFile fs bytes bytes' i v') (requests : List (ι × Request)) :
    (v.run (some bytes) fs requests).filter (·.1 = i) =
      v'.run (some bytes') fs (requests.filter (·.1 = i)) :=
  filter_run (sameVolume_of_agree h hover hbytes) (clustered_of_mountFat h) hfile requests

/-- A disk that holds the same volume, with something else after it. -/
def smallDisk' : Sector := fun i => if i < 8 * 512 then smallDisk i else 1

/-- The calls about another file make no difference. -/
theorem filter_run_mounted_small :
    ((⟨smallWindow, fun _ => Fil.opened smallFs smallObj faRead 0 fun _ => 0⟩ : Volume Bool).run (some smallDisk)
      smallFs [(true, .seek 511), (false, .read 600), (true, .read 2)]).filter (·.1 = true) =
    (⟨⟨0, smallDisk'⟩, fun _ => Fil.opened smallFs smallObj faRead 0 fun _ => 1⟩ : Volume Bool).run
      (some smallDisk') smallFs ([(true, .seek 511), (false, .read 600), (true, .read 2)].filter (·.1 = true)) := by
  have hsettled : ∀ fp fp' : Fil, fp.fptr = 0 → fp.Settled smallFs fp' := fun fp fp' hfptr _ =>
    ⟨fun hpos => absurd hpos (by rw [hfptr]; exact lt_irrefl 0),
      fun hmod => absurd (by rw [hfptr]; exact Nat.zero_mod _) hmod⟩
  have hlike : ∀ (bytes' : ℕ → UInt8) buf buf', (Fil.opened smallFs smallObj faRead 0 buf).Like smallDisk bytes'
      (Fil.opened smallFs smallObj faRead 0 buf') := fun _ _ _ =>
    ⟨rfl, rfl, rfl, rfl, fun h => absurd rfl h, fun h => absurd rfl h⟩
  have hvalid : (⟨0, smallDisk'⟩ : Window).Valid smallDisk' := by
    intro i _
    simp only [Nat.zero_mul, Nat.zero_add]
  have hbytes (i : ℕ) (_ : 0 * sectorSize ≤ i) (hi : i < (0 + tsect smallDisk) * sectorSize) :
      smallDisk i = smallDisk' i := (if_pos hi).symm
  exact filter_run_mounted mountFat_smallDisk (by decide +kernel) hbytes
    ⟨⟨smallWindow_valid, fun _ => ⟨hlike _ _ _, hsettled _ _ rfl⟩⟩, hvalid, hlike _ _ _, hsettled _ _ rfl⟩ _

end PiKachulm.Fs

import PiKachulm.Fs.StoredFile

/-!
# What a file depends on

The calls about a file depend on the bytes of the table and of the clusters, and on the earlier calls about
the same file, whatever the disk holds: also when a chain is broken, leads out of the volume or into itself.
Two volumes are run side by side, with disks that need not be the same elsewhere.
-/

namespace PiKachulm.Fs

open Core

variable {bytes bytes' : ℕ → UInt8} {fs : Fatfs} {window window' : Window} {obj : ObjId} {clst i n r : ℕ}

/-- The disks hold the same table and the same clusters. -/
structure Fatfs.SameVolume (fs : Fatfs) (bytes bytes' : ℕ → UInt8) : Prop where
  table : ∀ i, 8 * i < fs.fsType.width * fs.nFatent → fs.area bytes i = fs.area bytes' i
  data : ∀ i, fs.database * sectorSize ≤ i →
    i < (fs.database + fs.csize * (fs.nFatent - 2)) * sectorSize → bytes i = bytes' i

/-- What is used of a volume that has been mounted. -/
structure Fatfs.Clustered (fs : Fatfs) : Prop where
  fsType : fs.fsType ≠ .notMounted
  csize_pos : 0 < fs.csize
  csize_lt : fs.csize < 2 ^ 16

namespace Fatfs.SameVolume

lemma refl (fs : Fatfs) (bytes : ℕ → UInt8) : fs.SameVolume bytes bytes :=
  ⟨fun _ _ => rfl, fun _ _ _ => rfl⟩

/-! ### The table -/

lemma field (h : fs.SameVolume bytes bytes') {v : ℕ} (hn : n ≤ fs.fsType.width) (hclst : clst < fs.nFatent)
    (hv : Field (fs.area bytes) (fs.fsType.width * clst) n v) :
    Field (fs.area bytes') (fs.fsType.width * clst) n v := by
  apply hv.congr
  intro j hj
  apply h.table
  have hle : fs.fsType.width * (clst + 1) ≤ fs.fsType.width * fs.nFatent := Nat.mul_le_mul_left _ hclst
  rw [Nat.mul_add, Nat.mul_one] at hle
  omega

lemma used_le_width (fsType : FsType) : fsType.used ≤ fsType.width := by
  cases fsType <;> decide

lemma getFatEx (h : fs.SameVolume bytes bytes') (hfs : fs.fsType = .exfat) (hw : window.Valid bytes)
    (hw' : window'.Valid bytes') (hclst : clst < fs.nFatent) : ∃ v w w',
      getFatEx (some bytes) fs window obj clst = (v, w) ∧
      getFatEx (some bytes') fs window' obj clst = (v, w') ∧ w.Valid bytes ∧ w'.Valid bytes' := by
  obtain ⟨w, hvalid, hmove, hfield⟩ := exists_dword fs hw clst
  obtain ⟨w', hvalid', hmove', hfield'⟩ := exists_dword fs hw' clst
  have hdword : ldDword w.win (clst * 4 % sectorSize) = ldDword w'.win (clst * 4 % sectorSize) := by
    have hwidth : fs.fsType.width = 32 := by rw [hfs, FsType.width]
    rw [← hwidth] at hfield hfield'
    exact (h.field le_rfl hclst hfield).unique hfield'
  rw [Fs.getFatEx, Fs.getFatEx]
  simp only [hmove, hmove', hdword]
  split_ifs
  all_goals first
    | exact ⟨_, _, _, rfl, rfl, hvalid, hvalid'⟩
    | exact ⟨_, _, _, rfl, rfl, hw, hw'⟩

/-- `get_fat` has the same value for both disks. -/
lemma getFat (h : fs.SameVolume bytes bytes') (hfs : fs.Clustered) (hw : window.Valid bytes)
    (hw' : window'.Valid bytes') (obj : ObjId) (clst : ℕ) : ∃ v w w',
      getFat (some bytes) fs window obj clst = (v, w) ∧ getFat (some bytes') fs window' obj clst = (v, w') ∧
        w.Valid bytes ∧ w'.Valid bytes' := by
  by_cases hclst : clst < 2 ∨ clst ≥ fs.nFatent
  · exact ⟨internalError, window, window', if_pos hclst, if_pos hclst, hw, hw'⟩
  · have hlt : clst < fs.nFatent := by omega
    by_cases hexfat : fs.fsType = .exfat
    · have hget : ∀ (disk : RamDisk) (window : Window),
          Fs.getFat disk fs window obj clst = Fs.getFatEx disk fs window obj clst := by
        intro disk window
        rw [Fs.getFat, if_neg hclst, hexfat]
      rw [hget, hget]
      exact h.getFatEx hexfat hw hw' hlt
    · have hobj : obj.InTable fs := fun heq => absurd heq hexfat
      obtain ⟨v, w, hget, hvalid, hfield⟩ := exists_getFat hfs.fsType hw hobj (by omega) hlt
      obtain ⟨v', w', hget', hvalid', hfield'⟩ := exists_getFat hfs.fsType hw' hobj (by omega) hlt
      obtain rfl := (h.field (used_le_width _) hlt hfield).unique hfield'
      exact ⟨v, w, w', hget, hget', hvalid, hvalid'⟩

/-! ### The clusters -/

/-- The bytes of a cluster. -/
lemma cluster (h : fs.SameVolume bytes bytes') (hne : clst2sect fs clst ≠ 0) (hi : i < fs.csize * sectorSize) :
    bytes (clst2sect fs clst * sectorSize + i) = bytes' (clst2sect fs clst * sectorSize + i) := by
  rw [clst2sect] at hne ⊢
  split_ifs at hne ⊢ with hge
  · exact absurd rfl hne
  · generalize (clst + 2 ^ 32 - 2) % 2 ^ 32 = k at hge
    have hle : fs.csize * (k + 1) ≤ fs.csize * (fs.nFatent - 2) := Nat.mul_le_mul_left _ (Nat.not_le.mp hge)
    have hle' := Nat.mul_le_mul_right sectorSize hle
    rw [Nat.mul_add, Nat.mul_one, Nat.add_mul] at hle'
    apply h.data
    · rw [Nat.add_mul, Nat.add_assoc]
      exact Nat.le_add_right _ _
    · rw [Nat.add_mul, Nat.add_mul]
      omega

end Fatfs.SameVolume

/-! ### Two file objects -/

/-- File objects of the same file, which may differ in their buffers. -/
structure Fil.Like (bytes bytes' : ℕ → UInt8) (fp fp' : Fil) : Prop where
  obj : fp'.obj = fp.obj
  flag : fp'.flag = fp.flag
  err : fp'.err = fp.err
  fptr : fp'.fptr = fp.fptr
  cached : fp.Cached bytes
  cached' : fp'.Cached bytes'

/-- The sector is one of a cluster. -/
def Fatfs.InCluster (fs : Fatfs) (sect : ℕ) : Prop :=
  ∃ clst j, clst2sect fs clst ≠ 0 ∧ j < fs.csize ∧ sect = clst2sect fs clst + j

/-- Inside of a sector, it is in both buffers. -/
structure Fil.Ready (fs : Fatfs) (fp fp' : Fil) : Prop where
  clust : 0 < fp.fptr → fp'.clust = fp.clust
  sect : fp.fptr % sectorSize ≠ 0 → fp'.sect = fp.sect ∧ fs.InCluster fp.sect

/-- Between two calls. A file object with an error is not used any more. -/
def Fil.Settled (fs : Fatfs) (fp fp' : Fil) : Prop := fp.err = .ok → fp.Ready fs fp'

/-- At the start of a sector: before the cluster is updated, and afterwards. -/
structure Fil.ReadyAt (fs : Fatfs) (fptr : ℕ) (fp fp' : Fil) : Prop extends fp.Ready fs fp' where
  fptr : fp.fptr = fptr

structure Fil.SameClust (fptr : ℕ) (fp fp' : Fil) : Prop where
  fptr : fp.fptr = fptr
  clust : fp'.clust = fp.clust

/-- In the course of two calls side by side. -/
structure Alike (bytes bytes' : ℕ → UInt8) (P : Fil → Fil → Prop) (s t : Access) : Prop where
  window : s.window.Valid bytes
  window' : t.window.Valid bytes'
  like : s.fp.Like bytes bytes' t.fp
  fp : P s.fp t.fp
  out : t.out = s.out

variable {P Q : Fil → Fil → Prop} {α β : Type} {S : α → β → Access → Access → Prop} {btr ofs sect : ℕ}

lemma Alike.replace {s t : Access} (h : Alike bytes bytes' P s t) (hQ : Q s.fp t.fp) : Alike bytes bytes' Q s t :=
  ⟨h.window, h.window', h.like, hQ, h.out⟩

lemma Fatfs.SameVolume.sector (h : fs.SameVolume bytes bytes') (hsect : fs.InCluster sect)
    (hi : i < sectorSize) : bytes (sect * sectorSize + i) = bytes' (sect * sectorSize + i) := by
  obtain ⟨clst, j, hne, hj, rfl⟩ := hsect
  rw [Nat.add_mul, Nat.add_assoc]
  apply h.cluster hne
  have hle : (j + 1) * sectorSize ≤ fs.csize * sectorSize := Nat.mul_le_mul_right _ hj
  rw [Nat.add_mul, Nat.one_mul] at hle
  omega

lemma Fatfs.InCluster.ne_zero (h : fs.InCluster sect) : sect ≠ 0 := by
  obtain ⟨clst, j, hne, -, rfl⟩ := h
  omega

/-- Both calls end, and the error stays in the file objects. -/
lemma lockstep_abort {res : FResult} (hres : res ≠ .ok) : Lockstep (Alike bytes bytes' P)
    (abort res : Action α) (abort res : Action β) S (Alike bytes bytes' (Fil.Settled fs)) := by
  intro s t h
  refine .inr ⟨res, _, _, rfl, rfl, h.window, h.window', ?_, fun herr => absurd herr hres, h.out⟩
  exact ⟨h.like.obj, h.like.flag, rfl, h.like.fptr, h.like.cached, h.like.cached'⟩

lemma lockstep_lookup (hsame : fs.SameVolume bytes bytes') (hfs : fs.Clustered) (clst : ℕ) :
    Lockstep (Alike bytes bytes' P) (lookup (some bytes) fs clst) (lookup (some bytes') fs clst)
      (fun v v' s t => v' = v ∧ Alike bytes bytes' P s t) (Alike bytes bytes' (Fil.Settled fs)) := by
  intro s t h
  obtain ⟨v, w, w', hget, hget', hw, hw'⟩ := hsame.getFat hfs h.window h.window' s.fp.obj clst
  refine .inl ⟨v, v, { s with window := w }, { t with window := w' }, ?_, ?_, rfl, hw, hw', h.like, h.fp, h.out⟩
  · rw [lookup, hget]
  · rw [lookup, h.like.obj, hget']

/-- The sector is in both buffers afterwards. -/
lemma lockstep_loadSector (sect : ℕ) (hPQ : ∀ (fp fp' : Fil) buf buf', P fp fp' →
      Q { fp with buf := buf, sect := sect } { fp' with buf := buf', sect := sect }) :
    Lockstep (Alike bytes bytes' P) (loadSector (some bytes) sect) (loadSector (some bytes') sect)
      (fun _ _ => Alike bytes bytes' Q) (Alike bytes bytes' (Fil.Settled fs)) := by
  intro s t h
  obtain ⟨buf, hbuf, hload⟩ := exists_loadSector h.like.cached sect
  obtain ⟨buf', hbuf', hload'⟩ := exists_loadSector h.like.cached' sect
  exact .inl ⟨(), (), _, _, hload, hload', h.window, h.window',
    ⟨h.like.obj, h.like.flag, h.like.err, h.like.fptr, hbuf, hbuf'⟩, hPQ _ _ _ _ h.fp, h.out⟩

lemma lockstep_readDisk {R : Access → Access → Prop} {T : Access → Access → Prop} {sect : ℕ} : Lockstep R
    (readDisk (some bytes) sect) (readDisk (some bytes') sect) (fun data data' s t =>
      (data = fun i => bytes (sect * sectorSize + i)) ∧ (data' = fun i => bytes' (sect * sectorSize + i)) ∧ R s t)
    T := Lockstep.pure fun _ _ h => ⟨rfl, rfl, h⟩

/-! ### Reading -/

lemma lockstep_nextCluster (hsame : fs.SameVolume bytes bytes') (hfs : fs.Clustered) (fptr : ℕ) :
    Lockstep (Alike bytes bytes' (Fil.ReadyAt fs fptr)) (nextCluster (some bytes) fs)
      (nextCluster (some bytes') fs) (fun v v' s t => v' = v ∧ Alike bytes bytes' (Fil.ReadyAt fs fptr) s t)
      (Alike bytes bytes' (Fil.Settled fs)) := by
  apply Lockstep.get_bind
  intro s t h
  apply Lockstep.ite
  · rw [h.like.fptr]
  · intro _
    apply Lockstep.pure
    rintro s t ⟨rfl, rfl⟩
    exact ⟨by rw [h.like.obj], h⟩
  · intro hne
    rw [h.fp.clust (Nat.pos_of_ne_zero hne)]
    exact (lockstep_lookup hsame hfs _).here h

lemma lockstep_enterCluster (hsame : fs.SameVolume bytes bytes') (hfs : fs.Clustered) (fptr : ℕ) :
    Lockstep (Alike bytes bytes' (Fil.ReadyAt fs fptr)) (enterCluster (some bytes) fs)
      (enterCluster (some bytes') fs) (fun _ _ => Alike bytes bytes' (Fil.SameClust fptr))
      (Alike bytes bytes' (Fil.Settled fs)) := by
  apply (lockstep_nextCluster hsame hfs fptr).bind_eq
  intro clst
  apply Lockstep.ite Iff.rfl
  · intro _
    exact lockstep_abort (by decide)
  · intro _
    apply Lockstep.ite Iff.rfl
    · intro _
      exact lockstep_abort (by decide)
    · intro _
      apply Lockstep.modify
      intro s t h
      have hlike := h.like
      exact ⟨h.window, h.window', ⟨hlike.obj, hlike.flag, hlike.err, hlike.fptr, hlike.cached, hlike.cached'⟩,
        ⟨h.fp.fptr, rfl⟩, h.out⟩

lemma lockstep_updateCluster (hsame : fs.SameVolume bytes bytes') (hfs : fs.Clustered) (fptr : ℕ) :
    Lockstep (Alike bytes bytes' (Fil.ReadyAt fs fptr)) (updateCluster (some bytes) fs)
      (updateCluster (some bytes') fs) (fun _ _ => Alike bytes bytes' (Fil.SameClust fptr))
      (Alike bytes bytes' (Fil.Settled fs)) := by
  apply Lockstep.get_bind
  intro s t h
  apply Lockstep.ite
  · rw [h.like.fptr]
  · intro _
    exact (lockstep_enterCluster hsame hfs fptr).here h
  · intro hne
    apply Lockstep.pure
    rintro s t ⟨rfl, rfl⟩
    refine ⟨h.window, h.window', h.like, ⟨h.fp.fptr, h.fp.clust ?_⟩, h.out⟩
    refine Nat.pos_of_ne_zero fun hzero => hne ?_
    rw [csect, hzero, Nat.zero_div, Nat.zero_and]

/-- The sector is one of the current cluster. -/
lemma lockstep_currentSector (hsame : fs.SameVolume bytes bytes') (hfs : fs.Clustered) (fptr : ℕ) :
    Lockstep (Alike bytes bytes' (Fil.ReadyAt fs fptr)) (currentSector (some bytes) fs)
      (currentSector (some bytes') fs) (fun v v' s t => v' = v ∧
        (∃ clst, clst2sect fs clst ≠ 0 ∧ v = clst2sect fs clst + csect fs fptr) ∧
          Alike bytes bytes' (Fil.SameClust fptr) s t)
      (Alike bytes bytes' (Fil.Settled fs)) := by
  apply (lockstep_updateCluster hsame hfs fptr).bind
  intro _ _
  apply Lockstep.get_bind
  intro s t h
  rw [h.fp.clust, h.like.fptr, h.fp.fptr]
  apply Lockstep.ite Iff.rfl
  · intro _
    exact (lockstep_abort (by decide)).here h
  · intro hne
    apply Lockstep.pure
    rintro s t ⟨rfl, rfl⟩
    exact ⟨rfl, ⟨_, hne, rfl⟩, h⟩

/-- The same bytes are copied. -/
lemma lockstep_transfer {data data' : Sector} {start : ℕ} {T : Access → Access → Prop}
    (hdata : ∀ i < n, data' (start + i) = data (start + i)) (hPQ : ∀ fp fp' : Fil, P fp fp' →
      Q { fp with fptr := fp.fptr + n } { fp' with fptr := fp'.fptr + n }) :
    Lockstep (Alike bytes bytes' P) (transfer data start n) (transfer data' start n)
      (fun v v' s t => v' = v ∧ Alike bytes bytes' Q s t) T := by
  apply Lockstep.bind (S := fun _ _ => Alike bytes bytes' Q)
  · apply Lockstep.modify
    intro s t h
    refine ⟨h.window, h.window', ?_, hPQ _ _ h.fp, ?_⟩
    · refine ⟨h.like.obj, h.like.flag, h.like.err, ?_, h.like.cached, h.like.cached'⟩
      simp only [h.like.fptr]
    · simp only [h.out, slice_congr hdata]
  · intro _ _
    exact Lockstep.pure fun _ _ h => ⟨rfl, h⟩

/-- A sector of a cluster is in the buffers of both file objects. -/
def Fil.Loaded (fs : Fatfs) (fp fp' : Fil) : Prop :=
  fp'.clust = fp.clust ∧ fp'.sect = fp.sect ∧ fs.InCluster fp.sect

lemma lockstep_transferBuffered (hsame : fs.SameVolume bytes bytes') (btr : ℕ) :
    Lockstep (Alike bytes bytes' (Fil.Loaded fs)) (transferBuffered btr) (transferBuffered btr)
      (fun v v' s t => v' = v ∧ Alike bytes bytes' (Fil.Ready fs) s t)
      (Alike bytes bytes' (Fil.Settled fs)) := by
  apply Lockstep.get_bind
  intro s t h
  obtain ⟨-, hsect, hcluster⟩ := h.fp
  rw [h.like.fptr]
  have hdata : ∀ i < min (sectorSize - s.fp.fptr % sectorSize) btr,
      t.fp.buf (s.fp.fptr % sectorSize + i) = s.fp.buf (s.fp.fptr % sectorSize + i) := by
    intro i hi
    have hlt : s.fp.fptr % sectorSize + i < sectorSize := by
      have := Nat.mod_lt s.fp.fptr (by decide : 0 < sectorSize)
      omega
    rw [h.like.cached hcluster.ne_zero _ hlt, h.like.cached' (hsect ▸ hcluster.ne_zero) _ hlt, hsect,
      hsame.sector hcluster hlt]
  refine (lockstep_transfer (P := Fil.Loaded fs) hdata ?_).here h
  rintro fp fp' ⟨hclust, hsect, hcluster⟩
  exact ⟨fun _ => hclust, fun _ => ⟨hsect, hcluster⟩⟩

lemma clipSectors_le (fs : Fatfs) (fptr cc : ℕ) (h : csect fs fptr < fs.csize) :
    csect fs fptr + clipSectors fs fptr cc ≤ fs.csize := by
  rw [clipSectors]
  split_ifs <;> omega

lemma Fatfs.Clustered.csect_lt (hfs : fs.Clustered) (fptr : ℕ) : csect fs fptr < fs.csize :=
  lt_of_le_of_lt Nat.and_le_right (Nat.sub_one_lt hfs.csize_pos.ne')

/-- The sectors that are read at once are all in the cluster. -/
lemma lockstep_transferSectors (hsame : fs.SameVolume bytes bytes') (hfs : fs.Clustered) {fptr : ℕ}
    (hfptr : fptr % sectorSize = 0) (hne : clst2sect fs clst ≠ 0) (btr : ℕ) :
    Lockstep (Alike bytes bytes' (Fil.SameClust fptr))
      (transferSectors (some bytes) fs (clst2sect fs clst + csect fs fptr) btr)
      (transferSectors (some bytes') fs (clst2sect fs clst + csect fs fptr) btr)
      (fun v v' s t => v' = v ∧ Alike bytes bytes' (Fil.Ready fs) s t) (Alike bytes bytes' (Fil.Settled fs)) := by
  apply Lockstep.get_bind
  intro s t h
  rw [h.like.fptr, h.fp.fptr]
  apply lockstep_readDisk.bind
  rintro data data' s' t' ⟨rfl, rfl, rfl, rfl⟩
  have hclip := clipSectors_le fs fptr (btr / sectorSize) (hfs.csect_lt _)
  have hdata : ∀ i < sectorSize * clipSectors fs fptr (btr / sectorSize),
      bytes' ((clst2sect fs clst + csect fs fptr) * sectorSize + (0 + i)) =
        bytes ((clst2sect fs clst + csect fs fptr) * sectorSize + (0 + i)) := by
    intro i hi
    rw [Nat.zero_add, Nat.add_mul, Nat.add_assoc]
    refine (hsame.cluster hne ?_).symm
    have hle := Nat.mul_le_mul_right sectorSize hclip
    rw [Nat.add_mul, Nat.mul_comm (clipSectors ..)] at hle
    omega
  refine lockstep_transfer (P := Fil.SameClust fptr) hdata ?_ s' t' h
  intro fp fp' hfp
  refine ⟨fun _ => hfp.clust, fun hne => absurd ?_ hne⟩
  simp only [Nat.add_mul_mod_self_left, hfp.fptr, hfptr]

lemma lockstep_readRound (hsame : fs.SameVolume bytes bytes') (hfs : fs.Clustered) (btr : ℕ) :
    Lockstep (Alike bytes bytes' (Fil.Ready fs)) (readRound (some bytes) fs btr) (readRound (some bytes') fs btr)
      (fun v v' s t => v' = v ∧ Alike bytes bytes' (Fil.Ready fs) s t)
      (Alike bytes bytes' (Fil.Settled fs)) := by
  apply Lockstep.get_bind
  intro s t h
  apply Lockstep.ite
  · rw [h.like.fptr]
  · intro hmod
    refine Lockstep.bind_eq ((lockstep_currentSector hsame hfs s.fp.fptr).here
      (h.replace ⟨h.fp, rfl⟩)) fun sect => ?_
    apply Lockstep.ite Iff.rfl
    · rintro _ s' t' ⟨⟨clst, hne, rfl⟩, h'⟩
      exact lockstep_transferSectors hsame hfs hmod hne btr s' t' h'
    · rintro _ s' t' ⟨⟨clst, hne, rfl⟩, h'⟩
      refine Lockstep.bind (lockstep_loadSector _ ?_) (fun _ _ => lockstep_transferBuffered hsame btr) s' t' h'
      intro fp fp' buf buf' hfp
      exact ⟨hfp.clust, rfl, clst, csect fs s.fp.fptr, hne, hfs.csect_lt _, rfl⟩
  · intro hmod
    obtain ⟨hsect, hcluster⟩ := h.fp.sect hmod
    refine (lockstep_transferBuffered hsame btr).here (h.replace ⟨?_, hsect, hcluster⟩)
    exact h.fp.clust (Nat.pos_of_ne_zero fun hzero => hmod (by rw [hzero, Nat.zero_mod]))

lemma lockstep_readLoop (hsame : fs.SameVolume bytes bytes') (hfs : fs.Clustered) (fuel btr : ℕ) :
    Lockstep (Alike bytes bytes' (Fil.Ready fs)) (readLoop (some bytes) fs fuel btr)
      (readLoop (some bytes') fs fuel btr) (fun _ _ => Alike bytes bytes' (Fil.Settled fs))
      (Alike bytes bytes' (Fil.Settled fs)) := by
  have hsettled : ∀ s t, Alike bytes bytes' (Fil.Ready fs) s t → Alike bytes bytes' (Fil.Settled fs) s t :=
    fun s t h => h.replace fun _ => h.fp
  induction fuel generalizing btr with
  | zero => exact Lockstep.pure hsettled
  | succ fuel ih =>
    apply Lockstep.ite Iff.rfl
    · intro _
      exact (lockstep_readRound hsame hfs btr).bind_eq fun rcnt => ih (btr - rcnt)
    · intro _
      exact Lockstep.pure hsettled

lemma lockstep_fRead (hsame : fs.SameVolume bytes bytes') (hfs : fs.Clustered) (btr : ℕ) :
    Lockstep (Alike bytes bytes' (Fil.Settled fs)) (fRead (some bytes) fs btr) (fRead (some bytes') fs btr)
      (fun _ _ => Alike bytes bytes' (Fil.Settled fs)) (Alike bytes bytes' (Fil.Settled fs)) := by
  apply Lockstep.get_bind
  intro s t h
  rw [h.like.obj, h.like.err, h.like.flag, h.like.fptr]
  apply Lockstep.ite Iff.rfl
  · intro _
    exact (Lockstep.throw fun _ _ => id).here h
  · intro _
    apply Lockstep.ite Iff.rfl
    · intro _
      exact (Lockstep.throw fun _ _ => id).here h
    · intro herr
      apply Lockstep.ite Iff.rfl
      · intro _
        exact (Lockstep.throw fun _ _ => id).here h
      · intro _
        exact (lockstep_readLoop hsame hfs _ _).here (h.replace (h.fp (not_not.mp herr)))

/-! ### Seeking -/

/-- In the loop: the pointers are at the start of a sector. -/
structure Fil.Aligned (fp fp' : Fil) : Prop where
  fptr : fp.fptr % sectorSize = 0
  clust : fp'.clust = fp.clust

lemma mask_mod (hfs : fs.Clustered) (ifptr : ℕ) :
    (ifptr &&& (2 ^ 64 - fs.csize * sectorSize)) % sectorSize = 0 := by
  have hmask : (2 ^ 64 - fs.csize * sectorSize) % 2 ^ 9 = 0 := by
    have := hfs.csize_lt
    simp only [sectorSize]
    omega
  change _ % 2 ^ 9 = 0
  rw [Nat.and_mod_two_pow, hmask, Nat.and_zero]

lemma lockstep_seekStart (hfs : fs.Clustered) (ofs : ℕ) : Lockstep (Alike bytes bytes' (Fil.Ready fs))
    (seekStart fs ofs) (seekStart fs ofs) (fun v v' s t => v' = v ∧ Alike bytes bytes' Fil.Aligned s t)
    (Alike bytes bytes' (Fil.Settled fs)) := by
  apply Lockstep.get_bind
  intro s t h
  have hlike := h.like
  rw [h.like.fptr, h.like.obj]
  apply Lockstep.ite Iff.rfl
  · rintro ⟨hpos, -⟩
    rw [h.fp.clust hpos]
    apply Lockstep.bind (S := fun _ _ => Alike bytes bytes' Fil.Aligned)
    · apply Lockstep.modify
      rintro s t ⟨rfl, rfl⟩
      exact ⟨h.window, h.window', ⟨hlike.obj, hlike.flag, hlike.err, rfl, hlike.cached, hlike.cached'⟩,
        ⟨mask_mod hfs _, h.fp.clust hpos⟩, h.out⟩
    · intro _ _
      exact Lockstep.pure fun _ _ h => ⟨rfl, h⟩
  · intro _
    apply Lockstep.bind (S := fun _ _ => Alike bytes bytes' Fil.Aligned)
    · apply Lockstep.modify
      rintro s t ⟨rfl, rfl⟩
      exact ⟨h.window, h.window', ⟨hlike.obj, hlike.flag, hlike.err, rfl, hlike.cached, hlike.cached'⟩,
        ⟨Nat.zero_mod _, congrArg ObjId.sclust hlike.obj⟩, h.out⟩
    · intro _ _
      exact Lockstep.pure fun _ _ h => ⟨rfl, h⟩

lemma lockstep_seekLoop (hsame : fs.SameVolume bytes bytes') (hfs : fs.Clustered) {fuel : ℕ} (hfuel : ofs ≤ fuel)
    (clst : ℕ) : Lockstep (Alike bytes bytes' Fil.Aligned) (seekLoop (some bytes) fs fuel ofs clst)
      (seekLoop (some bytes') fs fuel ofs clst)
      (fun v v' s t => v' = v ∧ v.1 ≤ fs.bcs ∧ Alike bytes bytes' Fil.Aligned s t)
      (Alike bytes bytes' (Fil.Settled fs)) := by
  have hbcs : 0 < fs.csize * sectorSize := Nat.mul_pos hfs.csize_pos (by decide)
  induction fuel generalizing ofs clst with
  | zero => exact Lockstep.pure fun _ _ h => ⟨rfl, hfuel.trans (Nat.zero_le _), h⟩
  | succ fuel ih =>
    apply Lockstep.ite Iff.rfl
    · intro hgt
      apply Lockstep.bind (S := fun _ _ => Alike bytes bytes' Fil.Aligned)
      · apply Lockstep.modify
        intro s t h
        have hlike := h.like
        refine ⟨h.window, h.window', ⟨hlike.obj, hlike.flag, hlike.err, ?_, hlike.cached, hlike.cached'⟩,
          ⟨?_, h.fp.clust⟩, h.out⟩
        · simp only [hlike.fptr]
        · simp only [Nat.add_mul_mod_self_right, h.fp.fptr]
      · intro _ _
        apply (lockstep_lookup hsame hfs clst).bind_eq
        intro clst
        apply Lockstep.ite Iff.rfl
        · intro _
          exact lockstep_abort (by decide)
        · intro _
          apply Lockstep.ite Iff.rfl
          · intro _
            exact lockstep_abort (by decide)
          · intro _
            apply Lockstep.bind (S := fun _ _ => Alike bytes bytes' Fil.Aligned)
            · apply Lockstep.modify
              intro s t h
              have hlike := h.like
              exact ⟨h.window, h.window', ⟨hlike.obj, hlike.flag, hlike.err, hlike.fptr, hlike.cached,
                hlike.cached'⟩, ⟨h.fp.fptr, rfl⟩, h.out⟩
            · intro _ _
              exact ih (by omega) clst
    · intro hle
      exact Lockstep.pure fun _ _ h => ⟨rfl, Nat.not_lt.mp hle, h⟩

/-- The pointer is set, and a sector is chosen for the buffer, if one is needed. -/
structure Fil.Chosen (fs : Fatfs) (nsect : ℕ) (fp fp' : Fil) : Prop where
  clust : 0 < fp.fptr → fp'.clust = fp.clust
  sect : fp.fptr % sectorSize ≠ 0 → fs.InCluster nsect

lemma lockstep_seekClusters (hsame : fs.SameVolume bytes bytes') (hfs : fs.Clustered) (ofs : ℕ) :
    Lockstep (Alike bytes bytes' (Fil.Ready fs)) (seekClusters (some bytes) fs ofs)
      (seekClusters (some bytes') fs ofs) (fun v v' s t => v' = v ∧ Alike bytes bytes' (Fil.Chosen fs v) s t)
      (Alike bytes bytes' (Fil.Settled fs)) := by
  apply (lockstep_seekStart hfs ofs).bind_eq
  rintro ⟨ofs, clst⟩
  apply Lockstep.ite Iff.rfl
  · intro _
    apply (lockstep_seekLoop hsame hfs le_rfl clst).bind_eq
    rintro ⟨ofs, clst⟩ s t ⟨hle, h⟩
    change ofs ≤ fs.bcs at hle
    revert s t
    change ∀ s t, _ → _
    apply Lockstep.bind (S := fun _ _ => Alike bytes bytes' fun fp fp' =>
      fp.fptr % sectorSize = ofs % sectorSize ∧ fp'.clust = fp.clust)
    · apply Lockstep.modify
      intro s t h
      have hlike := h.like
      refine ⟨h.window, h.window', ⟨hlike.obj, hlike.flag, hlike.err, ?_, hlike.cached, hlike.cached'⟩,
        ⟨?_, h.fp.clust⟩, h.out⟩
      · simp only [hlike.fptr]
      · simp only [Nat.add_mod, h.fp.fptr, Nat.zero_add, Nat.mod_mod]
    · intro _ _
      apply Lockstep.ite Iff.rfl
      · intro hmod
        apply Lockstep.ite Iff.rfl
        · intro _
          exact lockstep_abort (by decide)
        · intro hne
          apply Lockstep.pure
          intro s t h
          refine ⟨rfl, h.replace ⟨fun _ => h.fp.2, fun _ => ⟨clst, ofs / sectorSize, hne, ?_, rfl⟩⟩⟩
          rw [Nat.div_lt_iff_lt_mul (by decide)]
          refine lt_of_le_of_ne hle fun heq => hmod ?_
          rw [heq, Nat.mul_mod_left]
      · intro hmod
        apply Lockstep.pure
        intro s t h
        exact ⟨rfl, h.replace ⟨fun _ => h.fp.2, fun hne => absurd (h.fp.1 ▸ hne) hmod⟩⟩
  · intro _
    apply Lockstep.pure
    intro s t h
    exact ⟨rfl, h.replace ⟨fun _ => h.fp.clust, fun hne => absurd h.fp.fptr hne⟩⟩

lemma lockstep_seekTo (hsame : fs.SameVolume bytes bytes') (hfs : fs.Clustered) (ofs : ℕ) :
    Lockstep (Alike bytes bytes' (Fil.Ready fs)) (seekTo (some bytes) fs ofs) (seekTo (some bytes') fs ofs)
      (fun _ _ => Alike bytes bytes' (Fil.Ready fs)) (Alike bytes bytes' (Fil.Settled fs)) := by
  apply Lockstep.bind_eq (S := fun v => Alike bytes bytes' (Fil.Chosen fs v))
  · apply Lockstep.ite Iff.rfl
    · intro _
      exact lockstep_seekClusters hsame hfs ofs
    · intro _
      apply Lockstep.bind (S := fun _ _ => Alike bytes bytes' (Fil.Chosen fs 0))
      · apply Lockstep.modify
        intro s t h
        have hlike := h.like
        exact ⟨h.window, h.window', ⟨hlike.obj, hlike.flag, hlike.err, rfl, hlike.cached, hlike.cached'⟩,
          ⟨fun hlt => absurd hlt (lt_irrefl 0), fun hne => absurd (Nat.zero_mod _) hne⟩, h.out⟩
      · intro _ _
        exact Lockstep.pure fun _ _ h => ⟨rfl, h⟩
  · intro nsect
    apply Lockstep.get_bind
    intro s t h
    apply Lockstep.ite
    · rw [h.like.fptr]
    · intro hmod
      refine (lockstep_loadSector nsect ?_).here (h.replace (Q := fun fp fp' => fp.fptr % sectorSize ≠ 0 ∧
        fp.Chosen fs nsect fp') ⟨hmod, h.fp⟩)
      rintro fp fp' buf buf' ⟨hmod, hchosen⟩
      exact ⟨hchosen.clust, fun _ => ⟨rfl, hchosen.sect hmod⟩⟩
    · intro hmod
      apply Lockstep.pure
      rintro s t ⟨rfl, rfl⟩
      exact h.replace ⟨h.fp.clust, fun hne => absurd hne hmod⟩

lemma lockstep_fLseek (hsame : fs.SameVolume bytes bytes') (hfs : fs.Clustered) (ofs : ℕ) :
    Lockstep (Alike bytes bytes' (Fil.Settled fs)) (fLseek (some bytes) fs ofs) (fLseek (some bytes') fs ofs)
      (fun _ _ => Alike bytes bytes' (Fil.Settled fs)) (Alike bytes bytes' (Fil.Settled fs)) := by
  apply Lockstep.get_bind
  intro s t h
  rw [h.like.obj, h.like.err]
  apply Lockstep.ite Iff.rfl
  · intro _
    exact (Lockstep.throw fun _ _ => id).here h
  · intro _
    apply Lockstep.ite Iff.rfl
    · intro _
      exact (Lockstep.throw fun _ _ => id).here h
    · intro herr
      refine ((lockstep_seekTo hsame hfs _).mono (fun _ _ => id) ?_ fun _ _ => id).here
        (h.replace (h.fp (not_not.mp herr)))
      exact fun _ _ s t h => h.replace fun _ => h.fp

/-! ### Runs -/

/-- The calls about a file do the same on both disks. -/
lemma lockstep_action (hsame : fs.SameVolume bytes bytes') (hfs : fs.Clustered) (request : Request) :
    Lockstep (Alike bytes bytes' (Fil.Settled fs)) (request.action (some bytes) fs)
      (request.action (some bytes') fs) (fun _ _ => Alike bytes bytes' (Fil.Settled fs))
      (Alike bytes bytes' (Fil.Settled fs)) := by
  cases request with
  | read bytesToRead => exact lockstep_fRead hsame hfs _
  | seek offset => exact lockstep_fLseek hsame hfs _

variable {ι : Type} [DecidableEq ι] {v v' : Volume ι} {i j : ι}

/-- What can be relied on between two calls, whatever the disk holds. -/
structure Volume.Sound (fs : Fatfs) (bytes : ℕ → UInt8) (v : Volume ι) : Prop where
  window : v.window.Valid bytes
  files : ∀ i, (v.files i).Like bytes bytes (v.files i) ∧ (v.files i).Settled fs (v.files i)

/-- The volumes are the same for one of the files. -/
structure Volume.SameFile (fs : Fatfs) (bytes bytes' : ℕ → UInt8) (i : ι) (v v' : Volume ι) : Prop where
  sound : v.Sound fs bytes
  window : v'.window.Valid bytes'
  like : (v.files i).Like bytes bytes' (v'.files i)
  settled : (v.files i).Settled fs (v'.files i)

/-- A call about the file. -/
lemma Volume.SameFile.serve (h : v.SameFile fs bytes bytes' i v') (hsame : fs.SameVolume bytes bytes')
    (hfs : fs.Clustered) (request : Request) : ∃ s t, Alike bytes bytes' (Fil.Settled fs) s t ∧
      v.serve (some bytes) fs i request = ((v'.serve (some bytes') fs i request).1, v.put i s) ∧
        (v'.serve (some bytes') fs i request).2 = v'.put i t := by
  obtain ⟨a, b, s, t, hs, ht, halike⟩ | ⟨e, s, t, hs, ht, halike⟩ :=
    lockstep_action hsame hfs request ⟨v.window, v.files i, []⟩ ⟨v'.window, v'.files i, []⟩
      ⟨h.sound.window, h.window, h.like, h.settled, rfl⟩
  all_goals
    refine ⟨s, t, halike, ?_, ?_⟩
    · rw [Volume.serve, Volume.serve, hs, ht]
      simp only [halike.out]
    · rw [Volume.serve, ht]

/-- A call keeps the volume sound. -/
lemma Volume.Sound.serve (h : v.Sound fs bytes) (hfs : fs.Clustered) (j : ι) (request : Request) :
    ∃ s, v.serve (some bytes) fs j request = ((v.serve (some bytes) fs j request).1, v.put j s) ∧
      (v.put j s).Sound fs bytes := by
  have hfile : v.SameFile fs bytes bytes j v := ⟨h, h.window, (h.files j).1, (h.files j).2⟩
  obtain ⟨s, t, halike, hserve, hserve'⟩ := hfile.serve (.refl fs bytes) hfs request
  have hst : v.put j s = v.put j t := by
    rw [← hserve', hserve]
  refine ⟨s, hserve, ⟨halike.window, fun i => ?_⟩⟩
  by_cases hi : i = j
  · subst hi
    have hfp : s.fp = t.fp := by
      have := congrFun (congrArg Volume.files hst) i
      simpa only [Volume.put, Function.update_self] using this
    simp only [Volume.put, Function.update_self]
    exact ⟨hfp ▸ halike.like, hfp ▸ halike.fp⟩
  · simp only [Volume.put, Function.update_of_ne hi]
    exact h.files i

/-- What a file answers in the course of calls about any files, is what it answers when it is the only one
that calls are about, in a volume with the same table and the same clusters. -/
lemma filter_run (hsame : fs.SameVolume bytes bytes') (hfs : fs.Clustered)
    (h : v.SameFile fs bytes bytes' i v') (requests : List (ι × Request)) :
    (v.run (some bytes) fs requests).filter (·.1 = i) =
      v'.run (some bytes') fs (requests.filter (·.1 = i)) := by
  induction requests generalizing v v' with
  | nil => rfl
  | cons head rest ih =>
    obtain ⟨j, request⟩ := head
    obtain ⟨s', hserve', hsound⟩ := h.sound.serve hfs j request
    rw [Volume.run]
    by_cases hj : j = i
    · subst hj
      obtain ⟨s, t, halike, hserve, hput⟩ := h.serve hsame hfs request
      rw [List.filter_cons_of_pos (by simp), List.filter_cons_of_pos (by simp), Volume.run, hserve, hput]
      refine congrArg _ (ih ⟨?_, halike.window', ?_, ?_⟩)
      · have : v.put j s = v.put j s' := by
          rw [hserve] at hserve'
          exact (Prod.mk.inj hserve').2
        rw [this]
        exact hsound
      · simpa only [Volume.put, Function.update_self] using halike.like
      · simpa only [Volume.put, Function.update_self] using halike.fp
    · rw [List.filter_cons_of_neg (by simpa using hj), List.filter_cons_of_neg (by simpa using hj), hserve']
      refine ih ⟨hsound, h.window, ?_, ?_⟩
      · simpa only [Volume.put, Function.update_of_ne (Ne.symm hj)] using h.like
      · simpa only [Volume.put, Function.update_of_ne (Ne.symm hj)] using h.settled

end PiKachulm.Fs

import PiKachulm.Fs.FileRead
import Mathlib.Tactic.Ring

/-!
# Files that are stored in clusters

A file is stored in a volume when its chain leads through a cluster for each part of it. Its readers do not
see the clusters, the window and the buffers: whatever calls are made about the open files of a volume, each
file behaves as its contents and a position.
-/

namespace PiKachulm.Fs

open Core

/-! ### Volumes -/

/-- The bytes of a cluster. -/
def Fatfs.bcs (fs : Fatfs) : ℕ := fs.csize * sectorSize

/-- What is known of a volume that has been mounted. -/
structure Fatfs.Mounted (fs : Fatfs) : Prop where
  fsType : fs.fsType ≠ .notMounted
  exists_csize : ∃ k < 16, fs.csize = 2 ^ k
  nFatent_lt : fs.nFatent < 2 ^ 32
  database_pos : 0 < fs.database

/-- The cluster is followed by the next one: its entry says so, or the clusters are in a row. -/
def Follows (fs : Fatfs) (bytes : ℕ → UInt8) (obj : ObjId) (clst next : ℕ) : Prop :=
  if fs.fsType = .exfat ∧ obj.stat = 2 then next = clst + 1
  else Field (fs.area bytes) (fs.fsType.width * clst) fs.fsType.used next

/-- The object has a cluster for each part of its bytes. -/
structure Stored (fs : Fatfs) (bytes : ℕ → UInt8) (obj : ObjId) (cluster : ℕ → ℕ) : Prop where
  stat : fs.fsType = .exfat → (obj.stat = 0 ∨ obj.stat = 2) ∧ obj.nFrag = 0
  objsize_lt : obj.objsize < if fs.fsType = .exfat then 2 ^ 64 else 2 ^ 32
  zero : 0 < obj.objsize → cluster 0 = obj.sclust
  mem : ∀ i, i * fs.bcs < obj.objsize → 2 ≤ cluster i ∧ cluster i < fs.nFatent
  follows : ∀ i, (i + 1) * fs.bcs < obj.objsize → Follows fs bytes obj (cluster i) (cluster (i + 1))

/-- The sector of a byte of the file. -/
def Fatfs.sectorAt (fs : Fatfs) (cluster : ℕ → ℕ) (k : ℕ) : ℕ :=
  fs.database + fs.csize * (cluster (k / fs.bcs) - 2) + k / sectorSize % fs.csize

/-- The bytes of the file. -/
def Fatfs.contents (fs : Fatfs) (bytes : ℕ → UInt8) (cluster : ℕ → ℕ) : Sector := fun k =>
  bytes (fs.sectorAt cluster k * sectorSize + k % sectorSize)

variable {bytes : ℕ → UInt8} {fs : Fatfs} {window : Window} {obj : ObjId} {cluster : ℕ → ℕ}
  {clst i j k n pos btr ofs : ℕ}

/-! ### Positions in a cluster -/

lemma div_add_of_lt (h : k % n + i < n) : (k + i) / n = k / n := by
  have hn : 0 < n := Nat.zero_lt_of_lt h
  conv_lhs => rw [← Nat.div_add_mod k n, Nat.add_assoc, Nat.mul_add_div hn, Nat.div_eq_of_lt h, Nat.add_zero]

lemma mod_add_of_lt (h : k % n + i < n) : (k + i) % n = k % n + i := by
  conv_lhs => rw [← Nat.div_add_mod k n, Nat.add_assoc, Nat.mul_add_mod, Nat.mod_eq_of_lt h]

namespace Fatfs

/-- The offset in the cluster is the sector and the offset in the sector. -/
lemma mod_bcs (fs : Fatfs) (k : ℕ) :
    k % fs.bcs = k % sectorSize + sectorSize * (k / sectorSize % fs.csize) := by
  rw [bcs, Nat.mul_comm, Nat.mod_mul]

lemma div_bcs (fs : Fatfs) (k : ℕ) : k / fs.bcs = k / sectorSize / fs.csize := by
  rw [bcs, Nat.mul_comm, Nat.div_div_eq_div_mul]

/-- The bytes up to the end of the cluster are in a row. -/
lemma contents_add (h : k % fs.bcs + i < fs.bcs) : fs.contents bytes cluster (k + i) =
    bytes (fs.sectorAt cluster k * sectorSize + (k % sectorSize + i)) := by
  have hoffset := fs.mod_bcs (k + i)
  rw [mod_add_of_lt h, fs.mod_bcs k] at hoffset
  rw [contents, sectorAt, sectorAt, div_add_of_lt h]
  apply congrArg bytes
  generalize fs.database + fs.csize * (cluster (k / fs.bcs) - 2) = start
  simp only [sectorSize] at hoffset ⊢
  omega

namespace Mounted

lemma csize_pos (hfs : fs.Mounted) : 0 < fs.csize := by
  obtain ⟨k, -, hk⟩ := hfs.exists_csize
  rw [hk]
  exact Nat.two_pow_pos k

lemma bcs_pos (hfs : fs.Mounted) : 0 < fs.bcs := Nat.mul_pos hfs.csize_pos (by decide)

lemma csect_eq (hfs : fs.Mounted) (k : ℕ) : csect fs k = k / sectorSize % fs.csize := by
  obtain ⟨m, -, hm⟩ := hfs.exists_csize
  rw [csect, hm, Nat.and_two_pow_sub_one_eq_mod]

lemma csect_lt (hfs : fs.Mounted) (k : ℕ) : csect fs k < fs.csize := by
  rw [hfs.csect_eq]
  exact Nat.mod_lt _ hfs.csize_pos

/-- The end of the sector is not behind the end of the cluster. -/
lemma mod_bcs_add_lt (hfs : fs.Mounted) (h : k % sectorSize + i < sectorSize) : k % fs.bcs + i < fs.bcs := by
  have hlt : k / sectorSize % fs.csize < fs.csize := Nat.mod_lt _ hfs.csize_pos
  have hle : sectorSize * (k / sectorSize % fs.csize + 1) ≤ sectorSize * fs.csize := Nat.mul_le_mul_left _ hlt
  rw [fs.mod_bcs, bcs, Nat.mul_comm fs.csize]
  rw [Nat.mul_add, Nat.mul_one] at hle
  omega

/-- The sector is that of the byte before, unless a sector starts. -/
lemma sectorAt_add (hfs : fs.Mounted) (h : k % sectorSize + i < sectorSize) :
    fs.sectorAt cluster (k + i) = fs.sectorAt cluster k := by
  rw [sectorAt, sectorAt, div_add_of_lt (hfs.mod_bcs_add_lt h), div_add_of_lt h]

lemma clst2sect_eq (hfs : fs.Mounted) (htwo : 2 ≤ clst) (hlt : clst < fs.nFatent) :
    clst2sect fs clst = fs.database + fs.csize * (clst - 2) := by
  have hwrap : (clst + 2 ^ 32 - 2) % 2 ^ 32 = clst - 2 := by
    have := hfs.nFatent_lt
    omega
  rw [clst2sect, hwrap]
  exact if_neg (by omega)

end Mounted

end Fatfs

/-! ### Following the chain -/

namespace Stored

/-- Clusters in a row. -/
lemma cluster_eq (h : Stored fs bytes obj cluster) (hrow : fs.fsType = .exfat ∧ obj.stat = 2)
    (hlt : i * fs.bcs < obj.objsize) : cluster i = obj.sclust + i := by
  induction i with
  | zero =>
    rw [Nat.zero_mul] at hlt
    exact h.zero hlt
  | succ i ih =>
    have hfollows := h.follows i hlt
    rw [Follows, if_pos hrow] at hfollows
    rw [hfollows, ih (lt_of_le_of_lt (Nat.mul_le_mul_right _ (Nat.le_succ i)) hlt), Nat.add_assoc]

/-- `get_fat` leads to the next cluster of the file. -/
theorem exists_getFat (h : Stored fs bytes obj cluster) (hfs : fs.Mounted) (hwindow : window.Valid bytes)
    (hlt : (i + 1) * fs.bcs < obj.objsize) : ∃ w,
      getFat (some bytes) fs window obj (cluster i) = (cluster (i + 1), w) ∧ w.Valid bytes := by
  have hlt' : i * fs.bcs < obj.objsize := lt_of_le_of_lt (Nat.mul_le_mul_right _ (Nat.le_succ i)) hlt
  obtain ⟨htwo, hmem⟩ := h.mem i hlt'
  have hfollows := h.follows i hlt
  by_cases hrow : fs.fsType = .exfat ∧ obj.stat = 2
  · rw [Follows, if_pos hrow] at hfollows
    refine ⟨window, ?_, hwindow⟩
    have hsclust := h.zero (Nat.zero_lt_of_lt hlt)
    have hpos := (h.mem 0 (by omega)).1
    -- the number of clusters that come after the first one
    have hclen : i + 1 ≤ (obj.objsize - 1) / sectorSize / fs.csize := by
      rw [← Fatfs.div_bcs]
      exact (Nat.le_div_iff_mul_le hfs.bcs_pos).mpr (Nat.le_sub_one_of_lt hlt)
    have hlast := h.mem ((obj.objsize - 1) / fs.bcs)
      (lt_of_le_of_lt (Nat.div_mul_le_self _ _) (Nat.sub_one_lt_of_lt hlt))
    rw [h.cluster_eq hrow (lt_of_le_of_lt (Nat.div_mul_le_self _ _) (Nat.sub_one_lt_of_lt hlt)),
      Fatfs.div_bcs] at hlast
    have hnFatent := hfs.nFatent_lt
    have hsize := h.objsize_lt
    rw [if_pos hrow.1] at hsize
    have hcofs : (cluster i + 2 ^ 32 - obj.sclust) % 2 ^ 32 = i := by
      rw [h.cluster_eq hrow hlt'] at hmem ⊢
      omega
    have hwrap : (obj.objsize + 2 ^ 64 - 1) % 2 ^ 64 = obj.objsize - 1 := by omega
    rw [getFat, if_neg (by omega), hrow.1]
    simp only [getFatEx, hrow.2, hwrap, hcofs]
    rw [Nat.mod_eq_of_lt (by omega : (obj.objsize - 1) / sectorSize / fs.csize < 2 ^ 32), if_pos (by omega),
      if_pos ⟨trivial, by omega⟩, if_neg (by omega), hfollows]
  · rw [Follows, if_neg hrow] at hfollows
    have hobj : obj.InTable fs := fun hexfat =>
      ⟨(h.stat hexfat).1.resolve_right fun hstat => hrow ⟨hexfat, hstat⟩, (h.stat hexfat).2⟩
    obtain ⟨v, w, hget, hw, hv⟩ := Fs.exists_getFat hfs.fsType hwindow hobj htwo hmem
    exact ⟨w, hfollows.unique hv ▸ hget, hw⟩

end Stored

/-! ### File objects -/

/-- A file object without an error, whose buffer holds the sector that it says. -/
structure Fil.Sound (fs : Fatfs) (bytes : ℕ → UInt8) (obj : ObjId) (fp : Fil) : Prop where
  object : fp.obj = obj
  valid : validate fs obj = .ok
  flag : fp.flag &&& faRead ≠ 0
  err : fp.err = .ok
  buf : fp.Cached bytes

/-- The pointer is at a position of the file, and the cluster is that of the byte before. -/
structure Fil.Placed (fs : Fatfs) (bytes : ℕ → UInt8) (obj : ObjId) (cluster : ℕ → ℕ) (pos : ℕ) (fp : Fil) :
    Prop extends fp.Sound fs bytes obj where
  fptr : fp.fptr = pos
  le : pos ≤ obj.objsize
  clust : 0 < pos → fp.clust = cluster ((pos - 1) / fs.bcs)

/-- Between two calls: inside of a sector, the buffer holds it. -/
structure Fil.At (fs : Fatfs) (bytes : ℕ → UInt8) (obj : ObjId) (cluster : ℕ → ℕ) (pos : ℕ) (fp : Fil) : Prop
    extends fp.Placed fs bytes obj cluster pos where
  sect : pos % sectorSize ≠ 0 → fp.sect = fs.sectorAt cluster pos

/-- The cluster is that of the byte at the position. -/
structure Fil.On (fs : Fatfs) (bytes : ℕ → UInt8) (obj : ObjId) (cluster : ℕ → ℕ) (pos : ℕ) (fp : Fil) : Prop
    extends fp.Sound fs bytes obj where
  fptr : fp.fptr = pos
  lt : pos < obj.objsize
  clust : fp.clust = cluster (pos / fs.bcs)

/-- In the course of a call: the file object has a property, and some bytes have been copied. -/
structure Access.Has (bytes : ℕ → UInt8) (P : Fil → Prop) (out : List UInt8) (s : Access) : Prop where
  window : s.window.Valid bytes
  fp : P s.fp
  out : s.out = out

variable {P : Fil → Prop} {Q : ℕ → Access → Prop} {out : List UInt8} {fp : Fil}

lemma meets_lookup (h : Stored fs bytes obj cluster) (hfs : fs.Mounted) (hP : ∀ fp, P fp → fp.obj = obj)
    (hlt : (i + 1) * fs.bcs < obj.objsize) : Meets (Access.Has bytes P out)
      (lookup (some bytes) fs (cluster i)) fun v s => v = cluster (i + 1) ∧ s.Has bytes P out := by
  intro s hs
  obtain ⟨w, hget, hw⟩ := h.exists_getFat hfs hs.window hlt
  refine ⟨cluster (i + 1), { s with window := w }, ?_, rfl, hw, hs.fp, hs.out⟩
  rw [lookup, hP _ hs.fp, hget]

/-- At the first byte of a cluster, the cluster of the byte is found. -/
lemma meets_nextCluster (h : Stored fs bytes obj cluster) (hfs : fs.Mounted) (hpos : pos % fs.bcs = 0)
    (hlt : pos < obj.objsize) : Meets (Access.Has bytes (Fil.At fs bytes obj cluster pos) out)
      (nextCluster (some bytes) fs) fun clst s =>
        clst = cluster (pos / fs.bcs) ∧ s.Has bytes (Fil.At fs bytes obj cluster pos) out := by
  have hbcs := hfs.bcs_pos
  apply Meets.get_bind
  intro s hs
  rw [hs.fp.fptr, hs.fp.object]
  apply Meets.ite
  · rintro rfl
    apply Meets.pure
    rintro s rfl
    rw [Nat.zero_div]
    exact ⟨(h.zero hlt).symm, hs⟩
  · intro hne
    -- the cluster before is that of the last byte that has been passed
    have hdiv : (pos - 1) / fs.bcs + 1 = pos / fs.bcs := by
      obtain ⟨q, rfl⟩ := Nat.dvd_of_mod_eq_zero hpos
      obtain _ | q := q
      · exact absurd (Nat.mul_zero _) hne
      · rw [Nat.mul_div_cancel_left _ hbcs, Nat.mul_add, Nat.mul_one, Nat.add_sub_assoc hbcs,
          Nat.mul_add_div hbcs, Nat.div_eq_of_lt (Nat.sub_one_lt hbcs.ne'), Nat.add_zero]
    rw [hs.fp.clust (Nat.pos_of_ne_zero hne), ← hdiv]
    refine (meets_lookup h hfs (fun fp hfp => hfp.object) ?_).here hs
    rw [hdiv]
    exact lt_of_le_of_lt (Nat.div_mul_le_self _ _) hlt

lemma meets_enterCluster (h : Stored fs bytes obj cluster) (hfs : fs.Mounted) (hpos : pos % fs.bcs = 0)
    (hlt : pos < obj.objsize) : Meets (Access.Has bytes (Fil.At fs bytes obj cluster pos) out)
      (enterCluster (some bytes) fs) fun _ => Access.Has bytes (Fil.On fs bytes obj cluster pos) out := by
  obtain ⟨htwo, hmem⟩ := h.mem (pos / fs.bcs) (lt_of_le_of_lt (Nat.div_mul_le_self _ _) hlt)
  apply (meets_nextCluster h hfs hpos hlt).bind
  intro clst
  apply Meets.ite
  · rintro hclst s ⟨rfl, -⟩
    exact absurd hclst (Nat.not_lt.mpr htwo)
  · intro _
    apply Meets.ite
    · rintro hclst s ⟨rfl, -⟩
      have := hfs.nFatent_lt
      rw [hclst, diskError] at hmem
      omega
    · intro _
      apply Meets.modify
      rintro s ⟨rfl, hs⟩
      exact ⟨hs.window, ⟨⟨hs.fp.object, hs.fp.valid, hs.fp.flag, hs.fp.err, hs.fp.buf⟩, hs.fp.fptr, hlt, rfl⟩,
        hs.out⟩

/-- Inside of a cluster, the byte before is in the same cluster. -/
lemma sub_one_div (h : pos % n ≠ 0) : (pos - 1) / n = pos / n := by
  have hpos : 0 < pos := Nat.pos_of_ne_zero fun hzero => h (by rw [hzero, Nat.zero_mod])
  conv_rhs => rw [← Nat.sub_add_cancel hpos]
  rw [Nat.succ_div_of_not_dvd]
  rw [Nat.sub_add_cancel hpos]
  exact fun hdvd => h (Nat.mod_eq_zero_of_dvd hdvd)

lemma Fil.At.on (h : fp.At fs bytes obj cluster pos) (hpos : pos % fs.bcs ≠ 0) (hlt : pos < obj.objsize) :
    fp.On fs bytes obj cluster pos := by
  refine ⟨h.toSound, h.fptr, hlt, ?_⟩
  rw [← sub_one_div hpos]
  exact h.clust (Nat.pos_of_ne_zero fun hzero => hpos (by rw [hzero, Nat.zero_mod]))

lemma meets_updateCluster (h : Stored fs bytes obj cluster) (hfs : fs.Mounted) (hpos : pos % sectorSize = 0)
    (hlt : pos < obj.objsize) : Meets (Access.Has bytes (Fil.At fs bytes obj cluster pos) out)
      (updateCluster (some bytes) fs) fun _ => Access.Has bytes (Fil.On fs bytes obj cluster pos) out := by
  have hmod : pos % fs.bcs = sectorSize * csect fs pos := by
    rw [fs.mod_bcs, hpos, hfs.csect_eq, Nat.zero_add]
  apply Meets.get_bind
  intro s hs
  rw [hs.fp.fptr]
  apply Meets.ite
  · intro hzero
    rw [hzero, Nat.mul_zero] at hmod
    exact (meets_enterCluster h hfs hmod hlt).here hs
  · intro hne
    apply Meets.pure
    rintro s rfl
    refine ⟨hs.window, hs.fp.on ?_ hlt, hs.out⟩
    rw [hmod]
    exact Nat.mul_ne_zero (by decide) hne

lemma meets_currentSector (h : Stored fs bytes obj cluster) (hfs : fs.Mounted) (hpos : pos % sectorSize = 0)
    (hlt : pos < obj.objsize) : Meets (Access.Has bytes (Fil.At fs bytes obj cluster pos) out)
      (currentSector (some bytes) fs) fun sect s =>
        sect = fs.sectorAt cluster pos ∧ s.Has bytes (Fil.On fs bytes obj cluster pos) out := by
  obtain ⟨htwo, hmem⟩ := h.mem (pos / fs.bcs) (lt_of_le_of_lt (Nat.div_mul_le_self _ _) hlt)
  apply (meets_updateCluster h hfs hpos hlt).bind
  intro _
  apply Meets.get_bind
  intro s hs
  have hsect : clst2sect fs s.fp.clust = fs.database + fs.csize * (cluster (pos / fs.bcs) - 2) := by
    rw [hs.fp.clust, hfs.clst2sect_eq htwo hmem]
  have hdatabase := hfs.database_pos
  apply Meets.ite
  · intro hzero
    omega
  · intro _
    apply Meets.pure
    rintro s rfl
    refine ⟨?_, hs⟩
    rw [hsect, hs.fp.fptr, hfs.csect_eq, Fatfs.sectorAt]

/-! ### Copying bytes -/

lemma meets_readDisk {Q : Sector → Access → Prop} {P : Access → Prop} {sect : ℕ}
    (h : ∀ s, P s → Q (fun i => bytes (sect * sectorSize + i)) s) :
    Meets P (readDisk (some bytes) sect) Q := Meets.pure h

lemma meets_loadSector {P Q : Fil → Prop} {sect : ℕ} (hP : ∀ fp, P fp → fp.Sound fs bytes obj)
    (hQ : ∀ (fp : Fil) buf, P fp → ({ fp with buf := buf, sect := sect } : Fil).Sound fs bytes obj →
      Q { fp with buf := buf, sect := sect }) :
    Meets (Access.Has bytes P out) (loadSector (some bytes) sect) fun _ => Access.Has bytes Q out := by
  intro s hs
  have hsound := hP _ hs.fp
  obtain ⟨buf, hbuf, hload⟩ := exists_loadSector hsound.buf sect
  exact ⟨(), _, hload, hs.window, hQ _ buf hs.fp ⟨hsound.object, hsound.valid, hsound.flag, hsound.err, hbuf⟩,
    hs.out⟩

lemma meets_transfer {P R : Fil → Prop} {data : Sector} {start : ℕ}
    (h : ∀ fp, P fp → R { fp with fptr := fp.fptr + n }) (hdata : slice data start n =
      slice (fs.contents bytes cluster) pos n) : Meets (Access.Has bytes P out) (transfer data start n)
        fun rcnt s => rcnt = n ∧ s.Has bytes R (out ++ slice (fs.contents bytes cluster) pos n) := by
  apply Meets.bind (Q := fun _ => Access.Has bytes R (out ++ slice (fs.contents bytes cluster) pos n))
  · apply Meets.modify
    intro s hs
    exact ⟨hs.window, h _ hs.fp, by rw [hs.out, hdata]⟩
  · intro _
    exact Meets.pure fun s hs => ⟨rfl, hs⟩

/-- The pointer moves, to the end of the cluster at most. -/
lemma Fil.On.move (h : fp.On fs bytes obj cluster pos) (hn : 0 < n) (hle : pos + n ≤ obj.objsize)
    (hcluster : pos % fs.bcs + n ≤ fs.bcs)
    (hsect : (pos + n) % sectorSize ≠ 0 → fp.sect = fs.sectorAt cluster (pos + n)) :
    ({ fp with fptr := fp.fptr + n } : Fil).At fs bytes obj cluster (pos + n) := by
  refine ⟨⟨⟨h.object, h.valid, h.flag, h.err, h.buf⟩, by rw [h.fptr], hle, fun _ => ?_⟩, hsect⟩
  rw [h.clust, Nat.add_sub_assoc hn, div_add_of_lt]
  exact lt_of_lt_of_le (Nat.add_lt_add_left (Nat.sub_one_lt hn.ne') _) hcluster

/-- What a round of the loop does: it copies the next bytes of the file, at least one of them. -/
def Copies (fs : Fatfs) (bytes : ℕ → UInt8) (obj : ObjId) (cluster : ℕ → ℕ) (pos btr : ℕ) (out : List UInt8)
    (rcnt : ℕ) (s : Access) : Prop :=
  0 < rcnt ∧ rcnt ≤ btr ∧ s.Has bytes (Fil.At fs bytes obj cluster (pos + rcnt))
    (out ++ slice (fs.contents bytes cluster) pos rcnt)

lemma meets_transferBuffered (hfs : fs.Mounted) (hbtr : 0 < btr) (hle : pos + btr ≤ obj.objsize) :
    Meets (Access.Has bytes (fun fp => fp.On fs bytes obj cluster pos ∧ fp.sect = fs.sectorAt cluster pos) out)
      (transferBuffered btr) (Copies fs bytes obj cluster pos btr out) := by
  apply Meets.get_bind
  intro s hs
  obtain ⟨hon, hsect⟩ := hs.fp
  have hmod : pos % sectorSize < sectorSize := Nat.mod_lt _ (by decide)
  rw [hon.fptr]
  generalize hrcnt : min (sectorSize - pos % sectorSize) btr = rcnt
  have hbounds : 0 < rcnt ∧ rcnt ≤ btr ∧ pos % sectorSize + rcnt ≤ sectorSize := by omega
  obtain ⟨hpos, hle', hend⟩ := hbounds
  have hcluster := hfs.mod_bcs_add_lt (k := pos) (i := rcnt - 1) (by omega)
  have hne : fs.sectorAt cluster pos ≠ 0 := by
    have := hfs.database_pos
    rw [Fatfs.sectorAt]
    omega
  have hdata : slice s.fp.buf (pos % sectorSize) rcnt = slice (fs.contents bytes cluster) pos rcnt := by
    apply slice_congr
    intro i hi
    have hlt : pos % sectorSize + i < sectorSize := lt_of_lt_of_le (Nat.add_lt_add_left hi _) hend
    rw [hon.buf (hsect ▸ hne) _ hlt, hsect, Fatfs.contents_add (hfs.mod_bcs_add_lt hlt)]
  refine (meets_transfer (P := fun fp => fp.On fs bytes obj cluster pos ∧ fp.sect = fs.sectorAt cluster pos)
    (R := Fil.At fs bytes obj cluster (pos + rcnt)) ?_ hdata).mono (by rintro _ rfl; exact hs) ?_
  · rintro fp ⟨hon, hsect⟩
    apply hon.move hpos (by omega) (by omega)
    intro hmod'
    rw [hsect]
    refine (hfs.sectorAt_add (lt_of_le_of_ne hend fun hend => hmod' ?_)).symm
    rw [← Nat.mod_add_mod, hend, Nat.mod_self]
  · rintro _ s ⟨rfl, hs⟩
    exact ⟨hpos, hle', hs⟩

lemma meets_transferSectors (hfs : fs.Mounted) (hpos : pos % sectorSize = 0) (hbtr : 0 < btr / sectorSize)
    (hle : pos + btr ≤ obj.objsize) : Meets (Access.Has bytes (Fil.On fs bytes obj cluster pos) out)
      (transferSectors (some bytes) fs (fs.sectorAt cluster pos) btr)
      (Copies fs bytes obj cluster pos btr out) := by
  apply Meets.get_bind
  intro s hs
  rw [hs.fp.fptr]
  have hcsect := hfs.csect_lt pos
  generalize hcc : clipSectors fs pos (btr / sectorSize) = cc
  have hbounds : 0 < cc ∧ cc ≤ btr / sectorSize ∧ csect fs pos + cc ≤ fs.csize := by
    rw [← hcc, clipSectors]
    split_ifs <;> omega
  obtain ⟨hcc_pos, hcc_le, hend⟩ := hbounds
  have hle' : sectorSize * cc ≤ btr :=
    (Nat.mul_le_mul_left _ hcc_le).trans (Nat.mul_div_le btr sectorSize)
  have hcluster : pos % fs.bcs + sectorSize * cc ≤ fs.bcs := by
    rw [fs.mod_bcs, hpos, ← hfs.csect_eq, Nat.zero_add, ← Nat.mul_add, Fatfs.bcs, Nat.mul_comm fs.csize]
    exact Nat.mul_le_mul_left _ hend
  apply Meets.bind (meets_readDisk (Q := fun data s' => s' = s ∧
    data = fun i => bytes (fs.sectorAt cluster pos * sectorSize + i)) fun s' hs' => ⟨hs', rfl⟩)
  rintro data s' ⟨rfl, rfl⟩
  have hdata : slice (fun i => bytes (fs.sectorAt cluster pos * sectorSize + i)) 0 (sectorSize * cc) =
      slice (fs.contents bytes cluster) pos (sectorSize * cc) := by
    apply slice_congr
    intro i hi
    rw [Fatfs.contents_add (lt_of_lt_of_le (Nat.add_lt_add_left hi _) hcluster), hpos]
  refine (meets_transfer (R := Fil.At fs bytes obj cluster (pos + sectorSize * cc)) ?_ hdata).mono
    (fun _ => id) ?_ s' hs
  · intro fp hon
    apply hon.move (Nat.mul_pos (by decide) hcc_pos) (by omega) hcluster
    intro hmod
    exact absurd (by rw [Nat.add_mul_mod_self_left, hpos]) hmod
  · rintro _ s ⟨rfl, hs⟩
    exact ⟨Nat.mul_pos (by decide) hcc_pos, hle', hs⟩

/-! ### Reading -/

lemma meets_readRound (h : Stored fs bytes obj cluster) (hfs : fs.Mounted) (hbtr : 0 < btr)
    (hle : pos + btr ≤ obj.objsize) : Meets (Access.Has bytes (Fil.At fs bytes obj cluster pos) out)
      (readRound (some bytes) fs btr) (Copies fs bytes obj cluster pos btr out) := by
  have hlt : pos < obj.objsize := by omega
  apply Meets.get_bind
  intro s hs
  rw [hs.fp.fptr]
  apply Meets.ite
  · intro hpos
    apply Meets.bind ((meets_currentSector h hfs hpos hlt).here hs)
    intro sect
    apply Meets.ite
    · intro hsectors
      rintro s ⟨rfl, hs⟩
      exact meets_transferSectors hfs hpos hsectors hle s hs
    · rintro _ s ⟨rfl, hs⟩
      refine Meets.bind (meets_loadSector (fun _ hfp => hfp.toSound) ?_)
        (fun _ => meets_transferBuffered hfs hbtr hle) s hs
      intro fp buf hon hsound
      exact ⟨⟨hsound, hon.fptr, hon.lt, hon.clust⟩, rfl⟩
  · intro hpos
    refine (meets_transferBuffered hfs hbtr hle).here ?_
    refine ⟨hs.window, ⟨hs.fp.on (fun hmod => hpos ?_) hlt, hs.fp.sect hpos⟩, hs.out⟩
    rw [fs.mod_bcs] at hmod
    exact (Nat.add_eq_zero_iff.mp hmod).1

/-- All the bytes are copied. -/
lemma meets_readLoop (h : Stored fs bytes obj cluster) (hfs : fs.Mounted) {fuel : ℕ} (hfuel : btr ≤ fuel)
    (hle : pos + btr ≤ obj.objsize) : Meets (Access.Has bytes (Fil.At fs bytes obj cluster pos) out)
      (readLoop (some bytes) fs fuel btr) fun _ => Access.Has bytes (Fil.At fs bytes obj cluster (pos + btr))
        (out ++ slice (fs.contents bytes cluster) pos btr) := by
  induction fuel generalizing btr pos out with
  | zero =>
    obtain rfl := Nat.le_zero.mp hfuel
    exact Meets.pure fun s hs => ⟨hs.window, hs.fp, by rw [hs.out]; exact (List.append_nil _).symm⟩
  | succ fuel ih =>
    apply Meets.ite
    · intro hbtr
      apply (meets_readRound h hfs hbtr hle).bind
      rintro rcnt s ⟨hpos, hrcnt, hs⟩
      have hfuel' : btr - rcnt ≤ fuel := by omega
      have hle' : pos + rcnt + (btr - rcnt) ≤ obj.objsize := by omega
      obtain ⟨a, s', hrun, hs'⟩ := ih hfuel' hle' s hs
      refine ⟨a, s', hrun, ?_⟩
      rw [List.append_assoc, ← slice_add, Nat.add_assoc, Nat.add_sub_cancel' hrcnt] at hs'
      exact hs'
    · intro hbtr
      obtain rfl := Nat.eq_zero_of_not_pos hbtr
      exact Meets.pure fun s hs => ⟨hs.window, hs.fp, by rw [hs.out]; exact (List.append_nil _).symm⟩

/-- `f_read` copies as many bytes as there are up to the end of the file. -/
theorem meets_fRead (h : Stored fs bytes obj cluster) (hfs : fs.Mounted) :
    Meets (Access.Has bytes (Fil.At fs bytes obj cluster pos) out) (fRead (some bytes) fs btr) fun _ =>
      Access.Has bytes (Fil.At fs bytes obj cluster (pos + min btr (obj.objsize - pos)))
        (out ++ slice (fs.contents bytes cluster) pos (min btr (obj.objsize - pos))) := by
  apply Meets.get_bind
  intro s hs
  have hsize : obj.objsize < 2 ^ 64 := by
    have := h.objsize_lt
    split_ifs at this <;> omega
  have hle := hs.fp.le
  have hremain : (obj.objsize + 2 ^ 64 - pos) % 2 ^ 64 = obj.objsize - pos := by omega
  have hbtr : (if btr > obj.objsize - pos then obj.objsize - pos else btr) = min btr (obj.objsize - pos) := by
    split_ifs <;> omega
  rw [hs.fp.object, hs.fp.valid, hs.fp.err, if_neg (not_not.mpr rfl), if_neg (not_not.mpr rfl),
    if_neg hs.fp.flag, hs.fp.fptr]
  simp only [hremain, hbtr]
  refine (meets_readLoop h hfs le_rfl ?_).here hs
  omega

/-! ### Seeking -/

/-- In the loop of `f_lseek`: the pointer is at the start of a cluster of the file. -/
structure Fil.Seeking (fs : Fatfs) (bytes : ℕ → UInt8) (obj : ObjId) (cluster : ℕ → ℕ) (i : ℕ) (fp : Fil) : Prop
    extends fp.Sound fs bytes obj where
  fptr : fp.fptr = i * fs.bcs
  clust : fp.clust = cluster i

lemma meets_seekStart (h : Stored fs bytes obj cluster) (hfs : fs.Mounted) (hofs : 0 < ofs)
    (hle : ofs ≤ obj.objsize) : Meets (Access.Has bytes (Fil.At fs bytes obj cluster pos) out)
      (seekStart fs ofs) fun r s => ∃ i, i * fs.bcs + r.1 = ofs ∧ 0 < r.1 ∧ r.2 = cluster i ∧
        s.Has bytes (Fil.Seeking fs bytes obj cluster i) out := by
  have hbcs := hfs.bcs_pos
  apply Meets.get_bind
  intro s hs
  have hsound := hs.fp.toSound
  rw [hs.fp.fptr]
  apply Meets.ite
  · rintro ⟨hpos, hdiv⟩
    change (ofs - 1) / fs.bcs ≥ (pos - 1) / fs.bcs at hdiv
    have hmask : (pos - 1) &&& (2 ^ 64 - fs.bcs) = (pos - 1) / fs.bcs * fs.bcs := by
      obtain ⟨k, hk, hcsize⟩ := hfs.exists_csize
      have hpow : fs.bcs = 2 ^ (k + 9) := by
        rw [Fatfs.bcs, hcsize, Nat.pow_add]
        rfl
      have hsize := h.objsize_lt
      have hle := hs.fp.le
      rw [hpow]
      exact and_two_pow_sub_two_pow (by split_ifs at hsize <;> omega) (by omega)
    have hlt : (pos - 1) / fs.bcs * fs.bcs < ofs :=
      lt_of_le_of_lt ((Nat.le_div_iff_mul_le hbcs).mp hdiv) (Nat.sub_one_lt hofs.ne')
    apply Meets.bind (Q := fun _ => Access.Has bytes (Fil.Seeking fs bytes obj cluster ((pos - 1) / fs.bcs)) out)
    · apply Meets.modify
      rintro s rfl
      exact ⟨hs.window, ⟨⟨hsound.object, hsound.valid, hsound.flag, hsound.err, hsound.buf⟩, hmask,
        hs.fp.clust hpos⟩, hs.out⟩
    · intro _
      apply Meets.pure
      intro s' hs'
      refine ⟨(pos - 1) / fs.bcs, ?_, ?_, hs.fp.clust hpos, hs'⟩
      · change _ + (ofs - ((pos - 1) &&& (2 ^ 64 - fs.bcs))) = _
        rw [hmask, Nat.add_sub_cancel' hlt.le]
      · change 0 < ofs - ((pos - 1) &&& (2 ^ 64 - fs.bcs))
        rw [hmask]
        exact Nat.sub_pos_of_lt hlt
  · intro _
    have hzero : s.fp.obj.sclust = cluster 0 := by
      rw [hs.fp.object]
      exact (h.zero (hofs.trans_le hle)).symm
    apply Meets.bind (Q := fun _ => Access.Has bytes (Fil.Seeking fs bytes obj cluster 0) out)
    · apply Meets.modify
      rintro s rfl
      exact ⟨hs.window, ⟨⟨hsound.object, hsound.valid, hsound.flag, hsound.err, hsound.buf⟩,
        (Nat.zero_mul _).symm, hzero⟩, hs.out⟩
    · intro _
      exact Meets.pure fun s' hs' => ⟨0, by rw [Nat.zero_mul, Nat.zero_add], hofs, hzero, hs'⟩

/-- The chain is followed up to the cluster of the byte before the offset. -/
lemma meets_seekLoop (h : Stored fs bytes obj cluster) (hfs : fs.Mounted) {fuel target : ℕ}
    (hfuel : ofs ≤ fuel) (hofs : 0 < ofs) (htarget : i * fs.bcs + ofs = target)
    (hle : target ≤ obj.objsize) : Meets (Access.Has bytes (Fil.Seeking fs bytes obj cluster i) out)
      (seekLoop (some bytes) fs fuel ofs (cluster i)) fun r s => ∃ j, j * fs.bcs + r.1 = target ∧
        0 < r.1 ∧ r.1 ≤ fs.bcs ∧ r.2 = cluster j ∧ s.Has bytes (Fil.Seeking fs bytes obj cluster j) out := by
  have hbcs := hfs.bcs_pos
  induction fuel generalizing ofs i with
  | zero => omega
  | succ fuel ih =>
    apply Meets.ite
    · intro hgt
      change ofs > fs.bcs at hgt
      have hnext : (i + 1) * fs.bcs < obj.objsize := by
        rw [Nat.add_mul, Nat.one_mul]
        omega
      obtain ⟨htwo, hmem⟩ := h.mem (i + 1) hnext
      apply Meets.bind (Q := fun _ => Access.Has bytes (fun fp => fp.Sound fs bytes obj ∧
        fp.fptr = (i + 1) * fs.bcs) out)
      · apply Meets.modify
        intro s hs
        have hsound := hs.fp.toSound
        refine ⟨hs.window, ⟨⟨hsound.object, hsound.valid, hsound.flag, hsound.err, hsound.buf⟩, ?_⟩, hs.out⟩
        change s.fp.fptr + fs.bcs = _
        rw [hs.fp.fptr, Nat.add_mul, Nat.one_mul]
      · intro _
        apply (meets_lookup h hfs (fun fp hfp => hfp.1.object) hnext).bind
        intro clst
        apply Meets.ite
        · rintro hclst s ⟨rfl, -⟩
          have := hfs.nFatent_lt
          rw [hclst, diskError] at hmem
          omega
        · intro _
          apply Meets.ite
          · rintro hclst s ⟨rfl, -⟩
            omega
          · intro _
            apply Meets.bind (Q := fun _ s => clst = cluster (i + 1) ∧
              s.Has bytes (Fil.Seeking fs bytes obj cluster (i + 1)) out)
            · apply Meets.modify
              rintro s ⟨rfl, hs⟩
              have hsound := hs.fp.1
              exact ⟨rfl, hs.window, ⟨⟨hsound.object, hsound.valid, hsound.flag, hsound.err, hsound.buf⟩,
                hs.fp.2, rfl⟩, hs.out⟩
            · rintro _ s ⟨rfl, hs⟩
              have hfuel' : ofs - fs.bcs ≤ fuel := by omega
              have hofs' : 0 < ofs - fs.bcs := by omega
              have htarget' : (i + 1) * fs.bcs + (ofs - fs.bcs) = target := by
                rw [Nat.add_mul, Nat.one_mul]
                omega
              exact ih hfuel' hofs' htarget' s hs
    · intro hgt
      exact Meets.pure fun s hs => ⟨i, htarget, hofs, Nat.not_lt.mp hgt, rfl, hs⟩

/-- The end of a cluster belongs to the cluster that it ends. -/
lemma sub_one_div_of_le (hn : 0 < n) (hle : n ≤ k) : (j * k + n - 1) / k = j := by
  have hlt : n - 1 < k := lt_of_lt_of_le (Nat.sub_one_lt hn.ne') hle
  rw [Nat.add_sub_assoc hn, Nat.mul_comm, Nat.mul_add_div (Nat.zero_lt_of_lt hlt), Nat.div_eq_of_lt hlt,
    Nat.add_zero]

/-- The sector of an offset in a cluster. -/
lemma sectorAt_eq (hfs : fs.Mounted) (hle : n ≤ fs.bcs) (hn : n % sectorSize ≠ 0) :
    fs.sectorAt cluster (j * fs.bcs + n) = fs.database + fs.csize * (cluster j - 2) + n / sectorSize := by
  have hlt : n < fs.bcs := by
    refine lt_of_le_of_ne hle fun heq => hn ?_
    rw [heq, Fatfs.bcs, Nat.mul_mod_left]
  have hdiv : n / sectorSize < fs.csize := by
    rw [Nat.div_lt_iff_lt_mul (by decide)]
    exact hlt
  have hsect : (j * fs.bcs + n) / sectorSize = j * fs.csize + n / sectorSize := by
    rw [Fatfs.bcs, ← Nat.mul_assoc, Nat.mul_comm _ sectorSize, Nat.mul_add_div (by decide)]
  rw [Fatfs.sectorAt, hsect, Nat.mul_comm j, Nat.mul_add_div hfs.bcs_pos, Nat.div_eq_of_lt hlt, Nat.add_zero,
    Nat.mul_add_mod', Nat.mod_eq_of_lt hdiv]

/-- The cluster and the sector of an offset are found. -/
lemma meets_seekClusters (h : Stored fs bytes obj cluster) (hfs : fs.Mounted) (hofs : 0 < ofs)
    (hle : ofs ≤ obj.objsize) : Meets (Access.Has bytes (Fil.At fs bytes obj cluster pos) out)
      (seekClusters (some bytes) fs ofs) fun nsect s => (ofs % sectorSize ≠ 0 → nsect = fs.sectorAt cluster ofs) ∧
        s.Has bytes (Fil.Placed fs bytes obj cluster ofs) out := by
  apply (meets_seekStart h hfs hofs hle).bind
  rintro ⟨r, clst⟩ s ⟨i, htarget, hr, hclst, hs⟩
  change clst = cluster i at hclst
  change i * fs.bcs + r = ofs at htarget
  have hmem : 2 ≤ cluster i := (h.mem i (by omega)).1
  subst hclst
  revert s
  change Meets _ _ _
  apply Meets.ite
  · intro _
    apply (meets_seekLoop h hfs le_rfl hr htarget hle).bind
    rintro ⟨r, clst⟩ s ⟨j, htarget, hr, hend, hclst, hs⟩
    change clst = cluster j at hclst
    change j * fs.bcs + r = ofs at htarget
    obtain ⟨htwo, hmem⟩ := h.mem j (by omega)
    have hdatabase := hfs.database_pos
    subst hclst htarget
    revert s
    change Meets _ _ _
    apply Meets.bind (Q := fun _ => Access.Has bytes (Fil.Placed fs bytes obj cluster (j * fs.bcs + r)) out)
    · apply Meets.modify
      intro s hs
      have hsound := hs.fp.toSound
      refine ⟨hs.window, ⟨⟨hsound.object, hsound.valid, hsound.flag, hsound.err, hsound.buf⟩, ?_, hle,
        fun _ => ?_⟩, hs.out⟩
      · rw [hs.fp.fptr]
      · rw [sub_one_div_of_le hr hend]
        exact hs.fp.clust
    · intro _
      apply Meets.ite
      · intro hmod
        rw [hfs.clst2sect_eq htwo hmem]
        apply Meets.ite
        · omega
        · intro _
          exact Meets.pure fun s hs => ⟨fun _ => (sectorAt_eq hfs hend hmod).symm, hs⟩
      · intro hmod
        apply Meets.pure
        refine fun s hs => ⟨fun hne => absurd ?_ hne, hs⟩
        rw [Fatfs.bcs, ← Nat.mul_assoc, Nat.mul_comm _ sectorSize, Nat.mul_add_mod]
        exact not_not.mp hmod
  · intro hzero
    omega

lemma meets_seekTo (h : Stored fs bytes obj cluster) (hfs : fs.Mounted) (hle : ofs ≤ obj.objsize) :
    Meets (Access.Has bytes (Fil.At fs bytes obj cluster pos) out) (seekTo (some bytes) fs ofs) fun _ =>
      Access.Has bytes (Fil.At fs bytes obj cluster ofs) out := by
  apply Meets.bind (Q := fun nsect s => (ofs % sectorSize ≠ 0 → nsect = fs.sectorAt cluster ofs) ∧
    s.Has bytes (Fil.Placed fs bytes obj cluster ofs) out)
  · apply Meets.ite
    · intro hofs
      exact meets_seekClusters h hfs hofs hle
    · intro hofs
      obtain rfl := Nat.eq_zero_of_not_pos hofs
      apply Meets.bind (Q := fun _ => Access.Has bytes (Fil.Placed fs bytes obj cluster 0) out)
      · apply Meets.modify
        intro s hs
        have hsound := hs.fp.toSound
        exact ⟨hs.window, ⟨⟨hsound.object, hsound.valid, hsound.flag, hsound.err, hsound.buf⟩, rfl, hle,
          fun hlt => absurd hlt (lt_irrefl 0)⟩, hs.out⟩
      · intro _
        exact Meets.pure fun s hs => ⟨fun hne => absurd (Nat.zero_mod _) hne, hs⟩
  · intro nsect
    apply Meets.get_bind
    rintro s ⟨hsect, hs⟩
    rw [hs.fp.fptr]
    apply Meets.ite
    · intro hmod
      refine (meets_loadSector (P := Fil.Placed fs bytes obj cluster ofs) (fun _ hfp => hfp.toSound) ?_).here hs
      intro fp buf hplaced hsound
      exact ⟨⟨hsound, hplaced.fptr, hplaced.le, hplaced.clust⟩, hsect⟩
    · intro hmod
      apply Meets.pure
      rintro s rfl
      exact ⟨hs.window, ⟨hs.fp, fun hne => absurd hne hmod⟩, hs.out⟩

/-- `f_lseek` goes to the offset, or to the end of the file. -/
theorem meets_fLseek (h : Stored fs bytes obj cluster) (hfs : fs.Mounted) :
    Meets (Access.Has bytes (Fil.At fs bytes obj cluster pos) out) (fLseek (some bytes) fs ofs) fun _ =>
      Access.Has bytes (Fil.At fs bytes obj cluster (min ofs obj.objsize)) out := by
  apply Meets.get_bind
  intro s hs
  have hclip : clipOffset fs obj ofs = min ofs obj.objsize := by
    have hsize := h.objsize_lt
    by_cases hexfat : fs.fsType = .exfat
    · simp only [clipOffset, hexfat, ne_eq, not_true_eq_false, false_and, if_false]
      split_ifs <;> omega
    · rw [if_neg hexfat] at hsize
      simp only [clipOffset, hexfat, ne_eq, not_false_eq_true, true_and]
      split_ifs <;> omega
  rw [hs.fp.object, hs.fp.valid, hs.fp.err, if_neg (not_not.mpr rfl), if_neg (not_not.mpr rfl), hclip]
  exact (meets_seekTo h hfs (Nat.min_le_right _ _)).here hs

/-! ### Runs -/

/-- A file as its readers see it. -/
structure Reader where
  contents : Sector
  size : ℕ
  pos : ℕ

/-- The bytes at the position are read; the position goes to an offset, which is not behind the end. -/
def Reader.answer (r : Reader) : Request → Answer × Reader
  | .read bytesToRead =>
    let rcnt := min (bytesToRead.toNat % 2 ^ 32) (r.size - r.pos)
    (⟨true, slice r.contents r.pos rcnt⟩, { r with pos := r.pos + rcnt })
  | .seek offset => (⟨true, []⟩, { r with pos := min offset.toUInt64.toNat r.size })

variable {ι : Type} [DecidableEq ι]

def answers : (ι → Reader) → List (ι × Request) → List (ι × Answer)
  | _, [] => []
  | readers, (i, request) :: rest => (i, ((readers i).answer request).1) ::
      answers (Function.update readers i ((readers i).answer request).2) rest

/-- The file object is one of a file that is stored, and its readers see the file. -/
def Fil.Shows (fs : Fatfs) (bytes : ℕ → UInt8) (r : Reader) (fp : Fil) : Prop :=
  ∃ obj cluster, Stored fs bytes obj cluster ∧ r.contents = fs.contents bytes cluster ∧ r.size = obj.objsize ∧
    fp.At fs bytes obj cluster r.pos

/-- A call returns what the reader sees. -/
lemma meets_action (hfs : fs.Mounted) {r : Reader} (request : Request) :
    Meets (Access.Has bytes (Fil.Shows fs bytes r) []) (request.action (some bytes) fs) fun _ =>
      Access.Has bytes (Fil.Shows fs bytes (r.answer request).2) (r.answer request).1.bytes := by
  obtain ⟨contents, size, pos⟩ := r
  rintro s ⟨hwindow, ⟨obj, cluster, h, rfl, rfl, hat⟩, hout⟩
  cases request with
  | read bytesToRead =>
    obtain ⟨a, s', hrun, hs'⟩ := meets_fRead h hfs s ⟨hwindow, hat, hout⟩
    exact ⟨a, s', hrun, hs'.window, ⟨obj, cluster, h, rfl, rfl, hs'.fp⟩, hs'.out⟩
  | seek offset =>
    obtain ⟨a, s', hrun, hs'⟩ := meets_fLseek h hfs s ⟨hwindow, hat, hout⟩
    exact ⟨a, s', hrun, hs'.window, ⟨obj, cluster, h, rfl, rfl, hs'.fp⟩, hs'.out⟩

lemma run_eq_answers (hfs : fs.Mounted) {v : Volume ι} {readers : ι → Reader} (hwindow : v.window.Valid bytes)
    (hfiles : ∀ i, (v.files i).Shows fs bytes (readers i)) (requests : List (ι × Request)) :
    v.run (some bytes) fs requests = answers readers requests := by
  induction requests generalizing v readers with
  | nil => rfl
  | cons head rest ih =>
    obtain ⟨i, request⟩ := head
    obtain ⟨a, s, hrun, hs⟩ := meets_action hfs request ⟨v.window, v.files i, []⟩
      ⟨hwindow, hfiles i, rfl⟩
    have hserve : v.serve (some bytes) fs i request = (((readers i).answer request).1, v.put i s) := by
      rw [Volume.serve, hrun]
      simp only [hs.out]
      cases request <;> rfl
    rw [Volume.run, answers, hserve]
    refine congrArg _ (ih hs.window fun j => ?_)
    by_cases hj : j = i
    · subst hj
      simp only [Volume.put, Function.update_self]
      exact hs.fp
    · simp only [Volume.put, Function.update_of_ne hj]
      exact hfiles j

/-- The object of a file that has been opened. -/
def ObjId.attached (fs : Fatfs) (obj : ObjId) : ObjId := { obj with hasFs := true, id := fs.id }

lemma Fil.opened_at (hfs : fs.Mounted) (obj : ObjId) (cluster : ℕ → ℕ) {mode : UInt8}
    (hmode : mode &&& faRead ≠ 0) (clust : ℕ) (buf : Sector) :
    (Fil.opened fs obj mode clust buf).At fs bytes (obj.attached fs) cluster 0 where
  object := rfl
  valid := if_pos ⟨rfl, hfs.fsType, rfl⟩
  flag := hmode
  err := rfl
  buf hsect := absurd rfl hsect
  fptr := rfl
  le := Nat.zero_le _
  clust hpos := absurd hpos (lt_irrefl 0)
  sect hmod := absurd (Nat.zero_mod _) hmod

/-- Whatever calls are made about the open files, in any order, each file is read and sought as its contents
and a position, which the calls about other files leave alone. -/
theorem run_opened (hfs : fs.Mounted) {obj : ι → ObjId} {cluster : ι → ℕ → ℕ} {mode : ι → UInt8}
    (h : ∀ i, Stored fs bytes (obj i) (cluster i)) (hmode : ∀ i, mode i &&& faRead ≠ 0)
    (hwindow : window.Valid bytes) (clust : ι → ℕ) (buf : ι → Sector) (requests : List (ι × Request)) :
    (⟨window, fun i => Fil.opened fs (obj i) (mode i) (clust i) (buf i)⟩ : Volume ι).run (some bytes) fs
      requests = answers (fun i => ⟨fs.contents bytes (cluster i), (obj i).objsize, 0⟩) requests := by
  refine run_eq_answers hfs hwindow (fun i => ?_) requests
  refine ⟨(obj i).attached fs, cluster i, ?_, rfl, rfl, Fil.opened_at hfs _ _ (hmode i) _ _⟩
  exact ⟨(h i).stat, (h i).objsize_lt, (h i).zero, (h i).mem, (h i).follows⟩

lemma smallFs_mounted : smallFs.Mounted := ⟨by simp [smallFs], ⟨0, by decide, rfl⟩, by decide, by decide⟩

lemma smallObj_stored : Stored smallFs smallDisk smallObj (· + 2) where
  stat h := by simp [smallFs] at h
  objsize_lt := by decide
  zero _ := rfl
  mem i hi := by
    simp only [Fatfs.bcs, smallFs, smallObj, sectorSize] at hi ⊢
    omega
  follows i hi := by
    have hi : i = 0 := by
      simp only [Fatfs.bcs, smallFs, smallObj, sectorSize] at hi
      omega
    subst hi
    exact (field_ldWord (smallFs.area smallDisk) 3).mask (m := 12) (by decide)

/-- Two readers of a file of 600 bytes. -/
theorem run_opened_small : (⟨smallWindow, fun _ => Fil.opened smallFs smallObj faRead 0 fun _ => 0⟩ :
    Volume Bool).run (some smallDisk) smallFs
      [(true, .seek 511), (false, .read 1), (true, .read 2), (true, .seek (-1)), (true, .read 5)] =
    [(true, ⟨true, []⟩), (false, ⟨true, [0]⟩), (true, ⟨true, [7, 9]⟩), (true, ⟨true, []⟩),
      (true, ⟨true, []⟩)] :=
  (run_opened smallFs_mounted (fun _ => smallObj_stored) (fun _ => by decide) smallWindow_valid _ _ _).trans
    (by decide +kernel)

end PiKachulm.Fs

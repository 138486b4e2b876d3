import PiKachulm.Fs.Directory
import PiKachulm.Fs.StoredFile

/-!
# The table of a directory

The entries of a directory are in the sectors of the root directory of a FAT12 or FAT16 volume, or in a chain
of clusters. Moving a directory object from entry to entry goes through the table in order and stops at its end.
-/

namespace PiKachulm.Fs

open Core

variable {fs : Fatfs} {bytes : ℕ → UInt8} {obj : ObjId} {cluster : ℕ → ℕ} {size pos k n : ℕ} {window : Window}
  {s : DirAccess}

/-- The sector of a byte of a directory. -/
def Fatfs.dirSector (fs : Fatfs) (cluster : ℕ → ℕ) (pos : ℕ) : ℕ :=
  if cluster (pos / fs.bcs) = 0 then fs.dirbase + pos / sectorSize else fs.sectorAt cluster pos

/-- The entry at a position. -/
def Fatfs.slotAt (fs : Fatfs) (bytes : ℕ → UInt8) (cluster : ℕ → ℕ) (pos : ℕ) : Slot := fun i =>
  if i < szdire then bytes (fs.dirSector cluster pos * sectorSize + (pos % sectorSize + i)) else 0

/-- The entries from a position on. -/
def Fatfs.slotsAt (fs : Fatfs) (bytes : ℕ → UInt8) (cluster : ℕ → ℕ) : ℕ → ℕ → List Slot
  | 0, _ => []
  | n + 1, pos => fs.slotAt bytes cluster pos :: fs.slotsAt bytes cluster n (pos + szdire)

/-- The table of a directory of a FAT12, FAT16 or FAT32 volume, with its clusters, if any, and its size. -/
inductive IsTable (fs : Fatfs) (bytes : ℕ → UInt8) (obj : ObjId) : (ℕ → ℕ) → ℕ → Prop
  | root (htype : fs.fsType ≠ .exfat) (hstart : startCluster fs obj = 0) (hbase : 0 < fs.dirbase)
      (hpos : 0 < fs.nRootdir) (hlt : fs.nRootdir < 2 ^ 16) (hmod : 16 ∣ fs.nRootdir) :
      IsTable fs bytes obj (fun _ => 0) (fs.nRootdir * szdire)
  | chain {cluster : ℕ → ℕ} {n : ℕ} (hfs : fs.Mounted) (htype : fs.fsType ≠ .exfat)
      (hstart : startCluster fs obj = cluster 0) (hpos : 0 < n)
      (hmem : ∀ i < n, 2 ≤ cluster i ∧ cluster i < fs.nFatent)
      (hnext : ∀ i, i + 1 < n → Follows fs bytes obj (cluster i) (cluster (i + 1)))
      (hlast : n * fs.bcs < maxDir → ∃ v, fs.nFatent ≤ v ∧ Follows fs bytes obj (cluster (n - 1)) v) :
      IsTable fs bytes obj cluster (min (n * fs.bcs) maxDir)

/-- The directory object points to the entry at a position. -/
structure Dir.At (fs : Fatfs) (cluster : ℕ → ℕ) (pos : ℕ) (dp : Dir) : Prop where
  dptr : dp.dptr = pos
  clust : dp.clust = cluster (pos / fs.bcs)
  sect : dp.sect = fs.dirSector cluster pos
  dir : dp.dir = pos % sectorSize

structure DirAccess.At (fs : Fatfs) (bytes : ℕ → UInt8) (cluster : ℕ → ℕ) (pos : ℕ) (s : DirAccess) : Prop
    extends Dir.At fs cluster pos s.dp where
  window : s.window.Valid bytes

/-- The object points to an entry, with a window. -/
def DirAccess.moved (fs : Fatfs) (cluster : ℕ → ℕ) (pos : ℕ) (window : Window) (s : DirAccess) : DirAccess :=
  ⟨window, { s.dp with
    dptr := pos, clust := cluster (pos / fs.bcs), sect := fs.dirSector cluster pos, dir := pos % sectorSize },
    s.lfnbuf⟩

/-- The end of the table has been reached. -/
def DirAccess.ended (window : Window) (s : DirAccess) : DirAccess := ⟨window, { s.dp with sect := 0 }, s.lfnbuf⟩

lemma DirAccess.at_moved (hw : window.Valid bytes) (s : DirAccess) :
    (s.moved fs cluster pos window).At fs bytes cluster pos := ⟨⟨rfl, rfl, rfl, rfl⟩, hw⟩

/-! ### The window -/

lemma exists_moveWindow_sect (h : window.Valid bytes) (sect : ℕ) : ∃ w, w.Valid bytes ∧ w.sect = sect ∧
    moveWindow (some bytes) window sect = (true, w) := by
  by_cases hsect : sect = window.sect
  · exact ⟨window, h, hsect.symm, if_neg (not_not.mpr hsect)⟩
  · have hw : (Window.mk sect fun j => bytes (sect * sectorSize + j)).Valid bytes := fun _ _ => rfl
    exact ⟨_, hw, rfl, if_pos hsect⟩

/-- The sector of the entry is put into the window. -/
lemma exists_loadEntry (h : s.At fs bytes cluster pos) (hpos : szdire ∣ pos) : ∃ w, w.Valid bytes ∧
    loadEntry (some bytes) s = .ok () { s with window := w } ∧
      DirAccess.slot { s with window := w } = fs.slotAt bytes cluster pos := by
  obtain ⟨w, hw, hsect, hmove⟩ := exists_moveWindow_sect h.window s.dp.sect
  refine ⟨w, hw, ?_, ?_⟩
  · rw [loadEntry, bind_of_ok (show (get : DirAction DirAccess) s = .ok s s from rfl), hmove]
    rfl
  · funext i
    rw [DirAccess.slot, Fatfs.slotAt]
    split_ifs with hi
    · have hlt : pos % sectorSize + i < sectorSize := by
        simp only [szdire, sectorSize] at hpos hi ⊢
        omega
      rw [h.dir, hw _ hlt, hsect, h.sect]
    · rfl

/-! ### Moving on -/

namespace IsTable

lemma size_le (h : IsTable fs bytes obj cluster size) : size ≤ maxDir := by
  cases h with
  | root htype hstart hbase hpos hlt hmod =>
    simp only [szdire, maxDir]
    omega
  | chain => exact min_le_right _ _

lemma size_pos (h : IsTable fs bytes obj cluster size) : 0 < size := by
  cases h with
  | root htype hstart hbase hpos hlt hmod => exact Nat.mul_pos hpos (by decide)
  | chain hfs htype hstart hpos => exact lt_min (Nat.mul_pos hpos hfs.bcs_pos) (by decide)

lemma sectorSize_dvd_size (h : IsTable fs bytes obj cluster size) : sectorSize ∣ size := by
  cases h with
  | root htype hstart hbase hpos hlt hmod =>
    obtain ⟨q, hq⟩ := hmod
    refine ⟨q, ?_⟩
    rw [hq]
    simp only [szdire, sectorSize]
    omega
  | @chain cluster n hfs =>
    obtain hle | hle := le_total (n * fs.bcs) maxDir
    · rw [min_eq_left hle, Fatfs.bcs, ← Nat.mul_assoc]
      exact Nat.dvd_mul_left _ _
    · rw [min_eq_right hle]
      decide

/-- Inside of the table, the cluster is in the volume or there are no clusters. -/
lemma mem (h : IsTable fs bytes obj cluster size) (hlt : pos < size) :
    (∀ i, cluster i = 0) ∨ fs.Mounted ∧ 2 ≤ cluster (pos / fs.bcs) ∧ cluster (pos / fs.bcs) < fs.nFatent := by
  cases h with
  | root => exact .inl fun _ => rfl
  | chain hfs htype hstart hpos hmem =>
    refine .inr ⟨hfs, hmem _ ?_⟩
    exact (Nat.div_lt_iff_lt_mul hfs.bcs_pos).mpr (hlt.trans_le (min_le_left _ _))

lemma dirSector_ne_zero (h : IsTable fs bytes obj cluster size) (hlt : pos < size) :
    fs.dirSector cluster pos ≠ 0 := by
  cases h with
  | root htype hstart hbase =>
    rw [Fatfs.dirSector, if_pos rfl]
    exact (Nat.add_pos_left hbase _).ne'
  | chain hfs htype hstart hpos hmem =>
    have hi := (Nat.div_lt_iff_lt_mul hfs.bcs_pos).mpr (hlt.trans_le (min_le_left _ _))
    have hdatabase := hfs.database_pos
    rw [Fatfs.dirSector, if_neg (by have := hmem _ hi; omega), Fatfs.sectorAt]
    omega

/-- The next entry is in the same sector. -/
lemma same_sector (h : IsTable fs bytes obj cluster size) (hlt : pos < size)
    (hmod : pos % sectorSize + szdire < sectorSize) :
    cluster ((pos + szdire) / fs.bcs) = cluster (pos / fs.bcs) ∧
      fs.dirSector cluster (pos + szdire) = fs.dirSector cluster pos := by
  obtain hzero | ⟨hfs, -⟩ := h.mem hlt
  · rw [Fatfs.dirSector, Fatfs.dirSector, hzero, hzero, div_add_of_lt hmod]
    exact ⟨rfl, rfl⟩
  · rw [Fatfs.dirSector, Fatfs.dirSector, div_add_of_lt (hfs.mod_bcs_add_lt hmod), hfs.sectorAt_add hmod,
      div_add_of_lt hmod]
    exact ⟨rfl, rfl⟩

end IsTable

/-- The first entry of a sector comes after the last one of the sector before. -/
lemma sector_boundary (hpos : szdire ∣ pos) (hmod : (pos + szdire) % sectorSize = 0) :
    (pos + szdire) / sectorSize = pos / sectorSize + 1 ∧ pos % sectorSize + szdire = sectorSize := by
  simp only [szdire, sectorSize] at hpos hmod ⊢
  omega

/-- The next sector of a root directory. -/
lemma nextSector_root (hs : s.At fs bytes (fun _ => 0) pos) (hpos : szdire ∣ pos)
    (hmod : (pos + szdire) % sectorSize = 0) : nextSector (some bytes) fs (pos + szdire) s =
      if pos + szdire < fs.nRootdir * szdire then
        .ok () { s with dp.sect := fs.dirSector (fun _ => 0) (pos + szdire) }
      else .error .noFile (s.ended s.window) := by
  have hsect : s.dp.sect + 1 = fs.dirSector (fun _ => 0) (pos + szdire) := by
    rw [hs.sect, Fatfs.dirSector, Fatfs.dirSector, if_pos rfl, if_pos rfl, (sector_boundary hpos hmod).1]
    rfl
  have hclust : s.dp.clust = 0 := hs.clust
  change (if s.dp.clust = 0 then if (pos + szdire) / szdire ≥ fs.nRootdir then endOfTable else pure () else _ :
    DirAction Unit) { s with dp.sect := s.dp.sect + 1 } = _
  rw [if_pos hclust, hsect]
  by_cases hlt : pos + szdire < fs.nRootdir * szdire
  · rw [if_pos hlt, if_neg (Nat.not_le.mpr ((Nat.div_lt_iff_lt_mul (by decide)).mpr hlt))]
    rfl
  · rw [if_neg hlt, if_pos ((Nat.le_div_iff_mul_le (by decide)).mpr (Nat.not_lt.mp hlt))]
    rfl

/-- `get_fat` finds what follows a cluster. -/
lemma exists_lookupDir (hfs : fs.Mounted) (htype : fs.fsType ≠ .exfat) (hw : s.window.Valid bytes) {clst v : ℕ}
    (htwo : 2 ≤ clst) (hlt : clst < fs.nFatent) (hfollows : Follows fs bytes s.dp.obj clst v) :
    ∃ w, w.Valid bytes ∧ ∀ sect, lookupDir (some bytes) fs clst { s with dp.sect := sect } =
      .ok v { s with dp.sect := sect, window := w } := by
  have hobj : s.dp.obj.InTable fs := fun hexfat => absurd hexfat htype
  obtain ⟨v', w, hget, hw', hfield⟩ := exists_getFat hfs.fsType hw hobj htwo hlt
  rw [Follows, if_neg fun hand => htype hand.1] at hfollows
  obtain rfl := hfollows.unique hfield
  refine ⟨w, hw', fun sect => ?_⟩
  rw [lookupDir, hget]

lemma follows_lt (htype : fs.fsType ≠ .exfat) {clst v : ℕ} (hfollows : Follows fs bytes obj clst v) :
    v < diskError := by
  rw [Follows, if_neg fun hand => htype hand.1] at hfollows
  refine hfollows.lt.trans_le ?_
  cases htype' : fs.fsType with
  | exfat => exact absurd htype' htype
  | _ => decide

/-- Inside of a cluster. -/
lemma nextSector_same_cluster (hclust : s.dp.clust ≠ 0) (hsect : csect fs k ≠ 0) :
    nextSector (some bytes) fs k s = .ok () { s with dp.sect := s.dp.sect + 1 } := by
  change (if s.dp.clust = 0 then _ else if csect fs k = 0 then _ else pure () : DirAction Unit)
    { s with dp.sect := s.dp.sect + 1 } = _
  rw [if_neg hclust, if_neg hsect]
  rfl

/-- At the end of a cluster. -/
lemma nextSector_next_cluster (hclust : s.dp.clust ≠ 0) (hsect : csect fs k = 0) {v : ℕ}
    (hlookup : lookupDir (some bytes) fs s.dp.clust { s with dp.sect := s.dp.sect + 1 } =
      .ok v { s with dp.sect := s.dp.sect + 1, window := window }) (hv : 1 < v) (hv' : v < diskError) :
    nextSector (some bytes) fs k s =
      if v ≥ fs.nFatent then .error .noFile (s.ended window)
      else .ok () { s with window := window, dp.clust := v, dp.sect := clst2sect fs v } := by
  change (if s.dp.clust = 0 then _ else if csect fs k = 0 then lookupDir (some bytes) fs s.dp.clust >>= fun clst =>
      if clst ≤ 1 then throw .intErr else if clst = diskError then throw .diskErr else
      if clst ≥ fs.nFatent then endOfTable else modify fun s : DirAccess => { s with
        dp.clust := clst, dp.sect := clst2sect fs clst } else _ : DirAction Unit)
    { s with dp.sect := s.dp.sect + 1 } = _
  rw [if_neg hclust, if_pos hsect]
  change EStateM.bind _ _ _ = _
  rw [EStateM.bind, hlookup]
  dsimp only
  rw [if_neg (Nat.not_le.mpr hv), if_neg hv'.ne]
  split_ifs <;> rfl

/-- The first entry of a cluster comes after the last one of the cluster before. -/
lemma cluster_boundary (hfs : fs.Mounted) (hmod : (pos + szdire) % fs.bcs = 0) :
    ∃ i, pos + szdire = (i + 1) * fs.bcs ∧ i = pos / fs.bcs := by
  have hbcs : szdire < fs.bcs :=
    lt_of_lt_of_le (by decide : szdire < 1 * sectorSize) (Nat.mul_le_mul_right _ hfs.csize_pos)
  obtain ⟨q, hq⟩ := Nat.dvd_of_mod_eq_zero hmod
  obtain _ | i := q
  · rw [Nat.mul_zero] at hq
    exact absurd hq (Nat.succ_ne_zero _)
  · rw [Nat.mul_comm] at hq
    refine ⟨i, hq, ?_⟩
    have hlast : pos = i * fs.bcs + (fs.bcs - szdire + 1) - 1 := by
      rw [Nat.add_mul, Nat.one_mul] at hq
      omega
    rw [hlast, sub_one_div_of_le (Nat.succ_pos _) (by simp only [szdire] at hbcs ⊢; omega)]

/-- The next sector is in the same cluster. -/
lemma same_cluster (hdiv : (pos + szdire) / sectorSize = pos / sectorSize + 1)
    (hmod : (pos + szdire) / sectorSize % fs.csize ≠ 0) : (pos + szdire) / fs.bcs = pos / fs.bcs ∧
      fs.sectorAt cluster (pos + szdire) = fs.sectorAt cluster pos + 1 := by
  have hquot := sub_one_div hmod
  have hcluster : (pos + szdire) / fs.bcs = pos / fs.bcs := by
    rw [fs.div_bcs, fs.div_bcs, ← hquot, hdiv, Nat.add_sub_cancel]
  refine ⟨hcluster, ?_⟩
  rw [Fatfs.sectorAt, Fatfs.sectorAt, hcluster, hdiv, Nat.add_assoc _ _ 1]
  have h := Nat.div_add_mod (pos / sectorSize + 1) fs.csize
  have h' := Nat.div_add_mod (pos / sectorSize) fs.csize
  rw [hdiv, Nat.add_sub_cancel] at hquot
  rw [← hquot] at h
  omega

/-- The first sector of a cluster. -/
lemma dirSector_cluster (hfs : fs.Mounted) {i : ℕ} (htwo : 2 ≤ cluster i) (hlt : cluster i < fs.nFatent) :
    fs.dirSector cluster (i * fs.bcs) = clst2sect fs (cluster i) := by
  have hsect : i * fs.bcs / sectorSize % fs.csize = 0 := by
    rw [Fatfs.bcs, ← Nat.mul_assoc, Nat.mul_div_cancel _ (by decide), Nat.mul_mod_left]
  rw [Fatfs.dirSector, Nat.mul_div_cancel _ hfs.bcs_pos, if_neg (by omega), Fatfs.sectorAt,
    Nat.mul_div_cancel _ hfs.bcs_pos, hsect, hfs.clst2sect_eq htwo hlt, Nat.add_zero]

/-- The next sector of a directory in clusters. -/
lemma nextSector_chain (hfs : fs.Mounted) (htype : fs.fsType ≠ .exfat) (hobj : s.dp.obj = obj)
    (hmem : ∀ i < n, 2 ≤ cluster i ∧ cluster i < fs.nFatent)
    (hnext : ∀ i, i + 1 < n → Follows fs bytes obj (cluster i) (cluster (i + 1)))
    (hlast : pos + szdire = n * fs.bcs → ∃ v, fs.nFatent ≤ v ∧ Follows fs bytes obj (cluster (n - 1)) v)
    (hs : s.At fs bytes cluster pos) (hpos : szdire ∣ pos) (hlt : pos < n * fs.bcs)
    (hmod : (pos + szdire) % sectorSize = 0) : ∃ w : Window, w.Valid bytes ∧
      nextSector (some bytes) fs (pos + szdire) s =
        if pos + szdire < n * fs.bcs then .ok () { s with
          window := w, dp.clust := cluster ((pos + szdire) / fs.bcs), dp.sect := fs.dirSector cluster (pos + szdire) }
        else .error .noFile (s.ended w) := by
  have hi : pos / fs.bcs < n := (Nat.div_lt_iff_lt_mul hfs.bcs_pos).mpr hlt
  obtain ⟨htwo, hfatent⟩ := hmem _ hi
  have hclust : s.dp.clust ≠ 0 := by
    rw [hs.clust]
    omega
  obtain ⟨hdiv, hsum⟩ := sector_boundary hpos hmod
  have hbcs := fs.mod_bcs (pos + szdire)
  rw [hmod, Nat.zero_add, ← hfs.csect_eq] at hbcs
  by_cases hsect : csect fs (pos + szdire) = 0
  · rw [hsect, Nat.mul_zero] at hbcs
    obtain ⟨i, hend, rfl⟩ := cluster_boundary hfs hbcs
    rw [hend, Nat.mul_div_cancel _ hfs.bcs_pos]
    rw [hend] at hsect
    by_cases hin : pos / fs.bcs + 1 < n
    · obtain ⟨htwo', hfatent'⟩ := hmem _ hin
      have hfollows := hnext _ hin
      rw [← hobj] at hfollows
      obtain ⟨w, hw, hlookup⟩ := exists_lookupDir hfs htype hs.window htwo hfatent hfollows
      rw [← hs.clust] at hlookup
      refine ⟨w, hw, ?_⟩
      rw [nextSector_next_cluster hclust hsect (hlookup _) htwo' (hfatent'.trans_le ?_), if_neg hfatent'.not_ge,
        if_pos ((Nat.mul_lt_mul_right hfs.bcs_pos).mpr hin), dirSector_cluster hfs htwo' hfatent']
      exact Nat.le_of_lt_succ hfs.nFatent_lt
    · have hlen : pos / fs.bcs + 1 = n := le_antisymm hi (Nat.not_lt.mp hin)
      obtain ⟨v, hv, hfollows⟩ := hlast (hlen ▸ hend)
      have hlt' := follows_lt htype hfollows
      rw [← hobj, ← hlen, Nat.add_sub_cancel] at hfollows
      obtain ⟨w, hw, hlookup⟩ := exists_lookupDir hfs htype hs.window htwo hfatent hfollows
      rw [← hs.clust] at hlookup
      refine ⟨w, hw, ?_⟩
      rw [nextSector_next_cluster hclust hsect (hlookup _) (by omega) hlt', if_pos hv, if_neg]
      rw [hlen]
      exact lt_irrefl _
  · refine ⟨s.window, hs.window, ?_⟩
    obtain ⟨hcluster, hsector⟩ := same_cluster hdiv (hfs.csect_eq _ ▸ hsect)
    have hin : pos + szdire < n * fs.bcs := by
      rw [← Nat.div_lt_iff_lt_mul hfs.bcs_pos, hcluster]
      exact hi
    rw [nextSector_same_cluster hclust hsect, if_pos hin, hcluster, ← hs.clust, hs.sect, Fatfs.dirSector,
      Fatfs.dirSector, hcluster, ← hs.clust, if_neg hclust, if_neg hclust, hsector]

/-- The next sector, whatever table it is. -/
lemma IsTable.exists_nextSector (h : IsTable fs bytes s.dp.obj cluster size) (hs : s.At fs bytes cluster pos)
    (hpos : szdire ∣ pos) (hlt : pos < size) (hmax : pos + szdire < maxDir)
    (hmod : (pos + szdire) % sectorSize = 0) : ∃ w : Window, w.Valid bytes ∧
      nextSector (some bytes) fs (pos + szdire) s =
        if pos + szdire < size then .ok () { s with
          window := w, dp.clust := cluster ((pos + szdire) / fs.bcs), dp.sect := fs.dirSector cluster (pos + szdire) }
        else .error .noFile (s.ended w) := by
  cases h with
  | root =>
    have hclust : s.dp.clust = 0 := hs.clust
    refine ⟨s.window, hs.window, ?_⟩
    rw [nextSector_root hs hpos hmod, ← hclust]
  | @chain cluster n hfs htype hstart hn hmem hnext hlast =>
    have hsize : pos + szdire < min (n * fs.bcs) maxDir ↔ pos + szdire < n * fs.bcs := by
      rw [lt_min_iff, and_iff_left hmax]
    have hlast' : pos + szdire = n * fs.bcs →
        ∃ v, fs.nFatent ≤ v ∧ Follows fs bytes s.dp.obj (cluster (n - 1)) v := fun hend => hlast (hend ▸ hmax)
    obtain ⟨w, hw, heq⟩ := nextSector_chain hfs htype rfl hmem hnext hlast' hs hpos
      (hlt.trans_le (min_le_left _ _)) hmod
    exact ⟨w, hw, heq.trans (if_congr hsize.symm rfl rfl)⟩

/-- `dir_next` leads to the next entry, or says that the table ends. -/
lemma IsTable.exists_dirNext (h : IsTable fs bytes s.dp.obj cluster size) (hs : s.At fs bytes cluster pos)
    (hpos : szdire ∣ pos) (hlt : pos < size) : ∃ w : Window, w.Valid bytes ∧ dirNext (some bytes) fs s =
      if pos + szdire < size then .ok () (s.moved fs cluster (pos + szdire) w)
      else .error .noFile (s.ended w) := by
  have hsect : s.dp.sect ≠ 0 := hs.sect ▸ h.dirSector_ne_zero hlt
  have hle := h.size_le
  change ∃ w : Window, w.Valid bytes ∧ (if s.dp.dptr + szdire ≥ maxDir ∨ s.dp.sect = 0 then endOfTable
    else if (s.dp.dptr + szdire) % sectorSize = 0 then
      nextSector (some bytes) fs (s.dp.dptr + szdire) >>= fun _ => setOffset (s.dp.dptr + szdire)
    else setOffset (s.dp.dptr + szdire) : DirAction Unit) s = _
  rw [hs.dptr]
  by_cases hmax : pos + szdire ≥ maxDir
  · refine ⟨s.window, hs.window, ?_⟩
    rw [if_pos (.inl hmax), if_neg (Nat.not_lt.mpr (hle.trans hmax))]
    rfl
  · rw [if_neg (not_or.mpr ⟨hmax, hsect⟩)]
    by_cases hmod : (pos + szdire) % sectorSize = 0
    · obtain ⟨w, hw, hnext⟩ := h.exists_nextSector hs hpos hlt (Nat.not_le.mp hmax) hmod
      refine ⟨w, hw, ?_⟩
      rw [if_pos hmod]
      change EStateM.bind _ _ _ = _
      rw [EStateM.bind, hnext]
      split_ifs <;> rfl
    · have hin : pos % sectorSize + szdire < sectorSize ∧ pos + szdire < size := by
        have hsize := h.sectorSize_dvd_size
        simp only [szdire, sectorSize] at hpos hmod hsize ⊢
        omega
      obtain ⟨hcluster, hsector⟩ := h.same_sector hlt hin.1
      refine ⟨s.window, hs.window, ?_⟩
      rw [if_neg hmod, if_pos hin.2, DirAccess.moved, hcluster, hsector, ← hs.clust, ← hs.sect]
      rfl

/-- The object with its first entry, in a window. -/
def DirAccess.rewound (fs : Fatfs) (cluster : ℕ → ℕ) (s : DirAccess) : DirAccess :=
  { s with dp.obj.stat := if rootInClusters fs s.dp.obj then 0 else s.dp.obj.stat }.moved fs cluster 0 s.window

/-- `dir_sdi` leads to the first entry. -/
lemma IsTable.dirSdi_zero (h : IsTable fs bytes s.dp.obj cluster size) :
    dirSdi (some bytes) fs 0 s = .ok () (s.rewound fs cluster) := by
  change (if startCluster fs s.dp.obj = 0 then if 0 / szdire ≥ fs.nRootdir then throw .intErr else
      setSector 0 fs.dirbase 0 else setSector (startCluster fs s.dp.obj) (clst2sect fs (startCluster fs s.dp.obj)) 0 :
    DirAction Unit) { s with
      dp.dptr := 0, dp.obj.stat := if rootInClusters fs s.dp.obj then 0 else s.dp.obj.stat } = _
  cases h with
  | root htype hstart hbase hpos =>
    rw [if_pos hstart, if_neg (by rw [Nat.zero_div]; exact Nat.not_le.mpr hpos)]
    change (if fs.dirbase = 0 then throw .intErr else modify _ : DirAction Unit) _ = _
    rw [if_neg hbase.ne']
    rfl
  | @chain cluster n hfs htype hstart hpos hmem =>
    obtain ⟨htwo, hlt⟩ := hmem 0 hpos
    have hsect := dirSector_cluster hfs htwo hlt
    have hne := (IsTable.chain hfs htype hstart hpos hmem ‹_› ‹_›).dirSector_ne_zero
      (lt_min (Nat.mul_pos hpos hfs.bcs_pos) (by decide : 0 < maxDir))
    rw [Nat.zero_mul] at hsect
    rw [hstart, if_neg (by omega), ← hsect]
    change (if fs.dirSector cluster 0 = 0 then throw .intErr else modify _ : DirAction Unit) _ = _
    rw [if_neg hne, DirAccess.rewound, DirAccess.moved, Nat.zero_div fs.bcs]
    rfl

end PiKachulm.Fs

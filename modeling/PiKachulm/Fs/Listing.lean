import PiKachulm.Fs.DirTable

/-!
# Listing a directory

What the entries of a directory mean: files with short names, files with long names, and entries that are not
files. A user who reads a directory is told about its files, one by one, and then that there are no more.
-/

namespace PiKachulm.Fs

open Core

/-! ### Files of a directory -/

/-- A file: its long name, if any, and the entry with its short name. -/
structure Entry where
  long : Option (List ℕ)
  sfn : Slot

/-- An entry with the short name of a file. -/
structure IsSfn (dir : Slot) : Prop where
  ne_zero : dir 0 ≠ 0
  ne_ddem : dir 0 ≠ ddem
  ne_dot : dir 0 ≠ 0x2E
  attr : attr dir &&& amVol = 0

/-- An entry that is not for a file: it is deleted, or a link to a directory, or the label of the volume. -/
structure IsSkipped (dir : Slot) : Prop where
  ne_zero : dir 0 ≠ 0
  skipped : dir 0 = ddem ∨ dir 0 = 0x2E ∨ attr dir &&& ~~~amArc = amVol

/-- The entries of a directory are those of its files, in order. -/
inductive Lists : List Slot → List Entry → Prop
  | nil : Lists [] []
  | stop {dir : Slot} {rest : List Slot} (h : dir 0 = 0) : Lists (dir :: rest) []
  | skip {dir : Slot} {rest : List Slot} {es : List Entry} (h : IsSkipped dir) (hrest : Lists rest es) :
      Lists (dir :: rest) es
  | short {dir : Slot} {rest : List Slot} {es : List Entry} (h : IsSfn dir) (hrest : Lists rest es) :
      Lists (dir :: rest) (⟨none, dir⟩ :: es)
  | long {name : List ℕ} {parts : List Slot} {dir : Slot} {rest : List Slot} {es : List Entry}
      (hname : IsLongName name) (hparts : AreParts name (sumSfn dir) (partCount name) parts) (h : IsSfn dir)
      (hrest : Lists rest es) : Lists (parts ++ dir :: rest) (⟨some name, dir⟩ :: es)

/-- The name that is shown. -/
def Entry.name (e : Entry) : List UInt8 :=
  match e.long with
  | none => shortName e.sfn
  | some name => if convertLfn name 0 [] ≠ [] then convertLfn name 0 [] else shortName e.sfn

def Entry.info (e : Entry) : FileInfo :=
  ⟨e.name, decide (attr e.sfn &&& amDir ≠ 0)⟩

variable {fs : Fatfs} {bytes : ℕ → UInt8} {obj : ObjId} {cluster : ℕ → ℕ} {size pos k n fuel : ℕ}
  {window : Window} {s s' s₁ s₂ : DirAccess} {dir : Slot} {ord sum ord' sum' : UInt8} {res : FResult} {name : List ℕ}
  {es : List Entry} {e : Entry}

/-! ### One entry -/

/-- The attributes of a file are neither those of a long name nor those of a label. -/
lemma attr_of_and_amVol : ∀ a : UInt8, a &&& amVol = 0 → a ≠ amLfn ∧ a &&& ~~~amArc ≠ amVol :=
  forall_uint8 (by decide +kernel)

lemma readSfn_eq (ord sum : UInt8) (s : DirAccess) : readSfn ord sum s = .ok ()
    { s with dp.blkOfs := if ord ≠ 0 ∨ sum ≠ sumSfn s.slot then noLfn else s.dp.blkOfs } := by
  change (if ord ≠ 0 ∨ sum ≠ sumSfn s.slot then set { s with dp.blkOfs := noLfn } else pure () : DirAction Unit) s = _
  split_ifs <;> rfl

lemma capturePart_eq {b : UInt8} {blkOfs : ℕ} {buf : ℕ → ℕ} (hb : b = ord) (hsum : sum = s.slot 13)
    (hpick : pickLfn s.lfnbuf s.slot = (true, buf)) : capturePart b ord sum blkOfs s =
      .ok (ord - 1, sum) { s with dp.blkOfs := blkOfs, lfnbuf := buf } := by
  change (if b = ord ∧ sum = s.slot 13 then set { s with
      dp.blkOfs := blkOfs, lfnbuf := (pickLfn s.lfnbuf s.slot).2 } >>= fun _ =>
      pure (if (pickLfn s.lfnbuf s.slot).1 then ord - 1 else 0xFF, sum) else _ : DirAction _) _ = _
  rw [if_pos ⟨hb, hsum⟩, hpick, if_pos rfl]
  rfl

/-- A part is accepted when the parts after it have been read. -/
lemma readLfn_part (h : IsLongName name) (hk : k < partCount name) (hpart : IsPart name sum' k s.slot)
    (hstate : k + 1 < partCount name →
      ord = .ofNat (k + 1) ∧ sum = sum' ∧ HoldsFrom name (13 * (k + 1)) s.lfnbuf) :
    ∃ buf, HoldsFrom name (13 * k) buf ∧ readLfn ord sum s = .ok (.ofNat k, sum')
      { s with dp.blkOfs := if k + 1 = partCount name then s.dp.dptr else s.dp.blkOfs, lfnbuf := buf } := by
  have hk20 : k < 20 := hk.trans_le h.partCount_le
  obtain ⟨buf, hpick, hbuf⟩ := pickLfn_part h hk hpart fun hlt => (hstate hlt).2.2
  have hpred : ∀ k < 20, UInt8.ofNat (k + 1) - 1 = .ofNat k := by decide
  refine ⟨buf, hbuf, ?_⟩
  change (if s.slot 0 &&& llef ≠ 0 then capturePart (s.slot 0 &&& ~~~llef) (s.slot 0 &&& ~~~llef) (s.slot 13) s.dp.dptr
    else capturePart (s.slot 0) ord sum s.dp.blkOfs : DirAction _) s = _
  by_cases hlast : k + 1 = partCount name
  · rw [if_pos ((hpart.and_llef_ne_zero_iff hk20).mpr hlast), capturePart_eq rfl rfl hpick, hpart.number hk20,
      hpred k hk20, hpart.sum, if_pos hlast]
  · obtain ⟨rfl, rfl, -⟩ := hstate (lt_of_le_of_ne hk hlast)
    have hord : s.slot 0 = .ofNat (k + 1) := by
      rw [hpart.ord, if_neg hlast, UInt8.or_zero]
    rw [if_neg fun hllef => hlast ((hpart.and_llef_ne_zero_iff hk20).mp hllef),
      capturePart_eq hord hpart.sum.symm hpick, hpred k hk20, if_neg hlast]

/-- The four kinds of entries. -/
lemma readEntry_eq (hs : s.At fs bytes cluster pos) (hpos : szdire ∣ pos) (ord sum : UInt8)
    (hdir : fs.slotAt bytes cluster pos = dir) : ∃ w : Window, w.Valid bytes ∧
      DirAccess.slot { s with window := w, dp.attr := attr dir } = dir ∧ readEntry (some bytes) ord sum s =
        if dir 0 = 0 then .error .noFile { s with window := w }
        else (if dir 0 = ddem ∨ dir 0 = 0x2E ∨ attr dir &&& ~~~amArc = amVol then pure (some (0xFF, sum))
          else if attr dir = amLfn then readLfn ord sum >>= fun r => pure (some r)
          else readSfn ord sum >>= fun _ => pure none : DirAction _)
            { s with window := w, dp.attr := attr dir } := by
  obtain ⟨w, hw, hload, hslot⟩ := exists_loadEntry hs hpos
  rw [hdir] at hslot
  refine ⟨w, hw, hslot, ?_⟩
  rw [readEntry, bind_of_ok hload]
  change (if DirAccess.slot { s with window := w } 0 = 0 then throw .noFile else _ : DirAction _)
    { s with window := w } = _
  rw [hslot]
  split_ifs <;> rfl

lemma readEntry_stop (hs : s.At fs bytes cluster pos) (hpos : szdire ∣ pos) (hdir : fs.slotAt bytes cluster pos = dir)
    (h : dir 0 = 0) (ord sum : UInt8) : ∃ w : Window, w.Valid bytes ∧
      readEntry (some bytes) ord sum s = .error .noFile { s with window := w } := by
  obtain ⟨w, hw, -, hread⟩ := readEntry_eq hs hpos ord sum hdir
  exact ⟨w, hw, by rw [hread, if_pos h]⟩

lemma readEntry_skip (hs : s.At fs bytes cluster pos) (hpos : szdire ∣ pos) (hdir : fs.slotAt bytes cluster pos = dir)
    (h : IsSkipped dir) (ord sum : UInt8) : ∃ w : Window, w.Valid bytes ∧ readEntry (some bytes) ord sum s =
      .ok (some (0xFF, sum)) { s with window := w, dp.attr := attr dir } := by
  obtain ⟨w, hw, -, hread⟩ := readEntry_eq hs hpos ord sum hdir
  refine ⟨w, hw, ?_⟩
  rw [hread, if_neg h.ne_zero, if_pos h.skipped]
  rfl

lemma readEntry_sfn (hs : s.At fs bytes cluster pos) (hpos : szdire ∣ pos) (hdir : fs.slotAt bytes cluster pos = dir)
    (h : IsSfn dir) (ord sum : UInt8) : ∃ w : Window, w.Valid bytes ∧ DirAccess.slot { s with window := w } = dir ∧
      readEntry (some bytes) ord sum s = .ok none { s with
        window := w, dp.attr := attr dir,
        dp.blkOfs := if ord ≠ 0 ∨ sum ≠ sumSfn dir then noLfn else s.dp.blkOfs } := by
  obtain ⟨w, hw, hslot, hread⟩ := readEntry_eq hs hpos ord sum hdir
  obtain ⟨hlfn, hvol⟩ := attr_of_and_amVol _ h.attr
  refine ⟨w, hw, hslot, ?_⟩
  rw [hread, if_neg h.ne_zero, if_neg, if_neg hlfn, bind_of_ok (readSfn_eq _ _ _), hslot]
  · rfl
  · rintro (hddem | hdot | hlabel)
    · exact h.ne_ddem hddem
    · exact h.ne_dot hdot
    · exact hvol hlabel

/-- The first byte of a part is none of the marks. -/
lemma ord_ne : ∀ k < 20, UInt8.ofNat (k + 1) ≠ 0 ∧ UInt8.ofNat (k + 1) ≠ ddem ∧ UInt8.ofNat (k + 1) ≠ 0x2E ∧
    UInt8.ofNat (k + 1) ||| llef ≠ 0 ∧ UInt8.ofNat (k + 1) ||| llef ≠ ddem ∧
      UInt8.ofNat (k + 1) ||| llef ≠ 0x2E := by decide

lemma IsPart.not_mark (h : IsPart name sum k dir) (hk : k < 20) :
    dir 0 ≠ 0 ∧ ¬(dir 0 = ddem ∨ dir 0 = 0x2E ∨ Fs.attr dir &&& ~~~amArc = amVol) := by
  obtain ⟨hzero, hddem, hdot, hzero', hddem', hdot'⟩ := ord_ne k hk
  have hvol : amLfn &&& ~~~amArc ≠ amVol := by decide
  rw [h.attr, h.ord, not_or, not_or]
  split_ifs
  · exact ⟨hzero', hddem', hdot', hvol⟩
  · rw [UInt8.or_zero]
    exact ⟨hzero, hddem, hdot, hvol⟩

lemma readEntry_part (hs : s.At fs bytes cluster pos) (hpos : szdire ∣ pos) (hdir : fs.slotAt bytes cluster pos = dir)
    (h : IsLongName name) (hk : k < partCount name) (hpart : IsPart name sum' k dir)
    (hstate : k + 1 < partCount name →
      ord = .ofNat (k + 1) ∧ sum = sum' ∧ HoldsFrom name (13 * (k + 1)) s.lfnbuf) :
    ∃ (w : Window) (buf : ℕ → ℕ), w.Valid bytes ∧ HoldsFrom name (13 * k) buf ∧
      readEntry (some bytes) ord sum s = .ok (some (.ofNat k, sum')) { s with
        window := w, dp.attr := attr dir, lfnbuf := buf,
        dp.blkOfs := if k + 1 = partCount name then pos else s.dp.blkOfs } := by
  obtain ⟨w, hw, hslot, hread⟩ := readEntry_eq hs hpos ord sum hdir
  obtain ⟨hzero, hmark⟩ := hpart.not_mark (hk.trans_le h.partCount_le)
  rw [← hslot] at hpart
  obtain ⟨buf, hbuf, hlfn⟩ := readLfn_part h hk hpart hstate
  refine ⟨w, buf, hw, hbuf, ?_⟩
  rw [hread, if_neg hzero, if_neg hmark, if_pos (hslot ▸ hpart.attr), bind_of_ok hlfn]
  rw [← hs.dptr]
  rfl

/-! ### The next file -/

/-- One round of the loop that goes on to the next entry. -/
lemma readEntries_succ (hsect : s.dp.sect ≠ 0)
    (hread : readEntry (some bytes) ord sum s = .ok (some (ord', sum')) s₁) :
    readEntries (some bytes) fs (fuel + 1) res ord sum s =
      (dirNext (some bytes) fs >>= fun _ => readEntries (some bytes) fs fuel .ok ord' sum') s₁ := by
  change (if s.dp.sect = 0 then _ else readEntry (some bytes) ord sum >>= _ : DirAction Unit) s = _
  rw [if_neg hsect, bind_of_ok hread]

lemma readEntries_found (hsect : s.dp.sect ≠ 0) (hread : readEntry (some bytes) ord sum s = .ok none s₁) :
    readEntries (some bytes) fs (fuel + 1) res ord sum s = .ok () s₁ := by
  change (if s.dp.sect = 0 then _ else readEntry (some bytes) ord sum >>= _ : DirAction Unit) s = _
  rw [if_neg hsect, bind_of_ok hread]
  rfl

lemma readEntries_error (hsect : s.dp.sect ≠ 0) {e : FResult}
    (hread : readEntry (some bytes) ord sum s = .error e s₁) :
    readEntries (some bytes) fs (fuel + 1) res ord sum s = .error e s₁ := by
  change (if s.dp.sect = 0 then _ else readEntry (some bytes) ord sum >>= _ : DirAction Unit) s = _
  rw [if_neg hsect, bind_of_error hread]

lemma slotsAt_eq_cons {rest : List Slot} (h : fs.slotsAt bytes cluster n pos = dir :: rest) :
    ∃ m, n = m + 1 ∧ fs.slotAt bytes cluster pos = dir ∧ fs.slotsAt bytes cluster m (pos + szdire) = rest := by
  cases n with
  | zero => cases h
  | succ m =>
    obtain ⟨hdir, hrest⟩ := List.cons.inj h
    exact ⟨m, rfl, hdir, hrest⟩

/-- A file has been found, and the others come after it. -/
structure Found (fs : Fatfs) (bytes : ℕ → UInt8) (cluster : ℕ → ℕ) (size : ℕ) (e : Entry) (es : List Entry)
    (s : DirAccess) : Prop where
  exists_pos : ∃ pos n, szdire ∣ pos ∧ pos + (n + 1) * szdire = size ∧ s.At fs bytes cluster pos ∧
    Lists (fs.slotsAt bytes cluster n (pos + szdire)) es
  slot : s.slot = e.sfn
  short : e.long = none → s.dp.blkOfs = noLfn
  long : ∀ name, e.long = some name → s.dp.blkOfs ≠ noLfn ∧ IsLongName name ∧ HoldsFrom name 0 s.lfnbuf

/-- How a call ends when some files are left: the first one is found, or the end of the directory. -/
def Reads (fs : Fatfs) (bytes : ℕ → UInt8) (obj : ObjId) (cluster : ℕ → ℕ) (size : ℕ) :
    List Entry → EStateM.Result FResult DirAccess Unit → Prop
  | [], .error res s => res = .noFile ∧ s.window.Valid bytes ∧ s.dp.obj = obj
  | e :: es, .ok _ s => Found fs bytes cluster size e es s ∧ s.dp.obj = obj
  | _, _ => False

lemma DirAccess.At.sect_ne_zero (hs : s.At fs bytes cluster pos) (h : IsTable fs bytes obj cluster size)
    (hlt : pos < size) : s.dp.sect ≠ 0 := hs.sect ▸ h.dirSector_ne_zero hlt

lemma next_size (hsize : pos + (n + 1) * szdire = size) : pos + szdire + n * szdire = size := by
  rw [← hsize, Nat.add_mul, Nat.one_mul]
  omega

lemma DirAccess.At.lt_size (hsize : pos + (n + 1) * szdire = size) : pos < size := by
  rw [← hsize]
  exact Nat.lt_add_of_pos_right (Nat.mul_pos n.succ_pos (by decide))

/-- `dir_next` leads to the next entry as long as some are left. -/
lemma IsTable.exists_dirNext_of_size (h : IsTable fs bytes s.dp.obj cluster size) (hs : s.At fs bytes cluster pos)
    (hpos : szdire ∣ pos) (hsize : pos + (n + 1) * szdire = size) : ∃ w : Window, w.Valid bytes ∧
      dirNext (some bytes) fs s =
        if n = 0 then .error .noFile (s.ended w) else .ok () (s.moved fs cluster (pos + szdire) w) := by
  obtain ⟨w, hw, hnext⟩ := h.exists_dirNext hs hpos (DirAccess.At.lt_size hsize)
  refine ⟨w, hw, hnext.trans ?_⟩
  have hsize' := next_size hsize
  cases n with
  | zero => rw [if_neg (by omega), if_pos rfl]
  | succ n => rw [if_pos (DirAccess.At.lt_size hsize'), if_neg n.succ_ne_zero]

/-- After an entry that is not the end, the files are those in the rest of the table. -/
lemma reads_next (h : IsTable fs bytes obj cluster size) (hs : s.At fs bytes cluster pos) (hobj : s.dp.obj = obj)
    (hpos : szdire ∣ pos) (hsize : pos + (n + 1) * szdire = size) (hnil : n = 0 → es = [])
    (hnext : 0 < n → ∀ w : Window, w.Valid bytes → Reads fs bytes obj cluster size es
      (readEntries (some bytes) fs fuel .ok ord sum (s.moved fs cluster (pos + szdire) w))) :
    Reads fs bytes obj cluster size es
      ((dirNext (some bytes) fs >>= fun _ => readEntries (some bytes) fs fuel .ok ord sum) s) := by
  rw [← hobj] at h
  obtain ⟨w, hw, hdirNext⟩ := h.exists_dirNext_of_size hs hpos hsize
  by_cases hn : n = 0
  · rw [if_pos hn] at hdirNext
    rw [hnil hn, bind_of_error hdirNext]
    exact ⟨rfl, hw, hobj⟩
  · rw [if_neg hn] at hdirNext
    rw [bind_of_ok hdirNext]
    exact hnext (Nat.pos_of_ne_zero hn) w hw

/-- What is remembered of the entries does not move the object. -/
lemma DirAccess.At.update (hs : s.At fs bytes cluster pos) {w : Window} (hw : w.Valid bytes) (attr : UInt8)
    (blkOfs : ℕ) (lfnbuf : ℕ → ℕ) : DirAccess.At fs bytes cluster pos
      { s with window := w, dp.attr := attr, dp.blkOfs := blkOfs, lfnbuf := lfnbuf } :=
  ⟨⟨hs.dptr, hs.clust, hs.sect, hs.dir⟩, hw⟩

lemma Lists.eq_nil {slots : List Slot} (h : Lists slots es) (hslots : slots = []) : es = [] := by
  cases h with
  | nil => rfl
  | stop => rfl
  | skip => cases hslots
  | short => cases hslots
  | long => exact absurd hslots (List.append_ne_nil_of_right_ne_nil _ (List.cons_ne_nil _ _))

/-- The entry with the short name of a file is found. -/
lemma reads_sfn (h : IsTable fs bytes obj cluster size) (hsfn : IsSfn e.sfn)
    (hdir : fs.slotAt bytes cluster pos = e.sfn) (hrest : Lists (fs.slotsAt bytes cluster n (pos + szdire)) es)
    (hs : s.At fs bytes cluster pos) (hobj : s.dp.obj = obj) (hpos : szdire ∣ pos)
    (hsize : pos + (n + 1) * szdire = size)
    (hshort : e.long = none → ord ≠ 0)
    (hlong : ∀ name, e.long = some name → ord = 0 ∧ sum = sumSfn e.sfn ∧ s.dp.blkOfs ≠ noLfn ∧ IsLongName name ∧
      HoldsFrom name 0 s.lfnbuf) :
    Reads fs bytes obj cluster size (e :: es) (readEntries (some bytes) fs (fuel + 1) res ord sum s) := by
  have hsect := hs.sect_ne_zero h (DirAccess.At.lt_size hsize)
  obtain ⟨w, hw, hslot, hread⟩ := readEntry_sfn hs hpos hdir hsfn ord sum
  rw [readEntries_found hsect hread]
  refine ⟨⟨⟨pos, n, hpos, hsize, hs.update hw _ _ _, hrest⟩, hslot, fun hnone => ?_, fun name hname => ?_⟩, hobj⟩
  · exact if_pos (.inl (hshort hnone))
  · obtain ⟨hord, hsum, hblk, hname, hbuf⟩ := hlong name hname
    refine ⟨?_, hname, hbuf⟩
    change (if ord ≠ 0 ∨ sum ≠ sumSfn e.sfn then noLfn else s.dp.blkOfs) ≠ noLfn
    rw [if_neg (not_or.mpr ⟨not_not.mpr hord, not_not.mpr hsum⟩)]
    exact hblk

/-- The parts of a long name and the entry after them. -/
lemma reads_parts (h : IsTable fs bytes obj cluster size) (hname : IsLongName name) (hsfn : IsSfn dir)
    {rest : List Slot} (hrest : Lists rest es) {parts : List Slot} (hk : k ≤ partCount name)
    (hparts : AreParts name (sumSfn dir) k parts) (hslots : fs.slotsAt bytes cluster n pos = parts ++ dir :: rest)
    (hs : s.At fs bytes cluster pos) (hobj : s.dp.obj = obj) (hpos : szdire ∣ pos)
    (hsize : pos + n * szdire = size) (hfuel : n < fuel)
    (hstate : k < partCount name → ord = .ofNat k ∧ sum = sumSfn dir ∧ HoldsFrom name (13 * k) s.lfnbuf ∧
      s.dp.blkOfs ≠ noLfn) :
    Reads fs bytes obj cluster size (⟨some name, dir⟩ :: es) (readEntries (some bytes) fs fuel res ord sum s) := by
  induction k generalizing parts n pos s fuel res ord sum with
  | zero =>
    obtain rfl : parts = [] := hparts
    obtain ⟨n, rfl, hdir, rfl⟩ := slotsAt_eq_cons hslots
    obtain ⟨fuel, rfl⟩ := Nat.exists_eq_add_one_of_ne_zero (Nat.ne_zero_of_lt hfuel)
    obtain ⟨hord, hsum, hbuf, hblk⟩ := hstate hname.partCount_pos
    refine reads_sfn h hsfn hdir hrest hs hobj hpos hsize (fun hnone => absurd hnone (Option.some_ne_none _))
      fun name' hname' => ?_
    obtain rfl := Option.some_inj.mp hname'
    exact ⟨hord, hsum, hblk, hname, hbuf⟩
  | succ k ih =>
    obtain ⟨part, parts, rfl, hpart, hparts⟩ := hparts
    obtain ⟨n, rfl, hdir, hslots⟩ := slotsAt_eq_cons hslots
    obtain ⟨fuel, rfl⟩ := Nat.exists_eq_add_one_of_ne_zero (Nat.ne_zero_of_lt hfuel)
    have hlt : pos < size := DirAccess.At.lt_size hsize
    obtain ⟨w, buf, hw, hbuf, hread⟩ := readEntry_part hs hpos hdir hname hk hpart fun hlast =>
      ⟨(hstate hlast).1, (hstate hlast).2.1, (hstate hlast).2.2.1⟩
    rw [readEntries_succ (hs.sect_ne_zero h hlt) hread]
    refine reads_next h (hs.update hw _ _ _) hobj hpos hsize (fun hn => ?_) fun hn w' hw' => ?_
    · rw [hn] at hslots
      exact absurd hslots.symm (List.append_ne_nil_of_right_ne_nil _ (List.cons_ne_nil _ _))
    · refine ih (Nat.le_of_succ_le hk) hparts hslots (DirAccess.at_moved hw' _) hobj
        (Nat.dvd_add hpos (Nat.dvd_refl _)) (next_size hsize) (Nat.lt_of_succ_lt_succ hfuel)
        fun _ => ⟨rfl, rfl, hbuf, ?_⟩
      have hmax := hlt.trans_le h.size_le
      change (if k + 1 = partCount name then pos else s.dp.blkOfs) ≠ noLfn
      split_ifs with hlast
      · simp only [maxDir, noLfn] at hmax ⊢
        omega
      · exact (hstate (lt_of_le_of_ne hk hlast)).2.2.2

/-- From an entry on, the first file is found. -/
lemma reads_lists (h : IsTable fs bytes obj cluster size) {slots : List Slot} (hlists : Lists slots es)
    (hslots : fs.slotsAt bytes cluster n pos = slots) (hn : 0 < n) (hs : s.At fs bytes cluster pos)
    (hobj : s.dp.obj = obj) (hpos : szdire ∣ pos) (hsize : pos + n * szdire = size) (hfuel : n < fuel) :
    Reads fs bytes obj cluster size es (readEntries (some bytes) fs fuel res 0xFF sum s) := by
  induction hlists generalizing n pos s fuel res sum with
  | nil =>
    obtain ⟨n, rfl⟩ := Nat.exists_eq_add_one_of_ne_zero hn.ne'
    cases hslots
  | stop hdir =>
    obtain ⟨n, rfl, hslot, -⟩ := slotsAt_eq_cons hslots
    obtain ⟨fuel, rfl⟩ := Nat.exists_eq_add_one_of_ne_zero (Nat.ne_zero_of_lt hfuel)
    obtain ⟨w, hw, hread⟩ := readEntry_stop hs hpos hslot hdir 0xFF sum
    rw [readEntries_error (hs.sect_ne_zero h (DirAccess.At.lt_size hsize)) hread]
    exact ⟨rfl, hw, hobj⟩
  | @skip dir rest es hskip hrest ih =>
    obtain ⟨n, rfl, hslot, hslots⟩ := slotsAt_eq_cons hslots
    obtain ⟨fuel, rfl⟩ := Nat.exists_eq_add_one_of_ne_zero (Nat.ne_zero_of_lt hfuel)
    obtain ⟨w, hw, hread⟩ := readEntry_skip hs hpos hslot hskip 0xFF sum
    rw [readEntries_succ (hs.sect_ne_zero h (DirAccess.At.lt_size hsize)) hread]
    refine reads_next h (hs.update hw _ _ _) hobj hpos hsize (fun hn => ?_) fun hn w' hw' => ?_
    · rw [hn] at hslots
      exact hrest.eq_nil hslots.symm
    · exact ih hslots hn (DirAccess.at_moved hw' _) hobj (Nat.dvd_add hpos (Nat.dvd_refl _)) (next_size hsize)
        (Nat.lt_of_succ_lt_succ hfuel)
  | short hsfn hrest =>
    obtain ⟨n, rfl, hslot, rfl⟩ := slotsAt_eq_cons hslots
    obtain ⟨fuel, rfl⟩ := Nat.exists_eq_add_one_of_ne_zero (Nat.ne_zero_of_lt hfuel)
    exact reads_sfn h hsfn hslot hrest hs hobj hpos hsize (fun _ => by decide)
      fun name hname => absurd hname.symm (Option.some_ne_none _)
  | long hname hparts hsfn hrest =>
    exact reads_parts h hname hsfn hrest le_rfl hparts hslots hs hobj hpos hsize hfuel
      fun hlt => absurd hlt (lt_irrefl _)

/-! ### Calls -/

/-- Where the object is between two calls, with the files that are left. -/
def Dir.Remains (fs : Fatfs) (bytes : ℕ → UInt8) (cluster : ℕ → ℕ) (size : ℕ) (es : List Entry) (dp : Dir) : Prop :=
  IsTable fs bytes dp.obj cluster size ∧ validate fs dp.obj = .ok ∧
    ((∃ pos n, szdire ∣ pos ∧ pos + (n + 1) * szdire = size ∧ dp.At fs cluster pos ∧
      Lists (fs.slotsAt bytes cluster (n + 1) pos) es) ∨ dp.sect = 0 ∧ es = [])

/-- The name in the buffer, up to the terminator. -/
lemma lfnUnits_eq (h : IsLongName name) {lfnbuf : ℕ → ℕ} (hbuf : HoldsFrom name 0 lfnbuf) :
    lfnUnits lfnbuf = name := by
  have hlength := h.length_le
  have hname : (List.range' 0 name.length).map lfnbuf = name := by
    apply List.ext_getElem
    · rw [List.length_map, List.length_range']
    · intro i _ hi
      rw [List.getElem_map, List.getElem_range', Nat.one_mul, Nat.zero_add, hbuf i i.zero_le hi.le, fill, if_pos hi,
        List.getD_eq_getElem _ _ hi]
  have hend : lfnbuf name.length = 0 := by
    rw [hbuf _ (Nat.zero_le _) le_rfl, fill, if_neg (lt_irrefl _), if_pos rfl]
  have hrange : List.range 256 = List.range' 0 name.length ++ name.length ::
      List.range' (name.length + 1) (255 - name.length) := by
    have hsplit : List.range' 0 name.length ++ List.range' (0 + name.length) (255 - name.length + 1) =
        List.range' 0 (name.length + (255 - name.length + 1)) := List.range'_append_1
    rw [Nat.zero_add] at hsplit
    rw [← List.range'_succ, List.range_eq_range', hsplit]
    congr 1
    omega
  rw [lfnUnits, hrange, List.map_append, hname, List.map_cons, hend, List.takeWhile_append_of_pos]
  · rw [List.takeWhile_cons_of_neg (by decide), List.append_nil]
  · exact fun c hc => decide_eq_true (h.ne_zero c hc)

/-- What is told about the file that has been found. -/
lemma Found.getFileinfo_eq (h : Found fs bytes cluster size e es s) (htable : IsTable fs bytes obj cluster size)
    : getFileinfo s = some (e.info) := by
  obtain ⟨pos, n, -, hsize, hs, -⟩ := h.exists_pos
  rw [getFileinfo, if_neg (hs.sect_ne_zero htable (DirAccess.At.lt_size hsize)), Entry.info, h.slot, Entry.name, fname,
    h.slot]
  cases hlong : e.long with
  | none => rw [h.short hlong, if_neg (not_not.mpr rfl), if_neg (not_not.mpr rfl)]
  | some name =>
    obtain ⟨hblk, hname, hbuf⟩ := h.long name hlong
    rw [if_pos hblk, lfnUnits_eq hname hbuf]

lemma ignoreEnd_of_ok {p : DirAction Unit} (h : p s = .ok () s') : ignoreEnd p s = .ok () s' := tryCatch_of_ok h

lemma ignoreEnd_of_end {p : DirAction Unit} (h : p s = .error .noFile s') : ignoreEnd p s = .ok () s' := by
  rw [ignoreEnd, tryCatch_of_error h, if_pos rfl]
  rfl

/-- A call that is allowed. -/
lemma fReaddir_eq (hvalid : validate fs s.dp.obj = .ok)
    (hread : ignoreEnd (dirRead (some bytes) fs) s = .ok () s₁)
    (hnext : ignoreEnd (dirNext (some bytes) fs) s₁ = .ok () s₂) :
    fReaddir (some bytes) fs s = .ok (getFileinfo s₁) s₂ := by
  change (if validate fs s.dp.obj ≠ .ok then _ else ignoreEnd (dirRead (some bytes) fs) >>= fun _ => get >>= fun s' =>
    ignoreEnd (dirNext (some bytes) fs) >>= fun _ => pure (getFileinfo s') : DirAction _) s = _
  rw [if_neg (not_not.mpr hvalid), bind_of_ok hread]
  change (ignoreEnd (dirNext (some bytes) fs) >>= fun _ => pure (getFileinfo s₁)) s₁ = _
  rw [bind_of_ok hnext]
  rfl

/-- The first file that is left is found, or the end. -/
lemma Dir.Remains.reads {dp : Dir} (h : dp.Remains fs bytes cluster size es) (hw : window.Valid bytes)
    (lfnbuf : ℕ → ℕ) : Reads fs bytes dp.obj cluster size es
      (readEntries (some bytes) fs (maxDir / szdire + 1) .noFile 0xFF 0xFF ⟨window, dp, lfnbuf⟩) := by
  obtain ⟨htable, -, ⟨pos, n, hpos, hsize, hat, hlists⟩ | ⟨hsect, rfl⟩⟩ := h
  · have hs : DirAccess.At fs bytes cluster pos ⟨window, dp, lfnbuf⟩ := ⟨hat, hw⟩
    refine reads_lists htable hlists rfl n.succ_pos hs rfl hpos hsize ?_
    have hmax := htable.size_le
    simp only [maxDir, szdire] at hmax hsize ⊢
    omega
  · change Reads fs bytes dp.obj cluster size [] ((if dp.sect = 0 then if FResult.noFile = .ok then pure () else
      throw .noFile else _ : DirAction Unit) ⟨window, dp, lfnbuf⟩)
    rw [if_pos hsect]
    exact ⟨rfl, hw, rfl⟩

lemma dirNext_ended (s : DirAccess) (window : Window) :
    dirNext (some bytes) fs (s.ended window) = .error .noFile (s.ended window) := by
  have hsect : (s.ended window).dp.sect = 0 := rfl
  change (if (s.ended window).dp.dptr + szdire ≥ maxDir ∨ (s.ended window).dp.sect = 0 then endOfTable else _ :
    DirAction Unit) (s.ended window) = _
  rw [if_pos (.inr hsect)]
  rfl

/-- After the file that has been found, the others are left. -/
lemma Found.exists_dirNext (h : Found fs bytes cluster size e es s) (htable : IsTable fs bytes s.dp.obj cluster size)
    (hvalid : validate fs s.dp.obj = .ok) : ∃ s' : DirAccess, ignoreEnd (dirNext (some bytes) fs) s = .ok () s' ∧
      s'.window.Valid bytes ∧ s'.dp.Remains fs bytes cluster size es := by
  obtain ⟨pos, n, hpos, hsize, hs, hlists⟩ := h.exists_pos
  obtain ⟨w, hw, hnext⟩ := htable.exists_dirNext_of_size hs hpos hsize
  cases n with
  | zero => exact ⟨_, ignoreEnd_of_end hnext, hw, htable, hvalid, .inr ⟨rfl, hlists.eq_nil rfl⟩⟩
  | succ n => exact ⟨_, ignoreEnd_of_ok hnext, hw, htable, hvalid, .inl ⟨_, n, Nat.dvd_add hpos (Nat.dvd_refl _),
      next_size hsize, ⟨rfl, rfl, rfl, rfl⟩, hlists⟩⟩

/-- A call tells about the first file that is left. -/
lemma Dir.Remains.read {dp : Dir} (h : dp.Remains fs bytes cluster size es) (hw : window.Valid bytes)
    (lfnbuf : ℕ → ℕ) : ∃ (w : Window) (dp' : Dir), w.Valid bytes ∧
      dp.read (some bytes) fs window lfnbuf = (es.head?.map Entry.info, w, dp') ∧
        dp'.Remains fs bytes cluster size es.tail := by
  have hreads := h.reads hw lfnbuf
  obtain ⟨htable, hvalid, -⟩ := h
  cases hrun : readEntries (some bytes) fs (maxDir / szdire + 1) .noFile 0xFF 0xFF ⟨window, dp, lfnbuf⟩ with
  | error res s =>
    rw [hrun] at hreads
    cases es with
    | cons e es => exact hreads.elim
    | nil =>
      obtain ⟨rfl, hw', hobj⟩ := hreads
      have hread : dirRead (some bytes) fs ⟨window, dp, lfnbuf⟩ = .error .noFile (s.ended s.window) := by
        rw [dirRead, tryCatch_of_error hrun]
        rfl
      rw [← hobj] at htable hvalid
      refine ⟨s.window, (s.ended s.window).dp, hw', ?_, htable, hvalid, .inr ⟨rfl, rfl⟩⟩
      rw [Dir.read, fReaddir_eq (hobj ▸ hvalid) (ignoreEnd_of_end hread)
        (ignoreEnd_of_end (dirNext_ended s s.window))]
      rfl
  | ok _ s =>
    rw [hrun] at hreads
    cases es with
    | nil => exact hreads.elim
    | cons e es =>
      obtain ⟨hfound, hobj⟩ := hreads
      have hread : dirRead (some bytes) fs ⟨window, dp, lfnbuf⟩ = .ok () s := tryCatch_of_ok hrun
      have hinfo := hfound.getFileinfo_eq htable
      rw [← hobj] at htable
      obtain ⟨s', hnext, hw', hremains⟩ := hfound.exists_dirNext htable (hobj ▸ hvalid)
      refine ⟨s'.window, s'.dp, hw', ?_, hremains⟩
      rw [Dir.read, fReaddir_eq hvalid (ignoreEnd_of_ok hread) hnext, hinfo]
      rfl

/-- Calls about a directory, each with the window that other calls have left and with a new buffer. -/
def Dir.readAll (disk : RamDisk) (fs : Fatfs) :
    Dir → List (Window × (ℕ → ℕ)) → List (Option FileInfo)
  | _, [] => []
  | dp, (window, lfnbuf) :: calls =>
    (dp.read disk fs window lfnbuf).1 ::
      (dp.read disk fs window lfnbuf).2.2.readAll disk fs calls

/-- Whatever happens between the calls: a user who reads a directory is told about its files one after the
other, and then that there are no more. -/
lemma Dir.Remains.readAll_eq {dp : Dir} (h : dp.Remains fs bytes cluster size es)
    {calls : List (Window × (ℕ → ℕ))} (hcalls : ∀ call ∈ calls, call.1.Valid bytes) :
    dp.readAll (some bytes) fs calls =
      (List.range calls.length).map fun i => es[i]?.map Entry.info := by
  induction calls generalizing dp es with
  | nil => rfl
  | cons call calls ih =>
    obtain ⟨hcall, hcalls⟩ := List.forall_mem_cons.mp hcalls
    obtain ⟨w, dp', -, hread, hremains⟩ := h.read hcall call.2
    rw [Dir.readAll, hread, ih hremains hcalls, List.length_cons, List.range_succ_eq_map, List.map_cons, List.map_map]
    congr 1
    · rw [List.head?_eq_getElem?]
    · apply List.map_congr_left
      intro i _
      rw [Function.comp_apply, List.getElem?_tail]

/-- Other objects that start at the same place have the same table. -/
lemma IsTable.congr {obj' : ObjId} (h : IsTable fs bytes obj cluster size) (hsclust : obj'.sclust = obj.sclust) :
    IsTable fs bytes obj' cluster size := by
  have hstart : startCluster fs obj' = startCluster fs obj := by
    rw [startCluster, startCluster, rootInClusters, rootInClusters, hsclust]
  cases h with
  | root htype h => exact .root htype (hstart.trans h) ‹_› ‹_› ‹_› ‹_›
  | chain hfs htype h hpos hmem hnext hlast =>
    have hfollows : ∀ clst next, Follows fs bytes obj clst next → Follows fs bytes obj' clst next := by
      intro clst next hfollows
      rw [Follows, if_neg fun hand => htype hand.1] at hfollows ⊢
      exact hfollows
    refine .chain hfs htype (hstart.trans h) hpos hmem (fun i hi => hfollows _ _ (hnext i hi)) fun hlt => ?_
    obtain ⟨v, hv, hlast⟩ := hlast hlt
    exact ⟨v, hv, hfollows _ _ hlast⟩

/-- After `dir_sdi`, all the files of the table are left. -/
lemma Dir.remains_rewound (h : IsTable fs bytes s.dp.obj cluster size) (hvalid : validate fs s.dp.obj = .ok)
    (hlists : Lists (fs.slotsAt bytes cluster (size / szdire) 0) es) :
    (s.rewound fs cluster).dp.Remains fs bytes cluster size es := by
  refine ⟨h.congr rfl, hvalid, .inl ⟨0, size / szdire - 1, Nat.dvd_zero _, ?_, ⟨rfl, rfl, rfl, rfl⟩, ?_⟩⟩
  · have hpos := h.size_pos
    have hdvd := h.sectorSize_dvd_size
    simp only [szdire, sectorSize] at hdvd ⊢
    omega
  · have hpos := h.size_pos
    have hdvd := h.sectorSize_dvd_size
    rwa [Nat.sub_add_cancel (by simp only [szdire, sectorSize] at hdvd ⊢; omega)]

/-- A user who reads a directory is told about its files, one after the other, and then that there are no more,
whatever other calls have left in the window and whatever is in the buffer. -/
theorem readAll_rewound (h : IsTable fs bytes s.dp.obj cluster size) (hvalid : validate fs s.dp.obj = .ok)
    (hlists : Lists (fs.slotsAt bytes cluster (size / szdire) 0) es) {calls : List (Window × (ℕ → ℕ))}
    (hcalls : ∀ call ∈ calls, call.1.Valid bytes) : ∃ s' : DirAccess, dirSdi (some bytes) fs 0 s = .ok () s' ∧
      s'.dp.readAll (some bytes) fs calls = (List.range calls.length).map fun i => es[i]?.map Entry.info :=
  ⟨_, h.dirSdi_zero, (Dir.remains_rewound h hvalid hlists).readAll_eq hcalls⟩

/-- A root directory: a file with a long name, an entry that is deleted, and a directory. -/
def rootBytes : List UInt8 :=
  [0x41, 0x61, 0, 0xE9, 0, 0, 0, 0xFF, 0xFF, 0xFF, 0xFF, 0x0F, 0, 0x40, 0xFF, 0xFF, 0xFF, 0xFF, 0xFF, 0xFF, 0xFF,
    0xFF, 0xFF, 0xFF, 0xFF, 0xFF, 0, 0, 0xFF, 0xFF, 0xFF, 0xFF,
    0x41, 0x7E, 0x31, 0x20, 0x20, 0x20, 0x20, 0x20, 0x20, 0x20, 0x20, 0x20] ++ .replicate 20 0 ++
  0xE5 :: .replicate 31 0 ++
  [0x53, 0x52, 0x43, 0x20, 0x20, 0x20, 0x20, 0x20, 0x20, 0x20, 0x20, 0x10, 0x08] ++ .replicate 19 0

def smallRoot : Sector := fun i => if i < 1024 then smallDisk i else rootBytes.getD (i - 1024) 0

/-- The entries of the root directory. -/
def smallSlot (pos : ℕ) : Slot := smallFs.slotAt smallRoot (fun _ => 0) pos

lemma lists_smallRoot : Lists (smallFs.slotsAt smallRoot (fun _ => 0) 16 0)
    [⟨some [0x61, 0xE9], smallSlot 32⟩, ⟨none, smallSlot 96⟩] := by
  have hpart : IsPart [0x61, 0xE9] (sumSfn (smallSlot 32)) 0 (smallSlot 0) :=
    ⟨by decide +kernel, by decide +kernel, by decide +kernel, by decide +kernel, by decide +kernel⟩
  have hfile : IsSfn (smallSlot 32) := ⟨by decide, by decide, by decide, by decide +kernel⟩
  have hdir : IsSfn (smallSlot 96) := ⟨by decide, by decide, by decide, by decide +kernel⟩
  have hdeleted : IsSkipped (smallSlot 64) := ⟨by decide, .inl (by decide)⟩
  have hend : smallSlot 128 0 = 0 := by decide
  have hslots : smallFs.slotsAt smallRoot (fun _ => 0) 16 0 = [smallSlot 0] ++ smallSlot 32 :: smallSlot 64 ::
      smallSlot 96 :: smallSlot 128 :: smallFs.slotsAt smallRoot (fun _ => 0) 11 160 := rfl
  rw [hslots]
  exact .long ⟨by decide, by decide, by decide⟩ ⟨_, _, rfl, hpart, rfl⟩ hfile
    (.skip hdeleted (.short hdir (.stop hend)))

/-- The root directory. -/
def smallDir : Dir := ⟨⟨true, 1, 0, 0, 0, 0, 0⟩, 0, 0, 0, 0, 0, 0, [], 0⟩

def smallCalls : List (Window × (ℕ → ℕ)) :=
  [(⟨0, smallRoot⟩, fun _ => 0), (⟨2, fun i => smallRoot (1024 + i)⟩, fun _ => 7), (⟨0, smallRoot⟩, fun _ => 0)]

theorem readAll_rewound_small : ∃ s' : DirAccess,
    dirSdi (some smallRoot) smallFs 0 ⟨⟨0, smallRoot⟩, smallDir, fun _ => 0⟩ = .ok () s' ∧
      s'.dp.readAll (some smallRoot) smallFs smallCalls =
        [some ⟨[0x61, 0xC3, 0xA9], false⟩, some ⟨[0x73, 0x72, 0x63], true⟩, none] := by
  have htable : IsTable smallFs smallRoot smallDir.obj (fun _ => 0) (16 * szdire) :=
    .root (by decide) (by decide) (by decide) (by decide) (by decide) (by decide)
  have hcalls : ∀ call ∈ smallCalls, call.1.Valid smallRoot := by
    have hfirst : (Window.mk 0 smallRoot).Valid smallRoot := fun i _ => by rw [Nat.zero_mul, Nat.zero_add]
    have hroot : (Window.mk 2 fun i => smallRoot (1024 + i)).Valid smallRoot := fun _ _ => rfl
    rintro call hcall
    simp only [smallCalls, List.mem_cons, List.not_mem_nil, or_false] at hcall
    obtain rfl | rfl | rfl := hcall
    exacts [hfirst, hroot, hfirst]
  obtain ⟨s', hsdi, hread⟩ := readAll_rewound (s := ⟨⟨0, smallRoot⟩, smallDir, fun _ => 0⟩) htable (by decide)
    lists_smallRoot hcalls
  exact ⟨s', hsdi, hread.trans (by decide +kernel)⟩

end PiKachulm.Fs

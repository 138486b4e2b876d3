import PiKachulm.Fs.FollowPath
import PiKachulm.Fs.Listing
import PiKachulm.Fs.ShortName

/-!
# Finding names in directories

`dir_find` goes through a directory like a user who reads it, and stops at the first file that answers to a
name: its long name is the name up to the case of letters, or its short name is what the name becomes without a
loss.
-/

namespace PiKachulm.Fs

open Core

/-- Whether a file answers to a name. -/
def Entry.answers (name : List ℕ) (e : Entry) : Bool :=
  decide (e.long.map (List.map wtoupper) = some (name.map wtoupper)) ||
    decide ((createSfn name 0).2 &&& nsLoss = 0 ∧ (List.range 11).map e.sfn = (createSfn name 0).1)

/-- The object is looking for a name. -/
structure DirAccess.Seeks (name : List ℕ) (s : DirAccess) : Prop where
  lfnbuf : HoldsFrom name 0 s.lfnbuf
  fn : s.dp.fn = (createSfn name 0).1
  loss : s.dp.nsFlag &&& nsLoss = (createSfn name 0).2 &&& nsLoss
  nolfn : s.dp.nsFlag &&& nsNolfn = 0

variable {fs : Fatfs} {bytes : ℕ → UInt8} {obj : ObjId} {cluster : ℕ → ℕ} {size pos k n fuel : ℕ}
  {window : Window} {s s' : DirAccess} {dir : Slot} {ord sum sum' : UInt8} {name ename : List ℕ} {lfnbuf : ℕ → ℕ}
  {es : List Entry} {e : Entry}

/-! ### Long names -/

/-- The characters from an offset on are those in the buffer, up to the case of letters. -/
def AgreesFrom (ename : List ℕ) (lfnbuf : ℕ → ℕ) (k : ℕ) : Prop :=
  ∀ i, 13 * k ≤ i → i ≤ ename.length → wtoupper (fill ename i) = wtoupper (lfnbuf i)

/-- The number of the part that comes next, while all the parts agree. -/
def Awaits (ename : List ℕ) (lfnbuf : ℕ → ℕ) (k : ℕ) (ord : UInt8) : Prop :=
  ord = .ofNat k ∧ AgreesFrom ename lfnbuf k ∨ ord = 0xFF ∧ ¬AgreesFrom ename lfnbuf k

/-- A name agrees with the buffer if it is the name in it. -/
lemma agreesFrom_zero (he : IsLongName ename) (hname : IsLongName name) (hbuf : HoldsFrom name 0 lfnbuf) :
    AgreesFrom ename lfnbuf 0 ↔ ename.map wtoupper = name.map wtoupper := by
  constructor
  · intro h
    have hall : ∀ i ≤ ename.length, i ≤ name.length → wtoupper (fill ename i) = wtoupper (fill name i) :=
      fun i hi hi' => by rw [← hbuf i i.zero_le hi']; exact h i i.zero_le hi
    have hlength : ename.length = name.length := by
      have hzero : ∀ {us : List ℕ}, fill us us.length = 0 := by
        intro us
        rw [fill, if_neg (lt_irrefl _), if_pos rfl]
      obtain hlt | heq | hgt := lt_trichotomy ename.length name.length
      · have hend := hall _ le_rfl hlt.le
        rw [hzero, wtoupper_zero] at hend
        exact absurd (wtoupper_eq_zero hend.symm) ((fill_ne_zero_iff hname hlt.le).mpr hlt)
      · exact heq
      · have hend := hall _ hgt.le le_rfl
        rw [hzero, wtoupper_zero] at hend
        exact absurd (wtoupper_eq_zero hend) ((fill_ne_zero_iff he hgt.le).mpr hgt)
    apply List.ext_getElem
    · rw [List.length_map, List.length_map, hlength]
    · intro i hi hi'
      rw [List.length_map] at hi hi'
      have h := hall i hi.le hi'.le
      rwa [fill, fill, if_pos hi, if_pos hi', List.getD_eq_getElem _ _ hi, List.getD_eq_getElem _ _ hi',
        ← List.getElem_map wtoupper (h := by rwa [List.length_map]),
        ← List.getElem_map wtoupper (h := by rwa [List.length_map])] at h
  · intro h i _ hi
    have hlength : ename.length = name.length := by
      rw [← List.length_map wtoupper, h, List.length_map]
    rw [hbuf i i.zero_le (hlength ▸ hi), fill, fill, hlength]
    split_ifs with hlt
    · have hget := congrArg (fun l => l.getD i 0) h
      have hlt' : i < ename.length := hlength ▸ hlt
      simp only [List.getD_eq_getElem _ _ (show i < (ename.map wtoupper).length by rwa [List.length_map]),
        List.getD_eq_getElem _ _ (show i < (name.map wtoupper).length by rwa [List.length_map]),
        List.getElem_map] at hget
      rwa [List.getD_eq_getElem _ _ hlt', List.getD_eq_getElem _ _ hlt]
    · rfl
    · rfl

lemma compareLfn_eq (b ord sum : UInt8) (blkOfs : ℕ) (s : DirAccess) : compareLfn b ord sum blkOfs s =
    .ok (if b = ord ∧ sum = s.slot 13 ∧ cmpLfn s.lfnbuf s.slot then ord - 1 else 0xFF, sum)
      { s with dp.blkOfs := blkOfs } := rfl

/-- A part is compared when the parts after it have been compared. -/
lemma findLfn_part (he : IsLongName ename) (hk : k < partCount ename) (hpart : IsPart ename sum' k s.slot)
    (hnolfn : s.dp.nsFlag &&& nsNolfn = 0)
    (hstate : k + 1 < partCount ename → sum = sum' ∧ Awaits ename s.lfnbuf (k + 1) ord) :
    ∃ ord' blkOfs, Awaits ename s.lfnbuf k ord' ∧ findLfn ord sum s =
      .ok (ord', sum') { s with dp.blkOfs := blkOfs } := by
  have hk20 : k < 20 := hk.trans_le he.partCount_le
  have hpred : ∀ k < 20, UInt8.ofNat (k + 1) - 1 = .ofNat k ∧ UInt8.ofNat (k + 1) ≠ 0xFF := by decide
  obtain ⟨hsub, hne⟩ := hpred k hk20
  have hcmp := (cmpLfn_part he hk hpart : cmpLfn s.lfnbuf s.slot = true ↔ _)
  have hmono : AgreesFrom ename s.lfnbuf k → AgreesFrom ename s.lfnbuf (k + 1) := fun h i hi =>
    h i ((Nat.mul_le_mul_left 13 k.le_succ).trans hi)
  have hfind : findLfn ord sum s = (if s.slot 0 &&& llef ≠ 0 then
      compareLfn (s.slot 0 &&& ~~~llef) (s.slot 0 &&& ~~~llef) (s.slot 13) s.dp.dptr
    else compareLfn (s.slot 0) ord sum s.dp.blkOfs : DirAction _) s := by
    change (if s.dp.nsFlag &&& nsNolfn = 0 then if s.slot 0 &&& llef ≠ 0 then _ else _ else _ : DirAction _) s = _
    rw [if_pos hnolfn]
  rw [hfind]
  by_cases hlast : k + 1 = partCount ename
  · have hagrees : cmpLfn s.lfnbuf s.slot = true ↔ AgreesFrom ename s.lfnbuf k :=
      hcmp.trans ⟨fun h i hi => h i hi (.inr hlast), fun h i hi _ => h i hi⟩
    rw [if_pos ((hpart.and_llef_ne_zero_iff hk20).mpr hlast), compareLfn_eq, hpart.number hk20, hpart.sum]
    by_cases hagree : AgreesFrom ename s.lfnbuf k
    · rw [if_pos ⟨rfl, rfl, hagrees.mpr hagree⟩, hsub]
      exact ⟨_, _, .inl ⟨rfl, hagree⟩, rfl⟩
    · rw [if_neg fun hand => hagree (hagrees.mp hand.2.2)]
      exact ⟨_, _, .inr ⟨rfl, hagree⟩, rfl⟩
  · have hord : s.slot 0 = .ofNat (k + 1) := by
      rw [hpart.ord, if_neg hlast, UInt8.or_zero]
    rw [if_neg fun hllef => hlast ((hpart.and_llef_ne_zero_iff hk20).mp hllef), compareLfn_eq, hord, hpart.sum]
    obtain ⟨rfl, ⟨rfl, hafter⟩ | ⟨rfl, hafter⟩⟩ := hstate (lt_of_le_of_ne hk hlast)
    · have hagrees : cmpLfn s.lfnbuf s.slot = true ↔ AgreesFrom ename s.lfnbuf k := by
        refine hcmp.trans ⟨fun h i hi hlen => ?_, fun h i hi _ => h i hi⟩
        obtain hlt | hge := Nat.lt_or_ge i (13 * (k + 1))
        · exact h i hi (.inl hlt) hlen
        · exact hafter i hge hlen
      by_cases hagree : AgreesFrom ename s.lfnbuf k
      · rw [if_pos ⟨rfl, rfl, hagrees.mpr hagree⟩, hsub]
        exact ⟨_, _, .inl ⟨rfl, hagree⟩, rfl⟩
      · rw [if_neg fun hand => hagree (hagrees.mp hand.2.2)]
        exact ⟨_, _, .inr ⟨rfl, hagree⟩, rfl⟩
    · rw [if_neg fun hand => hne hand.1]
      exact ⟨_, _, .inr ⟨rfl, fun h => hafter (hmono h)⟩, rfl⟩

/-! ### Entries -/

/-- The entry with a short name is found if the parts before it agree, or if it has the short name. -/
lemma findSfn_eq (hseeks : s.Seeks name) (ord sum : UInt8) : findSfn ord sum s =
    if ord = 0 ∧ sum = sumSfn s.slot ∨
      (createSfn name 0).2 &&& nsLoss = 0 ∧ (List.range 11).map s.slot = (createSfn name 0).1 then .ok none s
    else .ok (some (0xFF, sum)) { s with dp.blkOfs := noLfn } := by
  change (if ord = 0 ∧ sum = sumSfn s.slot then pure none
    else if s.dp.nsFlag &&& nsLoss = 0 ∧ (List.range 11).map s.slot = s.dp.fn then pure none
    else resetLfn sum : DirAction _) s = _
  rw [hseeks.loss, hseeks.fn]
  by_cases hlong : ord = 0 ∧ sum = sumSfn s.slot
  · rw [if_pos hlong, if_pos (.inl hlong)]
    rfl
  · rw [if_neg hlong]
    by_cases hshort : (createSfn name 0).2 &&& nsLoss = 0 ∧ (List.range 11).map s.slot = (createSfn name 0).1
    · rw [if_pos hshort, if_pos (.inr hshort)]
      rfl
    · rw [if_neg hshort, if_neg (not_or.mpr ⟨hlong, hshort⟩)]
      rfl

/-- What is remembered of an entry. -/
def DirAccess.noted (s : DirAccess) (window : Window) (attr : UInt8) (blkOfs : ℕ) : DirAccess :=
  { s with window := window, dp.attr := attr, dp.blkOfs := blkOfs }

lemma DirAccess.At.noted (hs : s.At fs bytes cluster pos) (hw : window.Valid bytes) (attr : UInt8) (blkOfs : ℕ) :
    (s.noted window attr blkOfs).At fs bytes cluster pos := ⟨⟨hs.dptr, hs.clust, hs.sect, hs.dir⟩, hw⟩

lemma DirAccess.Seeks.noted (h : s.Seeks name) (window : Window) (attr : UInt8) (blkOfs : ℕ) :
    (s.noted window attr blkOfs).Seeks name := ⟨h.lfnbuf, h.fn, h.loss, h.nolfn⟩

lemma findEntry_eq (hs : s.At fs bytes cluster pos) (hpos : szdire ∣ pos) (ord sum : UInt8)
    (hdir : fs.slotAt bytes cluster pos = dir) : ∃ w : Window, w.Valid bytes ∧
      (s.noted w (attr dir) s.dp.blkOfs).slot = dir ∧ findEntry (some bytes) ord sum s =
        if dir 0 = 0 then .error .noFile { s with window := w }
        else (if dir 0 = ddem ∨ attr dir &&& amVol ≠ 0 ∧ attr dir ≠ amLfn then resetLfn sum
          else if attr dir = amLfn then findLfn ord sum >>= fun r => pure (some r)
          else findSfn ord sum : DirAction _) (s.noted w (attr dir) s.dp.blkOfs) := by
  obtain ⟨w, hw, hload, hslot⟩ := exists_loadEntry hs hpos
  rw [hdir] at hslot
  refine ⟨w, hw, hslot, ?_⟩
  rw [findEntry, bind_of_ok hload]
  change (if DirAccess.slot { s with window := w } 0 = 0 then throw .noFile else _ : DirAction _)
    { s with window := w } = _
  rw [hslot]
  split_ifs <;> rfl

lemma findEntry_stop (hs : s.At fs bytes cluster pos) (hpos : szdire ∣ pos) (hdir : fs.slotAt bytes cluster pos = dir)
    (h : dir 0 = 0) (ord sum : UInt8) : ∃ w : Window, w.Valid bytes ∧
      findEntry (some bytes) ord sum s = .error .noFile { s with window := w } := by
  obtain ⟨w, hw, -, hfind⟩ := findEntry_eq hs hpos ord sum hdir
  exact ⟨w, hw, by rw [hfind, if_pos h]⟩

/-- An entry that is not for a file does not answer to any name. -/
lemma findEntry_skip (hs : s.At fs bytes cluster pos) (hpos : szdire ∣ pos) (hdir : fs.slotAt bytes cluster pos = dir)
    (h : IsSkipped dir) (hseeks : s.Seeks name) (sum : UInt8) : ∃ (w : Window) (blkOfs : ℕ), w.Valid bytes ∧
      findEntry (some bytes) 0xFF sum s = .ok (some (0xFF, sum)) (s.noted w (attr dir) blkOfs) := by
  obtain ⟨w, hw, hslot, hfind⟩ := findEntry_eq hs hpos 0xFF sum hdir
  rw [if_neg h.ne_zero] at hfind
  by_cases hreset : dir 0 = ddem ∨ attr dir &&& amVol ≠ 0 ∧ attr dir ≠ amLfn
  · rw [if_pos hreset] at hfind
    exact ⟨w, noLfn, hw, hfind⟩
  · obtain ⟨hddem, hlabel⟩ := not_or.mp hreset
    have hdot : dir 0 = 0x2E := by
      obtain h | h | h := h.skipped
      · exact absurd h hddem
      · exact h
      · have hall : ∀ a : UInt8, a &&& ~~~amArc = amVol → a &&& amVol ≠ 0 ∧ a ≠ amLfn :=
          forall_uint8 (by decide +kernel)
        exact absurd (hall _ h) hlabel
    rw [if_neg hreset] at hfind
    by_cases hlfn : attr dir = amLfn
    · -- the number of a part is not the mark of a link
      have hcompare : findLfn 0xFF sum (s.noted w (attr dir) s.dp.blkOfs) =
          .ok (0xFF, sum) (s.noted w (attr dir) s.dp.blkOfs) := by
        change (if s.dp.nsFlag &&& nsNolfn = 0 then
          if (s.noted w (attr dir) s.dp.blkOfs).slot 0 &&& llef ≠ 0 then _ else
            compareLfn ((s.noted w (attr dir) s.dp.blkOfs).slot 0) 0xFF sum s.dp.blkOfs else _ : DirAction _)
          (s.noted w (attr dir) s.dp.blkOfs) = _
        rw [if_pos hseeks.nolfn, hslot, hdot, if_neg (by decide), compareLfn_eq, if_neg fun hand => by
          exact absurd hand.1 (by decide)]
        rfl
      rw [if_pos hlfn, bind_of_ok hcompare] at hfind
      exact ⟨w, _, hw, hfind⟩
    · have hfn := (createSfn_spec name).1
      rw [if_neg hlfn, findSfn_eq (hseeks.noted ..), hslot, if_neg] at hfind
      · exact ⟨w, noLfn, hw, hfind⟩
      · rintro (⟨hord, -⟩ | ⟨-, hmap⟩)
        · exact absurd hord (by decide)
        · refine hfn.ne_dot 0x2E ?_ rfl
          rw [← hmap, ← hdot]
          exact List.mem_map_of_mem (List.mem_range.mpr (by decide))

lemma findEntry_part (hs : s.At fs bytes cluster pos) (hpos : szdire ∣ pos) (hdir : fs.slotAt bytes cluster pos = dir)
    (he : IsLongName ename) (hk : k < partCount ename) (hpart : IsPart ename sum' k dir) (hseeks : s.Seeks name)
    (hstate : k + 1 < partCount ename → sum = sum' ∧ Awaits ename s.lfnbuf (k + 1) ord) :
    ∃ (w : Window) (ord' : UInt8) (blkOfs : ℕ), w.Valid bytes ∧ Awaits ename s.lfnbuf k ord' ∧
      findEntry (some bytes) ord sum s = .ok (some (ord', sum')) (s.noted w (attr dir) blkOfs) := by
  obtain ⟨w, hw, hslot, hfind⟩ := findEntry_eq hs hpos ord sum hdir
  obtain ⟨hzero, hmark⟩ := hpart.not_mark (hk.trans_le he.partCount_le)
  have hreset : ¬(dir 0 = ddem ∨ attr dir &&& amVol ≠ 0 ∧ attr dir ≠ amLfn) := by
    rintro (h | h)
    · exact hmark (.inl h)
    · exact h.2 hpart.attr
  have hattr := hpart.attr
  rw [← hslot] at hpart
  obtain ⟨ord', blkOfs, hawaits, hlfn⟩ := findLfn_part he hk hpart hseeks.nolfn hstate
  refine ⟨w, ord', blkOfs, hw, hawaits, ?_⟩
  rw [hfind, if_neg hzero, if_neg hreset, if_pos hattr, bind_of_ok hlfn]
  rfl

lemma findEntry_sfn (hs : s.At fs bytes cluster pos) (hpos : szdire ∣ pos) (hdir : fs.slotAt bytes cluster pos = dir)
    (h : IsSfn dir) (hseeks : s.Seeks name) (ord sum : UInt8) : ∃ w : Window, w.Valid bytes ∧
      (s.noted w (attr dir) s.dp.blkOfs).slot = dir ∧ findEntry (some bytes) ord sum s =
        if ord = 0 ∧ sum = sumSfn dir ∨
          (createSfn name 0).2 &&& nsLoss = 0 ∧ (List.range 11).map dir = (createSfn name 0).1
        then .ok none (s.noted w (attr dir) s.dp.blkOfs)
        else .ok (some (0xFF, sum)) (s.noted w (attr dir) noLfn) := by
  obtain ⟨w, hw, hslot, hfind⟩ := findEntry_eq hs hpos ord sum hdir
  obtain ⟨hlfn, -⟩ := attr_of_and_amVol _ h.attr
  refine ⟨w, hw, hslot, ?_⟩
  rw [hfind, if_neg h.ne_zero, if_neg, if_neg hlfn, findSfn_eq (hseeks.noted ..), hslot]
  · rfl
  · rintro (hddem | hvol)
    · exact h.ne_ddem hddem
    · exact hvol.1 h.attr

/-! ### Directories -/

lemma findEntries_succ {ord' : UInt8} (hfind : findEntry (some bytes) ord sum s = .ok (some (ord', sum')) s') :
    findEntries (some bytes) fs (fuel + 1) ord sum s =
      (dirNext (some bytes) fs >>= fun _ => findEntries (some bytes) fs fuel ord' sum') s' :=
  bind_of_ok hfind

lemma findEntries_found (hfind : findEntry (some bytes) ord sum s = .ok none s') :
    findEntries (some bytes) fs (fuel + 1) ord sum s = .ok () s' :=
  bind_of_ok hfind

lemma findEntries_error {res : FResult} (hfind : findEntry (some bytes) ord sum s = .error res s') :
    findEntries (some bytes) fs (fuel + 1) ord sum s = .error res s' :=
  bind_of_error hfind

/-- The object looks for a name in the directory of an object, at a position. -/
structure DirAccess.Looks (fs : Fatfs) (bytes : ℕ → UInt8) (cluster : ℕ → ℕ) (obj : ObjId) (name : List ℕ)
    (buf : ℕ → ℕ) (ns : UInt8) (pos : ℕ) (s : DirAccess) : Prop where
  place : s.At fs bytes cluster pos
  seeks : s.Seeks name
  lfnbuf : s.lfnbuf = buf
  obj : s.dp.obj = obj
  ns : s.dp.nsFlag = ns

variable {ns : UInt8} {buf : ℕ → ℕ}

lemma DirAccess.Looks.noted (h : s.Looks fs bytes cluster obj name buf ns pos) {w : Window} (hw : w.Valid bytes)
    (attr : UInt8) (blkOfs : ℕ) : (s.noted w attr blkOfs).Looks fs bytes cluster obj name buf ns pos :=
  ⟨h.place.noted hw attr blkOfs, h.seeks.noted w attr blkOfs, h.lfnbuf, h.obj, h.ns⟩

lemma DirAccess.Looks.moved (h : s.Looks fs bytes cluster obj name buf ns pos) {w : Window} (hw : w.Valid bytes)
    (pos' : ℕ) : (s.moved fs cluster pos' w).Looks fs bytes cluster obj name buf ns pos' :=
  ⟨at_moved hw s, ⟨h.seeks.lfnbuf, h.seeks.fn, h.seeks.loss, h.seeks.nolfn⟩, h.lfnbuf, h.obj, h.ns⟩

/-- The object points to the file that has been found. -/
structure DirAccess.IsFound (bytes : ℕ → UInt8) (obj : ObjId) (ns : UInt8) (e : Entry) (s : DirAccess) : Prop where
  slot : s.slot = e.sfn
  attr : s.dp.attr = attr e.sfn
  dir : s.dp.dir = s.dp.dptr % sectorSize
  window : s.window.Valid bytes
  obj : s.dp.obj = obj
  ns : s.dp.nsFlag = ns

/-- How a search ends. -/
def Finds (bytes : ℕ → UInt8) (obj : ObjId) (ns : UInt8) :
    Option Entry → EStateM.Result FResult DirAccess Unit → Prop
  | none, .error res s => res = .noFile ∧ s.window.Valid bytes
  | some e, .ok _ s => s.IsFound bytes obj ns e
  | _, _ => False

/-- After an entry that is not the end, the search goes on in the rest of the table. -/
lemma finds_next (h : IsTable fs bytes obj cluster size) (hs : s.Looks fs bytes cluster obj name buf ns pos)
    (hpos : szdire ∣ pos) (hsize : pos + (n + 1) * szdire = size) {found : Option Entry}
    {p : DirAction Unit} (hend : n = 0 → found = none) (hnext : 0 < n → ∀ s' : DirAccess,
      s'.Looks fs bytes cluster obj name buf ns (pos + szdire) → Finds bytes obj ns found (p s')) :
    Finds bytes obj ns found ((dirNext (some bytes) fs >>= fun _ => p) s) := by
  rw [← hs.obj] at h
  obtain ⟨w, hw, hdirNext⟩ := h.exists_dirNext_of_size hs.place hpos hsize
  by_cases hn : n = 0
  · rw [if_pos hn] at hdirNext
    rw [hend hn, bind_of_error hdirNext]
    exact ⟨rfl, hw⟩
  · rw [if_neg hn] at hdirNext
    rw [bind_of_ok hdirNext]
    exact hnext (Nat.pos_of_ne_zero hn) _ (hs.moved hw _)

/-- The search in the entries of a table from a position on finds the first file that answers to the name. -/
def FindsFirst (fs : Fatfs) (bytes : ℕ → UInt8) (cluster : ℕ → ℕ) (obj : ObjId) (size : ℕ) (name : List ℕ)
    (buf : ℕ → ℕ) (ns : UInt8) (slots : List Slot) (es : List Entry) : Prop :=
  ∀ (n pos fuel : ℕ) (sum : UInt8) (s : DirAccess), fs.slotsAt bytes cluster n pos = slots → 0 < n →
    s.Looks fs bytes cluster obj name buf ns pos → szdire ∣ pos → pos + n * szdire = size → n < fuel →
      Finds bytes obj ns (es.find? (Entry.answers name)) (findEntries (some bytes) fs fuel 0xFF sum s)

/-- The entry with a short name: the search stops there, or goes on. -/
lemma finds_sfn (h : IsTable fs bytes obj cluster size) (hs : s.Looks fs bytes cluster obj name buf ns pos)
    (hpos : szdire ∣ pos) (hsize : pos + (n + 1) * szdire = size) (hfuel : n < fuel)
    (hdir : fs.slotAt bytes cluster pos = e.sfn) (hsfn : IsSfn e.sfn)
    (hlong : ord = 0 ∧ sum = sumSfn e.sfn ↔ e.long.map (List.map wtoupper) = some (name.map wtoupper))
    (hlists : Lists (fs.slotsAt bytes cluster n (pos + szdire)) es)
    (hrest : FindsFirst fs bytes cluster obj size name buf ns (fs.slotsAt bytes cluster n (pos + szdire)) es) :
    Finds bytes obj ns ((e :: es).find? (Entry.answers name))
      (findEntries (some bytes) fs (fuel + 1) ord sum s) := by
  obtain ⟨w, hw, hslot, hfind⟩ := findEntry_sfn hs.place hpos hdir hsfn hs.seeks ord sum
  by_cases hanswers : e.answers name = true
  · rw [List.find?_cons_of_pos hanswers]
    rw [Entry.answers, Bool.or_eq_true, decide_eq_true_eq, decide_eq_true_eq, ← hlong] at hanswers
    rw [if_pos hanswers] at hfind
    rw [findEntries_found hfind]
    exact ⟨hslot, rfl, hs.place.dir.trans (hs.place.dptr ▸ rfl), hw, hs.obj, hs.ns⟩
  · rw [List.find?_cons_of_neg hanswers]
    rw [Entry.answers, Bool.or_eq_true, decide_eq_true_eq, decide_eq_true_eq, ← hlong] at hanswers
    rw [if_neg hanswers] at hfind
    rw [findEntries_succ hfind]
    refine finds_next h (hs.noted hw _ _) hpos hsize (fun hn => ?_) fun hn s' hs' => ?_
    · rw [hlists.eq_nil (by rw [hn]; rfl)]
      rfl
    · exact hrest n _ fuel sum s' rfl hn hs' (Nat.dvd_add hpos (Nat.dvd_refl _)) (next_size hsize) hfuel

/-- The parts of a long name and the entry after them. -/
lemma finds_parts (h : IsTable fs bytes obj cluster size) (hname : IsLongName name) (he : IsLongName ename)
    (hsfn : IsSfn dir) {rest parts : List Slot} (hlists : Lists rest es)
    (hrest : FindsFirst fs bytes cluster obj size name buf ns rest es) (hk : k ≤ partCount ename)
    (hparts : AreParts ename (sumSfn dir) k parts) (hslots : fs.slotsAt bytes cluster n pos = parts ++ dir :: rest)
    (hs : s.Looks fs bytes cluster obj name buf ns pos) (hpos : szdire ∣ pos) (hsize : pos + n * szdire = size)
    (hfuel : n < fuel)
    (hstate : k < partCount ename → sum = sumSfn dir ∧ Awaits ename buf k ord) :
    Finds bytes obj ns (((⟨some ename, dir⟩ : Entry) :: es).find? (Entry.answers name))
      (findEntries (some bytes) fs fuel ord sum s) := by
  induction k generalizing parts n pos s fuel ord sum with
  | zero =>
    obtain rfl : parts = [] := hparts
    obtain ⟨n, rfl, hdir, rfl⟩ := slotsAt_eq_cons hslots
    obtain ⟨fuel, rfl⟩ := Nat.exists_eq_add_one_of_ne_zero (Nat.ne_zero_of_lt hfuel)
    obtain ⟨rfl, hawaits⟩ := hstate he.partCount_pos
    refine finds_sfn h hs hpos hsize (Nat.lt_of_succ_lt_succ hfuel) hdir hsfn ?_ hlists hrest
    rw [Option.map_some, Option.some_inj, ← agreesFrom_zero he hname (hs.lfnbuf ▸ hs.seeks.lfnbuf)]
    obtain ⟨rfl, hagrees⟩ | ⟨rfl, hagrees⟩ := hawaits
    · exact ⟨fun _ => hagrees, fun _ => ⟨rfl, rfl⟩⟩
    · exact ⟨fun hand => absurd hand.1 (by decide), fun hagrees' => absurd hagrees' hagrees⟩
  | succ k ih =>
    obtain ⟨part, parts, rfl, hpart, hparts⟩ := hparts
    obtain ⟨n, rfl, hdir, hslots⟩ := slotsAt_eq_cons hslots
    obtain ⟨fuel, rfl⟩ := Nat.exists_eq_add_one_of_ne_zero (Nat.ne_zero_of_lt hfuel)
    obtain ⟨w, ord', blkOfs, hw, hawaits, hfind⟩ :=
      findEntry_part hs.place hpos hdir he hk hpart hs.seeks
      (hs.lfnbuf.symm ▸ hstate)
    rw [findEntries_succ hfind]
    refine finds_next h (hs.noted hw _ _) hpos hsize (fun hn => ?_) fun hn s' hs' => ?_
    · rw [hn] at hslots
      exact absurd hslots.symm (List.append_ne_nil_of_right_ne_nil _ (List.cons_ne_nil _ _))
    · refine ih (Nat.le_of_succ_le hk) hparts hslots hs' (Nat.dvd_add hpos (Nat.dvd_refl _)) (next_size hsize)
        (Nat.lt_of_succ_lt_succ hfuel) fun _ => ⟨rfl, hs.lfnbuf ▸ hawaits⟩

/-- From an entry on, the first file that answers is found. -/
lemma findsFirst (h : IsTable fs bytes obj cluster size) (hname : IsLongName name) {slots : List Slot}
    (hlists : Lists slots es) : FindsFirst fs bytes cluster obj size name buf ns slots es := by
  induction hlists with
  | nil =>
    intro n pos fuel sum s hslots hn
    obtain ⟨n, rfl⟩ := Nat.exists_eq_add_one_of_ne_zero hn.ne'
    cases hslots
  | stop hdir =>
    intro n pos fuel sum s hslots hn hs hpos hsize hfuel
    obtain ⟨n, rfl, hslot, -⟩ := slotsAt_eq_cons hslots
    obtain ⟨fuel, rfl⟩ := Nat.exists_eq_add_one_of_ne_zero (Nat.ne_zero_of_lt hfuel)
    obtain ⟨w, hw, hfind⟩ := findEntry_stop hs.place hpos hslot hdir 0xFF sum
    rw [findEntries_error hfind]
    exact ⟨rfl, hw⟩
  | skip hskip hrest ih =>
    intro n pos fuel sum s hslots hn hs hpos hsize hfuel
    obtain ⟨n, rfl, hslot, rfl⟩ := slotsAt_eq_cons hslots
    obtain ⟨fuel, rfl⟩ := Nat.exists_eq_add_one_of_ne_zero (Nat.ne_zero_of_lt hfuel)
    obtain ⟨w, blkOfs, hw, hfind⟩ := findEntry_skip hs.place hpos hslot hskip hs.seeks sum
    rw [findEntries_succ hfind]
    refine finds_next h (hs.noted hw _ _) hpos hsize (fun hn => ?_) fun hn s' hs' => ?_
    · rw [hrest.eq_nil (by rw [hn]; rfl)]
      rfl
    · exact ih n _ fuel sum s' rfl hn hs' (Nat.dvd_add hpos (Nat.dvd_refl _)) (next_size hsize)
        (Nat.lt_of_succ_lt_succ hfuel)
  | short hsfn hrest ih =>
    intro n pos fuel sum s hslots hn hs hpos hsize hfuel
    obtain ⟨n, rfl, hslot, rfl⟩ := slotsAt_eq_cons hslots
    obtain ⟨fuel, rfl⟩ := Nat.exists_eq_add_one_of_ne_zero (Nat.ne_zero_of_lt hfuel)
    refine finds_sfn h hs hpos hsize (Nat.lt_of_succ_lt_succ hfuel) hslot hsfn ?_ hrest ih
    exact ⟨fun hand => absurd hand.1 (by decide), fun hsome => absurd hsome.symm (Option.some_ne_none _)⟩
  | long he hparts hsfn hrest ih =>
    intro n pos fuel sum s hslots hn hs hpos hsize hfuel
    exact finds_parts h hname he hsfn hrest ih le_rfl hparts hslots hs hpos hsize hfuel
      fun hlt => absurd hlt (lt_irrefl _)

/-- A directory with its first cluster, 0 for the root directory, and its files. -/
def HasFiles (fs : Fatfs) (bytes : ℕ → UInt8) (sclust : ℕ) (es : List Entry) : Prop :=
  ∃ obj cluster size, obj.sclust = sclust ∧ IsTable fs bytes obj cluster size ∧
    Lists (fs.slotsAt bytes cluster (size / szdire) 0) es

lemma IsTable.size_eq (h : IsTable fs bytes obj cluster size) :
    0 < size / szdire ∧ 0 + size / szdire * szdire = size ∧ size / szdire ≤ maxDir / szdire := by
  have hpos := h.size_pos
  have hdvd := h.sectorSize_dvd_size
  have hle := h.size_le
  simp only [szdire, sectorSize, maxDir] at hdvd hle ⊢
  omega

/-- The object after `dir_sdi`, except for its place. -/
def ObjId.rewound (fs : Fatfs) (obj : ObjId) : ObjId :=
  { obj with stat := if rootInClusters fs obj then 0 else obj.stat }

/-- `dir_find` finds the first file of the directory that answers to the name. -/
lemma finds_dirFind (h : HasFiles fs bytes s.dp.obj.sclust es) (hname : IsLongName name) (hw : s.window.Valid bytes)
    (hseeks : s.Seeks name) : Finds bytes (s.dp.obj.rewound fs) s.dp.nsFlag (es.find? (Entry.answers name))
      (dirFind (some bytes) fs s) := by
  obtain ⟨obj, cluster, size, hsclust, htable, hlists⟩ := h
  have htable' : IsTable fs bytes s.dp.obj cluster size := htable.congr hsclust.symm
  have hrewound : IsTable fs bytes (s.dp.obj.rewound fs) cluster size := htable.congr hsclust.symm
  obtain ⟨hpos, hsize, hle⟩ := htable.size_eq
  rw [dirFind, bind_of_ok htable'.dirSdi_zero]
  have hlooks : (DirAccess.noted (s.rewound fs cluster) s.window s.dp.attr noLfn).Looks fs bytes cluster
      (s.dp.obj.rewound fs) name s.lfnbuf s.dp.nsFlag 0 :=
    ⟨⟨⟨rfl, rfl, rfl, rfl⟩, hw⟩, ⟨hseeks.lfnbuf, hseeks.fn, hseeks.loss, hseeks.nolfn⟩, rfl, rfl, rfl⟩
  exact findsFirst hrewound hname hlists _ 0 (maxDir / szdire + 1) 0xFF _ rfl hpos hlooks
    (Nat.dvd_zero _) hsize (Nat.lt_succ_of_le hle)

end PiKachulm.Fs

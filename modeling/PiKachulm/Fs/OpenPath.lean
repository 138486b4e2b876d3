import PiKachulm.Fs.FindName

/-!
# Opening files and directories by their paths

`f_open` and `f_opendir` go from the root directory to what the names of a path lead to. What is opened is then
read as the contents of the file, or as the files of the directory, and an error says where the path ends. What a
directory tells about its files is enough to open them.
-/

namespace PiKachulm.Fs

open Core

variable {fs : Fatfs} {bytes : ℕ → UInt8} {obj : ObjId} {cluster : ℕ → ℕ} {fuel : ℕ} {ns : UInt8}
  {window : Window} {s : DirAccess} {name : List ℕ} {es : List Entry} {e d : Entry}

/-! ### Names of a path -/

lemma IsLegal.units_ne_zero {c : Char} (h : IsLegal c) : ∀ u ∈ units c.toNat, u ≠ 0 := by
  have hge := h.ge
  rw [units]
  intro u hu
  split_ifs at hu
  · rw [List.mem_singleton.mp hu]
    omega
  · simp only [List.mem_cons, List.not_mem_nil, or_false] at hu
    omega

lemma IsName.isLongName {cs : List Char} (h : IsName cs) : IsLongName (nameOf cs) := by
  have hpre : nameOf cs <+: unitsOf cs := List.rdropWhile_prefix _ _
  refine ⟨h.ne_nil, hpre.length_le.trans h.length_le, fun u hu => ?_⟩
  obtain ⟨c, hc, hu⟩ := List.mem_flatMap.mp (hpre.subset hu)
  exact (h.legal c hc).units_ne_zero u hu

/-- The object with a name to look for. -/
def DirAccess.sought (s : DirAccess) (seg : Segment) : DirAccess :=
  { s with dp.fn := seg.fn, dp.nsFlag := seg.nsFlag, lfnbuf := seg.lfnbuf }

lemma Segment.IsFor.flags {cs : List Char} {seg : Segment} (h : seg.IsFor cs) :
    seg.nsFlag &&& nsNolfn = 0 ∧ seg.nsFlag &&& nsNoname = 0 := by
  have hall : ∀ f : UInt8, f &&& (nsNolfn ||| nsNoname) = 0 → f &&& nsNolfn = 0 ∧ f &&& nsNoname = 0 :=
    forall_uint8 (by decide +kernel)
  exact hall _ h.followed

lemma Segment.IsFor.seeks {cs : List Char} {seg : Segment} (h : seg.IsFor cs) (s : DirAccess) :
    (s.sought seg).Seeks (nameOf cs) := ⟨h.lfnbuf, h.fn, h.loss, h.flags.1⟩

lemma findSegment_none (h : HasFiles fs bytes s.dp.obj.sclust es) (hname : IsLongName name)
    (hw : s.window.Valid bytes) (hseeks : s.Seeks name) (hfind : es.find? (Entry.answers name) = none) :
    ∃ s' : DirAccess, s'.window.Valid bytes ∧ findSegment (some bytes) fs ns s =
      .error (if ns &&& nsLast = 0 then .noPath else .noFile) s' := by
  have hfinds := finds_dirFind h hname hw hseeks
  rw [hfind] at hfinds
  cases hrun : dirFind (some bytes) fs s with
  | ok _ s' =>
    rw [hrun] at hfinds
    exact hfinds.elim
  | error res s' =>
    rw [hrun] at hfinds
    obtain ⟨rfl, hw'⟩ := hfinds
    refine ⟨s', hw', ?_⟩
    rw [findSegment, tryCatch_of_error hrun]
    simp only [true_and]
    rfl

lemma findSegment_some (h : HasFiles fs bytes s.dp.obj.sclust es) (hname : IsLongName name)
    (hw : s.window.Valid bytes) (hseeks : s.Seeks name) (hfind : es.find? (Entry.answers name) = some e) :
    ∃ s' : DirAccess, s'.IsFound bytes (s.dp.obj.rewound fs) s.dp.nsFlag e ∧
      findSegment (some bytes) fs ns s = .ok () s' := by
  have hfinds := finds_dirFind h hname hw hseeks
  rw [hfind] at hfinds
  cases hrun : dirFind (some bytes) fs s with
  | error res s' =>
    rw [hrun] at hfinds
    exact hfinds.elim
  | ok _ s' =>
    rw [hrun] at hfinds
    exact ⟨s', hfinds, tryCatch_of_ok hrun⟩

/-- The bytes for the first cluster are in the entry. -/
lemma DirAccess.IsFound.ldClust_eq (h : s.IsFound bytes obj ns e) :
    (ldClust fs fun i => s.window.win (s.dp.dptr % sectorSize + i)) = ldClust fs e.sfn := by
  have hword : ∀ i < 30, ldWord (fun i => s.window.win (s.dp.dptr % sectorSize + i)) i = ldWord e.sfn i := by
    intro i hi
    refine ldWord_congr fun k hk => ?_
    rw [← h.slot, DirAccess.slot, if_pos (by simp only [szdire]; omega), h.dir]
  rw [ldClust, ldClust, hword 26 (by decide), hword 20 (by decide)]

/-! ### Paths -/

/-- What a path leads to from a directory with a first cluster: a file, or an error. -/
inductive Resolves (fs : Fatfs) (bytes : ℕ → UInt8) : ℕ → List (List ℕ) → Except FResult Entry → Prop
  | missing {sclust : ℕ} {name : List ℕ} {names : List (List ℕ)} {es : List Entry}
      (hes : HasFiles fs bytes sclust es) (hfind : es.find? (Entry.answers name) = none) :
      Resolves fs bytes sclust (name :: names) (.error (if names = [] then .noFile else .noPath))
  | last {sclust : ℕ} {name : List ℕ} {es : List Entry} {e : Entry} (hes : HasFiles fs bytes sclust es)
      (hfind : es.find? (Entry.answers name) = some e) : Resolves fs bytes sclust [name] (.ok e)
  | file {sclust : ℕ} {name : List ℕ} {names : List (List ℕ)} {es : List Entry} {e : Entry}
      (hes : HasFiles fs bytes sclust es) (hfind : es.find? (Entry.answers name) = some e)
      (hfile : attr e.sfn &&& amDir = 0) (hne : names ≠ []) :
      Resolves fs bytes sclust (name :: names) (.error .noPath)
  | next {sclust : ℕ} {name : List ℕ} {names : List (List ℕ)} {es : List Entry} {e : Entry}
      {res : Except FResult Entry} (hes : HasFiles fs bytes sclust es)
      (hfind : es.find? (Entry.answers name) = some e) (hdir : attr e.sfn &&& amDir ≠ 0)
      (hrest : Resolves fs bytes (ldClust fs e.sfn) names res) : Resolves fs bytes sclust (name :: names) res

/-- How `follow_path` ends. -/
def LeadsTo (bytes : ℕ → UInt8) : Except FResult Entry → EStateM.Result FResult DirAccess Unit → Prop
  | .error res, .error res' s => res' = res ∧ s.window.Valid bytes
  | .ok e, .ok _ s => s.slot = e.sfn ∧ s.dp.attr = attr e.sfn ∧ s.window.Valid bytes ∧
      s.dp.nsFlag &&& nsNoname = 0 ∧ s.dp.obj.hasFs = true
  | _, _ => False

variable {path : List UInt8} {css : List (List Char)} {r : Except FResult Entry} {sclust : ℕ}

lemma followLoop_succ {seg : Segment} (hseg : createName path s.lfnbuf = some seg) :
    followLoop (some bytes) fs (fuel + 1) path s =
      (findSegment (some bytes) fs seg.nsFlag >>= fun _ => if seg.nsFlag &&& nsLast ≠ 0 then pure () else
        enterDir fs >>= fun _ => followLoop (some bytes) fs fuel seg.path : DirAction Unit)
        (s.sought seg) := by
  rw [followLoop, bind_of_ok (show (get : DirAction DirAccess) s = .ok s s from rfl), hseg]
  rfl

lemma enterDir_file (h : s.dp.attr &&& amDir = 0) : enterDir fs s = .error .noPath s := by
  change (if s.dp.attr &&& amDir = 0 then throw .noPath else _ : DirAction Unit) s = _
  rw [if_pos h]
  rfl

lemma enterDir_dir (h : s.dp.attr &&& amDir ≠ 0) : enterDir fs s = .ok ()
    { s with dp.obj.sclust := ldClust fs fun i => s.window.win (s.dp.dptr % sectorSize + i) } := by
  change (if s.dp.attr &&& amDir = 0 then throw .noPath else _ : DirAction Unit) s = _
  rw [if_neg h]
  rfl

lemma Spells.ne_nil (h : Spells path css) : css ≠ [] := by
  cases h <;> exact List.cons_ne_nil _ _

/-- The loop of `follow_path` goes to what the names lead to. -/
lemma leadsTo_followLoop (h : Spells path css) (hres : Resolves fs bytes sclust (css.map nameOf) r)
    (hw : s.window.Valid bytes) (hsclust : s.dp.obj.sclust = sclust) (hhas : s.dp.obj.hasFs = true)
    (hfuel : css.length ≤ fuel) : LeadsTo bytes r (followLoop (some bytes) fs fuel path s) := by
  induction h generalizing fuel sclust s with
  | @last cs seps hname hseps =>
    obtain ⟨fuel, rfl⟩ := Nat.exists_eq_add_one_of_ne_zero (Nat.ne_zero_of_lt hfuel)
    obtain ⟨seg, hseg, hfor, hlast⟩ := createName_last_isFor hname hseps s.lfnbuf
    rw [followLoop_succ hseg]
    subst hsclust
    cases hres with
    | missing hes hfind =>
      obtain ⟨s', hw', hrun⟩ := findSegment_none (s := s.sought seg) hes hname.isLongName hw (hfor.seeks s) hfind
      rw [bind_of_error hrun]
      exact ⟨if_neg hlast, hw'⟩
    | last hes hfind =>
      obtain ⟨s', hfound, hrun⟩ := findSegment_some (s := s.sought seg) hes hname.isLongName hw (hfor.seeks s) hfind
      rw [bind_of_ok hrun, if_pos hlast]
      refine ⟨hfound.slot, hfound.attr, hfound.window, ?_, ?_⟩
      · rw [hfound.ns]
        exact hfor.flags.2
      · rw [hfound.obj]
        exact hhas
    | file hes hfind hfile hne => exact absurd rfl hne
    | next hes hfind hdir hrest => cases hrest
  | @cons cs sep seps rest css hname hsep hseps hrest ih =>
    rw [List.length_cons] at hfuel
    obtain ⟨fuel, rfl⟩ := Nat.exists_eq_add_one_of_ne_zero (Nat.ne_zero_of_lt hfuel)
    obtain ⟨seg, hseg, hfor, hlast, rfl⟩ := createName_cons_isFor hname hsep hseps hrest s.lfnbuf
    rw [followLoop_succ hseg]
    subst hsclust
    have hne : css.map nameOf ≠ [] := List.map_eq_nil_iff.not.mpr hrest.ne_nil
    change Resolves fs bytes s.dp.obj.sclust (nameOf cs :: css.map nameOf) r at hres
    generalize hnames : css.map nameOf = names at hres hne
    cases hres with
    | missing hes hfind =>
      obtain ⟨s', hw', hrun⟩ := findSegment_none (s := s.sought seg) hes hname.isLongName hw (hfor.seeks s) hfind
      rw [bind_of_error hrun]
      refine ⟨?_, hw'⟩
      rw [if_pos hlast, if_neg hne]
    | last => exact absurd rfl hne
    | file hes hfind hfile =>
      obtain ⟨s', hfound, hrun⟩ := findSegment_some (s := s.sought seg) hes hname.isLongName hw (hfor.seeks s) hfind
      rw [bind_of_ok hrun, if_neg (not_not.mpr hlast), bind_of_error (enterDir_file (hfound.attr ▸ hfile))]
      exact ⟨rfl, hfound.window⟩
    | next hes hfind hdir hresolves =>
      obtain ⟨s', hfound, hrun⟩ := findSegment_some (s := s.sought seg) hes hname.isLongName hw (hfor.seeks s) hfind
      rw [bind_of_ok hrun, if_neg (not_not.mpr hlast), bind_of_ok (enterDir_dir (hfound.attr ▸ hdir))]
      refine ih (hnames ▸ hresolves) hfound.window hfound.ldClust_eq ?_ (Nat.le_of_succ_le_succ hfuel)
      change s'.dp.obj.hasFs = true
      rw [hfound.obj]
      exact hhas

/-! ### Opening files -/

/-- No byte of a path is the mark of a drive. -/
def NoDrive (p : List UInt8) : Prop := ∀ b ∈ p, 0x20 ≤ b ∧ b ≠ 0x3A

lemma IsLegal.noDrive {c : Char} (h : IsLegal c) : NoDrive (String.utf8EncodeChar c) := by
  have hall : ∀ k < 2 ^ 7, 0x20 ≤ UInt8.ofNat (k + 0x80) ∧ UInt8.ofNat (k + 0x80) ≠ 0x3A := by decide
  have hhigh : ∀ (n d : ℕ) (b : ℕ), 0x80 ≤ d → b ≤ 0x100 - d → 0 < b →
      0x20 ≤ UInt8.ofNat (n % b + d) ∧ UInt8.ofNat (n % b + d) ≠ 0x3A := by
    intro n d b hd hb hpos
    have hlt := Nat.mod_lt n hpos
    have h := hall (n % b + d - 0x80) (by omega)
    rwa [Nat.sub_add_cancel (by omega)] at h
  rw [← utf8_toNat]
  intro b hb
  by_cases h1 : c.toNat < 0x80
  · rw [utf8, if_pos (Nat.le_of_lt_succ h1), List.mem_singleton] at hb
    have hascii : ∀ k < 0x80, 0x20 ≤ k → k ∉ illegalLfn → 0x20 ≤ UInt8.ofNat k ∧ UInt8.ofNat k ≠ 0x3A := by
      decide
    rw [hb]
    exact hascii _ h1 h.ge h.illegal
  · by_cases h2 : c.toNat < 0x800
    · rw [utf8_of_lt_0x800 h1 h2] at hb
      simp only [List.mem_cons, List.not_mem_nil, or_false] at hb
      obtain rfl | rfl := hb <;> exact hhigh _ _ _ (by decide) (by decide) (by decide)
    · by_cases h3 : c.toNat < 0x10000
      · rw [utf8_of_lt_0x10000 h2 h3] at hb
        simp only [List.mem_cons, List.not_mem_nil, or_false] at hb
        obtain rfl | rfl | rfl := hb <;> exact hhigh _ _ _ (by decide) (by decide) (by decide)
      · rw [utf8_of_ge h3] at hb
        simp only [List.mem_cons, List.not_mem_nil, or_false] at hb
        obtain rfl | rfl | rfl | rfl := hb <;> exact hhigh _ _ _ (by decide) (by decide) (by decide)

lemma Separators.noDrive {seps : List UInt8} (h : Separators seps) : NoDrive seps := by
  intro b hb
  obtain h | h := of_decide_eq_true (h b hb)
  · obtain rfl : b = 0x2F := UInt8.toNat_inj.mp h
    decide
  · obtain rfl : b = 0x5C := UInt8.toNat_inj.mp h
    decide

lemma NoDrive.append {p q : List UInt8} (hp : NoDrive p) (hq : NoDrive q) : NoDrive (p ++ q) := by
  intro b hb
  obtain hb | hb := List.mem_append.mp hb
  · exact hp b hb
  · exact hq b hb

lemma IsName.noDrive {cs : List Char} (h : IsName cs) : NoDrive (encode cs) := by
  intro b hb
  obtain ⟨c, hc, hb⟩ := List.mem_flatMap.mp hb
  exact (h.legal c hc).noDrive b hb

lemma Spells.noDrive (h : Spells path css) : NoDrive path := by
  induction h with
  | last hname hseps => exact hname.noDrive.append hseps.noDrive
  | cons hname hsep hseps hrest ih =>
    refine hname.noDrive.append ?_
    rw [← List.cons_append]
    exact (Separators.noDrive (List.forall_mem_cons.mpr ⟨hsep, hseps⟩)).append ih

lemma getLdnumber_of_noDrive {p : List UInt8} (h : NoDrive p) : getLdnumber p = some p := by
  have hdrop : p.dropWhile (fun tc => decide (0x20 ≤ tc ∧ tc ≠ 0x3A)) = [] :=
    List.dropWhile_eq_nil_iff.mpr fun b hb => decide_eq_true (h b hb)
  rw [getLdnumber]
  simp only [hdrop]
  rfl

/-- `follow_path` goes to what the names lead to from the root directory. -/
lemma leadsTo_followPath {seps : List UInt8} (hseps : Separators seps) (h : Spells path css)
    (hres : Resolves fs bytes 0 (css.map nameOf) r) (hw : s.window.Valid bytes) (hhas : s.dp.obj.hasFs = true) :
    LeadsTo bytes r (followPath (some bytes) fs (seps ++ path) s) := by
  have hskip : skipSeparators (seps ++ path) = path := by
    rw [skipSeparators_append hseps, h.skipSeparators_eq]
  have hpeek : ¬isTerminator (peek path).toNat := by
    obtain ⟨b, bs, rfl, -, hb⟩ := h.exists_cons
    exact hb
  have hfuel : css.length ≤ (seps ++ path).length + 1 := by
    have hle := h.length_le
    rw [List.length_append]
    omega
  change LeadsTo bytes r ((if isTerminator (peek (skipSeparators (seps ++ path))).toNat then _ else
    followLoop (some bytes) fs ((seps ++ path).length + 1) (skipSeparators (seps ++ path)) : DirAction Unit)
    { s with dp.obj.sclust := 0, dp.obj.nFrag := 0 })
  rw [hskip, if_neg hpeek]
  exact leadsTo_followLoop (s := { s with dp.obj.sclust := 0, dp.obj.nFrag := 0 }) h hres hw rfl hhas hfuel

/-- What `f_open` returns for what a path leads to. -/
def OpensTo (fs : Fatfs) (bytes : ℕ → UInt8) (mode : UInt8) (fp : Fil) :
    Except FResult Entry → EStateM.Result FResult DirAccess Fil → Prop
  | .error res, .error res' s => res' = res ∧ s.window.Valid bytes
  | .ok e, .error res' s => attr e.sfn &&& amDir ≠ 0 ∧ res' = .noFile ∧ s.window.Valid bytes
  | .ok e, .ok fp' s => attr e.sfn &&& amDir = 0 ∧ s.window.Valid bytes ∧ fp' = Fil.opened fs
      { fp.obj with sclust := ldClust fs e.sfn, objsize := ldDword e.sfn 28 } (mode &&& faRead) fp.clust fp.buf
  | _, _ => False

lemma opensTo_fOpen {seps : List UInt8} (hseps : Separators seps) (h : Spells path css)
    (hres : Resolves fs bytes 0 (css.map nameOf) r) (hw : s.window.Valid bytes) (mode : UInt8) (fp : Fil) :
    OpensTo fs bytes mode fp r (fOpen (some bytes) fs (seps ++ path) mode fp s) := by
  have hmount : mountVolume (seps ++ path) s = .ok (seps ++ path) { s with dp.obj.hasFs := true } := by
    rw [mountVolume, getLdnumber_of_noDrive (hseps.noDrive.append h.noDrive)]
    rfl
  have hleads := leadsTo_followPath (s := { s with dp.obj.hasFs := true }) hseps h hres hw rfl
  rw [fOpen, bind_of_ok hmount]
  cases hrun : followPath (some bytes) fs (seps ++ path) { s with dp.obj.hasFs := true } with
  | error res s' =>
    rw [hrun] at hleads
    rw [bind_of_error hrun]
    cases r with
    | error res' => exact hleads
    | ok e => exact hleads.elim
  | ok _ s' =>
    rw [hrun] at hleads
    rw [bind_of_ok hrun]
    cases r with
    | error res' => exact hleads.elim
    | ok e =>
      obtain ⟨hslot, hattr, hw', hname, -⟩ := hleads
      change OpensTo fs bytes mode fp (.ok e) ((if s'.dp.nsFlag &&& nsNoname ≠ 0 then throw .invalidName
        else if s'.dp.attr &&& amDir ≠ 0 then throw .noFile
        else pure (Fil.opened fs { fp.obj with sclust := ldClust fs s'.slot, objsize := ldDword s'.slot 28 }
          (mode &&& faRead) fp.clust fp.buf) : DirAction Fil) s')
      rw [if_neg (not_not.mpr hname), hattr, hslot]
      by_cases hdir : attr e.sfn &&& amDir = 0
      · rw [if_neg (not_not.mpr hdir)]
        exact ⟨hdir, hw', rfl⟩
      · rw [if_pos hdir]
        exact ⟨hdir, rfl, hw'⟩

variable {ι : Type} [DecidableEq ι]

/-- A file object for a file that is stored shows it from the start. -/
lemma Fil.opened_shows (hfs : fs.Mounted) {mode : UInt8} (hmode : mode &&& faRead ≠ 0)
    (h : Stored fs bytes obj cluster) (clust : ℕ) (buf : Sector) :
    (Fil.opened fs obj (mode &&& faRead) clust buf).Shows fs bytes ⟨fs.contents bytes cluster, obj.objsize, 0⟩ := by
  have hmode' : mode &&& faRead &&& faRead ≠ 0 := by rwa [UInt8.and_assoc, UInt8.and_self]
  refine ⟨obj.attached fs, cluster, ?_, rfl, rfl, Fil.opened_at hfs _ _ hmode' _ _⟩
  exact ⟨h.stat, h.objsize_lt, h.zero, h.mem, h.follows⟩

/-- A path that leads to a file gives an object that shows the file from the start. -/
lemma exists_fOpen (hfs : fs.Mounted) (hw : s.window.Valid bytes) {seps : List UInt8} (hseps : Separators seps)
    (h : Spells path css) (hres : Resolves fs bytes 0 (css.map nameOf) (.ok e)) (hfile : attr e.sfn &&& amDir = 0)
    {mode : UInt8} (hmode : mode &&& faRead ≠ 0) {fp : Fil} (hstored : Stored fs bytes
      { fp.obj with sclust := ldClust fs e.sfn, objsize := ldDword e.sfn 28 } cluster) :
    ∃ fp' s', fOpen (some bytes) fs (seps ++ path) mode fp s = .ok fp' s' ∧ s'.window.Valid bytes ∧
      fp'.Shows fs bytes ⟨fs.contents bytes cluster, ldDword e.sfn 28, 0⟩ := by
  have hopens := opensTo_fOpen hseps h hres hw mode fp
  cases hrun : fOpen (some bytes) fs (seps ++ path) mode fp s with
  | error res s' =>
    rw [hrun] at hopens
    exact absurd hfile hopens.1
  | ok fp' s' =>
    rw [hrun] at hopens
    obtain ⟨-, hw', rfl⟩ := hopens
    exact ⟨_, s', rfl, hw', Fil.opened_shows hfs hmode hstored _ _⟩

/-- One more open file does not disturb the others. -/
lemma run_update (hfs : fs.Mounted) (hw : window.Valid bytes) {files : ι → Fil} {readers : ι → Reader}
    (hfiles : ∀ i, (files i).Shows fs bytes (readers i)) {fp : Fil} {reader : Reader}
    (hfp : fp.Shows fs bytes reader) (i : ι) (requests : List (ι × Request)) :
    (⟨window, Function.update files i fp⟩ : Volume ι).run (some bytes) fs requests =
      answers (Function.update readers i reader) requests := by
  refine run_eq_answers hfs hw (fun j => ?_) requests
  dsimp only
  by_cases hj : j = i
  · rw [hj, Function.update_self, Function.update_self]
    exact hfp
  · rw [Function.update_of_ne hj, Function.update_of_ne hj]
    exact hfiles j

/-- A path that leads to a file opens it: it is then read and sought as its contents and a position, whatever
calls are made about it and about the other open files, in any order. -/
theorem run_fOpen (hfs : fs.Mounted) {v : Volume ι} {readers : ι → Reader} (hwindow : v.window.Valid bytes)
    (hfiles : ∀ i, (v.files i).Shows fs bytes (readers i)) {seps : List UInt8} (hseps : Separators seps)
    (h : Spells path css) (hres : Resolves fs bytes 0 (css.map nameOf) (.ok e)) (hfile : attr e.sfn &&& amDir = 0)
    {mode : UInt8} (hmode : mode &&& faRead ≠ 0) {fp : Fil} (hstored : Stored fs bytes
      { fp.obj with sclust := ldClust fs e.sfn, objsize := ldDword e.sfn 28 } cluster) (i : ι) (dj : Dir)
    (lfnbuf : ℕ → ℕ) : ∃ fp' s', fOpen (some bytes) fs (seps ++ path) mode fp ⟨v.window, dj, lfnbuf⟩ = .ok fp' s' ∧
      ∀ requests, (⟨s'.window, Function.update v.files i fp'⟩ : Volume ι).run (some bytes) fs requests =
        answers (Function.update readers i ⟨fs.contents bytes cluster, ldDword e.sfn 28, 0⟩) requests := by
  obtain ⟨fp', s', hopen, hw, hshows⟩ :=
    exists_fOpen (s := ⟨v.window, dj, lfnbuf⟩) hfs hwindow hseps h hres hfile hmode hstored
  exact ⟨fp', s', hopen, run_update hfs hw hfiles hshows i⟩

/-- A disk with a directory, and in it a file of 600 bytes with a long name. -/
def treeRoot : List UInt8 :=
  [0x53, 0x52, 0x43, 0x20, 0x20, 0x20, 0x20, 0x20, 0x20, 0x20, 0x20, 0x10] ++ .replicate 14 0 ++ [4, 0, 0, 0, 0, 0]

def treeDir : List UInt8 :=
  0x2E :: .replicate 10 0x20 ++ 0x10 :: .replicate 20 0 ++
  0x2E :: 0x2E :: .replicate 9 0x20 ++ 0x10 :: .replicate 20 0 ++
  [0x41, 0x61, 0, 0xE9, 0, 0, 0, 0xFF, 0xFF, 0xFF, 0xFF, 0x0F, 0, 0x40, 0xFF, 0xFF, 0xFF, 0xFF, 0xFF, 0xFF, 0xFF,
    0xFF, 0xFF, 0xFF, 0xFF, 0xFF, 0, 0, 0xFF, 0xFF, 0xFF, 0xFF] ++
  [0x41, 0x7E, 0x31, 0x20, 0x20, 0x20, 0x20, 0x20, 0x20, 0x20, 0x20, 0x20] ++ .replicate 14 0 ++
  [2, 0, 0x58, 2, 0, 0]

def treeDisk : Sector := fun i =>
  if 1024 ≤ i ∧ i < 1536 then treeRoot.getD (i - 1024) 0
  else if 2560 ≤ i ∧ i < 3072 then treeDir.getD (i - 2560) 0
  else if i = 518 then 0xFF
  else if i = 519 then 0x0F
  else smallDisk i

def srcEntry : Entry := ⟨none, smallFs.slotAt treeDisk (fun _ => 0) 0⟩

def dirSlot (pos : ℕ) : Slot := smallFs.slotAt treeDisk (fun _ => 4) pos

def fileEntry : Entry := ⟨some [0x61, 0xE9], dirSlot 96⟩

lemma hasFiles_root : HasFiles smallFs treeDisk 0 [srcEntry] := by
  have htable : IsTable smallFs treeDisk smallDir.obj (fun _ => 0) (16 * szdire) :=
    .root (by decide) (by decide) (by decide) (by decide) (by decide) (by decide)
  have hslots : smallFs.slotsAt treeDisk (fun _ => 0) 16 0 = srcEntry.sfn ::
      smallFs.slotAt treeDisk (fun _ => 0) 32 :: smallFs.slotsAt treeDisk (fun _ => 0) 14 64 := rfl
  refine ⟨smallDir.obj, _, _, rfl, htable, ?_⟩
  rw [Nat.mul_div_cancel _ (by decide), hslots]
  exact .short ⟨by decide, by decide, by decide, by decide⟩
    (.stop (by decide))

lemma hasFiles_src : HasFiles smallFs treeDisk 4 [fileEntry] := by
  have htable : IsTable smallFs treeDisk ⟨true, 1, 0, 4, 0, 0, 0⟩ (fun _ => 4) (min (1 * smallFs.bcs) maxDir) := by
    refine .chain smallFs_mounted (by decide) (by decide) (by decide) (fun _ _ => by decide) (fun i hi => ?_)
      fun _ => ⟨0xFFF, by decide, ?_⟩
    · omega
    · exact (field_ldWord (smallFs.area treeDisk) 6).mask (m := 12) (by decide)
  have hslots : smallFs.slotsAt treeDisk (fun _ => 4) 16 0 = dirSlot 0 :: dirSlot 32 :: ([dirSlot 64] ++ dirSlot 96 ::
      dirSlot 128 :: smallFs.slotsAt treeDisk (fun _ => 4) 11 160) := rfl
  have hpart : IsPart [0x61, 0xE9] (sumSfn (dirSlot 96)) 0 (dirSlot 64) :=
    ⟨by decide, by decide, by decide, by decide, by decide⟩
  refine ⟨⟨true, 1, 0, 4, 0, 0, 0⟩, _, _, rfl, htable, ?_⟩
  change Lists (smallFs.slotsAt treeDisk (fun _ => 4) 16 0) _
  rw [hslots]
  refine .skip ⟨by decide, .inr (.inl (by decide))⟩ (.skip ⟨by decide,
    .inr (.inl (by decide))⟩ (.long ⟨by decide, by decide, ?_⟩ ⟨_, _, rfl, hpart, rfl⟩
      ⟨by decide, by decide, by decide, by decide⟩ (.stop (by decide))))
  intro c hc
  simp only [List.mem_cons, List.not_mem_nil, or_false] at hc
  obtain rfl | rfl := hc <;> decide

lemma isName_src : IsName ['s', 'r', 'c'] := ⟨by
  intro c hc
  simp only [List.mem_cons, List.not_mem_nil, or_false] at hc
  obtain rfl | rfl | rfl := hc <;> exact ⟨by decide, by decide, by decide⟩, by decide, by decide⟩

lemma isName_file : IsName ['A', 'É'] := ⟨by
  intro c hc
  simp only [List.mem_cons, List.not_mem_nil, or_false] at hc
  obtain rfl | rfl := hc <;> exact ⟨by decide, by decide, by decide⟩, by decide, by decide⟩

lemma separators_slash : Separators [0x2F] := fun c hc => by
  rw [List.mem_singleton.mp hc]
  decide

lemma separators_nil : Separators [] := fun _ hc => absurd hc List.not_mem_nil

/-- The path `/src//AÉ`, without its first separator. -/
lemma spells_file : Spells [0x73, 0x72, 0x63, 0x2F, 0x2F, 0x41, 0xC3, 0x89] [['s', 'r', 'c'], ['A', 'É']] :=
  (.cons isName_src (by decide) separators_slash (.last isName_file separators_nil) :
    Spells (encode ['s', 'r', 'c'] ++ 0x2F :: ([0x2F] ++ (encode ['A', 'É'] ++ []))) _)

lemma find_src : [srcEntry].find? (Entry.answers (nameOf ['s', 'r', 'c'])) = some srcEntry :=
  List.find?_cons_of_pos (by decide)

lemma find_file : [fileEntry].find? (Entry.answers (nameOf ['A', 'É'])) = some fileEntry :=
  List.find?_cons_of_pos (by decide)

lemma ldClust_src : ldClust smallFs srcEntry.sfn = 4 := by decide

lemma resolves_file : Resolves smallFs treeDisk 0 ([['s', 'r', 'c'], ['A', 'É']].map nameOf) (.ok fileEntry) :=
  .next hasFiles_root find_src (by decide) (.last (ldClust_src.symm ▸ hasFiles_src) find_file)

def treeFil : Fil := Fil.opened smallFs smallObj (faRead &&& faRead) 0 fun _ => 0

lemma treeWindow_valid : (Window.mk 0 treeDisk).Valid treeDisk := fun i _ => by rw [Nat.zero_mul, Nat.zero_add]

lemma treeObj_stored {obj : ObjId} (hsclust : obj.sclust = 2) (hsize : obj.objsize = 600) :
    Stored smallFs treeDisk obj (· + 2) where
  stat h := by simp [smallFs] at h
  objsize_lt := by
    rw [hsize]
    decide
  zero _ := hsclust.symm
  mem i hi := by
    simp only [Fatfs.bcs, smallFs, hsize, sectorSize] at hi ⊢
    omega
  follows i hi := by
    have hi : i = 0 := by
      simp only [Fatfs.bcs, smallFs, hsize, sectorSize] at hi
      omega
    subst hi
    exact (field_ldWord (smallFs.area treeDisk) 3).mask (m := 12) (by decide)

/-- The volume with the file open in two places. -/
def treeVolume : Volume Bool := ⟨⟨0, treeDisk⟩, fun _ => treeFil⟩

lemma treeVolume_shows (i : Bool) :
    (treeVolume.files i).Shows smallFs treeDisk ⟨smallFs.contents treeDisk (· + 2), 600, 0⟩ :=
  Fil.opened_shows smallFs_mounted (by decide : faRead &&& faRead ≠ 0)
    (treeObj_stored rfl rfl : Stored smallFs treeDisk smallObj (· + 2)) 0 fun _ => 0

/-- The file is opened once more by another spelling of its name. -/
theorem run_fOpen_small : ∃ fp' s', fOpen (some treeDisk) smallFs [0x2F, 0x73, 0x72, 0x63, 0x2F, 0x2F, 0x41, 0xC3, 0x89]
      faRead treeFil ⟨⟨0, treeDisk⟩, smallDir, fun _ => 7⟩ = .ok fp' s' ∧
    (⟨s'.window, Function.update treeVolume.files true fp'⟩ : Volume Bool).run (some treeDisk) smallFs
      [(true, .seek 511), (false, .read 1), (true, .read 2)] =
        [(true, ⟨true, []⟩), (false, ⟨true, [0]⟩), (true, ⟨true, [7, 9]⟩)] := by
  obtain ⟨fp', s', hopen, hrun⟩ := run_fOpen smallFs_mounted treeWindow_valid treeVolume_shows separators_slash
    spells_file resolves_file (by decide) (by decide : faRead &&& faRead ≠ 0)
    (treeObj_stored (by decide) (by decide) : Stored smallFs treeDisk { treeFil.obj with
      sclust := ldClust smallFs fileEntry.sfn, objsize := ldDword fileEntry.sfn 28 } _) true smallDir fun _ => 7
  exact ⟨fp', s', hopen, (hrun _).trans (by decide +kernel)⟩

/-- The error for a path that does not lead to a file. -/
def openError : Except FResult Entry → FResult
  | .error res => res
  | .ok _ => .noFile

/-- A path that does not lead to a file is refused, with the error that says where it ends, and the files that
are open are not disturbed. -/
theorem run_fOpen_error (hfs : fs.Mounted) {v : Volume ι} {readers : ι → Reader} (hwindow : v.window.Valid bytes)
    (hfiles : ∀ i, (v.files i).Shows fs bytes (readers i)) {seps : List UInt8} (hseps : Separators seps)
    (h : Spells path css) (hres : Resolves fs bytes 0 (css.map nameOf) r)
    (hfile : ∀ e, r = .ok e → attr e.sfn &&& amDir ≠ 0) (mode : UInt8) (fp : Fil) (dj : Dir) (lfnbuf : ℕ → ℕ) :
    ∃ s', fOpen (some bytes) fs (seps ++ path) mode fp ⟨v.window, dj, lfnbuf⟩ = .error (openError r) s' ∧
      ∀ requests, (⟨s'.window, v.files⟩ : Volume ι).run (some bytes) fs requests = answers readers requests := by
  have hopens := opensTo_fOpen (s := ⟨v.window, dj, lfnbuf⟩) hseps h hres hwindow mode fp
  cases hrun : fOpen (some bytes) fs (seps ++ path) mode fp ⟨v.window, dj, lfnbuf⟩ with
  | error res s' =>
    rw [hrun] at hopens
    cases r with
    | error res' =>
      obtain ⟨rfl, hw'⟩ := hopens
      exact ⟨s', rfl, run_eq_answers hfs hw' hfiles⟩
    | ok e =>
      obtain ⟨-, rfl, hw'⟩ := hopens
      exact ⟨s', rfl, run_eq_answers hfs hw' hfiles⟩
  | ok fp' s' =>
    rw [hrun] at hopens
    cases r with
    | error res' => exact hopens.elim
    | ok e => exact absurd hopens.1 (hfile e rfl)

/-- A file is not a directory. -/
theorem run_fOpen_error_small : ∃ s', fOpen (some treeDisk) smallFs
      [0x2F, 0x73, 0x72, 0x63, 0x2F, 0x2F, 0x41, 0xC3, 0x89, 0x2F, 0x73, 0x72, 0x63] faRead treeFil
      ⟨⟨0, treeDisk⟩, smallDir, fun _ => 7⟩ = .error .noPath s' ∧
    (⟨s'.window, treeVolume.files⟩ : Volume Bool).run (some treeDisk) smallFs
      [(true, .seek 511), (false, .read 1), (true, .read 2)] =
        [(true, ⟨true, []⟩), (false, ⟨true, [0]⟩), (true, ⟨true, [7, 9]⟩)] := by
  have hspells : Spells [0x73, 0x72, 0x63, 0x2F, 0x2F, 0x41, 0xC3, 0x89, 0x2F, 0x73, 0x72, 0x63]
      [['s', 'r', 'c'], ['A', 'É'], ['s', 'r', 'c']] :=
    (.cons isName_src (by decide) separators_slash (.cons isName_file (by decide) separators_nil
      (.last isName_src separators_nil)) : Spells (encode ['s', 'r', 'c'] ++ 0x2F :: ([0x2F] ++
        (encode ['A', 'É'] ++ 0x2F :: ([] ++ (encode ['s', 'r', 'c'] ++ []))))) _)
  have hres : Resolves smallFs treeDisk 0 ([['s', 'r', 'c'], ['A', 'É'], ['s', 'r', 'c']].map nameOf)
      (.error .noPath) :=
    .next hasFiles_root find_src (by decide) (.file (ldClust_src.symm ▸ hasFiles_src) find_file
      (by decide) (List.cons_ne_nil _ _))
  obtain ⟨s', hopen, hrun⟩ := run_fOpen_error smallFs_mounted treeWindow_valid treeVolume_shows separators_slash
    hspells hres (fun e he => by cases he) faRead treeFil smallDir fun _ => 7
  exact ⟨s', hopen, (hrun _).trans (by decide +kernel)⟩

/-! ### Opening directories -/

lemma openFound_dir (hname : s.dp.nsFlag &&& nsNoname = 0) (hdir : s.dp.attr &&& amDir ≠ 0) :
    openFound fs s = .ok () { s with dp.obj.sclust := ldClust fs s.slot } := by
  change (if s.dp.nsFlag &&& nsNoname = 0 then if s.dp.attr &&& amDir ≠ 0 then _ else _ else _ : DirAction Unit) s = _
  rw [if_pos hname, if_pos hdir]
  rfl

/-- A path that leads to a directory gives an object with all of its files. -/
lemma exists_fOpendir (hfs : fs.Mounted) (hw : window.Valid bytes) {seps : List UInt8} (hseps : Separators seps)
    (h : Spells path css) (hres : Resolves fs bytes 0 (css.map nameOf) (.ok e)) (hdir : attr e.sfn &&& amDir ≠ 0)
    (hes : HasFiles fs bytes (ldClust fs e.sfn) es) (dj : Dir) (lfnbuf : ℕ → ℕ) : ∃ s' cluster size,
      fOpendir (some bytes) fs (seps ++ path) ⟨window, dj, lfnbuf⟩ = .ok () s' ∧
        s'.dp.Remains fs bytes cluster size es := by
  have hmount : mountVolume (seps ++ path) ⟨window, dj, lfnbuf⟩ =
      .ok (seps ++ path) ⟨window, { dj with obj.hasFs := true }, lfnbuf⟩ := by
    rw [mountVolume, getLdnumber_of_noDrive (hseps.noDrive.append h.noDrive)]
    rfl
  have hleads := leadsTo_followPath (s := ⟨window, { dj with obj.hasFs := true }, lfnbuf⟩) hseps h hres hw rfl
  rw [fOpendir]
  cases hrun : followPath (some bytes) fs (seps ++ path) ⟨window, { dj with obj.hasFs := true }, lfnbuf⟩ with
  | error res s' =>
    rw [hrun] at hleads
    exact hleads.elim
  | ok _ s' =>
    rw [hrun] at hleads
    obtain ⟨hslot, hattr, hw', hname, hhas⟩ := hleads
    obtain ⟨obj, cluster, size, hsclust, htable, hlists⟩ := hes
    have hfound : openFound fs s' = _ := openFound_dir hname (hattr ▸ hdir)
    have htable' : IsTable fs bytes { s'.dp.obj with sclust := ldClust fs e.sfn, id := fs.id } cluster size :=
      htable.congr hsclust.symm
    have hvalid : validate fs { s'.dp.obj with sclust := ldClust fs e.sfn, id := fs.id } = .ok :=
      if_pos ⟨hhas, hfs.fsType, rfl⟩
    have hopened : (openFound fs >>= fun _ => (modify fun s => { s with dp.obj.id := fs.id }) >>= fun _ =>
        dirSdi (some bytes) fs 0 : DirAction Unit) s' = .ok () (DirAccess.rewound fs cluster
          { s' with dp.obj := { s'.dp.obj with sclust := ldClust fs e.sfn, id := fs.id } }) := by
      rw [bind_of_ok hfound, hslot]
      exact IsTable.dirSdi_zero
        (s := { s' with dp.obj := { s'.dp.obj with sclust := ldClust fs e.sfn, id := fs.id } }) htable'
    refine ⟨_, cluster, size, tryCatch_of_ok ((bind_of_ok hmount).trans ((bind_of_ok hrun).trans hopened)), ?_⟩
    exact Dir.remains_rewound
      (s := { s' with dp.obj := { s'.dp.obj with sclust := ldClust fs e.sfn, id := fs.id } }) htable' hvalid hlists

/-- A path that leads to a directory opens it: a user who reads it is told about its files, one after the other,
and then that there are no more, whatever other calls have left in the window. -/
theorem readAll_fOpendir (hfs : fs.Mounted) (hw : window.Valid bytes) {seps : List UInt8} (hseps : Separators seps)
    (h : Spells path css) (hres : Resolves fs bytes 0 (css.map nameOf) (.ok e)) (hdir : attr e.sfn &&& amDir ≠ 0)
    (hes : HasFiles fs bytes (ldClust fs e.sfn) es) (dj : Dir) (lfnbuf : ℕ → ℕ) {calls : List (Window × (ℕ → ℕ))}
    (hcalls : ∀ call ∈ calls, call.1.Valid bytes) :
    ∃ s', fOpendir (some bytes) fs (seps ++ path) ⟨window, dj, lfnbuf⟩ = .ok () s' ∧
      s'.dp.readAll (some bytes) fs calls = (List.range calls.length).map fun i => es[i]?.map Entry.info := by
  obtain ⟨s', cluster, size, hopen, hremains⟩ := exists_fOpendir hfs hw hseps h hres hdir hes dj lfnbuf
  exact ⟨s', hopen, hremains.readAll_eq hcalls⟩

theorem readAll_fOpendir_small : ∃ s', fOpendir (some treeDisk) smallFs [0x2F, 0x73, 0x72, 0x63]
      ⟨⟨0, treeDisk⟩, smallDir, fun _ => 7⟩ = .ok () s' ∧
    s'.dp.readAll (some treeDisk) smallFs [(⟨0, treeDisk⟩, fun _ => 0), (⟨0, treeDisk⟩, fun _ => 7)] =
      [some ⟨[0x61, 0xC3, 0xA9], false⟩, none] := by
  have hspells : Spells [0x73, 0x72, 0x63] [['s', 'r', 'c']] :=
    (.last isName_src separators_nil : Spells (encode ['s', 'r', 'c'] ++ []) _)
  have hres : Resolves smallFs treeDisk 0 ([['s', 'r', 'c']].map nameOf) (.ok srcEntry) :=
    .last hasFiles_root find_src
  have hcalls : ∀ call ∈ [(Window.mk 0 treeDisk, fun _ : ℕ => 0), (Window.mk 0 treeDisk, fun _ => 7)],
      call.1.Valid treeDisk := by
    intro call hcall
    simp only [List.mem_cons, List.not_mem_nil, or_false] at hcall
    obtain rfl | rfl := hcall <;> exact treeWindow_valid
  obtain ⟨s', hopen, hread⟩ := readAll_fOpendir smallFs_mounted treeWindow_valid separators_slash hspells hres
    (by decide) (ldClust_src.symm ▸ hasFiles_src) smallDir (fun _ => 7) hcalls
  exact ⟨s', hopen, hread.trans (by decide)⟩

/-! ### Opening what has been listed -/

/-- A file has a text as its long name, and readers are told all of it. -/
structure Entry.HasName (cs : List Char) (e : Entry) : Prop where
  long : e.long = some (unitsOf cs)
  name : IsName cs
  trimmed : nameOf cs = unitsOf cs
  length_le : (encode cs).length ≤ 255

lemma IsName.encode_ne_nil {cs : List Char} (h : IsName cs) : encode cs ≠ [] := by
  obtain _ | ⟨c, cs⟩ := cs
  · exact absurd rfl h.ne_nil
  · rw [encode, List.flatMap_cons]
    refine List.append_ne_nil_of_left_ne_nil (fun hnil => ?_) _
    have hpos := c.utf8Size_pos
    rw [← String.length_utf8EncodeChar, hnil] at hpos
    exact absurd hpos (lt_irrefl 0)

/-- The name that is told is the text in UTF-8. -/
lemma Entry.HasName.name_eq {cs : List Char} (h : e.HasName cs) : e.name = encode cs := by
  have hconvert : convertLfn (unitsOf cs) 0 [] = encode cs := by
    rw [unitsOf, convertLfn_flatMap cs [] (by decide), List.nil_append]
    exact if_pos h.length_le
  rw [Entry.name, h.long]
  change (if convertLfn (unitsOf cs) 0 [] ≠ [] then convertLfn (unitsOf cs) 0 [] else shortName e.sfn) = _
  rw [hconvert, if_pos h.name.encode_ne_nil]

lemma Entry.HasName.answers {cs : List Char} (h : e.HasName cs) : e.answers (nameOf cs) = true := by
  rw [Entry.answers, h.long, h.trimmed, Option.map_some, decide_eq_true rfl, Bool.true_or]

/-- The file is found if no other file answers to its name. -/
lemma Entry.HasName.find {cs : List Char} (h : e.HasName cs) (hmem : e ∈ es)
    (hown : ∀ e' ∈ es, e'.answers (nameOf cs) = true → e' = e) :
    es.find? (Entry.answers (nameOf cs)) = some e := by
  cases hfind : es.find? (Entry.answers (nameOf cs)) with
  | none => exact absurd h.answers (List.find?_eq_none.mp hfind e hmem)
  | some e' => rw [hown e' (List.mem_of_find?_eq_some hfind) (List.find?_some hfind)]

/-- One more name after a path. -/
lemma Spells.append {cs : List Char} (h : Spells path css) (hname : IsName cs) :
    Spells (path ++ 0x2F :: encode cs) (css ++ [cs]) := by
  have hslash : isSeparator (0x2F : UInt8).toNat = true := by decide
  have hlast : Spells (encode cs) [cs] := List.append_nil (encode cs) ▸ .last hname separators_nil
  induction h with
  | @last cs' seps hname' hseps =>
    obtain _ | ⟨sep, seps⟩ := seps
    · rw [List.append_nil]
      exact .cons hname' hslash separators_nil hlast
    · have hseps' : Separators (seps ++ [0x2F]) := by
        intro c hc
        obtain hc | hc := List.mem_append.mp hc
        · exact hseps c (List.mem_cons_of_mem _ hc)
        · rw [List.mem_singleton.mp hc]
          exact hslash
      have hspells := Spells.cons hname' (hseps sep List.mem_cons_self) hseps' hlast
      simpa only [List.append_assoc, List.cons_append, List.nil_append] using hspells
  | cons hname' hsep hseps hrest ih =>
    have hspells := Spells.cons hname' hsep hseps ih
    simpa only [List.append_assoc, List.cons_append] using hspells

/-- A path that leads to a directory leads to its files. -/
lemma Resolves.append {names : List (List ℕ)} (h : Resolves fs bytes sclust names (.ok d))
    (hdir : attr d.sfn &&& amDir ≠ 0) (hes : HasFiles fs bytes (ldClust fs d.sfn) es)
    (hfind : es.find? (Entry.answers name) = some e) : Resolves fs bytes sclust (names ++ [name]) (.ok e) := by
  generalize hr : Except.ok d = r at h
  induction h with
  | missing => cases hr
  | last hes' hfind' =>
    cases hr
    exact .next hes' hfind' hdir (.last hes hfind)
  | file => cases hr
  | next hes' hfind' hdir' _ ih => exact .next hes' hfind' hdir' (ih hr)

/-- What a directory tells can be opened: the name that its readers are told for a file, after the path of the
directory, opens that file, whatever the calls before have left behind. -/
theorem run_fOpen_listed (hfs : fs.Mounted) {v : Volume ι} {readers : ι → Reader} (hwindow : v.window.Valid bytes)
    (hfiles : ∀ i, (v.files i).Shows fs bytes (readers i)) {seps : List UInt8} (hseps : Separators seps)
    (h : Spells path css) (hres : Resolves fs bytes 0 (css.map nameOf) (.ok d)) (hdir : attr d.sfn &&& amDir ≠ 0)
    (hes : HasFiles fs bytes (ldClust fs d.sfn) es) {k : ℕ} (hk : es[k]? = some e) (hfile : attr e.sfn &&& amDir = 0)
    {cs : List Char} (hname : e.HasName cs) (hown : ∀ e' ∈ es, e'.answers (nameOf cs) = true → e' = e)
    {mode : UInt8} (hmode : mode &&& faRead ≠ 0) {fp : Fil} (hstored : Stored fs bytes
      { fp.obj with sclust := ldClust fs e.sfn, objsize := ldDword e.sfn 28 } cluster) (hw : window.Valid bytes)
    {calls : List (Window × (ℕ → ℕ))} (hcalls : ∀ call ∈ calls, call.1.Valid bytes) (hlt : k < calls.length) (i : ι)
    (dj dj' : Dir) (lfnbuf lfnbuf' : ℕ → ℕ) :
    ∃ s told fp' s', fOpendir (some bytes) fs (seps ++ path) ⟨window, dj, lfnbuf⟩ = .ok () s ∧
      (s.dp.readAll (some bytes) fs calls)[k]? = some (some told) ∧
      fOpen (some bytes) fs (seps ++ (path ++ 0x2F :: told.name)) mode fp ⟨v.window, dj', lfnbuf'⟩ = .ok fp' s' ∧
      ∀ requests, (⟨s'.window, Function.update v.files i fp'⟩ : Volume ι).run (some bytes) fs requests =
        answers (Function.update readers i ⟨fs.contents bytes cluster, ldDword e.sfn 28, 0⟩) requests := by
  obtain ⟨s, clusters, size, hopendir, hremains⟩ := exists_fOpendir hfs hw hseps h hres hdir hes dj lfnbuf
  have hfind := hname.find (List.mem_of_getElem? hk) hown
  have hres' : Resolves fs bytes 0 ((css ++ [cs]).map nameOf) (.ok e) := by
    rw [List.map_append]
    exact hres.append hdir hes hfind
  obtain ⟨fp', s', hopen, hw', hshows⟩ := exists_fOpen (s := ⟨v.window, dj', lfnbuf'⟩) hfs hwindow hseps
    (h.append hname.name) hres' hfile hmode hstored
  refine ⟨s, e.info, fp', s', hopendir, ?_, ?_, run_update hfs hw' hfiles hshows i⟩
  · rw [hremains.readAll_eq hcalls, List.getElem?_map, List.getElem?_range hlt, Option.map_some, hk, Option.map_some]
  · rw [Entry.info, hname.name_eq]
    exact hopen

lemma hasName_file : fileEntry.HasName ['a', 'é'] where
  long := by decide
  name := ⟨by
    intro c hc
    simp only [List.mem_cons, List.not_mem_nil, or_false] at hc
    obtain rfl | rfl := hc <;> exact ⟨by decide, by decide, by decide⟩, by decide, by decide⟩
  trimmed := by decide
  length_le := by decide

/-- The file is opened by the name that is told. -/
theorem run_fOpen_listed_small : ∃ s told fp' s',
    fOpendir (some treeDisk) smallFs [0x2F, 0x73, 0x72, 0x63] ⟨⟨0, treeDisk⟩, smallDir, fun _ => 7⟩ = .ok () s ∧
    (s.dp.readAll (some treeDisk) smallFs [(⟨0, treeDisk⟩, fun _ => 0)])[0]? = some (some told) ∧
    fOpen (some treeDisk) smallFs ([0x2F] ++ ([0x73, 0x72, 0x63] ++ 0x2F :: told.name)) faRead treeFil
      ⟨⟨0, treeDisk⟩, smallDir, fun _ => 3⟩ = .ok fp' s' ∧
    (⟨s'.window, Function.update treeVolume.files true fp'⟩ : Volume Bool).run (some treeDisk) smallFs
      [(true, .seek 511), (false, .read 1), (true, .read 2)] =
        [(true, ⟨true, []⟩), (false, ⟨true, [0]⟩), (true, ⟨true, [7, 9]⟩)] := by
  have hspells : Spells [0x73, 0x72, 0x63] [['s', 'r', 'c']] :=
    (.last isName_src separators_nil : Spells (encode ['s', 'r', 'c'] ++ []) _)
  have hres : Resolves smallFs treeDisk 0 ([['s', 'r', 'c']].map nameOf) (.ok srcEntry) :=
    .last hasFiles_root find_src
  have hown : ∀ e' ∈ [fileEntry], e'.answers (nameOf ['a', 'é']) = true → e' = fileEntry :=
    fun e' he' _ => List.mem_singleton.mp he'
  have hcalls : ∀ call ∈ [(Window.mk 0 treeDisk, fun _ : ℕ => 0)], call.1.Valid treeDisk :=
    fun call hcall => List.mem_singleton.mp hcall ▸ treeWindow_valid
  obtain ⟨s, told, fp', s', hopendir, htold, hopen, hrun⟩ := run_fOpen_listed (k := 0) smallFs_mounted
    treeWindow_valid treeVolume_shows separators_slash hspells hres (by decide)
    (ldClust_src.symm ▸ hasFiles_src) rfl (by decide) hasName_file hown
    (by decide : faRead &&& faRead ≠ 0) (treeObj_stored (by decide) (by decide) :
      Stored smallFs treeDisk { treeFil.obj with
        sclust := ldClust smallFs fileEntry.sfn, objsize := ldDword fileEntry.sfn 28 } _)
    treeWindow_valid hcalls (by decide) true smallDir smallDir (fun _ => 7) fun _ => 3
  exact ⟨s, told, fp', s', hopendir, htold, hopen, (hrun _).trans (by decide +kernel)⟩

end PiKachulm.Fs

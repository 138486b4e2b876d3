import PiKachulm.Fs.PathName

/-!
# Short names

What `create_name` makes of a name: eleven bytes without dots, and flags that are added to those that there are.
A name of up to eight characters with an extension of up to three loses nothing but the case of its letters.
-/

namespace PiKachulm.Fs

variable {name : List ℕ} {di fuel wc : ℕ} {s : SfnState} {fn path : List UInt8} {cf f : UInt8} {cs : List Char}
  {css : List (List Char)} {lfnbuf : ℕ → ℕ}

/-! ### Extended characters -/

lemma uni2oem_of_ge (h : 0x80 ≤ wc) : uni2oem wc = 0 ∨ 0x80 ≤ uni2oem wc ∧ uni2oem wc < 0x100 := by
  rw [uni2oem, if_neg (Nat.not_lt.mpr h)]
  split_ifs with hlt
  · have hand : (uc850.idxOf wc + 0x80) &&& 0xFF = (uc850.idxOf wc + 0x80) % 2 ^ 8 :=
      Nat.and_two_pow_sub_one_eq_mod _ 8
    have hle : uc850.idxOf wc ≤ 128 := List.idxOf_le_length
    rw [hand]
    omega
  · exact .inl rfl

/-- An extended character becomes one byte, which is no dot. -/
lemma toOem_of_ge (h : 0x80 ≤ wc) : toOem wc < 0x100 ∧ toOem wc ≠ 0x2E := by
  have hall : ∀ n < 128, exCvt.getD n 0 < 0x100 ∧ exCvt.getD n 0 ≠ 0x2E := by decide +kernel
  rw [toOem]
  split_ifs with hbit
  · refine hall _ ?_
    exact (Nat.and_le_right (n := uni2oem wc) (m := 0x7F)).trans_lt (by decide)
  · obtain hzero | ⟨hge, hlt⟩ := uni2oem_of_ge h
    · rw [hzero]
      decide
    · refine ⟨hlt, fun heq => ?_⟩
      rw [heq] at hge
      exact absurd hge (by decide)

/-! ### Bytes and flags -/

/-- The bytes of a short name. -/
structure IsFn (fn : List UInt8) : Prop where
  length : fn.length = 11
  ne_dot : ∀ b ∈ fn, b ≠ 0x2E

lemma IsFn.set (h : IsFn fn) {b : UInt8} (hb : b ≠ 0x2E) (i : ℕ) : IsFn (fn.set i b) where
  length := by rw [List.length_set, h.length]
  ne_dot c hc := by
    obtain hmem | rfl := List.mem_or_eq_of_mem_set hc
    · exact h.ne_dot c hmem
    · exact hb

/-- Flags that say what is lost. -/
def IsLoss (f : UInt8) : Prop := f ||| (nsLoss ||| nsLfn) = nsLoss ||| nsLfn

lemma isLoss_zero : IsLoss 0 := by rw [IsLoss, UInt8.zero_or]

lemma isLoss_loss : IsLoss (nsLoss ||| nsLfn) := by rw [IsLoss, UInt8.or_self]

lemma isLoss_lfn : IsLoss nsLfn := rfl

lemma IsLoss.or {f g : UInt8} (hf : IsLoss f) (hg : IsLoss g) : IsLoss (f ||| g) := by
  rw [IsLoss, UInt8.or_assoc, hg]
  exact hf

/-- The loop adds flags to those that there are. -/
def AddsFlags (name : List ℕ) (di fuel : ℕ) (s : SfnState) : Prop :=
  ∃ s' : SfnState, IsFn s'.fn ∧ IsLoss s'.cf ∧
    ∀ cf, sfnLoop name di fuel { s with cf := cf } = { s' with cf := cf ||| s'.cf }

lemma AddsFlags.of_stop {t : SfnState} (hfn : IsFn t.fn) (hf : IsLoss f)
    (h : ∀ cf, sfnLoop name di fuel { s with cf := cf } = { t with cf := cf ||| f }) :
    AddsFlags name di fuel s := ⟨{ t with cf := f }, hfn, hf, h⟩

lemma AddsFlags.of_next {t : SfnState} (hf : IsLoss f) (hnext : AddsFlags name di fuel t)
    (h : ∀ cf, sfnLoop name di (fuel + 1) { s with cf := cf } = sfnLoop name di fuel { t with cf := cf ||| f }) :
    AddsFlags name di (fuel + 1) s := by
  obtain ⟨s', hfn, hs', hloop⟩ := hnext
  refine ⟨{ s' with cf := f ||| s'.cf }, hfn, hf.or hs', fun cf => ?_⟩
  rw [h, hloop, UInt8.or_assoc]

/-- A character of one byte is put into the name, with the flags for it. -/
lemma SfnState.put_eq (s : SfnState) (hfn : IsFn s.fn) (hlt : wc < 0x100) (hdot : wc ≠ 0x2E) :
    ∃ (s' : SfnState) (f : UInt8), IsFn s'.fn ∧ IsLoss f ∧
      ∀ cf, SfnState.put { s with cf := cf } wc = { s' with cf := cf ||| f } := by
  by_cases hill : wc = 0 ∨ wc ∈ illegalSfn
  · exact ⟨{ s with fn := s.fn.set s.i 0x5F, i := s.i + 1 }, nsLoss ||| nsLfn, hfn.set (by decide) _, isLoss_loss,
      fun cf => if_pos hill⟩
  · have hbyte : UInt8.ofNat (if isLower wc then wc - 0x20 else wc) ≠ 0x2E := by
      have hall : ∀ k < 0x100, k ≠ 0x2E → UInt8.ofNat (if isLower k then k - 0x20 else k) ≠ 0x2E := by
        decide +kernel
      exact hall wc hlt hdot
    refine ⟨SfnState.put s wc, 0, ?_, isLoss_zero, fun cf => ?_⟩
    · rw [SfnState.put, if_neg hill]
      exact hfn.set hbyte _
    · rw [UInt8.or_zero, SfnState.put, SfnState.put, if_neg hill, if_neg hill]

/-- Whatever the name is, the loop makes a short name and adds flags. -/
lemma addsFlags (name : List ℕ) (di fuel : ℕ) (s : SfnState) (hfn : IsFn s.fn) : AddsFlags name di fuel s := by
  induction fuel generalizing s with
  | zero => exact AddsFlags.of_stop hfn isLoss_zero fun cf => by rw [UInt8.or_zero]; rfl
  | succ fuel ih =>
    by_cases hzero : name.getD s.si 0 = 0
    · refine AddsFlags.of_stop (t := { s with si := s.si + 1 }) hfn isLoss_zero fun cf => ?_
      rw [UInt8.or_zero]
      exact if_pos hzero
    by_cases hskip : name.getD s.si 0 = 0x20 ∨ name.getD s.si 0 = 0x2E ∧ s.si + 1 ≠ di
    · exact AddsFlags.of_next (t := { s with si := s.si + 1 }) isLoss_loss (ih _ hfn) fun cf =>
        (if_neg hzero).trans (if_pos hskip)
    by_cases hend : s.i ≥ s.ni ∨ s.si + 1 = di
    · by_cases hext : s.ni = 11
      · exact AddsFlags.of_stop (t := { s with si := s.si + 1 }) hfn isLoss_loss fun cf =>
          (if_neg hzero).trans ((if_neg hskip).trans ((if_pos hend).trans (if_pos hext)))
      have hfield : ∀ cf, sfnLoop name di (fuel + 1) { s with cf := cf } =
          if s.si + 1 > di then { s with
            si := s.si + 1, cf := if s.si + 1 ≠ di then cf ||| (nsLoss ||| nsLfn) else cf }
          else sfnLoop name di fuel { s with
            si := di, i := 8, ni := 11, b := s.b <<< 2,
            cf := if s.si + 1 ≠ di then cf ||| (nsLoss ||| nsLfn) else cf } := fun cf =>
        (if_neg hzero).trans ((if_neg hskip).trans ((if_pos hend).trans (if_neg hext)))
      have hf : IsLoss (if s.si + 1 ≠ di then nsLoss ||| nsLfn else 0) := by
        split_ifs
        · exact isLoss_loss
        · exact isLoss_zero
      have hor : ∀ cf : UInt8, (if s.si + 1 ≠ di then cf ||| (nsLoss ||| nsLfn) else cf) =
          cf ||| if s.si + 1 ≠ di then nsLoss ||| nsLfn else 0 := fun cf => by
        split_ifs
        · rfl
        · rw [UInt8.or_zero]
      by_cases hdi : s.si + 1 > di
      · refine AddsFlags.of_stop (t := { s with si := s.si + 1 }) hfn hf fun cf => ?_
        rw [hfield, if_pos hdi, hor]
      · refine AddsFlags.of_next (t := { s with si := di, i := 8, ni := 11, b := s.b <<< 2 }) hf (ih _ hfn)
          fun cf => ?_
        rw [hfield, if_neg hdi, hor]
    · have hdot : name.getD s.si 0 ≠ 0x2E := fun heq =>
        hskip (.inr ⟨heq, fun hdi => hend (.inr hdi)⟩)
      have hbyte : (if name.getD s.si 0 ≥ 0x80 then toOem (name.getD s.si 0) else name.getD s.si 0) < 0x100 ∧
          (if name.getD s.si 0 ≥ 0x80 then toOem (name.getD s.si 0) else name.getD s.si 0) ≠ 0x2E := by
        split_ifs with hge
        · exact toOem_of_ge hge
        · exact ⟨(Nat.not_le.mp hge).trans (by decide), hdot⟩
      obtain ⟨s', f, hfn', hf, hput⟩ := SfnState.put_eq { s with si := s.si + 1 } hfn hbyte.1 hbyte.2
      have hchar : ∀ cf, sfnLoop name di (fuel + 1) { s with cf := cf } = sfnLoop name di fuel
          (SfnState.put { s with si := s.si + 1, cf := if name.getD s.si 0 ≥ 0x80 then cf ||| nsLfn else cf }
            (if name.getD s.si 0 ≥ 0x80 then toOem (name.getD s.si 0) else name.getD s.si 0)) := fun cf =>
        (if_neg hzero).trans ((if_neg hskip).trans ((if_neg hend).trans (if_neg (Nat.not_le.mpr hbyte.1))))
      by_cases hge : name.getD s.si 0 ≥ 0x80
      · refine AddsFlags.of_next (isLoss_lfn.or hf) (ih s' hfn') fun cf => ?_
        rw [hchar, hput, if_pos hge, UInt8.or_assoc]
      · refine AddsFlags.of_next hf (ih s' hfn') fun cf => ?_
        rw [hchar, hput, if_neg hge]

/-! ### The flags of a name -/

lemma caseFlags_or (f b : UInt8) (hf : IsLoss f) : caseFlags f b &&& 0xE4 = 0 ∧
    caseFlags (nsLast ||| f) b = caseFlags f b ||| nsLast := by
  have hflags : ∀ f : UInt8, f ||| (nsLoss ||| nsLfn) = nsLoss ||| nsLfn → f ∈ [0, 1, 2, 3] :=
    Core.forall_uint8 (by decide +kernel)
  have hall : ∀ f ∈ [0, 1, 2, 3], ∀ mixed ext body : Bool,
      let flags := fun cf : UInt8 =>
        let cf := if mixed then cf ||| nsLfn else cf
        if cf &&& nsLfn = 0 then cf ||| (if ext then nsExt else 0) ||| (if body then nsBody else 0) else cf
      flags f &&& 0xE4 = 0 ∧ flags (nsLast ||| f) = flags f ||| nsLast := by
    decide +kernel
  have hf := hall f (hflags f hf) (decide (b &&& 0x0C = 0x0C ∨ b &&& 0x03 = 0x03)) (decide (b &&& 0x01 ≠ 0))
    (decide (b &&& 0x04 ≠ 0))
  simp only [decide_eq_true_eq] at hf
  exact hf

/-- The short name is made of the name alone, and the flags say no more than what is lost. -/
lemma createSfn_spec (name : List ℕ) : IsFn (createSfn name 0).1 ∧ (createSfn name 0).2 &&& 0xE4 = 0 ∧
    createSfn name nsLast = ((createSfn name 0).1, (createSfn name 0).2 ||| nsLast) := by
  have hblank : IsFn (.replicate 11 0x20) := ⟨rfl, fun b hb => by
    rw [List.eq_of_mem_replicate hb]
    decide⟩
  obtain ⟨s', hfn, hf, hloop⟩ := addsFlags name (lastDot name name.length) (name.length + 2)
    ⟨.replicate 11 0x20, 0, 0, 0, 8, leadingSpaces name⟩ hblank
  have hstart : ∃ g, IsLoss g ∧ ∀ cf : UInt8, (if leadingSpaces name > 0 ∨ name.getD (leadingSpaces name) 0 = 0x2E
      then cf ||| (nsLoss ||| nsLfn) else cf) = cf ||| g := by
    split_ifs
    · exact ⟨_, isLoss_loss, fun _ => rfl⟩
    · exact ⟨0, isLoss_zero, fun _ => (UInt8.or_zero ..).symm⟩
  obtain ⟨g, hg, hstart⟩ := hstart
  have hcreate : ∀ cf, createSfn name cf = (if s'.fn.headD 0 = ddem then s'.fn.set 0 rddem else s'.fn,
      caseFlags (cf ||| (g ||| s'.cf)) (if s'.ni = 8 then s'.b <<< 2 else s'.b)) := by
    intro cf
    simp only [createSfn, hstart]
    rw [hloop, UInt8.or_assoc]
  have hflags := caseFlags_or (g ||| s'.cf) (if s'.ni = 8 then s'.b <<< 2 else s'.b) (hg.or hf)
  rw [hcreate, hcreate, UInt8.zero_or]
  refine ⟨?_, hflags.1, congrArg _ hflags.2⟩
  dsimp only
  split_ifs
  · exact hfn.set (by decide) _
  · exact hfn

/-! ### All the names of a path -/

/-- The names of a path, taken one by one until the last one, as `follow_path` does. -/
def takeNames : ℕ → List UInt8 → (ℕ → ℕ) → Option (List Segment)
  | 0, _, _ => none
  | fuel + 1, path, lfnbuf => do
    let seg ← createName path lfnbuf
    if seg.nsFlag &&& nsLast ≠ 0 then some [seg]
    else do
      let segs ← takeNames fuel seg.path seg.lfnbuf
      some (seg :: segs)

/-- What `dir_find` is given for a text: the name in the buffer, its short name, and whether that has a loss. -/
structure Segment.IsFor (cs : List Char) (seg : Segment) : Prop where
  lfnbuf : HoldsFrom (nameOf cs) 0 seg.lfnbuf
  fn : seg.fn = (createSfn (nameOf cs) 0).1
  length : seg.fn.length = 11
  loss : seg.nsFlag &&& nsLoss = (createSfn (nameOf cs) 0).2 &&& nsLoss
  followed : seg.nsFlag &&& (nsNolfn ||| nsNoname) = 0

lemma flags_of_and : ∀ f : UInt8, f &&& 0xE4 = 0 → f &&& nsLast = 0 ∧ f &&& (nsNolfn ||| nsNoname) = 0 ∧
    (f ||| nsLast) &&& nsLast ≠ 0 ∧ (f ||| nsLast) &&& (nsNolfn ||| nsNoname) = 0 ∧
      (f ||| nsLast) &&& nsLoss = f &&& nsLoss :=
  Core.forall_uint8 (by decide +kernel)

/-- The last name of a path. -/
lemma createName_last_isFor (h : IsName cs) {seps : List UInt8} (hseps : Separators seps) (lfnbuf : ℕ → ℕ) :
    ∃ seg, createName (encode cs ++ seps) lfnbuf = some seg ∧ seg.IsFor cs ∧ seg.nsFlag &&& nsLast ≠ 0 := by
  obtain ⟨buf, hbuf, hseg⟩ := createName_last h hseps lfnbuf
  obtain ⟨hfn, hflags, hlast⟩ := createSfn_spec (nameOf cs)
  obtain ⟨-, -, hset, hfollowed, hloss⟩ := flags_of_and _ hflags
  rw [hlast] at hseg
  exact ⟨_, hseg, ⟨hbuf, rfl, hfn.length, hloss, hfollowed⟩, hset⟩

/-- A name that is not the last one. -/
lemma createName_cons_isFor (h : IsName cs) {sep : UInt8} (hsep : isSeparator sep.toNat) {seps rest : List UInt8}
    (hseps : Separators seps) (hrest : Spells rest css) (lfnbuf : ℕ → ℕ) :
    ∃ seg, createName (encode cs ++ sep :: (seps ++ rest)) lfnbuf = some seg ∧ seg.IsFor cs ∧
      seg.nsFlag &&& nsLast = 0 ∧ seg.path = rest := by
  obtain ⟨buf, hbuf, hseg⟩ := createName_cons h hsep hseps hrest lfnbuf
  obtain ⟨hfn, hflags, -⟩ := createSfn_spec (nameOf cs)
  obtain ⟨hlast, hfollowed, -⟩ := flags_of_and _ hflags
  exact ⟨_, hseg, ⟨hbuf, rfl, hfn.length, rfl, hfollowed⟩, hlast, rfl⟩

lemma Spells.length_le (h : Spells path css) : css.length ≤ path.length := by
  induction h with
  | last hname =>
    obtain ⟨b, bs, hbs, -⟩ := hname.exists_cons
    rw [hbs, List.length_append, List.length_cons, List.length_cons, List.length_nil]
    omega
  | cons hname hsep hseps hrest ih =>
    rw [List.length_append, List.length_cons, List.length_cons, List.length_append]
    omega

lemma Spells.exists_takeNames (h : Spells path css) {fuel : ℕ} (hfuel : css.length ≤ fuel) (lfnbuf : ℕ → ℕ) :
    ∃ segs, takeNames fuel path lfnbuf = some segs ∧ List.Forall₂ Segment.IsFor css segs := by
  induction h generalizing fuel lfnbuf with
  | last hname hseps =>
    obtain ⟨fuel, rfl⟩ := Nat.exists_eq_add_one_of_ne_zero (Nat.ne_zero_of_lt hfuel)
    obtain ⟨seg, hseg, hfor, hlast⟩ := createName_last_isFor hname hseps lfnbuf
    refine ⟨[seg], ?_, .cons hfor .nil⟩
    rw [takeNames, hseg]
    exact if_pos hlast
  | cons hname hsep hseps hrest ih =>
    rw [List.length_cons] at hfuel
    obtain ⟨fuel, rfl⟩ := Nat.exists_eq_add_one_of_ne_zero (Nat.ne_zero_of_lt hfuel)
    obtain ⟨seg, hseg, hfor, hlast, rfl⟩ := createName_cons_isFor hname hsep hseps hrest lfnbuf
    obtain ⟨segs, hsegs, hall⟩ := ih (Nat.le_of_succ_le_succ hfuel) seg.lfnbuf
    refine ⟨seg :: segs, ?_, .cons hfor hall⟩
    rw [takeNames, hseg]
    refine (if_neg (not_not.mpr hlast)).trans ?_
    rw [hsegs]
    rfl

/-- A path is split into the names that it spells, whatever separators there are between them and at its end and
whatever the buffer holds: each name is put into the buffer with its end, and its short name depends on the name
alone. -/
theorem takeNames_spells (h : Spells path css) (lfnbuf : ℕ → ℕ) :
    ∃ segs, takeNames (path.length + 1) path lfnbuf = some segs ∧ List.Forall₂ Segment.IsFor css segs :=
  h.exists_takeNames (Nat.le_succ_of_le h.length_le) lfnbuf

/-- A path with two separators between its names, and one at its end. -/
theorem takeNames_spells_small : ∃ segs,
    takeNames 13 [0x63, 0xC3, 0xA9, 0x2E, 0x2F, 0x5C, 0x6D, 0x61, 0x2E, 0x63, 0x2F, 0x2F] (fun _ => 7) = some segs ∧
      List.Forall₂ Segment.IsFor [['c', 'é', '.'], ['m', 'a', '.', 'c']] segs := by
  have hfirst : IsName ['c', 'é', '.'] := ⟨by
    intro c hc
    simp only [List.mem_cons, List.not_mem_nil, or_false] at hc
    obtain rfl | rfl | rfl := hc <;> exact ⟨by decide, by decide, by decide⟩, by decide, by decide⟩
  have hsecond : IsName ['m', 'a', '.', 'c'] := ⟨by
    intro c hc
    simp only [List.mem_cons, List.not_mem_nil, or_false] at hc
    obtain rfl | rfl | rfl | rfl := hc <;> exact ⟨by decide, by decide, by decide⟩, by decide, by decide⟩
  have hsep : Separators [0x5C] := by
    intro c hc
    rw [List.mem_singleton.mp hc]
    decide
  have hend : Separators [0x2F, 0x2F] := by
    intro c hc
    rw [show c = 0x2F from List.eq_of_mem_replicate (n := 2) hc]
    decide
  have hspells : Spells (encode ['c', 'é', '.'] ++ 0x2F :: ([0x5C] ++ (encode ['m', 'a', '.', 'c'] ++ [0x2F, 0x2F])))
      [['c', 'é', '.'], ['m', 'a', '.', 'c']] :=
    .cons hfirst (by decide) hsep (.last hsecond hend)
  exact takeNames_spells hspells fun _ => 7

end PiKachulm.Fs

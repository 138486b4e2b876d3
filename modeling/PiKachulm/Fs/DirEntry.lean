import PiKachulm.Core.Bytes
import PiKachulm.Fs.CodePage
import PiKachulm.Fs.FatTable
import PiKachulm.Fs.Unicode

/-!
# Directory entries

A directory is a table of entries of 32 bytes. A file has an entry with its short name. The parts of its long
name, of thirteen characters each, are in the entries before it, the last part first. A long name belongs to
the short name whose checksum is in its parts.
-/

namespace PiKachulm.Fs

/-! ### Entries -/

/-- The bytes of an entry. -/
abbrev Slot := Sector

/-- `DDEM`, the mark of an entry that is deleted. -/
def ddem : UInt8 := 0xE5

/-- `RDDEM`, which is for the same character in a name. -/
def rddem : UInt8 := 0x05

/-- `LLEF`, the mark of the last part of a long name. -/
def llef : UInt8 := 0x40

def amVol : UInt8 := 0x08

def amDir : UInt8 := 0x10

def amArc : UInt8 := 0x20

def amLfn : UInt8 := 0x0F

/-- The byte `DIR_Attr`, with `AM_MASK`. -/
def attr (dir : Slot) : UInt8 := dir 11 &&& 0x3F

def sumSfn (dir : Slot) : UInt8 := (List.range 11).foldl (fun sum i => (sum >>> 1) + (sum <<< 7) + dir i) 0

/-! ### Long names -/

/-- `LfnOfs`. -/
def lfnOfs : List ℕ := [1, 3, 5, 7, 9, 14, 16, 18, 20, 22, 24, 28, 30]

/-- The characters of a part. -/
def lfnChars (dir : Slot) : List ℕ := lfnOfs.map (ldWord dir)

/-- The offset of a part in the name, from its number. -/
def lfnOffset (ord : UInt8) : ℕ := (ord.toNat + 2 ^ 32 - 1) * 13 % 2 ^ 32

/-- The loop of `pick_lfn`. After the end of the name there are fillers only. -/
def pickChars : List ℕ → ℕ → ℕ → (ℕ → ℕ) → Option (ℕ × ℕ) × (ℕ → ℕ)
  | [], i, wc, lfnbuf => (some (i, wc), lfnbuf)
  | uc :: chars, i, wc, lfnbuf =>
    if wc ≠ 0 then
      if i ≥ 256 then (none, lfnbuf) else pickChars chars (i + 1) uc (Function.update lfnbuf i uc)
    else if uc ≠ 0xFFFF then (none, lfnbuf)
    else pickChars chars i wc lfnbuf

/-- `pick_lfn`: whether the part is valid, and the buffer with the name. -/
def pickLfn (lfnbuf : ℕ → ℕ) (dir : Slot) : Bool × (ℕ → ℕ) :=
  if ldWord dir 26 ≠ 0 then (false, lfnbuf)
  else
    match pickChars (lfnChars dir) (lfnOffset (dir 0 &&& ~~~llef)) 1 lfnbuf with
    | (none, lfnbuf) => (false, lfnbuf)
    | (some (i, wc), lfnbuf) =>
      if dir 0 &&& llef ≠ 0 ∧ wc ≠ 0 then
        if i ≥ 256 then (false, lfnbuf) else (true, Function.update lfnbuf i 0)
      else (true, lfnbuf)

/-- The loop of `cmp_lfn`. -/
def cmpChars (lfnbuf : ℕ → ℕ) : List ℕ → ℕ → ℕ → Option (ℕ × ℕ)
  | [], i, wc => some (i, wc)
  | uc :: chars, i, wc =>
    if wc ≠ 0 then
      if i ≥ 256 ∨ wtoupper uc ≠ wtoupper (lfnbuf i) then none
      else cmpChars lfnbuf chars (i + 1) uc
    else if uc ≠ 0xFFFF then none
    else cmpChars lfnbuf chars i wc

/-- `cmp_lfn`: whether the part is a part of the name in the buffer, up to the case of letters. -/
def cmpLfn (lfnbuf : ℕ → ℕ) (dir : Slot) : Bool :=
  if ldWord dir 26 ≠ 0 then false
  else
    match cmpChars lfnbuf (lfnChars dir) (lfnOffset (dir 0 &&& 0x3F)) 1 with
    | none => false
    | some (i, wc) => decide ¬(dir 0 &&& llef ≠ 0 ∧ wc ≠ 0 ∧ lfnbuf i ≠ 0)

/-! ### Parts of a name -/

/-- The characters that are stored for a name: a terminator and fillers come after it. -/
def fill (name : List ℕ) (i : ℕ) : ℕ :=
  if i < name.length then name.getD i 0 else if i = name.length then 0 else 0xFFFF

/-- A long name, in UTF-16. -/
structure IsLongName (name : List ℕ) : Prop where
  ne_nil : name ≠ []
  length_le : name.length ≤ 255
  ne_zero : ∀ c ∈ name, c ≠ 0

/-- The number of parts. -/
def partCount (name : List ℕ) : ℕ := (name.length + 12) / 13

/-- An entry holds the part of a name that starts after `k` parts. -/
structure IsPart (name : List ℕ) (sum : UInt8) (k : ℕ) (dir : Slot) : Prop where
  ord : dir 0 = .ofNat (k + 1) ||| if k + 1 = partCount name then llef else 0
  attr : attr dir = amLfn
  sum : dir 13 = sum
  clust : ldWord dir 26 = 0
  chars : lfnChars dir = (List.range' (13 * k) 13).map (fill name)

/-- The entries of the parts up to a number, the last part first. -/
def AreParts (name : List ℕ) (sum : UInt8) : ℕ → List Slot → Prop
  | 0, dirs => dirs = []
  | k + 1, dirs => ∃ dir rest, dirs = dir :: rest ∧ IsPart name sum k dir ∧ AreParts name sum k rest

variable {name : List ℕ} {sum : UInt8} {k q m i wc : ℕ} {dir : Slot} {lfnbuf : ℕ → ℕ}

lemma fill_ne_zero_iff (h : IsLongName name) (hq : q ≤ name.length) : fill name q ≠ 0 ↔ q < name.length := by
  rw [fill]
  split_ifs with hlt heq
  · refine ⟨fun _ => hlt, fun _ => h.ne_zero _ ?_⟩
    rw [List.getD_eq_getElem _ _ hlt]
    exact List.getElem_mem hlt
  · exact ⟨fun hne => absurd rfl hne, fun h => absurd heq h.ne⟩
  · omega

lemma fill_of_gt (hq : name.length < q) : fill name q = 0xFFFF := by
  rw [fill, if_neg hq.not_gt, if_neg hq.ne']

/-- The characters of a name are stored up to the terminator. -/
lemma pickChars_fill (h : IsLongName name) (hwc : wc ≠ 0 ↔ q ≤ name.length) (lfnbuf : ℕ → ℕ) :
    ∃ wc', (wc' ≠ 0 ↔ q + m ≤ name.length) ∧
      pickChars ((List.range' q m).map (fill name)) (min q (name.length + 1)) wc lfnbuf =
        (some (min (q + m) (name.length + 1), wc'),
          fun i => if q ≤ i ∧ i < q + m ∧ i ≤ name.length then fill name i else lfnbuf i) := by
  induction m generalizing q wc lfnbuf with
  | zero =>
    refine ⟨wc, hwc, ?_⟩
    rw [List.range'_zero, List.map_nil, pickChars, Nat.add_zero]
    congr 1
    funext i
    rw [if_neg (by omega)]
  | succ m ih =>
    rw [List.range'_succ, List.map_cons, pickChars]
    by_cases hq : q ≤ name.length
    · have hlength := h.length_le
      have hnext : fill name q ≠ 0 ↔ q + 1 ≤ name.length := fill_ne_zero_iff h hq
      obtain ⟨wc', hwc', hpick⟩ := ih hnext (Function.update lfnbuf q (fill name q))
      refine ⟨wc', by rw [hwc', Nat.add_right_comm, Nat.add_assoc], ?_⟩
      rw [if_pos (hwc.mpr hq), min_eq_left (by omega), if_neg (by omega)]
      rw [min_eq_left (by omega)] at hpick
      rw [hpick, Nat.add_right_comm, Nat.add_assoc]
      congr 1
      funext i
      by_cases hi : i = q
      · rw [hi, if_neg (by omega), Function.update_self, if_pos (by omega)]
      · rw [Function.update_of_ne hi]
        exact if_congr (by omega) rfl rfl
    · have hwc0 : ¬wc ≠ 0 := fun hne => hq (hwc.mp hne)
      have hnext : wc ≠ 0 ↔ q + 1 ≤ name.length := by omega
      obtain ⟨wc', hwc', hpick⟩ := ih hnext lfnbuf
      refine ⟨wc', by rw [hwc', Nat.add_right_comm, Nat.add_assoc], ?_⟩
      rw [if_neg hwc0, fill_of_gt (by omega), if_neg (not_not.mpr rfl), min_eq_right (by omega)]
      rw [min_eq_right (by omega)] at hpick
      rw [hpick, Nat.add_right_comm, Nat.add_assoc]
      congr 1
      funext i
      exact if_congr (by omega) rfl rfl

/-- The same for the comparison, which stops at the first difference. -/
lemma cmpChars_fill (h : IsLongName name) (hwc : wc ≠ 0 ↔ q ≤ name.length) (lfnbuf : ℕ → ℕ) :
    (∃ wc', (wc' ≠ 0 ↔ q + m ≤ name.length) ∧
      cmpChars lfnbuf ((List.range' q m).map (fill name)) (min q (name.length + 1)) wc =
        some (min (q + m) (name.length + 1), wc') ∧
      ∀ i, q ≤ i → i < q + m → i ≤ name.length → wtoupper (fill name i) = wtoupper (lfnbuf i)) ∨
    cmpChars lfnbuf ((List.range' q m).map (fill name)) (min q (name.length + 1)) wc = none ∧
      ∃ i, q ≤ i ∧ i < q + m ∧ i ≤ name.length ∧ wtoupper (fill name i) ≠ wtoupper (lfnbuf i) := by
  induction m generalizing q wc with
  | zero =>
    refine .inl ⟨wc, hwc, ?_, fun i hle hlt => absurd hle (Nat.not_le.mpr hlt)⟩
    rw [List.range'_zero, List.map_nil, cmpChars]
    rfl
  | succ m ih =>
    rw [List.range'_succ, List.map_cons, cmpChars]
    have hend : q + 1 + m = q + (m + 1) := Nat.add_right_comm q 1 m
    by_cases hq : q ≤ name.length
    · have hlength := h.length_le
      have hnext : fill name q ≠ 0 ↔ q + 1 ≤ name.length := fill_ne_zero_iff h hq
      have hrest := ih hnext
      rw [if_pos (hwc.mpr hq), min_eq_left (by omega)]
      rw [min_eq_left (by omega : q + 1 ≤ name.length + 1), hend] at hrest
      by_cases heq : wtoupper (fill name q) = wtoupper (lfnbuf q)
      · rw [if_neg (by omega)]
        obtain ⟨wc', hwc', hcmp, hall⟩ | ⟨hcmp, i, hle, hlt, hlen, hne⟩ := hrest
        · refine .inl ⟨wc', hwc', hcmp, fun i hle hlt hlen => ?_⟩
          obtain rfl | hgt := hle.eq_or_lt
          · exact heq
          · exact hall i hgt hlt hlen
        · exact .inr ⟨hcmp, i, (Nat.le_succ q).trans hle, hlt, hlen, hne⟩
      · rw [if_pos (.inr heq)]
        exact .inr ⟨rfl, q, le_rfl, by omega, hq, heq⟩
    · have hwc0 : ¬wc ≠ 0 := fun hne => hq (hwc.mp hne)
      have hnext : wc ≠ 0 ↔ q + 1 ≤ name.length := by omega
      have hrest := ih hnext
      rw [if_neg hwc0, fill_of_gt (by omega), if_neg (not_not.mpr rfl), min_eq_right (by omega)]
      rw [min_eq_right (by omega : name.length + 1 ≤ q + 1), hend] at hrest
      obtain ⟨wc', hwc', hcmp, -⟩ | ⟨-, i, hle, -, hlen, -⟩ := hrest
      · exact .inl ⟨wc', hwc', hcmp, fun i hle _ hlen => absurd (hle.trans hlen) hq⟩
      · omega

/-! ### The number of a part -/

lemma lfnOffset_ord : ∀ k < 20, lfnOffset (.ofNat (k + 1) &&& ~~~llef) = 13 * k ∧
    lfnOffset ((.ofNat (k + 1) ||| llef) &&& ~~~llef) = 13 * k ∧ lfnOffset (.ofNat (k + 1) &&& 0x3F) = 13 * k ∧
      lfnOffset ((.ofNat (k + 1) ||| llef) &&& 0x3F) = 13 * k := by decide

lemma ord_and_llef : ∀ k < 20, UInt8.ofNat (k + 1) &&& llef = 0 ∧ (.ofNat (k + 1) ||| llef) &&& llef ≠ 0 ∧
    UInt8.ofNat (k + 1) &&& ~~~llef = .ofNat (k + 1) ∧
      (.ofNat (k + 1) ||| llef) &&& ~~~llef = UInt8.ofNat (k + 1) := by decide

lemma IsLongName.partCount_le (h : IsLongName name) : partCount name ≤ 20 := by
  have := h.length_le
  rw [partCount]
  omega

lemma IsLongName.partCount_pos (h : IsLongName name) : 0 < partCount name := by
  have := List.length_pos_iff.mpr h.ne_nil
  rw [partCount]
  omega

/-- The last part ends with the name, or with the terminator. -/
lemma length_le_of_last (hk : k + 1 = partCount name) : name.length ≤ 13 * (k + 1) := by
  rw [hk, partCount]
  omega

lemma mul_lt_length (hk : k < partCount name) : 13 * k < name.length := by
  rw [partCount] at hk
  omega

namespace IsPart

variable (hpart : IsPart name sum k dir)
include hpart

lemma and_llef_ne_zero_iff (hk : k < 20) : dir 0 &&& llef ≠ 0 ↔ k + 1 = partCount name := by
  obtain ⟨hzero, hne, -⟩ := ord_and_llef k hk
  rw [hpart.ord]
  by_cases hlast : k + 1 = partCount name
  · rw [if_pos hlast]
    exact ⟨fun _ => hlast, fun _ => hne⟩
  · rw [if_neg hlast, UInt8.or_zero]
    exact ⟨fun h => absurd hzero h, fun h => absurd h hlast⟩

lemma number (hk : k < 20) : dir 0 &&& ~~~llef = .ofNat (k + 1) := by
  obtain ⟨-, -, hord, hlast⟩ := ord_and_llef k hk
  rw [hpart.ord]
  split_ifs
  · exact hlast
  · rw [UInt8.or_zero]
    exact hord

lemma offset (hk : k < 20) :
    lfnOffset (dir 0 &&& ~~~llef) = 13 * k ∧ lfnOffset (dir 0 &&& 0x3F) = 13 * k := by
  obtain ⟨hpick, hpick', hcmp, hcmp'⟩ := lfnOffset_ord k hk
  rw [hpart.ord]
  split_ifs
  · exact ⟨hpick', hcmp'⟩
  · rw [UInt8.or_zero]
    exact ⟨hpick, hcmp⟩

end IsPart

/-! ### Names in parts -/

/-- The buffer holds the name and its terminator, from an offset on. -/
def HoldsFrom (name : List ℕ) (q : ℕ) (lfnbuf : ℕ → ℕ) : Prop :=
  ∀ i, q ≤ i → i ≤ name.length → lfnbuf i = fill name i

/-- Each part adds its characters to those of the parts after it. -/
lemma pickLfn_part (h : IsLongName name) (hk : k < partCount name) (hpart : IsPart name sum k dir)
    (hbuf : k + 1 < partCount name → HoldsFrom name (13 * (k + 1)) lfnbuf) :
    ∃ buf, pickLfn lfnbuf dir = (true, buf) ∧ HoldsFrom name (13 * k) buf := by
  have hk20 : k < 20 := hk.trans_le h.partCount_le
  have hstart := (mul_lt_length hk).le
  have hwc : 1 ≠ 0 ↔ 13 * k ≤ name.length := by simpa using hstart
  obtain ⟨wc, hwc, hpick⟩ := pickChars_fill (m := 13) h hwc lfnbuf
  rw [min_eq_left (by omega)] at hpick
  rw [pickLfn, hpart.clust, if_neg (not_not.mpr rfl), (hpart.offset hk20).1, hpart.chars, hpick]
  simp only [hpart.and_llef_ne_zero_iff hk20, hwc]
  by_cases hlast : k + 1 = partCount name
  · have hlen := length_le_of_last hlast
    by_cases hfull : 13 * k + 13 ≤ name.length
    · have hlength := h.length_le
      rw [if_pos ⟨hlast, hfull⟩, min_eq_left (by omega), if_neg (by omega)]
      refine ⟨_, rfl, fun i hle hlen' => ?_⟩
      by_cases hi : i = 13 * k + 13
      · rw [hi, Function.update_self, fill, if_neg (by omega), if_pos (by omega)]
      · rw [Function.update_of_ne hi, if_pos (by omega)]
    · rw [if_neg fun hand => hfull hand.2]
      refine ⟨_, rfl, fun i hle hlen' => if_pos (by omega)⟩
  · rw [if_neg fun hand => hlast hand.1]
    refine ⟨_, rfl, fun i hle hlen' => ?_⟩
    by_cases hi : i < 13 * k + 13
    · rw [if_pos ⟨hle, hi, hlen'⟩]
    · rw [if_neg (by omega)]
      exact hbuf (by omega) i (by omega) hlen'

/-- A part is compared with the name in the buffer; the last part with its end, too. -/
lemma cmpLfn_part (h : IsLongName name) (hk : k < partCount name) (hpart : IsPart name sum k dir) :
    cmpLfn lfnbuf dir = true ↔ ∀ i, 13 * k ≤ i → (i < 13 * (k + 1) ∨ k + 1 = partCount name) →
      i ≤ name.length → wtoupper (fill name i) = wtoupper (lfnbuf i) := by
  have hk20 : k < 20 := hk.trans_le h.partCount_le
  have hstart := (mul_lt_length hk).le
  have hwc : 1 ≠ 0 ↔ 13 * k ≤ name.length := by simpa using hstart
  have hcmp := cmpChars_fill (m := 13) h hwc lfnbuf
  rw [min_eq_left (by omega)] at hcmp
  rw [cmpLfn, hpart.clust, if_neg (not_not.mpr rfl), (hpart.offset hk20).2, hpart.chars]
  obtain ⟨wc, hwc, hcmp, hall⟩ | ⟨hcmp, i, hle, hlt, hlen, hne⟩ := hcmp
  · rw [hcmp]
    simp only [hpart.and_llef_ne_zero_iff hk20, hwc, decide_eq_true_eq]
    constructor
    · intro hend i hle hi hlen
      by_cases hlt : i < 13 * k + 13
      · exact hall i hle hlt hlen
      · -- the terminator, which is not in the entry
        have hlast : k + 1 = partCount name := hi.resolve_left (by omega)
        have hlen' := length_le_of_last hlast
        obtain rfl : i = 13 * k + 13 := by omega
        have hbuf : lfnbuf (13 * k + 13) = 0 := by
          by_contra hne
          refine hend ⟨hlast, hlen, ?_⟩
          rwa [min_eq_left (by omega)]
        rw [hbuf, fill, if_neg (by omega), if_pos (by omega)]
    · rintro hall ⟨hlast, hfull, hne⟩
      have hlen' := length_le_of_last hlast
      have hend := hall (13 * k + 13) (by omega) (.inr hlast) hfull
      rw [fill, if_neg (by omega), if_pos (by omega)] at hend
      rw [min_eq_left (by omega)] at hne
      exact hne (wtoupper_eq_zero (hend.symm.trans wtoupper_zero))
  · rw [hcmp]
    refine ⟨fun hfalse => absurd hfalse Bool.false_ne_true, fun hall => absurd (hall i hle (.inl ?_) hlen) hne⟩
    omega

end PiKachulm.Fs

import PiKachulm.Core.Bits

/-!
# Names in UTF-8 and UTF-16

The long names of files are stored in UTF-16, and the calls take and return names in UTF-8. A character that
needs two units is kept in 32 bits, with the high surrogate in the upper half.
-/

namespace PiKachulm.Fs

open Core

/-! ### Conversions -/

def isSurrogate (c : ℕ) : Bool := decide (0xD800 ≤ c ∧ c ≤ 0xDFFF)

/-- `put_utf`: the bytes that are written, none when the buffer is too small or the character is wrong. -/
def putUtf (chr szb : ℕ) : List UInt8 :=
  if chr < 0x80 then
    if szb < 1 then [] else [.ofNat chr]
  else if chr < 0x800 then
    if szb < 2 then [] else [.ofNat (0xC0 ||| (chr >>> 6 &&& 0x1F)), .ofNat (0x80 ||| (chr &&& 0x3F))]
  else if chr < 0x10000 then
    if szb < 3 ∨ isSurrogate chr then []
    else [.ofNat (0xE0 ||| (chr >>> 12 &&& 0x0F)), .ofNat (0x80 ||| (chr >>> 6 &&& 0x3F)),
      .ofNat (0x80 ||| (chr &&& 0x3F))]
  else if szb < 4 then []
  else
    let hc := (((chr &&& 0xFFFF0000) + 2 ^ 32 - 0xD8000000) % 2 ^ 32) >>> 6
    let lc := ((chr &&& 0xFFFF) + 2 ^ 32 - 0xDC00) % 2 ^ 32
    if hc ≥ 0x100000 ∨ lc ≥ 0x400 then []
    else
      let chr := (hc ||| lc) + 0x10000
      [.ofNat (0xF0 ||| (chr >>> 18 &&& 0x07)), .ofNat (0x80 ||| (chr >>> 12 &&& 0x3F)),
        .ofNat (0x80 ||| (chr >>> 6 &&& 0x3F)), .ofNat (0x80 ||| (chr &&& 0x3F))]

/-- The first byte of a string; the end is a null byte. -/
def peek (str : List UInt8) : UInt8 := str.headD 0

/-- The trailing bytes of a sequence. -/
def trailing : ℕ → ℕ → List UInt8 → Option (ℕ × List UInt8)
  | 0, uc, p => some (uc, p)
  | nf + 1, uc, p =>
    if peek p &&& 0xC0 ≠ 0x80 then none
    else trailing nf (uc <<< 6 ||| (peek p &&& 0x3F).toNat) p.tail

/-- The number of trailing bytes, and the bits in the first byte. -/
def leading (uc : UInt8) : Option (ℕ × ℕ) :=
  if uc &&& 0xE0 = 0xC0 then some (1, (uc &&& 0x1F).toNat)
  else if uc &&& 0xF0 = 0xE0 then some (2, (uc &&& 0x0F).toNat)
  else if uc &&& 0xF8 = 0xF0 then some (3, (uc &&& 0x07).toNat)
  else none

/-- A surrogate pair is made if needed. -/
def toUtf16 (uc : ℕ) : ℕ :=
  if uc ≥ 0x10000 then 0xD800DC00 ||| ((uc - 0x10000) <<< 6 &&& 0x3FF0000) ||| (uc &&& 0x3FF) else uc

/-- `tchar2uni`: the character and the rest of the string. -/
def tchar2uni (str : List UInt8) : Option (ℕ × List UInt8) :=
  if peek str &&& 0x80 = 0 then some ((peek str).toNat, str.tail)
  else do
    let (nf, uc) ← leading (peek str)
    let (uc, p) ← trailing nf uc str.tail
    if uc < 0x80 ∨ isSurrogate uc ∨ uc ≥ 0x110000 then none
    else some (toUtf16 uc, p)

/-- The loop that converts a long name, with the high surrogate that has been read, if any, and the bytes that
have been written. The name is empty if it is too long or is not valid. -/
def convertLfn : List ℕ → ℕ → List UInt8 → List UInt8
  | [], hs, out => if hs ≠ 0 then [] else out
  | wc :: lfn, hs, out =>
    if hs = 0 ∧ isSurrogate wc then convertLfn lfn wc out
    else
      match putUtf (hs <<< 16 ||| wc) (255 - out.length) with
      | [] => []
      | bytes => convertLfn lfn 0 (out ++ bytes)

/-! ### Characters -/

/-- The units of a code point in UTF-16. -/
def units (uc : ℕ) : List ℕ :=
  if uc < 0x10000 then [uc] else [0xD800 + (uc - 0x10000) / 0x400, 0xDC00 + (uc - 0x10000) % 0x400]

/-- The units of a code point in one word. -/
def packed (uc : ℕ) : ℕ :=
  if uc < 0x10000 then uc else (0xD800 + (uc - 0x10000) / 0x400) * 0x10000 + (0xDC00 + (uc - 0x10000) % 0x400)

/-- The bytes of a code point in UTF-8. -/
def utf8 (uc : ℕ) : List UInt8 :=
  if uc ≤ 0x7F then [.ofNat uc]
  else if uc ≤ 0x7FF then [.ofNat (uc / 64 % 32 + 0xC0), .ofNat (uc % 64 + 0x80)]
  else if uc ≤ 0xFFFF then
    [.ofNat (uc / 4096 % 16 + 0xE0), .ofNat (uc / 64 % 64 + 0x80), .ofNat (uc % 64 + 0x80)]
  else [.ofNat (uc / 262144 % 8 + 0xF0), .ofNat (uc / 4096 % 64 + 0x80), .ofNat (uc / 64 % 64 + 0x80),
    .ofNat (uc % 64 + 0x80)]

lemma utf8_toNat (c : Char) : utf8 c.toNat = String.utf8EncodeChar c := rfl

variable {n k a b m uc szb : ℕ} {rest : List UInt8}

lemma and_eq_mod (hm : m + 1 = 2 ^ b) : n &&& m = n % 2 ^ b := by
  obtain rfl : m = 2 ^ b - 1 := Nat.eq_sub_of_add_eq hm
  exact Nat.and_two_pow_sub_one_eq_mod n b

/-- Bits that are cut out of a number, under others. -/
lemma or_shiftRight_and (hm : m + 1 = 2 ^ b) (hk : 2 ^ b ∣ k) : k ||| (n >>> a &&& m) = n / 2 ^ a % 2 ^ b + k := by
  obtain ⟨q, rfl⟩ := hk
  rw [and_eq_mod hm, Nat.shiftRight_eq_div_pow, ← Nat.two_pow_add_eq_or_of_lt (Nat.mod_lt _ (Nat.two_pow_pos b)),
    Nat.add_comm]

lemma or_and (hm : m + 1 = 2 ^ b) (hk : 2 ^ b ∣ k) : k ||| (n &&& m) = n % 2 ^ b + k := by
  have h := or_shiftRight_and hm hk (n := n) (a := 0)
  rwa [Nat.shiftRight_zero, Nat.pow_zero, Nat.div_one] at h

lemma not_isSurrogate (c : Char) : ¬isSurrogate c.toNat := by
  rw [isSurrogate, decide_eq_true_eq]
  obtain h | ⟨h, -⟩ := c.valid
  · exact fun hc => absurd hc.1 (Nat.not_le.mpr h)
  · exact fun hc => absurd hc.2 (Nat.not_le.mpr h)

lemma toNat_lt (c : Char) : c.toNat < 0x110000 := by
  obtain h | ⟨-, h⟩ := c.valid
  · exact h.trans (by decide)
  · exact h

/-! ### Writing -/

/-- The two halves of a pair. -/
lemma pair_halves (h : n < 0x100000) {chr : ℕ}
    (hchr : chr = (0xD800 + n / 0x400) * 0x10000 + (0xDC00 + n % 0x400)) :
    (((chr &&& 0xFFFF0000) + 2 ^ 32 - 0xD8000000) % 2 ^ 32) >>> 6 = 2 ^ 10 * (n / 0x400) ∧
      ((chr &&& 0xFFFF) + 2 ^ 32 - 0xDC00) % 2 ^ 32 = n % 0x400 := by
  have hmask : chr &&& 0xFFFF0000 = chr / 2 ^ 16 * 2 ^ 16 :=
    and_two_pow_sub_two_pow (n := 32) (m := 16) (by omega) (by decide)
  have hdiv : chr / 2 ^ 16 = 0xD800 + n / 0x400 := by omega
  have hmod : chr % 2 ^ 16 = 0xDC00 + n % 0x400 := by omega
  have hhigh : ((0xD800 + n / 0x400) * 2 ^ 16 + 2 ^ 32 - 0xD8000000) % 2 ^ 32 = n / 0x400 * 2 ^ 16 := by omega
  rw [hmask, hdiv, hhigh, and_eq_mod (b := 16) rfl, hmod, Nat.shiftRight_eq_div_pow]
  omega

lemma utf8_of_lt_0x800 (h1 : ¬uc < 0x80) (h2 : uc < 0x800) :
    utf8 uc = [.ofNat (uc / 2 ^ 6 % 2 ^ 5 + 0xC0), .ofNat (uc % 2 ^ 6 + 0x80)] := by
  rw [utf8, if_neg (by omega), if_pos (by omega)]
  rfl

lemma utf8_of_lt_0x10000 (h2 : ¬uc < 0x800) (h3 : uc < 0x10000) : utf8 uc =
    [.ofNat (uc / 2 ^ 12 % 2 ^ 4 + 0xE0), .ofNat (uc / 2 ^ 6 % 2 ^ 6 + 0x80), .ofNat (uc % 2 ^ 6 + 0x80)] := by
  rw [utf8, if_neg (by omega), if_neg (by omega), if_pos (by omega)]
  rfl

lemma utf8_of_ge (h3 : ¬uc < 0x10000) : utf8 uc = [.ofNat (uc / 2 ^ 18 % 2 ^ 3 + 0xF0),
    .ofNat (uc / 2 ^ 12 % 2 ^ 6 + 0x80), .ofNat (uc / 2 ^ 6 % 2 ^ 6 + 0x80), .ofNat (uc % 2 ^ 6 + 0x80)] := by
  rw [utf8, if_neg (by omega), if_neg (by omega), if_neg (by omega)]
  rfl

lemma ite_lt_eq {α : Type} (a b : ℕ) (x y : α) : (if a < b then x else y) = if b ≤ a then y else x := by
  rw [← ite_not]
  simp only [Nat.not_lt]

lemma putUtf_pair (h : n < 0x100000) (szb : ℕ) :
    putUtf ((0xD800 + n / 0x400) * 0x10000 + (0xDC00 + n % 0x400)) szb =
      if 4 ≤ szb then utf8 (n + 0x10000) else [] := by
  obtain ⟨hhc, hlc⟩ := pair_halves h rfl
  have hlow : n % 0x400 < 2 ^ 10 := Nat.mod_lt _ (by decide)
  have hjoin : 2 ^ 10 * (n / 0x400) ||| n % 0x400 = n := by
    rw [← Nat.two_pow_add_eq_or_of_lt hlow]
    exact Nat.div_add_mod n 0x400
  have hge : 0x10000 ≤ (0xD800 + n / 0x400) * 0x10000 + (0xDC00 + n % 0x400) := by omega
  have hvalid : ¬(2 ^ 10 * (n / 0x400) ≥ 0x100000 ∨ n % 0x400 ≥ 0x400) := by omega
  generalize (0xD800 + n / 0x400) * 0x10000 + (0xDC00 + n % 0x400) = chr at hhc hlc hge
  rw [putUtf, if_neg (by omega), if_neg (by omega), if_neg (by omega), ite_lt_eq]
  simp only [hhc, hlc, if_neg hvalid, hjoin]
  rw [or_shiftRight_and (b := 3) rfl (by decide), or_shiftRight_and (b := 6) rfl (by decide),
    or_shiftRight_and (b := 6) rfl (by decide), or_and (b := 6) rfl (by decide), utf8_of_ge (by omega)]

/-- `put_utf` writes a character in UTF-8, or nothing if there is not enough room. -/
lemma putUtf_packed (hlt : uc < 0x110000) (hsurrogate : ¬isSurrogate uc) (szb : ℕ) :
    putUtf (packed uc) szb = if (utf8 uc).length ≤ szb then utf8 uc else [] := by
  by_cases h3 : uc < 0x10000
  · rw [packed, if_pos h3, putUtf]
    by_cases h1 : uc < 0x80
    · rw [if_pos h1, utf8, if_pos (Nat.le_of_lt_succ h1)]
      exact ite_lt_eq _ _ _ _
    · rw [if_neg h1]
      by_cases h2 : uc < 0x800
      · rw [if_pos h2, or_shiftRight_and (b := 5) rfl (by decide), or_and (b := 6) rfl (by decide),
          utf8_of_lt_0x800 h1 h2]
        exact ite_lt_eq _ _ _ _
      · rw [if_neg h2, if_pos h3, or_shiftRight_and (b := 4) rfl (by decide),
          or_shiftRight_and (b := 6) rfl (by decide), or_and (b := 6) rfl (by decide), utf8_of_lt_0x10000 h2 h3]
        simp only [hsurrogate, Bool.false_eq_true, or_false]
        exact ite_lt_eq _ _ _ _
  · rw [packed, if_neg h3, putUtf_pair (by omega), Nat.sub_add_cancel (Nat.not_lt.mp h3), utf8_of_ge h3]
    rfl

/-! ### Reading -/

lemma leading_two : ∀ k < 2 ^ 5, leading (.ofNat (k + 0xC0)) = some (1, k) := by decide

lemma leading_three : ∀ k < 2 ^ 4, leading (.ofNat (k + 0xE0)) = some (2, k) := by decide

lemma leading_four : ∀ k < 2 ^ 3, leading (.ofNat (k + 0xF0)) = some (3, k) := by decide

lemma peek_and_ne_zero : ∀ k < 2 ^ 6, UInt8.ofNat (k + 0xC0) &&& 0x80 ≠ 0 := by decide

lemma trailing_byte : ∀ k < 2 ^ 6, UInt8.ofNat (k + 0x80) &&& 0xC0 = 0x80 ∧
    (UInt8.ofNat (k + 0x80) &&& 0x3F).toNat = k := by decide

lemma trailing_cons (nf uc n : ℕ) (p : List UInt8) :
    trailing (nf + 1) uc (.ofNat (n % 2 ^ 6 + 0x80) :: p) = trailing nf (2 ^ 6 * uc + n % 2 ^ 6) p := by
  have hlt : n % 2 ^ 6 < 2 ^ 6 := Nat.mod_lt _ (by decide)
  obtain ⟨hmark, hbits⟩ := trailing_byte _ hlt
  rw [trailing, peek, List.headD_cons, if_neg (not_not.mpr hmark), hbits, Nat.shiftLeft_eq, Nat.mul_comm,
    ← Nat.two_pow_add_eq_or_of_lt hlt, List.tail_cons]

lemma toUtf16_eq_packed (hlt : uc < 0x110000) : toUtf16 uc = packed uc := by
  rw [toUtf16, packed, ite_lt_eq]
  split_ifs with h
  · obtain ⟨n, rfl⟩ := Nat.exists_eq_add_of_le' h
    rw [Nat.add_sub_cancel, Nat.shiftLeft_eq]
    have hhigh : n / 2 ^ 10 * 2 ^ 16 < 2 ^ 26 := by omega
    have hlow : n % 2 ^ 10 < 2 ^ 10 := Nat.mod_lt _ (by decide)
    have hmask : n * 2 ^ 6 &&& 0x3FF0000 = n / 2 ^ 10 * 2 ^ 16 := by
      rw [show 0x3FF0000 = 2 ^ 26 - 2 ^ 16 from rfl, and_two_pow_sub_two_pow (by omega) (by decide)]
      omega
    have hmod : n + 0x10000 &&& 0x3FF = n % 2 ^ 10 := by
      rw [and_eq_mod (b := 10) rfl]
      omega
    rw [hmask, hmod]
    calc 0xD800DC00 ||| n / 2 ^ 10 * 2 ^ 16 ||| n % 2 ^ 10
        = (2 ^ 26 * 54 ||| n / 2 ^ 10 * 2 ^ 16) ||| (2 ^ 10 * 55 ||| n % 2 ^ 10) := by
          rw [show 0xD800DC00 = 2 ^ 26 * 54 ||| 2 ^ 10 * 55 from rfl, Nat.lor_assoc (2 ^ 26 * 54),
            Nat.lor_comm (2 ^ 10 * 55), ← Nat.lor_assoc, Nat.lor_assoc]
      _ = 2 ^ 16 * (0xD800 + n / 2 ^ 10) ||| (2 ^ 10 * 55 + n % 2 ^ 10) := by
          rw [← Nat.two_pow_add_eq_or_of_lt hhigh, ← Nat.two_pow_add_eq_or_of_lt hlow]
          congr 1
          omega
      _ = _ := by
          rw [← Nat.two_pow_add_eq_or_of_lt (by omega)]
          omega
  · rfl

lemma tchar2uni_of_leading {byte : UInt8} {p : List UInt8} {nf bits : ℕ} (hbyte : byte &&& 0x80 ≠ 0)
    (hleading : leading byte = some (nf, bits)) (htrailing : trailing nf bits p = some (uc, rest))
    (hge : ¬uc < 0x80) (hlt : uc < 0x110000) (hsurrogate : ¬isSurrogate uc) :
    tchar2uni (byte :: p) = some (packed uc, rest) := by
  have hvalid : ¬(uc < 0x80 ∨ isSurrogate uc ∨ uc ≥ 0x110000) := by
    rw [not_or, not_or]
    exact ⟨hge, hsurrogate, Nat.not_le.mpr hlt⟩
  rw [tchar2uni, peek, List.headD_cons, if_neg hbyte, hleading, List.tail_cons]
  change (trailing nf bits p).bind _ = _
  rw [htrailing]
  change (if _ then _ else _) = _
  rw [if_neg hvalid, toUtf16_eq_packed hlt]

/-- `tchar2uni` reads a character in UTF-8. -/
lemma tchar2uni_utf8 (hlt : uc < 0x110000) (hsurrogate : ¬isSurrogate uc) (rest : List UInt8) :
    tchar2uni (utf8 uc ++ rest) = some (packed uc, rest) := by
  by_cases h1 : uc < 0x80
  · have hascii : ∀ k < 0x80, (UInt8.ofNat k) &&& 0x80 = 0 ∧ (UInt8.ofNat k).toNat = k := by decide
    obtain ⟨hbyte, htoNat⟩ := hascii uc h1
    rw [utf8, if_pos (Nat.le_of_lt_succ h1), List.singleton_append, tchar2uni, peek, List.headD_cons, if_pos hbyte,
      htoNat, packed, if_pos (by omega), List.tail_cons]
  · by_cases h2 : uc < 0x800
    · have hk : uc / 2 ^ 6 % 2 ^ 5 < 2 ^ 5 := Nat.mod_lt _ (by decide)
      rw [utf8_of_lt_0x800 h1 h2]
      simp only [List.cons_append, List.nil_append]
      refine tchar2uni_of_leading (peek_and_ne_zero _ (by omega)) (leading_two _ hk) ?_ h1 hlt hsurrogate
      rw [trailing_cons, trailing]
      congr 2
      omega
    · by_cases h3 : uc < 0x10000
      · have hk : uc / 2 ^ 12 % 2 ^ 4 < 2 ^ 4 := Nat.mod_lt _ (by decide)
        rw [utf8_of_lt_0x10000 h2 h3]
        simp only [List.cons_append, List.nil_append]
        refine tchar2uni_of_leading (peek_and_ne_zero (_ + 0x20) (by omega)) (leading_three _ hk) ?_ h1 hlt hsurrogate
        rw [trailing_cons, trailing_cons, trailing]
        congr 2
        omega
      · have hk : uc / 2 ^ 18 % 2 ^ 3 < 2 ^ 3 := Nat.mod_lt _ (by decide)
        rw [utf8_of_ge h3]
        simp only [List.cons_append, List.nil_append]
        refine tchar2uni_of_leading (peek_and_ne_zero (_ + 0x30) (by omega)) (leading_four _ hk) ?_ h1 hlt hsurrogate
        rw [trailing_cons, trailing_cons, trailing_cons, trailing]
        congr 2
        omega

/-! ### Names -/

lemma utf8_ne_nil (uc : ℕ) : utf8 uc ≠ [] := by
  rw [utf8]
  split_ifs <;> exact List.cons_ne_nil _ _

/-- The units of a character are read one after the other, and its bytes are written. -/
lemma convertLfn_units (hlt : uc < 0x110000) (hsurrogate : ¬isSurrogate uc) (lfn : List ℕ) (out : List UInt8) :
    convertLfn (units uc ++ lfn) 0 out =
      if (utf8 uc).length ≤ 255 - out.length then convertLfn lfn 0 (out ++ utf8 uc) else [] := by
  have hput : ∀ hs wc, hs <<< 16 ||| wc = packed uc → ¬(hs = 0 ∧ isSurrogate wc) →
      convertLfn (wc :: lfn) hs out =
        if (utf8 uc).length ≤ 255 - out.length then convertLfn lfn 0 (out ++ utf8 uc) else [] := by
    intro hs wc hchr hnot
    rw [convertLfn, if_neg hnot, hchr, putUtf_packed hlt hsurrogate]
    split_ifs with hle
    · obtain ⟨byte, bytes, hbytes⟩ := List.exists_cons_of_ne_nil (utf8_ne_nil uc)
      rw [hbytes]
    · rfl
  by_cases h3 : uc < 0x10000
  · rw [units, if_pos h3, List.singleton_append]
    refine hput 0 uc ?_ fun h => hsurrogate h.2
    rw [Nat.zero_shiftLeft, Nat.zero_or, packed, if_pos h3]
  · have hhigh : isSurrogate (0xD800 + (uc - 0x10000) / 0x400) := by
      rw [isSurrogate, decide_eq_true_eq]
      omega
    rw [units, if_neg h3, List.cons_append, List.singleton_append, convertLfn, if_pos ⟨rfl, hhigh⟩]
    refine hput _ _ ?_ fun h => absurd h.1 (by omega)
    have hlow : 0xDC00 + (uc - 0x10000) % 0x400 < 2 ^ 16 := by omega
    rw [Nat.shiftLeft_eq, Nat.mul_comm, ← Nat.two_pow_add_eq_or_of_lt hlow, packed, if_neg h3, Nat.mul_comm]

/-- A long name of characters is shown in UTF-8 if there is enough room. -/
lemma convertLfn_flatMap (cs : List Char) (out : List UInt8) (hout : out.length ≤ 255) :
    convertLfn (cs.flatMap fun c => units c.toNat) 0 out =
      if (out ++ cs.flatMap String.utf8EncodeChar).length ≤ 255 then out ++ cs.flatMap String.utf8EncodeChar
      else [] := by
  induction cs generalizing out with
  | nil =>
    rw [List.flatMap_nil, List.flatMap_nil, List.append_nil, if_pos hout]
    rfl
  | cons c cs ih =>
    rw [List.flatMap_cons, List.flatMap_cons, convertLfn_units (toNat_lt c) (not_isSurrogate c), utf8_toNat,
      ← List.append_assoc]
    split_ifs with hle hfit hfit
    · rw [ih _ (by rw [List.length_append]; omega), if_pos hfit]
    · rw [ih _ (by rw [List.length_append]; omega), if_neg hfit]
    · rw [List.length_append, List.length_append] at hfit
      omega
    · rfl

end PiKachulm.Fs

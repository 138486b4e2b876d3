import PiKachulm.Fs.CreateName
import Mathlib.Data.List.DropRight

/-!
# The names that a path spells

A path is a sequence of names in UTF-8 with separators between them. `create_name` takes them one by one: the
buffer holds the name in UTF-16, without the spaces and the dots at its end.
-/

namespace PiKachulm.Fs

/-! ### Texts -/

/-- A text in UTF-8. -/
def encode (cs : List Char) : List UInt8 := cs.flatMap String.utf8EncodeChar

/-- A text in UTF-16. -/
def unitsOf (cs : List Char) : List ℕ := cs.flatMap fun c => units c.toNat

/-- A character that may stand in a name. -/
structure IsLegal (c : Char) : Prop where
  ge : 0x20 ≤ c.toNat
  separator : ¬isSeparator c.toNat
  illegal : c.toNat ∉ illegalLfn

/-- The name that is looked up for a text. -/
def nameOf (cs : List Char) : List ℕ := (unitsOf cs).rdropWhile fun u => decide (u = 0x20 ∨ u = 0x2E)

/-- A text that is a name. -/
structure IsName (cs : List Char) : Prop where
  legal : ∀ c ∈ cs, IsLegal c
  length_le : (unitsOf cs).length ≤ 255
  ne_nil : nameOf cs ≠ []

def Separators (p : List UInt8) : Prop := ∀ c ∈ p, isSeparator c.toNat

/-- A path without separators before it. -/
inductive Spells : List UInt8 → List (List Char) → Prop
  | last {cs : List Char} {seps : List UInt8} (hname : IsName cs) (hseps : Separators seps) :
      Spells (encode cs ++ seps) [cs]
  | cons {cs : List Char} {sep : UInt8} {seps rest : List UInt8} {css : List (List Char)} (hname : IsName cs)
      (hsep : isSeparator sep.toNat) (hseps : Separators seps) (hrest : Spells rest css) :
      Spells (encode cs ++ sep :: (seps ++ rest)) (cs :: css)

/-- The buffer with units from an offset on. -/
def store : (ℕ → ℕ) → ℕ → List ℕ → ℕ → ℕ
  | lfn, _, [] => lfn
  | lfn, di, u :: us => store (Function.update lfn di u) (di + 1) us

variable {cs : List Char} {c : Char} {lfn lfnbuf : ℕ → ℕ} {us name : List ℕ} {di fuel wc i : ℕ} {cf : UInt8}
  {rest p : List UInt8}

lemma store_append (lfn : ℕ → ℕ) (di : ℕ) (us vs : List ℕ) :
    store lfn di (us ++ vs) = store (store lfn di us) (di + us.length) vs := by
  induction us generalizing lfn di with
  | nil => rfl
  | cons u us ih => rw [List.cons_append, store, ih, store, List.length_cons, Nat.add_assoc, Nat.add_comm 1]

lemma store_of_lt (hi : i < di) : store lfn di us i = lfn i := by
  induction us generalizing lfn di with
  | nil => rfl
  | cons u us ih => rw [store, ih (Nat.lt_succ_of_lt hi), Function.update_of_ne hi.ne]

lemma store_add (lfn : ℕ → ℕ) (di : ℕ) (hi : i < us.length) : store lfn di us (di + i) = us.getD i 0 := by
  induction us generalizing lfn di i with
  | nil => cases hi
  | cons u us ih =>
    rw [store]
    cases i with
    | zero => exact (store_of_lt (Nat.lt_add_one di)).trans (Function.update_self ..)
    | succ i => rw [Nat.add_comm i 1, ← Nat.add_assoc, ih _ _ (Nat.lt_of_succ_lt_succ hi), Nat.add_comm 1 i,
        List.getD_cons_succ]

/-! ### Long names -/

/-- A character of a name is put into the buffer. -/
lemma takeName_char (hc : IsLegal c) (hdi : di + (units c.toNat).length ≤ 255) :
    takeName (fuel + 1) (String.utf8EncodeChar c ++ rest) lfn di =
      takeName fuel rest (store lfn di (units c.toNat)) (di + (units c.toNat).length) := by
  have htake : takeName (fuel + 1) (String.utf8EncodeChar c ++ rest) lfn di = takeName (fuel + 1)
      (utf8 c.toNat ++ rest) lfn di := rfl
  rw [htake, takeName, tchar2uni_utf8 (toNat_lt c) (not_isSurrogate c)]
  by_cases hbmp : c.toNat < 0x10000
  · have hpacked : packed c.toNat = c.toNat := if_pos hbmp
    have hunits : units c.toNat = [c.toNat] := if_pos hbmp
    rw [hunits] at hdi ⊢
    have hmod : c.toNat % 2 ^ 16 = c.toNat := Nat.mod_eq_of_lt hbmp
    have hctl : ¬(c.toNat < 0x20 ∨ isSeparator c.toNat) := not_or.mpr ⟨Nat.not_lt.mpr hc.ge, hc.separator⟩
    simp only [hpacked, if_neg (Nat.not_le.mpr hbmp), hmod]
    rw [if_neg hctl, if_neg fun hand => hc.illegal hand.2, if_neg (Nat.not_le.mpr hdi)]
    rfl
  · obtain ⟨n, hn⟩ := Nat.exists_eq_add_of_le' (Nat.not_lt.mp hbmp)
    have hlt := toNat_lt c
    rw [hn] at hlt
    have hunits : units c.toNat = [0xD800 + n / 0x400, 0xDC00 + n % 0x400] := by
      rw [units, if_neg hbmp, hn, Nat.add_sub_cancel]
    have hpacked : packed c.toNat = (0xD800 + n / 0x400) * 2 ^ 16 + (0xDC00 + n % 0x400) := by
      rw [packed, if_neg hbmp, hn, Nat.add_sub_cancel]
      rfl
    have hhigh : packed c.toNat >>> 16 = 0xD800 + n / 0x400 := by
      rw [hpacked, Nat.shiftRight_eq_div_pow]
      omega
    have hlow : packed c.toNat % 2 ^ 16 = 0xDC00 + n % 0x400 := by
      rw [hpacked]
      omega
    have hge : packed c.toNat ≥ 0x10000 := by
      rw [hpacked]
      omega
    have hsep : ¬(0xDC00 + n % 0x400 < 0x20 ∨ isSeparator (0xDC00 + n % 0x400)) := by
      rw [isSeparator, decide_eq_true_eq]
      omega
    rw [hunits] at hdi ⊢
    change di + 2 ≤ 255 at hdi
    simp only [hhigh, hlow, if_pos hge]
    rw [if_neg hsep, if_neg fun hand => absurd hand.1 (by omega), if_neg (by omega)]
    rfl

/-- The characters of a name are put into the buffer. -/
lemma takeName_encode (hcs : ∀ c ∈ cs, IsLegal c) (hdi : di + (unitsOf cs).length ≤ 255) :
    takeName (fuel + cs.length) (encode cs ++ rest) lfn di =
      takeName fuel rest (store lfn di (unitsOf cs)) (di + (unitsOf cs).length) := by
  induction cs generalizing lfn di with
  | nil => rfl
  | cons c cs ih =>
    obtain ⟨hc, hcs⟩ := List.forall_mem_cons.mp hcs
    rw [unitsOf, List.flatMap_cons, List.length_append] at hdi
    rw [encode, List.flatMap_cons, List.append_assoc, List.length_cons, ← Nat.add_assoc,
      takeName_char hc (by omega), unitsOf, List.flatMap_cons, store_append, List.length_append, ← Nat.add_assoc]
    exact ih hcs (by rw [unitsOf]; omega)

lemma length_le_encode (cs : List Char) : cs.length ≤ (encode cs).length := by
  induction cs with
  | nil => exact le_rfl
  | cons c cs ih =>
    have hpos := List.length_pos_iff.mpr (utf8_ne_nil c.toNat)
    rw [utf8_toNat] at hpos
    rw [encode, List.flatMap_cons, List.length_append, List.length_cons, Nat.add_comm]
    exact Nat.add_le_add hpos ih

/-- `snip` leaves the name that is looked up. -/
lemma snip_eq {p : ℕ → Bool} (hp : ∀ u, p u = decide (u = 0x20 ∨ u = 0x2E))
    (hlfn : ∀ i < us.length, lfn i = us.getD i 0) : snip lfn us.length = (us.rdropWhile p).length := by
  induction us using List.reverseRecOn with
  | nil => rfl
  | append_singleton us u ih =>
    have hlast : lfn us.length = u := by
      rw [hlfn _ (by simp), List.getD_append_right _ _ _ _ le_rfl, Nat.sub_self, List.getD_cons_zero]
    have hinit : ∀ i < us.length, lfn i = us.getD i 0 := fun i hi => by
      rw [hlfn i (by simp; omega), List.getD_append _ _ _ _ hi]
    rw [List.length_append, List.length_singleton, snip, hlast, List.rdropWhile_concat, hp]
    by_cases hu : u = 0x20 ∨ u = 0x2E
    · rw [if_neg (by rw [← not_or, not_not]; exact hu), decide_eq_true hu, if_pos rfl, ih hinit]
    · rw [if_pos (not_or.mp hu), decide_eq_false hu, if_neg Bool.false_ne_true, List.length_append,
        List.length_singleton]

/-- The buffer holds the name that is looked up, and its end. -/
lemma holdsFrom_nameOf (cs : List Char) (lfn : ℕ → ℕ) : HoldsFrom (nameOf cs) 0
    (Function.update (store lfn 0 (unitsOf cs)) (nameOf cs).length 0) := by
  intro i _ hi
  obtain rfl | hlt := hi.eq_or_lt
  · rw [Function.update_self, fill, if_neg (lt_irrefl _), if_pos rfl]
  · have hprefix : nameOf cs <+: unitsOf cs := List.rdropWhile_prefix _ _
    have hstore := store_add lfn 0 (hlt.trans_le hprefix.length_le)
    rw [Nat.zero_add] at hstore
    rw [Function.update_of_ne hlt.ne, hstore, fill, if_pos hlt, List.getD_eq_getElem _ _ hlt,
      List.getD_eq_getElem _ _ (hlt.trans_le hprefix.length_le), hprefix.getElem]

lemma map_range_of_holdsFrom (h : HoldsFrom name 0 lfn) : (List.range name.length).map lfn = name := by
  apply List.ext_getElem
  · rw [List.length_map, List.length_range]
  · intro i _ hi
    rw [List.getElem_map, List.getElem_range, h i i.zero_le hi.le, fill, if_pos hi, List.getD_eq_getElem _ _ hi]

/-- `create_name` takes a name, whatever ends it. -/
lemma exists_createName (h : IsName cs)
    (hend : ∀ fuel lfn di, takeName (fuel + 1) rest lfn di = some ⟨wc, p, lfn, di⟩) (lfnbuf : ℕ → ℕ) :
    ∃ buf, HoldsFrom (nameOf cs) 0 buf ∧ createName (encode cs ++ rest) lfnbuf =
      some ⟨(createSfn (nameOf cs) (nextName wc p).1).1, (createSfn (nameOf cs) (nextName wc p).1).2, buf,
        (nextName wc p).2⟩ := by
  have hbuf := holdsFrom_nameOf cs lfnbuf
  refine ⟨_, hbuf, ?_⟩
  have hlength := length_le_encode cs
  obtain ⟨fuel, hfuel⟩ : ∃ fuel, (encode cs ++ rest).length + 1 = fuel + 1 + cs.length := by
    rw [List.length_append]
    exact ⟨(encode cs).length + rest.length - cs.length, by omega⟩
  have htake : takeName ((encode cs ++ rest).length + 1) (encode cs ++ rest) lfnbuf 0 =
      some ⟨wc, p, store lfnbuf 0 (unitsOf cs), (unitsOf cs).length⟩ := by
    rw [hfuel, takeName_encode h.legal (by rw [Nat.zero_add]; exact h.length_le), hend, Nat.zero_add]
  have hsnip : snip (store lfnbuf 0 (unitsOf cs)) (unitsOf cs).length = (nameOf cs).length := by
    refine snip_eq (fun _ => rfl) fun i hi => ?_
    have hstore := store_add lfnbuf 0 hi
    rwa [Nat.zero_add] at hstore
  have hname : (List.range (nameOf cs).length).map (store lfnbuf 0 (unitsOf cs)) = nameOf cs := by
    rw [← map_range_of_holdsFrom hbuf, List.length_map, List.length_range]
    apply List.map_congr_left
    intro i hi
    rw [Function.update_of_ne (List.mem_range.mp hi).ne]
  rw [createName, htake]
  change (if snip _ (unitsOf cs).length = 0 then none else _) = _
  rw [hsnip, if_neg (List.length_pos_iff.mpr h.ne_nil).ne', hname]
  rfl

lemma takeName_nil (fuel : ℕ) (lfn : ℕ → ℕ) (di : ℕ) : takeName (fuel + 1) [] lfn di = some ⟨0, [], lfn, di⟩ := rfl

lemma takeName_separator {sep : UInt8} (hsep : isSeparator sep.toNat) (p : List UInt8) (fuel : ℕ) (lfn : ℕ → ℕ)
    (di : ℕ) : takeName (fuel + 1) (sep :: p) lfn di = some ⟨sep.toNat, p, lfn, di⟩ := by
  have hascii : sep &&& 0x80 = 0 ∧ sep.toNat < 0x80 := by
    obtain h | h := of_decide_eq_true hsep
    · obtain rfl : sep = 0x2F := UInt8.toNat_inj.mp h
      decide
    · obtain rfl : sep = 0x5C := UInt8.toNat_inj.mp h
      decide
  have hchar : tchar2uni (sep :: p) = some (sep.toNat, p) := if_pos hascii.1
  have hmod : sep.toNat % 2 ^ 16 = sep.toNat := Nat.mod_eq_of_lt (hascii.2.trans (by decide))
  have hbmp : ¬sep.toNat ≥ 0x10000 := Nat.not_le.mpr (hascii.2.trans (by decide))
  rw [takeName, hchar]
  simp only [if_neg hbmp, hmod]
  exact if_pos (.inr hsep)

/-- The first byte of a character of a name is no separator and no terminator. -/
lemma IsLegal.exists_cons (h : IsLegal c) : ∃ b bs, String.utf8EncodeChar c = b :: bs ∧
    ¬isSeparator b.toNat ∧ ¬isTerminator b.toNat := by
  have hlead : ∀ k < 2 ^ 6, ¬isSeparator (UInt8.ofNat (k + 0xC0)).toNat ∧
      ¬isTerminator (UInt8.ofNat (k + 0xC0)).toNat := by decide
  rw [← utf8_toNat]
  by_cases h1 : c.toNat < 0x80
  · have htoNat : (UInt8.ofNat c.toNat).toNat = c.toNat := Nat.mod_eq_of_lt (h1.trans (by decide))
    refine ⟨_, _, if_pos (Nat.le_of_lt_succ h1), ?_⟩
    rw [htoNat, isTerminator, decide_eq_true_eq]
    exact ⟨h.separator, Nat.not_lt.mpr h.ge⟩
  · by_cases h2 : c.toNat < 0x800
    · exact ⟨_, _, utf8_of_lt_0x800 h1 h2, hlead _ ((Nat.mod_lt _ (by decide)).trans (by decide))⟩
    · by_cases h3 : c.toNat < 0x10000
      · refine ⟨_, _, utf8_of_lt_0x10000 h2 h3, ?_⟩
        exact hlead (_ + 0x20) (Nat.add_lt_add_right (Nat.mod_lt _ (by decide)) _ |>.trans (by decide))
      · refine ⟨_, _, utf8_of_ge h3, ?_⟩
        exact hlead (_ + 0x30) (Nat.add_lt_add_right (Nat.mod_lt _ (by decide)) _ |>.trans (by decide))

lemma IsName.exists_cons (h : IsName cs) : ∃ b bs, encode cs = b :: bs ∧ ¬isSeparator b.toNat ∧
    ¬isTerminator b.toNat := by
  cases cs with
  | nil => exact absurd rfl h.ne_nil
  | cons c cs =>
    obtain ⟨b, bs, hbs, hb⟩ := (h.legal c (List.mem_cons_self ..)).exists_cons
    refine ⟨b, bs ++ encode cs, ?_, hb⟩
    rw [encode, List.flatMap_cons, hbs]
    rfl

lemma Spells.exists_cons {path : List UInt8} {css : List (List Char)} (h : Spells path css) :
    ∃ b bs, path = b :: bs ∧ ¬isSeparator b.toNat ∧ ¬isTerminator b.toNat := by
  cases h with
  | last hname =>
    obtain ⟨b, bs, hbs, hb⟩ := hname.exists_cons
    exact ⟨b, _, by rw [hbs, List.cons_append], hb⟩
  | cons hname =>
    obtain ⟨b, bs, hbs, hb⟩ := hname.exists_cons
    exact ⟨b, _, by rw [hbs, List.cons_append], hb⟩

lemma skipSeparators_append {seps : List UInt8} (hseps : Separators seps) (rest : List UInt8) :
    skipSeparators (seps ++ rest) = skipSeparators rest := List.dropWhile_append_of_pos hseps

lemma Spells.skipSeparators_eq {path : List UInt8} {css : List (List Char)} (h : Spells path css) :
    skipSeparators path = path := by
  obtain ⟨b, bs, rfl, hb, -⟩ := h.exists_cons
  exact List.dropWhile_cons_of_neg hb

lemma nextName_separator {sep : UInt8} (hsep : isSeparator sep.toNat) (p : List UInt8) : nextName sep.toNat p =
    (if isTerminator (peek (skipSeparators p)).toNat then nsLast else 0, skipSeparators p) := by
  refine if_neg ?_
  obtain h | h := of_decide_eq_true hsep <;> rw [h] <;> decide

/-- The last name of a path. -/
lemma createName_last (h : IsName cs) {seps : List UInt8} (hseps : Separators seps) (lfnbuf : ℕ → ℕ) :
    ∃ buf, HoldsFrom (nameOf cs) 0 buf ∧ createName (encode cs ++ seps) lfnbuf =
      some ⟨(createSfn (nameOf cs) nsLast).1, (createSfn (nameOf cs) nsLast).2, buf, []⟩ := by
  cases seps with
  | nil => exact exists_createName h takeName_nil lfnbuf
  | cons sep seps =>
    obtain ⟨hsep, hseps⟩ := List.forall_mem_cons.mp hseps
    have hname := exists_createName h (takeName_separator hsep seps) lfnbuf
    have hskip := skipSeparators_append hseps []
    rw [List.append_nil] at hskip
    rwa [nextName_separator hsep, hskip] at hname

/-- A name that is not the last one. -/
lemma createName_cons (h : IsName cs) {sep : UInt8} (hsep : isSeparator sep.toNat) {seps : List UInt8}
    (hseps : Separators seps) {css : List (List Char)} (hrest : Spells rest css) (lfnbuf : ℕ → ℕ) :
    ∃ buf, HoldsFrom (nameOf cs) 0 buf ∧ createName (encode cs ++ sep :: (seps ++ rest)) lfnbuf =
      some ⟨(createSfn (nameOf cs) 0).1, (createSfn (nameOf cs) 0).2, buf, rest⟩ := by
  have hname := exists_createName h (takeName_separator hsep (seps ++ rest)) lfnbuf
  rw [nextName_separator hsep, skipSeparators_append hseps, hrest.skipSeparators_eq] at hname
  obtain ⟨b, bs, rfl, -, hb⟩ := hrest.exists_cons
  rwa [peek, List.headD_cons, if_neg hb] at hname

end PiKachulm.Fs

import PiKachulm.Libk.StringView

/-!
# Comparing string views

The other operations of `libk::StringView`: the order, prefixes, suffixes and occurrences. All of them
are built on `strncmp`, which takes two strings for the same as soon as both have a NUL at the same
place, and which does not know where a view ends.
-/

namespace PiKachulm.Libk

open Core

namespace StringView

variable (mem : ℕ → Option UInt8)

def startsWith (v substring : StringView) : Option Bool :=
  if substring.length > v.length then some false
  else (strncmp mem v.data substring.data substring.length).map fun cmp => decide (cmp = 0)

def endsWith (v substring : StringView) : Option Bool :=
  if substring.length > v.length then some false
  else (strncmp mem (v.data + (v.length - substring.length)) substring.data substring.length).map
    fun cmp => decide (cmp = 0)

/-- The loop of `find`, over `n` positions from `pos` on. -/
def findFrom (v needle : StringView) : ℕ → ℕ → Option (Option ℕ)
  | 0, _       => some none
  | n + 1, pos => do
    let c ← mem (v.data + pos)
    let d ← mem needle.data
    if c = d then do
      let cmp ← strncmp mem (v.data + pos) needle.data needle.length
      if cmp = 0 then some (some pos) else findFrom v needle n (pos + 1)
    else findFrom v needle n (pos + 1)

/-- `npos` is `none`. -/
def find (v needle : StringView) (pos : ℕ) : Option (Option ℕ) :=
  if needle.length = 0 then some none else findFrom mem v needle (v.length - pos) pos

protected def compare (v rhs : StringView) : Option ℤ := do
  let cmp ← strncmp mem v.data rhs.data (min v.length rhs.length)
  if cmp < 0 then some cmp
  else if cmp > 0 then some cmp
  else if v.length < rhs.length then some (-1)
  else if v.length > rhs.length then some 1
  else some 0

/-- `operator<=>`. -/
def order (lhs rhs : StringView) : Option Ordering := do
  let cmp ← StringView.compare mem lhs rhs
  return if cmp < 0 then .lt else if cmp > 0 then .gt else .eq

end StringView

/-! ### Where the comparison stops -/

/-- Both go on alike up to a NUL that each has at the same place. -/
def MeetNul (s t : List UInt8) : Prop := ∃ u, u ++ [0] <+: s ∧ u ++ [0] <+: t

variable {mem : ℕ → Option UInt8} {a b n : ℕ} {s t u : List UInt8} {c d : UInt8}

lemma strncmp_succ (hs : mem a = some c) (ht : mem b = some d) : strncmp mem a b (n + 1) =
    if c ≠ 0 ∧ c = d then strncmp mem (a + 1) (b + 1) n else some ((c.toNat : ℤ) - d.toNat) := by
  simp [strncmp, hs, ht]

/-- A common NUL hides everything after it. -/
lemma strncmp_of_meetNul (h : MeetNul s t) (hs : Reads mem a s) (ht : Reads mem b t) :
    strncmp mem a b n = some 0 := by
  obtain ⟨u, ⟨s, rfl⟩, t, rfl⟩ := h
  replace hs := (reads_append.mp hs).1
  replace ht := (reads_append.mp ht).1
  clear s t
  induction u generalizing a b n with
  | nil =>
    cases n with
    | zero => rfl
    | succ n => exact strncmp_succ (reads_cons.mp hs).1 (reads_cons.mp ht).1
  | cons c u ih =>
    obtain ⟨hc, hs'⟩ := reads_cons.mp hs
    obtain ⟨hd, ht'⟩ := reads_cons.mp ht
    cases n with
    | zero => rfl
    | succ n =>
      rw [strncmp_succ hc hd]
      split
      · exact ih hs' ht'
      · rw [Int.sub_self]

lemma MeetNul.cons (h : MeetNul s t) : MeetNul (c :: s) (c :: t) := by
  obtain ⟨u, hs, ht⟩ := h
  exact ⟨c :: u, List.cons_prefix_cons.mpr ⟨rfl, hs⟩, List.cons_prefix_cons.mpr ⟨rfl, ht⟩⟩

lemma compare_sub_toNat (c d : UInt8) : compare ((c.toNat : ℤ) - d.toNat) 0 = compare c d := by
  have hlt : (c.toNat : ℤ) - d.toNat < 0 ↔ c.toNat < d.toNat := by omega
  simp only [compare, compareOfLessAndEq, UInt8.lt_iff_toNat_lt, ← UInt8.toNat_inj, hlt,
    Int.sub_eq_zero, Int.ofNat_inj]

/-- Strings of one length are compared by their bytes, unless a common NUL comes first. -/
lemma strncmp_spec (hs : Reads mem a s) (ht : Reads mem b t) (hlength : s.length = t.length) :
    ∃ cmp, strncmp mem a b s.length = some cmp ∧ (¬MeetNul s t → compare cmp 0 = compare s t) := by
  induction s generalizing a b t with
  | nil =>
    obtain rfl : t = [] := List.length_eq_zero_iff.mp hlength.symm
    exact ⟨0, rfl, fun _ => rfl⟩
  | cons c s ih =>
    cases t with
    | nil => cases hlength
    | cons d t =>
      obtain ⟨hc, hs'⟩ := reads_cons.mp hs
      obtain ⟨hd, ht'⟩ := reads_cons.mp ht
      rw [List.length_cons, strncmp_succ hc hd, List.compare_cons_cons]
      split
      next h =>
        obtain ⟨-, rfl⟩ := h
        obtain ⟨cmp, hcmp, hspec⟩ := ih hs' ht' (Nat.succ.inj hlength)
        refine ⟨cmp, hcmp, fun hmeet => ?_⟩
        rw [hspec fun h => hmeet h.cons, Std.ReflOrd.compare_self]
        rfl
      next h =>
        refine ⟨_, rfl, fun hmeet => ?_⟩
        have hne : c ≠ d := by
          rintro rfl
          have hzero : c = 0 := by
            by_contra hne
            exact h ⟨hne, rfl⟩
          subst hzero
          exact hmeet ⟨[], ⟨s, rfl⟩, t, rfl⟩
        have hcmp : compare c d ≠ .eq := fun heq => hne (Std.LawfulEqOrd.eq_of_compare heq)
        rw [compare_sub_toNat]
        cases h : compare c d with
        | lt => rfl
        | gt => rfl
        | eq => exact absurd h hcmp

/-- A difference stays when more is compared. -/
lemma strncmp_of_ne_zero {cmp : ℤ} (h : strncmp mem a b n = some cmp) (hne : cmp ≠ 0) (k : ℕ) :
    strncmp mem a b (n + k) = some cmp := by
  induction n generalizing a b with
  | zero => exact absurd (Option.some.inj h).symm hne
  | succ n ih =>
    rw [Nat.add_right_comm, strncmp]
    rw [strncmp] at h
    cases hc : mem a with
    | none => simp [hc] at h
    | some c =>
      cases hd : mem b with
      | none => simp [hc, hd] at h
      | some d =>
        simp only [hc, hd, Option.bind_eq_bind, Option.bind_some] at h ⊢
        split
        next heq => exact ih (by rwa [if_pos heq] at h)
        next heq => rwa [if_neg heq] at h

lemma eq_zero_iff_of_compare {cmp : ℤ} (h : compare cmp 0 = compare s t) : cmp = 0 ↔ s = t := by
  rw [← Std.LawfulEqOrd.compare_eq_iff_eq (a := s), ← h, Std.LawfulEqOrd.compare_eq_iff_eq]

/-- Strings of one length are the same when `strncmp` gives zero, unless a common NUL comes first. -/
lemma strncmp_eq_zero_iff (hs : Reads mem a s) (ht : Reads mem b t) (hlength : s.length = t.length)
    (hmeet : MeetNul s t → s = t) :
    (strncmp mem a b s.length).map (fun cmp => decide (cmp = 0)) = some (decide (s = t)) := by
  by_cases h : MeetNul s t
  · rw [strncmp_of_meetNul h hs ht, decide_eq_true (hmeet h)]
    rfl
  · obtain ⟨cmp, hcmp, hspec⟩ := strncmp_spec hs ht hlength
    rw [hcmp, Option.map_some, decide_eq_decide.mpr (eq_zero_iff_of_compare (hspec h))]

lemma compare_take (s t : List UInt8) (n : ℕ) (hn : n = min s.length t.length) :
    compare s t = (compare (s.take n) (t.take n)).then (compare s.length t.length) := by
  subst hn
  induction s generalizing t with
  | nil =>
    cases t with
    | nil => rfl
    | cons d t =>
      have hlt : compare ([] : List UInt8).length (d :: t).length = .lt :=
        Nat.compare_eq_lt.mpr (Nat.zero_lt_succ _)
      rw [List.compare_nil_cons, hlt]
      rfl
  | cons c s ih =>
    cases t with
    | nil =>
      have hgt : compare (c :: s).length ([] : List UInt8).length = .gt :=
        Nat.compare_eq_gt.mpr (Nat.zero_lt_succ _)
      rw [List.compare_cons_nil, hgt]
      rfl
    | cons d t =>
      rw [List.length_cons, List.length_cons, Nat.succ_min_succ, List.take_succ_cons,
        List.take_succ_cons, List.compare_cons_cons, List.compare_cons_cons, ih, Ordering.then_assoc]
      congr 2
      simp [compare, compareOfLessAndEq]

lemma MeetNul.mono {s' t' : List UInt8} (h : MeetNul s t) (hs : s <+: s') (ht : t <+: t') :
    MeetNul s' t' := by
  obtain ⟨u, hu₁, hu₂⟩ := h
  exact ⟨u, hu₁.trans hs, hu₂.trans ht⟩

namespace StringView

variable {v w : StringView} {i pos : ℕ} {r : Option ℕ}

/-! ### Prefixes, suffixes and the order -/

lemma Shows.take (hv : v.Shows mem s) (n : ℕ) : Reads mem v.data (s.take n) := by
  have h := hv.reads
  rw [← List.take_append_drop n s] at h
  exact (reads_append.mp h).1

lemma Shows.drop (hv : v.Shows mem s) (hi : i ≤ s.length) : Reads mem (v.data + i) (s.drop i) := by
  have h := hv.reads
  rw [← List.take_append_drop i s] at h
  have hdrop := (reads_append.mp h).2
  rwa [List.length_take, Nat.min_eq_left hi] at hdrop

lemma eq_spec (hv : v.Shows mem s) (hw : w.Shows mem t)
    (h : s.length = t.length → MeetNul s t → s = t) : eq mem v w = some (decide (s = t)) := by
  rw [eq, hv.length, hw.length]
  by_cases hlength : s.length = t.length
  · rw [if_neg (not_not_intro hlength)]
    exact strncmp_eq_zero_iff hv.reads hw.reads hlength (h hlength)
  · rw [if_pos hlength, decide_eq_false fun heq => hlength (congrArg List.length heq)]

lemma startsWith_spec (hv : v.Shows mem s) (hw : w.Shows mem t)
    (h : t.length ≤ s.length → MeetNul s t → t <+: s) :
    startsWith mem v w = some (decide (t <+: s)) := by
  rw [startsWith, hv.length, hw.length]
  by_cases hle : t.length ≤ s.length
  · have hlength : (s.take t.length).length = t.length := List.length_take_of_le hle
    have hprefix : s.take t.length = t ↔ t <+: s := by rw [eq_comm, List.prefix_iff_eq_take]
    have hcmp := strncmp_eq_zero_iff (hv.take t.length) hw.reads hlength fun hmeet =>
      hprefix.mpr (h hle (hmeet.mono (List.take_prefix _ _) (List.prefix_refl t)))
    rw [hlength] at hcmp
    rw [if_neg (Nat.not_lt.mpr hle), hcmp, decide_eq_decide.mpr hprefix]
  · rw [if_pos (Nat.not_le.mp hle), decide_eq_false fun hprefix => hle hprefix.length_le]

lemma endsWith_spec (hv : v.Shows mem s) (hw : w.Shows mem t)
    (h : t.length ≤ s.length → MeetNul (s.drop (s.length - t.length)) t → t <:+ s) :
    endsWith mem v w = some (decide (t <:+ s)) := by
  rw [endsWith, hv.length, hw.length]
  by_cases hle : t.length ≤ s.length
  · have hlength : (s.drop (s.length - t.length)).length = t.length := by
      rw [List.length_drop]
      omega
    have hsuffix : s.drop (s.length - t.length) = t ↔ t <:+ s := by
      rw [eq_comm, List.suffix_iff_eq_drop]
    have hcmp := strncmp_eq_zero_iff (hv.drop (Nat.sub_le _ _)) hw.reads hlength fun hmeet =>
      hsuffix.mpr (h hle hmeet)
    rw [hlength] at hcmp
    rw [if_neg (Nat.not_lt.mpr hle), hcmp, decide_eq_decide.mpr hsuffix]
  · rw [if_pos (Nat.not_le.mp hle), decide_eq_false fun hsuffix => hle hsuffix.length_le]

/-- What `compare` makes of the result of `strncmp`. -/
lemma compare_of_strncmp {cmp : ℤ} (hv : v.length = s.length) (hw : w.length = t.length)
    (h : strncmp mem v.data w.data (min s.length t.length) = some cmp) :
    ∃ c, StringView.compare mem v w = some c ∧
      compare c 0 = (compare cmp 0).then (compare s.length t.length) := by
  rw [StringView.compare, hv, hw, h, Option.bind_eq_bind, Option.bind_some]
  by_cases hneg : cmp < 0
  · refine ⟨cmp, if_pos hneg, ?_⟩
    rw [Int.compare_eq_lt.mpr hneg]
    rfl
  · rw [if_neg hneg]
    by_cases hpos : cmp > 0
    · refine ⟨cmp, if_pos hpos, ?_⟩
      rw [Int.compare_eq_gt.mpr hpos]
      rfl
    · have hzero : cmp = 0 := Int.le_antisymm (Int.not_lt.mp hpos) (Int.not_lt.mp hneg)
      subst hzero
      rw [if_neg hpos]
      by_cases hlt : s.length < t.length
      · refine ⟨-1, if_pos hlt, ?_⟩
        rw [Nat.compare_eq_lt.mpr hlt]
        rfl
      · rw [if_neg hlt]
        by_cases hgt : s.length > t.length
        · refine ⟨1, if_pos hgt, ?_⟩
          rw [Nat.compare_eq_gt.mpr hgt]
          rfl
        · refine ⟨0, if_neg hgt, ?_⟩
          rw [Nat.compare_eq_eq.mpr (Nat.le_antisymm (Nat.not_lt.mp hgt) (Nat.not_lt.mp hlt))]
          rfl

lemma compare_spec (hv : v.Shows mem s) (hw : w.Shows mem t)
    (h : MeetNul s t → compare s.length t.length = compare s t) :
    ∃ c, StringView.compare mem v w = some c ∧ compare c 0 = compare s t := by
  by_cases hmeet : MeetNul s t
  · obtain ⟨c, hc, heq⟩ := compare_of_strncmp hv.length hw.length
      (strncmp_of_meetNul (n := min s.length t.length) hmeet hv.reads hw.reads)
    exact ⟨c, hc, heq.trans (h hmeet)⟩
  · have hs : (s.take (min s.length t.length)).length = min s.length t.length :=
      List.length_take_of_le (Nat.min_le_left _ _)
    have ht : (t.take (min s.length t.length)).length = min s.length t.length :=
      List.length_take_of_le (Nat.min_le_right _ _)
    obtain ⟨cmp, hcmp, hspec⟩ := strncmp_spec (hv.take _) (hw.take _) (hs.trans ht.symm)
    rw [hs] at hcmp
    obtain ⟨c, hc, heq⟩ := compare_of_strncmp hv.length hw.length hcmp
    refine ⟨c, hc, ?_⟩
    rw [heq, hspec fun h => hmeet (h.mono (List.take_prefix _ _) (List.take_prefix _ _)),
      ← compare_take s t _ rfl]

lemma order_of_compare {c : ℤ} (h : StringView.compare mem v w = some c) :
    order mem v w = some (compare c 0) := by
  rw [order, h]
  rcases Int.lt_trichotomy c 0 with hlt | rfl | hgt
  · simp [hlt, Int.compare_eq_lt.mpr hlt]
  · rfl
  · simp [hgt, Int.not_lt.mpr (Int.le_of_lt hgt), Int.compare_eq_gt.mpr hgt]

/-! ### Occurrences -/

/-- The bytes `t` occur in `s` at a position, entirely inside. -/
def OccursAt (s t : List UInt8) (i : ℕ) : Prop := i ≤ s.length ∧ t <+: s.drop i

/-- The first occurrence from `pos` on, `none` when there is none. -/
def FirstOccurrence (s t : List UInt8) (pos : ℕ) : Option ℕ → Prop
  | some i => pos ≤ i ∧ OccursAt s t i ∧ ∀ j, pos ≤ j → j < i → ¬OccursAt s t j
  | none   => ∀ j, pos ≤ j → ¬OccursAt s t j

/-- What is left of the view looks like the needle: up to a common NUL, or up to the end of the view. -/
def Misleads (l t : List UInt8) : Prop := MeetNul l t ∨ l <+: t

/-- The test of the first byte saves a call only. -/
lemma findFrom_succ (hw : w.length ≠ 0) : findFrom mem v w (n + 1) pos =
    (strncmp mem (v.data + pos) w.data w.length).bind fun cmp =>
      if cmp = 0 then some (some pos) else findFrom mem v w n (pos + 1) := by
  obtain ⟨k, hk⟩ := Nat.exists_eq_succ_of_ne_zero hw
  rw [findFrom, hk]
  cases hc : mem (v.data + pos) with
  | none => simp [strncmp, hc]
  | some c =>
    cases hd : mem w.data with
    | none => simp [strncmp, hc, hd]
    | some d =>
      simp only [Option.bind_eq_bind, Option.bind_some]
      by_cases heq : c = d
      · rw [if_pos heq]
      · have hne : (c.toNat : ℤ) - d.toNat ≠ 0 := fun hzero =>
          heq (UInt8.toNat_inj.mp (Int.ofNat_inj.mp (Int.sub_eq_zero.mp hzero)))
        rw [if_neg heq, strncmp_succ hc hd, if_neg fun h => heq h.2, Option.bind_some, if_neg hne]

/-- Where nothing misleads it, `strncmp` gives zero at the occurrences of the needle only. -/
lemma strncmp_at (hv : v.Shows mem s) (hw : w.Shows mem t) (hi : i ≤ s.length)
    (h : Misleads (s.drop i) t → t <+: s.drop i) :
    ∃ cmp, strncmp mem (v.data + i) w.data t.length = some cmp ∧ (cmp = 0 ↔ OccursAt s t i) := by
  have hiff : OccursAt s t i ↔ t <+: s.drop i := and_iff_right hi
  rw [hiff]
  by_cases hle : t.length ≤ (s.drop i).length
  · have hlength : ((s.drop i).take t.length).length = t.length := List.length_take_of_le hle
    have hreads : Reads mem (v.data + i) ((s.drop i).take t.length) := by
      have hdrop := hv.drop hi
      rw [← List.take_append_drop t.length (s.drop i)] at hdrop
      exact (reads_append.mp hdrop).1
    have hprefix : (s.drop i).take t.length = t ↔ t <+: s.drop i := by
      rw [eq_comm, List.prefix_iff_eq_take]
    have hcmp := strncmp_eq_zero_iff hreads hw.reads hlength fun hmeet =>
      hprefix.mpr (h (.inl (hmeet.mono (List.take_prefix _ _) (List.prefix_refl t))))
    rw [hlength, Option.map_eq_some_iff] at hcmp
    obtain ⟨cmp, hcmp, heq⟩ := hcmp
    exact ⟨cmp, hcmp, (decide_eq_decide.mp heq).trans hprefix⟩
  · have hnot : ¬t <+: s.drop i := fun hprefix => hle hprefix.length_le
    have hlt : (s.drop i).length ≤ t.length := Nat.le_of_not_le hle
    have hlength : (t.take (s.drop i).length).length = (s.drop i).length := List.length_take_of_le hlt
    obtain ⟨cmp, hcmp, hspec⟩ := strncmp_spec (hv.drop hi) (hw.take _) hlength.symm
    have hmeet : ¬MeetNul (s.drop i) (t.take (s.drop i).length) := fun hmeet =>
      hnot (h (.inl (hmeet.mono (List.prefix_refl _) (List.take_prefix _ _))))
    have hne : cmp ≠ 0 := by
      rw [ne_eq, eq_zero_iff_of_compare (hspec hmeet), ← List.prefix_iff_eq_take]
      exact fun hprefix => hnot (h (.inr hprefix))
    have hmore := strncmp_of_ne_zero hcmp hne (t.length - (s.drop i).length)
    rw [Nat.add_sub_cancel' hlt] at hmore
    exact ⟨cmp, hmore, iff_of_false hne hnot⟩

/-- Beyond the end of a list a nonempty needle does not occur. -/
lemma not_occursAt (ht : t ≠ []) (hi : s.length ≤ i) : ¬OccursAt s t i := by
  rintro ⟨-, hprefix⟩
  rw [List.drop_of_length_le hi, List.prefix_nil] at hprefix
  exact ht hprefix

lemma findFrom_spec (hv : v.Shows mem s) (hw : w.Shows mem t) (ht : t ≠ []) (hn : n = s.length - pos)
    (h : ∀ i, pos ≤ i → i < s.length → (∀ j, pos ≤ j → j ≤ i → ¬OccursAt s t j) →
      ¬Misleads (s.drop i) t) :
    ∃ r, findFrom mem v w n pos = some r ∧ FirstOccurrence s t pos r := by
  have hlength : w.length ≠ 0 := fun hzero =>
    ht (List.length_eq_zero_iff.mp (hw.length.symm.trans hzero))
  induction n generalizing pos with
  | zero => exact ⟨none, rfl, fun j hj => not_occursAt ht (by omega)⟩
  | succ n ih =>
    have hpos : pos < s.length := by omega
    have hlocal : Misleads (s.drop pos) t → t <+: s.drop pos := by
      intro hmisleads
      by_contra hnot
      refine h pos (Nat.le_refl _) hpos (fun j hle hge hoccurs => ?_) hmisleads
      obtain rfl := Nat.le_antisymm hle hge
      exact hnot hoccurs.2
    obtain ⟨cmp, hcmp, hiff⟩ := strncmp_at hv hw (Nat.le_of_lt hpos) hlocal
    rw [findFrom_succ hlength, hw.length, hcmp, Option.bind_some]
    by_cases hzero : cmp = 0
    · rw [if_pos hzero]
      exact ⟨some pos, rfl, Nat.le_refl _, hiff.mp hzero, fun j hle hlt => absurd hle (Nat.not_le.mpr hlt)⟩
    · have hnot : ¬OccursAt s t pos := fun hoccurs => hzero (hiff.mpr hoccurs)
      -- what is before `i` is at `pos` or after it
      have hsplit : ∀ j, pos ≤ j → (pos + 1 ≤ j → ¬OccursAt s t j) → ¬OccursAt s t j := by
        intro j hj hrest
        rcases Nat.eq_or_lt_of_le hj with rfl | hlt
        · exact hnot
        · exact hrest hlt
      obtain ⟨r, hr, hfirst⟩ := ih (by omega) fun i hi hlt hnone =>
        h i (Nat.le_of_succ_le hi) hlt fun j hj hji => hsplit j hj fun hj' => hnone j hj' hji
      rw [if_neg hzero]
      refine ⟨r, hr, ?_⟩
      cases r with
      | none => exact fun j hj => hsplit j hj (hfirst j)
      | some i =>
        obtain ⟨hle, hoccurs, hnone⟩ := hfirst
        exact ⟨Nat.le_of_succ_le hle, hoccurs, fun j hj hji => hsplit j hj fun hj' => hnone j hj' hji⟩

/-- The search does not go past a position where `strncmp` gives zero. -/
lemma le_of_findFrom (hw : w.length ≠ 0) (hpos : pos ≤ i) (hi : i < pos + n)
    (hzero : strncmp mem (v.data + i) w.data w.length = some 0)
    (h : findFrom mem v w n pos = some r) : ∃ j, r = some j ∧ pos ≤ j ∧ j ≤ i := by
  induction n generalizing pos with
  | zero => exact absurd hi (Nat.not_lt.mpr hpos)
  | succ n ih =>
    rw [findFrom_succ hw, Option.bind_eq_some_iff] at h
    obtain ⟨cmp, hcmp, h⟩ := h
    split at h
    · cases h
      exact ⟨pos, rfl, Nat.le_refl _, hpos⟩
    next hne =>
      have hlt : pos < i := by
        refine Nat.lt_of_le_of_ne hpos ?_
        rintro rfl
        exact hne (Option.some.inj (hcmp.symm.trans hzero))
      obtain ⟨j, hj, hle, hji⟩ := ih hlt (by omega) h
      exact ⟨j, hj, Nat.le_of_succ_le hle, hji⟩

/-! ### Views and the bytes they show -/

/-- The operations on two views mean what they say about the bytes. -/
structure Agrees (mem : ℕ → Option UInt8) (v w : StringView) (s t : List UInt8) (pos : ℕ) : Prop where
  eq : eq mem v w = some (decide (s = t))
  compare : ∃ c, StringView.compare mem v w = some c ∧ Ord.compare c 0 = Ord.compare s t
  order : order mem v w = some (Ord.compare s t)
  startsWith : startsWith mem v w = some (decide (t <+: s))
  endsWith : endsWith mem v w = some (decide (t <:+ s))
  find : ∃ r, find mem v w pos = some r ∧ FirstOccurrence s t pos r
  eq_iff : StringView.eq mem v w = some true ↔ StringView.order mem v w = some .eq

/-- Nothing is hidden by a common NUL, and the search comes to the first occurrence before it comes to
anything that misleads it. An empty needle is not searched for. -/
structure Clear (s t : List UInt8) (pos : ℕ) : Prop where
  compare : MeetNul s t → Ord.compare s.length t.length = Ord.compare s t
  startsWith : t.length ≤ s.length → MeetNul s t → t <+: s
  endsWith : t.length ≤ s.length → MeetNul (s.drop (s.length - t.length)) t → t <:+ s
  empty : t = [] → s.length < pos
  find : ∀ i, pos ≤ i → i < s.length → (∀ j, pos ≤ j → j ≤ i → ¬OccursAt s t j) →
    ¬Misleads (s.drop i) t

lemma Clear.eq (h : Clear s t pos) (hlength : s.length = t.length) (hmeet : MeetNul s t) : s = t := by
  have hcmp := h.compare hmeet
  rw [hlength, Std.ReflOrd.compare_self, eq_comm] at hcmp
  exact Std.LawfulEqOrd.eq_of_compare hcmp

lemma find_spec (h : Clear s t pos) (hv : v.Shows mem s) (hw : w.Shows mem t) :
    ∃ r, find mem v w pos = some r ∧ FirstOccurrence s t pos r := by
  rw [find, hw.length, hv.length]
  by_cases ht : t = []
  · subst ht
    refine ⟨none, if_pos rfl, fun j hj hoccurs => ?_⟩
    exact absurd (hj.trans hoccurs.1) (Nat.not_le.mpr (h.empty rfl))
  · rw [if_neg fun hzero => ht (List.length_eq_zero_iff.mp hzero)]
    exact findFrom_spec hv hw ht rfl h.find

lemma Clear.agrees (h : Clear s t pos) (hv : v.Shows mem s) (hw : w.Shows mem t) :
    Agrees mem v w s t pos := by
  have heq := eq_spec hv hw h.eq
  obtain ⟨c, hc, hcmp⟩ := compare_spec hv hw h.compare
  have horder : order mem v w = some (Ord.compare s t) := by rw [order_of_compare hc, hcmp]
  refine ⟨heq, ⟨c, hc, hcmp⟩, horder, startsWith_spec hv hw h.startsWith, endsWith_spec hv hw h.endsWith,
    find_spec h hv hw, ?_⟩
  rw [heq, horder, Option.some.injEq, Option.some.injEq, decide_eq_true_iff,
    Std.LawfulEqOrd.compare_eq_iff_eq]

/-- A memory with one view after another, and bytes of choice between them. -/
lemma shows_segment (s u t : List UInt8) :
    Shows (segment 0 (s ++ u ++ t)) ⟨0, s.length⟩ s ∧
      Shows (segment 0 (s ++ u ++ t)) ⟨(s ++ u).length, t.length⟩ t ∧
      Reads (segment 0 (s ++ u ++ t)) 0 (s ++ u) := by
  have h := reads_segment_drop (s ++ u ++ t) 0 0
  rw [List.drop_zero] at h
  obtain ⟨hsu, ht⟩ := reads_append.mp h
  rw [Nat.add_zero, Nat.zero_add] at ht
  exact ⟨⟨(reads_append.mp hsu).1, rfl⟩, ⟨ht, rfl⟩, hsu⟩

lemma strncmp_self (hs : Reads mem a s) (ht : Reads mem b s) : strncmp mem a b s.length = some 0 := by
  have h := strncmp_eq_zero_iff hs ht rfl fun _ => rfl
  rw [decide_eq_true rfl, Option.map_eq_some_iff] at h
  obtain ⟨cmp, hcmp, hzero⟩ := h
  rw [hcmp, of_decide_eq_true hzero]

lemma Clear.of_agrees
    (h : ∀ mem v w, Shows mem v s → Shows mem w t → Agrees mem v w s t pos) : Clear s t pos := by
  have hagrees : ∀ u, Agrees (segment 0 (s ++ u ++ t)) ⟨0, s.length⟩ ⟨(s ++ u).length, t.length⟩ s t pos :=
    fun u => h _ _ _ (shows_segment s u t).1 (shows_segment s u t).2.1
  obtain ⟨hv, hw, -⟩ := shows_segment s [] t
  refine ⟨fun hmeet => ?_, fun hle hmeet => ?_, fun hle hmeet => ?_, fun hempty => ?_,
    fun i hi hlt hnone hmisleads => ?_⟩
  · obtain ⟨c, hc, hcmp⟩ := (hagrees []).compare
    obtain ⟨c', hc', hcmp'⟩ := compare_of_strncmp (s := s) (t := t) hv.length hw.length
      (strncmp_of_meetNul (n := min s.length t.length) hmeet hv.reads hw.reads)
    obtain rfl := Option.some.inj (hc'.symm.trans hc)
    exact hcmp'.symm.trans hcmp
  · have hstarts := (hagrees []).startsWith
    rw [StringView.startsWith, if_neg (Nat.not_lt.mpr hle),
      strncmp_of_meetNul hmeet hv.reads hw.reads] at hstarts
    exact of_decide_eq_true (Option.some.inj hstarts).symm
  · have hends := (hagrees []).endsWith
    rw [StringView.endsWith, if_neg (Nat.not_lt.mpr hle),
      strncmp_of_meetNul hmeet (hv.drop (Nat.sub_le _ _)) hw.reads] at hends
    exact of_decide_eq_true (Option.some.inj hends).symm
  · obtain ⟨r, hr, hfirst⟩ := (hagrees []).find
    subst hempty
    obtain rfl := Option.some.inj hr
    by_contra hge
    exact hfirst pos (Nat.le_refl _) ⟨Nat.not_lt.mp hge, List.nil_prefix⟩
  · -- the bytes after the view are those of the needle that are missing
    let u := t.drop (s.length - i)
    obtain ⟨hv, hw, hsu⟩ := shows_segment s u t
    obtain ⟨r, hr, hfirst⟩ := (hagrees u).find
    generalize segment 0 (s ++ u ++ t) = mem at hv hw hsu hr
    have hzero : strncmp mem (0 + i) (s ++ u).length t.length = some 0 := by
      rcases hmisleads with hmeet | hprefix
      · exact strncmp_of_meetNul hmeet (hv.drop (Nat.le_of_lt hlt)) hw.reads
      · have hdrop : (s ++ u).drop i = t := by
          rw [List.drop_append_of_le_length (Nat.le_of_lt hlt), List.prefix_iff_eq_take.mp hprefix,
            List.length_drop, List.take_append_drop]
        have hsplit := hsu
        rw [← List.take_append_drop i (s ++ u), hdrop] at hsplit
        have hi : ((s ++ u).take i).length = i := by
          rw [List.length_take, List.length_append]
          omega
        have ht := (reads_append.mp hsplit).2
        rw [hi] at ht
        exact strncmp_self ht hw.reads
    have ht : t ≠ [] := by
      rintro rfl
      exact hnone i hi (Nat.le_refl _) ⟨Nat.le_of_lt hlt, List.nil_prefix⟩
    have hlength : t.length ≠ 0 := fun h => ht (List.length_eq_zero_iff.mp h)
    rw [StringView.find, if_neg hlength] at hr
    obtain ⟨j, rfl, hj, hji⟩ := le_of_findFrom hlength hi (by dsimp only; omega) hzero hr
    exact hnone j hj hji hfirst.2.1

/-- The operations mean what they say, whatever is around the views, exactly on the bytes that neither
hide anything behind a common NUL nor mislead the search. -/
theorem agrees_iff_clear (s t : List UInt8) (pos : ℕ) :
    (∀ mem v w, Shows mem v s → Shows mem w t → Agrees mem v w s t pos) ↔ Clear s t pos :=
  ⟨Clear.of_agrees, fun h _ _ _ hv hw => h.agrees hv hw⟩

/-- Two views that differ after a NUL only are taken for equal. -/
theorem not_agrees_nul : ¬∀ s t pos mem v w, Shows mem v s → Shows mem w t → Agrees mem v w s t pos := by
  intro h
  obtain ⟨hv, hw, -⟩ := shows_segment [0x61, 0, 0x62] [] [0x61, 0, 0x63]
  exact absurd (h _ _ 0 _ _ _ hv hw).eq (by decide)

end StringView

end PiKachulm.Libk

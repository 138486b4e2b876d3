import PiKachulm.Wm.Stack

/-!
# The algebra of rectangles

`contains`, `intersection_with` and `union_with` take a rectangle for the set of its pixels.
`intersects` takes the right and bottom edges for a part of it: two rectangles that only touch
intersect. It also exchanges the ends of an interval whose length wraps around.
-/

namespace PiKachulm.Wm

namespace Rect

/-- The ends of an interval, as `intersects` puts them in order. -/
def ends (a b : Int32) : Int32 × Int32 := if b - a + 1 < 0 then (b, a) else (a, b)

def intersects (r r' : Rect) : Bool :=
  if r.isNull || r'.isNull then false
  else
    let (l1, r1) := ends r.x1 r.x2
    let (l2, r2) := ends r'.x1 r'.x2
    if l1 > r2 || l2 > r1 then false
    else
      let (t1, b1) := ends r.y1 r.y2
      let (t2, b2) := ends r'.y1 r'.y2
      if t1 > b2 || t2 > b1 then false else true

/-- The operations on two rectangles agree with those on the sets of their pixels. -/
structure Consistent (a b : Rect) : Prop where
  intersects : a.intersects b = true ↔ (a.region ∩ b.region).Nonempty
  isNull : a.intersects b = true ↔ (a.intersectionWith b).isNull = false
  region : (a.intersectionWith b).region = a.region ∩ b.region
  intersects_comm : a.intersects b = b.intersects a
  intersectionWith_comm : a.intersectionWith b = b.intersectionWith a
  unionWith_left : a.isNull = true → a.unionWith b = b
  unionWith_right : a.isNull = false → b.isNull = true → a.unionWith b = a
  covers : a.region ∪ b.region ⊆ (a.unionWith b).region
  least : a.isNull = false → b.isNull = false → ∀ c : Rect, a.region ∪ b.region ⊆ c.region →
    (a.unionWith b).region ⊆ c.region

/-- There is a gap between the rectangles. -/
def Apart (a b : Rect) : Prop :=
  (a.x2 < b.x1 ∨ b.x2 < a.x1) ∨ a.y2 < b.y1 ∨ b.y2 < a.y1

/-- The number of the coordinates from `a` to `b`. -/
def span (a b : Int32) : ℤ := b.toInt - a.toInt + 1

/-- One interval is so long that its length wraps around, and the other one does not have all the
coordinates. -/
def Lost (a b c d : Int32) : Prop :=
  (2 ^ 31 ≤ span a b ∧ span a b < 2 ^ 32 ∧ span c d < 2 ^ 32) ∨
    (2 ^ 31 ≤ span c d ∧ span c d < 2 ^ 32 ∧ span a b < 2 ^ 32)

/-- One rectangle is too wide or too high for `intersects`. -/
def TooLong (a b : Rect) : Prop := Lost a.x1 a.x2 b.x1 b.x2 ∨ Lost a.y1 a.y2 b.y1 b.y2

/-! ### Intervals -/

variable {a b c d : Int32}

/-- What the computed length tells of the true one. -/
lemma sub_neg_iff (h : a ≤ b) : b - a + 1 < 0 ↔ 2 ^ 31 ≤ span a b ∧ span a b < 2 ^ 32 := by
  have ha := a.le_toInt
  have hb := b.toInt_lt
  have hspan : (b - a + 1).toInt = (span a b).bmod (2 ^ 32) := by
    rw [Int32.toInt_add, Int32.toInt_sub, span]
    simp
  rw [Int32.le_iff_toInt_le] at h
  rw [Int32.lt_iff_toInt_lt, hspan, Int.bmod_def, Int32.toInt_zero]
  rw [span]
  split_ifs <;> omega

/-- Two intervals that are not empty do not meet, as `intersects` decides it, when there is a gap
between them or one of them is too long. -/
lemma ends_apart (h : a < b) (h' : c < d) :
    ((ends a b).1 > (ends c d).2 ∨ (ends c d).1 > (ends a b).2) ↔ Lost a b c d ∨ b < c ∨ d < a := by
  have hab := sub_neg_iff (Std.le_of_lt h)
  have hcd := sub_neg_iff (Std.le_of_lt h')
  have ha := a.le_toInt
  have hb := b.toInt_lt
  have hc := c.le_toInt
  have hd := d.toInt_lt
  simp only [gt_iff_lt, Int32.lt_iff_toInt_lt] at h h' ⊢
  rw [ends, ends]
  simp only [hab, hcd, Lost, span]
  split_ifs <;> dsimp only <;> omega

/-! ### The operations -/

variable {r r' : Rect}

lemma Normal.lt (h : r.Normal) (hn : r.isNull = false) : r.x1 < r.x2 ∧ r.y1 < r.y2 := by
  have hne : ¬(r.x2 = r.x1 ∨ r.y2 = r.y1) := by
    rw [← isNull_iff, hn]
    exact Bool.false_ne_true
  obtain ⟨hx, hy⟩ := not_or.mp hne
  have hx' := h.x
  have hy' := h.y
  grind

lemma region_nonempty_iff (h : r.Normal) : r.region.Nonempty ↔ r.isNull = false := by
  constructor
  · rintro ⟨p, hp⟩
    by_contra hn
    rw [region_of_isNull (Bool.not_eq_false _ ▸ hn)] at hp
    exact hp
  · intro hn
    obtain ⟨hx, hy⟩ := h.lt hn
    exact ⟨(r.x1, r.y1), (mem_region _).mpr ⟨Std.le_refl _, hx, Std.le_refl _, hy⟩⟩

lemma intersects_iff (h : r.Normal) (h' : r'.Normal) : r.intersects r' = true ↔
    (r.isNull = false ∧ r'.isNull = false) ∧ ¬(TooLong r r' ∨ Apart r r') := by
  rw [intersects]
  by_cases hn : (r.isNull || r'.isNull) = true
  · rw [if_pos hn]
    rw [Bool.or_eq_true] at hn
    simp only [Bool.false_eq_true, false_iff]
    rintro ⟨⟨hr, hr'⟩, -⟩
    rcases hn with hn | hn
    · exact Bool.false_ne_true (hr.symm.trans hn)
    · exact Bool.false_ne_true (hr'.symm.trans hn)
  · rw [if_neg hn]
    simp only [Bool.or_eq_true, not_or, Bool.not_eq_true] at hn
    obtain ⟨hx, hy⟩ := h.lt hn.1
    obtain ⟨hx', hy'⟩ := h'.lt hn.2
    have hmeetx := ends_apart hx hx'
    have hmeety := ends_apart hy hy'
    have hcases : ∀ {a b c d : Prop} [Decidable a] [Decidable b] [Decidable c] [Decidable d],
        ((if (decide a || decide b) = true then false
          else if (decide c || decide d) = true then false else true) = true) ↔
          ¬((a ∨ b) ∨ c ∨ d) := by
      intro a b c d _ _ _ _
      by_cases ha : a <;> by_cases hb : b <;> by_cases hc : c <;> simp [ha, hb, hc]
    rw [hcases, hmeetx, hmeety, or_or_or_comm, ← TooLong, ← Apart]
    exact (and_iff_right hn).symm

/-- The intersection is null when the rectangles have no pixel in common. -/
lemma isNull_intersectionWith_iff (h : r.Normal) (h' : r'.Normal) :
    (r.intersectionWith r').isNull = false ↔ (r.region ∩ r'.region).Nonempty := by
  rw [← region_intersectionWith h h', region_nonempty_iff (normal_intersectionWith r r')]

lemma intersects_comm (r r' : Rect) : r.intersects r' = r'.intersects r := by
  rw [intersects, intersects, Bool.or_comm]
  split_ifs
  · rfl
  · simp only [Bool.or_comm]

private lemma min_max_comm (a b : Int32) : min a b = min b a ∧ max a b = max b a := by
  constructor
  · rw [show min a b = if a ≤ b then a else b from rfl, show min b a = if b ≤ a then b else a from rfl]
    split_ifs <;> grind
  · rw [show max a b = if a ≤ b then b else a from rfl, show max b a = if b ≤ a then a else b from rfl]
    split_ifs <;> grind

lemma intersectionWith_comm (r r' : Rect) : r.intersectionWith r' = r'.intersectionWith r := by
  have hmin := fun a b => (min_max_comm a b).1
  have hmax := fun a b => (min_max_comm a b).2
  rw [intersectionWith, intersectionWith, Bool.or_comm]
  dsimp only
  rw [hmax r.normalize.x1, hmax r.normalize.y1, hmin r.normalize.x2, hmin r.normalize.y2]
  have hswap : ∀ a b c d : Prop, (a ∨ b ∨ c ∨ d) ↔ b ∨ a ∨ d ∨ c := by
    intro a b c d
    rw [or_left_comm, @or_comm c d]
  congr 1
  exact if_congr (hswap _ _ _ _) rfl rfl

/-! ### The union -/

private lemma le_max (a b : Int32) : a ≤ max a b ∧ b ≤ max a b := by
  rw [show max a b = if a ≤ b then b else a from rfl]
  split_ifs <;> grind

lemma normal_unionWith (h : r.Normal) (h' : r'.Normal) :
    (r.unionWith r').Normal := by
  rw [unionWith]
  split_ifs
  · exact h'
  · exact h
  · exact normal_ofCorners _ _ _ _

/-- Two rectangles that are not empty have the union of the outer edges. -/
lemma unionWith_eq (h : r.Normal) (hn : r.isNull = false) (hn' : r'.isNull = false) :
    r.unionWith r' = ⟨min r.x1 r'.x1, min r.y1 r'.y1, max r.x2 r'.x2, max r.y2 r'.y2⟩ := by
  have hx : min r.x1 r'.x1 ≤ max r.x2 r'.x2 :=
    Std.le_trans Std.min_le_left (Std.le_trans h.x (le_max r.x2 r'.x2).1)
  have hy : min r.y1 r'.y1 ≤ max r.y2 r'.y2 :=
    Std.le_trans Std.min_le_left (Std.le_trans h.y (le_max r.y2 r'.y2).1)
  rw [unionWith, if_neg (by simp [hn]), if_neg (by simp [hn']), ofCorners_of_le hx hy]

/-- The union contains both rectangles. -/
lemma region_subset_unionWith (h : r.Normal) : r.region ∪ r'.region ⊆ (r.unionWith r').region := by
  by_cases hn : r.isNull = true
  · rw [unionWith, if_pos hn, region_of_isNull hn, Set.empty_union]
  by_cases hn' : r'.isNull = true
  · rw [unionWith, if_neg hn, if_pos hn', region_of_isNull hn', Set.union_empty]
  rw [unionWith_eq h (Bool.not_eq_true _ ▸ hn) (Bool.not_eq_true _ ▸ hn')]
  have hx := le_max r.x2 r'.x2
  have hy := le_max r.y2 r'.y2
  have hx' : min r.x1 r'.x1 ≤ r.x1 ∧ min r.x1 r'.x1 ≤ r'.x1 := ⟨Std.min_le_left, Std.min_le_right⟩
  have hy' : min r.y1 r'.y1 ≤ r.y1 ∧ min r.y1 r'.y1 ≤ r'.y1 := ⟨Std.min_le_left, Std.min_le_right⟩
  intro p hp
  rw [Set.mem_union, mem_region, mem_region] at hp
  rw [mem_region]
  generalize min r.x1 r'.x1 = x1, max r.x2 r'.x2 = x2, min r.y1 r'.y1 = y1,
    max r.y2 r'.y2 = y2 at *
  grind

/-- A rectangle contains what is between the edges of its parts. -/
lemma Normal.within_of_region_subset (h : r.Normal) (hn : r.isNull = false) (hsub : r.region ⊆ r'.region) :
    r.Within r' := by
  obtain ⟨hx, hy⟩ := h.lt hn
  have hfirst : (r.x1, r.y1) ∈ r.region :=
    (mem_region _).mpr ⟨Std.le_refl _, hx, Std.le_refl _, hy⟩
  have hlast : (r.x2 - 1, r.y2 - 1) ∈ r.region := by
    rw [mem_region]
    grind
  have hfirst' := (mem_region _).mp (hsub hfirst)
  have hlast' := (mem_region _).mp (hsub hlast)
  exact ⟨hfirst'.1, by grind, hfirst'.2.2.1, by grind⟩

/-- Every rectangle that contains both contains the union. -/
lemma unionWith_subset (h : r.Normal) (h' : r'.Normal) (hn : r.isNull = false) (hn' : r'.isNull = false)
    {c : Rect} (hsub : r.region ∪ r'.region ⊆ c.region) : (r.unionWith r').region ⊆ c.region := by
  have hr := h.within_of_region_subset hn (Set.subset_union_left.trans hsub)
  have hr' := h'.within_of_region_subset hn' (Set.subset_union_right.trans hsub)
  rw [unionWith_eq h hn hn']
  refine region_subset_of_within ⟨?_, ?_, ?_, ?_⟩
  · exact Std.le_min_iff.mpr ⟨hr.left, hr'.left⟩
  · exact max_le_iff.mpr ⟨hr.right, hr'.right⟩
  · exact Std.le_min_iff.mpr ⟨hr.top, hr'.top⟩
  · exact max_le_iff.mpr ⟨hr.bottom, hr'.bottom⟩

/-! ### When the operations agree -/

/-- The operations on two rectangles agree with those on their pixels when one of them is null, when
they have a pixel in common and neither is too long, or when there is a gap between them or one of
them is too long and they have no pixel in common. -/
theorem consistent_iff (a b : Rect) (ha : a.Normal) (hb : b.Normal) : Consistent a b ↔
    (a.isNull = true ∨ b.isNull = true) ∨
      (Disjoint a.region b.region ↔ TooLong a b ∨ Apart a b) := by
  rw [Set.disjoint_iff_inter_eq_empty, ← Set.not_nonempty_iff_eq_empty]
  constructor
  · intro h
    by_cases hn : a.isNull = true ∨ b.isNull = true
    · exact .inl hn
    · refine .inr ?_
      simp only [not_or, Bool.not_eq_true] at hn
      rw [← h.intersects, intersects_iff ha hb, and_iff_right hn, not_not]
  · intro h
    have hmeet : a.intersects b = true ↔ (a.region ∩ b.region).Nonempty := by
      rw [intersects_iff ha hb]
      by_cases hn : a.isNull = true ∨ b.isNull = true
      · have hempty : ¬(a.region ∩ b.region).Nonempty := by
          rintro ⟨p, hp, hp'⟩
          rcases hn with hn | hn
          · exact (region_of_isNull hn).subset hp
          · exact (region_of_isNull hn).subset hp'
        refine iff_of_false ?_ hempty
        rintro ⟨⟨hna, hnb⟩, -⟩
        simp [hna, hnb] at hn
      · have hiff := h.resolve_left hn
        simp only [not_or, Bool.not_eq_true] at hn
        rw [and_iff_right hn, ← hiff, not_not]
    exact {
      intersects := hmeet
      isNull := by rw [hmeet, isNull_intersectionWith_iff ha hb]
      region := region_intersectionWith ha hb
      intersects_comm := intersects_comm a b
      intersectionWith_comm := intersectionWith_comm a b
      unionWith_left := fun hn => by rw [unionWith, if_pos hn]
      unionWith_right := fun hn hn' => by rw [unionWith, if_neg (by simp [hn]), if_pos hn']
      covers := region_subset_unionWith ha
      least := fun hn hn' _ => unionWith_subset ha hb hn hn' }

/-- Two rectangles that overlap. -/
theorem consistent_iff_overlapping : Consistent ⟨0, 0, 6, 6⟩ ⟨4, 4, 10, 10⟩ := by
  refine (consistent_iff _ _ ⟨by decide, by decide⟩ ⟨by decide, by decide⟩).mpr (.inr ?_)
  refine iff_of_false (Set.not_disjoint_iff.mpr ⟨(4, 4), (mem_region _).mpr (by decide),
    (mem_region _).mpr (by decide)⟩) ?_
  unfold TooLong Lost span Apart
  decide

/-- Two rectangles that touch have no pixel in common, and intersect. -/
theorem not_consistent_touching : ¬Consistent ⟨0, 0, 5, 5⟩ ⟨5, 0, 10, 5⟩ := by
  intro h
  obtain ⟨p, hp, hp'⟩ := h.intersects.mp (by decide)
  rw [mem_region] at hp hp'
  exact Std.not_lt.mpr hp'.1 hp.2.1

end Rect

end PiKachulm.Wm

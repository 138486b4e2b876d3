import PiKachulm.Core.Tiling
import Mathlib.Algebra.Order.Ring.Nat
import Mathlib.Tactic.Common

/-!
# Rectangles

The rectangles of the window manager (`wm/geometry.hpp`). A rectangle owns its left and top edges
but not its right and bottom ones, so that the empty rectangles are those without width or height.
The coordinates are 32-bit signed integers and `width` and `height` wrap around, as on the machine.
-/

namespace PiKachulm.Wm

open Core

structure Rect where
  x1 : Int32
  y1 : Int32
  x2 : Int32
  y2 : Int32
  deriving DecidableEq

namespace Rect

/-- `Rect{}`: all four coordinates are zero. -/
def zero : Rect := ⟨0, 0, 0, 0⟩

def normalize (r : Rect) : Rect :=
  let r := if r.x2 < r.x1 then { r with x1 := r.x2, x2 := r.x1 } else r
  if r.y2 < r.y1 then { r with y1 := r.y2, y2 := r.y1 } else r

/-- The constructor with four arguments, which puts the corners in order. -/
def ofCorners (x1 y1 x2 y2 : Int32) : Rect :=
  normalize ⟨x1, y1, x2, y2⟩

def width (r : Rect) : Int32 := r.x2 - r.x1

def height (r : Rect) : Int32 := r.y2 - r.y1

def isNull (r : Rect) : Bool := r.width = 0 || r.height = 0

def contains (r : Rect) (x y : Int32) : Bool :=
  r.x1 ≤ x && x < r.x2 && r.y1 ≤ y && y < r.y2

def intersectionWith (r r' : Rect) : Rect :=
  if r.isNull || r'.isNull then zero
  else
    let self := r.normalize
    let other := r'.normalize
    if self.x1 > other.x2 ∨ other.x1 > self.x2 ∨ self.y1 > other.y2 ∨ other.y1 > self.y2 then zero
    else ofCorners (max self.x1 other.x1) (max self.y1 other.y1)
      (min self.x2 other.x2) (min self.y2 other.y2)

/-- The rectangles `A`, `B`, `C` and `D` of `draw_windows_helper`: what is left of `rect` to the
left, to the right, above and below `intersection`. -/
def around (rect intersection : Rect) : List Rect :=
  [ofCorners rect.x1 rect.y1 intersection.x1 rect.y2,
    ofCorners intersection.x2 rect.y1 rect.x2 rect.y2,
    ofCorners intersection.x1 rect.y1 intersection.x2 intersection.y1,
    ofCorners intersection.x1 intersection.y2 intersection.x2 rect.y2]

/-! ### Normalised rectangles -/

/-- The corners of `r` are in order. -/
structure Normal (r : Rect) : Prop where
  x : r.x1 ≤ r.x2
  y : r.y1 ≤ r.y2

variable {r r' : Rect}

lemma normalize_of_normal (h : r.Normal) : r.normalize = r := by
  simp [normalize, Std.not_lt.mpr h.x, Std.not_lt.mpr h.y]

lemma ofCorners_of_le {x1 y1 x2 y2 : Int32} (hx : x1 ≤ x2) (hy : y1 ≤ y2) :
    ofCorners x1 y1 x2 y2 = ⟨x1, y1, x2, y2⟩ :=
  normalize_of_normal ⟨hx, hy⟩

lemma normal_normalize (r : Rect) : r.normalize.Normal := by
  simp only [normalize]
  split_ifs with hx hy hy <;> constructor <;> grind

lemma normal_ofCorners (x1 y1 x2 y2 : Int32) : (ofCorners x1 y1 x2 y2).Normal :=
  normal_normalize _

lemma normal_zero : zero.Normal := by
  constructor <;> decide

lemma max_le_iff {a b c : Int32} : max a b ≤ c ↔ a ≤ c ∧ b ≤ c := by
  rw [show max a b = if a ≤ b then b else a from rfl]
  split_ifs <;> grind

private lemma lt_min_iff {a b c : Int32} : c < min a b ↔ c < a ∧ c < b := by
  rw [← Std.not_le, Std.min_le, not_or, Std.not_le, Std.not_le]

/-- Two intervals that are not apart meet. -/
private lemma max_le_min {a a' b b' : Int32} (h : a ≤ b) (h' : a' ≤ b') (hab : ¬ a > b')
    (hba : ¬ a' > b) : max a a' ≤ min b b' := by
  rw [max_le_iff, Std.le_min_iff, Std.le_min_iff]
  exact ⟨⟨h, Std.not_lt.mp hab⟩, Std.not_lt.mp hba, h'⟩

/-! ### Pixels -/

/-- The pixels of a rectangle. -/
def region (r : Rect) : Set (Int32 × Int32) := {p | r.contains p.1 p.2}

@[simp] lemma mem_region (p : Int32 × Int32) :
    p ∈ r.region ↔ r.x1 ≤ p.1 ∧ p.1 < r.x2 ∧ r.y1 ≤ p.2 ∧ p.2 < r.y2 := by
  simp [region, contains, and_assoc]

/-- The differences of `width` and `height` wrap, but vanish for equal coordinates only. -/
lemma isNull_iff : r.isNull ↔ r.x2 = r.x1 ∨ r.y2 = r.y1 := by
  have hx : r.x2 - r.x1 = 0 ↔ r.x2 = r.x1 := by grind
  have hy : r.y2 - r.y1 = 0 ↔ r.y2 = r.y1 := by grind
  simp [isNull, width, height, hx, hy]

lemma region_of_isNull (h : r.isNull) : r.region = ∅ := by
  apply Set.eq_empty_of_forall_notMem
  rcases isNull_iff.mp h with h | h <;> intro p hp <;> rw [mem_region] at hp <;> grind

lemma region_zero : zero.region = ∅ :=
  region_of_isNull (by decide)

/-! ### Intersections -/

lemma normal_intersectionWith (r r' : Rect) : (r.intersectionWith r').Normal := by
  simp only [intersectionWith]
  split_ifs
  · exact normal_zero
  · exact normal_zero
  · exact normal_ofCorners _ _ _ _

/-- Two rectangles that are neither empty nor apart meet in the rectangle of the inner edges. -/
lemma intersectionWith_eq (h : r.Normal) (h' : r'.Normal)
    (hn : (r.intersectionWith r').isNull = false) :
    r.intersectionWith r' =
      ⟨max r.x1 r'.x1, max r.y1 r'.y1, min r.x2 r'.x2, min r.y2 r'.y2⟩ := by
  revert hn
  simp only [intersectionWith, normalize_of_normal h, normalize_of_normal h']
  split_ifs with hnull hapart
  · simp [show zero.isNull = true by decide]
  · simp [show zero.isNull = true by decide]
  · intro _
    obtain ⟨hx, hx', hy, hy'⟩ : _ ∧ _ ∧ _ ∧ _ := by simpa only [not_or] using hapart
    exact ofCorners_of_le (max_le_min h.x h'.x hx hx')
      (max_le_min h.y h'.y hy hy')

lemma region_intersectionWith (h : r.Normal) (h' : r'.Normal) :
    (r.intersectionWith r').region = r.region ∩ r'.region := by
  simp only [intersectionWith, normalize_of_normal h, normalize_of_normal h']
  split_ifs with hnull hapart
  · rw [Bool.or_eq_true] at hnull
    rcases hnull with hn | hn <;> simp [region_zero, region_of_isNull hn]
  · rw [region_zero]
    symm
    apply Set.eq_empty_of_forall_notMem
    rintro p ⟨hp, hp'⟩
    rw [mem_region] at hp hp'
    grind
  · obtain ⟨hx, hx', hy, hy'⟩ : _ ∧ _ ∧ _ ∧ _ := by simpa only [not_or] using hapart
    rw [ofCorners_of_le (max_le_min h.x h'.x hx hx')
      (max_le_min h.y h'.y hy hy')]
    ext p
    simp only [mem_region, Set.mem_inter_iff, max_le_iff, lt_min_iff]
    tauto

/-! ### Cutting a rectangle -/

/-- The edges of `e` are between those of `r`. -/
structure Within (e r : Rect) : Prop where
  left : r.x1 ≤ e.x1
  right : e.x2 ≤ r.x2
  top : r.y1 ≤ e.y1
  bottom : e.y2 ≤ r.y2

lemma Within.refl (r : Rect) : r.Within r :=
  ⟨Std.le_refl _, Std.le_refl _, Std.le_refl _, Std.le_refl _⟩

lemma Within.trans {a b c : Rect} (h : a.Within b) (h' : b.Within c) : a.Within c :=
  ⟨Std.le_trans h'.left h.left, Std.le_trans h.right h'.right, Std.le_trans h'.top h.top,
    Std.le_trans h.bottom h'.bottom⟩

lemma within_intersectionWith (h : r.Normal) (h' : r'.Normal)
    (hn : (r.intersectionWith r').isNull = false) : (r.intersectionWith r').Within r := by
  rw [intersectionWith_eq h h' hn]
  constructor
  · exact (max_le_iff.mp (Std.le_refl _)).1
  · exact (Std.le_min_iff.mp (Std.le_refl _)).1
  · exact (max_le_iff.mp (Std.le_refl _)).1
  · exact (Std.le_min_iff.mp (Std.le_refl _)).1

variable {e : Rect}

lemma region_subset_of_within (h : e.Within r) : e.region ⊆ r.region := by
  intro p hp
  rw [mem_region] at hp ⊢
  obtain ⟨hl, hr, ht, hb⟩ := h
  grind

lemma normal_of_mem_around {s : Rect} (hs : s ∈ r.around e) : s.Normal := by
  simp only [around, List.mem_cons, List.not_mem_nil, or_false] at hs
  rcases hs with rfl | rfl | rfl | rfl <;> exact normal_ofCorners _ _ _ _

lemma within_of_mem_around {s : Rect} (hr : r.Normal) (he : e.Normal) (h : e.Within r)
    (hs : s ∈ r.around e) : s.Within r := by
  obtain ⟨hx, hy⟩ := he
  obtain ⟨hl, hr', ht, hb⟩ := h
  have hx' := Std.le_trans hl hx
  have hx'' := Std.le_trans hx hr'
  have hy' := Std.le_trans ht hy
  have hy'' := Std.le_trans hy hb
  have hrefl := fun a : Int32 => Std.le_refl a
  rw [around, ofCorners_of_le hl hr.y, ofCorners_of_le hr' hr.y, ofCorners_of_le hx ht,
    ofCorners_of_le hx hb] at hs
  simp only [List.mem_cons, List.not_mem_nil, or_false] at hs
  rcases hs with rfl | rfl | rfl | rfl
  · exact ⟨hrefl _, hx'', hrefl _, hrefl _⟩
  · exact ⟨hx', hrefl _, hrefl _, hrefl _⟩
  · exact ⟨hl, hr', hrefl _, hy''⟩
  · exact ⟨hl, hr', hy', hrefl _⟩

/-- The four rectangles around `e` tile what `r` has outside `e`. -/
lemma tiles_around (hr : r.Normal) (he : e.Normal) (h : e.Within r) :
    Tiles region (r.around e) (r.region \ e.region) := by
  obtain ⟨hx, hy⟩ := he
  obtain ⟨hl, hr', ht, hb⟩ := h
  rw [around, ofCorners_of_le hl hr.y, ofCorners_of_le hr' hr.y, ofCorners_of_le hx ht,
    ofCorners_of_le hx hb]
  constructor
  · simp only [List.pairwise_cons, List.mem_cons, List.not_mem_nil, or_false, forall_eq_or_imp,
      forall_eq, Set.disjoint_left, mem_region]
    grind
  · intro p
    simp only [List.mem_cons, List.not_mem_nil, or_false, exists_eq_or_imp, exists_eq_left,
      Set.mem_sdiff, mem_region]
    grind

end Rect

end PiKachulm.Wm

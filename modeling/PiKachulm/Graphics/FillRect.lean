import PiKachulm.Graphics.Painter
import Mathlib.Data.List.Nodup
import Mathlib.Data.List.ProdSigma

/-!
# Filling a rectangle

`fill_rect` clips its rectangle before it goes through the pixels. It moves the origin into the clipping
and bounds the size by that of the clipping, one without regard for the other, and compares signed sums
with unsigned counters.
-/

namespace PiKachulm.Graphics

/-! ### One direction -/

/-- One direction of `fill_rect`: the clipping goes from `lo` to `hi`, the rectangle starts at `pos`. -/
structure Span where
  lo : Int32
  hi : Int32
  pos : Int32
  size : Int32

namespace Span

variable (s : Span)

/-- The coordinate where the loop starts. -/
def first : Int32 := max s.lo s.pos

/-- The size after clipping. -/
def extent : Int32 := min (s.hi - s.lo + 1) s.size

/-- The values of the counter. -/
def values : List UInt32 := Painter.between s.first.toUInt32 (s.first + s.extent).toUInt32

/-- The coordinates of the clipping. -/
def count : ℕ := (s.hi.toInt - s.lo.toInt + 1).toNat

/-- The coordinate is in the clipping. -/
def InClip (i : Int32) : Prop := s.lo ≤ i ∧ i ≤ s.hi

/-- The coordinate is in the rectangle. -/
def InRect (i : Int32) : Prop := s.pos ≤ i ∧ i.toInt < s.pos.toInt + s.size.toInt

/-- The loop ends at once. -/
def Idle : Prop := s.extent ≤ 0 ∧ 0 ≤ s.first.toInt + s.extent.toInt

/-- The rectangle reaches to the end of the clipping, or it starts in the clipping, whose size does not
wrap around. -/
def Reaches : Prop :=
  0 < s.size ∧ s.first ≤ s.hi ∧ (s.hi.toInt < s.pos.toInt + s.size.toInt ∨ s.lo ≤ s.pos ∧ 0 < s.hi - s.lo + 1)

variable {s} {i : Int32}

lemma le_first : s.lo ≤ s.first ∧ s.pos ≤ s.first ∧ (s.first = s.lo ∨ s.first = s.pos) := by
  rw [first, show max s.lo s.pos = if s.lo ≤ s.pos then s.pos else s.lo from rfl]
  split_ifs with h
  · exact ⟨h, Std.le_refl _, .inr rfl⟩
  · exact ⟨Std.le_refl _, Std.le_of_lt (Std.not_le.mp h), .inl rfl⟩

lemma extent_le : s.extent ≤ s.hi - s.lo + 1 ∧ s.extent ≤ s.size ∧
    (s.extent = s.hi - s.lo + 1 ∨ s.extent = s.size) := by
  rw [extent]
  exact ⟨Std.min_le_left, Std.min_le_right, Std.min_eq_or⟩

/-- A signed word as an unsigned one. -/
lemma toNat_toUInt32 (x : Int32) :
    (0 ≤ x.toInt ∧ (x.toUInt32.toNat : ℤ) = x.toInt) ∨
      x.toInt < 0 ∧ (x.toUInt32.toNat : ℤ) = x.toInt + 2 ^ 32 := by
  have hint : x.toInt = x.toBitVec.toInt := rfl
  have hnat : x.toUInt32.toNat = x.toBitVec.toNat := rfl
  have hlt := x.toBitVec.isLt
  rw [hint, hnat, BitVec.toInt_eq_toNat_cond]
  split_ifs <;> omega

/-- Where the counter ends. -/
lemma toNat_stop (hlo : 0 ≤ s.lo) :
    0 ≤ s.first.toInt ∧
    ((0 ≤ s.first.toInt + s.extent.toInt ∧
        ((s.first + s.extent).toUInt32.toNat : ℤ) = s.first.toInt + s.extent.toInt) ∨
      s.first.toInt + s.extent.toInt < 0 ∧
        ((s.first + s.extent).toUInt32.toNat : ℤ) = s.first.toInt + s.extent.toInt + 2 ^ 32) := by
  have hfirst := Std.le_trans hlo le_first.1
  rw [Int32.le_iff_toInt_le, Int32.toInt_zero] at hfirst
  have h₁ := s.first.toInt_lt
  have h₂ := s.extent.toInt_lt
  have h₃ := s.extent.le_toInt
  refine ⟨hfirst, ?_⟩
  have hsum := toNat_toUInt32 (s.first + s.extent)
  rw [Int32.toInt_add, Int.bmod_def] at hsum
  omega

lemma mem_between {k a b : UInt32} : k ∈ Painter.between a b ↔ a ≤ k ∧ k < b := by
  have ha := a.toNat_lt
  have hb := b.toNat_lt
  have hk := k.toNat_lt
  rw [Painter.between, List.mem_map, UInt32.le_iff_toNat_le, UInt32.lt_iff_toNat_lt]
  constructor
  · rintro ⟨i, hi, rfl⟩
    rw [List.mem_range] at hi
    have hword : i < 2 ^ 32 := by omega
    rw [UInt32.toNat_add, UInt32.toNat_ofNat_of_lt' hword, Nat.mod_eq_of_lt (by omega)]
    omega
  · rintro ⟨hak, hkb⟩
    have hword : k.toNat - a.toNat < 2 ^ 32 := by omega
    refine ⟨k.toNat - a.toNat, List.mem_range.mpr (by omega), UInt32.toNat_inj.mp ?_⟩
    rw [UInt32.toNat_add, UInt32.toNat_ofNat_of_lt' hword, Nat.mod_eq_of_lt (by omega)]
    omega

/-- The coordinates in the clipping that the loop goes through. -/
lemma mem_values (hlo : 0 ≤ s.lo) (hi : s.InClip i) : i ∈ s.values.map UInt32.toInt32 ↔
    s.first ≤ i ∧ (s.first.toInt + s.extent.toInt < 0 ∨ i.toInt < s.first.toInt + s.extent.toInt) := by
  have hpos := Std.le_trans hlo hi.1
  have hmem : i ∈ s.values.map UInt32.toInt32 ↔ i.toUInt32 ∈ s.values := by
    constructor
    · intro h
      obtain ⟨k, hk, rfl⟩ := List.mem_map.mp h
      exact hk
    · exact fun h => List.mem_map.mpr ⟨_, h, rfl⟩
  rw [hmem, values, mem_between, UInt32.le_iff_toNat_le, UInt32.lt_iff_toNat_lt, Int32.le_iff_toInt_le]
  rw [Int32.le_iff_toInt_le, Int32.toInt_zero] at hpos
  have hlt := i.toInt_lt
  have h₁ := toNat_toUInt32 i
  have h₂ := toNat_toUInt32 s.first
  have h₃ := toNat_stop hlo
  have h₄ := s.first.toInt_lt
  have h₅ := s.extent.le_toInt
  omega

/-- How often the loop goes on. -/
lemma length_values (hlo : 0 ≤ s.lo) :
    s.Idle ∧ s.values = [] ∨ ¬s.Idle ∧ s.values.length = s.extent.toUInt32.toNat := by
  have h₁ := toNat_stop hlo
  have h₂ := toNat_toUInt32 s.first
  have h₃ := toNat_toUInt32 s.extent
  have hlength : s.values.length =
      (s.first + s.extent).toUInt32.toNat - s.first.toUInt32.toNat := by
    rw [values, Painter.between, List.length_map, List.length_range]
  rw [Idle, Int32.le_iff_toInt_le, Int32.toInt_zero, ← List.length_eq_zero_iff, hlength]
  omega

/-! ### Where a direction is right -/

/-- The coordinate is drawn. -/
def Drawn (s : Span) (i : Int32) : Prop := i ∈ s.values.map UInt32.toInt32 ∧ s.InClip i

/-- The coordinate has to be drawn. -/
def Wanted (s : Span) (i : Int32) : Prop := s.InRect i ∧ s.InClip i

/-- The sizes as integers. Only that of a clipping of `2 ^ 31` coordinates wraps around. -/
lemma extent_cases (hlo : 0 ≤ s.lo) (hne : s.lo ≤ s.hi) :
    let n := s.hi.toInt - s.lo.toInt + 1
    0 < s.hi - s.lo + 1 ∧
        (s.extent.toInt = n ∧ n ≤ s.size.toInt ∨ s.extent.toInt = s.size.toInt ∧ s.size.toInt ≤ n) ∨
      ¬0 < s.hi - s.lo + 1 ∧ n = 2 ^ 31 ∧ s.extent.toInt = -2 ^ 31 := by
  have hhi := s.hi.toInt_lt
  have hsize := s.size.le_toInt
  obtain ⟨h₁, h₂, h₃⟩ := s.extent_le
  rw [← Int32.toInt_inj, ← Int32.toInt_inj] at h₃
  rw [Int32.le_iff_toInt_le] at hlo hne h₁ h₂
  rw [Int32.toInt_zero] at hlo
  rw [Int32.lt_iff_toInt_lt, Int32.toInt_zero]
  have hone : (1 : Int32).toInt = 1 := rfl
  have hn : (s.hi - s.lo + 1).toInt = Int.bmod (s.hi.toInt - s.lo.toInt + 1) (2 ^ 32) := by
    rw [Int32.toInt_add, Int32.toInt_sub, hone, Int.bmod_add_bmod]
  rw [Int.bmod_def] at hn
  omega

/-- Everything that has to be drawn is drawn, and in no more steps than the clipping has coordinates. -/
lemma Reaches.drawn_iff (hlo : 0 ≤ s.lo) (h : s.Reaches) :
    (∀ i, s.Drawn i ↔ s.Wanted i) ∧ s.values.length ≤ s.count := by
  obtain ⟨hsize, hbeyond, hreach⟩ := h
  have hcases := extent_cases hlo (Std.le_trans s.le_first.1 hbeyond)
  obtain ⟨hlo', hpos, hfirst⟩ := s.le_first
  have hbound := s.hi.toInt_lt
  have hextent := toNat_toUInt32 s.extent
  rw [← Int32.toInt_inj, ← Int32.toInt_inj] at hfirst
  rw [Int32.le_iff_toInt_le] at hlo hlo' hpos hbeyond hreach
  rw [Int32.lt_iff_toInt_lt] at hsize
  rw [Int32.toInt_zero] at hlo hsize
  refine ⟨fun i => and_congr_left fun hclip => ?_, ?_⟩
  · rw [mem_values (Int32.le_iff_toInt_le.mpr hlo) hclip, InRect, Int32.le_iff_toInt_le, Int32.le_iff_toInt_le]
    obtain ⟨hclip₁, hclip₂⟩ := hclip
    rw [Int32.le_iff_toInt_le] at hclip₁ hclip₂
    rcases hcases with ⟨hwrap, hcases⟩ | ⟨hwrap, hcases⟩
    · rw [and_iff_left hwrap] at hreach
      omega
    · have hright := hreach.resolve_right fun h => hwrap h.2
      omega
  · rw [count]
    rcases length_values (Int32.le_iff_toInt_le.mpr hlo) with ⟨-, hnil⟩ | ⟨-, hlength⟩
    · rw [hnil, List.length_nil]
      exact Nat.zero_le _
    · omega

end Span

/-! ### Both directions -/

namespace Painter

def horizontal (p : Painter) (x w : Int32) : Span := ⟨p.clipping.xMin, p.clipping.xMax, x, w⟩

def vertical (p : Painter) (y h : Int32) : Span := ⟨p.clipping.yMin, p.clipping.yMax, y, h⟩

/-- The calls of `draw_pixel` that `fill_rect` makes, one after the other. -/
def fillPixels (p : Painter) (x y w h : Int32) : List (Int32 × Int32) :=
  (p.horizontal x w).values.flatMap fun i =>
    (p.vertical y h).values.map fun j => (i.toInt32, j.toInt32)

variable {p : Painter} {x y w h : Int32} {color : Color}

/-- `fill_rect` makes these calls. -/
lemma fillRect_eq : p.fillRect x y w h color = p.drawPixels color (p.fillPixels x y w h) := by
  rw [drawPixels, fillPixels, List.flatMap_assoc]
  simp only [List.flatMap_map]
  rfl

/-- The painter of a buffer of 100 by 100 pixels. -/
def small : Painter := create ⟨0, 0, 0, 0, fun _ _ => 0⟩ 100 100 100

end Painter

end PiKachulm.Graphics

import PiKachulm.Core.Raster
import Mathlib.Algebra.Order.Ring.Nat
import Mathlib.Tactic.Common

/-!
# The painter

`graphics::Painter` draws in a framebuffer of 32-bit colours. Coordinates are signed and wrap around,
an index of the framebuffer is an unsigned word. Every drawing function is the list of its accesses
to the framebuffer, in the order in which they are made.
-/

namespace PiKachulm.Graphics

open Core

/-- A colour in the format 0xAARRGGBB. -/
abbrev Color := UInt32

def withAlpha (color : Color) (a : UInt8) : Color :=
  (color &&& (0xffffff : UInt32)) ||| (a.toUInt32 <<< 24)

/-- One colour component of `alpha * src + (1 - alpha) * dst`. -/
def blendComponent (shift : UInt32) (alpha : UInt32) (src dst : Color) : UInt32 :=
  (alpha * ((src >>> shift) &&& 0xff) + (255 - alpha) * ((dst >>> shift) &&& 0xff)) / 255

/-- What `draw_pixel` makes of a pixel that has the colour `dst`. -/
def blend (src dst : Color) : Color :=
  let alpha := (src >>> 24) &&& 0xff
  (blendComponent 16 alpha src dst <<< 16) ||| (blendComponent 8 alpha src dst <<< 8) |||
    blendComponent 0 alpha src dst

/-- `PKFont`. The glyphs are the alpha values of the characters, row by row. -/
structure PKFont where
  charWidth : UInt32
  charHeight : UInt32
  horizontalAdvance : UInt32
  lineHeight : UInt32
  glyph : UInt8 → ℕ → UInt8

/-- `FIRST_CHARACTER` and `LAST_CHARACTER`. -/
def PKFont.supports (ch : UInt8) : Bool := 0x21 ≤ ch && ch ≤ 0x7e

structure BBox where
  xMin : Int32
  yMin : Int32
  xMax : Int32
  yMax : Int32

/-- The painter of a framebuffer. -/
structure Painter where
  font : PKFont
  width : UInt32
  height : UInt32
  pitch : UInt32
  clipping : BBox

namespace Painter

/-- An access to the framebuffer. -/
abbrev Accesses := List (Access Color)

/-- `revert_clipping`. -/
def revertClipping (p : Painter) : Painter :=
  { p with clipping := ⟨0, 0, (p.width - 1).toInt32, (p.height - 1).toInt32⟩ }

/-- The constructor. -/
def create (font : PKFont) (width height pitch : UInt32) : Painter :=
  revertClipping ⟨font, width, height, pitch, ⟨0, 0, 0, 0⟩⟩

def setClipping (p : Painter) (xMin yMin xMax yMax : Int32) : Painter :=
  { p with
    clipping := ⟨max 0 xMin, max 0 yMin, min (p.width - 1).toInt32 xMax,
      min (p.height - 1).toInt32 yMax⟩ }

/-- The cell of the pixel at `x`, `y`. -/
def index (p : Painter) (x y : UInt32) : ℕ := (x + p.pitch * y).toNat

/-- The pixel is not clipped. -/
def clips (p : Painter) (x y : Int32) : Bool :=
  (x < p.clipping.xMin || x > p.clipping.xMax) || (y < p.clipping.yMin || y > p.clipping.yMax)

def drawPixel (p : Painter) (x y : Int32) (color : Color) : Accesses :=
  if p.clips x y then [] else [⟨p.index x.toUInt32 y.toUInt32, blend color⟩]

/-- The values of a loop over `i < n`. -/
def upTo (n : UInt32) : List UInt32 := (List.range n.toNat).map fun i => .ofNat i

def clear (p : Painter) (color : Color) : Accesses :=
  (upTo p.width).flatMap fun x => (upTo p.height).map fun y => .put (p.index x y) color

/-- The first values of a loop over `x <= last`. After `2 ^ 32` iterations such a loop has passed
through all words, and repeats them. -/
def through (last : Int32) : ℕ → Int32 → List Int32
  | 0, _ => []
  | fuel + 1, x => if x ≤ last then x :: through last fuel (x + 1) else []

/-- The values of `for (auto x = first; x <= last; ++x)`. -/
def fromTo (first last : Int32) : List Int32 := through last (2 ^ 32) first

/-- The pixels of `draw_line`, by Bresenham's algorithm. -/
def linePixels (x1 y1 x2 y2 : Int32) : List (Int32 × Int32) :=
  let dx := x2 - x1
  let dy := y2 - y1
  if dx = 0 ∧ dy = 0 then [(x1, y1)]
  else if dx.abs > dy.abs then
    let (x1, y1, x2) := if x1 > x2 then (x2, y2, x1) else (x1, y1, x2)
    (fromTo x1 x2).map fun x => (x, dy * (x - x1) / dx + y1)
  else
    let (x1, y1, y2) := if y1 > y2 then (x2, y2, y1) else (x1, y1, y2)
    (fromTo y1 y2).map fun y => (dx * (y - y1) / dy + x1, y)

/-- The calls of `draw_pixel`, one after the other. -/
def drawPixels (p : Painter) (color : Color) (pixels : List (Int32 × Int32)) : Accesses :=
  pixels.flatMap fun q => p.drawPixel q.1 q.2 color

def drawLine (p : Painter) (x1 y1 x2 y2 : Int32) (color : Color) : Accesses :=
  p.drawPixels color (linePixels x1 y1 x2 y2)

/-- The pixels of `draw_rect`: the top, bottom, left and right edges. -/
def rectPixels (x y w h : Int32) : List (Int32 × Int32) :=
  linePixels x y (x + w - 1) y ++ linePixels x (y + h - 1) (x + w - 1) (y + h - 1) ++
    linePixels x y x (y + h - 1) ++ linePixels (x + w - 1) y (x + w - 1) (y + h - 1)

def drawRect (p : Painter) (x y w h : Int32) (color : Color) : Accesses :=
  p.drawPixels color (rectPixels x y w h)

/-- The pixels of `draw_rect` with lines of width `lineWidth`. -/
def widePixels : ℕ → Int32 → Int32 → Int32 → Int32 → List (Int32 × Int32)
  | 0, _, _, _, _ => []
  | lineWidth + 1, x, y, w, h =>
    rectPixels x y w h ++ widePixels lineWidth (x + 1) (y + 1) (w - 2) (h - 2)

/-- `draw_rect` with lines of width `lineWidth`. -/
def drawWideRect (p : Painter) (x y w h : Int32) (lineWidth : ℕ) (color : Color) : Accesses :=
  p.drawPixels color (widePixels lineWidth x y w h)

/-- The values of `for (uint32_t i = first; i < stop; ++i)`. -/
def between (first stop : UInt32) : List UInt32 :=
  (List.range (stop.toNat - first.toNat)).map fun i => first + .ofNat i

def fillRect (p : Painter) (x y w h : Int32) (color : Color) : Accesses :=
  let x := max p.clipping.xMin x
  let y := max p.clipping.yMin y
  let w := min (p.clipping.xMax - p.clipping.xMin + 1) w
  let h := min (p.clipping.yMax - p.clipping.yMin + 1) h
  (between x.toUInt32 (x + w).toUInt32).flatMap fun i =>
    (between y.toUInt32 (y + h).toUInt32).flatMap fun j => p.drawPixel i.toInt32 j.toInt32 color

def drawAlphaMap (p : Painter) (x y : Int32) (alphaMap : ℕ → UInt8) (w h : UInt32) (color : Color) :
    Accesses :=
  (upTo w).flatMap fun i => (upTo h).flatMap fun j =>
    p.drawPixel (x.toUInt32 + i).toInt32 (y.toUInt32 + j).toInt32
      (withAlpha color (alphaMap (i + j * w).toNat))

/-- Where a character is drawn: on a new line when it does not fit in the current one. -/
def placeChar (p : Painter) (x w currentX currentY : Int32) : Int32 × Int32 :=
  if (currentX.toUInt32 + p.font.charWidth) - x.toUInt32 ≥ w.toUInt32 then
    (x, (currentY.toUInt32 + p.font.lineHeight).toInt32)
  else (currentX, currentY)

/-- Where the text goes on after a character that the font does not have. -/
def skipChar (p : Painter) (x : Int32) (ch : UInt8) (currentX currentY : Int32) : Int32 × Int32 :=
  if ch = 0x20 then ((currentX.toUInt32 + p.font.horizontalAdvance).toInt32, currentY)
  else if ch = 0x0a then (x, (currentY.toUInt32 + p.font.lineHeight).toInt32)
  else (currentX, currentY)

/-- The loop of `draw_text`, at the position `currentX`, `currentY`; `x` is where lines start. -/
def drawChars (p : Painter) (x w : Int32) (color : Color) : List UInt8 → Int32 → Int32 → Accesses
  | [], _, _ => []
  | ch :: text, currentX, currentY =>
    if PKFont.supports ch then
      if currentX > p.clipping.xMax then drawChars p x w color text currentX currentY
      else
        let q := p.placeChar x w currentX currentY
        let nextX := (q.1.toUInt32 + p.font.horizontalAdvance).toInt32
        p.drawAlphaMap q.1 q.2 (p.font.glyph ch) p.font.charWidth p.font.charHeight color ++
          if q.2 > p.clipping.yMax then [] else drawChars p x w color text nextX q.2
    else
      let q := p.skipChar x ch currentX currentY
      if q.2 > p.clipping.yMax then [] else drawChars p x w color text q.1 q.2

/-- `draw_text`, which takes a text up to its NUL. -/
def drawText (p : Painter) (x y : Int32) (text : List UInt8) (color : Color) : Accesses :=
  p.drawChars x Int32.maxValue color text x y

def blit (p : Painter) (x y width height : UInt32) (pixelsBuffer : ℕ → Color) : Accesses :=
  (upTo width).flatMap fun i => (upTo height).map fun j =>
    .put (p.index (x + i) (y + j)) (pixelsBuffer (i + width * j).toNat)

/-! ### Blending -/

/-- A component that has been blended is a byte. -/
lemma blendComponent_lt {shift alpha src dst : UInt32} (h : alpha.toNat ≤ 255) :
    (blendComponent shift alpha src dst).toNat < 2 ^ 8 := by
  have hbyte : ∀ x : UInt32, (x &&& 0xff).toNat ≤ 255 := by
    intro x
    rw [UInt32.toNat_and]
    exact Nat.and_le_right
  have hs := hbyte (src >>> shift)
  have hd := hbyte (dst >>> shift)
  rw [blendComponent]
  generalize (src >>> shift) &&& 0xff = x at *
  generalize (dst >>> shift) &&& 0xff = y at *
  have hrest : ((255 : UInt32) - alpha).toNat = 255 - alpha.toNat :=
    UInt32.toNat_sub_of_le _ _ (UInt32.le_iff_toNat_le.mpr h)
  have hx : alpha.toNat * x.toNat ≤ alpha.toNat * 255 := Nat.mul_le_mul_left _ hs
  have hy : (255 - alpha.toNat) * y.toNat ≤ (255 - alpha.toNat) * 255 := Nat.mul_le_mul_left _ hd
  have hdiv : (255 : UInt32).toNat = 255 := rfl
  rw [UInt32.toNat_div, UInt32.toNat_add, UInt32.toNat_mul, UInt32.toNat_mul, hrest, hdiv]
  omega

/-- A colour that has been blended has no alpha. -/
lemma blend_lt (src dst : Color) : (blend src dst).toNat < 2 ^ 24 := by
  have halpha : ((src >>> 24) &&& 0xff).toNat ≤ 255 := by
    rw [UInt32.toNat_and]
    exact Nat.and_le_right
  have hshift : ∀ (x k : UInt32), x.toNat < 2 ^ 8 → k.toNat ≤ 16 → (x <<< k).toNat < 2 ^ 24 := by
    intro x k hx hk
    have hpow : 2 ^ k.toNat ≤ 2 ^ 16 := Nat.pow_le_pow_right (by decide) hk
    have hmul : x.toNat * 2 ^ k.toNat < 2 ^ 8 * 2 ^ 16 :=
      Nat.mul_lt_mul_of_lt_of_le hx hpow (Nat.two_pow_pos _)
    rw [UInt32.toNat_shiftLeft, Nat.mod_eq_of_lt (b := 32) (by omega), Nat.shiftLeft_eq]
    exact (Nat.mod_le _ _).trans_lt hmul
  rw [blend, UInt32.toNat_or, UInt32.toNat_or]
  refine Nat.or_lt_two_pow (Nat.or_lt_two_pow ?_ ?_) ?_
  · exact hshift _ _ (blendComponent_lt halpha) (by decide)
  · exact hshift _ _ (blendComponent_lt halpha) (by decide)
  · exact (blendComponent_lt halpha).trans (by decide)

/-! ### Inside the framebuffer -/

variable {p : Painter} {x y w h : Int32} {color : Color} {a : Access Color} {i : ℕ}

/-- The cell belongs to a pixel of the framebuffer. -/
def Inside (p : Painter) (i : ℕ) : Prop :=
  ∃ x < p.width, ∃ y < p.height, i = p.index x y

/-- The clipping rectangle lies in the framebuffer. -/
structure Clipped (p : Painter) : Prop where
  left : 0 ≤ p.clipping.xMin
  top : 0 ≤ p.clipping.yMin
  right : p.clipping.xMax ≤ (p.width - 1).toInt32
  bottom : p.clipping.yMax ≤ (p.height - 1).toInt32

lemma clipped_revertClipping (p : Painter) : p.revertClipping.Clipped :=
  ⟨Std.le_refl _, Std.le_refl _, Std.le_refl _, Std.le_refl _⟩

lemma clipped_setClipping (p : Painter) (xMin yMin xMax yMax : Int32) :
    (p.setClipping xMin yMin xMax yMax).Clipped := by
  have hmax : ∀ x : Int32, 0 ≤ max 0 x := by
    intro x
    rw [show max 0 x = if 0 ≤ x then x else 0 from rfl]
    split_ifs with hx
    · exact hx
    · exact Std.le_refl _
  exact ⟨hmax xMin, hmax yMin, Std.min_le_left, Std.min_le_left⟩

/-- A coordinate between 0 and the last one, compared as signed words. -/
lemma toUInt32_lt {x : Int32} {n : UInt32} (h₀ : 0 ≤ x) (h₁ : x ≤ (n - 1).toInt32) :
    x.toUInt32 < n := by
  rw [Int32.le_iff_toInt_le] at h₀ h₁
  have hx : x.toInt = x.toBitVec.toInt := rfl
  have hz : (0 : Int32).toInt = 0 := rfl
  have hn : (n - 1).toInt32.toInt = (n - 1).toBitVec.toInt := rfl
  have hpred : (n - 1).toBitVec.toNat = (n.toNat + 4294967295) % 4294967296 := by
    have hone : (1 : UInt32).toNat = 1 := rfl
    rw [UInt32.toNat_toBitVec, UInt32.toNat_sub]
    omega
  have hword : x.toUInt32.toNat = x.toBitVec.toNat := rfl
  have hlt := n.toNat_lt
  have hlx := x.toBitVec.isLt
  rw [hx, hz, BitVec.toInt_eq_toNat_cond] at h₀
  rw [hx, hn, BitVec.toInt_eq_toNat_cond, BitVec.toInt_eq_toNat_cond, hpred] at h₁
  rw [UInt32.lt_iff_toNat_lt, hword]
  split_ifs at * <;> omega

/-- What is not clipped lies in the framebuffer. -/
lemma Clipped.inside_drawPixel (hp : p.Clipped) (ha : a ∈ p.drawPixel x y color) :
    p.Inside a.index := by
  rw [drawPixel] at ha
  split_ifs at ha with hclip
  · exact absurd ha List.not_mem_nil
  · rw [List.mem_singleton] at ha
    rw [clips, Bool.not_eq_true, Bool.or_eq_false_iff, Bool.or_eq_false_iff, Bool.or_eq_false_iff] at hclip
    simp only [decide_eq_false_iff_not, Std.not_lt] at hclip
    obtain ⟨⟨hx₀, hx₁⟩, hy₀, hy₁⟩ := hclip
    have hx := toUInt32_lt (Std.le_trans hp.left hx₀) (Std.le_trans hx₁ hp.right)
    have hy := toUInt32_lt (Std.le_trans hp.top hy₀) (Std.le_trans hy₁ hp.bottom)
    exact ⟨_, hx, _, hy, by rw [ha]⟩

/-- All accesses of a drawing function lie in the framebuffer. -/
def AllInside (p : Painter) (l : Accesses) : Prop := ∀ a ∈ l, p.Inside a.index

lemma AllInside.flatMap {α : Type*} {f : α → Accesses} (hf : ∀ b, p.AllInside (f b)) (l : List α) :
    p.AllInside (l.flatMap f) := by
  intro a ha
  obtain ⟨b, -, hb⟩ := List.mem_flatMap.mp ha
  exact hf b a hb

lemma Clipped.allInside_drawPixel (hp : p.Clipped) : p.AllInside (p.drawPixel x y color) :=
  fun _ ha => hp.inside_drawPixel ha

lemma Clipped.allInside_drawPixels (hp : p.Clipped) (pixels : List (Int32 × Int32)) :
    p.AllInside (p.drawPixels color pixels) :=
  .flatMap (fun _ => hp.allInside_drawPixel) pixels

lemma Clipped.allInside_fillRect (hp : p.Clipped) : p.AllInside (p.fillRect x y w h color) :=
  .flatMap (fun _ => .flatMap (fun _ => hp.allInside_drawPixel) _) _

lemma Clipped.allInside_drawAlphaMap (hp : p.Clipped) {alphaMap : ℕ → UInt8} {w h : UInt32} :
    p.AllInside (p.drawAlphaMap x y alphaMap w h color) :=
  .flatMap (fun _ => .flatMap (fun _ => hp.allInside_drawPixel) _) _

lemma allInside_append {l l' : Accesses} :
    p.AllInside (l ++ l') ↔ p.AllInside l ∧ p.AllInside l' := by
  simp only [AllInside, List.forall_mem_append]

lemma Clipped.allInside_drawChars (hp : p.Clipped) (text : List UInt8) {currentX currentY : Int32} :
    p.AllInside (p.drawChars x w color text currentX currentY) := by
  have hnil : p.AllInside [] := fun _ ha => absurd ha List.not_mem_nil
  induction text generalizing currentX currentY with
  | nil => exact hnil
  | cons ch text ih =>
    have hrest : ∀ nextX nextY, p.AllInside
        (if nextY > p.clipping.yMax then [] else p.drawChars x w color text nextX nextY) := by
      intro nextX nextY
      split_ifs
      · exact hnil
      · exact ih
    rw [drawChars]
    by_cases hch : PKFont.supports ch
    · rw [if_pos hch]
      by_cases hright : currentX > p.clipping.xMax
      · rw [if_pos hright]
        exact ih
      · rw [if_neg hright]
        exact allInside_append.mpr ⟨hp.allInside_drawAlphaMap, hrest _ _⟩
    · rw [if_neg hch]
      exact hrest _ _

lemma mem_upTo {n i : UInt32} : i ∈ upTo n ↔ i < n := by
  rw [upTo, List.mem_map]
  constructor
  · rintro ⟨k, hk, rfl⟩
    rw [List.mem_range] at hk
    rw [UInt32.lt_iff_toNat_lt, UInt32.toNat_ofNat_of_lt' (Nat.lt_trans hk n.toNat_lt)]
    exact hk
  · intro hi
    exact ⟨i.toNat, List.mem_range.mpr hi, UInt32.ofNat_toNat⟩

lemma allInside_clear : p.AllInside (p.clear color) := by
  intro a ha
  obtain ⟨x, hx, ha⟩ := List.mem_flatMap.mp ha
  obtain ⟨y, hy, rfl⟩ := List.mem_map.mp ha
  exact ⟨x, mem_upTo.mp hx, y, mem_upTo.mp hy, rfl⟩

/-! ### Drawing in a window -/

/-- The drawing functions that the system calls reach, and `set_clipping`. -/
inductive DrawOp where
  | clear (argb : Color)
  | drawLine (x1 y1 x2 y2 : UInt32) (argb : Color)
  | drawRect (x y width height : UInt32) (argb : Color)
  | fillRect (x y width height : UInt32) (argb : Color)
  | drawText (x y : UInt32) (text : List UInt8) (argb : Color)
  | blit (x y width height : UInt32) (argbBuffer : ℕ → Color)
  | setClipping (xMin yMin xMax yMax : Int32)

def DrawOp.accesses (p : Painter) : DrawOp → Accesses
  | .clear argb => p.clear argb
  | .drawLine x1 y1 x2 y2 argb =>
    p.drawLine x1.toInt32 y1.toInt32 x2.toInt32 y2.toInt32 argb
  | .drawRect x y width height argb =>
    p.drawRect x.toInt32 y.toInt32 width.toInt32 height.toInt32 argb
  | .fillRect x y width height argb =>
    p.fillRect x.toInt32 y.toInt32 width.toInt32 height.toInt32 argb
  | .drawText x y text argb => p.drawText x.toInt32 y.toInt32 text argb
  | .blit x y width height argbBuffer => p.blit x y width height argbBuffer
  | .setClipping .. => []

def DrawOp.next (p : Painter) : DrawOp → Painter
  | .setClipping xMin yMin xMax yMax => p.setClipping xMin yMin xMax yMax
  | _ => p

/-- The accesses of a sequence of operations. -/
def drawAll (p : Painter) : List DrawOp → Accesses
  | []        => []
  | op :: ops => op.accesses p ++ (op.next p).drawAll ops

/-- The painter of a window of the given size. -/
def ofWindow (font : PKFont) (width height : UInt32) : Painter := create font width height width

/-- The pixels of a `blit` lie in a framebuffer of the given size: there are none, or the last one
comes before the end, counted from the first one. -/
def BlitFits (width height : UInt32) : DrawOp → Prop
  | .blit x y w h _ => w = 0 ∨ h = 0 ∨
    (x + width * y).toNat + (w.toNat - 1) + width.toNat * (h.toNat - 1) <
      width.toNat * height.toNat
  | _ => True

lemma Clipped.next (hp : p.Clipped) (op : DrawOp) : (op.next p).Clipped := by
  cases op with
  | setClipping xMin yMin xMax yMax => exact clipped_setClipping p xMin yMin xMax yMax
  | _ => exact hp

/-- Clipping changes nothing else. -/
lemma index_next (op : DrawOp) : (op.next p).index = p.index ∧ (op.next p).Inside = p.Inside := by
  cases op <;> exact ⟨rfl, rfl⟩

/-- Everything but `blit` is clipped. -/
lemma Clipped.allInside_accesses (hp : p.Clipped) {op : DrawOp}
    (hop : ∀ x y w h b, op ≠ .blit x y w h b) : p.AllInside (op.accesses p) := by
  cases op with
  | clear argb => exact allInside_clear
  | drawLine x1 y1 x2 y2 argb => exact hp.allInside_drawPixels _
  | drawRect x y width height argb => exact hp.allInside_drawPixels _
  | fillRect x y width height argb => exact hp.allInside_fillRect
  | drawText x y text argb => exact hp.allInside_drawChars text
  | blit x y width height argbBuffer => exact absurd rfl (hop _ _ _ _ _)
  | setClipping xMin yMin xMax yMax => exact fun _ ha => absurd ha List.not_mem_nil

/-! ### `blit` -/

private lemma mul_le_of_size {w h : ℕ} (hw : w ≤ 65535) (hh : h ≤ 65535) :
    w * h + 65536 ≤ 2 ^ 32 := by
  have hmul : w * h ≤ 65535 * 65535 := Nat.mul_le_mul hw hh
  omega

/-- The cells of a window are those before the end of its framebuffer. -/
lemma inside_iff {width height : UInt32} (hp : p.width = width) (hh : p.height = height)
    (hpitch : p.pitch = width) (hw : width.toNat ≤ 65535) (hh' : height.toNat ≤ 65535) :
    p.Inside i ↔ i < width.toNat * height.toNat := by
  have hsize := mul_le_of_size hw hh'
  have hindex : ∀ x < width, ∀ y < height, p.index x y = x.toNat + width.toNat * y.toNat ∧
      x.toNat + width.toNat * y.toNat < width.toNat * height.toNat := by
    intro x hx y hy
    rw [UInt32.lt_iff_toNat_lt] at hx hy
    have hlast : x.toNat + width.toNat * y.toNat < width.toNat * (y.toNat + 1) := by
      rw [Nat.mul_succ]
      omega
    have hend : width.toNat * (y.toNat + 1) ≤ width.toNat * height.toNat := Nat.mul_le_mul_left _ hy
    rw [index, hpitch, UInt32.toNat_add, UInt32.toNat_mul, Nat.add_mod_mod, Nat.mod_eq_of_lt (by omega)]
    exact ⟨rfl, by omega⟩
  rw [Inside, hp, hh]
  constructor
  · rintro ⟨x, hx, y, hy, rfl⟩
    obtain ⟨heq, hlt⟩ := hindex x hx y hy
    rw [heq]
    exact hlt
  · intro hi
    have hpos : 0 < width.toNat := Nat.pos_of_mul_pos_right ((Nat.zero_le _).trans_lt hi)
    have hx : i % width.toNat < width.toNat := Nat.mod_lt _ hpos
    have hy : i / width.toNat < height.toNat := Nat.div_lt_of_lt_mul hi
    have hx' : (UInt32.ofNat (i % width.toNat)).toNat = i % width.toNat :=
      UInt32.toNat_ofNat_of_lt' (Nat.lt_trans hx width.toNat_lt)
    have hy' : (UInt32.ofNat (i / width.toNat)).toNat = i / width.toNat :=
      UInt32.toNat_ofNat_of_lt' (Nat.lt_trans hy height.toNat_lt)
    have hlt : UInt32.ofNat (i % width.toNat) < width := by rw [UInt32.lt_iff_toNat_lt, hx']; exact hx
    have hlt' : UInt32.ofNat (i / width.toNat) < height := by
      rw [UInt32.lt_iff_toNat_lt, hy']; exact hy
    refine ⟨_, hlt, _, hlt', ?_⟩
    rw [(hindex _ hlt _ hlt').1, hx', hy', Nat.mod_add_div]

/-- Cells that are reached in steps of less than a window's width from the first one do not wrap. -/
private lemma below_of_steps {s n m w N : ℕ} (hN : N + 65536 ≤ 2 ^ 32) (hw : w ≤ 65535)
    (hs : s < 2 ^ 32)
    (hall : ∀ i < n, ∀ j < m, (s + i + w * j) % 2 ^ 32 < N) (hn : 0 < n) (hm : 0 < m) :
    s + (n - 1) + w * (m - 1) < N := by
  have hrow : ∀ i < n, s + i < N := by
    intro i
    induction i with
    | zero =>
      intro _
      have hfirst := hall 0 hn 0 hm
      rwa [Nat.mul_zero, Nat.add_zero, Nat.mod_eq_of_lt hs] at hfirst
    | succ i ih =>
      intro hi
      have hprev := ih (Nat.lt_of_succ_lt hi)
      have hthis := hall (i + 1) hi 0 hm
      rw [Nat.mul_zero, Nat.mod_eq_of_lt (by omega)] at hthis
      exact hthis
  have hcolumn : ∀ j < m, s + (n - 1) + w * j < N := by
    intro j
    induction j with
    | zero =>
      intro _
      rw [Nat.mul_zero, Nat.add_zero]
      exact hrow (n - 1) (Nat.sub_one_lt hn.ne')
    | succ j ih =>
      intro hj
      have hprev := ih (Nat.lt_of_succ_lt hj)
      have hthis := hall (n - 1) (Nat.sub_one_lt hn.ne') (j + 1) hj
      rw [Nat.mul_succ] at hthis ⊢
      rw [Nat.mod_eq_of_lt (by omega)] at hthis
      exact hthis
  exact hcolumn (m - 1) (Nat.sub_one_lt hm.ne')

/-- The cells of a `blit`, counted from the first one. -/
lemma index_add (x y i j : UInt32) : p.index (x + i) (y + j) =
    ((x + p.pitch * y).toNat + i.toNat + p.pitch.toNat * j.toNat) % 2 ^ 32 := by
  have heq : x + i + p.pitch * (y + j) = x + p.pitch * y + i + p.pitch * j := by grind
  rw [index, heq, UInt32.toNat_add, UInt32.toNat_mul, UInt32.toNat_add, Nat.add_mod_mod,
    Nat.mod_add_mod]

/-- A `blit` stays inside exactly when it fits. -/
lemma allInside_blit_iff {width height : UInt32} (hp : p.width = width) (hh : p.height = height)
    (hpitch : p.pitch = width) (hw : width.toNat ≤ 65535) (hh' : height.toNat ≤ 65535)
    {x y w h : UInt32} {argbBuffer : ℕ → Color} :
    p.AllInside (p.blit x y w h argbBuffer) ↔ BlitFits width height (.blit x y w h argbBuffer) := by
  have hsize := mul_le_of_size hw hh'
  have hmem : p.AllInside (p.blit x y w h argbBuffer) ↔ ∀ i < w.toNat, ∀ j < h.toNat,
      ((x + width * y).toNat + i + width.toNat * j) % 2 ^ 32 < width.toNat * height.toNat := by
    constructor
    · intro hall i hi j hj
      have hi' : (UInt32.ofNat i).toNat = i := UInt32.toNat_ofNat_of_lt' (Nat.lt_trans hi w.toNat_lt)
      have hj' : (UInt32.ofNat j).toNat = j := UInt32.toNat_ofNat_of_lt' (Nat.lt_trans hj h.toNat_lt)
      have hiw : UInt32.ofNat i < w := by rwa [UInt32.lt_iff_toNat_lt, hi']
      have hjh : UInt32.ofNat j < h := by rwa [UInt32.lt_iff_toNat_lt, hj']
      have hin := hall (.put (p.index (x + .ofNat i) (y + .ofNat j))
        (argbBuffer (UInt32.ofNat i + w * UInt32.ofNat j).toNat))
        (List.mem_flatMap.mpr ⟨.ofNat i, mem_upTo.mpr hiw,
          List.mem_map.mpr ⟨.ofNat j, mem_upTo.mpr hjh, rfl⟩⟩)
      have hlt := (inside_iff hp hh hpitch hw hh').mp hin
      change p.index _ _ < _ at hlt
      rw [index_add, hpitch, hi', hj'] at hlt
      exact hlt
    · intro hall a ha
      obtain ⟨i, hi, ha⟩ := List.mem_flatMap.mp ha
      obtain ⟨j, hj, rfl⟩ := List.mem_map.mp ha
      rw [inside_iff hp hh hpitch hw hh']
      change p.index _ _ < _
      rw [index_add, hpitch]
      exact hall _ (mem_upTo.mp hi) _ (mem_upTo.mp hj)
  rw [hmem, BlitFits]
  constructor
  · intro hall
    by_cases hw₀ : w = 0
    · exact .inl hw₀
    by_cases hh₀ : h = 0
    · exact .inr (.inl hh₀)
    have hwpos : 0 < w.toNat := Nat.pos_of_ne_zero fun hz => hw₀ (UInt32.toNat_inj.mp hz)
    have hhpos : 0 < h.toNat := Nat.pos_of_ne_zero fun hz => hh₀ (UInt32.toNat_inj.mp hz)
    exact .inr (.inr (below_of_steps hsize hw (UInt32.toNat_lt _) hall hwpos hhpos))
  · rintro (rfl | rfl | hlt) i hi j hj
    · exact absurd hi (Nat.not_lt_zero i)
    · exact absurd hj (Nat.not_lt_zero j)
    · have hcol : width.toNat * j ≤ width.toNat * (h.toNat - 1) :=
        Nat.mul_le_mul_left _ (Nat.le_pred_of_lt hj)
      rw [Nat.mod_eq_of_lt (by omega)]
      omega

/-! ### Sequences of operations -/

/-- One operation stays inside exactly when it is no `blit`, or one that fits. -/
lemma Clipped.allInside_accesses_iff {width height : UInt32} (hclip : p.Clipped) (hp : p.width = width)
    (hh : p.height = height) (hpitch : p.pitch = width) (hw : width.toNat ≤ 65535)
    (hh' : height.toNat ≤ 65535) (op : DrawOp) :
    p.AllInside (op.accesses p) ↔ BlitFits width height op := by
  cases op with
  | blit x y w h argbBuffer => exact allInside_blit_iff hp hh hpitch hw hh'
  | _ => exact iff_of_true (hclip.allInside_accesses (by simp)) trivial

/-- The size of the framebuffer is not changed by an operation. -/
lemma size_next (op : DrawOp) : (op.next p).width = p.width ∧ (op.next p).height = p.height ∧
    (op.next p).pitch = p.pitch := by
  cases op <;> exact ⟨rfl, rfl, rfl⟩

lemma Clipped.allInside_drawAll_iff {width height : UInt32} (hclip : p.Clipped)
    (hp : p.width = width) (hh : p.height = height) (hpitch : p.pitch = width)
    (hw : width.toNat ≤ 65535) (hh' : height.toNat ≤ 65535) (ops : List DrawOp) :
    p.AllInside (p.drawAll ops) ↔ ∀ op ∈ ops, BlitFits width height op := by
  induction ops generalizing p with
  | nil => simp [drawAll, AllInside]
  | cons op ops ih =>
    obtain ⟨hwidth, hheight, hpitch'⟩ := size_next (p := p) op
    have hrest : p.AllInside ((op.next p).drawAll ops) ↔ ∀ op ∈ ops, BlitFits width height op := by
      rw [AllInside, ← (index_next (p := p) op).2]
      exact ih (hclip.next op) (hwidth.trans hp) (hheight.trans hh) (hpitch'.trans hpitch)
    rw [drawAll, allInside_append, hclip.allInside_accesses_iff hp hh hpitch hw hh', hrest,
      List.forall_mem_cons]

/-- Every access that a sequence of operations makes to the framebuffer of a window belongs to one of
its pixels. -/
def StaysInside (font : PKFont) (width height : UInt32) (ops : List DrawOp) : Prop :=
  (ofWindow font width height).AllInside ((ofWindow font width height).drawAll ops)

/-- Nothing but `blit`, which does not clip, leaves the framebuffer of a window. -/
theorem staysInside_iff (font : PKFont) {width height : UInt32} (hw : width.toNat ≤ 65535)
    (hh : height.toNat ≤ 65535) (ops : List DrawOp) :
    StaysInside font width height ops ↔ ∀ op ∈ ops, BlitFits width height op :=
  Clipped.allInside_drawAll_iff (p := ofWindow font width height) (clipped_revertClipping _) rfl rfl
    rfl hw hh ops

/-- A window of 25 by 25 pixels that is cleared, then drawn in up to its last pixel. -/
theorem staysInside_iff_lastPixel :
    StaysInside ⟨0, 0, 0, 0, fun _ _ => 0⟩ 25 25 [.clear 0, .blit 24 24 1 1 fun _ => 0] ↔
      ∀ op ∈ [DrawOp.clear 0, .blit 24 24 1 1 fun _ => 0], BlitFits 25 25 op :=
  staysInside_iff ⟨0, 0, 0, 0, fun _ _ => 0⟩ (by decide) (by decide) _

/-- A `blit` just below a window of 25 by 25 pixels writes past the end of its framebuffer. -/
theorem not_staysInside_below :
    ¬ ∀ (font : PKFont) (width height : UInt32), width.toNat ≤ 65535 → height.toNat ≤ 65535 →
      ∀ ops, StaysInside font width height ops := by
  intro hall
  have hin := hall ⟨0, 0, 0, 0, fun _ _ => 0⟩ 25 25 (by decide) (by decide)
    [.blit 0 25 1 1 fun _ => 0] (.put 625 0) (.head _)
  obtain ⟨x, hx, y, hy, heq⟩ := hin
  have hlt := (inside_iff (p := ofWindow ⟨0, 0, 0, 0, fun _ _ => 0⟩ 25 25) rfl rfl rfl (by decide)
    (by decide)).mp ⟨x, hx, y, hy, heq⟩
  exact absurd hlt (by decide)

end Painter

end PiKachulm.Graphics

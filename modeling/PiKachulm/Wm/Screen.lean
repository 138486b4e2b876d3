import PiKachulm.Graphics.FillRect
import PiKachulm.Graphics.Line
import PiKachulm.Wm.Shown

/-!
# The pixels of the screen

`draw_background` copies the wallpaper to the screen, and `draw_window` the framebuffer of the window, on
which it has drawn the frame; the focus border is blended with what is on the screen. The calls of
`draw_windows` are executed one after the other.
-/

namespace PiKachulm.Wm

open Core Graphics

/-- What drawing reads of a window besides its geometry. -/
structure Decoration where
  hasFrame : Bool
  focus : Bool
  title : List UInt8

/-- What the window manager draws with. The icon and the font are arrays of alpha values. -/
structure Scene where
  screenWidth : Int32
  screenHeight : Int32
  screenPitch : UInt32
  wallpaper : Option (ℕ → Color)
  wallpaperWidth : UInt32
  font : PKFont
  icon : ℕ → UInt8
  decoration : ℕ → Decoration

/-- The screen buffer, and the framebuffers of the windows. -/
structure Canvas where
  screen : ℕ → Color
  framebuffer : ℕ → ℕ → Color

namespace Scene

variable (s : Scene)

def focus (window : ℕ) : Bool := (s.decoration window).focus

/-! ### The frame of a window -/

def titleBarHeight : UInt32 := 30

def backgroundColor : Color := 0xff282828

def borderColor : Color := 0xff121212

/-- `pika_icon_width` and `pika_icon_height`. -/
def iconSize : UInt32 := 26

/-- The pikachu icon. -/
def drawIcon (p : Painter) : Painter.Accesses :=
  (Painter.upTo iconSize).flatMap fun i => (Painter.upTo iconSize).flatMap fun j =>
    p.drawPixel (5 + i).toInt32 (2 + j).toInt32
      ((0xffffff : Color) ||| ((s.icon (i + iconSize * j).toNat).toUInt32 <<< 24))

/-- `draw_frame` of a window with a frame, in its framebuffer. -/
def drawFrame (geometry : Rect) (title : List UInt8) : Painter.Accesses :=
  let width := geometry.width
  let height := geometry.height
  let p := Painter.ofWindow s.font width.toUInt32 height.toUInt32
  let textWidth := s.font.charWidth * .ofNat title.length
  let textX := (width.toUInt32 - textWidth) / 2
  let textY := (titleBarHeight - s.font.charHeight) / 2
  p.fillRect 0 0 width titleBarHeight.toInt32 backgroundColor ++ p.drawRect 0 0 width height borderColor ++
    p.drawLine 0 titleBarHeight.toInt32 width titleBarHeight.toInt32 borderColor ++ s.drawIcon p ++
      p.drawText textX.toInt32 textY.toInt32 (title.takeWhile (· ≠ 0)) 0xffffff

/-- The accesses of `draw_frame`, if any. -/
def frame (w : Window) : Painter.Accesses :=
  if (s.decoration w.pointer).hasFrame then s.drawFrame w.geometry (s.decoration w.pointer).title else []

/-! ### The screen buffer -/

/-- The cell of the screen buffer, as a 64-bit index. -/
def cell (x y : ℤ) : ℕ := ((x + s.screenPitch.toNat * y) % 2 ^ 64).toNat

/-- The values of `for (int32_t x = first; x < stop; ++x)`. -/
def upFrom (first stop : Int32) : List Int32 :=
  (List.range (stop.toInt - first.toInt).toNat).map fun i => first + .ofNat i

/-- `draw_background`. -/
def background (rect : Rect) : Painter.Accesses :=
  if rect.isNull then []
  else
    match s.wallpaper with
    | none => []
    | some wallpaper =>
      (upFrom rect.x1 rect.x2).flatMap fun x => (upFrom rect.y1 rect.y2).map fun y =>
        .put (s.cell x.toInt y.toInt) (wallpaper (x.toUInt32 + s.wallpaperWidth * y.toUInt32).toNat)

/-- The first column (or row) of a window that is copied, and the one behind the last. -/
def clippedRange (srcFirst srcStop dstFirst dstStop : Int32) : UInt32 × UInt32 :=
  let first := if srcFirst < dstFirst then (dstFirst - srcFirst).toUInt32 else 0
  let stop := if srcStop > dstStop then
      first + dstStop.toUInt32 - (max srcFirst dstFirst).toUInt32
    else (srcStop - srcFirst).toUInt32
  (first, stop)

/-- The framebuffer is copied into the screen. -/
def blit (framebuffer : ℕ → Color) (src : Rect) (x1 x2 y1 y2 : UInt32) : Painter.Accesses :=
  let framebufferPitch := src.width.toUInt32
  (Painter.between x1 x2).flatMap fun x => (Painter.between y1 y2).map fun y =>
    let dstX := src.x1.toUInt32 + x1 + (x - x1)
    let dstY := src.y1.toUInt32 + y1 + (y - y1)
    .put (s.cell dstX.toNat dstY.toNat) (framebuffer (x + framebufferPitch * y).toNat)

def focusColor : Color := 0xAA6BA4B8

/-- The painter of the screen, clipped to a rectangle. -/
def painter (rect : Rect) : Painter :=
  (Painter.create s.font s.screenWidth.toUInt32 s.screenHeight.toUInt32 s.screenPitch).setClipping
    rect.x1 rect.y1 rect.x2 rect.y2

def focusBorder (src rect : Rect) : Painter.Accesses :=
  (s.painter rect).drawWideRect src.x1 src.y1 src.width src.height 3 focusColor

/-- What a window draws on the screen, with its framebuffer as the frame leaves it. -/
def window (framebuffer : ℕ → Color) (w : Window) (rect : Rect) : Painter.Accesses :=
  let src := w.geometry
  let (x1, x2) := clippedRange src.x1 src.x2 rect.x1 rect.x2
  let (y1, y2) := clippedRange src.y1 src.y2 rect.y1 rect.y2
  if x1 = x2 ∨ y1 = y2 then []
  else s.blit framebuffer src x1 x2 y1 y2 ++ if s.focus w.pointer then s.focusBorder src rect else []

/-- `draw_window`. -/
def drawWindow (c : Canvas) (w : Window) (rect : Rect) : Canvas :=
  if !w.visible then c
  else if !w.geometry.intersects rect then c
  else
    let framebuffer := Access.run (s.frame w) (c.framebuffer w.pointer)
    { screen := Access.run (s.window framebuffer w rect) c.screen
      framebuffer := Function.update c.framebuffer w.pointer framebuffer }

/-- A call that `draw_windows` makes. -/
def draw (c : Canvas) (d : Draw) : Canvas :=
  match d.window with
  | none => { c with screen := Access.run (s.background d.rect) c.screen }
  | some w => s.drawWindow c w d.rect

/-- `draw_windows`. -/
def drawWindows (c : Canvas) (windows : List Window) (rect : Rect) : Canvas :=
  (Wm.drawWindows windows rect).foldl s.draw c

/-! ### Cells -/

/-- The rectangle of the whole screen. -/
def screenRect : Rect := ⟨0, 0, s.screenWidth, s.screenHeight⟩

/-- The screen buffer has a cell for each pixel, and indices of 32 bits reach all of them. -/
structure Fits (s : Scene) : Prop where
  width : 0 ≤ s.screenWidth.toInt
  height : 0 ≤ s.screenHeight.toInt
  pitch : s.screenWidth.toInt ≤ s.screenPitch.toNat
  size : (s.screenPitch.toNat : ℤ) * s.screenHeight.toInt ≤ 2 ^ 32

/-- The cell of a pixel. -/
def pixel (p : Int32 × Int32) : ℕ := s.cell p.1.toInt p.2.toInt

variable {s} {rect src : Rect} {p q : Int32 × Int32} {v color : Color} {i n : ℕ}

lemma mem_screenRect : p ∈ s.screenRect.region ↔ (0 ≤ p.1.toInt ∧ p.1.toInt < s.screenWidth.toInt) ∧
    0 ≤ p.2.toInt ∧ p.2.toInt < s.screenHeight.toInt := by
  rw [screenRect, Rect.mem_region, Int32.le_iff_toInt_le, Int32.lt_iff_toInt_lt, Int32.le_iff_toInt_le,
    Int32.lt_iff_toInt_lt, Int32.toInt_zero, and_assoc]

/-- The index of a pixel of the screen does not wrap around. -/
lemma Fits.pixel_eq (hs : s.Fits) (hp : p ∈ s.screenRect.region) :
    (s.pixel p : ℤ) = p.1.toInt + s.screenPitch.toNat * p.2.toInt ∧ s.pixel p < 2 ^ 32 := by
  obtain ⟨⟨hx, hx'⟩, hy, hy'⟩ := mem_screenRect.mp hp
  have hrow : (s.screenPitch.toNat : ℤ) * (p.2.toInt + 1) ≤ s.screenPitch.toNat * s.screenHeight.toInt :=
    Int.mul_le_mul_of_nonneg_left hy' (Int.natCast_nonneg _)
  have hstart : 0 ≤ (s.screenPitch.toNat : ℤ) * p.2.toInt :=
    Int.mul_nonneg (Int.natCast_nonneg _) hy
  have hpitch := hs.pitch
  have hsize := hs.size
  rw [Int.mul_add, Int.mul_one] at hrow
  have hmod : (p.1.toInt + s.screenPitch.toNat * p.2.toInt) % 2 ^ 64 =
      p.1.toInt + s.screenPitch.toNat * p.2.toInt := Int.emod_eq_of_lt (by omega) (by omega)
  rw [pixel, cell, hmod]
  omega

/-- Different pixels have different cells. -/
lemma Fits.pixel_inj (hs : s.Fits) (hp : p ∈ s.screenRect.region) (hq : q ∈ s.screenRect.region)
    (h : s.pixel p = s.pixel q) : p = q := by
  obtain ⟨hp₁, -⟩ := hs.pixel_eq hp
  obtain ⟨hq₁, -⟩ := hs.pixel_eq hq
  obtain ⟨⟨hx, hx'⟩, hy, hy'⟩ := mem_screenRect.mp hp
  obtain ⟨⟨hu, hu'⟩, hw, hw'⟩ := mem_screenRect.mp hq
  have hpitch := hs.pitch
  have hpos : 0 < (s.screenPitch.toNat : ℤ) := by omega
  -- the row is the quotient by the pitch, the column the remainder
  obtain ⟨hrow, hcolumn⟩ := (Int.ediv_emod_unique hpos).mpr ⟨hp₁.symm, hx, hx'.trans_le hpitch⟩
  obtain ⟨hrow', hcolumn'⟩ := (Int.ediv_emod_unique hpos).mpr ⟨hq₁.symm, hu, hu'.trans_le hpitch⟩
  rw [h] at hrow hcolumn
  exact Prod.ext (Int32.toInt_inj.mp (hcolumn.symm.trans hcolumn'))
    (Int32.toInt_inj.mp (hrow.symm.trans hrow'))

/-! ### The focus border -/

/-- The colour after the border has been drawn `n` times over a pixel. -/
def tint (n : ℕ) : Color → Color := (blend focusColor)^[n]

/-- Drawing pixels blends the colour with the one that they are about. -/
lemma effect_drawPixels {t : Painter} (l : List (Int32 × Int32))
    (h : ∀ q, t.clips q.1 q.2 = false → (t.index q.1.toUInt32 q.2.toUInt32 = i ↔ q = p)) :
    Access.effect (t.drawPixels color l) i v =
      (blend color)^[if t.clips p.1 p.2 then 0 else l.count p] v := by
  rw [Painter.drawPixels]
  induction l generalizing v with
  | nil => simp
  | cons q l ih =>
    rw [List.flatMap_cons, Access.effect_append, ih, Painter.drawPixel]
    by_cases hclip : t.clips q.1 q.2 = true
    · rw [if_pos hclip, Access.effect_nil]
      by_cases hq : q = p
      · subst hq
        rw [if_pos hclip, if_pos hclip]
      · rw [List.count_cons_of_ne hq]
    · rw [if_neg hclip, Access.effect_cons, Access.effect_nil]
      have hindex := h q (Bool.eq_false_of_not_eq_true hclip)
      by_cases hq : q = p
      · rw [if_pos (hindex.mpr hq)]
        subst hq
        rw [if_neg hclip, if_neg hclip, List.count_cons_self, Function.iterate_succ_apply]
      · rw [if_neg (mt hindex.mp hq), List.count_cons_of_ne hq]

/-- A pixel is drawn when it is on the screen and no edge of the rectangle lies between. -/
lemma Fits.clips_painter (hs : s.Fits) : (s.painter rect).clips p.1 p.2 = false ↔
    p ∈ s.screenRect.region ∧ rect.clipContains p = true := by
  have hw := hs.width
  have hh := hs.height
  have hlast : ∀ n : Int32, 0 ≤ n.toInt → ((n.toUInt32 - 1).toInt32).toInt = n.toInt - 1 := by
    intro n hn
    have hsub : (n.toUInt32 - 1).toInt32 = n - 1 := rfl
    rw [hsub, Int32.toInt_sub, Int.bmod_def]
    have hlt := n.toInt_lt
    have hone : (1 : Int32).toInt = 1 := rfl
    omega
  have hx := hlast _ hw
  have hy := hlast _ hh
  rw [Painter.clips, Bool.or_eq_false_iff, Bool.or_eq_false_iff, Bool.or_eq_false_iff, mem_screenRect]
  simp only [decide_eq_false_iff_not, Std.not_lt, gt_iff_lt, Rect.clipContains, Bool.and_eq_true,
    decide_eq_true_eq]
  simp only [painter, Painter.setClipping, Painter.create, Painter.revertClipping, Rect.max_le_iff,
    Std.le_min_iff]
  simp only [Int32.le_iff_toInt_le, hx, hy, Int32.toInt_zero]
  omega

/-- The painter finds the cell of a pixel of the screen. -/
lemma Fits.index_painter (hs : s.Fits) (hp : p ∈ s.screenRect.region) :
    (s.painter rect).index p.1.toUInt32 p.2.toUInt32 = s.pixel p := by
  obtain ⟨hcell, hlt⟩ := hs.pixel_eq hp
  obtain ⟨⟨hx, -⟩, hy, -⟩ := mem_screenRect.mp hp
  have hx' : (p.1.toUInt32.toNat : ℤ) = p.1.toInt := by
    rcases Span.toNat_toUInt32 p.1 with h | h <;> omega
  have hy' : (p.2.toUInt32.toNat : ℤ) = p.2.toInt := by
    rcases Span.toNat_toUInt32 p.2 with h | h <;> omega
  have hnat : s.pixel p = p.1.toUInt32.toNat + s.screenPitch.toNat * p.2.toUInt32.toNat := by
    rw [← hx', ← hy'] at hcell
    exact_mod_cast hcell
  rw [Painter.index, UInt32.toNat_add, UInt32.toNat_mul, Nat.add_mod_mod]
  show (p.1.toUInt32.toNat + s.screenPitch.toNat * p.2.toUInt32.toNat) % 2 ^ 32 = _
  rw [← hnat, Nat.mod_eq_of_lt hlt]

/-- What the focus border makes of a pixel. -/
lemma Fits.effect_focusBorder (hs : s.Fits) (hp : p ∈ s.screenRect.region) (src rect : Rect) (v : Color) :
    Access.effect (s.focusBorder src rect) (s.pixel p) v =
      tint (if rect.clipContains p then (border src).count p else 0) v := by
  have hindex : ∀ q : Int32 × Int32, (s.painter rect).clips q.1 q.2 = false →
      ((s.painter rect).index q.1.toUInt32 q.2.toUInt32 = s.pixel p ↔ q = p) := by
    intro q hq
    have hscreen := (hs.clips_painter.mp hq).1
    rw [hs.index_painter hscreen]
    exact ⟨hs.pixel_inj hscreen hp, congrArg s.pixel⟩
  rw [focusBorder, Painter.drawWideRect, effect_drawPixels _ hindex, tint]
  congr 1
  by_cases hclip : rect.clipContains p = true
  · rw [if_pos hclip, if_neg (by rw [hs.clips_painter.mpr ⟨hp, hclip⟩]; exact Bool.false_ne_true)]
    rfl
  · rw [if_neg hclip, if_pos]
    by_contra hfalse
    exact hclip (hs.clips_painter.mp (Bool.eq_false_of_not_eq_true hfalse)).2

/-- The border is drawn in cells of pixels of the screen. -/
lemma Fits.index_focusBorder (hs : s.Fits) {a : Access Color} (ha : a ∈ s.focusBorder src rect) :
    ∃ q ∈ s.screenRect.region, a.index = s.pixel q := by
  obtain ⟨q, -, ha⟩ := List.mem_flatMap.mp ha
  rw [Painter.drawPixel] at ha
  split_ifs at ha with hclip
  · exact absurd ha List.not_mem_nil
  · have hscreen := (hs.clips_painter.mp (Bool.eq_false_of_not_eq_true hclip)).1
    rw [List.mem_singleton.mp ha]
    exact ⟨q, hscreen, hs.index_painter hscreen⟩

/-! ### Copies -/

/-- The accesses store the colour of each pixel of a rectangle, and nothing else. -/
structure Copies (s : Scene) (l : Painter.Accesses) (rect : Rect) (color : Int32 × Int32 → Color) : Prop where
  only : ∀ a ∈ l, ∃ q ∈ rect.region, a = .put (s.pixel q) (color q)
  all : ∀ q ∈ rect.region, .put (s.pixel q) (color q) ∈ l

variable {l : Painter.Accesses} {colors framebuffer : ℕ → Color} {paint : Int32 × Int32 → Color}

lemma Copies.effect_of_mem (h : s.Copies l rect paint) (hs : s.Fits)
    (hin : rect.region ⊆ s.screenRect.region) (hp : p ∈ rect.region) (v : Color) :
    Access.effect l (s.pixel p) v = paint p := by
  apply Access.sets_of_writes (c := paint p)
  · intro a ha hindex
    obtain ⟨q, hq, rfl⟩ := h.only a ha
    rw [hs.pixel_inj (hin hq) (hin hp) hindex]
    exact fun _ => rfl
  · exact ⟨_, h.all p hp, rfl⟩

lemma Copies.index (h : s.Copies l rect paint) {a : Access Color} (ha : a ∈ l) :
    ∃ q ∈ rect.region, a.index = s.pixel q := by
  obtain ⟨q, hq, rfl⟩ := h.only a ha
  exact ⟨q, hq, rfl⟩

/-- Cells that are no pixels of the screen are kept. -/
lemma Copies.effect_of_ne (h : s.Copies l rect paint) (hin : rect.region ⊆ s.screenRect.region)
    (hi : ∀ q ∈ s.screenRect.region, i ≠ s.pixel q) (v : Color) : Access.effect l i v = v := by
  apply Access.effect_of_untouched
  intro a ha hindex
  obtain ⟨q, hq, hindex'⟩ := h.index ha
  exact hi q (hin hq) (hindex.symm.trans hindex')

/-- The pixels of the screen outside the rectangle are kept. -/
lemma Copies.effect (h : s.Copies l rect paint) (hs : s.Fits) (hin : rect.region ⊆ s.screenRect.region)
    (hp : p ∈ s.screenRect.region) (v : Color) :
    Access.effect l (s.pixel p) v = if rect.contains p.1 p.2 then paint p else v := by
  split_ifs with hmem
  · exact h.effect_of_mem hs hin hmem _
  · apply Access.effect_of_untouched
    intro a ha hindex
    obtain ⟨q, hq, hindex'⟩ := h.index ha
    rw [hs.pixel_inj (hin hq) hp (hindex'.symm.trans hindex)] at hq
    exact hmem hq

lemma mem_upFrom {x first stop : Int32} : x ∈ upFrom first stop ↔ first ≤ x ∧ x < stop := by
  have hx := x.toInt_lt
  have hfirst := first.le_toInt
  have hstop := stop.toInt_lt
  rw [upFrom, List.mem_map, Int32.le_iff_toInt_le, Int32.lt_iff_toInt_lt]
  constructor
  · rintro ⟨k, hk, rfl⟩
    rw [List.mem_range] at hk
    rw [toInt_add_ofNat (by omega)]
    omega
  · rintro ⟨hle, hlt⟩
    refine ⟨(x.toInt - first.toInt).toNat, List.mem_range.mpr (by omega), Int32.toInt_inj.mp ?_⟩
    rw [toInt_add_ofNat (by omega)]
    omega

lemma copies_background (h : s.wallpaper = some colors) (rect : Rect) : s.Copies (s.background rect) rect
    fun q => colors (q.1.toUInt32 + s.wallpaperWidth * q.2.toUInt32).toNat := by
  rw [background]
  by_cases hnull : rect.isNull = true
  · rw [if_pos hnull]
    refine ⟨fun a ha => absurd ha List.not_mem_nil, fun q hq => ?_⟩
    rw [Rect.region_of_isNull hnull] at hq
    exact hq.elim
  · rw [if_neg hnull, h]
    constructor
    · intro a ha
      obtain ⟨x, hx, ha⟩ := List.mem_flatMap.mp ha
      obtain ⟨y, hy, rfl⟩ := List.mem_map.mp ha
      obtain ⟨hx, hx'⟩ := mem_upFrom.mp hx
      obtain ⟨hy, hy'⟩ := mem_upFrom.mp hy
      exact ⟨(x, y), (Rect.mem_region _).mpr ⟨hx, hx', hy, hy'⟩, rfl⟩
    · intro q hq
      obtain ⟨hx, hx', hy, hy'⟩ := (Rect.mem_region q).mp hq
      refine List.mem_flatMap.mpr ⟨q.1, mem_upFrom.mpr ⟨hx, hx'⟩, ?_⟩
      exact List.mem_map.mpr ⟨q.2, mem_upFrom.mpr ⟨hy, hy'⟩, rfl⟩

/-! ### The framebuffer of a window -/

variable {first stop srcFirst srcStop x : Int32}

/-- The distance of two words, as an unsigned one. -/
lemma toNat_sub_cases (x first : Int32) :
    (first.toInt ≤ x.toInt ∧ ((x - first).toUInt32.toNat : ℤ) = x.toInt - first.toInt) ∨
      x.toInt < first.toInt ∧ ((x - first).toUInt32.toNat : ℤ) = x.toInt - first.toInt + 2 ^ 32 := by
  have h := Span.toNat_toUInt32 (x - first)
  rw [Int32.toInt_sub, Int.bmod_def] at h
  have hx := x.le_toInt
  have hx' := x.toInt_lt
  have hf := first.le_toInt
  have hf' := first.toInt_lt
  omega

/-- The clipping of `draw_window` keeps the columns (or rows) of the rectangle. -/
lemma clippedRange_eq (h₁ : srcFirst ≤ first) (h₂ : stop ≤ srcStop) :
    clippedRange srcFirst srcStop first stop = ((first - srcFirst).toUInt32, (stop - srcFirst).toUInt32) := by
  have hfirst : (if srcFirst < first then (first - srcFirst).toUInt32 else 0) =
      (first - srcFirst).toUInt32 := by
    split_ifs with hlt
    · rfl
    · obtain rfl := Std.le_antisymm h₁ (Std.not_lt.mp hlt)
      rw [Int32.sub_self]
      rfl
  have hmax : max srcFirst first = first := if_pos h₁
  rw [clippedRange, hfirst, hmax, Prod.mk.injEq]
  refine ⟨rfl, ?_⟩
  split_ifs with hgt
  · have hsub : ∀ a b : Int32, (a - b).toUInt32 = a.toUInt32 - b.toUInt32 := fun _ _ => rfl
    rw [hsub, hsub]
    grind
  · rw [Std.le_antisymm h₂ (Std.not_lt.mp hgt)]

/-- A column of the window is copied when its place on the screen is in the rectangle. -/
lemma mem_copied (h₁ : srcFirst ≤ first) (h₂ : first ≤ stop) : (x - srcFirst).toUInt32 ∈
    Painter.between (first - srcFirst).toUInt32 (stop - srcFirst).toUInt32 ↔ first ≤ x ∧ x < stop := by
  rw [Int32.le_iff_toInt_le] at h₁ h₂
  rw [Span.mem_between, UInt32.le_iff_toNat_le, UInt32.lt_iff_toNat_lt, Int32.le_iff_toInt_le,
    Int32.lt_iff_toInt_lt]
  have hx := toNat_sub_cases x srcFirst
  have hfirst := toNat_sub_cases first srcFirst
  have hstop := toNat_sub_cases stop srcFirst
  have hlow := x.le_toInt
  have hhigh := stop.toInt_lt
  omega

/-- The cell of a framebuffer that is shown at a pixel of the screen. -/
def offsetOf (src : Rect) (q : Int32 × Int32) : ℕ :=
  ((q.1 - src.x1).toUInt32 + src.width.toUInt32 * (q.2 - src.y1).toUInt32).toNat

/-- The colour of a window at a pixel of the screen. -/
def colorOf (framebuffer : ℕ → Color) (src : Rect) (q : Int32 × Int32) : Color :=
  framebuffer (offsetOf src q)

/-- The framebuffer is copied to the pixels of the rectangle. -/
lemma copies_blit (hin : rect.Within src) (hrect : rect.Normal) (hleft : 0 ≤ rect.x1) (htop : 0 ≤ rect.y1) :
    s.Copies (s.blit framebuffer src (rect.x1 - src.x1).toUInt32 (rect.x2 - src.x1).toUInt32
      (rect.y1 - src.y1).toUInt32 (rect.y2 - src.y1).toUInt32) rect (colorOf framebuffer src) := by
  have hnat : ∀ q : Int32, 0 ≤ q → (q.toUInt32.toNat : ℤ) = q.toInt := by
    intro q hq
    rw [Int32.le_iff_toInt_le, Int32.toInt_zero] at hq
    rcases Span.toNat_toUInt32 q with h | h <;> omega
  have hplace : ∀ (a c x : UInt32), a + c + (x - c) = a + x := by
    intro a c x
    grind
  constructor
  · intro a ha
    obtain ⟨x, hx, ha⟩ := List.mem_flatMap.mp ha
    obtain ⟨y, hy, rfl⟩ := List.mem_map.mp ha
    have hxq : x = ((src.x1.toUInt32 + x).toInt32 - src.x1).toUInt32 := by
      show x = src.x1.toUInt32 + x - src.x1.toUInt32
      grind
    have hyq : y = ((src.y1.toUInt32 + y).toInt32 - src.y1).toUInt32 := by
      show y = src.y1.toUInt32 + y - src.y1.toUInt32
      grind
    rw [hxq] at hx
    rw [hyq] at hy
    obtain ⟨hx, hx'⟩ := (mem_copied hin.left hrect.x).mp hx
    obtain ⟨hy, hy'⟩ := (mem_copied hin.top hrect.y).mp hy
    refine ⟨((src.x1.toUInt32 + x).toInt32, (src.y1.toUInt32 + y).toInt32),
      (Rect.mem_region _).mpr ⟨hx, hx', hy, hy'⟩, ?_⟩
    rw [hplace, hplace, pixel, colorOf, offsetOf, ← hxq, ← hyq, ← hnat _ (Std.le_trans hleft hx),
      ← hnat _ (Std.le_trans htop hy)]
    rfl
  · intro q hq
    obtain ⟨hx, hx', hy, hy'⟩ := (Rect.mem_region q).mp hq
    refine List.mem_flatMap.mpr ⟨_, (mem_copied hin.left hrect.x).mpr ⟨hx, hx'⟩, ?_⟩
    refine List.mem_map.mpr ⟨_, (mem_copied hin.top hrect.y).mpr ⟨hy, hy'⟩, ?_⟩
    have hback : ∀ a b : Int32, a.toUInt32 + (b - a).toUInt32 = b.toUInt32 := by
      intro a b
      show a.toUInt32 + (b.toUInt32 - a.toUInt32) = b.toUInt32
      grind
    rw [hplace, hplace, hback, hback]
    dsimp only
    rw [hnat _ (Std.le_trans hleft hx), hnat _ (Std.le_trans htop hy)]
    rfl

/-! ### One call -/

/-- The call is one for a part of the screen, and of a window that `draw_window` does not skip. -/
structure Drawable (s : Scene) (d : Draw) : Prop where
  normal : d.rect.Normal
  inside : d.rect.Within s.screenRect
  visible : ∀ w, d.window = some w → w.visible = true
  within : ∀ w, d.window = some w → d.rect.Within w.geometry
  notNull : ∀ w, d.window = some w → d.rect.isNull = false
  intersects : ∀ w, d.window = some w → w.geometry.intersects d.rect = true

/-- How often the call draws the focus border over a pixel. -/
def borderCount (s : Scene) (d : Draw) (p : Int32 × Int32) : ℕ :=
  match d.window with
  | none => 0
  | some w => if s.focus w.pointer && d.rect.clipContains p then (border w.geometry).count p else 0

/-- The framebuffer of a window with its frame. -/
def framed (s : Scene) (c : Canvas) (w : Window) : ℕ → Color :=
  Access.run (s.frame w) (c.framebuffer w.pointer)

/-- What the call copies to a pixel of its rectangle. -/
def colorAt (s : Scene) (c : Canvas) (d : Draw) (p : Int32 × Int32) : Color :=
  match d.window, s.wallpaper with
  | some w, _ => colorOf (s.framed c w) w.geometry p
  | none, some colors => colors (p.1.toUInt32 + s.wallpaperWidth * p.2.toUInt32).toNat
  | none, none => c.screen (s.pixel p)

variable {c : Canvas} {d : Draw} {w : Window}

lemma Drawable.region_subset (h : s.Drawable d) : d.rect.region ⊆ s.screenRect.region :=
  Rect.region_subset_of_within h.inside

/-- A call for a window is not one for no column, or for no row. -/
lemma Drawable.ranges_ne (h : s.Drawable d) (hw : d.window = some w) :
    ¬((d.rect.x1 - w.geometry.x1).toUInt32 = (d.rect.x2 - w.geometry.x1).toUInt32 ∨
      (d.rect.y1 - w.geometry.y1).toUInt32 = (d.rect.y2 - w.geometry.y1).toUInt32) := by
  have hcancel : ∀ a b c : Int32, (a - c).toUInt32 = (b - c).toUInt32 → b = a := by
    intro a b c heq
    have hsub : a - c = b - c := congrArg UInt32.toInt32 heq
    grind
  rintro (heq | heq)
  · exact absurd (h.notNull w hw) (by rw [Rect.isNull_iff.mpr (.inl (hcancel _ _ _ heq))]; exact nofun)
  · exact absurd (h.notNull w hw) (by rw [Rect.isNull_iff.mpr (.inr (hcancel _ _ _ heq))]; exact nofun)

lemma window_eq (h : s.Drawable d) (hw : d.window = some w) (framebuffer : ℕ → Color) :
    s.window framebuffer w d.rect =
      s.blit framebuffer w.geometry (d.rect.x1 - w.geometry.x1).toUInt32 (d.rect.x2 - w.geometry.x1).toUInt32
        (d.rect.y1 - w.geometry.y1).toUInt32 (d.rect.y2 - w.geometry.y1).toUInt32 ++
      if s.focus w.pointer then s.focusBorder w.geometry d.rect else [] := by
  have hin := h.within w hw
  rw [window, clippedRange_eq hin.left hin.right, clippedRange_eq hin.top hin.bottom]
  exact if_neg (h.ranges_ne hw)

/-- A window that is not skipped draws its frame, and then on the screen. -/
lemma draw_window (h : s.Drawable d) (hw : d.window = some w) (c : Canvas) : s.draw c d =
    { screen := Access.run (s.window (s.framed c w) w d.rect) c.screen
      framebuffer := Function.update c.framebuffer w.pointer (s.framed c w) } := by
  rw [draw, hw]
  dsimp only
  rw [drawWindow, h.visible w hw, h.intersects w hw]
  rfl

lemma draw_background (hw : d.window = none) (c : Canvas) :
    s.draw c d = { c with screen := Access.run (s.background d.rect) c.screen } := by
  rw [draw, hw]

/-- The background without a wallpaper is not drawn. -/
lemma background_eq_nil (h : s.wallpaper = none) : s.background rect = [] := by
  rw [background, h]
  exact ite_self _

/-- The copies of a call, and the border over them. -/
lemma exists_copies (h : s.Drawable d) (c : Canvas) :
    ∃ l, (s.draw c d).screen = Access.run (l ++ match d.window with
        | none => []
        | some w => if s.focus w.pointer then s.focusBorder w.geometry d.rect else []) c.screen ∧
      (s.Copies l d.rect (s.colorAt c d) ∨ l = [] ∧ d.window = none ∧ s.wallpaper = none) := by
  cases hw : d.window with
  | none =>
    refine ⟨s.background d.rect, ?_, ?_⟩
    · rw [draw_background hw, List.append_nil]
    · cases hwallpaper : s.wallpaper with
      | none => exact .inr ⟨background_eq_nil hwallpaper, rfl, rfl⟩
      | some colors =>
        have hcolor : s.colorAt c d =
            fun q => colors (q.1.toUInt32 + s.wallpaperWidth * q.2.toUInt32).toNat := by
          funext q
          rw [colorAt, hw, hwallpaper]
        rw [hcolor]
        exact .inl (copies_background hwallpaper d.rect)
  | some w =>
    have hcolor : s.colorAt c d = colorOf (s.framed c w) w.geometry := by
      funext q
      rw [colorAt, hw]
    rw [draw_window h hw, hcolor]
    exact ⟨_, by rw [window_eq h hw], .inl (copies_blit (h.within w hw) h.normal h.inside.left h.inside.top)⟩

/-- A call copies a colour to the pixels of its rectangle, and draws the border over it. -/
lemma draw_pixel (hs : s.Fits) (h : s.Drawable d) (hp : p ∈ s.screenRect.region) (c : Canvas) :
    (s.draw c d).screen (s.pixel p) = tint (s.borderCount d p)
      (if d.rect.contains p.1 p.2 then s.colorAt c d p else c.screen (s.pixel p)) := by
  obtain ⟨l, hscreen, hl⟩ := exists_copies h c
  have hcopy : Access.effect l (s.pixel p) (c.screen (s.pixel p)) =
      if d.rect.contains p.1 p.2 then s.colorAt c d p else c.screen (s.pixel p) := by
    rcases hl with hl | ⟨rfl, hw, hwallpaper⟩
    · exact hl.effect hs h.region_subset hp _
    · rw [colorAt, hw, hwallpaper]
      exact (ite_self _).symm
  rw [hscreen, Access.run_apply, Access.effect_append, hcopy, borderCount]
  cases d.window with
  | none => rfl
  | some w =>
    cases hfocus : s.focus w.pointer with
    | false => simp [tint, hfocus]
    | true => simpa [hfocus] using hs.effect_focusBorder hp w.geometry d.rect _

/-- No other cell is written. -/
lemma draw_cell (hs : s.Fits) (h : s.Drawable d) (hi : ∀ q ∈ s.screenRect.region, i ≠ s.pixel q)
    (c : Canvas) : (s.draw c d).screen i = c.screen i := by
  obtain ⟨l, hscreen, hl⟩ := exists_copies h c
  rw [hscreen, Access.run_apply, Access.effect_append]
  have hcopy : Access.effect l i (c.screen i) = c.screen i := by
    rcases hl with hl | ⟨rfl, -⟩
    · exact hl.effect_of_ne h.region_subset hi _
    · rfl
  rw [hcopy]
  apply Access.effect_of_untouched
  intro a ha hindex
  cases hw : d.window with
  | none => simp [hw] at ha
  | some w =>
    rw [hw] at ha
    dsimp only at ha
    split_ifs at ha
    · obtain ⟨q, hq, hindex'⟩ := hs.index_focusBorder ha
      exact hi q hq (hindex.symm.trans hindex')
    · exact absurd ha List.not_mem_nil

end Scene

end PiKachulm.Wm

import PiKachulm.Wm.Stack

/-!
# Placing a window

`set_window_geometry` keeps a window on the screen: it first puts the size between its bounds, then the
position, and tells the window what has changed. Its second overload takes a position, which may be a
special one, and a size; the sums of the corners wrap around.
-/

namespace PiKachulm.Wm

/-- The rectangle lies on a screen of the given size. -/
structure Rect.OnScreen (r : Rect) (width height : Int32) : Prop where
  normal : r.Normal
  left : 0 ≤ r.x1
  top : 0 ≤ r.y1
  right : r.x2 ≤ width
  bottom : r.y2 ≤ height

namespace WindowManager

/-- The size of the rectangle is between the bounds for a window. -/
structure SizeFits (s : WindowManager) (width height : Int32) : Prop where
  minWidth : minSize ≤ width
  maxWidth : width ≤ min maxSize s.screenWidth
  minHeight : minSize ≤ height
  maxHeight : height ≤ min maxSize s.screenHeight

/-- A window may be at this position with this size. -/
structure Fits (s : WindowManager) (x y w h : Int32) : Prop extends SizeFits s w h where
  left : 0 ≤ x
  right : x.toInt + w.toInt ≤ s.screenWidth.toInt
  top : 0 ≤ y
  bottom : y.toInt + h.toInt ≤ s.screenHeight.toInt

/-- What the window is told when it is moved or resized. -/
def placeMessages (old new : Rect) : List Message :=
  (if old.x1 ≠ new.x1 ∨ old.y1 ≠ new.y1 then [.move new.x1 new.y1] else []) ++
    (if old.width ≠ new.width ∨ old.height ≠ new.height then [.resize new.width new.height] else [])

/-- From `s` to `s'` the window has been placed on the screen. -/
structure Placed (s s' : WindowManager) (window : ℕ) : Prop where
  onScreen : (s'.window window).geometry.OnScreen s.screenWidth s.screenHeight
  size : s.SizeFits (s'.window window).geometry.width (s'.window window).geometry.height
  posted : (s'.window window).posted =
    (s.window window).posted ++ placeMessages (s.window window).geometry (s'.window window).geometry
  others : ∀ v, v ≠ window → s'.window v = s.window v
  again : s'.setWindowGeometry window (s'.window window).geometry = s'

/-! ### The constraints -/

variable {s : WindowManager}

lemma clamp_bounds {x a b : Int32} (h : a ≤ b) : a ≤ clamp x a b ∧ clamp x a b ≤ b := by
  rw [clamp]
  refine ⟨Std.le_min_iff.mpr ⟨h, ?_⟩, Std.min_le_left⟩
  rw [show max a x = if a ≤ x then x else a from rfl]
  split_ifs with hx
  · exact hx
  · exact Std.le_refl _

/-- One dimension of a rectangle that is put on the screen. -/
lemma constrained (size pos : Int32) {bound : Int32} (h : 0 ≤ bound) :
    let size := clamp size minSize (min maxSize bound)
    let pos := clamp pos 0 (bound - size)
    0 ≤ pos ∧ pos ≤ pos + size ∧ pos + size ≤ bound := by
  intro width x
  have hwidth : 0 ≤ width ∧ width ≤ bound := by
    refine ⟨Std.le_min_iff.mpr ⟨Std.le_min_iff.mpr ⟨by decide, h⟩, ?_⟩, ?_⟩
    · rw [show max minSize size = if minSize ≤ size then size else minSize from rfl]
      split_ifs with hs
      · exact Std.le_trans (by decide) hs
      · decide
    · exact Std.le_trans Std.min_le_left Std.min_le_right
  have hx : 0 ≤ x ∧ x ≤ bound - width := clamp_bounds (by grind)
  grind

lemma onScreen_constrain (rect : Rect) (hwidth : 0 ≤ s.screenWidth) (hheight : 0 ≤ s.screenHeight) :
    (s.constrain rect).OnScreen s.screenWidth s.screenHeight := by
  obtain ⟨hx, hx', hx''⟩ := constrained rect.width rect.x1 hwidth
  obtain ⟨hy, hy', hy''⟩ := constrained rect.height rect.y1 hheight
  exact ⟨⟨hx', hy'⟩, hx, hy, hx'', hy''⟩

lemma clamp_of_le {x a b : Int32} (ha : a ≤ x) (hb : x ≤ b) : clamp x a b = x := by
  rw [clamp, show max a x = if a ≤ x then x else a from rfl, if_pos ha]
  rw [show min b x = if b ≤ x then b else x from rfl]
  split_ifs
  · grind
  · rfl

private lemma minSize_le {bound : Int32} (h : minSize ≤ bound) : minSize ≤ min maxSize bound :=
  Std.le_min_iff.mpr ⟨by decide, h⟩

lemma sizeFits_constrain (rect : Rect) (hwidth : minSize ≤ s.screenWidth)
    (hheight : minSize ≤ s.screenHeight) :
    s.SizeFits (s.constrain rect).width (s.constrain rect).height := by
  have hsub : ∀ x y : Int32, x + y - x = y := by
    intro x y
    grind
  have hw : (s.constrain rect).width = clamp rect.width minSize (min maxSize s.screenWidth) := hsub _ _
  have hh : (s.constrain rect).height = clamp rect.height minSize (min maxSize s.screenHeight) := hsub _ _
  rw [hw, hh]
  obtain ⟨hminWidth, hmaxWidth⟩ := clamp_bounds (x := rect.width) (minSize_le hwidth)
  obtain ⟨hminHeight, hmaxHeight⟩ := clamp_bounds (x := rect.height) (minSize_le hheight)
  exact ⟨hminWidth, hmaxWidth, hminHeight, hmaxHeight⟩

/-- A window that is where it may be stays there. -/
lemma constrain_of_onScreen {rect : Rect} (h : rect.OnScreen s.screenWidth s.screenHeight)
    (hsize : s.SizeFits rect.width rect.height) : s.constrain rect = rect := by
  rw [constrain, clamp_of_le hsize.minWidth hsize.maxWidth, clamp_of_le hsize.minHeight hsize.maxHeight]
  obtain ⟨⟨hx, hy⟩, hl, ht, hr, hb⟩ := h
  have hplace : ∀ x x' bound : Int32, 0 ≤ x → x ≤ x' → x' ≤ bound →
      x ≤ bound - (x' - x) ∧ x + (x' - x) = x' := by
    intro x x' bound h₀ h₁ h₂
    grind
  obtain ⟨hsx, hx2⟩ : rect.x1 ≤ s.screenWidth - rect.width ∧ rect.x1 + rect.width = rect.x2 :=
    hplace _ _ _ hl hx hr
  obtain ⟨hsy, hy2⟩ : rect.y1 ≤ s.screenHeight - rect.height ∧ rect.y1 + rect.height = rect.y2 :=
    hplace _ _ _ ht hy hb
  rw [clamp_of_le hl hsx, clamp_of_le ht hsy]
  exact congrArg₂ (Rect.mk rect.x1 rect.y1) hx2 hy2

/-! ### The call -/

variable {window v : ℕ} {rect : Rect}

lemma setWindowGeometry_window (s : WindowManager) (window : ℕ) (rect : Rect) :
    (s.setWindowGeometry window rect).window = Function.update s.window window
      { s.window window with
        geometry := s.constrain rect
        posted := (s.window window).posted ++
          placeMessages (s.window window).geometry (s.constrain rect) } := by
  rw [setWindowGeometry, placeMessages]
  dsimp only
  split_ifs <;> funext v <;> by_cases hv : v = window <;>
    simp [update, postMessage, modify, Function.update, hv]

/-- A window that is told nothing is not drawn again. -/
lemma setWindowGeometry_self (h : s.constrain (s.window window).geometry = (s.window window).geometry) :
    s.setWindowGeometry window (s.window window).geometry = s := by
  have hmodify : s.modify window (fun w => { w with geometry := (s.window window).geometry }) = s := by
    rw [modify]
    congr 1
    exact Function.update_eq_self window s.window
  rw [setWindowGeometry, h, hmodify]
  simp

lemma setWindowGeometry_screen : (s.setWindowGeometry window rect).screenWidth = s.screenWidth ∧
    (s.setWindowGeometry window rect).screenHeight = s.screenHeight := by
  rw [setWindowGeometry]
  split_ifs <;> exact ⟨rfl, rfl⟩

lemma setWindowGeometry_windows : (s.setWindowGeometry window rect).windows = s.windows := by
  rw [setWindowGeometry]
  split_ifs <;> rfl

/-- The first overload places the window, whatever the rectangle. -/
lemma placed_setWindowGeometry (s : WindowManager) (window : ℕ) (rect : Rect)
    (hwidth : minSize ≤ s.screenWidth) (hheight : minSize ≤ s.screenHeight) :
    s.Placed (s.setWindowGeometry window rect) window := by
  obtain ⟨hw, hh⟩ : 0 ≤ s.screenWidth ∧ 0 ≤ s.screenHeight :=
    ⟨Std.le_trans (by decide) hwidth, Std.le_trans (by decide) hheight⟩
  have hwindow := setWindowGeometry_window s window rect
  have hgeometry : ((s.setWindowGeometry window rect).window window).geometry = s.constrain rect := by
    rw [hwindow, Function.update_self]
  have honscreen := onScreen_constrain rect hw hh
  have hsize := sizeFits_constrain rect hwidth hheight
  refine ⟨?_, ?_, ?_, ?_, ?_⟩
  · rw [hgeometry]
    exact honscreen
  · rw [hgeometry]
    exact hsize
  · rw [hgeometry, hwindow, Function.update_self]
  · intro v hv
    rw [hwindow, Function.update_of_ne hv]
  · apply setWindowGeometry_self
    rw [hgeometry, constrain, setWindowGeometry_screen.1, setWindowGeometry_screen.2]
    exact constrain_of_onScreen honscreen hsize

/-! ### The second overload -/

variable {x y w h : Int32}

/-- The state in which the second overload calls the first one: the default position has moved on. -/
lemma placed_of_last {lastX lastY : Int32} {s' : WindowManager}
    (hplaced : { s with lastWindowX := lastX, lastWindowY := lastY }.Placed s' window) :
    s.Placed s' window := by
  obtain ⟨honscreen, hsize, hposted, hothers, hagain⟩ := hplaced
  exact ⟨honscreen, ⟨hsize.minWidth, hsize.maxWidth, hsize.minHeight, hsize.maxHeight⟩, hposted, hothers,
    hagain⟩

lemma placed_setWindowGeometryAt (s : WindowManager) (window : ℕ) (x y w h : Int32)
    (hwidth : minSize ≤ s.screenWidth) (hheight : minSize ≤ s.screenHeight) :
    s.Placed (s.setWindowGeometryAt window x y w h) window := by
  rw [setWindowGeometryAt]
  split_ifs
  all_goals
    exact placed_of_last (placed_setWindowGeometry _ _ _ hwidth hheight)

/-- A position on the screen is none of the special ones. -/
lemma ne_special (hx : 0 ≤ x) : x ≠ posDefault ∧ x ≠ posCentered := by
  constructor <;> rintro rfl <;> exact absurd hx (by decide)

/-- Where a position is no special one, it is taken with the size. -/
lemma setWindowGeometryAt_of_nonneg (hx : 0 ≤ x) (hy : 0 ≤ y) : s.setWindowGeometryAt window x y w h =
    s.setWindowGeometry window (.fromPosAndSize x y w h) := by
  obtain ⟨hx₁, hx₂⟩ := ne_special hx
  obtain ⟨hy₁, hy₂⟩ := ne_special hy
  rw [setWindowGeometryAt]
  simp only [if_neg hx₁, if_neg hx₂, if_neg hy₁, if_neg hy₂]

/-- The sum of a position and a size that end on the screen. -/
lemma add_le_of_toInt {pos size bound : Int32} (hpos : 0 ≤ pos) (hsize : 0 ≤ size)
    (h : pos.toInt + size.toInt ≤ bound.toInt) : pos ≤ pos + size ∧ pos + size ≤ bound := by
  have hbound := bound.toInt_lt
  rw [Int32.le_iff_toInt_le, Int32.toInt_zero] at hpos hsize
  have hsum : (pos + size).toInt = pos.toInt + size.toInt := by
    rw [Int32.toInt_add, Int.bmod_def]
    split_ifs <;> omega
  rw [Int32.le_iff_toInt_le, Int32.le_iff_toInt_le, hsum]
  exact ⟨Int.le_add_of_nonneg_right hsize, h⟩

/-- Where the position and the size are as they may be, the sums of the corners do not wrap around. -/
lemma Fits.rect_eq (hfits : s.Fits x y w h) :
    Rect.fromPosAndSize x y w h = ⟨x, y, x + w, y + h⟩ ∧
      (Rect.mk x y (x + w) (y + h)).OnScreen s.screenWidth s.screenHeight := by
  obtain ⟨hx, hx'⟩ := add_le_of_toInt hfits.left (Std.le_trans (by decide) hfits.minWidth) hfits.right
  obtain ⟨hy, hy'⟩ := add_le_of_toInt hfits.top (Std.le_trans (by decide) hfits.minHeight) hfits.bottom
  exact ⟨Rect.ofCorners_of_le hx hy, ⟨hx, hy⟩, hfits.left, hfits.top, hx', hy'⟩

private lemma sub_add_cancel (a b : Int32) : a + b - a = b ∧ a + (b - a) = b := by
  grind

lemma fromPosAndSize_self {r : Rect} (h : r.Normal) :
    Rect.fromPosAndSize r.x1 r.y1 r.width r.height = r := by
  rw [Rect.fromPosAndSize, Rect.width, Rect.height, (sub_add_cancel _ _).2, (sub_add_cancel _ _).2]
  exact Rect.ofCorners_of_le h.x h.y

/-- The window is placed as asked when this is possible. -/
lemma geometry_of_fits (hfits : s.Fits x y w h) :
    ((s.setWindowGeometryAt window x y w h).window window).geometry = ⟨x, y, x + w, y + h⟩ := by
  obtain ⟨hrect, honscreen⟩ := hfits.rect_eq
  have hsize : s.SizeFits (Rect.mk x y (x + w) (y + h)).width (Rect.mk x y (x + w) (y + h)).height := by
    rw [Rect.width, Rect.height, (sub_add_cancel _ _).1, (sub_add_cancel _ _).1]
    exact hfits.toSizeFits
  rw [setWindowGeometryAt_of_nonneg hfits.left hfits.top, hrect, setWindowGeometry_window,
    Function.update_self]
  exact constrain_of_onScreen honscreen hsize

/-- The second overload places a window again where it is. -/
lemma Placed.again_at {s' : WindowManager} (hplaced : s.Placed s' window) {new : Rect}
    (hnew : (s'.window window).geometry = new) :
    s'.setWindowGeometryAt window new.x1 new.y1 new.width new.height = s' := by
  have honscreen := hplaced.onScreen
  have hagain := hplaced.again
  rw [hnew] at honscreen hagain
  rw [setWindowGeometryAt_of_nonneg honscreen.left honscreen.top, fromPosAndSize_self honscreen.normal,
    hagain]

/-- A window is placed on the screen, with a size between the bounds, and told what has changed; it is
placed as asked when this is possible, and placing it again changes nothing. -/
theorem setWindowGeometryAt_placed (s : WindowManager) (window : ℕ) (x y w h : Int32)
    (hwidth : minSize ≤ s.screenWidth) (hheight : minSize ≤ s.screenHeight) :
    let s' := s.setWindowGeometryAt window x y w h
    let new := (s'.window window).geometry
    s.Placed s' window ∧ (s.Fits x y w h → new = ⟨x, y, x + w, y + h⟩) ∧
      s'.setWindowGeometryAt window new.x1 new.y1 new.width new.height = s' := by
  have hplaced := placed_setWindowGeometryAt s window x y w h hwidth hheight
  exact ⟨hplaced, geometry_of_fits, hplaced.again_at rfl⟩

/-- A window too large for its screen, whose right edge wraps around. -/
theorem setWindowGeometryAt_placed_large :
    (init 100 80).Placed ((init 100 80).setWindowGeometryAt 1 90 posCentered Int32.maxValue 10) 1 :=
  (setWindowGeometryAt_placed (init 100 80) 1 90 posCentered Int32.maxValue 10 (by decide)
    (by decide)).1

end WindowManager

end PiKachulm.Wm

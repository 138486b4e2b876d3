import PiKachulm.Wm.Click
import PiKachulm.Wm.Placement
import PiKachulm.Wm.RectAlgebra

/-!
# The cursor

The cursor is drawn on the screen itself, over the windows. When the mouse moves,
`handle_mouse_move_event` draws again what was below the cursor; the cursor is drawn at its new position
only if this is near the old one. The screen records what has been drawn at each pixel; the focus border,
which is blended with what is there, is left out.
-/

namespace PiKachulm.Wm

open Core

/-! ### The shape -/

def cursorData : List UInt32 :=
  [0xff000000, 0x00000100, 0x00000000, 0x00000000, 0x00000100, 0x00010000, 0x00000000, 0x00000000, 0x00000000,
   0xff000000, 0xff000001, 0x00000000, 0x00000000, 0x00000000, 0x00000000, 0x00000001, 0x00000100, 0x00010000,
   0xff000001, 0xfffffeff, 0xff000000, 0x00000000, 0x00000100, 0x00000000, 0x00000000, 0x00000000, 0x00000000,
   0xff000000, 0xffffffff, 0xfffeffff, 0xff000000, 0x00000100, 0x00010000, 0x00000001, 0x00000100, 0x00010000,
   0xff010000, 0xfffffeff, 0xffffffff, 0xfffffffe, 0xff010001, 0x00000000, 0x00000001, 0x00000100, 0x00000000,
   0xff010001, 0xfffffeff, 0xfffeffff, 0xffffffff, 0xfffffeff, 0xff000000, 0x00000001, 0x00000000, 0x00010000,
   0xff010001, 0xfffffeff, 0xffffffff, 0xffffffff, 0xffffffff, 0xffffffff, 0xff010000, 0x00000000, 0x00010000,
   0xff000101, 0xfffffeff, 0xfffeffff, 0xffffffff, 0xfffffeff, 0xffffffff, 0xffffffff, 0xff000100, 0x00010000,
   0xff000001, 0xffffffff, 0xffffffff, 0xffffffff, 0xffffffff, 0xfffeffff, 0xfffffffe, 0xfffffeff, 0xff000000,
   0xff000000, 0xfffffeff, 0xfffeffff, 0xfffffffe, 0xfffffeff, 0xfffeffff, 0xff000000, 0xff000100, 0xff010000,
   0xff000100, 0xffffffff, 0xfffeffff, 0xff000001, 0xffffffff, 0xfffeffff, 0xff000000, 0x00000000, 0x00000000,
   0xff000000, 0xffffffff, 0xff010000, 0x00000001, 0xff000000, 0xfffeffff, 0xfffffffe, 0xff000100, 0x00010000,
   0xff000000, 0xff000000, 0x00000000, 0x00000001, 0xff000100, 0xfffeffff, 0xfffffffe, 0xff000100, 0x00010000,
   0x00000000, 0x00000100, 0x00000000, 0x00000000, 0x00000000, 0xff000000, 0xffffffff, 0xfffffeff, 0xff010000,
   0x00000001, 0x00000000, 0x00000000, 0x00000001, 0x00000000, 0xff000000, 0xfffffffe, 0xffffffff, 0xff010000,
   0x00000001, 0x00000100, 0x00000000, 0x00000000, 0x00000000, 0x00010000, 0xff000000, 0xff000100, 0x00000000]

def cursorHeight : ℕ := 16

def cursorWidth : ℕ := 9

def cursorColor (i j : ℕ) : UInt32 := cursorData.getD (i + j * cursorWidth) 0

/-- The pixel of the shape is not transparent. -/
def solid (i j : ℕ) : Bool := cursorColor i j &&& 0xff000000 ≠ 0

/-- What the screen shows at a pixel. -/
inductive Paint where
  | window (pointer : ℕ)
  | wallpaper
  | cursor (color : UInt32)
  deriving DecidableEq

abbrev Display := Int32 × Int32 → Paint

/-- The window manager with its cursor, and what the screen shows. -/
structure Desktop where
  manager : WindowManager
  hasWallpaper : Bool
  cursorX : Int32
  cursorY : Int32
  display : Display

namespace Desktop

variable (s : Desktop)

/-! ### Drawing -/

/-- `clip_rect_to_screen`. -/
def clipRectToScreen (rect : Rect) : Rect :=
  ⟨max 0 rect.x1, max 0 rect.y1, min s.manager.screenWidth rect.x2, min s.manager.screenHeight rect.y2⟩

/-- What a call of `draw_window` or `draw_background` draws; there may be no wallpaper. -/
def draw (display : Display) (d : Draw) : Display := fun p =>
  if d.rect.contains p.1 p.2 then
    match d.window with
    | some w => .window w.pointer
    | none => if s.hasWallpaper then .wallpaper else display p
  else display p

def drawCursor : Display :=
  let width := min cursorWidth (s.manager.screenWidth - s.cursorX).toUInt32.toNat
  let height := min cursorHeight (s.manager.screenHeight - s.cursorY).toUInt32.toNat
  let pixels := (List.range width).flatMap fun i => (List.range height).map fun j => (i, j)
  pixels.foldl (fun display q => if solid q.1 q.2 then
    Function.update display (s.cursorX + .ofNat q.1, s.cursorY + .ofNat q.2) (.cursor (cursorColor q.1 q.2))
    else display) s.display

/-- The rectangle of the cursor, cut at the borders of the screen. -/
def cursorRect : Rect :=
  s.clipRectToScreen (.fromPosAndSize s.cursorX s.cursorY (.ofNat cursorWidth) (.ofNat cursorHeight))

def update (rect : Rect) : Desktop :=
  let s := { s with display := (drawWindows s.manager.drawn rect).foldl s.draw s.display }
  if s.cursorRect.intersects rect then { s with display := s.drawCursor } else s

/-- `handle_mouse_move_event`. -/
def handleMouseMoveEvent (dx dy : Int32) : Desktop :=
  let previousRect := s.cursorRect
  let x := WindowManager.clamp (s.cursorX + dx) 0 s.manager.screenWidth
  let y := WindowManager.clamp (s.cursorY + dy) 0 s.manager.screenHeight
  if x = s.cursorX ∧ y = s.cursorY then s
  else { s with cursorX := x, cursorY := y }.update previousRect

/-! ### Following the mouse -/

/-- The colour that the cursor has at a pixel, when the pixel belongs to its shape. -/
def shape (p : Int32 × Int32) : Option UInt32 :=
  let i := p.1.toInt - s.cursorX.toInt
  let j := p.2.toInt - s.cursorY.toInt
  if (0 ≤ i ∧ i < cursorWidth) ∧ (0 ≤ j ∧ j < cursorHeight) ∧ solid i.toNat j.toNat = true then
    some (cursorColor i.toNat j.toNat)
  else none

/-- The screen shows the cursor where it is. -/
def ShowsCursor : Prop :=
  ∀ p ∈ (Rect.mk 0 0 s.manager.screenWidth s.manager.screenHeight).region, ∀ color,
    s.shape p = some color → s.display p = .cursor color

/-- After the mouse has moved the screen shows the cursor at its new position, and no more where it was
before. -/
def Follows (dx dy : Int32) : Prop :=
  let s' := s.handleMouseMoveEvent dx dy
  s'.ShowsCursor ∧
    ∀ p ∈ (Rect.mk 0 0 s.manager.screenWidth s.manager.screenHeight).region, s.shape p ≠ none →
      s'.shape p = none → ∀ color, s'.display p ≠ .cursor color

/-- `draw_windows` draws something at the pixel when it is called for the rectangle of the cursor. -/
def Redrawn (p : Int32 × Int32) : Prop :=
  p ∈ s.cursorRect.region ∧ (s.hasWallpaper = true ∨ ∃ w ∈ s.manager.windows, s.manager.shows p w = true)

/-- The cursor at the position where it is put by the move. -/
def moved (dx dy : Int32) : Desktop :=
  { s with
    cursorX := WindowManager.clamp (s.cursorX + dx) 0 s.manager.screenWidth
    cursorY := WindowManager.clamp (s.cursorY + dy) 0 s.manager.screenHeight }

/-- The cursor stays where the screen shows it. Or its rectangle still meets the old one, or nothing has to
be drawn at its new position; and something is drawn at each pixel that it leaves. -/
def CanFollow (dx dy : Int32) : Prop :=
  let s' := s.moved dx dy
  if s'.cursorX = s.cursorX ∧ s'.cursorY = s.cursorY then s.ShowsCursor
  else
    (s'.cursorRect.intersects s.cursorRect = true ∨
      ∀ p ∈ (Rect.mk 0 0 s.manager.screenWidth s.manager.screenHeight).region, ∀ color,
        s'.shape p = some color → s.display p = .cursor color ∧ ¬s.Redrawn p) ∧
    ∀ p ∈ (Rect.mk 0 0 s.manager.screenWidth s.manager.screenHeight).region, s.shape p ≠ none →
      s'.shape p = none → s.Redrawn p ∨ ∀ color, s.display p ≠ .cursor color

/-! ### What is drawn -/

variable {s} {p : Int32 × Int32}

/-- Values are written one after the other, and all that are written at `x` are equal. -/
lemma foldl_update {α β ι : Type*} [DecidableEq α] (l : List ι) (P : ι → Bool) (key : ι → α) (val : ι → β)
    {x : α} {v : β} (hv : ∀ a ∈ l, P a = true → key a = x → val a = v) (f : α → β) :
    (l.foldl (fun f a => if P a then Function.update f (key a) (val a) else f) f) x =
      if ∃ a ∈ l, P a = true ∧ key a = x then v else f x := by
  induction l generalizing f with
  | nil => simp
  | cons a l ih =>
    rw [List.foldl_cons, ih fun b hb => hv b (List.mem_cons_of_mem a hb)]
    by_cases hlater : ∃ b ∈ l, P b = true ∧ key b = x
    · obtain ⟨b, hb, hbx⟩ := hlater
      rw [if_pos ⟨b, hb, hbx⟩, if_pos ⟨b, List.mem_cons_of_mem a hb, hbx⟩]
    · rw [if_neg hlater]
      by_cases ha : P a = true ∧ key a = x
      · rw [if_pos ha.1, if_pos ⟨a, List.mem_cons_self, ha⟩, ← hv a List.mem_cons_self ha.1 ha.2, ← ha.2,
          Function.update_self]
      · have hnone : ¬∃ b ∈ a :: l, P b = true ∧ key b = x := by
          rintro ⟨b, hb, hbx⟩
          rcases List.mem_cons.mp hb with rfl | hb
          · exact ha hbx
          · exact hlater ⟨b, hb, hbx⟩
        rw [if_neg hnone]
        split_ifs with hP
        · exact Function.update_of_ne (fun hx => ha ⟨hP, hx.symm⟩) _ _
        · rfl

/-- A column that the loop draws is one of the shape, on the screen. -/
lemma drawn_iff {pos bound x : Int32} (hpos : 0 ≤ pos ∧ pos ≤ bound) (hx : 0 ≤ x ∧ x < bound) {n i : ℕ}
    (hn : n < 2 ^ 31) : (i < min n (bound - pos).toUInt32.toNat ∧ pos + .ofNat i = x) ↔
      i < n ∧ (i : ℤ) = x.toInt - pos.toInt := by
  obtain ⟨hpos₀, hpos₁⟩ := hpos
  obtain ⟨hx₀, hx₁⟩ := hx
  have hle : 0 ≤ bound - pos := by grind
  have hsub : (bound - pos).toInt = bound.toInt - pos.toInt := by
    have hlt := bound.toInt_lt
    rw [Int32.le_iff_toInt_le] at hpos₀ hpos₁
    rw [Int32.toInt_zero] at hpos₀
    rw [Int32.toInt_sub, Int.bmod_eq_of_le] <;> omega
  have hcount : (bound - pos).toUInt32.toNat = (bound.toInt - pos.toInt).toNat := by
    rw [Int32.toNat_toUInt32_of_le hle, ← Int32.toNat_toInt, hsub]
  have hbound := bound.toInt_lt
  rw [Int32.le_iff_toInt_le, Int32.toInt_zero] at hpos₀ hx₀
  rw [Int32.lt_iff_toInt_lt] at hx₁
  have hsum : i < n → (i : ℤ) < bound.toInt - pos.toInt → (pos + .ofNat i).toInt = pos.toInt + i := by
    intro hin hi
    rw [Int32.toInt_add, Int32.toInt_ofNat_of_lt (hin.trans hn), Int.bmod_eq_of_le] <;> omega
  rw [hcount, ← Int32.toInt_inj, Nat.lt_min]
  constructor
  · rintro ⟨⟨hin, hi⟩, heq⟩
    rw [hsum hin (by omega)] at heq
    omega
  · rintro ⟨hin, hi⟩
    rw [hsum hin (by omega)]
    omega

/-- The cursor is drawn at each pixel of its shape that is on the screen. -/
lemma drawCursor_apply (hx : 0 ≤ s.cursorX ∧ s.cursorX ≤ s.manager.screenWidth)
    (hy : 0 ≤ s.cursorY ∧ s.cursorY ≤ s.manager.screenHeight)
    (hp : p ∈ (Rect.mk 0 0 s.manager.screenWidth s.manager.screenHeight).region) :
    s.drawCursor p = ((s.shape p).map Paint.cursor).getD (s.display p) := by
  obtain ⟨hpx, hpx', hpy, hpy'⟩ := (Rect.mem_region p).mp hp
  let pixels := (List.range (min cursorWidth (s.manager.screenWidth - s.cursorX).toUInt32.toNat)).flatMap
    fun i => (List.range (min cursorHeight (s.manager.screenHeight - s.cursorY).toUInt32.toNat)).map
      fun j => (i, j)
  have hmem : ∀ q : ℕ × ℕ, (q ∈ pixels ∧ (s.cursorX + .ofNat q.1, s.cursorY + .ofNat q.2) = p) ↔
      (q.1 < cursorWidth ∧ (q.1 : ℤ) = p.1.toInt - s.cursorX.toInt) ∧
        q.2 < cursorHeight ∧ (q.2 : ℤ) = p.2.toInt - s.cursorY.toInt := by
    rintro ⟨i, j⟩
    rw [← drawn_iff hx ⟨hpx, hpx'⟩ (by decide), ← drawn_iff hy ⟨hpy, hpy'⟩ (by decide)]
    simp only [pixels, List.mem_flatMap, List.mem_map, List.mem_range, Prod.ext_iff]
    constructor
    · rintro ⟨⟨_, hi, _, hj, rfl, rfl⟩, hkx, hky⟩
      exact ⟨⟨hi, hkx⟩, hj, hky⟩
    · rintro ⟨⟨hi, hkx⟩, hj, hky⟩
      exact ⟨⟨_, hi, _, hj, rfl, rfl⟩, hkx, hky⟩
  have hcoords : ∀ q : ℕ × ℕ, q ∈ pixels → (s.cursorX + .ofNat q.1, s.cursorY + .ofNat q.2) = p →
      q.1 = (p.1.toInt - s.cursorX.toInt).toNat ∧ q.2 = (p.2.toInt - s.cursorY.toInt).toNat := by
    intro q hq hkey
    obtain ⟨⟨-, hqx⟩, -, hqy⟩ := (hmem q).mp ⟨hq, hkey⟩
    omega
  refine (foldl_update pixels (fun q => solid q.1 q.2) _ _ (v := .cursor (cursorColor
    (p.1.toInt - s.cursorX.toInt).toNat (p.2.toInt - s.cursorY.toInt).toNat)) ?_ s.display).trans ?_
  · intro q hq _ hkey
    rw [(hcoords q hq hkey).1, (hcoords q hq hkey).2]
  · rw [shape]
    split_ifs with hdrawn hshape hshape
    · rfl
    · obtain ⟨q, hq, hsolid, hkey⟩ := hdrawn
      obtain ⟨hi, hj⟩ := hcoords q hq hkey
      obtain ⟨⟨hqx, hqx'⟩, hqy, hqy'⟩ := (hmem q).mp ⟨hq, hkey⟩
      rw [hi, hj] at hsolid
      exact absurd ⟨by omega, by omega, hsolid⟩ hshape
    · obtain ⟨⟨hi₀, hi₁⟩, ⟨hj₀, hj₁⟩, hsolid⟩ := hshape
      have hpixel := (hmem ((p.1.toInt - s.cursorX.toInt).toNat,
        (p.2.toInt - s.cursorY.toInt).toNat)).mpr (by omega)
      exact absurd ⟨_, hpixel.1, hsolid, hpixel.2⟩ hdrawn
    · rfl

/-- A position is between the edges, even when their sum wraps around. -/
lemma fromPosAndSize_bounds (x y width height : Int32) :
    let r := Rect.fromPosAndSize x y width height
    r.x1 ≤ x ∧ x ≤ r.x2 ∧ r.y1 ≤ y ∧ y ≤ r.y2 := by
  rw [Rect.fromPosAndSize, Rect.ofCorners, Rect.normalize]
  split_ifs <;> dsimp only <;> grind

/-- The rectangle of the cursor has its corners in order. -/
lemma normal_cursorRect (hx : 0 ≤ s.cursorX ∧ s.cursorX ≤ s.manager.screenWidth)
    (hy : 0 ≤ s.cursorY ∧ s.cursorY ≤ s.manager.screenHeight) : s.cursorRect.Normal := by
  have hmax : ∀ {a b : Int32}, 0 ≤ b → a ≤ b → max 0 a ≤ b := by
    intro a b hb hab
    rw [show max 0 a = if 0 ≤ a then a else 0 from rfl]
    split_ifs
    · exact hab
    · exact hb
  obtain ⟨hx₁, hx₂, hy₁, hy₂⟩ := fromPosAndSize_bounds s.cursorX s.cursorY (.ofNat cursorWidth)
    (.ofNat cursorHeight)
  exact ⟨Std.le_min_iff.mpr ⟨hmax (Std.le_trans hx.1 hx.2) (Std.le_trans hx₁ hx.2),
      hmax (Std.le_trans hx.1 hx₂) (Std.le_trans hx₁ hx₂)⟩,
    Std.le_min_iff.mpr ⟨hmax (Std.le_trans hy.1 hy.2) (Std.le_trans hy₁ hy.2),
      hmax (Std.le_trans hy.1 hy₂) (Std.le_trans hy₁ hy₂)⟩⟩

/-- The call draws something at the pixel. -/
def Paints (s : Desktop) (p : Int32 × Int32) (d : Draw) : Prop :=
  p ∈ d.region ∧ (s.hasWallpaper = true ∨ d.window ≠ none)

/-- What the calls leave at a pixel: what was there, or no cursor. -/
lemma foldl_draw (ds : List Draw) (display : Display) :
    (∃ d ∈ ds, s.Paints p d) ∧ (∀ color, ds.foldl s.draw display p ≠ .cursor color) ∨
      (¬∃ d ∈ ds, s.Paints p d) ∧ ds.foldl s.draw display p = display p := by
  induction ds generalizing display with
  | nil => exact .inr ⟨by simp, rfl⟩
  | cons d ds ih =>
    rw [List.foldl_cons]
    rcases ih (s.draw display d) with ⟨⟨e, he, hpaints⟩, hnone⟩ | ⟨hnot, heq⟩
    · exact .inl ⟨⟨e, List.mem_cons_of_mem d he, hpaints⟩, hnone⟩
    · rw [heq]
      by_cases hd : s.Paints p d
      · refine .inl ⟨⟨d, List.mem_cons_self, hd⟩, fun color => ?_⟩
        rw [draw, if_pos (show d.rect.contains p.1 p.2 = true from hd.1)]
        cases hw : d.window with
        | some w => exact nofun
        | none =>
          rw [if_pos (hd.2.resolve_right (not_not_intro hw))]
          exact nofun
      · refine .inr ⟨?_, ?_⟩
        · rintro ⟨e, he, hpaints⟩
          rcases List.mem_cons.mp he with rfl | he
          · exact hd hpaints
          · exact hnot ⟨e, he, hpaints⟩
        · rw [draw]
          by_cases hcontains : d.rect.contains p.1 p.2 = true
          · obtain ⟨hwallpaper, hnone⟩ := not_or.mp fun h => hd ⟨hcontains, h⟩
            rw [if_pos hcontains, not_not.mp hnone]
            exact if_neg hwallpaper
          · exact if_neg hcontains

/-- Something is drawn where a window shows or there is a wallpaper. -/
lemma exists_paints_iff {rect : Rect} (hr : rect.Normal) :
    (∃ d ∈ drawWindows s.manager.drawn rect, s.Paints p d) ↔
      p ∈ rect.region ∧ (s.hasWallpaper = true ∨ ∃ w ∈ s.manager.windows, s.manager.shows p w = true) := by
  have hshows : ∀ d ∈ drawWindows s.manager.drawn rect, p ∈ d.region →
      (d.window ≠ none ↔ ∃ w ∈ s.manager.windows, s.manager.shows p w = true) := by
    intro d hd hp
    rw [← List.find?_isSome, ← WindowManager.pointer_of_drawn hr hd hp, Option.isSome_map,
      Option.isSome_iff_ne_none]
  have htiles := tiles_drawWindows_of_any s.manager.drawn hr
  constructor
  · rintro ⟨d, hd, hp, hpaints⟩
    exact ⟨htiles.subset hd hp, hpaints.imp_right (hshows d hd hp).mp⟩
  · rintro ⟨hp, hpaints⟩
    obtain ⟨d, hd, hpd⟩ := (htiles.cover p).mp hp
    exact ⟨d, hd, hpd, hpaints.imp_right (hshows d hd hpd).mpr⟩

/-! ### The move -/

/-- The screen after `draw_windows` has been called for the old rectangle of the cursor. -/
def uncovered (s : Desktop) : Display := (drawWindows s.manager.drawn s.cursorRect).foldl s.draw s.display

lemma uncovered_cases (hr : s.cursorRect.Normal) (p : Int32 × Int32) :
    s.Redrawn p ∧ (∀ color, s.uncovered p ≠ .cursor color) ∨
      ¬s.Redrawn p ∧ s.uncovered p = s.display p := by
  have hcases := foldl_draw (s := s) (p := p) (drawWindows s.manager.drawn s.cursorRect) s.display
  rw [exists_paints_iff hr] at hcases
  exact hcases

lemma uncovered_ne_iff (hr : s.cursorRect.Normal) : (∀ color, s.uncovered p ≠ .cursor color) ↔
    s.Redrawn p ∨ ∀ color, s.display p ≠ .cursor color := by
  rcases uncovered_cases hr p with ⟨hredrawn, hne⟩ | ⟨hredrawn, heq⟩
  · exact iff_of_true hne (.inl hredrawn)
  · rw [heq, or_iff_right hredrawn]

lemma uncovered_eq_iff (hr : s.cursorRect.Normal) {color : UInt32} : s.uncovered p = .cursor color ↔
    s.display p = .cursor color ∧ ¬s.Redrawn p := by
  rcases uncovered_cases hr p with ⟨hredrawn, hne⟩ | ⟨hredrawn, heq⟩
  · exact iff_of_false (hne color) fun h => h.2 hredrawn
  · rw [heq, and_iff_left hredrawn]

/-- What `update` does for the old rectangle of the cursor. -/
lemma update_moved (s : Desktop) (dx dy : Int32) :
    let m := s.moved dx dy
    let u := m.update s.cursorRect
    u.shape = m.shape ∧ u.manager = s.manager ∧
      u.display = if m.cursorRect.intersects s.cursorRect then { m with display := s.uncovered }.drawCursor
        else s.uncovered := by
  intro m u
  have hu : u = if m.cursorRect.intersects s.cursorRect then
      { m with display := { m with display := s.uncovered }.drawCursor }
      else { m with display := s.uncovered } := rfl
  rw [hu]
  split_ifs <;> exact ⟨rfl, rfl, rfl⟩

/-- The cursor follows the mouse exactly when it stays where the screen shows it, or when it is drawn or
need not be drawn at its new position and something is drawn at each pixel that it leaves. -/
theorem follows_iff (s : Desktop) (dx dy : Int32)
    (hx : 0 ≤ s.cursorX ∧ s.cursorX ≤ s.manager.screenWidth)
    (hy : 0 ≤ s.cursorY ∧ s.cursorY ≤ s.manager.screenHeight) :
    s.Follows dx dy ↔ s.CanFollow dx dy := by
  have hr := normal_cursorRect hx hy
  let m := s.moved dx dy
  have hmove : s.handleMouseMoveEvent dx dy =
      if m.cursorX = s.cursorX ∧ m.cursorY = s.cursorY then s else m.update s.cursorRect := rfl
  rw [Follows, CanFollow, hmove]
  by_cases hstays : m.cursorX = s.cursorX ∧ m.cursorY = s.cursorY
  · rw [if_pos hstays, if_pos hstays]
    exact and_iff_left fun p _ hshape hnone => absurd hnone hshape
  · rw [if_neg hstays, if_neg hstays]
    have hm : 0 ≤ m.cursorX ∧ m.cursorX ≤ m.manager.screenWidth :=
      WindowManager.clamp_bounds (Std.le_trans hx.1 hx.2)
    have hm' : 0 ≤ m.cursorY ∧ m.cursorY ≤ m.manager.screenHeight :=
      WindowManager.clamp_bounds (Std.le_trans hy.1 hy.2)
    have hdrawn : ∀ p ∈ (Rect.mk 0 0 s.manager.screenWidth s.manager.screenHeight).region,
        { m with display := s.uncovered }.drawCursor p = ((m.shape p).map Paint.cursor).getD (s.uncovered p) :=
      fun p hp => drawCursor_apply (s := { m with display := s.uncovered }) hm hm' hp
    obtain ⟨hshape, hmanager, hdisplay⟩ := update_moved s dx dy
    rw [ShowsCursor, hshape, hmanager, hdisplay]
    refine and_congr ?_ ?_
    · by_cases hmeet : m.cursorRect.intersects s.cursorRect = true
      · rw [if_pos hmeet]
        refine iff_of_true (fun p hp color hcolor => ?_) (.inl hmeet)
        rw [hdrawn p hp, hcolor]
        rfl
      · rw [if_neg hmeet, or_iff_right hmeet]
        simp only [uncovered_eq_iff hr]
    · refine forall_congr' fun p => forall_congr' fun hp => forall_congr' fun _ => forall_congr' fun hnone => ?_
      rw [← uncovered_ne_iff hr]
      split_ifs
      · rw [hdrawn p hp, hnone]
        rfl
      · rfl

/-- The cursor on a screen with its wallpaper and no window. -/
def start : Desktop :=
  let s : Desktop := ⟨.init 640 480, true, 100, 100, fun _ => .wallpaper⟩
  { s with display := s.drawCursor }

/-- After a short move the cursor is drawn at its new position. -/
theorem follows_start : start.Follows 4 2 := by
  refine (follows_iff _ _ _ (by decide) (by decide)).mpr ?_
  have hmoves : ¬((start.moved 4 2).cursorX = start.cursorX ∧ (start.moved 4 2).cursorY = start.cursorY) := by
    decide
  have hmeet : (start.moved 4 2).cursorRect.intersects start.cursorRect = true := by decide
  rw [CanFollow, if_neg hmoves]
  refine ⟨.inl hmeet, fun p _ hshape _ => .inl ⟨?_, .inl rfl⟩⟩
  rw [shape] at hshape
  obtain ⟨⟨hi, hi'⟩, ⟨hj, hj'⟩, -⟩ := Decidable.of_not_not fun h => hshape (if_neg h)
  have hrect : start.cursorRect = ⟨100, 100, 109, 116⟩ := by decide
  have hpos : start.cursorX.toInt = 100 ∧ start.cursorY.toInt = 100 := by decide
  rw [hpos.1] at hi hi'
  rw [hpos.2] at hj hj'
  rw [hrect, Rect.mem_region]
  simp only [Int32.le_iff_toInt_le, Int32.lt_iff_toInt_lt]
  have hcorners : (100 : Int32).toInt = 100 ∧ (109 : Int32).toInt = 109 ∧ (116 : Int32).toInt = 116 := by decide
  have hsize : (cursorWidth : ℤ) = 9 ∧ (cursorHeight : ℤ) = 16 := by decide
  omega

/-- After a long move the cursor is not drawn. -/
theorem not_follows_far : ¬start.Follows 20 0 := by
  intro h
  have hshape : (start.handleMouseMoveEvent 20 0).shape (120, 100) = some 0xff000000 := by decide +kernel
  have hdisplay : (start.handleMouseMoveEvent 20 0).display (120, 100) = .wallpaper := by decide +kernel
  have hshown := h.1 (120, 100) ((Rect.mem_region _).mpr (by decide +kernel)) _ hshape
  exact absurd (hdisplay.symm.trans hshown) nofun

end Desktop

end PiKachulm.Wm

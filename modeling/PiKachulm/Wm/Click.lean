import PiKachulm.Wm.Stack
import Mathlib.Data.List.Find

/-!
# Clicks

A click is meant for the window that is displayed under the cursor. `handle_mouse_click_event` goes
through the windows by their geometries alone, `draw_windows_helper` leaves hidden windows out and puts
the corners of the others in order.
-/

namespace PiKachulm.Wm

open Core

/-! ### Windows of any geometry -/

namespace Rect

lemma normalize_normalize (r : Rect) : r.normalize.normalize = r.normalize :=
  normalize_of_normal (normal_normalize r)

lemma isNull_normalize (r : Rect) : r.normalize.isNull = r.isNull := by
  rw [Bool.eq_iff_iff, isNull_iff, isNull_iff, normalize]
  split_ifs <;> grind

lemma intersectionWith_normalize (r r' : Rect) : r.intersectionWith r'.normalize = r.intersectionWith r' := by
  rw [intersectionWith, intersectionWith, isNull_normalize, normalize_normalize]

/-- A rectangle that has a pixel has its corners in order. -/
lemma normal_of_contains {r : Rect} {x y : Int32} (h : r.contains x y = true) : r.Normal := by
  obtain ⟨hl, hr, ht, hb⟩ := (mem_region (x, y)).mp h
  exact ⟨Std.le_trans hl (Std.le_of_lt hr), Std.le_trans ht (Std.le_of_lt hb)⟩

end Rect

variable {windows : List Window} {rect : Rect} {d : Draw} {p : Int32 × Int32}

/-- The window with its corners in order. -/
def Window.normalize (window : Window) : Window := { window with geometry := window.geometry.normalize }

/-- The window covers the pixel, whatever the order of its corners. -/
def Window.shows (p : Int32 × Int32) (window : Window) : Bool :=
  window.visible && window.geometry.normalize.contains p.1 p.2

/-- The calls do not depend on the order of the corners. -/
lemma drawWindows_normalize (windows : List Window) (rect : Rect) :
    drawWindows (windows.map Window.normalize) rect =
      (drawWindows windows rect).map fun d => { d with window := d.window.map Window.normalize } := by
  induction windows generalizing rect with
  | nil => rfl
  | cons window next ih =>
    rw [List.map_cons, drawWindows_cons, drawWindows_cons]
    simp only [Window.normalize, Rect.intersectionWith_normalize]
    split_ifs
    · rfl
    · exact ih rect
    · rw [List.map_cons, List.map_flatMap]
      congr 1
      exact List.flatMap_congr fun s _ => ih s

/-- Each pixel is drawn for the first window that shows there. -/
lemma pointer_of_mem_drawWindows (hr : rect.Normal) (hd : d ∈ drawWindows windows rect)
    (hp : p ∈ d.region) :
    d.window.map Window.pointer = (windows.find? (Window.shows p)).map Window.pointer := by
  have hnormal : ∀ w ∈ windows.map Window.normalize, w.geometry.Normal := by
    intro w hw
    obtain ⟨v, -, rfl⟩ := List.mem_map.mp hw
    exact Rect.normal_normalize _
  have hmem := List.mem_map_of_mem (f := fun d : Draw =>
    { d with window := d.window.map Window.normalize }) hd
  rw [← drawWindows_normalize] at hmem
  have hfirst := window_of_mem_drawWindows hnormal hr hmem hp
  rw [List.find?_map] at hfirst
  have hpointer := congrArg (Option.map Window.pointer) hfirst
  rw [Option.map_map, Option.map_map] at hpointer
  exact hpointer

/-- The calls tile the rectangle. -/
lemma tiles_drawWindows_of_any (windows : List Window) (hr : rect.Normal) :
    Tiles Draw.region (drawWindows windows rect) rect.region := by
  have hnormal : ∀ w ∈ windows.map Window.normalize, w.geometry.Normal := by
    intro w hw
    obtain ⟨v, -, rfl⟩ := List.mem_map.mp hw
    exact Rect.normal_normalize _
  have htiles := tiles_drawWindows hnormal hr
  rw [drawWindows_normalize] at htiles
  have hdisjoint := htiles.disjoint
  rw [List.pairwise_map] at hdisjoint
  refine ⟨hdisjoint, fun p => (htiles.cover p).trans ?_⟩
  simp only [List.mem_map, exists_exists_and_eq_and]
  rfl

namespace WindowManager

variable (s : WindowManager)

/-! ### The event -/

/-- `SYS_MOUSE_BUTTON_LEFT`. -/
def mouseButtonLeft : Int32 := 0

/-- The geometry of the window contains the pixel. -/
def contains (p : Int32 × Int32) (window : ℕ) : Bool := (s.window window).geometry.contains p.1 p.2

/-- `handle_mouse_click_event` with the cursor at `x`, `y`, and what it returns. -/
def mouseClick (x y : Int32) (buttonType : Int32) (isPressed : Bool) : Bool × WindowManager :=
  if buttonType = mouseButtonLeft ∧ isPressed = true then
    match s.windows.find? (s.contains (x, y)) with
    | none => (false, s)
    | some window => (true, s.focusWindow window)
  else (false, s)

/-- A click gives the focus to the window that is drawn under the cursor. Where the background is drawn
it is not handled, and the focus stays. -/
def ClickReaches (p : Int32 × Int32) : Prop :=
  ∀ d ∈ drawWindows s.drawn ⟨0, 0, s.screenWidth, s.screenHeight⟩, p ∈ d.region →
    match d.window, s.mouseClick p.1 p.2 mouseButtonLeft true with
    | some w, (handled, s') => handled = true ∧ s'.focused = some w.pointer
    | none, (handled, s') => handled = false ∧ s'.focused = s.focused

/-- The window is drawn at the pixel when no other one is in front of it. -/
def shows (p : Int32 × Int32) (window : ℕ) : Bool :=
  (s.window window).visible && (s.window window).geometry.normalize.contains p.1 p.2

/-- The first window whose geometry contains the pixel is visible, and none in front of it has its
corners in the wrong order around the pixel. -/
def Reachable (p : Int32 × Int32) : Prop :=
  (∀ window, s.windows.find? (s.contains p) = some window → (s.window window).visible = true) ∧
    ∀ window ∈ s.windows.takeWhile fun w => !s.contains p w, s.shows p window = false

variable {s} {window : ℕ}

/-! ### The same choice -/

lemma focused_raise : (s.raise window).focused = some window := rfl

lemma focused_focusWindow : (s.focusWindow window).focused = some window := by
  rw [focusWindow]
  split_ifs with h
  · exact h
  · cases s.focused <;> exact focused_raise

/-- What `draw_windows_helper` shows at a pixel. -/
lemma pointer_of_drawn (hr : rect.Normal) (hd : d ∈ drawWindows s.drawn rect) (hp : p ∈ d.region) :
    d.window.map Window.pointer = s.windows.find? (s.shows p) := by
  rw [pointer_of_mem_drawWindows hr hd hp, drawn, List.find?_map, Option.map_map]
  exact congrFun Option.map_id _

lemma shows_of_contains (h : s.contains p window = true) :
    s.shows p window = (s.window window).visible := by
  rw [shows, Rect.normalize_of_normal (Rect.normal_of_contains h)]
  exact (congrArg _ h).trans (Bool.and_true _)

/-- Two searches of a list find the same element. -/
lemma find?_eq_find?_iff {α : Type*} {P Q : α → Bool} (l : List α) :
    l.find? P = l.find? Q ↔
      (∀ a, l.find? P = some a → Q a = true) ∧ ∀ a ∈ l.takeWhile fun a => !P a, Q a = false := by
  induction l with
  | nil => simp
  | cons a l ih =>
    by_cases hP : P a = true
    · rw [List.find?_cons_of_pos hP, List.takeWhile_cons_of_neg (by simp [hP])]
      by_cases hQ : Q a = true
      · rw [List.find?_cons_of_pos hQ]
        simp [hQ]
      · rw [List.find?_cons_of_neg hQ]
        refine iff_of_false (fun h => hQ (List.find?_some h.symm)) fun h => hQ (h.1 a rfl)
    · rw [List.find?_cons_of_neg hP, List.takeWhile_cons_of_pos (by simp [hP])]
      by_cases hQ : Q a = true
      · rw [List.find?_cons_of_pos hQ]
        refine iff_of_false (fun h => hP (List.find?_some h)) fun h => ?_
        exact Bool.false_ne_true ((h.2 a List.mem_cons_self).symm.trans hQ)
      · rw [List.find?_cons_of_neg hQ, ih, List.forall_mem_cons]
        simp [hQ]

lemma reachable_iff (p : Int32 × Int32) :
    s.Reachable p ↔ s.windows.find? (s.contains p) = s.windows.find? (s.shows p) := by
  rw [find?_eq_find?_iff, Reachable]
  refine and_congr (forall_congr' fun w => forall_congr' fun hw => ?_) Iff.rfl
  rw [shows_of_contains (List.find?_some hw)]

/-- A click reaches the window that is displayed exactly when the first window whose geometry contains
the cursor is visible, and no window in front of it is drawn there. -/
theorem clickReaches_iff (s : WindowManager) (p : Int32 × Int32)
    (hp : p ∈ (Rect.mk 0 0 s.screenWidth s.screenHeight).region) :
    s.ClickReaches p ↔ s.Reachable p := by
  rw [reachable_iff]
  have hr := Rect.normal_of_contains hp
  have hclick : s.mouseClick p.1 p.2 mouseButtonLeft true =
      match s.windows.find? (s.contains p) with
      | none => (false, s)
      | some window => (true, s.focusWindow window) := if_pos ⟨rfl, rfl⟩
  rw [ClickReaches, hclick]
  constructor
  · intro h
    obtain ⟨d, hd, hpd⟩ := ((tiles_drawWindows_of_any s.drawn hr).cover p).mp hp
    have hreaches := h d hd hpd
    rw [← pointer_of_drawn hr hd hpd]
    cases hfind : s.windows.find? (s.contains p) with
    | none =>
      cases hw : d.window with
      | none => rfl
      | some w =>
        rw [hw, hfind] at hreaches
        exact absurd hreaches.1 Bool.false_ne_true
    | some v =>
      cases hw : d.window with
      | none =>
        rw [hw, hfind] at hreaches
        exact absurd hreaches.1.symm Bool.false_ne_true
      | some w =>
        rw [hw, hfind] at hreaches
        exact focused_focusWindow.symm.trans hreaches.2
  · intro h d hd hpd
    rw [h, ← pointer_of_drawn hr hd hpd]
    cases d.window with
    | none => exact ⟨rfl, rfl⟩
    | some w => exact ⟨rfl, focused_focusWindow⟩

/-- Two windows at the same place; the one in front is visible or not. -/
def stacked (visible : Bool) : WindowManager :=
  [.create 1 .zero, .setVisibility 1 true, .setGeometry 1 ⟨5, 5, 35, 35⟩, .create 2 .zero,
    .setGeometry 2 ⟨5, 5, 35, 35⟩, .setVisibility 2 visible].foldl apply (init 60 60)

/-- A click reaches a visible window. -/
theorem clickReaches_stacked : (stacked true).ClickReaches (10, 10) := by
  refine (clickReaches_iff _ _ ((Rect.mem_region _).mpr (by decide))).mpr ⟨?_, ?_⟩
  · intro window hwindow
    have hfirst : (stacked true).windows.find? ((stacked true).contains (10, 10)) = some 2 := by
      decide +kernel
    obtain rfl := Option.some_inj.mp (hfirst.symm.trans hwindow)
    decide +kernel
  · decide +kernel

/-- A hidden window takes the click from the visible one below it. -/
theorem not_clickReaches_hidden : ¬(stacked false).ClickReaches (10, 10) := by
  intro h
  have hdraw : drawWindow ⟨1, ⟨5, 5, 35, 35⟩, true⟩ ⟨5, 5, 35, 35⟩ ∈
      drawWindows (stacked false).drawn
        ⟨0, 0, (stacked false).screenWidth, (stacked false).screenHeight⟩ := by
    decide +kernel
  have hreaches := h _ hdraw ((Rect.mem_region _).mpr (by decide))
  have hfocused : ((stacked false).mouseClick 10 10 mouseButtonLeft true).2.focused = some 2 := by
    decide +kernel
  exact absurd (hfocused.symm.trans hreaches.2) (by decide)

end WindowManager

end PiKachulm.Wm

import PiKachulm.Wm.Geometry

/-!
# Compositing the windows

`draw_windows` walks through `m_windows` from the top window to the bottom one. A window draws what
it covers of the rectangle, and the windows below it draw the four rectangles around that part. The
calls of `draw_window` and `draw_background` are recorded in the order in which they are made.
-/

namespace PiKachulm.Wm

open Core

/-- What drawing reads of a window, and the address it is known by. -/
structure Window where
  pointer : ℕ
  geometry : Rect
  visible : Bool
  deriving DecidableEq

/-- A call of `draw_window`, or of `draw_background` when there is no window. -/
structure Draw where
  window : Option Window
  rect : Rect
  deriving DecidableEq

def drawWindow (window : Window) (rect : Rect) : Draw := ⟨some window, rect⟩

def drawBackground (rect : Rect) : Draw := ⟨none, rect⟩

/-- The iterator of `draw_windows_helper` stands on `window`, with `next` behind it. -/
def drawWindowsHelper (window : Window) (next : List Window) (rect : Rect) : List Draw :=
  if rect.isNull then []
  else
    let intersection := rect.intersectionWith window.geometry
    if !window.visible || intersection.isNull then
      match next with
      | [] => [drawBackground rect]
      | window :: next => drawWindowsHelper window next rect
    else
      drawWindow window intersection ::
        match next with
        | [] => (rect.around intersection).map drawBackground
        | window :: next => (rect.around intersection).flatMap (drawWindowsHelper window next)

def drawWindows (windows : List Window) (rect : Rect) : List Draw :=
  match windows with
  | [] => [drawBackground rect]
  | window :: next => drawWindowsHelper window next rect

/-! ### One window -/

/-- The pixels a call draws. -/
def Draw.region (d : Draw) : Set (Int32 × Int32) := d.rect.region

/-- The window covers the pixel and hides what is below it. -/
def Window.covers (p : Int32 × Int32) (window : Window) : Bool :=
  window.visible && window.geometry.contains p.1 p.2

variable {window : Window} {windows : List Window} {rect : Rect}

/-- A window draws its part and leaves the rest to the windows below it, be there any or not. -/
lemma drawWindows_cons (window : Window) (next : List Window) (rect : Rect) :
    drawWindows (window :: next) rect =
      if rect.isNull then []
      else if !window.visible || (rect.intersectionWith window.geometry).isNull then
        drawWindows next rect
      else
        drawWindow window (rect.intersectionWith window.geometry) ::
          (rect.around (rect.intersectionWith window.geometry)).flatMap (drawWindows next) := by
  show drawWindowsHelper window next rect = _
  cases next with
  | nil =>
    rw [drawWindowsHelper]
    dsimp only
    rw [List.map_eq_flatMap]
    rfl
  | cons below next =>
    rw [drawWindowsHelper]
    rfl

/-- A window that is hidden or apart from the rectangle covers none of its pixels. -/
lemma not_covers_of_skipped (hr : rect.Normal) (hw : window.geometry.Normal)
    (h : (!window.visible || (rect.intersectionWith window.geometry).isNull) = true)
    {p : Int32 × Int32} (hp : p ∈ rect.region) : window.covers p = false := by
  rcases (Bool.or_eq_true _ _).mp h with hv | hn
  · rw [Window.covers, Bool.not_eq_true' _ |>.mp hv, Bool.false_and]
  · have hempty := Rect.region_intersectionWith hr hw
    rw [Rect.region_of_isNull hn] at hempty
    have hout : p ∉ window.geometry.region := fun hpw ↦ hempty.symm.subset ⟨hp, hpw⟩
    rw [Window.covers, Bool.eq_false_iff.mpr hout, Bool.and_false]

/-! ### All windows -/

/-- The calls tile the rectangle, whatever the windows. -/
lemma tiles_drawWindows (hw : ∀ w ∈ windows, w.geometry.Normal) (hr : rect.Normal) :
    Tiles Draw.region (drawWindows windows rect) rect.region := by
  induction windows generalizing rect with
  | nil => exact (Tiles.singleton _ : Tiles Draw.region [drawBackground rect] _)
  | cons window next ih =>
    have hwindow := hw window List.mem_cons_self
    have hnext : ∀ w ∈ next, w.geometry.Normal := fun w h ↦ hw w (List.mem_cons_of_mem _ h)
    rw [drawWindows_cons]
    split_ifs with hnull hskip
    · rw [Rect.region_of_isNull hnull]
      exact Tiles.nil
    · exact ih hnext hr
    · obtain ⟨-, hn⟩ := not_or.mp (mt (Bool.or_eq_true _ _).mpr hskip)
      have hin := Rect.within_intersectionWith hr hwindow (Bool.not_eq_true _ |>.mp hn)
      have haround := (Rect.tiles_around hr (Rect.normal_intersectionWith _ _) hin).flatMap
        fun s hs ↦ ih hnext (Rect.normal_of_mem_around hs)
      rw [← Set.union_sdiff_cancel (Rect.region_subset_of_within hin)]
      exact haround.cons (s := drawWindow window _) Set.disjoint_sdiff_right

/-- Each pixel is drawn for the first window that covers it, or as background. -/
lemma window_of_mem_drawWindows (hw : ∀ w ∈ windows, w.geometry.Normal) (hr : rect.Normal)
    {d : Draw} (hd : d ∈ drawWindows windows rect) {p : Int32 × Int32} (hp : p ∈ d.region) :
    d.window = windows.find? (Window.covers p) := by
  induction windows generalizing rect with
  | nil =>
    rw [drawWindows, List.mem_singleton] at hd
    rw [hd]
    rfl
  | cons window next ih =>
    have hwindow := hw window List.mem_cons_self
    have hnext : ∀ w ∈ next, w.geometry.Normal := fun w h ↦ hw w (List.mem_cons_of_mem _ h)
    rw [drawWindows_cons] at hd
    split_ifs at hd with hnull hskip
    · exact absurd hd List.not_mem_nil
    · have hpr := (tiles_drawWindows hnext hr).subset hd hp
      rw [List.find?_cons_of_neg (by simp [not_covers_of_skipped hr hwindow hskip hpr])]
      exact ih hnext hr hd
    · obtain ⟨hv, hn⟩ := not_or.mp (mt (Bool.or_eq_true _ _).mpr hskip)
      have hin := Rect.within_intersectionWith hr hwindow (Bool.not_eq_true _ |>.mp hn)
      have hvisible : window.visible = true := by simpa using hv
      have hregion := Rect.region_intersectionWith hr hwindow
      rcases List.mem_cons.mp hd with rfl | hd
      · -- the part of the window itself
        have hpw : p ∈ window.geometry.region := (hregion.subset hp).2
        rw [List.find?_cons_of_pos]
        · rfl
        · rw [Window.covers, hvisible, Bool.true_and]
          exact hpw
      · obtain ⟨s, hs, hd⟩ := List.mem_flatMap.mp hd
        have hps := (tiles_drawWindows hnext (Rect.normal_of_mem_around hs)).subset hd hp
        have hpr := (Rect.tiles_around hr (Rect.normal_intersectionWith _ _) hin).subset hs hps
        rw [List.find?_cons_of_neg]
        · exact ih hnext (Rect.normal_of_mem_around hs) hd
        · intro hcov
          rw [Window.covers, Bool.and_eq_true] at hcov
          exact hpr.2 (hregion.symm.subset ⟨hpr.1, hcov.2⟩)

/-- The calls of `draw_windows` have pairwise disjoint rectangles that make up the given one, and
each pixel is drawn for the first visible window that contains it, or else as background. -/
theorem drawWindows_coversOnce (windows : List Window) (rect : Rect)
    (hw : ∀ w ∈ windows, w.geometry.Normal) (hr : rect.Normal) :
    (drawWindows windows rect).Pairwise (fun d d' ↦ Disjoint d.region d'.region) ∧
      (⋃ d ∈ drawWindows windows rect, d.region) = rect.region ∧
      ∀ d ∈ drawWindows windows rect, ∀ p ∈ d.region,
        d.window = windows.find? (fun w ↦ w.visible && w.geometry.contains p.1 p.2) := by
  have htiles := tiles_drawWindows hw hr
  refine ⟨htiles.disjoint, ?_, fun d hd p hp ↦ window_of_mem_drawWindows hw hr hd hp⟩
  ext p
  simp [htiles.cover]

/-- A hidden window, a nested one and one that overlaps the update rectangle. -/
theorem drawWindows_coversOnce_nested :
    (∀ w ∈ [Window.mk 1 ⟨2, 2, 4, 4⟩ true, ⟨2, ⟨0, 0, 9, 9⟩, false⟩, ⟨3, ⟨1, 1, 12, 6⟩, true⟩],
      w.geometry.Normal) ∧
      (drawWindows [Window.mk 1 ⟨2, 2, 4, 4⟩ true, ⟨2, ⟨0, 0, 9, 9⟩, false⟩,
        ⟨3, ⟨1, 1, 12, 6⟩, true⟩] ⟨0, 0, 10, 10⟩).Pairwise
          (fun d d' ↦ Disjoint d.region d'.region) := by
  have hw : ∀ w ∈ [Window.mk 1 ⟨2, 2, 4, 4⟩ true, ⟨2, ⟨0, 0, 9, 9⟩, false⟩,
      ⟨3, ⟨1, 1, 12, 6⟩, true⟩], w.geometry.Normal := by
    simp only [List.mem_cons, List.not_mem_nil, or_false, forall_eq_or_imp, forall_eq]
    refine ⟨⟨?_, ?_⟩, ⟨?_, ?_⟩, ?_, ?_⟩ <;> decide
  have hr : (Rect.mk 0 0 10 10).Normal := by
    constructor <;> decide
  exact ⟨hw, (drawWindows_coversOnce _ _ hw hr).1⟩

end PiKachulm.Wm

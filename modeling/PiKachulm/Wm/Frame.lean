import PiKachulm.Graphics.Blend
import PiKachulm.Wm.Screen

/-!
# The frame of a window

`draw_frame` hides what is below the title bar and the lines, and blends the icon and the title with what is
in the framebuffer. Where these are drawn beside the title bar, each drawing makes a pixel whiter.
-/

namespace PiKachulm.Wm

open Core Graphics

namespace Scene

variable (s : Scene)

/-- The painter of the framebuffer. -/
def framePainter (geometry : Rect) : Painter :=
  Painter.ofWindow s.font geometry.width.toUInt32 geometry.height.toUInt32

/-- The title bar and the lines of a frame. -/
def solidFrame (w : Window) : Painter.Accesses :=
  if (s.decoration w.pointer).hasFrame then
    let width := w.geometry.width
    let height := w.geometry.height
    let p := s.framePainter w.geometry
    p.fillRect 0 0 width titleBarHeight.toInt32 backgroundColor ++ p.drawRect 0 0 width height borderColor ++
      p.drawLine 0 titleBarHeight.toInt32 width titleBarHeight.toInt32 borderColor
  else []

/-- The pixels of the icon. -/
def iconPixels : List ((Int32 × Int32) × UInt8) :=
  (Painter.upTo iconSize).flatMap fun i => (Painter.upTo iconSize).map fun j =>
    (((5 + i).toInt32, (2 + j).toInt32), s.icon (i + iconSize * j).toNat)

/-- The pixels of the title. -/
def titlePixels (geometry : Rect) (title : List UInt8) : List ((Int32 × Int32) × UInt8) :=
  let textX := (geometry.width.toUInt32 - s.font.charWidth * .ofNat title.length) / 2
  let textY := (titleBarHeight - s.font.charHeight) / 2
  (s.framePainter geometry).textPixels textX.toInt32 Int32.maxValue (title.takeWhile (· ≠ 0)) textX.toInt32
    textY.toInt32

/-- The alpha values with which the icon and the title are drawn in a cell of the framebuffer. -/
def frameAlphas (w : Window) (i : ℕ) : List UInt8 :=
  if (s.decoration w.pointer).hasFrame then
    (s.framePainter w.geometry).alphasAt i
      (s.iconPixels ++ s.titlePixels w.geometry (s.decoration w.pointer).title)
  else []

/-- The title bar or a line is drawn in the cell. -/
def Hides (w : Window) (i : ℕ) : Prop := ∃ a ∈ s.solidFrame w, a.index = i

variable {s} {w : Window} {i shift : ℕ} {v v' : Color}

lemma drawIcon_eq (p : Painter) : s.drawIcon p = p.drawAlphas 0xffffff s.iconPixels := by
  rw [drawIcon, Painter.drawAlphas, iconPixels, List.flatMap_assoc]
  simp only [List.flatMap_map]
  rfl

/-- The icon and the title are drawn in white. -/
lemma effect_frame (w : Window) (i : ℕ) (v : Color) : Access.effect (s.frame w) i v =
    (s.frameAlphas w i).foldl (fun v alpha => blend (withAlpha 0xffffff alpha) v)
      (Access.effect (s.solidFrame w) i v) := by
  rw [frame, frameAlphas, solidFrame]
  split_ifs with hframe
  · have htitle : ∀ x y text, (s.framePainter w.geometry).drawText x y text 0xffffff =
        (s.framePainter w.geometry).drawAlphas 0xffffff
          ((s.framePainter w.geometry).textPixels x Int32.maxValue text x y) :=
      fun x y text => Painter.drawChars_eq text x y
    rw [← Painter.effect_drawAlphas, Painter.drawAlphas_append, ← drawIcon_eq, titlePixels, ← htitle, drawFrame]
    simp only [Access.effect_append]
    rfl
  · rfl

/-- What is drawn without transparency does not depend on what was there. -/
lemma write_solidFrame {a : Access Color} (ha : a ∈ s.solidFrame w) (u u' : Color) : a.write u = a.write u' := by
  have hpixel : ∀ (p : Painter) (x y : Int32) (color : Color), component 24 color = 255 →
      a ∈ p.drawPixel x y color → a.write u = a.write u' := by
    intro p x y color hcolor ha
    rw [Painter.drawPixel] at ha
    split_ifs at ha
    · exact absurd ha List.not_mem_nil
    · rw [List.mem_singleton.mp ha]
      exact blend_of_solid hcolor u u'
  have hpixels : ∀ (p : Painter) (l : List (Int32 × Int32)), a ∈ p.drawPixels borderColor l →
      a.write u = a.write u' := by
    intro p l ha
    obtain ⟨q, -, ha⟩ := List.mem_flatMap.mp ha
    exact hpixel p _ _ _ (by decide) ha
  rw [solidFrame] at ha
  split_ifs at ha
  · rcases List.mem_append.mp ha with ha | ha
    · rcases List.mem_append.mp ha with ha | ha
      · obtain ⟨x, -, ha⟩ := List.mem_flatMap.mp ha
        obtain ⟨y, -, ha⟩ := List.mem_flatMap.mp ha
        exact hpixel _ _ _ _ (by decide) ha
      · exact hpixels _ _ ha
    · exact hpixels _ _ ha
  · exact absurd ha List.not_mem_nil

/-- A cell that the title bar or a line hides gets the same colour each time. -/
lemma Hides.effect_frame (h : s.Hides w i) (v v' : Color) :
    Access.effect (s.frame w) i v = Access.effect (s.frame w) i v' := by
  have hsolid : Access.effect (s.solidFrame w) i v = Access.effect (s.solidFrame w) i v' :=
    (Access.effect_eq_iff fun _ => write_solidFrame).mpr (.inl h)
  rw [Scene.effect_frame, Scene.effect_frame, hsolid]

lemma Hides.iterate (h : s.Hides w i) (k : ℕ) (v v' : Color) :
    (Access.effect (s.frame w) i)^[k + 1] v = (Access.effect (s.frame w) i)^[k + 1] v' := by
  induction k generalizing v v' with
  | zero => exact h.effect_frame v v'
  | succ k ih =>
    rw [Function.iterate_succ_apply, Function.iterate_succ_apply]
    exact ih _ _

/-- In other cells the components are mixed with white. -/
lemma component_frame (h : ¬s.Hides w i) (hshift : shift ∈ shifts) (v : Color) :
    component shift (Access.effect (s.frame w) i v) = mixText 255 (s.frameAlphas w i) (component shift v) := by
  have hwhite : component shift 0xffffff = 255 := by
    simp only [shifts, List.mem_cons, List.not_mem_nil, or_false] at hshift
    rcases hshift with rfl | rfl | rfl <;> rfl
  have hsolid : Access.effect (s.solidFrame w) i v = v :=
    Access.effect_of_untouched fun a ha hindex => h ⟨a, ha, hindex⟩
  rw [effect_frame, hsolid, component_text hshift, hwhite]

end Scene

end PiKachulm.Wm

import PiKachulm.Wm.Requests

/-!
# Two ways to draw the screen

An update should leave the same screen whether it is compiled with `CONFIG_USE_DMA` or not. But what is
queued lands on the screen after what is drawn at once: a window hides its own focus border, it is copied
with all frames that are drawn during the update, and the wallpaper, which is copied as a whole, hides the
windows whose requests come before.
-/

namespace PiKachulm.Wm

open Core Graphics

namespace Setup

/-! ### When both agree -/

/-- What a window shows at a pixel when the calls for it have drawn its frame. -/
def shown (s : Setup) (c : Canvas) (l : List Draw) (w : Window) (p : Int32 × Int32) : Color :=
  Scene.colorOf ((Access.run (s.frame w))^[l.countP (·.window = some w)] (c.framebuffer w.pointer)) w.geometry p

/-- The call queues a request for the wallpaper. -/
def requestsPaper (s : Setup) (d : Draw) : Bool :=
  d.window.isNone && s.dmaForWallpaper && s.wallpaper.isSome && !d.rect.isNull

/-- The update leaves the same screen with DMA and without. -/
def Agrees (s : Setup) (c : Canvas) (windows : List Window) (rect : Rect) : Prop :=
  (s.updateWithDma c windows rect).screen = (s.update c windows rect).screen

variable {s : Setup} {a : Pending} {c : Canvas} {d e : Draw} {w : Window} {l l₁ l₂ : List Draw}
  {windows : List Window} {rect : Rect} {p : Int32 × Int32} {framebuffer : ℕ → ℕ → Color}

/-- A call for a window draws the frame and the border, and queues a request. -/
lemma draw_window (hd : s.Drawable d) (hw : d.window = some w) (a : Pending) : s.draw a d =
    { canvas :=
        { screen := Access.run (if s.focus w.pointer then s.focusBorder w.geometry d.rect else []) a.canvas.screen
          framebuffer := Function.update a.canvas.framebuffer w.pointer (s.framed a.canvas w) }
      queue := a.queue ++ [s.requestOf w d.rect] } := by
  have hin := hd.within w hw
  rw [draw, hw]
  dsimp only
  rw [drawWindow, hd.visible w hw, hd.intersects w hw]
  dsimp only
  rw [Scene.clippedRange_eq hin.left hin.right, Scene.clippedRange_eq hin.top hin.bottom]
  exact if_neg (hd.ranges_ne hw)

/-- A call for the background queues a request, or does the same as without DMA. -/
lemma draw_background (hw : d.window = none) (a : Pending) : s.draw a d =
    if s.requestsPaper d then { a with queue := a.queue ++ [s.wallpaperRequest] }
    else { a with canvas := s.toScene.draw a.canvas d } := by
  rw [draw, hw, Scene.draw_background hw]
  dsimp only
  rw [drawBackground, requestsPaper, hw]
  cases s.dmaForWallpaper with
  | false => rfl
  | true =>
    cases hwallpaper : s.wallpaper with
    | none =>
      rw [Scene.background_eq_nil hwallpaper]
      simp
    | some colors =>
      cases hnull : d.rect.isNull with
      | false => rfl
      | true => simp [Scene.background, hnull]

/-- The requests that a call queues. -/
def requests (s : Setup) (d : Draw) : List Request :=
  match d.window with
  | some w => [s.requestOf w d.rect]
  | none => if s.requestsPaper d then [s.wallpaperRequest] else []

/-- The framebuffers do not depend on the way the screen is drawn. -/
lemma framebuffer_draw (hd : s.Drawable d) (h : a.canvas.framebuffer = c.framebuffer) :
    (s.draw a d).canvas.framebuffer = (s.toScene.draw c d).framebuffer := by
  cases hw : d.window with
  | some w => rw [draw_window hd hw, Scene.draw_window hd hw, Scene.framed, Scene.framed, h]
  | none =>
    rw [draw_background hw, Scene.draw_background hw, Scene.draw_background hw]
    split_ifs <;> exact h

lemma framebuffer_foldl (hl : ∀ d ∈ l, s.Drawable d) (h : a.canvas.framebuffer = c.framebuffer) :
    (l.foldl s.draw a).canvas.framebuffer = (l.foldl s.toScene.draw c).framebuffer := by
  induction l generalizing a c with
  | nil => exact h
  | cons d l ih =>
    exact ih (fun e he => hl e (List.mem_cons_of_mem _ he)) (framebuffer_draw (hl d List.mem_cons_self) h)

/-! ### The requests -/

/-- What the request of a call stores at a pixel, if anything. -/
def stored (s : Setup) (framebuffer : ℕ → ℕ → Color) (d : Draw) (p : Int32 × Int32) : Option Color :=
  match d.window with
  | some w =>
    if d.rect.contains p.1 p.2 then some (Scene.colorOf (framebuffer w.pointer) w.geometry p) else none
  | none => if s.requestsPaper d then some (s.paper p) else none

/-- The windows of the calls are windows of the stack, with requests that fit. -/
structure Callable (s : Setup) (windows : List Window) (d : Draw) : Prop where
  drawable : s.Drawable d
  mem : ∀ w, d.window = some w → w ∈ windows

/-- A call whose request does not store at the pixel does there the same as without DMA. -/
lemma draw_pixel (hs : s.Fits) (hd : s.Drawable d) (hp : p ∈ s.screenRect.region)
    (hstored : s.stored framebuffer d p = none) (h : a.canvas.screen (s.pixel p) = c.screen (s.pixel p)) :
    (s.draw a d).canvas.screen (s.pixel p) = (s.toScene.draw c d).screen (s.pixel p) := by
  rw [stored] at hstored
  cases hw : d.window with
  | some w =>
    rw [hw] at hstored
    dsimp only at hstored
    split_ifs at hstored with hmem
    rw [draw_window hd hw, Scene.draw_pixel hs hd hp, if_neg hmem, ← h, Scene.borderCount, hw]
    dsimp only
    rw [Access.run_apply]
    cases hfocus : s.focus w.pointer with
    | false => simp [Scene.tint]
    | true => simpa using hs.effect_focusBorder hp w.geometry d.rect _
  | none =>
    rw [hw] at hstored
    dsimp only at hstored
    split_ifs at hstored with hpaper
    rw [draw_background hw, if_neg hpaper, Scene.draw_background hw, Scene.draw_background hw]
    dsimp only
    rw [Access.run_apply, Access.run_apply, h]

/-- A call writes no other cell. -/
lemma draw_cell {i : ℕ} (hs : s.Fits) (hd : s.Drawable d) (hi : ∀ q ∈ s.screenRect.region, i ≠ s.pixel q)
    (h : a.canvas.screen i = c.screen i) :
    (s.draw a d).canvas.screen i = (s.toScene.draw c d).screen i := by
  rw [Scene.draw_cell hs hd hi, ← h]
  cases hw : d.window with
  | some w =>
    rw [draw_window hd hw]
    dsimp only
    rw [Access.run_apply]
    apply Access.effect_of_untouched
    intro access haccess hindex
    split_ifs at haccess
    · obtain ⟨q, hq, hindex'⟩ := hs.index_focusBorder haccess
      exact hi q hq (hindex.symm.trans hindex')
    · exact absurd haccess List.not_mem_nil
  | none =>
    rw [draw_background hw]
    split_ifs
    · rfl
    · exact Scene.draw_cell hs hd hi _

/-- What is known of an update: the rectangle is a part of the screen, the amounts of the requests fit, and the
wallpaper has the size of the screen. -/
structure Updatable (s : Setup) (windows : List Window) (rect : Rect) : Prop where
  fits : s.Fits
  stack : Stack windows
  normal : rect.Normal
  inside : rect.Within s.screenRect
  sized : s.Sized windows
  fitting : s.Fitting

namespace Updatable

lemma callable (h : s.Updatable windows rect) (hd : d ∈ drawWindows windows rect) : s.Callable windows d := by
  have hwindow := (Scene.drawn_of_mem h.stack.normal h.normal hd).2.2
  have hsize : ∀ w, d.window = some w → ¬w.geometry.Overflows := by
    intro w hw
    obtain ⟨hmem, hvisible, -⟩ := hwindow w hw
    obtain ⟨hcolumns, hrows⟩ := h.sized.window w hmem hvisible
    rw [Rect.columns] at hcolumns
    rw [Rect.rows] at hrows
    rw [Rect.Overflows, Rect.span, Rect.span]
    omega
  exact ⟨Scene.drawable_of_mem h.stack h.normal h.inside hd hsize, fun w hw => (hwindow w hw).1⟩

lemma drawable (h : s.Updatable windows rect) : ∀ d ∈ drawWindows windows rect, s.Drawable d :=
  fun _ hd => (h.callable hd).drawable

end Updatable

/-- A small screen whose wallpaper is not copied by DMA. -/
def small (focus : Bool) : Setup :=
  { Scene.small with
    decoration := fun _ => ⟨false, focus, []⟩
    wallpaperHeight := 40
    dmaForWallpaper := false
    cursor := none }

end Setup

end PiKachulm.Wm

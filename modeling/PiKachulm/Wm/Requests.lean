import PiKachulm.Wm.Cursor
import PiKachulm.Wm.Repaint

/-!
# Drawing with requests

With `CONFIG_USE_DMA` a window is not copied to the screen at once: `draw_window` queues a request for the
DMA controller, and with `CONFIG_USE_DMA_FOR_WALLPAPER` `draw_background` queues one for the whole
wallpaper. The requests are executed in their order when all windows have been drawn. The focus border is
drawn at once.
-/

namespace PiKachulm.Wm

open Core Graphics

/-- A request of `memcpy_2d`. The addresses are distances in bytes: from the start of the buffer that is
read (the framebuffer of a window, or the wallpaper), and from the start of the screen buffer. -/
structure Request where
  buffer : Option ℕ
  src : ℕ
  dst : ℕ
  lineByteLength : UInt16
  nbLines : UInt16
  srcStride : UInt16
  dstStride : UInt16

/-- What a request does: a stride leads from the end of a line to the start of the next one. -/
def Request.accesses (r : Request) (source : ℕ → Color) : Painter.Accesses :=
  (List.range r.nbLines.toNat).flatMap fun line => (List.range (r.lineByteLength.toNat / 4)).map fun word =>
    let srcLine := r.src + line * (r.lineByteLength.toNat + r.srcStride.toNat)
    let dstLine := r.dst + line * (r.lineByteLength.toNat + r.dstStride.toNat)
    .put (dstLine / 4 + word) (source (srcLine / 4 + word))

/-- What `update` reads besides the scene. There is a position of the cursor when the cursor is compiled
(`CONFIG_HAS_CURSOR`). -/
structure Setup extends Scene where
  wallpaperHeight : UInt32
  dmaForWallpaper : Bool
  cursor : Option (Int32 × Int32)

/-- The canvas while the windows are drawn, and the requests that are queued. -/
structure Pending where
  canvas : Canvas
  queue : List Request

namespace Setup

variable (s : Setup)

/-! ### The cursor -/

/-- `draw_cursor`. -/
def drawCursor (cursorX cursorY : Int32) : Painter.Accesses :=
  let x := cursorX.toUInt32
  let y := cursorY.toUInt32
  let width := min (.ofNat cursorWidth) (s.screenWidth.toUInt32 - x)
  let height := min (.ofNat cursorHeight) (s.screenHeight.toUInt32 - y)
  (Painter.upTo width).flatMap fun i => (Painter.upTo height).flatMap fun j =>
    if solid i.toNat j.toNat then
      [.put (s.cell (x + i).toNat (y + j).toNat) (cursorColor i.toNat j.toNat)]
    else []

/-- `clip_rect_to_screen`. -/
def clipRectToScreen (rect : Rect) : Rect :=
  ⟨max 0 rect.x1, max 0 rect.y1, min s.screenWidth rect.x2, min s.screenHeight rect.y2⟩

/-- The end of `update`, where the cursor is drawn when it meets the rectangle. -/
def cursorAccesses (rect : Rect) : Painter.Accesses :=
  match s.cursor with
  | none => []
  | some (x, y) =>
    let cursorRect := s.clipRectToScreen (.fromPosAndSize x y (.ofNat cursorWidth) (.ofNat cursorHeight))
    if cursorRect.intersects rect then s.drawCursor x y else []

/-! ### The requests -/

/-- The request of `draw_background`. -/
def wallpaperRequest : Request where
  buffer := none
  src := 0
  dst := 0
  lineByteLength := (4 * s.wallpaperWidth.toUInt64).toUInt16
  nbLines := s.wallpaperHeight.toUInt16
  srcStride := 0
  dstStride := (4 * (s.screenPitch.toUInt64 - s.screenWidth.toInt64.toUInt64)).toUInt16

/-- The request of `draw_window`. -/
def windowRequest (w : Window) (x1 x2 y1 y2 : UInt32) : Request :=
  let framebufferPitch := w.geometry.width.toUInt32
  { buffer := some w.pointer
    src := 4 * (x1 + framebufferPitch * y1).toNat
    dst := 4 * s.cell (w.geometry.x1.toUInt32 + x1).toNat (w.geometry.y1.toUInt32 + y1).toNat
    lineByteLength := (4 * (x2 - x1).toUInt64).toUInt16
    nbLines := (y2 - y1).toUInt16
    srcStride := (4 * (framebufferPitch - (x2 - x1)).toUInt64).toUInt16
    dstStride := (4 * (s.screenPitch.toUInt64 - (x2 - x1).toUInt64)).toUInt16 }

/-- `draw_background`, compiled with `CONFIG_USE_DMA`. -/
def drawBackground (c : Pending) (rect : Rect) : Pending :=
  if s.dmaForWallpaper then
    if rect.isNull then c
    else
      match s.wallpaper with
      | none => c
      | some _ => { c with queue := c.queue ++ [s.wallpaperRequest] }
  else { c with canvas.screen := Access.run (s.background rect) c.canvas.screen }

/-- `draw_window`, compiled with `CONFIG_USE_DMA`. -/
def drawWindow (c : Pending) (w : Window) (rect : Rect) : Pending :=
  if !w.visible then c
  else if !w.geometry.intersects rect then c
  else
    let src := w.geometry
    let framebuffer := Access.run (s.frame w) (c.canvas.framebuffer w.pointer)
    let c := { c with canvas.framebuffer := Function.update c.canvas.framebuffer w.pointer framebuffer }
    let (x1, x2) := Scene.clippedRange src.x1 src.x2 rect.x1 rect.x2
    let (y1, y2) := Scene.clippedRange src.y1 src.y2 rect.y1 rect.y2
    if x1 = x2 ∨ y1 = y2 then c
    else
      let border := if s.focus w.pointer then s.focusBorder src rect else []
      { canvas := { c.canvas with screen := Access.run border c.canvas.screen }
        queue := c.queue ++ [s.windowRequest w x1 x2 y1 y2] }

/-- A call that `draw_windows` makes. -/
def draw (c : Pending) (d : Draw) : Pending :=
  match d.window with
  | none => s.drawBackground c d.rect
  | some w => s.drawWindow c w d.rect

/-- What a request reads. -/
def source (framebuffer : ℕ → ℕ → Color) (r : Request) : ℕ → Color :=
  match r.buffer with
  | some window => framebuffer window
  | none => s.wallpaper.getD fun _ => 0

/-- `execute_and_wait`. -/
def execute (framebuffer : ℕ → ℕ → Color) (queue : List Request) (screen : ℕ → Color) : ℕ → Color :=
  queue.foldl (fun screen r => Access.run (r.accesses (s.source framebuffer r)) screen) screen

/-- `update`, compiled with `CONFIG_USE_DMA`. -/
def updateWithDma (c : Canvas) (windows : List Window) (rect : Rect) : Canvas :=
  let pending := (drawWindows windows rect).foldl s.draw ⟨c, []⟩
  let screen := s.execute pending.canvas.framebuffer pending.queue pending.canvas.screen
  { pending.canvas with screen := Access.run (s.cursorAccesses rect) screen }

/-- `update`, compiled without. -/
def update (c : Canvas) (windows : List Window) (rect : Rect) : Canvas :=
  let c := s.drawWindows c windows rect
  { c with screen := Access.run (s.cursorAccesses rect) c.screen }

/-! ### Lines of words -/

end Setup

/-- The amounts of a request in words: it copies lines of so many words, and its strides lead to the next
line of the two buffers. -/
structure Request.Describes (r : Request) (words lines srcPitch dstPitch src dst : ℕ) : Prop where
  src : r.src = 4 * src
  dst : r.dst = 4 * dst
  length : r.lineByteLength.toNat = 4 * words
  lines : r.nbLines.toNat = lines
  srcStride : r.lineByteLength.toNat + r.srcStride.toNat = 4 * srcPitch
  dstStride : r.lineByteLength.toNat + r.dstStride.toNat = 4 * dstPitch

/-- The numbers of columns and of rows of a rectangle. -/
def Rect.columns (rect : Rect) : ℕ := (rect.x2.toInt - rect.x1.toInt).toNat

def Rect.rows (rect : Rect) : ℕ := (rect.y2.toInt - rect.y1.toInt).toNat

namespace Setup

variable {s : Setup} {rect : Rect} {p : Int32 × Int32} {r : Request} {color : Int32 × Int32 → Color}
  {w : Window} {d : Draw} {windows : List Window}

open Rect

/-- The amounts that the requests for the windows are about fit into their 16 bits. -/
structure Sized (s : Setup) (windows : List Window) : Prop where
  pitch : s.screenPitch.toNat < 2 ^ 14
  height : s.screenHeight.toInt < 2 ^ 16
  window : ∀ w ∈ windows, w.visible = true → w.geometry.columns < 2 ^ 14 ∧ w.geometry.rows < 2 ^ 16

/-- The wallpaper has the size of the screen. -/
structure Fitting (s : Setup) : Prop where
  width : s.wallpaperWidth.toNat = s.screenRect.columns
  height : s.wallpaperHeight.toNat = s.screenRect.rows

/-- The distance of two words that are in order, as an unsigned one. -/
lemma toNat_sub {first stop : Int32} (h : first ≤ stop) :
    ((stop - first).toUInt32.toNat : ℤ) = stop.toInt - first.toInt := by
  rw [Int32.le_iff_toInt_le] at h
  have hcases := Scene.toNat_sub_cases stop first
  omega

/-- The request for the part of a window that a call is about. -/
def requestOf (s : Setup) (w : Window) (rect : Rect) : Request :=
  s.windowRequest w (rect.x1 - w.geometry.x1).toUInt32 (rect.x2 - w.geometry.x1).toUInt32
    (rect.y1 - w.geometry.y1).toUInt32 (rect.y2 - w.geometry.y1).toUInt32

/-- The offset of a pixel in a buffer that is neither too wide nor too high does not wrap around. -/
lemma toNat_offset {x width y : UInt32} (hx : x < width) (hwidth : width.toNat < 2 ^ 14)
    (hy : y.toNat < 2 ^ 16) : (x + width * y).toNat = x.toNat + y.toNat * width.toNat := by
  rw [UInt32.lt_iff_toNat_lt] at hx
  have hmul : y.toNat * width.toNat ≤ 2 ^ 16 * 2 ^ 14 := Nat.mul_le_mul hy.le hwidth.le
  rw [UInt32.toNat_add, UInt32.toNat_mul, Nat.add_mod_mod, Nat.mul_comm]
  exact Nat.mod_eq_of_lt (by omega)

/-- The colour of the wallpaper at a pixel of the screen. -/
def paper (s : Setup) (p : Int32 × Int32) : Color :=
  (s.wallpaper.getD fun _ => 0) (p.1.toUInt32 + s.wallpaperWidth * p.2.toUInt32).toNat

end Setup

end PiKachulm.Wm

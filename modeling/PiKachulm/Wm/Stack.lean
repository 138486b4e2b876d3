import PiKachulm.Wm.DrawWindows

/-!
# The window manager

`m_windows` is the stack of the windows, the top one first, and `m_focus_window` the one that
receives the input. The operations move windows in the stack, move the focus, post messages to the
windows and ask for parts of the screen to be drawn again.
-/

namespace PiKachulm.Wm

/-- `union_with`. -/
def Rect.unionWith (r r' : Rect) : Rect :=
  if r.isNull then r'
  else if r'.isNull then r
  else .ofCorners (min r.x1 r'.x1) (min r.y1 r'.y1) (max r.x2 r'.x2) (max r.y2 r'.y2)

/-- `from_pos_and_size`. -/
def Rect.fromPosAndSize (x y width height : Int32) : Rect := .ofCorners x y (x + width) (y + height)

/-- The messages that the window manager posts of itself. -/
inductive Message where
  | focusIn
  | focusOut
  | show
  | hide
  | move (x y : Int32)
  | resize (width height : Int32)
  deriving DecidableEq

/-- A window, with the messages posted to it, the first one first. -/
structure WindowState where
  geometry : Rect
  visible : Bool
  focus : Bool
  posted : List Message

/-- A call of `update`, with the windows as they are at that moment. -/
structure Update where
  windows : List Window
  focus : ℕ → Bool
  rect : Rect

/-- The windows are known by their addresses, `window` is what the memory holds there. -/
structure WindowManager where
  screenWidth : Int32
  screenHeight : Int32
  windows : List ℕ
  window : ℕ → WindowState
  focused : Option ℕ
  lastWindowX : Int32
  lastWindowY : Int32
  updates : List Update

namespace WindowManager

/-- The window manager when it starts, after its first `update`. -/
def init (screenWidth screenHeight : Int32) : WindowManager where
  screenWidth := screenWidth
  screenHeight := screenHeight
  windows := []
  window := fun _ => ⟨.zero, false, false, []⟩
  focused := none
  lastWindowX := 50
  lastWindowY := 50
  updates := [⟨[], fun _ => false, .ofCorners 0 0 screenWidth screenHeight⟩]

variable (s : WindowManager)

def modify (window : ℕ) (f : WindowState → WindowState) : WindowManager :=
  { s with window := Function.update s.window window (f (s.window window)) }

/-- `post_message` to a window. -/
def postMessage (window : ℕ) (message : Message) : WindowManager :=
  s.modify window fun w => { w with posted := w.posted ++ [message] }

def setFocus (window : ℕ) (focus : Bool) : WindowManager :=
  s.modify window fun w => { w with focus := focus }

/-- What drawing reads of the windows. -/
def drawn : List Window :=
  s.windows.map fun w => ⟨w, (s.window w).geometry, (s.window w).visible⟩

def update (rect : Rect) : WindowManager :=
  { s with updates := s.updates ++ [⟨s.drawn, fun w => (s.window w).focus, rect⟩] }

/-! ### The focus -/

/-- What `focus_window` does when no window has the focus, or when the one that had it has lost
it. -/
def raise (window : ℕ) : WindowManager :=
  let s := s.postMessage window .focusIn
  let s := { s.setFocus window true with focused := some window }
  let s := { s with windows := window :: s.windows.erase window }
  s.update (s.window window).geometry

/-- The window that gets the focus from `window`: the last visible one. -/
def newFocusWindow (window : ℕ) : Option ℕ :=
  (s.windows.filter fun w => w ≠ window && (s.window w).visible).getLast?

/-- `unfocus_window`. Its call of `focus_window` finds no window with the focus. -/
def unfocusWindow (window : ℕ) : WindowManager :=
  if s.focused ≠ some window then s
  else
    let s := (s.setFocus window false).postMessage window .focusOut
    let newFocusWindow := s.newFocusWindow window
    let s := { s with focused := none }
    match newFocusWindow with
    | none => s
    | some w => s.raise w

def focusWindow (window : ℕ) : WindowManager :=
  if s.focused = some window then s
  else
    match s.focused with
    | none => s.raise window
    | some w => (s.unfocusWindow w).raise window

/-- `switch_focus`: the window behind the one with the focus gets it, and comes to the front. -/
def switchFocus : WindowManager :=
  match s.windows with
  | [] => s
  | front :: _ =>
    match s.focused with
    | none => s.focusWindow front
    | some old =>
      let new := ((s.windows.dropWhile (· ≠ old)).tail.head?).getD front
      if old = new then s
      else
        let s := (s.setFocus old false).postMessage old .focusOut
        let s := s.postMessage new .focusIn
        let s := { s.setFocus new true with focused := some new }
        let s := { s with windows := new :: s.windows.erase new }
        let s := { s with windows := s.windows.erase old ++ [old] }
        s.update (s.window new).geometry

/-- `handle_mouse_click_event` for the left button, pressed at `x`, `y`. -/
def handleMouseClickEvent (x y : Int32) : WindowManager :=
  match s.windows.find? fun w => (s.window w).geometry.contains x y with
  | none => s
  | some w => s.focusWindow w

/-! ### Windows -/

/-- `create_window`, for a window at the address `window`, where the memory holds `geometry`: the
constructor does not set it. -/
def createWindow (window : ℕ) (geometry : Rect) : WindowManager :=
  let s := s.modify window fun _ => ⟨geometry, false, false, []⟩
  let s := { s with windows := s.windows ++ [window] }
  s.focusWindow window

def destroyWindow (window : ℕ) : WindowManager :=
  let s := if s.focused = some window then s.unfocusWindow window else s
  let s := { s with windows := s.windows.erase window }
  let s := if (s.window window).visible then s.update (s.window window).geometry else s
  match s.windows.getLast? with
  | none => s
  | some back => s.focusWindow back

def setWindowVisibility (window : ℕ) (visible : Bool) : WindowManager :=
  if (s.window window).visible = visible then s
  else
    let s := s.modify window fun w => { w with visible := visible }
    if visible then
      if s.focused = none then (s.focusWindow window).postMessage window .show
      else (s.postMessage window .show).update (s.window window).geometry
    else if s.focused = some window then (s.unfocusWindow window).postMessage window .hide
    else s.postMessage window .hide

/-- `libk::clamp`. -/
def clamp (val minVal maxVal : Int32) : Int32 := min maxVal (max minVal val)

/-- `Window::MIN_WIDTH` and `Window::MIN_HEIGHT`. -/
def minSize : Int32 := 25

/-- `Window::MAX_WIDTH` and `Window::MAX_HEIGHT`. -/
def maxSize : Int32 := 2000

/-- The constraints on the size and on the position of a window. -/
def constrain (rect : Rect) : Rect :=
  let width := clamp rect.width minSize (min maxSize s.screenWidth)
  let height := clamp rect.height minSize (min maxSize s.screenHeight)
  let x := clamp rect.x1 0 (s.screenWidth - width)
  let y := clamp rect.y1 0 (s.screenHeight - height)
  ⟨x, y, x + width, y + height⟩

def setWindowGeometry (window : ℕ) (rect : Rect) : WindowManager :=
  let rect := s.constrain rect
  let oldRect := (s.window window).geometry
  let s := s.modify window fun w => { w with geometry := rect }
  let moved := oldRect.x1 ≠ rect.x1 ∨ oldRect.y1 ≠ rect.y1
  let resized := oldRect.width ≠ rect.width ∨ oldRect.height ≠ rect.height
  let s := if moved then s.postMessage window (.move rect.x1 rect.y1) else s
  let s := if resized then s.postMessage window (.resize rect.width rect.height) else s
  if moved ∨ resized then s.update (oldRect.unionWith rect) else s

/-- `SYS_POS_DEFAULT` and `SYS_POS_CENTERED`. -/
def posDefault : Int32 := Int32.minValue

def posCentered : Int32 := Int32.minValue + 1

/-- `set_window_geometry` for a position, which may be one of the special values, and a size. -/
def setWindowGeometryAt (window : ℕ) (x y w h : Int32) : WindowManager :=
  let x' := if x = posDefault then s.lastWindowX
    else if x = posCentered then s.screenWidth / 2 - w / 2 else x
  let y' := if y = posDefault then s.lastWindowY
    else if y = posCentered then s.screenHeight / 2 - h / 2 else y
  let s := if x = posDefault then { s with lastWindowX := s.lastWindowX + 50 } else s
  let s := if y = posDefault then { s with lastWindowY := s.lastWindowY + 50 } else s
  s.setWindowGeometry window (.fromPosAndSize x' y' w h)

end WindowManager

/-! ### Runs -/

/-- An operation of the window manager. -/
inductive Op where
  | create (window : ℕ) (geometry : Rect)
  | destroy (window : ℕ)
  | setVisibility (window : ℕ) (visible : Bool)
  | setGeometry (window : ℕ) (rect : Rect)
  | setGeometryAt (window : ℕ) (x y w h : Int32)
  | focus (window : ℕ)
  | click (x y : Int32)
  | switchFocus

namespace WindowManager

def apply (s : WindowManager) : Op → WindowManager
  | .create window geometry => s.createWindow window geometry
  | .destroy window => s.destroyWindow window
  | .setVisibility window visible => s.setWindowVisibility window visible
  | .setGeometry window rect => s.setWindowGeometry window rect
  | .setGeometryAt window x y w h => s.setWindowGeometryAt window x y w h
  | .focus window => s.focusWindow window
  | .click x y => s.handleMouseClickEvent x y
  | .switchFocus => s.switchFocus

/-- `is_valid` of the argument. A new window has an address that no other window has. -/
def Valid (s : WindowManager) : Op → Prop
  | .create window _ => window ∉ s.windows
  | .destroy window | .setVisibility window _ | .setGeometry window _
  | .setGeometryAt window .. | .focus window => window ∈ s.windows
  | .click .. | .switchFocus => True

instance (s : WindowManager) : (op : Op) → Decidable (s.Valid op)
  | .create window _ => inferInstanceAs (Decidable (window ∉ s.windows))
  | .destroy window | .setVisibility window _ | .setGeometry window _
  | .setGeometryAt window .. | .focus window => inferInstanceAs (Decidable (window ∈ s.windows))
  | .click .. | .switchFocus => inferInstanceAs (Decidable True)

/-- One operation. The assertion on its argument fails for an invalid window. -/
def step (s : WindowManager) (op : Op) : Option WindowManager :=
  if s.Valid op then some (s.apply op) else none

end WindowManager

end PiKachulm.Wm

import PiKachulm.Input.KeyboardSystem

/-!
# Mouse and keyboard through the UART

Without a keyboard of its own, the system gets its input from a host: `uart-input-server.py` writes a few
bytes for each event, and the interrupt handler of `uart_keyboard.cpp` reads them. There is no length and no
mark between two events, so that the handler has to read just the bytes that the host has written.
-/

namespace PiKachulm.Input

open Wm

/-! ### The host -/

/-- The keys of the host. A key that has two sides has three names. -/
inductive HostKey where
  | char (c : Char)
  | backspace | space | tab | enter | esc
  | f1 | f2 | f3 | f4 | f5 | f6 | f7 | f8 | f9 | f10 | f11 | f12
  | printScreen | scrollLock | pause | insert | home | pageUp | delete | endKey | pageDown
  | up | left | down | right
  | ctrl | ctrlL | ctrlR | shift | shiftL | shiftR | alt | altL | altR | altGr | cmd | cmdL | cmdR
  | menu | capsLock | numLock
  | other (n : ℕ)
  deriving DecidableEq

def charCodes : List (Char × UInt16) :=
  [('a', 0x1C), ('b', 0x32), ('c', 0x21), ('d', 0x23), ('e', 0x24), ('f', 0x2B), ('g', 0x34), ('h', 0x33),
    ('i', 0x43), ('j', 0x3B), ('k', 0x42), ('l', 0x4B), ('m', 0x3A), ('n', 0x31), ('o', 0x44), ('p', 0x4D),
    ('q', 0x15), ('r', 0x2D), ('s', 0x1B), ('t', 0x2C), ('u', 0x3C), ('v', 0x2A), ('w', 0x1D), ('x', 0x22),
    ('y', 0x35), ('z', 0x1A), ('0', 0x45), ('1', 0x16), ('2', 0x1E), ('3', 0x26), ('4', 0x25), ('5', 0x2E),
    ('6', 0x36), ('7', 0x3D), ('8', 0x3E), ('9', 0x46), (Char.ofNat 96, 0x0E), ('-', 0x4E), ('=', 0x55),
    (Char.ofNat 92, 0x5D), ('.', 0x41), (',', 0x49), ('/', 0x4A), (';', 0x4C), (Char.ofNat 39, 0x52),
    ('[', 0x54), (']', 0x5B)]

/-- `python_key_to_kernel_code`. -/
def HostKey.kernelCode : HostKey → Option UInt16
  | .char c => charCodes.lookup c
  | .backspace => some 0x66 | .space => some 0x29 | .tab => some 0x0D | .enter => some 0x5A | .esc => some 0x76
  | .f1 => some 0x05 | .f2 => some 0x06 | .f3 => some 0x04 | .f4 => some 0x0C | .f5 => some 0x03
  | .f6 => some 0x0B | .f7 => some 0x83 | .f8 => some 0x0A | .f9 => some 0x01 | .f10 => some 0x09
  | .f11 => some 0x78 | .f12 => some 0x07
  | .printScreen => some 0xE012 | .scrollLock => some 0x7E | .pause => some 0xE013
  | .insert => some 0xE070 | .home => some 0xE06C | .pageUp => some 0xE07D
  | .delete => some 0xE071 | .endKey => some 0xE069 | .pageDown => some 0xE07A
  | .up => some 0xE075 | .left => some 0xE06B | .down => some 0xE072 | .right => some 0xE074
  | .ctrl => some 0x14 | .ctrlL => some 0x14 | .ctrlR => some 0xe014
  | .shift => some 0x12 | .shiftL => some 0x12 | .shiftR => some 0x59
  | .alt => some 0x11 | .altL => some 0x11 | .altR => some 0xe011 | .altGr => some 0xe011
  | .cmd => some 0xE01F | .cmdL => some 0xE01F | .cmdR => some 0xE027
  | .menu => some 0xE02F | .capsLock => some 0x58 | .numLock => some 0x77
  | .other _ => none

inductive MouseButton where
  | left
  | middle
  | right
  | other (n : ℕ)

/-- `python_button_to_kernel_code`. -/
def MouseButton.kernelCode : MouseButton → Option UInt8
  | .left => some 0
  | .middle => some 1
  | .right => some 2
  | .other _ => none

/-- What the listeners of the host are called for. A move comes with two readings of the clock. -/
inductive HostEvent where
  | move (x y : ℤ) (now later : ℕ)
  | click (button : MouseButton) (pressed : Bool)
  | scroll (dx dy : ℤ)
  | press (key : HostKey)
  | release (key : HostKey)

/-- The global variables of the host. -/
structure Host where
  position : ℤ × ℤ
  lastMouseMoveTime : ℕ
  accDx : ℤ
  accDy : ℤ
  isKeyPressed : HostKey → Bool

def minMouseMoveTime : ℕ := 10000000

def Host.start : Host := ⟨(0, 0), 0, 0, 0, fun _ => false⟩

def clamp (x min max : ℤ) : ℤ := if x < min then min else if x > max then max else x

/-- `1 << 4` and `1 << 5`, in a header. -/
def flag4 : UInt8 := 0x10

def flag5 : UInt8 := 0x20

/-- The kind of the event with the two signs, and the magnitudes. -/
def signedBytes (kind : UInt8) (dx dy : ℤ) : List UInt8 :=
  [(kind ||| if dx < 0 then flag4 else 0) ||| if dy < 0 then flag5 else 0,
    UInt8.ofNat dx.natAbs, UInt8.ofNat dy.natAbs]

/-- The key code is written with the lower byte first. -/
def keyBytes (header : UInt8) (code : UInt16) : List UInt8 :=
  [header, UInt8.ofNat (code.toNat % 256), UInt8.ofNat (code.toNat / 256)]

namespace Host

variable (h : Host)

/-- Moves that come too early are added to the next one. -/
def onMouseMove (x y : ℤ) (now later : ℕ) : List UInt8 × Host :=
  let dx := x - h.position.1
  let dy := y - h.position.2
  let h := { h with position := (x, y) }
  if now - h.lastMouseMoveTime < minMouseMoveTime then
    ([], { h with accDx := h.accDx + dx, accDy := h.accDy + dy })
  else
    (signedBytes 0x01 (clamp (h.accDx + dx) (-255) 255) (clamp (h.accDy + dy) (-255) 255),
      { h with lastMouseMoveTime := later, accDx := 0, accDy := 0 })

def onMouseClick (button : MouseButton) (pressed : Bool) : List UInt8 × Host :=
  match button.kernelCode with
  | none => ([], h)
  | some code => ([0x02 ||| if pressed then flag4 else 0, code], h)

def onMouseScroll (dx dy : ℤ) : List UInt8 × Host :=
  (signedBytes 0x03 (clamp dx (-255) 255) (clamp dy (-255) 255), h)

def onKeyPress (key : HostKey) : List UInt8 × Host :=
  match key.kernelCode with
  | none => ([], h)
  | some code =>
    if h.isKeyPressed key then ([], h)
    else (keyBytes (0x04 ||| flag4) code,
      { h with isKeyPressed := Function.update h.isKeyPressed key true })

def onKeyRelease (key : HostKey) : List UInt8 × Host :=
  match key.kernelCode with
  | none => ([], h)
  | some code =>
    if !h.isKeyPressed key then ([], h)
    else (keyBytes 0x04 code, { h with isKeyPressed := Function.update h.isKeyPressed key false })

def step : HostEvent → List UInt8 × Host
  | .move x y now later => h.onMouseMove x y now later
  | .click button pressed => h.onMouseClick button pressed
  | .scroll dx dy => h.onMouseScroll dx dy
  | .press key => h.onKeyPress key
  | .release key => h.onKeyRelease key

/-- What is written for a list of events, and the host afterwards. -/
def run : Host → List HostEvent → List UInt8 × Host
  | h, [] => ([], h)
  | h, e :: es => ((h.step e).1 ++ ((h.step e).2.run es).1, ((h.step e).2.run es).2)

end Host

/-! ### The interrupt handler -/

/-- What the handler notifies the mouse and the keyboard of. -/
inductive InputEvent where
  | move (dx dy : ℤ)
  | click (button : UInt8) (isPressed : Bool)
  | scroll (dx dy : ℤ)
  | key (keycode : BitVec 32) (isPressed : Bool)
  deriving DecidableEq

def signed (header : UInt8) (sign : UInt8) (mag : UInt8) : ℤ :=
  if header &&& sign ≠ 0 then -mag.toNat else mag.toNat

/-- The handler of `VC_UART`, and the bytes that it does not read. When bytes are missing, it waits. -/
def uartHandler : List UInt8 → Option (Option InputEvent × List UInt8)
  | [] => some (none, [])
  | header :: rest =>
    if header &&& 0xF = 0x1 then
      match rest with
      | dxMag :: dyMag :: rest =>
        some (some (.move (signed header flag4 dxMag) (signed header flag5 dyMag)), rest)
      | _ => none
    else if header &&& 0xF = 0x2 then
      match rest with
      | button :: rest => some (some (.click button (header &&& flag4 ≠ 0)), rest)
      | _ => none
    else if header &&& 0xF = 0x3 then
      match rest with
      | dxMag :: dyMag :: rest =>
        some (some (.scroll (signed header flag4 dxMag) (signed header flag5 dyMag)), rest)
      | _ => none
    else if header &&& 0xF = 0x4 then
      match rest with
      | low :: high :: rest =>
        some (some (.key (BitVec.ofNat 32 (low.toNat + 256 * high.toNat)) (header &&& flag4 ≠ 0)), rest)
      | _ => none
    else some (none, rest)

/-- The handler is called as long as there are bytes. -/
def handleAll : ℕ → List UInt8 → Option (List InputEvent)
  | _, [] => some []
  | 0, _ :: _ => none
  | fuel + 1, header :: rest =>
    match uartHandler (header :: rest) with
    | none => none
    | some (e, rest) => (handleAll fuel rest).map (e.toList ++ ·)

/-! ### What the host means -/

namespace Host

/-- The event that the host tells about: moves that are made together, buttons and keys that have a code, and
keys that were not yet as they are now. -/
def event (h : Host) : HostEvent → Option InputEvent
  | .move x y now _ =>
    if now - h.lastMouseMoveTime < minMouseMoveTime then none
    else some (.move (clamp (h.accDx + (x - h.position.1)) (-255) 255)
      (clamp (h.accDy + (y - h.position.2)) (-255) 255))
  | .click button pressed => button.kernelCode.map (.click · pressed)
  | .scroll dx dy => some (.scroll (clamp dx (-255) 255) (clamp dy (-255) 255))
  | .press key =>
    if h.isKeyPressed key then none else key.kernelCode.map fun code => .key (code.toBitVec.setWidth 32) true
  | .release key =>
    if h.isKeyPressed key then key.kernelCode.map fun code => .key (code.toBitVec.setWidth 32) false else none

def events : Host → List HostEvent → List InputEvent
  | _, [] => []
  | h, e :: es => (h.event e).toList ++ (h.step e).2.events es

end Host

variable {h : Host} {rest : List UInt8} {dx dy : ℤ} {kind : UInt8} {code : UInt16} {e : HostEvent}

/-! ### One event -/

lemma clamp_natAbs (x : ℤ) : (clamp x (-255) 255).natAbs ≤ 255 := by
  rw [clamp]
  split_ifs <;> omega

/-- The signs are those of the numbers. -/
lemma signed_signedBytes {header sign : UInt8} (hsign : header &&& sign ≠ 0 ↔ dx < 0) (hdx : dx.natAbs ≤ 255) :
    signed header sign (UInt8.ofNat dx.natAbs) = dx := by
  rw [signed, UInt8.toNat_ofNat_of_lt' (by omega : dx.natAbs < 256)]
  by_cases hneg : dx < 0
  · rw [if_pos (hsign.mpr hneg)]
    omega
  · rw [if_neg (mt hsign.mp hneg)]
    omega

/-- The handler reads a pair of numbers. -/
lemma header_signedBytes (hkind : kind = 0x01 ∨ kind = 0x03) (dx dy : ℤ) :
    let header := (kind ||| if dx < 0 then flag4 else 0) ||| if dy < 0 then flag5 else 0
    header &&& 0xF = kind ∧ (header &&& flag4 ≠ 0 ↔ dx < 0) ∧ (header &&& flag5 ≠ 0 ↔ dy < 0) := by
  obtain rfl | rfl := hkind
  all_goals
    by_cases hdx : dx < 0
    all_goals
      by_cases hdy : dy < 0
      all_goals
        simp only [hdx, hdy, if_true, if_false, iff_true, iff_false]
        decide

lemma uartHandler_move (hdx : dx.natAbs ≤ 255) (hdy : dy.natAbs ≤ 255) (rest : List UInt8) :
    uartHandler (signedBytes 0x01 dx dy ++ rest) = some (some (.move dx dy), rest) := by
  obtain ⟨hheader, hsign, hsign'⟩ := header_signedBytes (.inl rfl) dx dy
  simp only [signedBytes, List.cons_append, List.nil_append, uartHandler, hheader, if_true,
    signed_signedBytes hsign hdx, signed_signedBytes hsign' hdy]

lemma uartHandler_scroll (hdx : dx.natAbs ≤ 255) (hdy : dy.natAbs ≤ 255) (rest : List UInt8) :
    uartHandler (signedBytes 0x03 dx dy ++ rest) = some (some (.scroll dx dy), rest) := by
  obtain ⟨hheader, hsign, hsign'⟩ := header_signedBytes (.inr rfl) dx dy
  have h1 : ¬(3 : UInt8) = 1 := by decide
  have h2 : ¬(3 : UInt8) = 2 := by decide
  simp only [signedBytes, List.cons_append, List.nil_append, uartHandler, hheader, h1, h2, if_true, if_false,
    signed_signedBytes hsign hdx, signed_signedBytes hsign' hdy]

lemma uartHandler_click (code : UInt8) (pressed : Bool) (rest : List UInt8) :
    uartHandler ((0x02 ||| if pressed then flag4 else 0) :: code :: rest) =
      some (some (.click code pressed), rest) := by
  cases pressed <;> rfl

lemma uartHandler_key (code : UInt16) (pressed : Bool) (rest : List UInt8) :
    uartHandler (keyBytes (0x04 ||| if pressed then flag4 else 0) code ++ rest) =
      some (some (.key (code.toBitVec.setWidth 32) pressed), rest) := by
  have hcode : BitVec.ofNat 32 ((UInt8.ofNat (code.toNat % 256)).toNat +
      256 * (UInt8.ofNat (code.toNat / 256)).toNat) = code.toBitVec.setWidth 32 := by
    have hlt := code.toNat_lt
    rw [UInt8.toNat_ofNat_of_lt' (Nat.mod_lt _ (by decide)), UInt8.toNat_ofNat_of_lt' (by
      change code.toNat / 256 < 256
      omega), Nat.mod_add_div]
    apply BitVec.eq_of_toNat_eq
    simp
  cases pressed
  · change some (some (InputEvent.key (BitVec.ofNat 32 _) _), rest) = _
    rw [hcode]
    rfl
  · change some (some (InputEvent.key (BitVec.ofNat 32 _) _), rest) = _
    rw [hcode]
    rfl

/-! ### Sequences of events -/

/-- The host writes nothing, or the bytes that the handler reads for the event. -/
lemma Host.step_cases (h : Host) (e : HostEvent) : (h.step e).1 = [] ∧ h.event e = none ∨
    ∃ i, h.event e = some i ∧ (h.step e).1 ≠ [] ∧
      ∀ rest, uartHandler ((h.step e).1 ++ rest) = some (some i, rest) := by
  cases e with
  | move x y now later =>
    rw [step, onMouseMove, event]
    split_ifs
    · exact .inl ⟨rfl, rfl⟩
    · exact .inr ⟨_, rfl, List.cons_ne_nil _ _, uartHandler_move (clamp_natAbs _) (clamp_natAbs _)⟩
  | click button pressed =>
    rw [step, onMouseClick, event]
    cases button.kernelCode with
    | none => exact .inl ⟨rfl, rfl⟩
    | some code => exact .inr ⟨_, rfl, List.cons_ne_nil _ _, uartHandler_click code pressed⟩
  | scroll dx dy =>
    exact .inr ⟨_, rfl, List.cons_ne_nil _ _, uartHandler_scroll (clamp_natAbs dx) (clamp_natAbs dy)⟩
  | press key =>
    rw [step, onKeyPress, event]
    cases key.kernelCode with
    | none => exact .inl ⟨rfl, ite_self _⟩
    | some code =>
      dsimp only
      split_ifs
      · exact .inl ⟨rfl, rfl⟩
      · exact .inr ⟨_, rfl, List.cons_ne_nil _ _, uartHandler_key code true⟩
  | release key =>
    rw [step, onKeyRelease, event]
    cases key.kernelCode with
    | none => exact .inl ⟨rfl, ite_self _⟩
    | some code =>
      cases h.isKeyPressed key
      · exact .inl ⟨rfl, rfl⟩
      · exact .inr ⟨_, rfl, List.cons_ne_nil _ _, uartHandler_key code false⟩

lemma handleAll_append {bytes rest : List UInt8} {i : InputEvent} {fuel : ℕ} (hne : bytes ≠ [])
    (hhandler : uartHandler (bytes ++ rest) = some (some i, rest)) :
    handleAll (fuel + 1) (bytes ++ rest) = (handleAll fuel rest).map (i :: ·) := by
  obtain ⟨header, bytes, rfl⟩ := List.exists_cons_of_ne_nil hne
  rw [List.cons_append] at hhandler ⊢
  rw [handleAll, hhandler]
  rfl

lemma handleAll_of_le (h : Host) (es : List HostEvent) (fuel : ℕ) (hfuel : (h.run es).1.length ≤ fuel) :
    handleAll fuel (h.run es).1 = some (h.events es) := by
  induction es generalizing h fuel with
  | nil => cases fuel <;> rfl
  | cons e es ih =>
    rw [Host.run, Host.events]
    rw [Host.run, List.length_append] at hfuel
    obtain ⟨hnone, hevent⟩ | ⟨i, hevent, hne, hhandler⟩ := h.step_cases e
    · rw [hnone, hevent]
      exact ih _ _ (by omega)
    · have hpos := List.length_pos_of_ne_nil hne
      obtain ⟨fuel, rfl⟩ := Nat.exists_eq_add_of_lt (hpos.trans_le ((Nat.le_add_right _ _).trans hfuel))
      rw [Nat.zero_add, handleAll_append hne (hhandler _), hevent, ih _ _ (by omega)]
      rfl

/-- The handler finds the events that the host tells about, in their order, and reads all the bytes. -/
theorem handleAll_run (h : Host) (es : List HostEvent) :
    handleAll (h.run es).1.length (h.run es).1 = some (h.events es) := handleAll_of_le h es _ le_rfl

/-! ### Moves -/

/-- How far the mouse is moved. -/
def totalMove (es : List InputEvent) : ℤ × ℤ :=
  (es.map fun e => match e with | .move dx dy => (dx, dy) | _ => 0).sum

/-- How far the host has been told that the mouse moved, without what has to be told yet. -/
def Host.told (h : Host) : ℤ × ℤ := (h.position.1 - h.accDx, h.position.2 - h.accDy)

/-- The moves that are told together are not too far. -/
def Host.Near (h : Host) : HostEvent → Prop
  | .move x y now _ => ¬now - h.lastMouseMoveTime < minMouseMoveTime →
      (h.accDx + (x - h.position.1)).natAbs ≤ 255 ∧ (h.accDy + (y - h.position.2)).natAbs ≤ 255
  | _ => True

def Host.AllNear : Host → List HostEvent → Prop
  | _, [] => True
  | h, e :: es => h.Near e ∧ (h.step e).2.AllNear es

lemma clamp_eq {x : ℤ} (h : x.natAbs ≤ 255) : clamp x (-255) 255 = x := by
  rw [clamp]
  split_ifs <;> omega

lemma totalMove_step (h : Host) (he : h.Near e) :
    h.told + totalMove (h.event e).toList = (h.step e).2.told := by
  cases e with
  | move x y now later =>
    rw [Host.step, Host.onMouseMove, Host.event]
    split_ifs with hnow
    · simp only [Option.toList_none, totalMove, List.map_nil, List.sum_nil, Host.told, Prod.ext_iff, Prod.fst_add,
        Prod.snd_add, Prod.fst_zero, Prod.snd_zero]
      constructor <;> omega
    · obtain ⟨hdx, hdy⟩ := he hnow
      rw [clamp_eq hdx, clamp_eq hdy]
      simp only [Option.toList_some, totalMove, List.map_cons, List.map_nil, List.sum_cons, List.sum_nil, Host.told,
        Prod.ext_iff, Prod.fst_add, Prod.snd_add, Prod.fst_zero, Prod.snd_zero]
      constructor <;> omega
  | click button pressed =>
    rw [Host.step, Host.onMouseClick, Host.event]
    cases button.kernelCode <;> simp [totalMove]
  | scroll dx dy => simp [Host.step, Host.onMouseScroll, Host.event, totalMove]
  | press key =>
    rw [Host.step, Host.onKeyPress, Host.event]
    cases key.kernelCode <;> cases h.isKeyPressed key <;> simp [totalMove, Host.told]
  | release key =>
    rw [Host.step, Host.onKeyRelease, Host.event]
    cases key.kernelCode <;> cases h.isKeyPressed key <;> simp [totalMove, Host.told]

/-- No movement is lost: what the kernel is told is how far the mouse has moved on the host, without the
moves that came too early after the last one that was told. -/
theorem told_add_totalMove (h : Host) (es : List HostEvent) (hnear : h.AllNear es) :
    h.told + totalMove (h.events es) = (h.run es).2.told := by
  induction es generalizing h with
  | nil => exact add_zero _
  | cons e es ih =>
    obtain ⟨he, hes⟩ := hnear
    have hsum : totalMove (h.events (e :: es)) =
        totalMove (h.event e).toList + totalMove ((h.step e).2.events es) := by
      rw [Host.events, totalMove, List.map_append, List.sum_append]
      rfl
    rw [hsum, ← add_assoc, totalMove_step h he, ih _ hes]
    rfl

/-- The second move comes too early and is told with the third one. -/
theorem told_add_totalMove_three : Host.start.told + totalMove (Host.start.events
    [.move 5 7 20000000 20000000, .move 8 (-2) 20000001 20000001, .move 9 0 30000000 30000000]) = (9, 0) :=
  (told_add_totalMove _ _ (by simp only [Host.AllNear, Host.Near]; decide)).trans (by decide)

/-! ### Keys that are held -/

/-- `MouseSystem` and `KeyboardSystem` are notified, and a message is posted. -/
def KeyboardSystem.notify (s : KeyboardSystem) : InputEvent → KeyboardSystem × Option SysMessage
  | .move dx dy => (s, some ⟨3, 0, .ofBitVec (BitVec.ofInt 64 dx), .ofBitVec (BitVec.ofInt 64 dy)⟩)
  | .click button isPressed => (s, some ⟨4, 0, button.toUInt64, if isPressed then 1 else 0⟩)
  | .scroll _ _ => (s, none)
  | .key keycode isPressed => s.notifyHardwareEvent keycode isPressed

def KeyboardSystem.notifyAll (s : KeyboardSystem) (es : List InputEvent) : KeyboardSystem :=
  es.foldl (fun s e => (s.notify e).1) s

/-- The keys of the host that are keys of a modifier. -/
def hostKeys : Modifier → List HostKey
  | .ctrl  => [.ctrl, .ctrlL, .ctrlR]
  | .shift => [.shift, .shiftL, .shiftR]
  | .alt   => [.alt, .altL]
  | .gui   => [.cmd, .cmdL, .cmdR]
  | _      => []

lemma nodup_hostKeys (m : Modifier) : (hostKeys m).Nodup := by cases m <;> decide

/-- No character has the code of a modifier. -/
lemma charCodes_notMem (m : Modifier) : ∀ p ∈ charCodes, p.2.toBitVec.setWidth 32 ∉ keysOf m := by
  cases m <;> decide +kernel

/-- The table has the codes of a modifier for its keys only. -/
lemma mem_hostKeys_iff {key : HostKey} {m : Modifier} (hm : m ∈ heldModifiers) (hcode : key.kernelCode = some code) :
    code.toBitVec.setWidth 32 ∈ keysOf m ↔ key ∈ hostKeys m := by
  cases key with
  | char c =>
    have hmem : (c, code) ∈ charCodes := by
      obtain ⟨l₁, l₂, hl, -⟩ := List.lookup_eq_some_iff.mp hcode
      rw [hl]
      exact List.mem_append_right _ List.mem_cons_self
    refine iff_of_false (charCodes_notMem m _ hmem) ?_
    cases m <;> simp [hostKeys]
  | other n => cases hcode
  | _ =>
    obtain rfl := Option.some_inj.mp hcode
    cases m <;> decide

/-- The counters are how many keys are pressed. -/
def Host.Agrees (h : Host) (s : KeyboardSystem) : Prop :=
  ∀ m ∈ heldModifiers, s.counter m = ((hostKeys m).countP h.isKeyPressed : ℕ)

/-- One key is pressed or released. -/
lemma countP_update {ks : List HostKey} (hks : ks.Nodup) (p : HostKey → Bool) {key : HostKey} (hkey : key ∈ ks)
    (b : Bool) : ks.countP (Function.update p key b) + (if p key then 1 else 0) =
      ks.countP p + if b then 1 else 0 := by
  have herase : (ks.erase key).countP (Function.update p key b) = (ks.erase key).countP p := by
    refine List.countP_congr fun k hk => ?_
    rw [Function.update_of_ne (ne_of_mem_of_not_mem hk hks.not_mem_erase)]
  rw [(List.perm_cons_erase hkey).countP_eq, (List.perm_cons_erase hkey).countP_eq p, List.countP_cons,
    List.countP_cons, herase, Function.update_self]
  omega

lemma countP_update_of_notMem {ks : List HostKey} (p : HostKey → Bool) {key : HostKey} (hkey : key ∉ ks)
    (b : Bool) : ks.countP (Function.update p key b) = ks.countP p := by
  refine List.countP_congr fun k hk => ?_
  rw [Function.update_of_ne (ne_of_mem_of_not_mem hk hkey)]

/-- A key that changes changes the counter of its modifier. -/
lemma Host.Agrees.key {s : KeyboardSystem} (hagrees : h.Agrees s) {key : HostKey} {pressed : Bool}
    (hcode : key.kernelCode = some code) (hkey : h.isKeyPressed key = !pressed) :
    ({ h with isKeyPressed := Function.update h.isKeyPressed key pressed } : Host).Agrees
      (s.notifyHardwareEvent (code.toBitVec.setWidth 32) pressed).1 := by
  intro m hm
  rw [KeyboardSystem.counter_notifyHardwareEvent hm, hagrees m hm]
  by_cases hmem : key ∈ hostKeys m
  · have hcount := countP_update (nodup_hostKeys m) h.isKeyPressed hmem pressed
    rw [if_pos ((mem_hostKeys_iff hm hcode).mpr hmem)]
    cases pressed with
    | true =>
      rw [hkey, if_pos rfl, Bool.not_true, if_neg Bool.false_ne_true, Nat.add_zero] at hcount
      rw [if_pos rfl, hcount]
      rfl
    | false =>
      rw [hkey, if_neg Bool.false_ne_true, Bool.not_false, if_pos rfl] at hcount
      rw [if_neg Bool.false_ne_true, KeyboardSystem.decrease, if_neg (by omega)]
      simp only
      omega
  · rw [if_neg (mt (mem_hostKeys_iff hm hcode).mp hmem)]
    exact congrArg _ (countP_update_of_notMem _ hmem _).symm

lemma Host.Agrees.step {s : KeyboardSystem} (hagrees : h.Agrees s) (e : HostEvent) :
    (h.step e).2.Agrees (s.notifyAll (h.event e).toList) := by
  cases e with
  | move x y now later =>
    rw [Host.step, onMouseMove, event]
    split_ifs <;> exact hagrees
  | click button pressed =>
    rw [Host.step, onMouseClick, event]
    cases button.kernelCode <;> exact hagrees
  | scroll dx dy => exact hagrees
  | press key =>
    rw [Host.step, onKeyPress, event]
    cases hcode : key.kernelCode with
    | none =>
      cases h.isKeyPressed key <;> exact hagrees
    | some code =>
      cases hkey : h.isKeyPressed key with
      | false => exact hagrees.key hcode hkey
      | true => exact hagrees
  | release key =>
    rw [Host.step, onKeyRelease, event]
    cases hcode : key.kernelCode with
    | none =>
      cases h.isKeyPressed key <;> exact hagrees
    | some code =>
      cases hkey : h.isKeyPressed key with
      | false => exact hagrees
      | true => exact hagrees.key hcode hkey

lemma Host.Agrees.run {s : KeyboardSystem} (hagrees : h.Agrees s) (es : List HostEvent) :
    (h.run es).2.Agrees (s.notifyAll (h.events es)) := by
  induction es generalizing h s with
  | nil => exact hagrees
  | cons e es ih =>
    rw [Host.run, Host.events, KeyboardSystem.notifyAll, List.foldl_append]
    exact ih (hagrees.step e)

/-- Whatever happens on the host, also when keys repeat: the events that the handler reads leave a modifier on
when one of its keys is held on the host, and only then. -/
theorem modifiers_of_run (es : List HostEvent) {m : Modifier} (hm : m ∈ [Modifier.ctrl, .shift, .alt]) :
    ∃ events, handleAll (Host.start.run es).1.length (Host.start.run es).1 = some events ∧
      ((KeyboardSystem.initial.notifyAll events).getCurrentKeyModifiers &&& m.flag ≠ 0 ↔
        ∃ key ∈ hostKeys m, (Host.start.run es).2.isKeyPressed key) := by
  refine ⟨_, handleAll_of_le _ es _ le_rfl, ?_⟩
  have hstart : Host.start.Agrees KeyboardSystem.initial := by
    intro m hm
    have hzero : (hostKeys m).countP Host.start.isKeyPressed = 0 :=
      List.countP_eq_zero.mpr fun _ _ => Bool.false_ne_true
    rw [hzero]
    cases m <;> rfl
  have hheld : m ∈ heldModifiers := by
    revert hm
    cases m <;> decide
  have hcounter := (hstart.run es) m hheld
  have hpos : (∃ key ∈ hostKeys m, (Host.start.run es).2.isKeyPressed key) ↔
      0 < (KeyboardSystem.initial.notifyAll (Host.start.events es)).counter m := by
    rw [hcounter, Int.natCast_pos, List.countP_pos_iff]
  rw [KeyboardSystem.getCurrentKeyModifiers, collect_and_flag, hpos]
  cases m <;> simp_all [KeyboardSystem.isOn, KeyboardSystem.counter]

/-- A key that repeats. -/
theorem modifiers_of_run_repeat :
    let es := [HostEvent.press .ctrl, .press .ctrl, .press (.char 'c'), .release .ctrl]
    ∃ events, handleAll (Host.start.run es).1.length (Host.start.run es).1 = some events ∧
      ((KeyboardSystem.initial.notifyAll events).getCurrentKeyModifiers &&& Modifier.ctrl.flag ≠ 0 ↔
        ∃ key ∈ hostKeys .ctrl, (Host.start.run es).2.isKeyPressed key) :=
  modifiers_of_run _ (by decide)

end PiKachulm.Input

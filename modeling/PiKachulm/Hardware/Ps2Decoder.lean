import PiKachulm.Input.KeyEvent
import Mathlib.Logic.Function.Basic

/-!
# The decoder of PS/2 scancodes

`process_message` is given one byte after the other and puts the scancodes of set 2 together. Keys are sent
as a code below 0x90, some with a prefix 0xe0, and with 0xf0 before the code when they are released. Print
Screen and Pause are sent as several codes.
-/

namespace PiKachulm.Hardware

open Input

/-- The static variables of `process_message` and `sticky`. The function `on` stands for `ctrl_on`,
`shift_on`, `alt_on`, `num_on`, `caps_on` and `scroll_on`. -/
structure Ps2Decoder where
  on : Modifier → Bool
  isRelease : Bool
  msgStack : BitVec 64
  sticky : Bool

namespace Ps2Decoder

variable (s : Ps2Decoder)

def reset (sticky : Bool) : Ps2Decoder := ⟨fun _ => false, false, 0, sticky⟩

/-- A key that is on while it is held, or that changes at each release when keys are sticky. -/
def holdModifier (m : Modifier) : Modifier → Bool :=
  Function.update s.on m (if s.sticky then (if s.isRelease then !s.on m else s.on m) else !s.isRelease)

/-- A lock changes at each release. -/
def toggleLock (m : Modifier) : Modifier → Bool :=
  Function.update s.on m (if s.isRelease then !s.on m else s.on m)

def modifiers : BitVec 32 := collect s.on [.ctrl, .shift, .alt, .num, .caps, .scroll]

/-- Ready for the next scancode. -/
def done (on : Modifier → Bool) : Ps2Decoder := { s with on, msgStack := 0, isRelease := false }

/-- The code of the key, which is a code of its own for Print Screen and Pause. -/
def keyCode (msgStack : BitVec 64) : BitVec 32 :=
  let msgStack :=
    if msgStack = 0xe012e07c ∨ msgStack = 0xe07ce012 then SysKey.printScreen.setWidth 64 else msgStack
  let msgStack := if msgStack = 0xe11477e11477 then SysKey.pause.setWidth 64 else msgStack
  msgStack.setWidth 32

/-- The event that `process_message` gives to `on_event`, if there is one. -/
def keyEvent (msgStack : BitVec 64) : BitVec 64 :=
  if s.isRelease then sysCreateReleaseEvent (keyCode msgStack) s.modifiers
  else sysCreatePressEvent (keyCode msgStack) s.modifiers

def processMessage (message : BitVec 8) : Ps2Decoder × Option (BitVec 64) :=
  if message = 0xf0 then ({ s with isRelease := true }, none)
  else
    let msgStack := s.msgStack <<< 8 ||| message.setWidth 64
    -- no code of a key, a prefix
    if message ≥ 0x90 then ({ s with msgStack }, none)
    -- likely to be a Print Screen
    else if msgStack = 0xe012 ∨ msgStack = 0xe07c then ({ s with msgStack }, none)
    -- likely to be a Pause
    else if msgStack = 0xe114 ∨ msgStack = 0xe11477 ∨ msgStack = 0xe11477e114 then ({ s with msgStack }, none)
    else if msgStack = 0x14 ∨ msgStack = 0xe014 then (s.done (s.holdModifier .ctrl), none)
    else if msgStack = 0x12 ∨ msgStack = 0x59 then (s.done (s.holdModifier .shift), none)
    else if msgStack = 0x11 ∨ msgStack = 0xe011 then (s.done (s.holdModifier .alt), none)
    else if msgStack = 0x77 then (s.done (s.toggleLock .num), none)
    else if msgStack = 0x58 then (s.done (s.toggleLock .caps), none)
    else if msgStack = 0x7e then (s.done (s.toggleLock .scroll), none)
    else (s.done s.on, some (s.keyEvent msgStack))

/-- The state after a list of bytes. -/
def run : Ps2Decoder → List (BitVec 8) → Ps2Decoder
  | s, []      => s
  | s, b :: bs => run (s.processMessage b).1 bs

/-- The events for a list of bytes. -/
def emitted : Ps2Decoder → List (BitVec 8) → List (BitVec 64)
  | _, []      => []
  | s, b :: bs => (s.processMessage b).2.toList ++ emitted (s.processMessage b).1 bs

end Ps2Decoder

/-! ### Scancodes -/

/-- A key of set 2 with one code. The codes 0x12 and 0x7c after a prefix are parts of Print Screen. -/
structure ScanKey where
  extended : Bool
  code : BitVec 8
  isCode : code < 0x90
  notPart : extended = true → code ≠ 0x12 ∧ code ≠ 0x7c

/-- The modifier or the lock that a key stands for. -/
def ScanKey.modifier? (k : ScanKey) : Option Modifier :=
  if k.code = 0x14 then some .ctrl
  else if k.extended = false ∧ (k.code = 0x12 ∨ k.code = 0x59) then some .shift
  else if k.code = 0x11 then some .alt
  else if k.extended = false ∧ k.code = 0x77 then some .num
  else if k.extended = false ∧ k.code = 0x58 then some .caps
  else if k.extended = false ∧ k.code = 0x7e then some .scroll
  else none

/-- What is sent when a key is pressed or released. -/
inductive Scancode
  | key (k : ScanKey) (release : Bool)
  | printScreen (release : Bool)
  | pause

namespace Scancode

def bytes : Scancode → List (BitVec 8)
  | key k release     => (if k.extended then [0xe0] else []) ++ (if release then [0xf0] else []) ++ [k.code]
  | printScreen false => [0xe0, 0x12, 0xe0, 0x7c]
  | printScreen true  => [0xe0, 0xf0, 0x7c, 0xe0, 0xf0, 0x12]
  | pause             => [0xe1, 0x14, 0x77, 0xe1, 0xf0, 0x14, 0xf0, 0x77]

/-- Pause is sent only when the key is pressed. -/
def isBreak : Scancode → Bool
  | key _ release       => release
  | printScreen release => release
  | pause               => false

/-- Modifiers and locks have no events of their own. -/
def isModifier : Scancode → Bool
  | key k _       => k.modifier?.isSome
  | printScreen _ => false
  | pause         => false

/-- The modifiers after a scancode: those that are held, or those that are toggled by a release. -/
def modify (sticky : Bool) (on : Modifier → Bool) : Scancode → (Modifier → Bool)
  | key k release => fun m =>
    if k.modifier? = some m then
      if sticky ∨ m ∈ [Modifier.num, .caps, .scroll] then (on m).xor release else !release
    else on m
  | printScreen _ => on
  | pause => on

/-- The modifiers after a list of scancodes. -/
def accumulated (sticky : Bool) (cs : List Scancode) : Modifier → Bool :=
  cs.foldl (modify sticky) fun _ => false

/-- The mask of all the modifiers that are on. -/
def modifierWord (on : Modifier → Bool) : BitVec 32 := collect on Modifier.all

end Scancode

/-- After some scancodes, the events for one more are those that it has alone, but for the modifiers. -/
structure PlaysAlone (sticky : Bool) (before : List Scancode) (c : Scancode) : Prop where
  events : (((Ps2Decoder.reset sticky).run (before.flatMap Scancode.bytes)).emitted c.bytes) =
    ((Ps2Decoder.reset sticky).emitted c.bytes).map
      (withModifiers (Scancode.modifierWord (Scancode.accumulated sticky before)))
  cleared : ((Ps2Decoder.reset sticky).run ((before ++ [c]).flatMap Scancode.bytes)).msgStack = 0 ∧
    ((Ps2Decoder.reset sticky).run ((before ++ [c]).flatMap Scancode.bytes)).isRelease = false
  count : ((Ps2Decoder.reset sticky).emitted c.bytes).length = if c.isModifier then 0 else 1
  kind : ∀ e ∈ (Ps2Decoder.reset sticky).emitted c.bytes,
    if c.isBreak then sysIsReleaseEvent e ∧ ¬sysIsPressEvent e else sysIsPressEvent e ∧ ¬sysIsReleaseEvent e

/-- Each scancode of a list plays alone. -/
def Composes (sticky : Bool) (cs : List Scancode) : Prop :=
  ∀ before c, before ++ [c] <+: cs → PlaysAlone sticky before c

/-! ### The last code of a key -/

namespace ScanKey

variable {k : ScanKey}

/-- What is left of the prefix of a key. -/
def lead (k : ScanKey) : BitVec 64 := if k.extended then 0xe0 else 0

/-- The prefix and the code of a key. -/
def word (k : ScanKey) : BitVec 64 := k.lead <<< 8 ||| k.code.setWidth 64

lemma toNat_word (k : ScanKey) : k.word.toNat = (if k.extended then 0xe000 else 0) + k.code.toNat := by
  have hplain : ∀ code : BitVec 8, ((0 : BitVec 64) <<< 8 ||| code.setWidth 64).toNat = 0 + code.toNat := by
    decide +kernel
  have hextended : ∀ code : BitVec 8, ((0xe0 : BitVec 64) <<< 8 ||| code.setWidth 64).toNat =
      0xe000 + code.toNat := by
    decide +kernel
  rw [word, lead]
  cases k.extended
  · exact hplain k.code
  · exact hextended k.code

lemma word_eq_iff (k : ScanKey) (v : BitVec 64) :
    k.word = v ↔ (if k.extended then 0xe000 else 0) + k.code.toNat = v.toNat := by
  rw [← toNat_word, BitVec.toNat_inj]

end ScanKey

namespace Ps2Decoder

variable {s : Ps2Decoder}

/-- With its code, a key changes the modifiers or gives an event. -/
lemma processMessage_code (k : ScanKey) (h : s.msgStack = k.lead) :
    s.processMessage k.code = match k.modifier? with
      | none   => (s.done s.on, some (s.keyEvent k.word))
      | some m => (s.done (if m ∈ [Modifier.num, .caps, .scroll] then s.toggleLock m else s.holdModifier m),
          none) := by
  have hcode := k.isCode
  have hpart := k.notPart
  have hrelease : ¬k.code = 0xf0 := by
    rintro heq
    rw [heq] at hcode
    exact absurd hcode (by decide)
  have hword : k.lead <<< 8 ||| k.code.setWidth 64 = k.word := rfl
  rw [processMessage, if_neg hrelease, h]
  simp only [hword, if_neg (BitVec.not_le.mpr hcode)]
  rw [BitVec.lt_def] at hcode
  simp only [k.word_eq_iff, ScanKey.modifier?, ← BitVec.toNat_inj] at hpart ⊢
  cases hextended : k.extended
  · simp only [Bool.false_eq_true, if_false, Nat.zero_add, BitVec.reduceToNat, true_and]
    have hne : ∀ v ≥ 144, k.code.toNat ≠ v := fun v hv => (hcode.trans_le hv).ne
    simp only [hne 57361 (by decide), hne 57362 (by decide), hne 57364 (by decide), hne 57468 (by decide),
      hne 57620 (by decide), hne 14750839 (by decide), hne 966711042324 (by decide), or_false, if_false]
    split_ifs <;> rfl
  · obtain ⟨hfirst, hsecond⟩ := hpart hextended
    have h12 : 0xe000 + k.code.toNat ≠ 57362 := fun h => hfirst (BitVec.eq_of_toNat_eq (Nat.add_left_cancel h))
    have h7c : 0xe000 + k.code.toNat ≠ 57468 := fun h => hsecond (BitVec.eq_of_toNat_eq (Nat.add_left_cancel h))
    have h14 : 0xe000 + k.code.toNat = 57364 ↔ k.code.toNat = 20 := by omega
    have h11 : 0xe000 + k.code.toNat = 57361 ↔ k.code.toNat = 17 := by omega
    have hlow : ∀ v < 0xe000, 0xe000 + k.code.toNat ≠ v := fun v hv => (hv.trans_le (Nat.le_add_right _ _)).ne'
    have hhigh : ∀ v ≥ 0xe090, 0xe000 + k.code.toNat ≠ v := fun v hv =>
      ((Nat.add_lt_add_left hcode 0xe000).trans_le hv).ne
    simp only [if_true, BitVec.reduceToNat, Bool.true_eq_false, false_and, if_false, h12, h7c, h14, h11,
      hlow 20 (by decide), hlow 18 (by decide), hlow 89 (by decide), hlow 17 (by decide), hlow 119 (by decide),
      hlow 88 (by decide), hlow 126 (by decide), hhigh 57620 (by decide), hhigh 14750839 (by decide),
      hhigh 966711042324 (by decide), or_false, false_or]
    split_ifs <;> rfl

/-! ### A whole scancode -/

lemma run_append (s : Ps2Decoder) (bs cs : List (BitVec 8)) : s.run (bs ++ cs) = (s.run bs).run cs := by
  induction bs generalizing s with
  | nil          => rfl
  | cons b bs ih => exact ih (s.processMessage b).1

/-- Ready for a scancode. -/
structure Ready (s : Ps2Decoder) : Prop where
  msgStack : s.msgStack = 0
  isRelease : s.isRelease = false

/-- The event for a scancode. -/
def event? (s : Ps2Decoder) : Scancode → Option (BitVec 64)
  | .key k release =>
    if k.modifier? = none then some ({ s with isRelease := release }.keyEvent k.word) else none
  | .printScreen release => some ({ s with isRelease := release }.keyEvent 0xe012e07c)
  | .pause => some ({ s with isRelease := true }.keyEvent 0xe11477e11477)

/-- The prefix and the release of a key are kept for its code. -/
lemma run_lead (h : s.Ready) (k : ScanKey) (release : Bool) :
    s.run ((if k.extended then [0xe0] else []) ++ (if release then [0xf0] else [])) =
        { s with msgStack := k.lead, isRelease := release } ∧
      s.emitted ((if k.extended then [0xe0] else []) ++ (if release then [0xf0] else [])) = [] := by
  obtain ⟨on, isRelease, msgStack, sticky⟩ := s
  obtain ⟨rfl, rfl⟩ := h
  rw [ScanKey.lead]
  cases k.extended <;> cases release <;> simp [run, emitted, processMessage]

lemma emitted_append (s : Ps2Decoder) (bs cs : List (BitVec 8)) :
    s.emitted (bs ++ cs) = s.emitted bs ++ (s.run bs).emitted cs := by
  induction bs generalizing s with
  | nil          => rfl
  | cons b bs ih => rw [List.cons_append, emitted, emitted, run, ih, List.append_assoc]

/-- A modifier changes as it should, whatever it is. -/
lemma on_processMessage_code (k : ScanKey) (h : s.msgStack = k.lead) :
    s.processMessage k.code = (s.done (Scancode.modify s.sticky s.on (.key k s.isRelease)),
      if k.modifier? = none then some (s.keyEvent k.word) else none) := by
  rw [processMessage_code k h, Scancode.modify]
  cases hm : k.modifier? with
  | none =>
    simp
  | some m =>
    have hon : (if m ∈ [Modifier.num, .caps, .scroll] then s.toggleLock m else s.holdModifier m) = fun m' =>
        if some m = some m' then
          if s.sticky ∨ m' ∈ [Modifier.num, .caps, .scroll] then (s.on m').xor s.isRelease else !s.isRelease
        else s.on m' := by
      funext m'
      rw [toggleLock, holdModifier]
      by_cases hm' : m = m'
      · subst hm'
        cases s.sticky <;> cases s.isRelease <;> split <;> simp_all
      · split <;> simp [hm', Function.update_of_ne (Ne.symm hm')]
    rw [if_neg (Option.some_ne_none m), ← hon]

lemma plays (h : s.Ready) (c : Scancode) :
    s.run c.bytes = s.done (Scancode.modify s.sticky s.on c) ∧ s.emitted c.bytes = (s.event? c).toList := by
  match c with
  | .key k release =>
    obtain ⟨hrun, hemitted⟩ := run_lead h k release
    have hlast := on_processMessage_code (s := { s with msgStack := k.lead, isRelease := release }) k rfl
    rw [Scancode.bytes, run_append, emitted_append, hrun, hemitted, run, emitted, hlast]
    exact ⟨rfl, List.append_nil _⟩
  | .printScreen release =>
    obtain ⟨on, isRelease, msgStack, sticky⟩ := s
    obtain ⟨rfl, rfl⟩ := h
    cases release
    · simp [Scancode.bytes, Scancode.modify, run, emitted, processMessage, done, event?, keyEvent, keyCode,
        modifiers]
    · simp [Scancode.bytes, Scancode.modify, run, emitted, processMessage, done, event?, keyEvent, keyCode,
        modifiers]
  | .pause =>
    obtain ⟨on, isRelease, msgStack, sticky⟩ := s
    obtain ⟨rfl, rfl⟩ := h
    simp [Scancode.bytes, Scancode.modify, run, emitted, processMessage, done, event?, keyEvent, keyCode,
      modifiers]

/-- After whole scancodes, the decoder is ready for the next one. -/
lemma run_scancodes (h : s.Ready) (cs : List Scancode) :
    s.run (cs.flatMap Scancode.bytes) = s.done (cs.foldl (Scancode.modify s.sticky) s.on) := by
  induction cs generalizing s with
  | nil =>
    obtain ⟨on, isRelease, msgStack, sticky⟩ := s
    obtain ⟨rfl, rfl⟩ := h
    rfl
  | cons c cs ih =>
    rw [List.flatMap_cons, run_append, (plays h c).1, ih ⟨rfl, rfl⟩]
    rfl

/-! ### The events -/

lemma keyCode_word_lt (k : ScanKey) : (keyCode k.word).toNat < 2 ^ 16 := by
  have hword := k.toNat_word
  have hle : k.word.toNat < 2 ^ 16 := by
    have hcode := k.code.isLt
    rw [hword]
    split <;> omega
  have hne : ∀ v : BitVec 64, 2 ^ 16 ≤ v.toNat → k.word ≠ v := by
    rintro v hv rfl
    exact absurd hle (Nat.not_lt.mpr hv)
  simp only [keyCode, hne 0xe012e07c (by decide), hne 0xe07ce012 (by decide), hne 0xe11477e11477 (by decide),
    or_false, if_false, BitVec.toNat_setWidth]
  exact (Nat.mod_le _ _).trans_lt hle

/-- The last code of a scancode comes after 0xf0. -/
def released : Scancode → Bool
  | .key _ release       => release
  | .printScreen release => release
  | .pause               => true

/-- A scancode has one code of a key, whatever the modifiers are. -/
lemma event?_eq (c : Scancode) : ∃ code : BitVec 32, code.toNat < 2 ^ 16 ∧ ∀ s : Ps2Decoder,
    s.event? c = if c.isModifier then none
      else if released c then some (sysCreateReleaseEvent code s.modifiers)
      else some (sysCreatePressEvent code s.modifiers) := by
  match c with
  | .key k release =>
    refine ⟨keyCode k.word, keyCode_word_lt k, fun s => ?_⟩
    cases hm : k.modifier? <;> cases release <;>
      simp [event?, Scancode.isModifier, released, hm, keyEvent, modifiers]
  | .printScreen release =>
    have hcode : keyCode 0xe012e07c#64 = SysKey.printScreen := by decide
    refine ⟨SysKey.printScreen, by decide, fun s => ?_⟩
    cases release <;> simp [event?, Scancode.isModifier, released, keyEvent, hcode, modifiers]
  | .pause =>
    have hcode : keyCode 0xe11477e11477#64 = SysKey.pause := by decide
    refine ⟨SysKey.pause, by decide, fun s => ?_⟩
    simp [event?, Scancode.isModifier, released, keyEvent, hcode, modifiers]

lemma modify_gui (sticky : Bool) (on : Modifier → Bool) (c : Scancode) :
    Scancode.modify sticky on c .gui = on .gui := by
  match c with
  | .key k release =>
    have hne : k.modifier? ≠ some .gui := by
      rw [ScanKey.modifier?]
      split_ifs <;> simp
    simp [Scancode.modify, hne]
  | .printScreen _ => rfl
  | .pause => rfl

/-- No key of a PS/2 keyboard stands for GUI. -/
lemma accumulated_gui (sticky : Bool) (cs : List Scancode) : Scancode.accumulated sticky cs .gui = false := by
  rw [Scancode.accumulated]
  induction cs using List.reverseRecOn with
  | nil => rfl
  | append_singleton cs c ih => rw [List.foldl_append, List.foldl_cons, List.foldl_nil, modify_gui, ih]

lemma modifiers_eq (h : s.on .gui = false) : s.modifiers = Scancode.modifierWord s.on := by
  simp [modifiers, Scancode.modifierWord, Modifier.all, collect, h]

lemma modifiers_reset (sticky : Bool) : (reset sticky).modifiers = 0 := by simp [modifiers, reset, collect]

lemma ready_reset (sticky : Bool) : (reset sticky).Ready := ⟨rfl, rfl⟩

/-- The modifiers are put in the event that a scancode has alone. -/
lemma event?_eq_map (h : s.on .gui = false) (c : Scancode) (sticky : Bool) :
    s.event? c = ((reset sticky).event? c).map (withModifiers (Scancode.modifierWord s.on)) := by
  obtain ⟨code, hcode, hevent⟩ := event?_eq c
  rw [hevent, hevent, modifiers_eq h, modifiers_reset]
  split
  · rfl
  · split
    · rw [Option.map_some, sysCreateReleaseEvent_eq hcode]
    · rw [Option.map_some, sysCreatePressEvent_eq hcode]

/-- A scancode other than Pause plays alone. -/
lemma playsAlone (sticky : Bool) (before : List Scancode) {c : Scancode} (hc : c ≠ .pause) :
    PlaysAlone sticky before c := by
  obtain ⟨code, hcode, hevent⟩ := event?_eq c
  have hbefore := run_scancodes (ready_reset sticky) before
  have halone := (plays (ready_reset sticky) c).2
  refine ⟨?_, ?_, ?_, ?_⟩
  · rw [hbefore, (plays ⟨rfl, rfl⟩ c).2, halone, event?_eq_map (accumulated_gui sticky before) c sticky,
      Option.toList_map]
    rfl
  · rw [run_scancodes (ready_reset sticky)]
    exact ⟨rfl, rfl⟩
  · rw [halone, hevent]
    cases c.isModifier <;> cases released c <;> rfl
  · have hbreak : c.isBreak = released c := by
      cases c with
      | pause => exact absurd rfl hc
      | key k release => rfl
      | printScreen release => rfl
    rw [halone, hevent, hbreak]
    cases c.isModifier
    · cases released c
      · simpa using sysCreatePressEvent_kind hcode _
      · simpa using sysCreateReleaseEvent_kind hcode _
    · simp

end Ps2Decoder

/-- The scancodes of a list play alone exactly when there is no Pause among them. -/
theorem composes_iff (sticky : Bool) (cs : List Scancode) : Composes sticky cs ↔ Scancode.pause ∉ cs := by
  constructor
  · intro h hpause
    obtain ⟨before, after, rfl⟩ := List.append_of_mem hpause
    have hplays := h before .pause ⟨after, by rw [List.append_assoc, List.singleton_append]⟩
    have hemitted := (Ps2Decoder.plays (Ps2Decoder.ready_reset sticky) .pause).2
    obtain ⟨code, hcode, hevent⟩ := Ps2Decoder.event?_eq .pause
    rw [hevent] at hemitted
    have hmem : sysCreateReleaseEvent code (Ps2Decoder.reset sticky).modifiers ∈
        (Ps2Decoder.reset sticky).emitted Scancode.pause.bytes := by
      rw [hemitted]
      exact List.mem_singleton_self _
    exact (sysCreateReleaseEvent_kind hcode _).2 (hplays.kind _ hmem).1
  · rintro h before c hinit
    refine Ps2Decoder.playsAlone sticky before ?_
    rintro rfl
    exact h (hinit.subset (List.mem_append_right before (List.mem_singleton_self _)))

/-- Pause alone gives a release. -/
theorem not_composes_pause : ¬∀ (sticky : Bool) (cs : List Scancode), Composes sticky cs := by
  intro h
  have hkind := (h false [.pause] [] .pause (List.prefix_refl _)).kind
  have hemitted : (Ps2Decoder.reset false).emitted Scancode.pause.bytes = [0x8000e013] := by decide +kernel
  rw [hemitted] at hkind
  exact absurd (hkind _ (List.mem_singleton_self _)).1 (by decide)

end PiKachulm.Hardware

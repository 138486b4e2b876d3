import PiKachulm.Input.KeyEvent
import PiKachulm.Wm.MessageQueue

/-!
# The keyboard system

`press` and `release` count how many keys of each modifier are held, since there are two of most of them,
and tell the window manager about the key.
-/

namespace PiKachulm.Input

open Wm

/-- The variables of the keyboard system. An `int` that overflows is not modelled. -/
structure KeyboardSystem where
  isCtrlPressed : ℤ
  isShiftPressed : ℤ
  isAltPressed : ℤ
  isAltGrPressed : ℤ
  isGuiPressed : ℤ
  isNumsLock : Bool
  isCapsLock : Bool

namespace KeyboardSystem

variable (s : KeyboardSystem) (keycode : BitVec 32)

def initial : KeyboardSystem := ⟨0, 0, 0, 0, 0, false, false⟩

def isOn : Modifier → Bool
  | .ctrl   => 0 < s.isCtrlPressed
  | .shift  => 0 < s.isShiftPressed
  | .alt    => 0 < s.isAltPressed
  | .gui    => 0 < s.isGuiPressed
  | .num    => s.isNumsLock
  | .caps   => s.isCapsLock
  | .scroll => false

/-- GUI is not looked at. -/
def getCurrentKeyModifiers : BitVec 32 := collect s.isOn [.ctrl, .shift, .alt, .num, .caps]

/-- The message that is posted to the window manager. -/
def dispatchKeyEventToWm (event : BitVec 64) : Option SysMessage :=
  if sysIsPressEvent event then some ⟨1, 0, .ofBitVec event, 0⟩
  else if sysIsReleaseEvent event then some ⟨2, 0, .ofBitVec event, 0⟩
  else none

/-- The cases of the `switch` that `press` and `release` have in common. -/
def count (f : ℤ → ℤ) (default : KeyboardSystem) : KeyboardSystem :=
  if keycode = SysKey.leftCtrl ∨ keycode = SysKey.rightCtrl then { s with isCtrlPressed := f s.isCtrlPressed }
  else if keycode = SysKey.leftShift ∨ keycode = SysKey.rightShift then
    { s with isShiftPressed := f s.isShiftPressed }
  else if keycode = SysKey.leftAlt then { s with isAltPressed := f s.isAltPressed }
  else if keycode = SysKey.rightAlt then { s with isAltGrPressed := f s.isAltGrPressed }
  else if keycode = SysKey.leftGui ∨ keycode = SysKey.rightGui then { s with isGuiPressed := f s.isGuiPressed }
  else default

def press : KeyboardSystem × Option SysMessage :=
  let s := s.count keycode (· + 1)
    (if keycode = SysKey.capsLock then { s with isCapsLock := !s.isCapsLock }
    else if keycode = SysKey.numLock then { s with isNumsLock := !s.isNumsLock }
    else s)
  (s, dispatchKeyEventToWm (sysCreatePressEvent keycode s.getCurrentKeyModifiers))

/-- `--count; if (count < 0) count = 0`. -/
def decrease (count : ℤ) : ℤ := if count - 1 < 0 then 0 else count - 1

def release : KeyboardSystem × Option SysMessage :=
  let s := s.count keycode decrease s
  (s, dispatchKeyEventToWm (sysCreateReleaseEvent keycode s.getCurrentKeyModifiers))

def notifyHardwareEvent (isPressed : Bool) : KeyboardSystem × Option SysMessage :=
  if isPressed then s.press keycode else s.release keycode

end KeyboardSystem

/-! ### Keys that are held -/

/-- An event of the hardware. -/
structure KeyInput where
  keycode : BitVec 32
  isPressed : Bool

/-- The last event of the key is a press. -/
def Held (es : List KeyInput) (keycode : BitVec 32) : Prop :=
  (es.filter (·.keycode = keycode)).getLast?.map (·.isPressed) = some true

instance (es : List KeyInput) (keycode : BitVec 32) : Decidable (Held es keycode) :=
  inferInstanceAs (Decidable (_ = _))

/-- The modifiers that keys are held for. -/
def heldModifiers : List Modifier := [.ctrl, .shift, .alt, .gui]

/-- The keys of a modifier. -/
def keysOf : Modifier → List (BitVec 32)
  | .ctrl  => [SysKey.leftCtrl, SysKey.rightCtrl]
  | .shift => [SysKey.leftShift, SysKey.rightShift]
  | .alt   => [SysKey.leftAlt]
  | .gui   => [SysKey.leftGui, SysKey.rightGui]
  | _      => []

namespace KeyboardSystem

/-- The state after a list of events. -/
def run (s : KeyboardSystem) (es : List KeyInput) : KeyboardSystem :=
  es.foldl (fun s e => (s.notifyHardwareEvent e.keycode e.isPressed).1) s

end KeyboardSystem

/-- The modifiers that are shown are those with a key that is held. -/
def Reflects (es : List KeyInput) : Prop :=
  ∀ m ∈ heldModifiers, (KeyboardSystem.initial.run es).getCurrentKeyModifiers &&& m.flag ≠ 0 ↔
    ∃ k ∈ keysOf m, Held es k

/-- A key of a modifier is pressed when it is not held, and not a key of GUI. It is released when it is held,
or when no key of the modifier is. -/
def Regular (es : List KeyInput) (e : KeyInput) : Prop :=
  ∀ m ∈ heldModifiers, e.keycode ∈ keysOf m →
    if e.isPressed then m ≠ .gui ∧ ¬Held es e.keycode
    else Held es e.keycode ∨ ∀ k ∈ keysOf m, ¬Held es k

/-! ### Events one after the other -/

variable {es : List KeyInput} {e : KeyInput} {k : BitVec 32}

lemma held_append_singleton (es : List KeyInput) (e : KeyInput) (k : BitVec 32) :
    Held (es ++ [e]) k ↔ if e.keycode = k then e.isPressed = true else Held es k := by
  rw [Held, List.filter_append]
  by_cases hk : e.keycode = k
  · simp [hk]
  · simp [hk, Held]

/-- How many of some keys are held. -/
def heldCount (es : List KeyInput) (ks : List (BitVec 32)) : ℕ := ks.countP (Held es ·)

lemma heldCount_append_of_notMem {ks : List (BitVec 32)} (h : e.keycode ∉ ks) :
    heldCount (es ++ [e]) ks = heldCount es ks := by
  refine List.countP_congr fun k hk => ?_
  rw [decide_eq_true_iff, decide_eq_true_iff, held_append_singleton, if_neg (ne_of_mem_of_not_mem hk h).symm]

/-- A key counts for itself. -/
lemma heldCount_eq_erase (es : List KeyInput) {ks : List (BitVec 32)} (h : k ∈ ks) :
    heldCount es ks = heldCount es (ks.erase k) + if Held es k then 1 else 0 := by
  rw [heldCount, (List.perm_cons_erase h).countP_eq, List.countP_cons, heldCount]
  simp

/-- An event changes what its key counts. -/
lemma heldCount_append (es : List KeyInput) {ks : List (BitVec 32)} (hnodup : ks.Nodup) (h : e.keycode ∈ ks) :
    heldCount (es ++ [e]) ks + (if Held es e.keycode then 1 else 0) =
      heldCount es ks + if e.isPressed then 1 else 0 := by
  have herase : e.keycode ∉ ks.erase e.keycode := hnodup.not_mem_erase
  rw [heldCount_eq_erase (es ++ [e]) h, heldCount_append_of_notMem herase, heldCount_eq_erase es h]
  simp only [held_append_singleton, if_true]
  omega

lemma heldCount_pos_iff {ks : List (BitVec 32)} : 0 < heldCount es ks ↔ ∃ k ∈ ks, Held es k := by
  rw [heldCount, List.countP_pos_iff]
  simp

/-! ### The counters -/

namespace KeyboardSystem

/-- The counter of a modifier. -/
def counter (s : KeyboardSystem) : Modifier → ℤ
  | .ctrl  => s.isCtrlPressed
  | .shift => s.isShiftPressed
  | .alt   => s.isAltPressed
  | .gui   => s.isGuiPressed
  | _      => 0

variable {s default : KeyboardSystem} {m : Modifier} {f : ℤ → ℤ}

/-- A key changes the counter of its own modifier only. -/
lemma counter_count (hm : m ∈ heldModifiers) (hdefault : default.counter m = s.counter m) :
    (s.count k f default).counter m = if k ∈ keysOf m then f (s.counter m) else s.counter m := by
  rw [← hdefault, count]
  simp only [SysKey.leftCtrl, SysKey.rightCtrl, SysKey.leftShift, SysKey.rightShift, SysKey.leftAlt,
    SysKey.rightAlt, SysKey.leftGui, SysKey.rightGui]
  cases m <;> simp [heldModifiers] at hm
  all_goals
    simp only [counter, keysOf, SysKey.leftCtrl, SysKey.rightCtrl, SysKey.leftShift, SysKey.rightShift,
      SysKey.leftAlt, SysKey.leftGui, SysKey.rightGui, List.mem_cons, List.not_mem_nil, or_false] at hdefault ⊢
    split_ifs <;> grind

lemma counter_notifyHardwareEvent (hm : m ∈ heldModifiers) (isPressed : Bool) :
    (s.notifyHardwareEvent k isPressed).1.counter m =
      if k ∈ keysOf m then (if isPressed then s.counter m + 1 else decrease (s.counter m))
      else s.counter m := by
  rw [notifyHardwareEvent]
  cases isPressed
  · exact counter_count hm rfl
  · refine counter_count hm ?_
    split_ifs <;> rfl

lemma nodup_keysOf (m : Modifier) : (keysOf m).Nodup := by cases m <;> decide

lemma run_append_singleton (s : KeyboardSystem) (es : List KeyInput) (e : KeyInput) :
    s.run (es ++ [e]) = ((s.run es).notifyHardwareEvent e.keycode e.isPressed).1 := by
  rw [run, List.foldl_append]
  rfl

/-- Each counter is how many keys are held, and no key of GUI is held. -/
structure Counts (es : List KeyInput) : Prop where
  counter : ∀ m ∈ heldModifiers, (initial.run es).counter m = heldCount es (keysOf m)
  gui : ∀ k ∈ keysOf .gui, ¬Held es k

lemma counts_nil : Counts [] where
  counter m _ := by cases m <;> rfl
  gui k _ := by simp [Held]

lemma Counts.append (h : Counts es) (he : Regular es e) : Counts (es ++ [e]) where
  counter m hm := by
    rw [run_append_singleton, counter_notifyHardwareEvent hm, h.counter m hm]
    by_cases hk : e.keycode ∈ keysOf m
    · have hcount := heldCount_append es (nodup_keysOf m) hk
      have hregular := he m hm hk
      rw [if_pos hk]
      cases hpressed : e.isPressed with
      | true =>
        rw [hpressed, if_pos rfl] at hregular
        rw [hpressed, if_neg hregular.2, if_pos rfl] at hcount
        rw [if_pos rfl]
        exact_mod_cast hcount.symm
      | false =>
        rw [hpressed, if_neg Bool.false_ne_true] at hregular hcount
        rw [if_neg Bool.false_ne_true, decrease]
        rcases hregular with hheld | hnone
        · rw [if_pos hheld] at hcount
          rw [if_neg (by omega)]
          omega
        · have hzero : ¬0 < heldCount es (keysOf m) := by
            rw [heldCount_pos_iff]
            exact fun ⟨k, hk, hheld⟩ => hnone k hk hheld
          rw [if_neg (hnone _ hk)] at hcount
          rw [if_pos (by omega)]
          omega
    · rw [if_neg hk, heldCount_append_of_notMem hk]
  gui k hk := by
    rw [held_append_singleton]
    split
    next heq =>
      subst heq
      have hregular := he .gui (by decide) hk
      intro hpressed
      rw [hpressed, if_pos rfl] at hregular
      exact hregular.1 rfl
    next => exact h.gui k hk

/-- When every event is regular, the counters are right. -/
lemma counts_of_regular (h : ∀ i (hi : i < es.length), Regular (es.take i) es[i]) : Counts es := by
  induction es using List.reverseRecOn with
  | nil => exact counts_nil
  | append_singleton es e ih =>
    have hlast := h es.length (by simp)
    rw [List.take_left, List.getElem_concat_length rfl] at hlast
    refine (ih fun i hi => ?_).append hlast
    have hi' := h i (by simp; omega)
    rwa [List.take_append_of_le_length hi.le, List.getElem_append_left hi] at hi'

lemma Counts.reflects (h : Counts es) : Reflects es := by
  intro m hm
  rw [getCurrentKeyModifiers, collect_and_flag]
  by_cases hgui : m = .gui
  · subst hgui
    have hnot : ¬∃ k ∈ keysOf .gui, Held es k := fun ⟨k, hk, hheld⟩ => h.gui k hk hheld
    simp [hnot]
  · have hpos : (∃ k ∈ keysOf m, Held es k) ↔ 0 < (initial.run es).counter m := by
      rw [← heldCount_pos_iff, h.counter m hm, Int.natCast_pos]
    rw [hpos]
    cases m <;> simp_all [heldModifiers, isOn, KeyboardSystem.counter]

end KeyboardSystem

/-- While keys of GUI are not pressed, no key is pressed again while it is held and no key is released that
was not held while another one of its modifier is, the modifiers are those with a key that is held. -/
theorem reflects_of_regular (h : ∀ i (hi : i < es.length), Regular (es.take i) es[i]) (n : ℕ) :
    Reflects (es.take n) := by
  refine (KeyboardSystem.counts_of_regular fun i hi => ?_).reflects
  rw [List.length_take, Nat.lt_min] at hi
  rw [List.take_take, min_eq_left hi.1.le, List.getElem_take]
  exact h i hi.2

instance (es : List KeyInput) (ks : List (BitVec 32)) : Decidable (∀ k ∈ ks, ¬Held es k) :=
  List.decidableBAll (¬Held es ·) ks

instance (es : List KeyInput) (e : KeyInput) : Decidable (Regular es e) :=
  inferInstanceAs (Decidable (∀ _ ∈ heldModifiers, _ → _))

/-- Both Ctrl keys are held and one is released. -/
def bothCtrl : List KeyInput :=
  [⟨SysKey.leftCtrl, true⟩, ⟨SysKey.rightCtrl, true⟩, ⟨SysKey.leftCtrl, false⟩]

theorem reflects_bothCtrl : Reflects (bothCtrl.take 3) :=
  @reflects_of_regular bothCtrl (by decide) 3

/-- After an automatic repeat, Ctrl stays on when its key is released. -/
theorem not_reflects : ¬∀ (es : List KeyInput) (n : ℕ), Reflects (es.take n) := by
  intro h
  have hctrl := h [⟨SysKey.leftCtrl, true⟩, ⟨SysKey.leftCtrl, true⟩, ⟨SysKey.leftCtrl, false⟩] 3 .ctrl
    (by decide)
  rw [← heldCount_pos_iff] at hctrl
  exact absurd (hctrl.mp (by decide)) (by decide)

end PiKachulm.Input

import Mathlib.Data.BitVec
import Mathlib.Tactic.Common
import PiKachulm.Libk.Utils

/-!
# Key events

A key event is a word that holds the code of a key, a bit for each modifier that was on, and whether the
key was pressed or released (`sys/keyboard.h`).
-/

namespace PiKachulm.Input

open Libk

/-- `sys_key_modifier_t`. -/
inductive Modifier
  | ctrl | shift | alt | gui | num | caps | scroll
deriving DecidableEq

namespace Modifier

/-- The bit `SYS_KEY_MOD_*` of a modifier. -/
def flag : Modifier → BitVec 32
  | ctrl   => 0x1
  | shift  => 0x2
  | alt    => 0x4
  | gui    => 0x8
  | num    => 0x10
  | caps   => 0x20
  | scroll => 0x40

/-- The bit `*_MASK` of a modifier in an event. -/
def mask : Modifier → BitVec 64
  | ctrl   => 1 <<< 20
  | shift  => 1 <<< 21
  | alt    => 1 <<< 22
  | gui    => 1 <<< 23
  | num    => 1 <<< 24
  | caps   => 1 <<< 25
  | scroll => 1 <<< 26

def all : List Modifier := [ctrl, shift, alt, gui, num, caps, scroll]

end Modifier

namespace SysKey

def leftCtrl : BitVec 32 := 0x14
def rightCtrl : BitVec 32 := 0xe014
def leftShift : BitVec 32 := 0x12
def rightShift : BitVec 32 := 0x59
def leftAlt : BitVec 32 := 0x11
def rightAlt : BitVec 32 := 0xe011
def leftGui : BitVec 32 := 0xe01f
def rightGui : BitVec 32 := 0xe027
def capsLock : BitVec 32 := 0x58
def numLock : BitVec 32 := 0x77
def printScreen : BitVec 32 := 0xe012
def pause : BitVec 32 := 0xe013

end SysKey

def pressEvent : BitVec 64 := 1 <<< 30

def releaseEvent : BitVec 64 := 1 <<< 31

/-- `e |= (mods & flag) != 0 ? mask : 0`. -/
def setModifier (mods : BitVec 32) (e : BitVec 64) (m : Modifier) : BitVec 64 :=
  e ||| if mods &&& m.flag ≠ 0 then m.mask else 0

def createEvent (kind : BitVec 64) (code mods : BitVec 32) : BitVec 64 :=
  Modifier.all.foldl (setModifier mods) (code.setWidth 64) ||| kind

def sysCreatePressEvent (code mods : BitVec 32) : BitVec 64 := createEvent pressEvent code mods

def sysCreateReleaseEvent (code mods : BitVec 32) : BitVec 64 := createEvent releaseEvent code mods

def sysIsPressEvent (event : BitVec 64) : Prop := event &&& pressEvent ≠ 0

def sysIsReleaseEvent (event : BitVec 64) : Prop := event &&& releaseEvent ≠ 0

/-- `if (on) mods |= flag`, one modifier after the other. -/
def collect (on : Modifier → Bool) (ms : List Modifier) : BitVec 32 :=
  ms.foldl (fun mods m => if on m then mods ||| m.flag else mods) 0

/-- An event with other modifiers. -/
def withModifiers (mods : BitVec 32) (event : BitVec 64) : BitVec 64 :=
  Modifier.all.foldl (setModifier mods) (event &&& ~~~0x7f00000)

instance (event : BitVec 64) : Decidable (sysIsPressEvent event) := inferInstanceAs (Decidable (_ ≠ _))

instance (event : BitVec 64) : Decidable (sysIsReleaseEvent event) := inferInstanceAs (Decidable (_ ≠ _))

variable {kind event : BitVec 64} {code mods : BitVec 32}

/-! ### The modifiers of an event -/

lemma foldl_setModifier (mods : BitVec 32) (ms : List Modifier) (e e' : BitVec 64) :
    ms.foldl (setModifier mods) (e ||| e') = ms.foldl (setModifier mods) e ||| e' := by
  induction ms generalizing e with
  | nil          => rfl
  | cons m ms ih =>
    rw [List.foldl_cons, List.foldl_cons, ← ih, setModifier, setModifier, BitVec.or_assoc,
      BitVec.or_assoc, BitVec.or_comm e']

lemma foldl_setModifier_zero (ms : List Modifier) (e : BitVec 64) :
    ms.foldl (setModifier 0) e = e := by
  induction ms with
  | nil          => rfl
  | cons m ms ih => simpa [setModifier] using ih

/-- A bit that is no modifier is left as it is. -/
lemma getLsbD_foldl_setModifier {i : ℕ} (hi : i < 20 ∨ 26 < i) (hlt : i < 64) (ms : List Modifier)
    (e : BitVec 64) : (ms.foldl (setModifier mods) e).getLsbD i = e.getLsbD i := by
  induction ms generalizing e with
  | nil          => rfl
  | cons m ms ih =>
    have hmask : ∀ i < 64, i < 20 ∨ 26 < i → m.mask.getLsbD i = false := by cases m <;> decide
    rw [List.foldl_cons, ih, setModifier, BitVec.getLsbD_or]
    split <;> simp [hmask i hlt hi]

lemma getLsbD_code {i : ℕ} (hcode : code.toNat < 2 ^ 16) (hi : 16 ≤ i) : code.getLsbD i = false :=
  Nat.testBit_lt_two_pow (hcode.trans_le (Nat.pow_le_pow_right (by decide) hi))

lemma setWidth_and_not_mask (hcode : code.toNat < 2 ^ 16) :
    code.setWidth 64 &&& ~~~(0x7f00000 : BitVec 64) = code.setWidth 64 := by
  apply BitVec.eq_of_getLsbD_eq
  intro i hi
  have hlow : ∀ i < 16, (~~~(0x7f00000 : BitVec 64)).getLsbD i = true := by decide
  rw [BitVec.getLsbD_and, BitVec.getLsbD_setWidth]
  rcases Nat.lt_or_ge i 16 with hlt | hge
  · rw [hlow i hlt, Bool.and_true]
  · rw [getLsbD_code hcode hge, Bool.and_false, Bool.false_and]

/-- The modifiers of an event can be put in afterwards. -/
lemma createEvent_eq (hcode : code.toNat < 2 ^ 16) (hkind : kind &&& ~~~0x7f00000 = kind) :
    createEvent kind code mods = withModifiers mods (createEvent kind code 0) := by
  rw [createEvent, createEvent, withModifiers, foldl_setModifier_zero, BitVec.and_or_distrib_right,
    setWidth_and_not_mask hcode, hkind, foldl_setModifier]

lemma sysCreatePressEvent_eq (hcode : code.toNat < 2 ^ 16) :
    sysCreatePressEvent code mods = withModifiers mods (sysCreatePressEvent code 0) :=
  createEvent_eq hcode (by decide)

lemma sysCreateReleaseEvent_eq (hcode : code.toNat < 2 ^ 16) :
    sysCreateReleaseEvent code mods = withModifiers mods (sysCreateReleaseEvent code 0) :=
  createEvent_eq hcode (by decide)

/-! ### Press and release -/

lemma sysIsPressEvent_iff : sysIsPressEvent event ↔ event.getLsbD 30 = true := by
  have h : event &&& pressEvent = 0 ↔ event.getLsbD 30 = false := and_twoPow_eq_zero_iff 30 (by decide)
  rw [sysIsPressEvent, Ne, h, Bool.not_eq_false]

lemma sysIsReleaseEvent_iff : sysIsReleaseEvent event ↔ event.getLsbD 31 = true := by
  have h : event &&& releaseEvent = 0 ↔ event.getLsbD 31 = false := and_twoPow_eq_zero_iff 31 (by decide)
  rw [sysIsReleaseEvent, Ne, h, Bool.not_eq_false]

lemma getLsbD_createEvent {i : ℕ} (hcode : code.toNat < 2 ^ 16) (hi : 26 < i) (hlt : i < 64) :
    (createEvent kind code mods).getLsbD i = kind.getLsbD i := by
  rw [createEvent, BitVec.getLsbD_or, getLsbD_foldl_setModifier (Or.inr hi) hlt, BitVec.getLsbD_setWidth,
    getLsbD_code hcode (by omega), Bool.and_false, Bool.false_or]

lemma sysCreatePressEvent_kind (hcode : code.toNat < 2 ^ 16) (mods : BitVec 32) :
    sysIsPressEvent (sysCreatePressEvent code mods) ∧ ¬sysIsReleaseEvent (sysCreatePressEvent code mods) := by
  rw [sysIsPressEvent_iff, sysIsReleaseEvent_iff, sysCreatePressEvent,
    getLsbD_createEvent hcode (by decide) (by decide), getLsbD_createEvent hcode (by decide) (by decide)]
  decide

lemma sysCreateReleaseEvent_kind (hcode : code.toNat < 2 ^ 16) (mods : BitVec 32) :
    sysIsReleaseEvent (sysCreateReleaseEvent code mods) ∧
      ¬sysIsPressEvent (sysCreateReleaseEvent code mods) := by
  rw [sysIsPressEvent_iff, sysIsReleaseEvent_iff, sysCreateReleaseEvent,
    getLsbD_createEvent hcode (by decide) (by decide), getLsbD_createEvent hcode (by decide) (by decide)]
  decide

/-! ### Which modifiers are on -/

lemma flag_and_flag (m m' : Modifier) : m.flag &&& m'.flag = if m = m' then m'.flag else 0 := by
  cases m <;> cases m' <;> decide

lemma flag_ne_zero (m : Modifier) : m.flag ≠ 0 := by cases m <;> decide

/-- The bit of a modifier is set when it is one of those that are looked at and it is on. -/
lemma collect_and_flag (on : Modifier → Bool) (ms : List Modifier) (m : Modifier) :
    collect on ms &&& m.flag ≠ 0 ↔ m ∈ ms ∧ on m = true := by
  have hfold : ∀ mods : BitVec 32,
      ms.foldl (fun mods m => if on m then mods ||| m.flag else mods) mods &&& m.flag ≠ 0 ↔
        mods &&& m.flag ≠ 0 ∨ (m ∈ ms ∧ on m = true) := by
    induction ms with
    | nil => simp
    | cons m' ms ih =>
      intro mods
      rw [List.foldl_cons, ih, List.mem_cons]
      by_cases hm : m' = m
      · subst hm
        cases hon : on m'
        · simp
        · have hne : ¬m'.flag = 0#32 := flag_ne_zero m'
          simp [BitVec.and_or_distrib_right, hne]
      · have hbit : m'.flag &&& m.flag = 0 := by rw [flag_and_flag, if_neg hm]
        split <;> simp [BitVec.and_or_distrib_right, hbit, Ne.symm hm]
  rw [collect, hfold]
  simp

end PiKachulm.Input

import Mathlib.Data.List.Basic
import Mathlib.Data.List.Chain
import Mathlib.Data.List.GetD
import Mathlib.Tactic.Common
import PiKachulm.Libk.Utils

/-!
# The PS/2 receiver

`receive_message` is called at each clock interrupt of a PS/2 keyboard and puts a frame of eleven bits
together: a start bit, eight bits of data, a parity bit and a stop bit. What it has seen so far stays in
static variables, and it begins anew after more than 10 ms without an interrupt.
-/

namespace PiKachulm.Hardware

open Libk

/-- A clock interrupt: what the clock in milliseconds shows at the three places where it may be read, and
the data bit. -/
structure Ps2Interrupt where
  init : BitVec 64
  compare : BitVec 64
  store : BitVec 64
  bit : Bool

/-- The static variables of `receive_message`. -/
structure Ps2Receiver where
  message : BitVec 64
  nbBit : ℕ
  parity : ℕ
  lastUpdate : BitVec 64

def shiftIn (message : BitVec 64) (bit : Bool) : BitVec 64 :=
  (message ||| (BitVec.ofBool bit).setWidth 64 <<< 11) >>> 1

/-- The checks after the eleventh bit. In C++, `0x200 >> 8` is formed first. -/
def checkFrame (message : BitVec 64) (parity : ℕ) : Option (BitVec 8) :=
  if message &&& 0x1 ≠ 0 then none
  else if message &&& 0x400 = 0 then none
  else if (((message &&& ((0x200 : BitVec 64) >>> 8)) &&& 0x1) +
    (BitVec.ofNat 64 parity &&& 0x1)) &&& 0x1 ≠ 0 then none
  else some ((message >>> 1 &&& 0xff).setWidth 8)

namespace Ps2Receiver

variable (s : Ps2Receiver) (i : Ps2Interrupt)

def initial : Ps2Receiver := ⟨0, 0, 0, 0⟩

/-- It has been too long since the last interrupt. -/
def Resets : Prop := i.compare - (if s.lastUpdate = 0 then i.init else s.lastUpdate) > 10

instance : Decidable (s.Resets i) := inferInstanceAs (Decidable (_ < _))

def resync : Ps2Receiver :=
  if s.Resets i then { s with message := 0, nbBit := 0, lastUpdate := i.store }
  else { s with lastUpdate := i.store }

def receiveMessage : Ps2Receiver × Option (BitVec 8) :=
  let s := s.resync i
  let nbBit := s.nbBit + 1
  let parity := s.parity + i.bit.toNat
  let message := shiftIn s.message i.bit
  if nbBit < 11 then ({ s with message, nbBit, parity }, none)
  else ({ s with message := 0, nbBit := 0, parity := 0 }, checkFrame message parity)

/-- The state after a list of interrupts. -/
def run : Ps2Receiver → List Ps2Interrupt → Ps2Receiver
  | s, []      => s
  | s, i :: is => run (s.receiveMessage i).1 is

/-- The bits of the unfinished frame. -/
def pending : List Bool := (List.range s.nbBit).map fun j => s.message.getLsbD (11 - s.nbBit + j)

/-- What is returned at each of them. -/
def outputs : Ps2Receiver → List Ps2Interrupt → List (Option (BitVec 8))
  | _, []      => []
  | s, i :: is => (s.receiveMessage i).2 :: outputs (s.receiveMessage i).1 is

end Ps2Receiver

/-! ### Frames -/

/-- The number of ones. -/
def ones (bits : List Bool) : ℕ := (bits.map Bool.toNat).sum

/-- A start bit 0, a stop bit 1, and an odd number of ones in the data and the parity bit. -/
def ValidFrame (bits : List Bool) : Prop :=
  bits.getD 0 false = false ∧ bits.getD 10 false = true ∧ ones ((bits.drop 1).take 9) % 2 = 1

instance (bits : List Bool) : Decidable (ValidFrame bits) := inferInstanceAs (Decidable (_ ∧ _))

/-- What the checks let through: a start bit 0, a stop bit 1, and an even sum. -/
def Passes (bits : List Bool) (parity : ℕ) : Prop :=
  bits.getD 0 false = false ∧ bits.getD 10 false = true ∧ parity % 2 = 0

instance (bits : List Bool) (parity : ℕ) : Decidable (Passes bits parity) :=
  inferInstanceAs (Decidable (_ ∧ _))

/-- The eight bits after the start bit, the lowest first. -/
def dataOf (bits : List Bool) : BitVec 8 := (BitVec.ofBoolListLE ((bits.drop 1).take 8)).setWidth 8

/-- The interrupt comes more than 10 ms after the one before. -/
def Gap (prev i : Ps2Interrupt) : Prop := prev.store.toNat + 10 < i.compare.toNat

instance (prev i : Ps2Interrupt) : Decidable (Gap prev i) := inferInstanceAs (Decidable (_ < _))

/-- The interrupt comes at most 10 ms after the one before, and the clock does not go backwards. -/
def Close (prev i : Ps2Interrupt) : Prop :=
  prev.store ≤ i.init ∧ i.init ≤ i.compare ∧ i.compare.toNat ≤ prev.store.toNat + 10

instance (prev i : Ps2Interrupt) : Decidable (Close prev i) := inferInstanceAs (Decidable (_ ∧ _))

/-! ### The bits in a message -/

variable {bits : List Bool} {message : BitVec 64} {bit : Bool} {j parity : ℕ}

lemma getLsbD_shiftIn (message : BitVec 64) (bit : Bool) (j : ℕ) :
    (shiftIn message bit).getLsbD j = (message.getLsbD (j + 1) || (decide (j = 10) && bit)) := by
  rw [shiftIn, BitVec.getLsbD_ushiftRight, BitVec.getLsbD_or, BitVec.getLsbD_shiftLeft,
    BitVec.getLsbD_setWidth, BitVec.getLsbD_ofBool, Nat.add_comm 1]
  by_cases hj : j = 10
  · subst hj
    simp
  · by_cases hle : j + 1 < 11
    · simp [hj, hle]
    · have hpos : j - 10 ≠ 0 := by omega
      simp [hj, hpos]

/-- The bits of a message, from the oldest on, end at position 10. -/
lemma getLsbD_foldl_shiftIn (hlength : bits.length ≤ 11) (j : ℕ) :
    (bits.foldl shiftIn 0).getLsbD j =
      (decide (j ≤ 10 ∧ 11 ≤ j + bits.length) && bits.getD (j + bits.length - 11) false) := by
  induction bits using List.reverseRecOn generalizing j with
  | nil =>
    simp
  | append_singleton bits bit ih =>
    rw [List.length_append, List.length_singleton] at hlength ⊢
    rw [List.foldl_append, List.foldl_cons, List.foldl_nil, getLsbD_shiftIn, ih (by omega)]
    by_cases hj : j = 10
    · subst hj
      have hindex : 10 + (bits.length + 1) - 11 = bits.length := by omega
      have hge : 11 ≤ 10 + (bits.length + 1) := by omega
      simp [hindex, hge]
    · have hindex : j + 1 + bits.length - 11 = j + (bits.length + 1) - 11 := by omega
      have hiff : (j + 1 ≤ 10 ∧ 11 ≤ j + 1 + bits.length) ↔ (j ≤ 10 ∧ 11 ≤ j + (bits.length + 1)) := by
        omega
      simp only [hj, decide_false, Bool.false_and, Bool.or_false, hindex, hiff]
      by_cases hin : j ≤ 10 ∧ 11 ≤ j + (bits.length + 1)
      · have hlt : j + (bits.length + 1) - 11 < bits.length := by omega
        rw [List.getD_append _ _ _ _ hlt]
      · simp [hin]

/-- A whole frame has its bits at positions 0 to 10. -/
lemma getLsbD_frame (hlength : bits.length = 11) (j : ℕ) :
    (bits.foldl shiftIn 0).getLsbD j = bits.getD j false := by
  rw [getLsbD_foldl_shiftIn (Nat.le_of_eq hlength), hlength, Nat.add_sub_cancel]
  by_cases hj : j ≤ 10
  · simp [hj]
  · have hge : bits.length ≤ j := by omega
    simp [hj, List.getElem?_eq_none hge]

/-- Nothing is left of the first term of the parity check: what counts is the sum of all bits. -/
lemma parity_check_eq (message : BitVec 64) (parity : ℕ) :
    (((message &&& ((0x200 : BitVec 64) >>> 8)) &&& 0x1) + (BitVec.ofNat 64 parity &&& 0x1)) &&& 0x1 = 0 ↔
      parity % 2 = 0 := by
  have hmask : (message &&& ((0x200 : BitVec 64) >>> 8)) &&& 0x1 = 0 := by
    rw [BitVec.and_assoc]
    exact BitVec.and_zero
  have hone : ((0 : BitVec 64) + (BitVec.ofNat 64 parity &&& 0x1)) &&& 0x1 =
      BitVec.ofNat 64 parity &&& BitVec.twoPow 64 0 := by
    rw [show (0 : BitVec 64) + (BitVec.ofNat 64 parity &&& 0x1) = BitVec.ofNat 64 parity &&& 0x1 from
      BitVec.zero_add _, BitVec.and_assoc]
    rfl
  rw [hmask, hone, and_twoPow_eq_zero_iff 0 (by decide), BitVec.getLsbD_ofNat, Nat.testBit_zero]
  simp

lemma dataOf_eq (hlength : bits.length = 11) :
    ((bits.foldl shiftIn 0) >>> 1 &&& 0xff).setWidth 8 = dataOf bits := by
  apply BitVec.eq_of_getLsbD_eq
  intro j hj
  have hones : ∀ j < 8, (0xff : BitVec 64).getLsbD j = true := by decide
  have hmask := hones j hj
  have hlt : j + 1 < bits.length := by omega
  rw [dataOf, BitVec.getLsbD_setWidth, BitVec.getLsbD_setWidth, BitVec.getLsbD_ofBoolListLE,
    BitVec.getLsbD_and, BitVec.getLsbD_ushiftRight, hmask, getLsbD_frame hlength, Bool.and_true,
    Nat.add_comm 1]
  simp [hj]

/-- A frame passes when its start and stop bits are right and the sum, with what was left, is even. -/
lemma checkFrame_eq (hlength : bits.length = 11) (parity : ℕ) :
    checkFrame (bits.foldl shiftIn 0) parity =
      if Passes bits parity then some (dataOf bits) else none := by
  have hstart : (bits.foldl shiftIn 0) &&& 0x1 = 0 ↔ bits.getD 0 false = false := by
    rw [← getLsbD_frame hlength]
    exact and_twoPow_eq_zero_iff 0 (by decide)
  have hstop : (bits.foldl shiftIn 0) &&& 0x400 = 0 ↔ bits.getD 10 false = false := by
    rw [← getLsbD_frame hlength]
    exact and_twoPow_eq_zero_iff 10 (by decide)
  have hparity := parity_check_eq (bits.foldl shiftIn 0) parity
  rw [checkFrame, dataOf_eq hlength]
  by_cases h₀ : bits.getD 0 false = false
  · rw [if_neg (not_not_intro (hstart.mpr h₀))]
    by_cases h₁ : bits.getD 10 false = false
    · rw [if_pos (hstop.mpr h₁), if_neg fun h => Bool.false_ne_true (h₁.symm.trans h.2.1)]
    · rw [if_neg fun h => h₁ (hstop.mp h)]
      by_cases h₂ : parity % 2 = 0
      · rw [if_neg (not_not_intro (hparity.mpr h₂)), if_pos ⟨h₀, Bool.not_eq_false _ ▸ h₁, h₂⟩]
      · rw [if_pos fun h => h₂ (hparity.mp h), if_neg fun h => h₂ h.2.2]
  · rw [if_pos fun h => h₀ (hstart.mp h), if_neg fun h => h₀ h.1]

/-- Between a start bit 0 and a stop bit 1, data and parity bit have an odd number of ones when the frame
has an even number. -/
lemma passes_ones_iff (hlength : bits.length = 11) : Passes bits (ones bits) ↔ ValidFrame bits := by
  have hlt : 0 < bits.length := by omega
  have hlt' : 10 < bits.length := by omega
  have hsplit : bits = bits[0] :: ((bits.drop 1).take 9 ++ [bits[10]]) := by
    have hdrop : (bits.drop 1).drop 9 = [bits[10]] := by
      rw [List.drop_drop, List.drop_eq_getElem_cons hlt', List.drop_eq_nil_of_le (by omega)]
    rw [← hdrop, List.take_append_drop, ← List.drop_eq_getElem_cons hlt, List.drop_zero]
  have hones : ones bits = bits[0].toNat + (ones ((bits.drop 1).take 9) + bits[10].toNat) := by
    conv_lhs => rw [hsplit]
    simp [ones]
  rw [Passes, ValidFrame, List.getD_eq_getElem _ _ hlt, List.getD_eq_getElem _ _ hlt', hones]
  refine and_congr_right fun h₀ => and_congr_right fun h₁ => ?_
  rw [h₀, h₁, Bool.toNat_false, Bool.toNat_true]
  omega

/-! ### Interrupt after interrupt -/

namespace Ps2Receiver

variable {s : Ps2Receiver} {i prev : Ps2Interrupt} {is : List Ps2Interrupt} {seen : List Bool}

/-- The receiver has seen these bits of a frame. -/
structure Fed (s : Ps2Receiver) (seen : List Bool) : Prop where
  message : s.message = seen.foldl shiftIn 0
  nbBit : s.nbBit = seen.length
  lt : seen.length < 11

lemma fed_resync_of_resets (h : s.Resets i) : Fed (s.resync i) [] := by
  rw [resync, if_pos h]
  exact ⟨rfl, rfl, by decide⟩

lemma fed_resync (hfed : Fed s seen) (h : ¬s.Resets i) : Fed (s.resync i) seen := by
  rw [resync, if_neg h]
  exact ⟨hfed.message, hfed.nbBit, hfed.lt⟩

@[simp] lemma parity_resync (s : Ps2Receiver) (i : Ps2Interrupt) : (s.resync i).parity = s.parity := by
  rw [resync]
  split <;> rfl

@[simp] lemma lastUpdate_resync (s : Ps2Receiver) (i : Ps2Interrupt) :
    (s.resync i).lastUpdate = i.store := by
  rw [resync]
  split <;> rfl

lemma not_resets_of_close (hlast : s.lastUpdate = prev.store) (h : Close prev i) : ¬s.Resets i := by
  obtain ⟨h₁, h₂, h₃⟩ := h
  have hlt : ∀ last : BitVec 64, last ≤ i.compare → i.compare.toNat ≤ last.toNat + 10 →
      ¬i.compare - last > 10 := by
    intro last hle hten
    rw [gt_iff_lt, BitVec.lt_def, BitVec.toNat_sub_of_le hle]
    have hvalue : (10 : BitVec 64).toNat = 10 := rfl
    omega
  rw [Resets, hlast]
  split
  next hzero =>
    refine hlt _ h₂ ?_
    rw [hzero] at h₃
    exact h₃.trans (Nat.add_le_add_right (Nat.zero_le _) 10)
  next => exact hlt _ (BitVec.le_trans h₁ h₂) h₃

/-- A bit that does not complete the frame. -/
lemma receiveMessage_of_lt (hfed : Fed (s.resync i) seen) (hlt : seen.length + 1 < 11) :
    (s.receiveMessage i).2 = none ∧ Fed (s.receiveMessage i).1 (seen ++ [i.bit]) ∧
      (s.receiveMessage i).1.parity = s.parity + i.bit.toNat ∧
      (s.receiveMessage i).1.lastUpdate = i.store := by
  have hnb : (s.resync i).nbBit + 1 < 11 := by rwa [hfed.nbBit]
  rw [receiveMessage, if_pos hnb]
  refine ⟨rfl, ⟨?_, ?_, ?_⟩, by simp, by simp⟩
  · rw [List.foldl_append, ← hfed.message]
    rfl
  · rw [List.length_append, ← hfed.nbBit]
    rfl
  · rwa [List.length_append]

/-- The bit that completes the frame. -/
lemma receiveMessage_full (hfed : Fed (s.resync i) seen) (heq : seen.length + 1 = 11) :
    (s.receiveMessage i).2 = checkFrame ((seen ++ [i.bit]).foldl shiftIn 0) (s.parity + i.bit.toNat) ∧
      Fed (s.receiveMessage i).1 [] ∧ (s.receiveMessage i).1.parity = 0 ∧
      (s.receiveMessage i).1.lastUpdate = i.store := by
  have hnb : ¬(s.resync i).nbBit + 1 < 11 := by
    rw [hfed.nbBit]
    omega
  rw [receiveMessage, if_neg hnb]
  refine ⟨?_, ⟨rfl, rfl, by decide⟩, rfl, by simp⟩
  rw [parity_resync, List.foldl_append, ← hfed.message]
  rfl

/-- After any history, the receiver has seen some bits of a frame. -/
lemma fed_run (hfed : Fed s seen) (is : List Ps2Interrupt) : ∃ seen', Fed (s.run is) seen' := by
  induction is generalizing s seen with
  | nil => exact ⟨seen, hfed⟩
  | cons i is ih =>
    obtain ⟨seen', hfed'⟩ : ∃ seen', Fed (s.resync i) seen' := by
      by_cases h : s.Resets i
      · exact ⟨[], fed_resync_of_resets h⟩
      · exact ⟨seen, fed_resync hfed h⟩
    rcases Nat.lt_or_ge (seen'.length + 1) 11 with hlt | hge
    · exact ih (receiveMessage_of_lt hfed' hlt).2.1
    · exact ih (receiveMessage_full hfed' (Nat.le_antisymm hfed'.lt hge)).2.1

/-- Interrupts that do not complete the frame return nothing. -/
lemma outputs_of_lt (hfed : Fed (s.resync i) seen) (hchain : (i :: is).IsChain Close)
    (hlt : seen.length + (is.length + 1) < 11) :
    s.outputs (i :: is) = List.replicate (is.length + 1) none := by
  induction is generalizing s i seen with
  | nil =>
    rw [outputs, (receiveMessage_of_lt hfed hlt).1]
    rfl
  | cons i' is ih =>
    obtain ⟨hclose, hchain⟩ := List.isChain_cons_cons.mp hchain
    rw [List.length_cons] at hlt
    obtain ⟨hnone, hfed', -, hlast⟩ := receiveMessage_of_lt hfed (by omega)
    have hrest := ih (fed_resync hfed' (not_resets_of_close hlast hclose)) hchain (by
      rw [List.length_append, List.length_singleton]
      omega)
    rw [outputs, hnone, hrest]
    rfl

/-- The interrupts that complete the frame return what passes the checks, at the last of them. -/
lemma outputs_complete (hfed : Fed (s.resync i) seen) (hchain : (i :: is).IsChain Close)
    (heq : seen.length + (is.length + 1) = 11) :
    s.outputs (i :: is) = List.replicate is.length none ++
        [checkFrame ((seen ++ (i :: is).map (·.bit)).foldl shiftIn 0)
          (s.parity + ones ((i :: is).map (·.bit)))] ∧
      Fed (s.run (i :: is)) [] ∧
      (s.run (i :: is)).lastUpdate = ((i :: is).getLast (List.cons_ne_nil i is)).store := by
  induction is generalizing s i seen with
  | nil =>
    obtain ⟨hout, hfed', -, hlast⟩ := receiveMessage_full hfed heq
    refine ⟨?_, hfed', hlast⟩
    rw [outputs, hout]
    simp [outputs, ones]
  | cons i' is ih =>
    obtain ⟨hclose, hchain⟩ := List.isChain_cons_cons.mp hchain
    rw [List.length_cons] at heq
    obtain ⟨hnone, hfed', hparity, hlast⟩ := receiveMessage_of_lt hfed (by omega)
    obtain ⟨hout, hfed'', hlast'⟩ := ih (fed_resync hfed' (not_resets_of_close hlast hclose)) hchain (by
      rw [List.length_append, List.length_singleton]
      omega)
    refine ⟨?_, hfed'', ?_⟩
    · rw [outputs, hnone, hout, hparity]
      simp [ones, List.replicate_succ, Nat.add_assoc]
    · rw [run, hlast', List.getLast_cons (List.cons_ne_nil i' is)]

lemma fed_initial : Fed initial [] := ⟨rfl, rfl, by decide⟩

lemma outputs_append (s : Ps2Receiver) (is js : List Ps2Interrupt) :
    s.outputs (is ++ js) = s.outputs is ++ (s.run is).outputs js := by
  induction is generalizing s with
  | nil          => rfl
  | cons i is ih => rw [List.cons_append, outputs, outputs, run, ih, List.cons_append]

lemma lastUpdate_receiveMessage (s : Ps2Receiver) (i : Ps2Interrupt) :
    (s.receiveMessage i).1.lastUpdate = i.store := by
  rw [receiveMessage]
  split <;> exact lastUpdate_resync s i

/-- The receiver remembers when the last interrupt came. -/
lemma lastUpdate_run (is : List Ps2Interrupt) (h : prev ∈ is.getLast?) :
    (s.run is).lastUpdate = prev.store := by
  induction is generalizing s with
  | nil => simp at h
  | cons i is ih =>
    rw [run]
    cases is with
    | nil =>
      rw [List.getLast?_singleton, Option.mem_some_iff] at h
      rw [run, lastUpdate_receiveMessage, h]
    | cons j is =>
      rw [List.getLast?_cons_cons] at h
      exact ih h

lemma resets_of_gap (hlast : s.lastUpdate = prev.store) (hne : s.lastUpdate ≠ 0) (h : Gap prev i) :
    s.Resets i := by
  rw [Gap, ← hlast] at h
  have hle : s.lastUpdate ≤ i.compare := by
    rw [BitVec.le_def]
    omega
  rw [Resets, if_neg hne, gt_iff_lt, BitVec.lt_def, BitVec.toNat_sub_of_le hle]
  have hvalue : (10 : BitVec 64).toNat = 10 := rfl
  omega

/-! ### After a gap -/

lemma Fed.pending_eq (hfed : Fed s seen) : s.pending = seen := by
  rw [Ps2Receiver.pending, hfed.nbBit, hfed.message]
  refine List.ext_getElem (by simp) fun j _ hj => ?_
  have hle := hfed.lt
  have hindex : 11 - seen.length + j + seen.length - 11 = j := by omega
  have hin : 11 - seen.length + j ≤ 10 ∧ 11 ≤ 11 - seen.length + j + seen.length := by omega
  rw [List.getElem_map, List.getElem_range, getLsbD_foldl_shiftIn hfed.lt.le, hindex, decide_eq_true hin,
    Bool.true_and, List.getD_eq_getElem _ _ hj]

/-- A gap after an unfinished frame is overlooked: the time of the last interrupt is 0, which stands for
no interrupt so far. -/
def Overlooks (s : Ps2Receiver) (first : Ps2Interrupt) : Prop :=
  s.lastUpdate = 0 ∧ s.nbBit ≠ 0 ∧ ¬s.Resets first

instance (s : Ps2Receiver) (first : Ps2Interrupt) : Decidable (s.Overlooks first) :=
  inferInstanceAs (Decidable (_ ∧ _))

/-- When eleven bits after a gap are received as they should be. With a gap that is seen, the earlier bits
have left an even sum, or the start or the stop bit is wrong anyway. With a gap that is overlooked, the
first of the eleven bits complete a frame which fails, and the eleven are no frame. -/
def Resynchronises (s : Ps2Receiver) (first : Ps2Interrupt) (bits : List Bool) : Prop :=
  if s.Overlooks first then
    ¬Passes (s.pending ++ bits.take (11 - s.nbBit)) (s.parity + ones (bits.take (11 - s.nbBit))) ∧
      ¬ValidFrame bits
  else bits.getD 0 false = true ∨ bits.getD 10 false = false ∨ s.parity % 2 = 0

instance (s : Ps2Receiver) (first : Ps2Interrupt) (bits : List Bool) :
    Decidable (s.Resynchronises first bits) := by
  unfold Resynchronises
  infer_instance

/-- What should be returned for eleven bits. -/
def expected (bits : List Bool) : List (Option (BitVec 8)) :=
  List.replicate 10 none ++ [if ValidFrame bits then some (dataOf bits) else none]

lemma replicate_none_append_iff {α : Type} {x y : Option α} (m n : ℕ) :
    List.replicate m none ++ [x] ++ List.replicate (n + 1) none = List.replicate (m + (n + 1)) none ++ [y] ↔
      x = none ∧ y = none := by
  have hright : List.replicate (m + (n + 1)) none ++ [y] =
      List.replicate m none ++ [none] ++ (List.replicate n none ++ [y]) := by
    rw [List.replicate_add, List.replicate_succ]
    simp
  rw [hright, List.replicate_succ', List.append_assoc, List.append_assoc, List.append_cancel_left_eq,
    List.singleton_append, List.singleton_append, List.cons.injEq, List.append_cancel_left_eq,
    List.singleton_inj, @eq_comm _ none]

/-- With a gap that is seen, everything is forgotten but the sum. -/
lemma outputs_fed_iff (hfed : Fed (s.resync i) []) (hlength : is.length = 10)
    (hchain : (i :: is).IsChain Close) :
    s.outputs (i :: is) = expected ((i :: is).map (·.bit)) ↔
      ((i :: is).map (·.bit)).getD 0 false = true ∨ ((i :: is).map (·.bit)).getD 10 false = false ∨
        s.parity % 2 = 0 := by
  have hbits : ((i :: is).map (·.bit)).length = 11 := by
    rw [List.length_map, List.length_cons, hlength]
  have hvalid := passes_ones_iff hbits
  rw [(outputs_complete hfed hchain (by rw [hlength]; rfl)).1, List.nil_append, checkFrame_eq hbits, hlength,
    expected, List.append_cancel_left_eq, List.singleton_inj]
  generalize (i :: is).map (·.bit) = bits at hvalid ⊢
  have hsame : ((if Passes bits (s.parity + ones bits) then some (dataOf bits) else none) =
      if ValidFrame bits then some (dataOf bits) else none) ↔
        (Passes bits (s.parity + ones bits) ↔ Passes bits (ones bits)) := by
    rw [hvalid]
    split <;> split <;> simp_all
  rw [hsame, Passes, Passes]
  cases bits.getD 0 false with
  | true  => simp
  | false =>
    cases bits.getD 10 false with
    | false => simp
    | true =>
      simp only [true_and, Bool.false_eq_true, Bool.true_eq_false, false_or]
      omega

/-- With a gap that is overlooked, the first bits complete the unfinished frame. -/
lemma outputs_overlooked_iff (hfed : Fed s seen) (hne : seen ≠ []) (hnot : ¬s.Resets i)
    (hlength : is.length = 10) (hchain : (i :: is).IsChain Close) :
    s.outputs (i :: is) = expected ((i :: is).map (·.bit)) ↔
      ¬Passes (seen ++ ((i :: is).map (·.bit)).take (11 - seen.length))
          (s.parity + ones (((i :: is).map (·.bit)).take (11 - seen.length))) ∧
        ¬ValidFrame ((i :: is).map (·.bit)) := by
  have hpos := List.length_pos_of_ne_nil hne
  have hlt := hfed.lt
  obtain ⟨m, hm⟩ : ∃ m, m + seen.length = 10 := ⟨10 - seen.length, by omega⟩
  obtain ⟨n, hn⟩ : ∃ n, seen.length = n + 1 := ⟨seen.length - 1, by omega⟩
  have htake : 11 - seen.length = m + 1 := by omega
  obtain ⟨j, js, hjs⟩ : ∃ j js, is.drop m = j :: js := by
    refine List.exists_cons_of_ne_nil ?_
    rw [Ne, List.drop_eq_nil_iff]
    omega
  have hsplit : i :: is = (i :: is.take m) ++ (j :: js) := by
    rw [← hjs, List.cons_append, List.take_append_drop]
  have hfirst : (is.take m).length = m := List.length_take_of_le (by omega)
  have hlast : js.length = n := by
    have h := congrArg List.length hjs
    rw [List.length_drop, List.length_cons] at h
    omega
  have hbits : ((i :: is).map (·.bit)).take (m + 1) = (i :: is.take m).map (·.bit) := by
    rw [← List.map_take, List.take_succ_cons]
  rw [hsplit] at hchain
  obtain ⟨hchain₁, hchain₂, hbetween⟩ := List.isChain_append.mp hchain
  obtain ⟨hout, hfed', hlast'⟩ := outputs_complete (fed_resync hfed hnot) hchain₁ (by
    rw [hfirst]
    omega)
  have hclose : ¬(s.run (i :: is.take m)).Resets j :=
    not_resets_of_close hlast' (hbetween _ (List.getLast?_eq_getLast_of_ne_nil _) _ rfl)
  have hrest := outputs_of_lt (fed_resync hfed' hclose) hchain₂ (by
    rw [List.length_nil, hlast]
    omega)
  have hten : m + (n + 1) = 10 := by omega
  have hall : s.outputs (i :: is) = List.replicate m none ++
      [checkFrame ((seen ++ (i :: is.take m).map (·.bit)).foldl shiftIn 0)
        (s.parity + ones ((i :: is.take m).map (·.bit)))] ++ List.replicate (n + 1) none := by
    conv_lhs => rw [hsplit, outputs_append, hout, hrest, hfirst, hlast]
  have hframe : (seen ++ (i :: is.take m).map (·.bit)).length = 11 := by
    rw [List.length_append, List.length_map, List.length_cons, hfirst]
    omega
  rw [hall, htake, hbits, expected, ← hten, replicate_none_append_iff, checkFrame_eq hframe,
    ite_eq_right_iff, ite_eq_right_iff]
  simp

end Ps2Receiver

open Ps2Receiver in
/-- After any history of interrupts and a gap of more than 10 ms, eleven interrupts are received as they
should be exactly when the receiver resynchronises. -/
theorem receives_iff {history rest : List Ps2Interrupt} {first : Ps2Interrupt} (hlength : rest.length = 10)
    (hgap : ∀ prev ∈ history.getLast?, Gap prev first) (hclose : (first :: rest).IsChain Close) :
    (initial.run history).outputs (first :: rest) = expected ((first :: rest).map (·.bit)) ↔
      (initial.run history).Resynchronises first ((first :: rest).map (·.bit)) := by
  obtain ⟨seen, hfed⟩ := fed_run fed_initial history
  rw [Resynchronises]
  split
  next h =>
    rw [hfed.pending_eq, hfed.nbBit]
    refine outputs_overlooked_iff hfed ?_ h.2.2 hlength hclose
    rintro rfl
    exact h.2.1 hfed.nbBit
  next h =>
    refine outputs_fed_iff ?_ hlength hclose
    by_cases hresets : (initial.run history).Resets first
    · exact fed_resync_of_resets hresets
    · have hempty : (initial.run history).nbBit = 0 := by
        by_contra hne
        refine h ⟨?_, hne, hresets⟩
        by_contra hzero
        cases hlast : history.getLast? with
        | none =>
          rw [List.getLast?_eq_none_iff] at hlast
          rw [hlast] at hne
          exact hne rfl
        | some prev =>
          exact hresets (resets_of_gap (lastUpdate_run history hlast) hzero (hgap prev hlast))
      rw [hfed.nbBit, List.length_eq_zero_iff] at hempty
      rw [hempty] at hfed
      exact fed_resync hfed hresets

/-- Interrupts in the same millisecond. -/
def burst (time : BitVec 64) (bits : List Bool) : List Ps2Interrupt := bits.map (⟨time, time, time, ·⟩)

/-- The frame of the code 0x1c, after its start bit. -/
def frameTail : List Bool := [false, false, true, true, true, false, false, false, false, true]

/-- After two ones, a frame is received. -/
theorem receives_after_two :
    (Ps2Receiver.initial.run (burst 1 [true, true])).outputs (burst 20 (false :: frameTail)) =
      List.replicate 10 none ++ [some 0x1c] := by
  have hclose : (⟨20, 20, 20, false⟩ :: burst 20 frameTail).IsChain Close := by decide
  have hgap : ∀ prev ∈ (burst 1 [true, true]).getLast?, Gap prev ⟨20, 20, 20, false⟩ := by decide
  exact (receives_iff rfl hgap hclose).mpr (by decide +kernel)

/-- After a single one, the same frame is rejected, although it comes after a gap. -/
theorem not_receives :
    ¬∀ (history rest : List Ps2Interrupt) (first : Ps2Interrupt), rest.length = 10 →
      (∀ prev ∈ history.getLast?, Gap prev first) → (first :: rest).IsChain Close →
        (Ps2Receiver.initial.run history).outputs (first :: rest) =
          Ps2Receiver.expected ((first :: rest).map (·.bit)) := by
  intro h
  have hframe := h (burst 1 [true]) (burst 20 frameTail) ⟨20, 20, 20, false⟩ (by decide) (by decide)
    (by decide)
  revert hframe
  decide +kernel

end PiKachulm.Hardware

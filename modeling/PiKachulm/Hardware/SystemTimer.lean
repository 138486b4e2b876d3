import Mathlib.Data.Nat.ModEq
import Mathlib.Tactic.Common

/-!
# The counter of the system timer

`get_tick_count` reads the two halves of a 64-bit counter that goes on counting meanwhile, in an order
that the language leaves open. Time is the number of ticks that the counter has made; the counter shows
it modulo `2 ^ 64`.
-/

namespace PiKachulm.Hardware

/-- `CLO`. -/
def counterLow (now : ℕ) : ℕ := now % 2 ^ 32

/-- `CHI`. -/
def counterHigh (now : ℕ) : ℕ := now / 2 ^ 32 % 2 ^ 32

/-- A call of `get_tick_count`: the ticks before, between and after the two reads, and which is first. -/
structure TickRead where
  before : ℕ
  between : ℕ
  after : ℕ
  lowFirst : Bool

namespace TickRead

variable (now : ℕ) (c : TickRead)

def length : ℕ := c.before + c.between + c.after

/-- When the first register is read, and when the second one is. -/
def first : ℕ := now + c.before

def second : ℕ := c.first now + c.between

def getTickCount : ℕ :=
  if c.lowFirst then counterLow (c.first now) + counterHigh (c.second now) * 2 ^ 32
  else counterLow (c.second now) + counterHigh (c.first now) * 2 ^ 32

/-- The counter shows the value at some time during the call. -/
def Shown (value : ℕ) : Prop := ∃ e ≤ c.length, value = (now + e) % 2 ^ 64

/-- The ticks that make up for a low half that is read too early or a high half that is read too late. -/
def slack : ℕ := if c.lowFirst then c.after else c.before

/-- The low half wraps between the reads, with too few ticks on the other side for the value to be shown,
in a call that does not take all but `2 ^ 64` ticks. -/
def Torn : Prop :=
  c.second now % 2 ^ 32 + c.slack < c.first now % 2 ^ 32 ∧
    c.length + (c.first now % 2 ^ 32 - (c.second now % 2 ^ 32 + c.slack)) < 2 ^ 64

instance : Decidable (c.Torn now) := inferInstanceAs (Decidable (_ ∧ _))

end TickRead

/-! ### One call -/

namespace TickRead

variable {now e value low high : ℕ} {c : TickRead}

lemma join_eq (hlow : low < 2 ^ 32) :
    low + high % 2 ^ 32 * 2 ^ 32 = (low + high * 2 ^ 32) % 2 ^ 64 := by
  have hpow : (2 : ℕ) ^ 64 = 2 ^ 32 * 2 ^ 32 := by rw [← Nat.pow_add]
  rw [hpow, Nat.mod_mul, Nat.add_mul_mod_self_right, Nat.mod_eq_of_lt hlow,
    Nat.add_mul_div_right low high (by decide), Nat.div_eq_of_lt hlow, Nat.zero_add, Nat.mul_comm]

/-- Which time after the start a value shows. -/
lemma shown_iff (hvalue : value = (now + e) % 2 ^ 64) : c.Shown now value ↔ e % 2 ^ 64 ≤ c.length := by
  constructor
  · rintro ⟨e', hle, rfl⟩
    have hmod : e' % 2 ^ 64 = e % 2 ^ 64 := Nat.ModEq.add_left_cancel' now hvalue
    rw [← hmod]
    exact (Nat.mod_le _ _).trans hle
  · intro h
    exact ⟨e % 2 ^ 64, h, by rw [hvalue, Nat.add_mod_mod]⟩

lemma getTickCount_lowFirst (h : c.lowFirst = true) : c.getTickCount now =
    (now + (c.before + (c.second now / 2 ^ 32 - c.first now / 2 ^ 32) * 2 ^ 32)) % 2 ^ 64 := by
  have hle : c.first now / 2 ^ 32 ≤ c.second now / 2 ^ 32 := Nat.div_le_div_right (Nat.le_add_right _ _)
  have hfirst : c.first now = now + c.before := rfl
  rw [getTickCount, if_pos h, counterLow, counterHigh, join_eq (Nat.mod_lt _ (by decide))]
  congr 1
  omega

/-- With `low` ticks missing on one side and `high` on the other, a time is shown unless the lack is met
neither by the slack nor by going round. -/
lemma mod_le_iff {len slack : ℕ} (hhigh : high < 2 ^ 32) (hsum : e + (low + slack) = len + high) :
    e % 2 ^ 64 ≤ len ↔ ¬(low + slack < high ∧ len + (high - (low + slack)) < 2 ^ 64) := by
  by_cases hlack : low + slack < high
  · have he : e = len + (high - (low + slack)) := by omega
    rw [and_iff_right hlack, ← he, Nat.not_lt]
    constructor
    · intro hle
      by_contra hlt
      rw [Nat.mod_eq_of_lt (Nat.not_le.mp hlt)] at hle
      omega
    · intro hge
      have hmod : e % 2 ^ 64 ≤ e - 2 ^ 64 := by
        rw [Nat.mod_eq_sub_mod hge]
        exact Nat.mod_le _ _
      omega
  · refine iff_of_true ((Nat.mod_le _ _).trans ?_) fun h => hlack h.1
    omega

lemma shown_lowFirst (h : c.lowFirst = true) : c.Shown now (c.getTickCount now) ↔ ¬c.Torn now := by
  have hslack : c.slack = c.after := if_pos h
  have hle : c.first now / 2 ^ 32 ≤ c.second now / 2 ^ 32 := Nat.div_le_div_right (Nat.le_add_right _ _)
  have hsecond : c.second now = c.first now + c.between := rfl
  have hlength : c.length = c.before + c.between + c.after := rfl
  rw [shown_iff (getTickCount_lowFirst h), Torn, hslack]
  refine mod_le_iff (Nat.mod_lt _ (by decide)) ?_
  omega

/-- The value is the counter's at the first read, as far back as the low half makes it. -/
lemma getTickCount_highFirst (h : c.lowFirst = false) : c.getTickCount now =
    (c.first now / 2 ^ 32 * 2 ^ 32 + c.second now % 2 ^ 32) % 2 ^ 64 := by
  have hne : ¬c.lowFirst = true := by simp [h]
  rw [getTickCount, if_neg hne, counterLow, counterHigh, join_eq (Nat.mod_lt _ (by decide)), Nat.add_comm]

lemma shown_highFirst (h : c.lowFirst = false) : c.Shown now (c.getTickCount now) ↔ ¬c.Torn now := by
  have hne : ¬c.lowFirst = true := by simp [h]
  have hslack : c.slack = c.before := if_neg hne
  have hfirst : c.first now = now + c.before := rfl
  have hsecond : c.second now = c.first now + c.between := rfl
  have hlength : c.length = c.before + c.between + c.after := rfl
  have hlow : c.first now % 2 ^ 32 < 2 ^ 32 := Nat.mod_lt _ (by decide)
  by_cases hlack : c.second now % 2 ^ 32 + c.before < c.first now % 2 ^ 32
  · -- the value is behind the start, unless it is shown after the counter has gone round
    have hvalue : c.getTickCount now = (now + (2 ^ 64 - (c.first now % 2 ^ 32 -
        (c.second now % 2 ^ 32 + c.before)))) % 2 ^ 64 := by
      rw [getTickCount_highFirst h, ← Nat.add_mod_right]
      congr 1
      omega
    rw [shown_iff hvalue, Torn, hslack, and_iff_right hlack, Nat.not_lt, Nat.mod_eq_of_lt (by omega)]
    omega
  · have hvalue : c.getTickCount now =
        (now + (c.second now % 2 ^ 32 + c.before - c.first now % 2 ^ 32)) % 2 ^ 64 := by
      rw [getTickCount_highFirst h]
      congr 1
      omega
    rw [shown_iff hvalue, Torn, hslack]
    refine iff_of_true ((Nat.mod_le _ _).trans ?_) fun htorn => hlack htorn.1
    have hmod : c.second now % 2 ^ 32 ≤ c.first now % 2 ^ 32 + c.between := by
      rw [hsecond, Nat.add_mod]
      exact (Nat.mod_le _ _).trans (Nat.add_le_add_left (Nat.mod_le _ _) _)
    omega

lemma shown_getTickCount_iff (now : ℕ) (c : TickRead) :
    c.Shown now (c.getTickCount now) ↔ ¬c.Torn now := by
  cases h : c.lowFirst with
  | true => exact shown_lowFirst h
  | false => exact shown_highFirst h

/-- Before the counter overflows, what is shown lies between its values at the two ends of the call. -/
lemma Shown.between (h : c.Shown now value) (hend : now + c.length < 2 ^ 64) :
    now ≤ value ∧ value ≤ now + c.length := by
  obtain ⟨e, he, rfl⟩ := h
  rw [Nat.mod_eq_of_lt (by omega)]
  omega

end TickRead

/-! ### One call after another -/

open TickRead

/-- What calls return, each some ticks after the one before. -/
def tickCounts : ℕ → List (ℕ × TickRead) → List ℕ
  | _, []                  => []
  | now, (pause, c) :: calls =>
    c.getTickCount (now + pause) :: tickCounts (now + pause + c.length) calls

/-- The time after the calls. -/
def endOf : ℕ → List (ℕ × TickRead) → ℕ
  | now, []                  => now
  | now, (pause, c) :: calls => endOf (now + pause + c.length) calls

/-- None of the calls is torn. -/
def NoneTorn : ℕ → List (ℕ × TickRead) → Prop
  | _, []                  => True
  | now, (pause, c) :: calls => ¬c.Torn (now + pause) ∧ NoneTorn (now + pause + c.length) calls

variable {now : ℕ} {calls : List (ℕ × TickRead)}

lemma le_endOf : now ≤ endOf now calls := by
  induction calls generalizing now with
  | nil => exact Nat.le_refl _
  | cons x calls ih => exact Nat.le_trans (by omega) ih

lemma le_of_mem_tickCounts (h : NoneTorn now calls) (hend : endOf now calls < 2 ^ 64) :
    ∀ v ∈ tickCounts now calls, now ≤ v := by
  induction calls generalizing now with
  | nil => exact fun v hv => absurd hv List.not_mem_nil
  | cons x calls ih =>
    obtain ⟨pause, c⟩ := x
    have hle : now + pause + c.length ≤ endOf (now + pause + c.length) calls := le_endOf
    have hvalue := ((shown_getTickCount_iff _ c).mpr h.1).between (hle.trans_lt hend)
    intro v hv
    rcases List.mem_cons.mp hv with rfl | hv
    · omega
    · have hrest := ih h.2 hend v hv
      omega

lemma pairwise_tickCounts (h : NoneTorn now calls) (hend : endOf now calls < 2 ^ 64) :
    (tickCounts now calls).Pairwise (· ≤ ·) := by
  induction calls generalizing now with
  | nil => exact .nil
  | cons x calls ih =>
    obtain ⟨pause, c⟩ := x
    have hle : now + pause + c.length ≤ endOf (now + pause + c.length) calls := le_endOf
    have hvalue := ((shown_getTickCount_iff _ c).mpr h.1).between (hle.trans_lt hend)
    refine .cons (fun v hv => ?_) (ih h.2 hend)
    exact hvalue.2.trans (le_of_mem_tickCounts h.2 hend v hv)

/-- A call returns a value of the counter exactly when it is not torn, and calls that are not torn never go
backwards before the counter overflows. -/
theorem getTickCount_shown_iff (now : ℕ) :
    (∀ c : TickRead, c.Shown now (c.getTickCount now) ↔ ¬c.Torn now) ∧
      ∀ calls : List (ℕ × TickRead), NoneTorn now calls → endOf now calls < 2 ^ 64 →
        (tickCounts now calls).Pairwise (· ≤ ·) :=
  ⟨shown_getTickCount_iff now, fun _ => pairwise_tickCounts⟩

/-- The low half is read just before it wraps and the high half just after: the value is far ahead, and
the next call goes backwards. -/
theorem not_getTickCount_shown :
    ¬(∀ (now : ℕ) (c : TickRead), c.Shown now (c.getTickCount now)) ∧
      tickCounts 0xffffffff [(0, ⟨0, 1, 0, true⟩), (0, ⟨0, 0, 0, true⟩)] = [0x1ffffffff, 0x100000000] := by
  refine ⟨fun h => ?_, by decide⟩
  have hshown := h 0xffffffff ⟨0, 1, 0, true⟩
  exact (shown_lowFirst rfl).mp hshown (by decide)

end PiKachulm.Hardware

import Mathlib.Tactic.Common
import Mathlib.Tactic.NormNum

/-!
# Times and ticks

The elapsed times of the generic timer and of the system timer, and the periods that the system timer is
programmed with. Products are formed in 64 bits before they are divided, and a period is passed on in 32.
-/

namespace PiKachulm.Hardware

/-- Ticks in seconds over `unit`. -/
def elapsedTime (unit : ℕ) (tickCount frequency : BitVec 64) : BitVec 64 :=
  tickCount * BitVec.ofNat 64 unit / frequency

namespace GenericTimer

def getElapsedTimeInNs (tickCount frequency : BitVec 64) : BitVec 64 :=
  elapsedTime 1000000000 tickCount frequency

def getElapsedTimeInMicros (tickCount frequency : BitVec 64) : BitVec 64 :=
  elapsedTime 1000000 tickCount frequency

def getElapsedTimeInMs (tickCount frequency : BitVec 64) : BitVec 64 :=
  elapsedTime 1000 tickCount frequency

def getElapsedTimeInS (tickCount frequency : BitVec 64) : BitVec 64 := tickCount / frequency

end GenericTimer

/-- The tables of the four timers, and their compare registers. Callbacks are addresses. -/
structure SystemTimer where
  timReserved : ℕ → Bool
  timUsed : ℕ → Bool
  callbacks : ℕ → ℕ
  tickPeriod : ℕ → BitVec 64
  compare : ℕ → BitVec 32

namespace SystemTimer

def nbTimers : ℕ := 4

def freq : BitVec 64 := 1000000

def getElapsedTimeInNs (tickCount : BitVec 64) : BitVec 64 := elapsedTime 1000000000 tickCount freq

def getElapsedTimeInMicros (tickCount : BitVec 64) : BitVec 64 := elapsedTime 1000000 tickCount freq

def getElapsedTimeInMs (tickCount : BitVec 64) : BitVec 64 := elapsedTime 1000 tickCount freq

def getElapsedTimeInS (tickCount : BitVec 64) : BitVec 64 := tickCount / freq

variable (t : SystemTimer) (tickCount : BitVec 64) (tim : ℕ) (callback : ℕ)

def isReserved : Bool := if tim ≥ nbTimers then true else t.timReserved tim

def setupNextPeriod (period : BitVec 32) : SystemTimer :=
  { t with compare := Function.update t.compare tim ((tickCount &&& 0xffffffff).setWidth 32 + period) }

def setRecurrentTick (tickPeriod : BitVec 32) : Bool × SystemTimer :=
  if t.isReserved tim then (false, t)
  else
    let t := { t with
      tickPeriod := Function.update t.tickPeriod tim (tickPeriod.setWidth 64)
      callbacks := Function.update t.callbacks tim callback
      timUsed := Function.update t.timUsed tim true }
    (true, t.setupNextPeriod tickCount tim tickPeriod)

def setRecurrentMicros (microsPeriod : BitVec 32) : Bool × SystemTimer :=
  t.setRecurrentTick tickCount tim callback ((microsPeriod.setWidth 64 * freq / 1000000).setWidth 32)

def setRecurrentMs (msPeriod : BitVec 32) : Bool × SystemTimer :=
  t.setRecurrentTick tickCount tim callback ((msPeriod.setWidth 64 * freq / 1000).setWidth 32)

def setRecurrentS (sPeriod : BitVec 32) : Bool × SystemTimer :=
  t.setRecurrentTick tickCount tim callback ((sPeriod.setWidth 64 * freq).setWidth 32)

/-- The timer is refused and nothing changes, or it fires `ticks` ticks from now on, and again and again. -/
def Programs (ticks : ℕ) (r : Bool × SystemTimer) : Prop :=
  r = (false, t) ∨ r.1 = true ∧ (r.2.tickPeriod tim).toNat = ticks ∧
    (r.2.compare tim).toNat = (tickCount.toNat + ticks) % 2 ^ 32

end SystemTimer

/-! ### Elapsed times -/

variable {unit : ℕ} {tickCount tickCount' frequency : BitVec 64}

/-- The result is the quotient rounded down, when this is a 64-bit word. -/
def QuotientExact (unit : ℕ) (tickCount frequency result : BitVec 64) : Prop :=
  tickCount.toNat * unit / frequency.toNat < 2 ^ 64 →
    result.toNat = tickCount.toNat * unit / frequency.toNat

/-- The product is a 64-bit word, or not even the quotient is one. -/
def ProductFits (unit : ℕ) (tickCount frequency : BitVec 64) : Prop :=
  tickCount.toNat * unit < 2 ^ 64 ∨ 2 ^ 64 ≤ tickCount.toNat * unit / frequency.toNat

lemma toNat_elapsedTime (unit : ℕ) (tickCount frequency : BitVec 64) :
    (elapsedTime unit tickCount frequency).toNat =
      tickCount.toNat * unit % 2 ^ 64 / frequency.toNat := by
  rw [elapsedTime, BitVec.toNat_udiv, BitVec.toNat_mul, BitVec.toNat_ofNat, Nat.mul_mod_mod]

/-- A product that wraps loses more than a divisor of 64 bits can hide. -/
lemma exact_elapsedTime_iff (hf : 0 < frequency.toNat) :
    QuotientExact unit tickCount frequency (elapsedTime unit tickCount frequency) ↔
      ProductFits unit tickCount frequency := by
  rw [QuotientExact, ProductFits, toNat_elapsedTime]
  generalize tickCount.toNat * unit = product
  constructor
  · intro h
    by_contra hnot
    obtain ⟨hwrap, hquotient⟩ := not_or.mp hnot
    have heq := h (Nat.not_le.mp hquotient)
    have hlt : product % 2 ^ 64 + frequency.toNat ≤ product := by
      have hfreq := frequency.isLt
      omega
    have hless : product % 2 ^ 64 / frequency.toNat < product / frequency.toNat :=
      calc product % 2 ^ 64 / frequency.toNat
          < product % 2 ^ 64 / frequency.toNat + 1 := Nat.lt_succ_self _
        _ = (product % 2 ^ 64 + frequency.toNat) / frequency.toNat := (Nat.add_div_right _ hf).symm
        _ ≤ product / frequency.toNat := Nat.div_le_div_right hlt
    exact Nat.ne_of_lt hless heq
  · rintro (hlt | hge) hquotient
    · rw [Nat.mod_eq_of_lt hlt]
    · exact absurd hquotient (Nat.not_lt.mpr hge)

/-- Without the product there is nothing to wrap. -/
lemma exact_div : QuotientExact 1 tickCount frequency (tickCount / frequency) := by
  intro _
  rw [BitVec.toNat_udiv, Nat.mul_one]

lemma elapsedTime_mono (hle : tickCount ≤ tickCount') (hfits : tickCount'.toNat * unit < 2 ^ 64) :
    elapsedTime unit tickCount frequency ≤ elapsedTime unit tickCount' frequency := by
  have hmul : tickCount.toNat * unit ≤ tickCount'.toNat * unit := Nat.mul_le_mul_right unit hle
  rw [BitVec.le_def, toNat_elapsedTime, toNat_elapsedTime, Nat.mod_eq_of_lt hfits,
    Nat.mod_eq_of_lt (Nat.lt_of_le_of_lt hmul hfits)]
  exact Nat.div_le_div_right hmul

/-- The elapsed times of both timers, in nanoseconds, microseconds, milliseconds and seconds. -/
structure TimesExact (tickCount frequency : BitVec 64) : Prop where
  ns : QuotientExact 1000000000 tickCount frequency (GenericTimer.getElapsedTimeInNs tickCount frequency)
  micros : QuotientExact 1000000 tickCount frequency (GenericTimer.getElapsedTimeInMicros tickCount frequency)
  ms : QuotientExact 1000 tickCount frequency (GenericTimer.getElapsedTimeInMs tickCount frequency)
  s : QuotientExact 1 tickCount frequency (GenericTimer.getElapsedTimeInS tickCount frequency)
  systemNs : QuotientExact 1000000000 tickCount SystemTimer.freq (SystemTimer.getElapsedTimeInNs tickCount)
  systemMicros : QuotientExact 1000000 tickCount SystemTimer.freq (SystemTimer.getElapsedTimeInMicros tickCount)
  systemMs : QuotientExact 1000 tickCount SystemTimer.freq (SystemTimer.getElapsedTimeInMs tickCount)
  systemS : QuotientExact 1 tickCount SystemTimer.freq (SystemTimer.getElapsedTimeInS tickCount)

lemma timesExact_iff (hf : 0 < frequency.toNat) : TimesExact tickCount frequency ↔
    ∀ unit ∈ [1000000000, 1000000, 1000],
      ProductFits unit tickCount frequency ∧ ProductFits unit tickCount SystemTimer.freq := by
  have hfreq : 0 < SystemTimer.freq.toNat := by decide
  simp only [List.forall_mem_cons, List.not_mem_nil, false_implies, implies_true, and_true]
  constructor
  · rintro ⟨hns, hmicros, hms, -, hns', hmicros', hms', -⟩
    exact ⟨⟨(exact_elapsedTime_iff hf).mp hns, (exact_elapsedTime_iff hfreq).mp hns'⟩,
      ⟨(exact_elapsedTime_iff hf).mp hmicros, (exact_elapsedTime_iff hfreq).mp hmicros'⟩,
      (exact_elapsedTime_iff hf).mp hms, (exact_elapsedTime_iff hfreq).mp hms'⟩
  · rintro ⟨⟨hns, hns'⟩, ⟨hmicros, hmicros'⟩, hms, hms'⟩
    exact ⟨(exact_elapsedTime_iff hf).mpr hns, (exact_elapsedTime_iff hf).mpr hmicros,
      (exact_elapsedTime_iff hf).mpr hms, exact_div, (exact_elapsedTime_iff hfreq).mpr hns',
      (exact_elapsedTime_iff hfreq).mpr hmicros', (exact_elapsedTime_iff hfreq).mpr hms', exact_div⟩

/-! ### Periods -/

namespace SystemTimer

variable {t : SystemTimer} {tim callback ticks : ℕ} {period sPeriod msPeriod microsPeriod : BitVec 32}

/-- A period is programmed exactly when 32 bits hold it. -/
lemma programs_setRecurrentTick_iff (hperiod : period.toNat = ticks % 2 ^ 32) :
    t.Programs tickCount tim ticks (t.setRecurrentTick tickCount tim callback period) ↔
      t.isReserved tim = true ∨ ticks < 2 ^ 32 := by
  rw [setRecurrentTick]
  cases hreserved : t.isReserved tim with
  | true => simp [Programs]
  | false =>
    have hmask : ((tickCount &&& 0xffffffff).setWidth 32).toNat = tickCount.toNat % 2 ^ 32 := by
      have hones : (0xffffffff : BitVec 64).toNat = 2 ^ 32 - 1 := rfl
      rw [BitVec.toNat_setWidth, BitVec.toNat_and, hones, Nat.and_two_pow_sub_one_eq_mod, Nat.mod_mod]
    have hperiod' : (period.setWidth 64).toNat = period.toNat :=
      BitVec.toNat_setWidth_of_le (by decide)
    simp only [Programs, Bool.false_eq_true, if_false, false_or, setupNextPeriod, Function.update_self,
      Prod.mk.injEq, false_and, true_and, reduceCtorEq, BitVec.toNat_add, hmask, hperiod', hperiod]
    constructor
    · intro h
      omega
    · intro h
      exact ⟨Nat.mod_eq_of_lt h, by rw [← Nat.add_mod]⟩

/-- The periods programmed by the three functions. -/
structure PeriodsExact (t : SystemTimer) (tickCount : BitVec 64) (tim callback : ℕ)
    (sPeriod msPeriod microsPeriod : BitVec 32) : Prop where
  s : t.Programs tickCount tim (sPeriod.toNat * 1000000) (t.setRecurrentS tickCount tim callback sPeriod)
  ms : t.Programs tickCount tim (msPeriod.toNat * 1000) (t.setRecurrentMs tickCount tim callback msPeriod)
  micros : t.Programs tickCount tim microsPeriod.toNat
    (t.setRecurrentMicros tickCount tim callback microsPeriod)

/-- A period of 32 bits times the frequency does not wrap. -/
lemma toNat_mul_freq (period : BitVec 32) :
    (period.setWidth 64 * freq).toNat = period.toNat * 1000000 := by
  have hlt := period.isLt
  have hfreq : freq.toNat = 1000000 := rfl
  rw [BitVec.toNat_mul, BitVec.toNat_setWidth_of_le (by decide), hfreq, Nat.mod_eq_of_lt (by omega)]

lemma periodsExact_iff : PeriodsExact t tickCount tim callback sPeriod msPeriod microsPeriod ↔
    t.isReserved tim = true ∨ sPeriod.toNat * 1000000 < 2 ^ 32 ∧ msPeriod.toNat * 1000 < 2 ^ 32 := by
  have hs : ((sPeriod.setWidth 64 * freq).setWidth 32).toNat = sPeriod.toNat * 1000000 % 2 ^ 32 := by
    rw [BitVec.toNat_setWidth, toNat_mul_freq]
  have hms : ((msPeriod.setWidth 64 * freq / 1000).setWidth 32).toNat =
      msPeriod.toNat * 1000 % 2 ^ 32 := by
    have hdiv : msPeriod.toNat * 1000000 / (1000 : BitVec 64).toNat = msPeriod.toNat * 1000 := by
      rw [show (1000 : BitVec 64).toNat = 1000 from rfl]
      omega
    rw [BitVec.toNat_setWidth, BitVec.toNat_udiv, toNat_mul_freq, hdiv]
  have hmicros : ((microsPeriod.setWidth 64 * freq / 1000000).setWidth 32).toNat =
      microsPeriod.toNat % 2 ^ 32 := by
    have hdiv : microsPeriod.toNat * 1000000 / (1000000 : BitVec 64).toNat = microsPeriod.toNat := by
      rw [show (1000000 : BitVec 64).toNat = 1000000 from rfl]
      omega
    rw [BitVec.toNat_setWidth, BitVec.toNat_udiv, toNat_mul_freq, hdiv]
  have hlt := microsPeriod.isLt
  constructor
  · rintro ⟨h₁, h₂, -⟩
    rw [setRecurrentS, programs_setRecurrentTick_iff hs] at h₁
    rw [setRecurrentMs, programs_setRecurrentTick_iff hms] at h₂
    rcases h₁ with h₁ | h₁
    · exact .inl h₁
    · exact h₂.imp_right fun h₂ => ⟨h₁, h₂⟩
  · intro h
    exact ⟨(programs_setRecurrentTick_iff hs).mpr (h.imp_right And.left),
      (programs_setRecurrentTick_iff hms).mpr (h.imp_right And.right),
      (programs_setRecurrentTick_iff hmicros).mpr (.inr hlt)⟩

end SystemTimer

/-- Times are exact when no product that is formed on the way leaves 64 bits, and so are periods when they
do not leave 32 bits. As long as products fit, times do not go backwards. -/
theorem conversions_exact_iff (t : SystemTimer) (tickCount : BitVec 64) (tim callback : ℕ)
    (sPeriod msPeriod microsPeriod : BitVec 32) (hf : 0 < frequency.toNat) :
    (TimesExact tickCount frequency ∧
        SystemTimer.PeriodsExact t tickCount tim callback sPeriod msPeriod microsPeriod ↔
      (∀ unit ∈ [1000000000, 1000000, 1000],
        ProductFits unit tickCount frequency ∧ ProductFits unit tickCount SystemTimer.freq) ∧
      (t.isReserved tim = true ∨ sPeriod.toNat * 1000000 < 2 ^ 32 ∧ msPeriod.toNat * 1000 < 2 ^ 32)) ∧
    ∀ unit (tickCount' : BitVec 64), tickCount ≤ tickCount' → tickCount'.toNat * unit < 2 ^ 64 →
      elapsedTime unit tickCount frequency ≤ elapsedTime unit tickCount' frequency :=
  ⟨and_congr (timesExact_iff hf) SystemTimer.periodsExact_iff, fun _ _ => elapsedTime_mono⟩

/-- A timer that nobody uses. -/
def freeTimers : SystemTimer :=
  ⟨fun _ => false, fun _ => false, fun _ => 0, fun _ => 0, fun _ => 0⟩

/-- A second after boot of a timer of 19.2 MHz, and periods of a second, a millisecond and a microsecond. -/
theorem conversions_exact_second : TimesExact 19200000 19200000 ∧
    SystemTimer.PeriodsExact freeTimers 19200000 1 0 1 1 1 :=
  (conversions_exact_iff freeTimers 19200000 1 0 1 1 1 (by decide)).1.mpr
    ⟨by simp only [List.forall_mem_cons, List.not_mem_nil, false_implies, implies_true, and_true];
        exact ⟨⟨.inl (by decide), .inl (by decide)⟩, ⟨.inl (by decide), .inl (by decide)⟩,
          .inl (by decide), .inl (by decide)⟩, .inr (by decide)⟩

/-- Five hours and some minutes after boot, nanoseconds wrap at 1 MHz. A period of 4295 s wraps as well. -/
theorem not_conversions_exact : ¬TimesExact 18446744074 1000000 ∧
    ¬SystemTimer.PeriodsExact freeTimers 0 1 0 4295 1 1 := by
  refine ⟨fun h => ?_, fun h => ?_⟩
  · exact absurd (h.ns (by decide)) (by decide)
  · rcases h.s with hrefused | ⟨-, hticks, -⟩
    · exact absurd (congrArg Prod.fst hrefused) (by decide)
    · exact absurd hticks (by decide)

end PiKachulm.Hardware

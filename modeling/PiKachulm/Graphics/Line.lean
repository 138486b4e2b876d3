import PiKachulm.Graphics.Painter
import Mathlib.Algebra.Order.Ring.Int
import Mathlib.Algebra.Order.Ring.Abs
import Mathlib.Data.List.Chain
import Mathlib.Data.List.Nodup
import Mathlib.Data.List.Perm.Subperm
import Mathlib.Data.List.Range
import Mathlib.Tactic.Linarith
import Mathlib.Tactic.Ring

/-!
# Lines

`draw_line` goes through the coordinates of the longer axis and computes the other coordinate by a
division. Its differences, absolute values and products are signed words that wrap around.
-/

namespace PiKachulm.Graphics

open Painter

/-! ### What a line is -/

/-- The calls draw the line between two points. The first coordinate is that of the longer axis. -/
structure Traces (l : List (Int32 × Int32)) (a₁ b₁ a₂ b₂ : Int32) : Prop where
  ends : (a₁, b₁) ∈ l ∧ (a₂, b₂) ∈ l
  within : ∀ q ∈ l, min a₁.toInt a₂.toInt ≤ q.1.toInt ∧ q.1.toInt ≤ max a₁.toInt a₂.toInt
  once : ∀ a : Int32, min a₁.toInt a₂.toInt ≤ a.toInt → a.toInt ≤ max a₁.toInt a₂.toInt →
    (l.map Prod.fst).count a = 1
  connected : l.IsChain fun q q' => |q'.2.toInt - q.2.toInt| ≤ 1
  -- the distance to the line, in the direction of the shorter axis and times the length of the longer one
  near : ∀ q ∈ l, |(q.2.toInt - b₁.toInt) * (a₂.toInt - a₁.toInt) -
    (q.1.toInt - a₁.toInt) * (b₂.toInt - b₁.toInt)| ≤ |a₂.toInt - a₁.toInt|

/-- Each call has one next to it among the others. -/
def Alike (l l' : List (Int32 × Int32)) : Prop :=
  ∀ q ∈ l, ∃ q' ∈ l', q'.1 = q.1 ∧ |q'.2.toInt - q.2.toInt| ≤ 1

/-- The x axis is the longer one. -/
def Wide (x1 y1 x2 y2 : Int32) : Prop := |y2.toInt - y1.toInt| < |x2.toInt - x1.toInt|

instance (x1 y1 x2 y2 : Int32) : Decidable (Wide x1 y1 x2 y2) := inferInstanceAs (Decidable (_ < _))

/-- The loop of `draw_line`, when there is one: the first and the last value of its counter, and the
divisor. -/
def lineLoop (x1 y1 x2 y2 : Int32) : Option (Int32 × Int32 × Int32) :=
  let dx := x2 - x1
  let dy := y2 - y1
  if dx = 0 ∧ dy = 0 then none
  else if dx.abs > dy.abs then some (if x1 > x2 then (x2, x1, dx) else (x1, x2, dx))
  else some (if y1 > y2 then (y2, y1, dy) else (y1, y2, dy))

/-- `draw_line` ends, does not divide by zero and draws a line, which is the same when the endpoints are
exchanged. -/
structure DrawsLine (x1 y1 x2 y2 : Int32) : Prop where
  terminates : ∀ loop ∈ lineLoop x1 y1 x2 y2, ∃ n : ℕ, loop.2.1 < loop.1 + .ofNat n
  divides : ∀ loop ∈ lineLoop x1 y1 x2 y2, loop.1 ≤ loop.2.1 → loop.2.2 ≠ 0
  traces : if Wide x1 y1 x2 y2 then Traces (linePixels x1 y1 x2 y2) x1 y1 x2 y2
    else Traces ((linePixels x1 y1 x2 y2).map Prod.swap) y1 x1 y2 x2
  exchange : if Wide x1 y1 x2 y2 then
      Alike (linePixels x1 y1 x2 y2) (linePixels x2 y2 x1 y1) ∧
        Alike (linePixels x2 y2 x1 y1) (linePixels x1 y1 x2 y2)
    else
      Alike ((linePixels x1 y1 x2 y2).map Prod.swap) ((linePixels x2 y2 x1 y1).map Prod.swap) ∧
        Alike ((linePixels x2 y2 x1 y1).map Prod.swap) ((linePixels x1 y1 x2 y2).map Prod.swap)

/-- The points are the same; or the loop does not end at the greatest word, no difference is `2 ^ 31`,
and the product of the differences is a signed word. -/
def CanDrawLine (x1 y1 x2 y2 : Int32) : Prop :=
  let dx := x2.toInt - x1.toInt
  let dy := y2.toInt - y1.toInt
  (x1 = x2 ∧ y1 = y2) ∨
    (if Wide x1 y1 x2 y2 then max x1 x2 else max y1 y2) ≠ Int32.maxValue ∧
      |dx| ≠ 2 ^ 31 ∧ |dy| ≠ 2 ^ 31 ∧ |dx * dy| < 2 ^ 31

/-! ### The loop -/

variable {a b last da db : Int32} {n t : ℕ}

lemma toInt_maxValue : Int32.maxValue.toInt = 2 ^ 31 - 1 := rfl

/-- The counter after `t` steps that do not wrap around. -/
lemma toInt_add_ofNat (h : a.toInt + t < 2 ^ 31) : (a + .ofNat t).toInt = a.toInt + t := by
  have hle := a.le_toInt
  have hlt := a.toInt_lt
  rw [Int32.toInt_add, Int32.toInt_ofNat', show Int32.size = 2 ^ 32 from rfl, Int.add_bmod_bmod,
    Int.bmod_eq_of_le] <;> omega

lemma through_eq (hlast : last ≠ Int32.maxValue) (fuel : ℕ) (a : Int32)
    (hfuel : (last.toInt - a.toInt + 1).toNat ≤ fuel) :
    through last fuel a = (List.range (last.toInt - a.toInt + 1).toNat).map fun t => a + .ofNat t := by
  induction fuel generalizing a with
  | zero => rw [Nat.le_zero.mp hfuel]; rfl
  | succ fuel ih =>
    have hmax : last.toInt < 2 ^ 31 - 1 := by
      have hne : last.toInt ≠ 2 ^ 31 - 1 := fun h => hlast (Int32.toInt_inj.mp (h.trans toInt_maxValue.symm))
      have hlt := last.toInt_lt
      omega
    rw [through]
    split_ifs with hle
    · rw [Int32.le_iff_toInt_le] at hle
      have hnext : (a + 1).toInt = a.toInt + 1 := toInt_add_ofNat (t := 1) (by omega)
      have hcount : (last.toInt - a.toInt + 1).toNat = (last.toInt - (a + 1).toInt + 1).toNat + 1 := by omega
      rw [ih _ (by omega), hcount, List.range_succ_eq_map, List.map_cons, List.map_map]
      congr 1
      · exact (Int32.add_zero a).symm
      · refine List.map_congr_left fun t _ => ?_
        rw [Function.comp_apply, Nat.succ_eq_add_one, Int32.ofNat_add]
        grind
    · rw [Std.not_le, Int32.lt_iff_toInt_lt] at hle
      rw [show (last.toInt - a.toInt + 1).toNat = 0 by omega]
      rfl

/-- A loop that does not end at the greatest word goes once through its values. -/
lemma fromTo_eq (hlast : last ≠ Int32.maxValue) :
    fromTo a last = (List.range (last.toInt - a.toInt + 1).toNat).map fun t => a + .ofNat t := by
  refine through_eq hlast _ a ?_
  have hle := a.le_toInt
  have hlt := last.toInt_lt
  omega

/-- The loop ends exactly when its last value is not the greatest word. -/
lemma exists_lt_iff (hle : a ≤ last) : (∃ n : ℕ, last < a + .ofNat n) ↔ last ≠ Int32.maxValue := by
  constructor
  · rintro ⟨n, hn⟩ rfl
    exact Std.not_lt.mpr (Int32.le_maxValue _) hn
  · intro hlast
    have hne : last.toInt ≠ 2 ^ 31 - 1 := fun h => hlast (Int32.toInt_inj.mp (h.trans toInt_maxValue.symm))
    have hlt := last.toInt_lt
    rw [Int32.le_iff_toInt_le] at hle
    refine ⟨(last.toInt - a.toInt + 1).toNat, ?_⟩
    rw [Int32.lt_iff_toInt_lt, toInt_add_ofNat] <;> omega

/-- The calls of a loop from `a` to `last`, where the other coordinate is `b` at `a`. -/
def sweep (a b last da db : Int32) : List (Int32 × Int32) :=
  (fromTo a last).map fun x => (x, db * (x - a) / da + b)

/-- The loop along one axis, from the lower of two endpoints to the other. -/
def sweepBetween (a₁ b₁ a₂ b₂ : Int32) : List (Int32 × Int32) :=
  if a₁ > a₂ then sweep a₂ b₂ a₁ (a₂ - a₁) (b₂ - b₁) else sweep a₁ b₁ a₂ (a₂ - a₁) (b₂ - b₁)

lemma linePixels_eq (x1 y1 x2 y2 : Int32) : linePixels x1 y1 x2 y2 =
    if x2 - x1 = 0 ∧ y2 - y1 = 0 then [(x1, y1)]
    else if (x2 - x1).abs > (y2 - y1).abs then sweepBetween x1 y1 x2 y2
    else (sweepBetween y1 x1 y2 x2).map Prod.swap := by
  rw [linePixels, sweepBetween, sweepBetween]
  dsimp only
  split_ifs
  · rfl
  · rfl
  · rfl
  · rw [sweep, List.map_map]; rfl
  · rw [sweep, List.map_map]; rfl

/-- The other coordinate after `t` steps, as an integer; the product and the quotient wrap around. -/
def offset (da db : ℤ) (t : ℕ) : ℤ := (Int.bmod (db * t) (2 ^ 32)).tdiv da

/-- The call after `t` steps. -/
def point (a b da db : Int32) (t : ℕ) : Int32 × Int32 :=
  (a + .ofNat t, db * (a + .ofNat t - a) / da + b)

lemma toInt_point : (point a b da db t).2.toInt = Int.bmod (offset da.toInt db.toInt t + b.toInt) (2 ^ 32) := by
  have ht : a + Int32.ofNat t - a = Int32.ofNat t := by grind
  rw [point, ht, Int32.toInt_add, Int32.toInt_div, Int32.toInt_mul, Int32.toInt_ofNat',
    show Int32.size = 2 ^ 32 from rfl, Int.mul_bmod_bmod, Int.bmod_add_bmod]
  rfl

lemma sweep_eq (hlast : last ≠ Int32.maxValue) :
    sweep a b last da db = (List.range (last.toInt - a.toInt + 1).toNat).map (point a b da db) := by
  rw [sweep, fromTo_eq hlast, List.map_map]
  rfl

lemma mem_sweep (hlast : last ≠ Int32.maxValue) {q : Int32 × Int32} :
    q ∈ sweep a b last da db ↔ ∃ t : ℕ, (t : ℤ) ≤ last.toInt - a.toInt ∧ point a b da db t = q := by
  rw [sweep_eq hlast, List.mem_map]
  refine exists_congr fun t => and_congr_left fun _ => ?_
  rw [List.mem_range]
  omega

/-! ### Lines without overflow -/

variable {A B x : ℤ}

/-- A quotient that is rounded towards zero. -/
lemma tdiv_cases (hA : 0 < A) : ∃ r, A * x.tdiv A + r = x ∧
    (0 ≤ x → 0 ≤ x.tdiv A ∧ 0 ≤ r) ∧ (x ≤ 0 → x.tdiv A ≤ 0 ∧ r ≤ 0) ∧ -A < r ∧ r < A := by
  refine ⟨x.tmod A, Int.mul_tdiv_add_tmod x A, fun hx => ?_, fun hx => ?_, Int.lt_tmod_of_pos x hA,
    Int.tmod_lt_of_pos x hA⟩
  · exact ⟨Int.tdiv_nonneg hx hA.le, Int.tmod_nonneg A hx⟩
  · have hq := Int.tdiv_nonneg (Int.neg_nonneg_of_nonpos hx) hA.le
    have hr := Int.tmod_nonneg A (Int.neg_nonneg_of_nonpos hx)
    rw [Int.neg_tdiv] at hq
    rw [Int.neg_tmod] at hr
    omega

/-- The line stays between its ends. -/
lemma tdiv_between (hA : 0 < A) (ht : (t : ℤ) ≤ A) :
    min 0 B ≤ (B * t).tdiv A ∧ (B * t).tdiv A ≤ max 0 B := by
  obtain ⟨r, hr, hpos, hneg, -⟩ := tdiv_cases (x := B * t) hA
  have ht₀ := Int.natCast_nonneg t
  rcases Int.le_total 0 B with hB | hB
  · obtain ⟨hq, hr₀⟩ := hpos (Int.mul_nonneg hB ht₀)
    have hle : A * (B * t).tdiv A ≤ A * B := by nlinarith
    have := Int.le_of_mul_le_mul_left hle hA
    omega
  · obtain ⟨hq, hr₀⟩ := hneg (Int.mul_nonpos_of_nonpos_of_nonneg hB ht₀)
    have hle : A * B ≤ A * (B * t).tdiv A := by nlinarith
    have := Int.le_of_mul_le_mul_left hle hA
    omega

/-- The line goes on by at most 1. -/
lemma tdiv_step (hA : 0 < A) (hB : |B| ≤ A) :
    |(B * (t + 1 : ℕ)).tdiv A - (B * t).tdiv A| ≤ 1 := by
  obtain ⟨r, hr, hpos, hneg, hr₁, hr₂⟩ := tdiv_cases (x := B * t) hA
  obtain ⟨r', hr', hpos', hneg', hr₁', hr₂'⟩ := tdiv_cases (x := B * (t + 1 : ℕ)) hA
  have ht₀ := Int.natCast_nonneg t
  rw [abs_le] at hB
  have hsum : A * ((B * (t + 1 : ℕ)).tdiv A - (B * t).tdiv A) = B + r - r' := by
    push_cast at *
    linarith
  have hbounds : A * -2 < B + r - r' ∧ B + r - r' < A * 2 := by
    rcases Int.le_total 0 B with hB₀ | hB₀
    · have h₁ := (hpos (Int.mul_nonneg hB₀ ht₀)).2
      have h₂ := (hpos' (Int.mul_nonneg hB₀ (Int.natCast_nonneg _))).2
      omega
    · have h₁ := (hneg (Int.mul_nonpos_of_nonpos_of_nonneg hB₀ ht₀)).2
      have h₂ := (hneg' (Int.mul_nonpos_of_nonpos_of_nonneg hB₀ (Int.natCast_nonneg _))).2
      omega
  rw [← hsum] at hbounds
  have hlo := Int.lt_of_mul_lt_mul_left hbounds.1 hA.le
  have hhi := Int.lt_of_mul_lt_mul_left hbounds.2 hA.le
  rw [abs_le]
  exact ⟨hlo, Int.le_of_lt_add_one hhi⟩

/-- A loop whose divisions are exact draws the line. -/
lemma traces_of_offset {a₀ b₀ a₁ b₁ : Int32} (hlt : a₀ < a₁) (hlast : a₁ ≠ Int32.maxValue)
    (hB : |b₁.toInt - b₀.toInt| ≤ a₁.toInt - a₀.toInt)
    (hoffset : ∀ t : ℕ, (t : ℤ) ≤ a₁.toInt - a₀.toInt →
      offset da.toInt db.toInt t = ((b₁.toInt - b₀.toInt) * t).tdiv (a₁.toInt - a₀.toInt)) :
    Traces (sweep a₀ b₀ a₁ da db) a₀ b₀ a₁ b₁ := by
  rw [Int32.lt_iff_toInt_lt] at hlt
  have hA : 0 < a₁.toInt - a₀.toInt := by omega
  have h₁ := a₁.toInt_lt
  have hfst : ∀ t : ℕ, (t : ℤ) ≤ a₁.toInt - a₀.toInt → (point a₀ b₀ da db t).1.toInt = a₀.toInt + t :=
    fun t ht => toInt_add_ofNat (by omega)
  have hsnd : ∀ t : ℕ, (t : ℤ) ≤ a₁.toInt - a₀.toInt → (point a₀ b₀ da db t).2.toInt =
      b₀.toInt + ((b₁.toInt - b₀.toInt) * t).tdiv (a₁.toInt - a₀.toInt) := by
    intro t ht
    have hbetween := tdiv_between (B := b₁.toInt - b₀.toInt) hA ht
    have hb₀ := b₀.le_toInt
    have hb₀' := b₀.toInt_lt
    have hb₁ := b₁.le_toInt
    have hb₁' := b₁.toInt_lt
    rw [toInt_point, hoffset t ht, Int.bmod_eq_of_le] <;> omega
  have hcoords : ∀ q ∈ sweep a₀ b₀ a₁ da db, ∃ t : ℕ, (t : ℤ) ≤ a₁.toInt - a₀.toInt ∧
      q.1.toInt = a₀.toInt + t ∧
      q.2.toInt = b₀.toInt + ((b₁.toInt - b₀.toInt) * t).tdiv (a₁.toInt - a₀.toInt) := by
    intro q hq
    obtain ⟨t, ht, rfl⟩ := (mem_sweep hlast).mp hq
    exact ⟨t, ht, hfst t ht, hsnd t ht⟩
  constructor
  case ends =>
    have hpoint : ∀ (t : ℕ) (a b : Int32), (t : ℤ) ≤ a₁.toInt - a₀.toInt → a.toInt = a₀.toInt + t →
        b.toInt = b₀.toInt + ((b₁.toInt - b₀.toInt) * t).tdiv (a₁.toInt - a₀.toInt) →
        (a, b) ∈ sweep a₀ b₀ a₁ da db := by
      intro t a b ht ha hb
      refine (mem_sweep hlast).mpr ⟨t, ht, Prod.ext ?_ ?_⟩
      · exact Int32.toInt_inj.mp ((hfst t ht).trans ha.symm)
      · exact Int32.toInt_inj.mp ((hsnd t ht).trans hb.symm)
    constructor
    · exact hpoint 0 a₀ b₀ hA.le (by simp) (by simp)
    · apply hpoint (a₁.toInt - a₀.toInt).toNat a₁ b₁ <;> rw [Int.toNat_of_nonneg hA.le]
      · omega
      · rw [Int.mul_tdiv_cancel _ hA.ne']
        omega
  case within =>
    intro q hq
    obtain ⟨t, ht, hq₁, -⟩ := hcoords q hq
    omega
  case once =>
    intro a ha₀ ha₁
    rw [Int.min_eq_left hlt.le] at ha₀
    rw [Int.max_eq_right hlt.le] at ha₁
    have hnodup : ((sweep a₀ b₀ a₁ da db).map Prod.fst).Nodup := by
      rw [sweep_eq hlast, List.map_map]
      refine List.Nodup.map_on ?_ List.nodup_range
      intro t ht t' ht' heq
      rw [List.mem_range] at ht ht'
      have := hfst t (by omega)
      have := hfst t' (by omega)
      have : (point a₀ b₀ da db t).1.toInt = (point a₀ b₀ da db t').1.toInt := congrArg Int32.toInt heq
      omega
    refine List.count_eq_one_of_mem hnodup (List.mem_map.mpr ?_)
    have ht : ((a.toInt - a₀.toInt).toNat : ℤ) ≤ a₁.toInt - a₀.toInt := by omega
    refine ⟨_, (mem_sweep hlast).mpr ⟨_, ht, rfl⟩, Int32.toInt_inj.mp ?_⟩
    rw [hfst _ ht]
    omega
  case connected =>
    rw [sweep_eq hlast, List.isChain_map, List.isChain_range]
    intro t ht
    rw [hsnd t (by omega), hsnd t.succ (by omega), Int.add_sub_add_left]
    exact tdiv_step hA hB
  case near =>
    intro q hq
    obtain ⟨t, ht, hq₁, hq₂⟩ := hcoords q hq
    obtain ⟨r, hr, -, -, hr₁, hr₂⟩ := tdiv_cases (x := (b₁.toInt - b₀.toInt) * t) hA
    rw [hq₁, hq₂, abs_of_pos hA, abs_le]
    constructor <;> nlinarith

/-! ### Overflow -/

variable {σ : ℤ}

lemma bmod_of_small (h : -2 ^ 31 ≤ x ∧ x < 2 ^ 31) : Int.bmod x (2 ^ 32) = x := by
  rw [Int.bmod_eq_of_le] <;> omega

/-- Which endpoint comes first makes no difference to an exact division. -/
lemma tdiv_sign (hσ : σ = 1 ∨ σ = -1) (x y : ℤ) : (σ * x).tdiv (σ * y) = x.tdiv y := by
  rcases hσ with rfl | rfl
  · rw [Int.one_mul, Int.one_mul]
  · rw [Int.neg_one_mul, Int.neg_one_mul, Int.neg_tdiv_neg]

/-- The differences wrap around, in either order of the endpoints. -/
lemma offset_bmod (σ A B : ℤ) (t : ℕ) : offset (Int.bmod (σ * A) (2 ^ 32)) (Int.bmod (σ * B) (2 ^ 32)) t =
    (Int.bmod (σ * (B * t)) (2 ^ 32)).tdiv (Int.bmod (σ * A) (2 ^ 32)) := by
  rw [offset, Int.bmod_mul_bmod, Int.mul_assoc]

lemma bmod_sign (hσ : σ = 1 ∨ σ = -1) (h : |x| < 2 ^ 31) : Int.bmod (σ * x) (2 ^ 32) = σ * x := by
  rw [abs_lt] at h
  apply bmod_of_small
  rcases hσ with rfl | rfl <;> omega

/-- The divisions are exact when nothing overflows, or when the line is parallel to the axis. -/
lemma offset_eq (hσ : σ = 1 ∨ σ = -1) (hA : 0 < A) (hAB : |A * B| < 2 ^ 31)
    (ht : (t : ℤ) ≤ A) :
    offset (Int.bmod (σ * A) (2 ^ 32)) (Int.bmod (σ * B) (2 ^ 32)) t = (B * t).tdiv A := by
  rw [offset_bmod]
  rw [abs_mul, abs_of_pos hA] at hAB
  by_cases hB : B = 0
  · rw [hB, Int.zero_mul, Int.mul_zero, Int.zero_bmod, Int.zero_tdiv, Int.zero_tdiv]
  · have hB₁ : 1 ≤ |B| := Int.one_le_abs hB
    have hprod : |B * t| < 2 ^ 31 := by
      rw [abs_mul, abs_of_nonneg (Int.natCast_nonneg t)]
      nlinarith
    have hsmall : |A| < 2 ^ 31 := by
      rw [abs_of_pos hA]
      nlinarith
    rw [bmod_sign hσ hprod, bmod_sign hσ hsmall, tdiv_sign hσ]

/-- A quotient is no longer than the dividend divided by the length of the divisor. -/
lemma abs_tdiv_mul_le (x y : ℤ) : |x.tdiv y| * |y| ≤ |x| := by
  rw [Int.abs_eq_natAbs, Int.abs_eq_natAbs, Int.abs_eq_natAbs, Int.natAbs_tdiv]
  exact_mod_cast Nat.div_mul_le_self x.natAbs y.natAbs

lemma abs_sign (hσ : σ = 1 ∨ σ = -1) (x : ℤ) : |σ * x| = |x| := by
  rcases hσ with rfl | rfl
  · rw [Int.one_mul]
  · rw [Int.neg_one_mul, abs_neg]

lemma abs_bmod_le (x : ℤ) : |Int.bmod x (2 ^ 32)| ≤ 2 ^ 31 := by
  rw [abs_le, Int.bmod_def]
  omega

lemma abs_le_one (hA : 0 < A) (h : |x * A| ≤ A) : |x| ≤ 1 := by
  rw [abs_mul, abs_of_pos hA] at h
  exact Int.le_of_mul_le_mul_right (by rwa [Int.one_mul]) hA

/-- What a loop that draws a line does after `t` steps, with the wrapping around of coordinates. -/
structure Near (σ A B : ℤ) : Prop where
  ends : ∃ k : ℤ, offset (Int.bmod (σ * A) (2 ^ 32)) (Int.bmod (σ * B) (2 ^ 32)) A.toNat + 2 ^ 32 * k = B
  near : ∀ t : ℕ, (t : ℤ) ≤ A → ∃ k : ℤ,
    |offset (Int.bmod (σ * A) (2 ^ 32)) (Int.bmod (σ * B) (2 ^ 32)) t + 2 ^ 32 * k| < 2 ^ 32 ∧
    |(offset (Int.bmod (σ * A) (2 ^ 32)) (Int.bmod (σ * B) (2 ^ 32)) t + 2 ^ 32 * k) * A - t * B| ≤ A

lemma Near.ends_eq (h : Near σ A B) (hA : 0 < A) (hB : |B| < 2 ^ 31) :
    (Int.bmod (σ * (B * A)) (2 ^ 32)).tdiv (Int.bmod (σ * A) (2 ^ 32)) = B ∧
      |B| * |Int.bmod (σ * A) (2 ^ 32)| ≤ 2 ^ 31 := by
  obtain ⟨k, hend⟩ := h.ends
  rw [offset_bmod, Int.toNat_of_nonneg hA.le] at hend
  have hproduct := abs_bmod_le (σ * (B * A))
  have hquotient := abs_tdiv_mul_le (Int.bmod (σ * (B * A)) (2 ^ 32)) (Int.bmod (σ * A) (2 ^ 32))
  have hle := Int.natAbs_tdiv_le_natAbs (Int.bmod (σ * (B * A)) (2 ^ 32)) (Int.bmod (σ * A) (2 ^ 32))
  obtain rfl : k = 0 := by
    rw [abs_le] at hproduct
    rw [abs_lt] at hB
    omega
  rw [Int.mul_zero, Int.add_zero] at hend
  rw [hend] at hquotient
  exact ⟨hend, hquotient.trans hproduct⟩

/-- A difference of `2 ^ 31` along the shorter axis: nothing is added in two steps. -/
lemma Near.shorter_ne (h : Near σ A B) (hσ : σ = 1 ∨ σ = -1) (hA : 2 ^ 31 ≤ A) (hA' : A < 2 ^ 32)
    (hB : |B| = 2 ^ 31) : False := by
  obtain ⟨k, hk, hnear⟩ := h.near 2 (by omega)
  have hzero : offset (Int.bmod (σ * A) (2 ^ 32)) (Int.bmod (σ * B) (2 ^ 32)) 2 = 0 := by
    have hproduct : Int.bmod (σ * (B * (2 : ℕ))) (2 ^ 32) = 0 := by
      rw [abs_eq (by decide)] at hB
      rcases hσ with rfl | rfl <;> rcases hB with rfl | rfl <;> rfl
    rw [offset_bmod, hproduct, Int.zero_tdiv]
  rw [hzero] at hk hnear
  rw [abs_lt] at hk
  obtain rfl : k = 0 := by omega
  rw [abs_le] at hnear
  rw [abs_eq (by decide)] at hB
  omega

lemma bmod_long (hσ : σ = 1 ∨ σ = -1) (hA : 2 ^ 31 < A) (hA' : A < 2 ^ 32) :
    Int.bmod (σ * A) (2 ^ 32) = σ * (A - 2 ^ 32) := by
  rw [Int.bmod_def]
  rcases hσ with rfl | rfl <;> omega

/-- Both differences wrap around, by the same amount. Halfway the product is 0 or the least word. -/
lemma Near.shorter_lt (h : Near σ A B) (hσ : σ = 1 ∨ σ = -1) (hA : 2 ^ 31 < A) (hA' : A < 2 ^ 32 - 1)
    (hB : |B| = A) : False := by
  obtain ⟨k, -, hnear⟩ := h.near (2 ^ 31) (by omega)
  have hquotient := abs_tdiv_mul_le (Int.bmod (σ * (B * (2 ^ 31 : ℕ))) (2 ^ 32)) (Int.bmod (σ * A) (2 ^ 32))
  rw [← offset_bmod] at hquotient
  have hproduct := abs_bmod_le (σ * (B * (2 ^ 31 : ℕ)))
  have hdivisor : 2 ≤ |Int.bmod (σ * A) (2 ^ 32)| := by
    rw [bmod_long hσ hA (by omega), le_abs]
    rcases hσ with rfl | rfl <;> omega
  generalize offset (Int.bmod (σ * A) (2 ^ 32)) (Int.bmod (σ * B) (2 ^ 32)) (2 ^ 31) = q at *
  have hq : |q| ≤ 2 ^ 30 := by nlinarith [abs_nonneg q]
  have hend : |q + 2 ^ 32 * k - 2 ^ 31| ≤ 1 ∨ |q + 2 ^ 32 * k + 2 ^ 31| ≤ 1 := by
    rw [abs_eq (by omega)] at hB
    rcases hB with rfl | rfl
    · refine .inl (abs_le_one (A := B) (by omega) ?_)
      convert hnear using 2
      push_cast
      ring
    · refine .inr (abs_le_one (A := A) (by omega) ?_)
      convert hnear using 2
      push_cast
      ring
  simp only [abs_le] at hq hend
  omega

/-- Only the difference along the longer axis wraps around. -/
lemma Near.longer_lt (h : Near σ A B) (hσ : σ = 1 ∨ σ = -1) (hA : 2 ^ 31 < A) (hA' : A < 2 ^ 32 - 1)
    (hB : B ≠ 0) (hB' : |B| < 2 ^ 31) : False := by
  obtain ⟨c, hc⟩ : ∃ c : ℕ, (c : ℤ) = 2 ^ 32 - A := ⟨(2 ^ 32 - A).toNat, by omega⟩
  have hdivisor : Int.bmod (σ * A) (2 ^ 32) = σ * -c := by
    rw [bmod_long hσ hA (by omega), hc, Int.neg_sub]
  have hlength := (h.ends_eq (by omega) hB').2
  rw [hdivisor, abs_sign hσ, abs_neg, Nat.abs_cast] at hlength
  obtain ⟨k, hk, hnear⟩ := h.near c (by omega)
  rw [offset_bmod, hdivisor] at hk hnear
  by_cases hover : σ * (B * c) = 2 ^ 31
  · -- the product is the least word
    have hwrap : Int.bmod (σ * (B * c)) (2 ^ 32) = σ * (B * -c) := by
      rw [Int.mul_neg, Int.mul_neg, hover]
      rfl
    rw [hwrap, tdiv_sign hσ, Int.mul_tdiv_cancel _ (by omega)] at hk hnear
    have hexact : |B * c| = 2 ^ 31 := by
      rw [← abs_sign hσ, hover]
      rfl
    have htwo : 2 ≤ |B + 2 ^ 32 * k| := by
      have hone : ¬|B| = 1 := by
        intro hone
        rw [abs_mul, hone, Int.one_mul, Nat.abs_cast] at hexact
        omega
      rw [abs_eq (by decide), not_or] at hone
      rw [abs_lt] at hB'
      rw [le_abs]
      omega
    have hlong : |(B + 2 ^ 32 * k) * A| ≤ A + 2 ^ 31 := by
      have hsub := abs_sub_abs_le_abs_sub ((B + 2 ^ 32 * k) * A) (c * B)
      rw [mul_comm (c : ℤ) B, hexact] at hsub
      rw [mul_comm (c : ℤ) B] at hnear
      omega
    rw [abs_mul, abs_of_pos (show 0 < A by omega)] at hlong
    nlinarith
  · -- the line goes the other way
    have hwrap : Int.bmod (σ * (B * c)) (2 ^ 32) = σ * (-B * -c) := by
      rw [Int.neg_mul_neg]
      apply bmod_of_small
      rw [← Nat.abs_cast, ← abs_mul, ← abs_sign hσ, abs_le] at hlength
      exact ⟨hlength.1, lt_of_le_of_ne hlength.2 hover⟩
    rw [hwrap, tdiv_sign hσ, Int.mul_tdiv_cancel _ (by omega)] at hnear
    have hmultiple : (-B + 2 ^ 32 * k) * A - c * B = 2 ^ 32 * (k * A - B) := by
      rw [hc]
      ring
    rw [hmultiple, abs_le] at hnear
    have hzero : k * A = B := by omega
    have hk₀ : k = 0 := by
      by_contra hk₀
      have hle : |A| ≤ |B| := by
        rw [← hzero, abs_mul]
        nlinarith [Int.one_le_abs hk₀, abs_nonneg A]
      rw [abs_of_pos (show 0 < A by omega)] at hle
      omega
    rw [hk₀, Int.zero_mul] at hzero
    exact hB hzero.symm

/-- No difference wraps around. -/
lemma Near.product_le (h : Near σ A B) (hσ : σ = 1 ∨ σ = -1) (hA : 0 < A) (hA' : A < 2 ^ 31)
    (hB : |B| ≤ A) : |A * B| < 2 ^ 31 ∨ σ * (B * A) = -2 ^ 31 := by
  have hlength : |A| < 2 ^ 31 := by rwa [abs_of_pos hA]
  obtain ⟨hend, hquotient⟩ := h.ends_eq hA (hB.trans_lt hA')
  rw [bmod_sign hσ hlength] at hend hquotient
  rw [abs_sign hσ, abs_of_pos hA] at hquotient
  by_cases hsmall : |A * B| < 2 ^ 31
  · exact .inl hsmall
  have hexact : |B * A| = 2 ^ 31 := by
    rw [abs_mul, abs_of_pos hA]
    rw [mul_comm, abs_mul, abs_of_pos hA] at hsmall
    omega
  refine .inr (Decidable.of_not_not fun hne => ?_)
  have hover : σ * (B * A) = 2 ^ 31 := by
    rw [← abs_sign hσ, abs_eq (by decide)] at hexact
    exact hexact.resolve_right hne
  -- the product is the least word, and the line goes the other way
  have hwrap : Int.bmod (σ * (B * A)) (2 ^ 32) = σ * (-B * A) := by
    rw [Int.neg_mul, Int.mul_neg, hover]
    rfl
  rw [hwrap, tdiv_sign hσ, Int.mul_tdiv_cancel _ hA.ne'] at hend
  obtain rfl : B = 0 := by omega
  simp at hexact

variable {a₀ b₀ a₁ b₁ : Int32}

lemma exists_toInt_point (a b da db : Int32) (t : ℕ) : ∃ k : ℤ,
    (point a b da db t).2.toInt - b.toInt = offset da.toInt db.toInt t + 2 ^ 32 * k := by
  obtain ⟨k, hk⟩ := Int.dvd_bmod_sub_self (x := offset da.toInt db.toInt t + b.toInt) (m := 2 ^ 32)
  refine ⟨k, ?_⟩
  rw [toInt_point]
  omega

lemma Traces.near_sweep (hlt : a₀ < a₁) (hlast : a₁ ≠ Int32.maxValue)
    (hda : da.toInt = Int.bmod (σ * (a₁.toInt - a₀.toInt)) (2 ^ 32))
    (hdb : db.toInt = Int.bmod (σ * (b₁.toInt - b₀.toInt)) (2 ^ 32))
    (h : Traces (sweep a₀ b₀ a₁ da db) a₀ b₀ a₁ b₁) :
    Near σ (a₁.toInt - a₀.toInt) (b₁.toInt - b₀.toInt) := by
  rw [Int32.lt_iff_toInt_lt] at hlt
  have hfst : ∀ t : ℕ, (t : ℤ) ≤ a₁.toInt - a₀.toInt → (point a₀ b₀ da db t).1.toInt = a₀.toInt + t := by
    intro t ht
    have h₁ := a₁.toInt_lt
    exact toInt_add_ofNat (by omega)
  constructor
  case ends =>
    obtain ⟨t, ht, hpoint⟩ := (mem_sweep hlast).mp h.ends.2
    have hsteps := hfst t ht
    rw [hpoint] at hsteps
    obtain rfl : t = (a₁.toInt - a₀.toInt).toNat := by
      change a₁.toInt = _ at hsteps
      omega
    obtain ⟨k, hk⟩ := exists_toInt_point a₀ b₀ da db (a₁.toInt - a₀.toInt).toNat
    rw [hpoint, hda, hdb] at hk
    exact ⟨k, hk.symm⟩
  case near =>
    intro t ht
    have hnear := h.near _ ((mem_sweep hlast).mpr ⟨t, ht, rfl⟩)
    obtain ⟨k, hk⟩ := exists_toInt_point a₀ b₀ da db t
    have hb := b₀.le_toInt
    have hb' := b₀.toInt_lt
    have hp := (point a₀ b₀ da db t).2.le_toInt
    have hp' := (point a₀ b₀ da db t).2.toInt_lt
    refine ⟨k, ?_, ?_⟩
    · rw [← hda, ← hdb, ← hk, abs_lt]
      omega
    · rw [hk, hfst t ht, add_sub_cancel_left, hda, hdb] at hnear
      rwa [abs_of_pos (show 0 < a₁.toInt - a₀.toInt by omega)] at hnear

/-! ### One axis -/

lemma Alike.refl (l : List (Int32 × Int32)) : Alike l l := by
  intro q hq
  exact ⟨q, hq, rfl, by simp⟩

/-- The calls depend on the offsets only. -/
lemma sweep_congr {da' db' : Int32} (hlast : last ≠ Int32.maxValue)
    (h : ∀ t : ℕ, (t : ℤ) ≤ last.toInt - a.toInt →
      offset da.toInt db.toInt t = offset da'.toInt db'.toInt t) :
    sweep a b last da db = sweep a b last da' db' := by
  rw [sweep_eq hlast, sweep_eq hlast]
  refine List.map_congr_left fun t ht => Prod.ext rfl (Int32.toInt_inj.mp ?_)
  rw [List.mem_range] at ht
  rw [toInt_point, toInt_point, h t (by omega)]

lemma neg_sign (hσ : σ = 1 ∨ σ = -1) : -σ = 1 ∨ -σ = -1 := by
  rcases hσ with rfl | rfl
  · exact .inr rfl
  · exact .inl rfl

/-- The product that is the least word in one order of the endpoints overflows in the other one, and the
lines are not the same. -/
lemma Alike.product_ne {da' db' : Int32} (hσ : σ = 1 ∨ σ = -1) (hlt : a₀ < a₁)
    (hlast : a₁ ≠ Int32.maxValue) (hA : a₁.toInt - a₀.toInt < 2 ^ 31)
    (hB : |b₁.toInt - b₀.toInt| < 2 ^ 31)
    (hda' : da'.toInt = Int.bmod (-σ * (a₁.toInt - a₀.toInt)) (2 ^ 32))
    (hdb' : db'.toInt = Int.bmod (-σ * (b₁.toInt - b₀.toInt)) (2 ^ 32))
    (hends : (a₁, b₁) ∈ sweep a₀ b₀ a₁ da db)
    (h : Alike (sweep a₀ b₀ a₁ da db) (sweep a₀ b₀ a₁ da' db')) :
    σ * ((b₁.toInt - b₀.toInt) * (a₁.toInt - a₀.toInt)) ≠ -2 ^ 31 := by
  intro hproduct
  rw [Int32.lt_iff_toInt_lt] at hlt
  have h₁ := a₁.toInt_lt
  obtain ⟨q, hq, hfst, hsnd⟩ := h _ hends
  obtain ⟨t, ht, rfl⟩ := (mem_sweep hlast).mp hq
  have hsteps : (point a₀ b₀ da' db' t).1.toInt = a₀.toInt + t := toInt_add_ofNat (by omega)
  rw [hfst] at hsteps
  obtain rfl : t = (a₁.toInt - a₀.toInt).toNat := by
    change a₁.toInt = _ at hsteps
    omega
  obtain ⟨k, hk⟩ := exists_toInt_point a₀ b₀ da' db' (a₁.toInt - a₀.toInt).toNat
  rw [hda', hdb', offset_bmod, Int.toNat_of_nonneg (by omega)] at hk
  have hwrap : Int.bmod (-σ * ((b₁.toInt - b₀.toInt) * (a₁.toInt - a₀.toInt))) (2 ^ 32) =
      -σ * (-(b₁.toInt - b₀.toInt) * (a₁.toInt - a₀.toInt)) := by
    rw [Int.neg_mul, Int.neg_mul, Int.neg_mul, Int.mul_neg, hproduct]
    rfl
  have hsmall : |a₁.toInt - a₀.toInt| < 2 ^ 31 := by
    rw [abs_lt]
    omega
  rw [hwrap, bmod_sign (neg_sign hσ) hsmall, tdiv_sign (neg_sign hσ), Int.mul_tdiv_cancel _ (by omega)] at hk
  rw [abs_lt] at hB
  rw [abs_le] at hsnd
  have hzero : b₁.toInt - b₀.toInt = 0 := by
    change -1 ≤ _ - b₁.toInt ∧ _ - b₁.toInt ≤ 1 at hsnd
    omega
  rw [hzero, Int.zero_mul, Int.mul_zero] at hproduct
  exact absurd hproduct (by decide)

/-- The loop from the lower endpoint to the other draws the line, in both orders of the endpoints, exactly
when it does not overflow. -/
lemma traces_sweep_iff {da' db' : Int32} (hσ : σ = 1 ∨ σ = -1) (hlt : a₀ < a₁)
    (hlast : a₁ ≠ Int32.maxValue) (hB : |b₁.toInt - b₀.toInt| ≤ a₁.toInt - a₀.toInt)
    (hA₁ : a₁.toInt - a₀.toInt = 2 ^ 31 → |b₁.toInt - b₀.toInt| = 2 ^ 31)
    (hB₁ : 2 ^ 31 < |b₁.toInt - b₀.toInt| → |b₁.toInt - b₀.toInt| = a₁.toInt - a₀.toInt)
    (hda : da.toInt = Int.bmod (σ * (a₁.toInt - a₀.toInt)) (2 ^ 32))
    (hdb : db.toInt = Int.bmod (σ * (b₁.toInt - b₀.toInt)) (2 ^ 32))
    (hda' : da'.toInt = Int.bmod (-σ * (a₁.toInt - a₀.toInt)) (2 ^ 32))
    (hdb' : db'.toInt = Int.bmod (-σ * (b₁.toInt - b₀.toInt)) (2 ^ 32)) :
    (Traces (sweep a₀ b₀ a₁ da db) a₀ b₀ a₁ b₁ ∧
      Alike (sweep a₀ b₀ a₁ da db) (sweep a₀ b₀ a₁ da' db') ∧
      Alike (sweep a₀ b₀ a₁ da' db') (sweep a₀ b₀ a₁ da db)) ↔
    a₁.toInt - a₀.toInt ≠ 2 ^ 31 ∧ |(a₁.toInt - a₀.toInt) * (b₁.toInt - b₀.toInt)| < 2 ^ 31 := by
  have hpos : 0 < a₁.toInt - a₀.toInt := by
    rw [Int32.lt_iff_toInt_lt] at hlt
    omega
  constructor
  · rintro ⟨htraces, halike, -⟩
    have hnear := htraces.near_sweep hlt hlast hda hdb
    have hbound : a₁.toInt - a₀.toInt < 2 ^ 32 - 1 := by
      have hne : a₁.toInt ≠ 2 ^ 31 - 1 := fun h => hlast (Int32.toInt_inj.mp (h.trans toInt_maxValue.symm))
      have h₀ := a₀.le_toInt
      have h₁ := a₁.toInt_lt
      omega
    have hne : a₁.toInt - a₀.toInt ≠ 2 ^ 31 :=
      fun h => hnear.shorter_ne hσ h.ge (by omega) (hA₁ h)
    refine ⟨hne, ?_⟩
    rcases Int.lt_or_gt_of_ne hne with hsmall | hlong
    · have hproduct := halike.product_ne hσ hlt hlast hsmall (hB.trans_lt hsmall) hda' hdb' htraces.ends.2
      exact (hnear.product_le hσ hpos hsmall hB).resolve_right hproduct
    · rcases lt_trichotomy |b₁.toInt - b₀.toInt| (2 ^ 31) with hb | hb | hb
      · by_cases hzero : b₁.toInt - b₀.toInt = 0
        · rw [hzero, Int.mul_zero]
          decide
        · exact (hnear.longer_lt hσ hlong hbound hzero hb).elim
      · exact (hnear.shorter_ne hσ hlong.le (by omega) hb).elim
      · exact (hnear.shorter_lt hσ hlong hbound (hB₁ hb)).elim
  · rintro ⟨-, hproduct⟩
    have hoffset : ∀ t : ℕ, (t : ℤ) ≤ a₁.toInt - a₀.toInt → offset da.toInt db.toInt t =
        ((b₁.toInt - b₀.toInt) * t).tdiv (a₁.toInt - a₀.toInt) := by
      intro t ht
      rw [hda, hdb, offset_eq hσ hpos hproduct ht]
    have hsame : sweep a₀ b₀ a₁ da' db' = sweep a₀ b₀ a₁ da db := by
      refine sweep_congr hlast fun t ht => ?_
      rw [hoffset t ht, hda', hdb', offset_eq (neg_sign hσ) hpos hproduct ht]
    rw [hsame]
    exact ⟨traces_of_offset hlt hlast hB hoffset, .refl _, .refl _⟩

variable {l : List (Int32 × Int32)} {a₂ b₂ : Int32}

lemma Traces.comm (h : Traces l a₁ b₁ a₂ b₂) : Traces l a₂ b₂ a₁ b₁ := by
  constructor
  case ends => exact h.ends.symm
  case within =>
    intro q hq
    rw [Int.min_comm, Int.max_comm]
    exact h.within q hq
  case once =>
    intro a
    rw [Int.min_comm, Int.max_comm]
    exact h.once a
  case connected => exact h.connected
  case near =>
    intro q hq
    rw [abs_sub_comm a₁.toInt, ← abs_neg]
    convert h.near q hq using 2
    ring

lemma sweepBetween_of_lt (h : a₁ < a₂) :
    sweepBetween a₁ b₁ a₂ b₂ = sweep a₁ b₁ a₂ (a₂ - a₁) (b₂ - b₁) :=
  if_neg (Std.not_lt.mpr (Std.le_of_lt h))

lemma sweepBetween_of_gt (h : a₂ < a₁) :
    sweepBetween a₁ b₁ a₂ b₂ = sweep a₂ b₂ a₁ (a₂ - a₁) (b₂ - b₁) :=
  if_pos h

/-- A difference of coordinates wraps around. -/
lemma toInt_sub_sign (x y : Int32) : (x - y).toInt = Int.bmod (1 * (x.toInt - y.toInt)) (2 ^ 32) ∧
    (y - x).toInt = Int.bmod (-1 * (x.toInt - y.toInt)) (2 ^ 32) := by
  rw [Int32.toInt_sub, Int32.toInt_sub, Int.one_mul, Int.neg_one_mul, Int.neg_sub]
  exact ⟨rfl, rfl⟩

/-- The same for endpoints in any order. -/
lemma traces_sweepBetween_iff (hne : a₁ ≠ a₂) (hlast : max a₁ a₂ ≠ Int32.maxValue)
    (hB : |b₂.toInt - b₁.toInt| ≤ |a₂.toInt - a₁.toInt|)
    (hA₁ : |a₂.toInt - a₁.toInt| = 2 ^ 31 → |b₂.toInt - b₁.toInt| = 2 ^ 31)
    (hB₁ : 2 ^ 31 < |b₂.toInt - b₁.toInt| → |b₂.toInt - b₁.toInt| = |a₂.toInt - a₁.toInt|) :
    (Traces (sweepBetween a₁ b₁ a₂ b₂) a₁ b₁ a₂ b₂ ∧
      Alike (sweepBetween a₁ b₁ a₂ b₂) (sweepBetween a₂ b₂ a₁ b₁) ∧
      Alike (sweepBetween a₂ b₂ a₁ b₁) (sweepBetween a₁ b₁ a₂ b₂)) ↔
    |a₂.toInt - a₁.toInt| ≠ 2 ^ 31 ∧ |(a₂.toInt - a₁.toInt) * (b₂.toInt - b₁.toInt)| < 2 ^ 31 := by
  rw [show max a₁ a₂ = if a₁ ≤ a₂ then a₂ else a₁ from rfl] at hlast
  rcases Int.lt_or_gt_of_ne fun h => hne (Int32.toInt_inj.mp h) with hlt | hgt
  · have hlength : |a₂.toInt - a₁.toInt| = a₂.toInt - a₁.toInt := abs_of_pos (by omega)
    rw [hlength] at hB hA₁ hB₁ ⊢
    rw [← Int32.lt_iff_toInt_lt] at hlt
    rw [if_pos (Std.le_of_lt hlt)] at hlast
    rw [sweepBetween_of_lt hlt, sweepBetween_of_gt hlt]
    exact traces_sweep_iff (.inl rfl) hlt hlast hB hA₁ hB₁ (toInt_sub_sign _ _).1 (toInt_sub_sign _ _).1
      (toInt_sub_sign _ _).2 (toInt_sub_sign _ _).2
  · have hlength : |a₂.toInt - a₁.toInt| = a₁.toInt - a₂.toInt := by
      rw [abs_sub_comm]
      exact abs_of_pos (by omega)
    have hproduct : (a₂.toInt - a₁.toInt) * (b₂.toInt - b₁.toInt) =
        (a₁.toInt - a₂.toInt) * (b₁.toInt - b₂.toInt) := by ring
    rw [hlength, abs_sub_comm] at hB hA₁ hB₁
    rw [hlength, hproduct]
    rw [← Int32.lt_iff_toInt_lt] at hgt
    rw [if_neg (Std.not_le.mpr hgt)] at hlast
    rw [sweepBetween_of_lt hgt, sweepBetween_of_gt hgt]
    have hiff := traces_sweep_iff (.inr rfl) hgt hlast hB hA₁ hB₁ (toInt_sub_sign _ _).2
      (toInt_sub_sign _ _).2 (toInt_sub_sign _ _).1 (toInt_sub_sign _ _).1
    rw [← hiff]
    exact and_congr_left fun _ => ⟨Traces.comm, Traces.comm⟩

/-- A line has no fewer calls than the longer axis has coordinates. -/
lemma Traces.lt_length (h : Traces l a₁ b₁ a₂ b₂) : |a₂.toInt - a₁.toInt| < l.length := by
  have hlength : |a₂.toInt - a₁.toInt| = max a₁.toInt a₂.toInt - min a₁.toInt a₂.toInt := by
    rw [abs_sub_comm, max_sub_min_eq_abs']
  have hends : ∀ t : ℕ, t < |a₂.toInt - a₁.toInt| + 1 →
      (Int32.ofInt (min a₁.toInt a₂.toInt + t)).toInt = min a₁.toInt a₂.toInt + t := by
    intro t ht
    have h₁ := a₁.le_toInt
    have h₁' := a₁.toInt_lt
    have h₂ := a₂.le_toInt
    have h₂' := a₂.toInt_lt
    apply Int32.toInt_ofInt_of_le <;> omega
  let values := (List.range (|a₂.toInt - a₁.toInt| + 1).toNat).map fun t : ℕ =>
    Int32.ofInt (min a₁.toInt a₂.toInt + t)
  have hnodup : values.Nodup := by
    refine List.Nodup.map_on ?_ List.nodup_range
    intro t ht t' ht' heq
    rw [List.mem_range] at ht ht'
    have h₁ := hends t (by omega)
    have h₂ := hends t' (by omega)
    rw [heq] at h₁
    omega
  have hsubset : values ⊆ l.map Prod.fst := by
    intro a ha
    obtain ⟨t, ht, rfl⟩ := List.mem_map.mp ha
    rw [List.mem_range] at ht
    have ht' := hends t (by omega)
    have honce := h.once (Int32.ofInt (min a₁.toInt a₂.toInt + t)) (by omega) (by omega)
    exact List.count_pos_iff.mp (honce.symm ▸ Nat.one_pos)
  have hle := (hnodup.subperm hsubset).length_le
  rw [List.length_map, List.length_map, List.length_range] at hle
  omega

lemma length_sweepBetween (hlast : max a₁ a₂ ≠ Int32.maxValue) :
    ((sweepBetween a₁ b₁ a₂ b₂).length : ℤ) = |a₂.toInt - a₁.toInt| + 1 := by
  rw [show max a₁ a₂ = if a₁ ≤ a₂ then a₂ else a₁ from rfl] at hlast
  by_cases hle : a₁ ≤ a₂
  · rw [if_pos hle] at hlast
    rw [sweepBetween, if_neg (Std.not_lt.mpr hle), sweep_eq hlast, List.length_map, List.length_range]
    rw [Int32.le_iff_toInt_le] at hle
    rw [abs_of_nonneg (by omega)]
    omega
  · rw [if_neg hle] at hlast
    rw [Std.not_le] at hle
    rw [sweepBetween_of_gt hle, sweep_eq hlast, List.length_map, List.length_range]
    rw [Int32.lt_iff_toInt_lt] at hle
    rw [abs_of_neg (by omega)]
    omega

/-! ### The choice of the axis -/

/-- The absolute value of a difference. -/
lemma abs_sub_cases (x y : Int32) :
    |x.toInt - y.toInt| < 2 ^ 31 ∧ (x - y).abs.toInt = |x.toInt - y.toInt| ∨
      |x.toInt - y.toInt| = 2 ^ 31 ∧ (x - y).abs.toInt = -2 ^ 31 ∨
      2 ^ 31 < |x.toInt - y.toInt| ∧ (x - y).abs.toInt = 2 ^ 32 - |x.toInt - y.toInt| := by
  have habs : (x - y).abs.toInt = if (x - y).toInt = -2 ^ 31 then -2 ^ 31 else ((x - y).toInt.natAbs : ℤ) := by
    have hmin : (x - y).toBitVec = BitVec.intMin 32 ↔ (x - y).toInt = -2 ^ 31 := by
      rw [← BitVec.toInt_inj]
      rfl
    change (x - y).toBitVec.abs.toInt = _
    rw [BitVec.toInt_abs_eq_natAbs]
    simp only [hmin]
    rfl
  have hx := x.le_toInt
  have hx' := x.toInt_lt
  have hy := y.le_toInt
  have hy' := y.toInt_lt
  have hsub : (x - y).toInt = Int.bmod (x.toInt - y.toInt) (2 ^ 32) := Int32.toInt_sub x y
  rw [Int.bmod_def] at hsub
  rw [habs]
  generalize (x - y).toInt = d at hsub ⊢
  rcases le_total 0 (x.toInt - y.toInt) with hle | hle
  · rw [abs_of_nonneg hle]
    split_ifs at hsub ⊢ <;> omega
  · rw [abs_of_nonpos hle]
    split_ifs at hsub ⊢ <;> omega

lemma abs_sub_bounds (x y : Int32) : 0 ≤ |x.toInt - y.toInt| ∧ |x.toInt - y.toInt| < 2 ^ 32 := by
  have hx := x.le_toInt
  have hx' := x.toInt_lt
  have hy := y.le_toInt
  have hy' := y.toInt_lt
  refine ⟨abs_nonneg _, abs_lt.mpr ?_⟩
  omega

/-- A long line with a small product of differences is parallel to an axis. -/
lemma eq_zero_of_long (h : |A * B| < 2 ^ 31) (hB : 2 ^ 31 ≤ |B|) : |A| = 0 := by
  rw [abs_mul] at h
  have hA := abs_nonneg A
  nlinarith

/-- The loop along an axis. -/
def axisLoop (a₁ a₂ : Int32) : Int32 × Int32 × Int32 :=
  if a₁ > a₂ then (a₂, a₁, a₂ - a₁) else (a₁, a₂, a₂ - a₁)

lemma axisLoop_fst_le : (axisLoop a₁ a₂).1 ≤ (axisLoop a₁ a₂).2.1 ∧
    (axisLoop a₁ a₂).2.1 = max a₁ a₂ ∧ (axisLoop a₁ a₂).2.2 = a₂ - a₁ := by
  rw [axisLoop, show max a₁ a₂ = if a₁ ≤ a₂ then a₂ else a₁ from rfl]
  by_cases hle : a₁ ≤ a₂
  · rw [if_neg (Std.not_lt.mpr hle), if_pos hle]
    exact ⟨hle, rfl, rfl⟩
  · rw [if_pos (Std.not_le.mp hle), if_neg hle]
    exact ⟨Std.le_of_lt (Std.not_le.mp hle), rfl, rfl⟩

lemma sub_eq_zero_iff : a₂ - a₁ = 0 ↔ a₁ = a₂ := by grind

/-- What the loop does, and the choice of the axis. -/
lemma terminates_axisLoop : (∃ n : ℕ, (axisLoop a₁ a₂).2.1 < (axisLoop a₁ a₂).1 + .ofNat n) ↔
    max a₁ a₂ ≠ Int32.maxValue := by
  rw [exists_lt_iff axisLoop_fst_le.1, axisLoop_fst_le.2.1]

lemma divides_axisLoop : ((axisLoop a₁ a₂).1 ≤ (axisLoop a₁ a₂).2.1 → (axisLoop a₁ a₂).2.2 ≠ 0) ↔
    a₁ ≠ a₂ := by
  rw [imp_iff_right axisLoop_fst_le.1, axisLoop_fst_le.2.2, ne_eq, sub_eq_zero_iff]

variable {x1 y1 x2 y2 : Int32}

lemma sub_eq_zero_and_iff : x2 - x1 = 0 ∧ y2 - y1 = 0 ↔ x1 = x2 ∧ y1 = y2 := by
  rw [sub_eq_zero_iff, sub_eq_zero_iff]

lemma lineLoop_eq (h : ¬(x1 = x2 ∧ y1 = y2)) : lineLoop x1 y1 x2 y2 =
    if (x2 - x1).abs > (y2 - y1).abs then some (axisLoop x1 x2) else some (axisLoop y1 y2) := by
  rw [← sub_eq_zero_and_iff] at h
  exact if_neg h

lemma linePixels_of_ne (h : ¬(x1 = x2 ∧ y1 = y2)) : linePixels x1 y1 x2 y2 =
    if (x2 - x1).abs > (y2 - y1).abs then sweepBetween x1 y1 x2 y2
    else (sweepBetween y1 x1 y2 x2).map Prod.swap := by
  rw [← sub_eq_zero_and_iff] at h
  rw [linePixels_eq, if_neg h]

/-- The endpoints in the other order have the same axis. -/
lemma abs_sub_comm_word (x y : Int32) : (x - y).abs = (y - x).abs := by
  have h₁ := abs_sub_cases x y
  have h₂ := abs_sub_cases y x
  rw [abs_sub_comm] at h₂
  exact Int32.toInt_inj.mp (by omega)

lemma map_swap_swap (l : List (Int32 × Int32)) : (l.map Prod.swap).map Prod.swap = l := by
  rw [List.map_map, Prod.swap_swap_eq, List.map_id]

lemma drawsLine_self (x y : Int32) : DrawsLine x y x y := by
  have hwide : ¬Wide x y x y := by
    rw [Wide, sub_self, sub_self]
    exact lt_irrefl _
  have hpixels : linePixels x y x y = [(x, y)] := by
    rw [linePixels_eq, if_pos (sub_eq_zero_and_iff.mpr ⟨rfl, rfl⟩)]
  have hloop : lineLoop x y x y = none := if_pos (sub_eq_zero_and_iff.mpr ⟨rfl, rfl⟩)
  constructor
  case terminates => simp [hloop]
  case divides => simp [hloop]
  case traces =>
    rw [if_neg hwide, hpixels]
    constructor
    case ends => simp
    case within => simp
    case once =>
      intro a ha ha'
      rw [Int.min_self] at ha
      rw [Int.max_self] at ha'
      obtain rfl := Int32.toInt_inj.mp (le_antisymm ha ha')
      simp
    case connected => exact .singleton _
    case near => simp
  case exchange =>
    rw [if_neg hwide]
    exact ⟨.refl _, .refl _⟩

/-- A line of which the shorter difference is `2 ^ 31` has a greater product. -/
lemma differences_iff (hB : |B| ≤ |A|) : (|A| ≠ 2 ^ 31 ∧ |A * B| < 2 ^ 31) ↔
    |A| ≠ 2 ^ 31 ∧ |B| ≠ 2 ^ 31 ∧ |A * B| < 2 ^ 31 := by
  refine and_congr_right fun _ => ⟨fun h => ⟨fun hb => ?_, h⟩, And.right⟩
  rw [abs_mul, hb] at h
  omega

/-- With the right axis the loop has to draw the line. -/
lemma draws_along_iff (hne : a₁ ≠ a₂) (hB : |b₂.toInt - b₁.toInt| ≤ |a₂.toInt - a₁.toInt|)
    (hA₁ : |a₂.toInt - a₁.toInt| = 2 ^ 31 → |b₂.toInt - b₁.toInt| = 2 ^ 31)
    (hB₁ : 2 ^ 31 < |b₂.toInt - b₁.toInt| → |b₂.toInt - b₁.toInt| = |a₂.toInt - a₁.toInt|) :
    (max a₁ a₂ ≠ Int32.maxValue ∧ Traces (sweepBetween a₁ b₁ a₂ b₂) a₁ b₁ a₂ b₂ ∧
      Alike (sweepBetween a₁ b₁ a₂ b₂) (sweepBetween a₂ b₂ a₁ b₁) ∧
      Alike (sweepBetween a₂ b₂ a₁ b₁) (sweepBetween a₁ b₁ a₂ b₂)) ↔
    max a₁ a₂ ≠ Int32.maxValue ∧ |a₂.toInt - a₁.toInt| ≠ 2 ^ 31 ∧ |b₂.toInt - b₁.toInt| ≠ 2 ^ 31 ∧
      |(a₂.toInt - a₁.toInt) * (b₂.toInt - b₁.toInt)| < 2 ^ 31 := by
  rw [← differences_iff hB]
  exact and_congr_right fun hlast => traces_sweepBetween_iff hne hlast hB hA₁ hB₁

/-- A loop along one axis ends, and its divisor is not 0. -/
lemma loop_iff (hloop : lineLoop x1 y1 x2 y2 = some (axisLoop a₁ a₂)) (hne : a₁ ≠ a₂) :
    ((∀ loop ∈ lineLoop x1 y1 x2 y2, ∃ n : ℕ, loop.2.1 < loop.1 + .ofNat n) ↔
      max a₁ a₂ ≠ Int32.maxValue) ∧
    ∀ loop ∈ lineLoop x1 y1 x2 y2, loop.1 ≤ loop.2.1 → loop.2.2 ≠ 0 := by
  rw [hloop]
  simp only [Option.mem_some_iff, forall_eq']
  exact ⟨terminates_axisLoop, divides_axisLoop.mpr hne⟩

lemma DrawsLine.max_ne (h : DrawsLine x1 y1 x2 y2)
    (hloop : lineLoop x1 y1 x2 y2 = some (axisLoop a₁ a₂)) : max a₁ a₂ ≠ Int32.maxValue :=
  terminates_axisLoop.mp (h.terminates _ hloop)

/-- `draw_line` is total and draws a line exactly for these endpoints. -/
theorem drawsLine_iff (x1 y1 x2 y2 : Int32) : DrawsLine x1 y1 x2 y2 ↔ CanDrawLine x1 y1 x2 y2 := by
  by_cases heq : x1 = x2 ∧ y1 = y2
  · obtain ⟨rfl, rfl⟩ := heq
    exact iff_of_true (drawsLine_self x1 y1) (.inl ⟨rfl, rfl⟩)
  have hx := abs_sub_cases x2 x1
  have hy := abs_sub_cases y2 y1
  have hx₀ := abs_sub_bounds x2 x1
  have hy₀ := abs_sub_bounds y2 y1
  have hloop := lineLoop_eq heq
  have hpixels := linePixels_of_ne heq
  have heq' : ¬(x2 = x1 ∧ y2 = y1) := fun h => heq ⟨h.1.symm, h.2.symm⟩
  have hpixels' := linePixels_of_ne heq'
  rw [abs_sub_comm_word x1, abs_sub_comm_word y1] at hpixels'
  rw [CanDrawLine, or_iff_right heq]
  by_cases hchosen : (x2 - x1).abs > (y2 - y1).abs <;> by_cases hwide : Wide x1 y1 x2 y2
  · rw [if_pos hchosen] at hloop hpixels hpixels'
    rw [if_pos hwide]
    have hne : x1 ≠ x2 := by
      rintro rfl
      rw [Wide, sub_self, abs_zero] at hwide
      exact absurd hwide (abs_nonneg _).not_gt
    rw [gt_iff_lt, Int32.lt_iff_toInt_lt] at hchosen
    rw [Wide] at hwide
    rw [← draws_along_iff hne hwide.le (by omega) (by omega), ← hpixels, ← hpixels']
    constructor
    · intro h
      have htraces := h.traces
      have hexchange := h.exchange
      rw [if_pos (show Wide x1 y1 x2 y2 from hwide)] at htraces hexchange
      exact ⟨h.max_ne hloop, htraces, hexchange⟩
    · rintro ⟨hlast, htraces, hexchange⟩
      obtain ⟨hterminates, hdivides⟩ := loop_iff hloop hne
      refine ⟨hterminates.mpr hlast, hdivides, ?_, ?_⟩
      · rwa [if_pos (show Wide x1 y1 x2 y2 from hwide)]
      · rwa [if_pos (show Wide x1 y1 x2 y2 from hwide)]
  · -- the loop goes along the shorter axis
    rw [if_pos hchosen] at hloop hpixels
    rw [gt_iff_lt, Int32.lt_iff_toInt_lt] at hchosen
    refine iff_of_false (fun h => ?_) ?_
    · have htraces := h.traces
      rw [if_neg hwide, hpixels] at htraces
      have hlength := htraces.lt_length
      rw [List.length_map, length_sweepBetween (h.max_ne hloop)] at hlength
      rw [Wide] at hwide
      omega
    · rintro ⟨-, hx', hy', hproduct⟩
      rw [Wide] at hwide
      have hparallel := eq_zero_of_long hproduct
      omega
  · -- the loop goes along the shorter axis
    rw [if_neg hchosen] at hloop hpixels
    rw [gt_iff_lt, Int32.lt_iff_toInt_lt] at hchosen
    refine iff_of_false (fun h => ?_) ?_
    · have htraces := h.traces
      rw [if_pos hwide, hpixels] at htraces
      have hlength := htraces.lt_length
      rw [List.length_map, length_sweepBetween (h.max_ne hloop)] at hlength
      rw [Wide] at hwide
      omega
    · rintro ⟨-, hx', hy', hproduct⟩
      rw [Wide] at hwide
      rw [mul_comm] at hproduct
      have hparallel := eq_zero_of_long hproduct
      omega
  · rw [if_neg hchosen] at hloop hpixels hpixels'
    rw [if_neg hwide]
    have hswap : (linePixels x1 y1 x2 y2).map Prod.swap = sweepBetween y1 x1 y2 x2 := by
      rw [hpixels, map_swap_swap]
    have hswap' : (linePixels x2 y2 x1 y1).map Prod.swap = sweepBetween y2 x2 y1 x1 := by
      rw [hpixels', map_swap_swap]
    have hne : y1 ≠ y2 := by
      rintro rfl
      rw [Wide, sub_self, abs_zero, not_lt, abs_nonpos_iff, sub_eq_zero] at hwide
      exact heq ⟨(Int32.toInt_inj.mp hwide).symm, rfl⟩
    rw [gt_iff_lt, Int32.lt_iff_toInt_lt] at hchosen
    have hnot := hwide
    rw [Wide] at hnot
    rw [and_left_comm (a := |x2.toInt - x1.toInt| ≠ 2 ^ 31), mul_comm,
      ← draws_along_iff hne (by omega) (by omega) (by omega), ← hswap, ← hswap']
    constructor
    · intro h
      have htraces := h.traces
      have hexchange := h.exchange
      rw [if_neg hwide] at htraces hexchange
      exact ⟨h.max_ne hloop, htraces, hexchange⟩
    · rintro ⟨hlast, htraces, hexchange⟩
      obtain ⟨hterminates, hdivides⟩ := loop_iff hloop hne
      refine ⟨hterminates.mpr hlast, hdivides, ?_, ?_⟩
      · rwa [if_neg hwide]
      · rwa [if_neg hwide]

/-- The loop up to the greatest word does not end. A difference of `2 ^ 31` is its own absolute value, a
negative one, so that the other difference is the divisor. -/
theorem not_drawsLine_far : ¬DrawsLine 2147483646 0 2147483647 0 ∧ ¬DrawsLine (-2147483648) 0 0 0 := by
  constructor
  · intro h
    have hloop : lineLoop 2147483646 0 2147483647 0 = some (axisLoop 2147483646 2147483647) := by decide
    exact h.max_ne hloop (by decide)
  · intro h
    have hloop : lineLoop (-2147483648) 0 0 0 = some (0, 0, 0) := by decide
    exact h.divides _ hloop (by decide) rfl

end PiKachulm.Graphics

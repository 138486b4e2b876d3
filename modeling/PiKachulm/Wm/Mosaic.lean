import PiKachulm.Libk.Isqrt
import PiKachulm.Wm.Placement
import Mathlib.Data.Nat.Sqrt
import Mathlib.Order.Bounds.Basic
import Mathlib.Tactic.Linarith
import Mathlib.Tactic.Ring

/-!
# The mosaic layout

`mosaic_layout` gives each window a cell of a grid that has as many columns as the square root of the
number of the windows, and the last window what is left of its row.
-/

namespace PiKachulm.Wm

open Core Libk

namespace WindowManager

/-! ### The layout -/

/-- The number of columns of the grid, from the number of the windows. -/
def nbColumns (windowCount : ℕ) : Int32 :=
  let nbColumns := Int32.ofNat (isqrt windowCount)
  if nbColumns.toInt * nbColumns.toInt % 2 ^ 64 ≠ windowCount then nbColumns + 1 else nbColumns

/-- The number of rows; the division rounds up, and is one of values of type `size_t`. -/
def nbRows (windowCount : ℕ) (nbColumns : Int32) : Int32 :=
  .ofInt ((windowCount + nbColumns.toInt - 1) % 2 ^ 64 / (nbColumns.toInt % 2 ^ 64))

/-- The loop of `mosaic_layout`, at the window `currentIdx` in column `i` and row `j`. -/
def mosaicFrom (windowCount : ℕ) (nbColumns windowWidth windowHeight : Int32) :
    List ℕ → Int32 → Int32 → Int32 → WindowManager → WindowManager
  | [], _, _, _, s => s
  | window :: windows, currentIdx, i, j, s =>
    let isLast := (currentIdx + 1).toInt % 2 ^ 64 = windowCount
    let width := if isLast then (nbColumns - i) * windowWidth else windowWidth
    let s := s.setWindowGeometry window
      (.fromPosAndSize (i * windowWidth) (j * windowHeight) width windowHeight)
    if i + 1 ≥ nbColumns then
      mosaicFrom windowCount nbColumns windowWidth windowHeight windows (currentIdx + 1) 0 (j + 1) s
    else
      mosaicFrom windowCount nbColumns windowWidth windowHeight windows (currentIdx + 1) (i + 1) j s

/-- `mosaic_layout`. `m_window_count` is the number of the windows in the list. -/
def mosaicLayout (s : WindowManager) : WindowManager :=
  let windowCount := s.windows.length
  if windowCount = 0 then s
  else
    let columns := nbColumns windowCount
    let rows := nbRows windowCount columns
    mosaicFrom windowCount columns (s.screenWidth / columns) (s.screenHeight / rows) s.windows 0 0 0 s

/-! ### The size of the grid -/

variable {s s' : WindowManager} {n c r w h k : ℕ}

lemma toInt_ofNat (hn : n < 2 ^ 31) : (Int32.ofNat n).toInt = n := Int32.toInt_ofNat_of_lt hn

/-- The number of columns is the square root, rounded up. -/
lemma nbColumns_eq (hc : IsLeast {c | n ≤ c * c} c) (hn : n < 2 ^ 31) : nbColumns n = .ofNat c := by
  have hle := Nat.sqrt_le n
  have hlt := Nat.lt_succ_sqrt n
  have hroot : Nat.sqrt n < 2 ^ 31 := (Nat.sqrt_le_self n).trans_lt hn
  have hmod : ((Nat.sqrt n : ℤ) * Nat.sqrt n) % 2 ^ 64 = (Nat.sqrt n * Nat.sqrt n : ℕ) := by
    rw [← Nat.cast_mul]
    omega
  have hleast : ∀ k, n ≤ k * k → c ≤ k := fun k hk => hc.2 hk
  have hc' : n ≤ c * c := hc.1
  rw [nbColumns, isqrt_eq_sqrt (hn.trans (by norm_num)), toInt_ofNat hroot, hmod]
  split_ifs with hsquare
  · -- the root is not exact, and one column more is needed
    have hroot' : Nat.sqrt n < c := by
      by_contra hge
      have := Nat.mul_le_mul (not_lt.mp hge) (not_lt.mp hge)
      omega
    obtain rfl : c = Nat.sqrt n + 1 := Nat.le_antisymm (hleast _ hlt.le) hroot'
    exact (Int32.ofNat_add _ _).symm
  · rw [ne_eq, not_not, Nat.cast_inj] at hsquare
    have hroot' : Nat.sqrt n ≤ c := by
      by_contra hlt'
      have := Nat.mul_self_lt_mul_self (not_le.mp hlt')
      omega
    rw [Nat.le_antisymm (hleast _ hsquare.ge) hroot']

/-- The number of rows is what the columns need. -/
lemma nbRows_eq (hc : 0 < c) (hr : IsLeast {r | n ≤ c * r} r) (hn : n < 2 ^ 30) (hcn : c < 2 ^ 30) :
    nbRows n (.ofNat c) = .ofNat r := by
  have hr' : n ≤ c * r := hr.1
  have hleast : r ≤ (n + c - 1) / c := by
    refine hr.2 (?_ : n ≤ c * ((n + c - 1) / c))
    have := Nat.div_add_mod (n + c - 1) c
    have := Nat.mod_lt (n + c - 1) hc
    omega
  have hle : (n + c - 1) / c ≤ r := by
    rw [Nat.div_le_iff_le_mul_add_pred hc]
    omega
  have hsum : ((n : ℤ) + c - 1) % 2 ^ 64 = (n + c - 1 : ℕ) := by omega
  have hcolumns : (c : ℤ) % 2 ^ 64 = c := by omega
  rw [nbRows, toInt_ofNat (by omega), hsum, hcolumns, ← Int.natCast_ediv, Int32.ofInt_eq_ofNat,
    Nat.le_antisymm hle hleast]

lemma div_eq (hw : w < 2 ^ 31) (hc : c < 2 ^ 31) : Int32.ofNat w / Int32.ofNat c = .ofNat (w / c) := by
  have hdiv : w / c ≤ w := Nat.div_le_self w c
  rw [← Int32.toInt_inj, Int32.toInt_div, toInt_ofNat hw, toInt_ofNat hc, ← Int.ofNat_tdiv]
  generalize w / c = q at *
  rw [toInt_ofNat (by omega), Int.bmod_eq_of_le (by omega) (by omega)]

/-! ### The cells -/

/-- A screen with a grid of `c` columns and `r` rows for `n` windows; the cells have the width `w` and
the height `h`. -/
structure Grid (s : WindowManager) (n c r w h : ℕ) : Prop where
  columns : 0 < c
  rows : n ≤ c * r
  minWidth : 25 ≤ w
  minHeight : 25 ≤ h
  width : ∃ W ≤ 2000, c * w ≤ W ∧ s.screenWidth = .ofNat W
  height : ∃ H ≤ 2000, r * h ≤ H ∧ s.screenHeight = .ofNat H

/-- The first column that the cell of a window does not reach; the cell of the last window goes on to the
end of the row. -/
def lastColumn (n c k : ℕ) : ℕ := if k + 1 = n then c else k % c + 1

/-- The cell of a window. -/
def cell (n c w h k : ℕ) : Rect :=
  ⟨.ofNat (k % c * w), .ofNat (k / c * h), .ofNat (lastColumn n c k * w), .ofNat ((k / c + 1) * h)⟩

lemma lt_lastColumn (hc : 0 < c) : k % c < lastColumn n c k := by
  rw [lastColumn]
  split_ifs
  · exact Nat.mod_lt k hc
  · exact Nat.lt_succ_self _

lemma lastColumn_le (hc : 0 < c) : lastColumn n c k ≤ c := by
  rw [lastColumn]
  split_ifs
  · exact le_rfl
  · exact Nat.mod_lt k hc

/-- The row of a window. -/
lemma Grid.row_lt (g : Grid s n c r w h) (hk : k < n) : k / c < r :=
  Nat.div_lt_of_lt_mul (hk.trans_le g.rows)

lemma ofNat_le {a b : ℕ} (hab : a ≤ b) (hb : b < 2 ^ 31) : Int32.ofNat a ≤ Int32.ofNat b :=
  (Int32.ofNat_le_iff_le (hab.trans_lt hb) hb).mpr hab

/-- A cell lies on the screen, and a window can have its size. -/
lemma Grid.constrain_cell (g : Grid s n c r w h) (hk : k < n) :
    s.constrain (cell n c w h k) = cell n c w h k := by
  obtain ⟨W, hW, hwidth, hscreenWidth⟩ := g.width
  obtain ⟨H, hH, hheight, hscreenHeight⟩ := g.height
  have hleft : k % c * w + w ≤ lastColumn n c k * w := by
    rw [← Nat.succ_mul]
    exact Nat.mul_le_mul_right w (lt_lastColumn g.columns)
  have hright : lastColumn n c k * w ≤ W :=
    (Nat.mul_le_mul_right w (lastColumn_le g.columns)).trans hwidth
  have htop : k / c * h + h = (k / c + 1) * h := (Nat.succ_mul _ _).symm
  have hbottom : (k / c + 1) * h ≤ H := (Nat.mul_le_mul_right h (g.row_lt hk)).trans hheight
  have hminWidth := g.minWidth
  have hminHeight := g.minHeight
  apply constrain_of_onScreen
  · rw [hscreenWidth, hscreenHeight]
    refine ⟨⟨ofNat_le ?_ ?_, ofNat_le ?_ ?_⟩, ofNat_le (Nat.zero_le _) ?_, ofNat_le (Nat.zero_le _) ?_,
      ofNat_le hright ?_, ofNat_le hbottom ?_⟩
    all_goals omega
  · have hsize : (cell n c w h k).width = .ofNat (lastColumn n c k * w - k % c * w) ∧
        (cell n c w h k).height = .ofNat ((k / c + 1) * h - k / c * h) :=
      ⟨(Int32.ofNat_sub _ _ (by omega)).symm, (Int32.ofNat_sub _ _ (by omega)).symm⟩
    rw [hsize.1, hsize.2]
    refine ⟨?_, ?_, ?_, ?_⟩
    · exact ofNat_le (a := 25) (by omega) (by omega)
    · rw [hscreenWidth]
      exact Std.le_min_iff.mpr ⟨ofNat_le (b := 2000) (by omega) (by omega), ofNat_le (by omega) (by omega)⟩
    · exact ofNat_le (a := 25) (by omega) (by omega)
    · rw [hscreenHeight]
      exact Std.le_min_iff.mpr ⟨ofNat_le (b := 2000) (by omega) (by omega), ofNat_le (by omega) (by omega)⟩

lemma Grid.onScreen_cell (g : Grid s n c r w h) (hk : k < n) :
    (cell n c w h k).OnScreen s.screenWidth s.screenHeight := by
  obtain ⟨W, hW, -, hscreenWidth⟩ := g.width
  obtain ⟨H, hH, -, hscreenHeight⟩ := g.height
  have hwidth : 0 ≤ s.screenWidth := hscreenWidth ▸ ofNat_le (Nat.zero_le W) (by omega)
  have hheight : 0 ≤ s.screenHeight := hscreenHeight ▸ ofNat_le (Nat.zero_le H) (by omega)
  have honscreen := onScreen_constrain (cell n c w h k) hwidth hheight
  rwa [g.constrain_cell hk] at honscreen

/-! ### The loop -/

/-- The rectangle that the loop asks for is the cell. -/
lemma Grid.rect_eq (g : Grid s n c r w h) (hk : k < n) (hn : n < 2 ^ 31) :
    (Rect.fromPosAndSize (.ofNat (k % c) * .ofNat w) (.ofNat (k / c) * .ofNat h)
      (if (Int32.ofNat k + 1).toInt % 2 ^ 64 = n then (.ofNat c - .ofNat (k % c)) * .ofNat w else .ofNat w)
      (.ofNat h)) = cell n c w h k := by
  have hlast : (Int32.ofNat k + 1).toInt % 2 ^ 64 = (n : ℤ) ↔ k + 1 = n := by
    rw [show Int32.ofNat k + 1 = Int32.ofNat (k + 1) from (Int32.ofNat_add k 1).symm,
      toInt_ofNat (by omega)]
    omega
  have hmod := Nat.mod_lt k g.columns
  have hright : Int32.ofNat (k % c) * .ofNat w + (if (Int32.ofNat k + 1).toInt % 2 ^ 64 = n then
      (.ofNat c - .ofNat (k % c)) * .ofNat w else .ofNat w) = .ofNat (lastColumn n c k * w) := by
    rw [lastColumn]
    by_cases hn' : k + 1 = n
    · rw [if_pos (hlast.mpr hn'), if_pos hn', ← Int32.ofNat_sub _ _ hmod.le, ← Int32.ofNat_mul,
        ← Int32.ofNat_mul, ← Int32.ofNat_add,
        ← Nat.add_mul, Nat.add_sub_cancel' hmod.le]
    · rw [if_neg (mt hlast.mp hn'), if_neg hn', ← Int32.ofNat_mul, ← Int32.ofNat_add, Nat.succ_mul]
  have hbottom : Int32.ofNat (k / c) * .ofNat h + .ofNat h = .ofNat ((k / c + 1) * h) := by
    rw [← Int32.ofNat_mul, ← Int32.ofNat_add, Nat.succ_mul]
  rw [Rect.fromPosAndSize, hright, hbottom, ← Int32.ofNat_mul, ← Int32.ofNat_mul]
  obtain ⟨hx, hy⟩ := (g.onScreen_cell hk).normal
  exact Rect.ofCorners_of_le hx hy

/-- The column and the row of the next window. -/
lemma next_cell (hc : 0 < c) (hcn : c < 2 ^ 31) :
    (if Int32.ofNat (k % c) + 1 ≥ .ofNat c then ((0 : Int32), Int32.ofNat (k / c) + 1)
      else (Int32.ofNat (k % c) + 1, .ofNat (k / c))) =
      (.ofNat ((k + 1) % c), .ofNat ((k + 1) / c)) := by
  have hmod := Nat.mod_lt k hc
  have hcolumn : Int32.ofNat (k % c) + 1 = .ofNat (k % c + 1) := (Int32.ofNat_add _ 1).symm
  have hrow : Int32.ofNat (k / c) + 1 = .ofNat (k / c + 1) := (Int32.ofNat_add _ 1).symm
  have hend : Int32.ofNat (k % c) + 1 ≥ .ofNat c ↔ c ≤ k % c + 1 := by
    rw [hcolumn]
    exact Int32.ofNat_le_iff_le hcn (by omega)
  have hdivision := Nat.mod_add_div k c
  by_cases hlast : c ≤ k % c + 1
  · obtain ⟨hdiv, hmod'⟩ : (k + 1) / c = k / c + 1 ∧ (k + 1) % c = 0 := by
      rw [Nat.div_mod_unique hc, Nat.mul_succ]
      omega
    rw [if_pos (hend.mpr hlast), hrow, hdiv, hmod']
    rfl
  · obtain ⟨hdiv, hmod'⟩ : (k + 1) / c = k / c ∧ (k + 1) % c = k % c + 1 := by
      rw [Nat.div_mod_unique hc]
      omega
    rw [if_neg (mt hend.mp hlast), hcolumn, hdiv, hmod']

/-- The loop gives each window its cell, and no other one. -/
lemma Grid.mosaicFrom_spec (g : Grid s n c r w h) (hn : n < 2 ^ 31) (hcn : c < 2 ^ 31) {l : List ℕ}
    (hl : l.Nodup) (hk : k + l.length = n) :
    let s' := mosaicFrom n (.ofNat c) (.ofNat w) (.ofNat h) l (.ofNat k) (.ofNat (k % c)) (.ofNat (k / c)) s
    s'.windows = s.windows ∧ (∀ v ∉ l, s'.window v = s.window v) ∧
      ∀ m (hm : m < l.length), (s'.window l[m]).geometry = cell n c w h (k + m) := by
  induction l generalizing k s with
  | nil => exact ⟨rfl, fun _ _ => rfl, fun m hm => absurd hm (Nat.not_lt_zero m)⟩
  | cons window l ih =>
    rw [List.length_cons] at hk
    have hkn : k < n := by omega
    obtain ⟨hnot, hl⟩ := List.nodup_cons.mp hl
    let s₁ := s.setWindowGeometry window (cell n c w h k)
    have hwindow : s₁.window = Function.update s.window window _ :=
      setWindowGeometry_window s window (cell n c w h k)
    rw [g.constrain_cell hkn] at hwindow
    have hscreen : s₁.screenWidth = s.screenWidth ∧ s₁.screenHeight = s.screenHeight :=
      setWindowGeometry_screen
    have g₁ : s₁.Grid n c r w h :=
      ⟨g.columns, g.rows, g.minWidth, g.minHeight, hscreen.1 ▸ g.width, hscreen.2 ▸ g.height⟩
    have hnext := next_cell (k := k) g.columns hcn
    have hstep : mosaicFrom n (.ofNat c) (.ofNat w) (.ofNat h) (window :: l) (.ofNat k) (.ofNat (k % c))
        (.ofNat (k / c)) s = mosaicFrom n (.ofNat c) (.ofNat w) (.ofNat h) l (.ofNat (k + 1))
          (.ofNat ((k + 1) % c)) (.ofNat ((k + 1) / c)) s₁ := by
      have hidx : Int32.ofNat k + 1 = .ofNat (k + 1) := (Int32.ofNat_add k 1).symm
      rw [mosaicFrom, g.rect_eq hkn hn, hidx]
      by_cases hend : Int32.ofNat (k % c) + 1 ≥ .ofNat c
      · rw [if_pos hend] at hnext
        obtain ⟨hi, hj⟩ := Prod.mk.inj hnext
        rw [if_pos hend, hi, hj]
      · rw [if_neg hend] at hnext
        obtain ⟨hi, hj⟩ := Prod.mk.inj hnext
        rw [if_neg hend, hi, hj]
    rw [hstep]
    obtain ⟨hwindows, hothers, hcells⟩ := ih g₁ (k := k + 1) hl (by omega)
    refine ⟨hwindows.trans setWindowGeometry_windows, ?_, ?_⟩
    · intro v hv
      rw [List.mem_cons, not_or] at hv
      rw [hothers v hv.2, hwindow, Function.update_of_ne hv.1]
    · intro m hm
      cases m with
      | zero =>
        rw [List.getElem_cons_zero, hothers window hnot, hwindow, Function.update_self]
        rfl
      | succ m =>
        rw [List.getElem_cons_succ, hcells m (by simpa using hm), Nat.add_right_comm, Nat.add_assoc]

/-! ### The tiling -/

/-- The pixels of the grid. -/
def gridRegion (width height : ℤ) : Set (Int32 × Int32) :=
  {p | (0 ≤ p.1.toInt ∧ p.1.toInt < width) ∧ 0 ≤ p.2.toInt ∧ p.2.toInt < height}

/-- The pixels of a cell. -/
lemma Grid.mem_cell (g : Grid s n c r w h) (hk : k < n) (p : Int32 × Int32) :
    p ∈ (cell n c w h k).region ↔
      ((k % c * w : ℕ) ≤ p.1.toInt ∧ p.1.toInt < (lastColumn n c k * w : ℕ)) ∧
        (k / c * h : ℕ) ≤ p.2.toInt ∧ p.2.toInt < ((k / c + 1) * h : ℕ) := by
  obtain ⟨W, hW, hwidth, -⟩ := g.width
  obtain ⟨H, hH, hheight, -⟩ := g.height
  have hright := Nat.mul_le_mul_right w (lastColumn_le (n := n) (k := k) g.columns)
  have hleft := Nat.mul_le_mul_right w (lt_lastColumn (n := n) (k := k) g.columns).le
  have hbottom : (k / c + 1) * h ≤ r * h := Nat.mul_le_mul_right h (g.row_lt hk)
  have htop : k / c * h ≤ (k / c + 1) * h := Nat.mul_le_mul_right h (Nat.le_succ (k / c))
  rw [Rect.mem_region, cell]
  simp only [Int32.le_iff_toInt_le, Int32.lt_iff_toInt_lt]
  rw [toInt_ofNat (by omega), toInt_ofNat (by omega), toInt_ofNat (by omega), toInt_ofNat (by omega),
    and_assoc]

/-- Two windows have no pixel in common. -/
lemma Grid.disjoint_cell (g : Grid s n c r w h) {a b : ℕ} (hab : a < b) (hb : b < n) :
    Disjoint (cell n c w h a).region (cell n c w h b).region := by
  rw [Set.disjoint_left]
  intro p hp hp'
  rw [g.mem_cell (hab.trans hb)] at hp
  rw [g.mem_cell hb] at hp'
  have hrow : a / c ≤ b / c := Nat.div_le_div_right hab.le
  rcases hrow.lt_or_eq with hrow | hrow
  · have hbelow : (a / c + 1) * h ≤ b / c * h := Nat.mul_le_mul_right h hrow
    omega
  · have hcolumn : a % c < b % c := by
      have ha := Nat.mod_add_div a c
      have hb := Nat.mod_add_div b c
      rw [hrow] at ha
      omega
    have hright : lastColumn n c a * w ≤ b % c * w := by
      rw [lastColumn, if_neg (by omega)]
      exact Nat.mul_le_mul_right w hcolumn
    omega

/-- The windows cover the grid. -/
lemma Grid.exists_cell (g : Grid s n c r w h) (hr : c * (r - 1) < n) (p : Int32 × Int32) :
    p ∈ gridRegion (c * w : ℕ) (r * h : ℕ) ↔ ∃ k < n, p ∈ (cell n c w h k).region := by
  constructor
  · rintro ⟨⟨hx, hx'⟩, hy, hy'⟩
    obtain ⟨x, hpx⟩ := Int.eq_ofNat_of_zero_le hx
    obtain ⟨y, hpy⟩ := Int.eq_ofNat_of_zero_le hy
    rw [hpx, Nat.cast_lt] at hx'
    rw [hpy, Nat.cast_lt] at hy'
    have hw : 0 < w := by
      have := g.minWidth
      omega
    have hh : 0 < h := by
      have := g.minHeight
      omega
    have hcolumn : x / w < c := Nat.div_lt_of_lt_mul (by rwa [Nat.mul_comm])
    have hrow : y / h < r := Nat.div_lt_of_lt_mul (by rwa [Nat.mul_comm])
    have hleft : x / w * w ≤ x := Nat.div_mul_le_self x w
    have htop : y / h * h ≤ y := Nat.div_mul_le_self y h
    have hbottom : y < (y / h + 1) * h := (Nat.div_lt_iff_lt_mul hh).mp (Nat.lt_succ_self _)
    have hcell : ∀ k < n, k % c ≤ x / w → x / w < lastColumn n c k → k / c = y / h →
        p ∈ (cell n c w h k).region := by
      intro k hk hfirst hlast hrow
      have hfirst' : k % c * w ≤ x / w * w := Nat.mul_le_mul_right w hfirst
      have hlast' : x < lastColumn n c k * w := (Nat.div_lt_iff_lt_mul hw).mp hlast
      rw [g.mem_cell hk, hrow, hpx, hpy]
      omega
    generalize x / w = column at *
    generalize y / h = row at *
    by_cases hk : c * row + column < n
    · obtain ⟨hdiv, hmod⟩ := (Nat.div_mod_unique g.columns).mpr ⟨Nat.add_comm column (c * row), hcolumn⟩
      have hnext := lt_lastColumn (n := n) (k := c * row + column) g.columns
      rw [hmod] at hnext
      exact ⟨_, hk, hcell _ hk hmod.le hnext hdiv⟩
    · -- the last window goes on to the end of its row
      have hrow' : c * (r - 1) < c * (row + 1) := by
        rw [Nat.mul_succ]
        omega
      obtain rfl : row = r - 1 := by
        have := Nat.lt_of_mul_lt_mul_left hrow'
        omega
      obtain ⟨hdiv, hmod⟩ : (n - 1) / c = r - 1 ∧ (n - 1) % c = n - 1 - c * (r - 1) := by
        rw [Nat.div_mod_unique g.columns]
        omega
      refine ⟨n - 1, by omega, hcell _ (by omega) (by omega) ?_ hdiv⟩
      rw [lastColumn, if_pos (by omega)]
      exact hcolumn
  · rintro ⟨k, hk, hp⟩
    rw [g.mem_cell hk] at hp
    have hright := Nat.mul_le_mul_right w (lastColumn_le (n := n) (k := k) g.columns)
    have hbottom : (k / c + 1) * h ≤ r * h := Nat.mul_le_mul_right h (g.row_lt hk)
    refine ⟨⟨?_, ?_⟩, ?_, ?_⟩ <;> omega

/-- A cell has at least the smallest size, so that the windows are not many. -/
lemma le_of_div_le {W : ℤ} (hW : W ≤ 2000) (hmin : 25 ≤ W / c) : 0 < c ∧ c ≤ 80 := by
  have hpos : 0 < c := by
    rcases Nat.eq_zero_or_pos c with rfl | hc
    · rw [Nat.cast_zero, Int.ediv_zero] at hmin
      omega
    · exact hc
  refine ⟨hpos, ?_⟩
  have hmul : 25 * (c : ℤ) ≤ W := (Int.le_ediv_iff_mul_le (by omega)).mp hmin
  omega

lemma exists_ofNat {x : Int32} (hx : 0 ≤ x.toInt) : ∃ n : ℕ, x = .ofNat n ∧ x.toInt = n := by
  obtain ⟨n, hn⟩ := Int.eq_ofNat_of_zero_le hx
  have hlt := x.toInt_lt
  refine ⟨n, ?_, hn⟩
  rw [← Int32.toInt_inj, toInt_ofNat (by omega), hn]

/-- The mosaic layout gives the windows parts of the grid that do not overlap and make up the grid,
which lies on the screen. -/
theorem mosaicLayout_tiles (s : WindowManager) (c r : ℕ) (hn : 1 ≤ s.windows.length)
    (hnodup : s.windows.Nodup) (hc : IsLeast {c | s.windows.length ≤ c * c} c)
    (hr : IsLeast {r | s.windows.length ≤ c * r} r)
    (hminWidth : minSize.toInt ≤ s.screenWidth.toInt / c)
    (hminHeight : minSize.toInt ≤ s.screenHeight.toInt / r)
    (hmaxWidth : s.screenWidth ≤ maxSize) (hmaxHeight : s.screenHeight ≤ maxSize) :
    let grid := gridRegion (c * (s.screenWidth.toInt / c)) (r * (s.screenHeight.toInt / r))
    s.mosaicLayout.windows = s.windows ∧
      Tiles (fun w => (s.mosaicLayout.window w).geometry.region) s.windows grid ∧
      grid ⊆ (Rect.mk 0 0 s.screenWidth s.screenHeight).region := by
  have hminSize : minSize.toInt = 25 := rfl
  have hmaxSize : maxSize.toInt = 2000 := rfl
  rw [Int32.le_iff_toInt_le, hmaxSize] at hmaxWidth hmaxHeight
  rw [hminSize] at hminWidth hminHeight
  obtain ⟨hcpos, hc80⟩ := le_of_div_le hmaxWidth hminWidth
  obtain ⟨hrpos, hr80⟩ := le_of_div_le hmaxHeight hminHeight
  have hcount : s.windows.length ≤ 6400 := hc.1.trans (Nat.mul_le_mul hc80 hc80)
  obtain ⟨W, hW, hW'⟩ : ∃ W : ℕ, s.screenWidth = .ofNat W ∧ s.screenWidth.toInt = W := by
    apply exists_ofNat
    have := (Int.le_ediv_iff_mul_le (by omega)).mp hminWidth
    omega
  obtain ⟨H, hH, hH'⟩ : ∃ H : ℕ, s.screenHeight = .ofNat H ∧ s.screenHeight.toInt = H := by
    apply exists_ofNat
    have := (Int.le_ediv_iff_mul_le (by omega)).mp hminHeight
    omega
  rw [hW'] at hminWidth hmaxWidth ⊢
  rw [hH'] at hminHeight hmaxHeight ⊢
  have g : s.Grid s.windows.length c r (W / c) (H / r) :=
    ⟨hcpos, hr.1, by omega, by omega, ⟨W, by omega, Nat.mul_div_le W c, hW⟩,
      ⟨H, by omega, Nat.mul_div_le H r, hH⟩⟩
  have hlayout : s.mosaicLayout = mosaicFrom s.windows.length (.ofNat c) (.ofNat (W / c)) (.ofNat (H / r))
      s.windows (.ofNat 0) (.ofNat (0 % c)) (.ofNat (0 / c)) s := by
    rw [mosaicLayout, if_neg (by omega), nbColumns_eq hc (by omega)]
    dsimp only
    rw [nbRows_eq hcpos hr (by omega) (by omega), hW, hH, div_eq (by omega) (by omega),
      div_eq (by omega) (by omega), Nat.zero_mod, Nat.zero_div]
    rfl
  obtain ⟨hwindows, -, hcells⟩ :=
    g.mosaicFrom_spec (k := 0) (by omega) (by omega) hnodup (Nat.zero_add _)
  have hrows : c * (r - 1) < s.windows.length := by
    by_contra hle
    have := hr.2 (not_lt.mp hle)
    omega
  have hgrid : gridRegion (c * ((W : ℤ) / c)) (r * ((H : ℤ) / r)) =
      gridRegion (c * (W / c) : ℕ) (r * (H / r) : ℕ) := by
    push_cast
    rfl
  intro grid
  rw [hlayout]
  refine ⟨hwindows, ⟨?_, ?_⟩, ?_⟩
  · rw [List.pairwise_iff_getElem]
    intro a b ha hb hab
    rw [hcells a ha, hcells b hb, Nat.zero_add, Nat.zero_add]
    exact g.disjoint_cell hab hb
  · intro p
    show p ∈ gridRegion _ _ ↔ _
    rw [hgrid, g.exists_cell hrows]
    constructor
    · rintro ⟨k, hk, hp⟩
      refine ⟨s.windows[k], List.getElem_mem hk, ?_⟩
      rw [hcells k hk, Nat.zero_add]
      exact hp
    · rintro ⟨v, hv, hp⟩
      obtain ⟨k, hk, rfl⟩ := List.getElem_of_mem hv
      rw [hcells k hk, Nat.zero_add] at hp
      exact ⟨k, hk, hp⟩
  · show gridRegion _ _ ⊆ _
    rw [hgrid]
    rintro p ⟨⟨hx, hx'⟩, hy, hy'⟩
    have hwidth := Nat.mul_div_le W c
    have hheight := Nat.mul_div_le H r
    rw [Rect.mem_region]
    simp only [Int32.le_iff_toInt_le, Int32.lt_iff_toInt_lt, hW', hH', Int32.toInt_zero]
    omega

/-- Three windows on a screen of 640 by 480 pixels. -/
theorem mosaicLayout_tiles_three :
    Tiles (fun w => (({ init 640 480 with windows := [1, 2, 3] } : WindowManager).mosaicLayout.window
      w).geometry.region) [1, 2, 3] (gridRegion 640 480) := by
  refine (mosaicLayout_tiles { init 640 480 with windows := [1, 2, 3] } 2 2 (by decide) (by decide) ?_ ?_
    (by decide) (by decide) (by decide) (by decide)).2.1
  all_goals
    refine ⟨by decide, fun k hk => ?_⟩
    by_contra hlt
    obtain rfl | rfl : k = 0 ∨ k = 1 := by omega
    · exact absurd hk (by decide)
    · exact absurd hk (by decide)

end WindowManager

end PiKachulm.Wm

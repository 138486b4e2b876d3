import PiKachulm.Core.Shares
import Mathlib.Algebra.BigOperators.Ring.List
import Mathlib.Data.BitVec
import Mathlib.Data.List.Chain

/-!
# Box layouts

`TuBoxLayout` lines up widgets in a row or a column. Each gets its minimum size and a share of the space
that remains, which the code divides by the number of the items. The widgets of the items are different
ones, and stand in the items themselves.
-/

namespace PiKachulm.Tulip

open Core

structure TuPoint where
  x : BitVec 32
  y : BitVec 32
  deriving DecidableEq

structure TuSize where
  width : BitVec 32
  height : BitVec 32
  deriving DecidableEq

structure TuRect where
  origin : TuPoint
  size : TuSize
  deriving DecidableEq

/-- `TuClamp` on values of type `uint32_t`. -/
def tuClamp (value min max : BitVec 32) : BitVec 32 :=
  if value < min then min else if value > max then max else value

/-- `TuMax` on values of type `int32_t`. -/
def tuMax (a c : BitVec 32) : BitVec 32 := if c.slt a then a else c

/-- What a layout sees of a widget. -/
structure TuWidget where
  position : TuPoint
  size : TuSize
  minSize : TuSize
  maxSize : TuSize
  deriving DecidableEq

namespace TuWidget

def resize (w : TuWidget) (size : TuSize) : TuWidget :=
  let size : TuSize := ⟨tuClamp size.width w.minSize.width w.maxSize.width,
    tuClamp size.height w.minSize.height w.maxSize.height⟩
  if size = w.size then w else { w with size := size }

def move (w : TuWidget) (position : TuPoint) : TuWidget :=
  if position = w.position then w else { w with position := position }

variable {w : TuWidget} {s : TuSize} {p : TuPoint}

lemma resize_size : (w.resize s).size = ⟨tuClamp s.width w.minSize.width w.maxSize.width,
    tuClamp s.height w.minSize.height w.maxSize.height⟩ := by
  rw [resize]
  split_ifs with h
  · exact h.symm
  · rfl

@[simp] lemma resize_minSize : (w.resize s).minSize = w.minSize := by
  rw [resize]
  split_ifs <;> rfl

@[simp] lemma move_position : (w.move p).position = p := by
  rw [move]
  split_ifs with h
  · exact h.symm
  · rfl

@[simp] lemma move_size : (w.move p).size = w.size := by
  rw [move]
  split_ifs <;> rfl

@[simp] lemma move_minSize : (w.move p).minSize = w.minSize := by
  rw [move]
  split_ifs <;> rfl

end TuWidget

structure BoxItem where
  widget : TuWidget
  stretch : BitVec 32
  deriving DecidableEq

structure TuBoxLayout where
  geometry : TuRect
  items : List BoxItem
  spacing : BitVec 32
  isHorizontal : Bool
  deriving DecidableEq

namespace TuBoxLayout

variable (l : TuBoxLayout)

def addWidget (widget : TuWidget) (stretch : BitVec 32) : TuBoxLayout :=
  { l with items := l.items ++ [⟨widget, stretch⟩] }

/-! ### `update` -/

/-- The minimum size of the layout; the spacing is multiplied in 64 bits. -/
def minSize : BitVec 32 :=
  let minSize := if l.isHorizontal then l.items.foldl (fun m item => m + item.widget.minSize.width) 0
    else l.items.foldl (fun m item => m + item.widget.minSize.height) 0
  minSize + (l.spacing.setWidth 64 * (BitVec.ofNat 64 l.items.length - 1)).setWidth 32

def remainingSpace : BitVec 32 :=
  let remainingSpace := if l.isHorizontal then l.geometry.size.width - l.minSize
    else l.geometry.size.height - l.minSize
  tuMax remainingSpace 0

/-- The space that an item gets, computed in 64 bits. -/
def extraSpace (remainingSpace stretch : BitVec 32) (n : ℕ) : BitVec 32 :=
  .ofNat 32 ((remainingSpace.signExtend 64 * stretch.signExtend 64).toNat / n)

/-- The loop for a horizontal layout. -/
def updateHorizontal (remainingSpace y : BitVec 32) : BitVec 32 → List BoxItem → List BoxItem
  | _, []            => []
  | x, item :: items =>
    let extra := extraSpace remainingSpace item.stretch l.items.length
    let widget := item.widget.resize ⟨item.widget.minSize.width + extra, l.geometry.size.height⟩
    let widget := widget.move ⟨x, y⟩
    ⟨widget, item.stretch⟩ :: updateHorizontal remainingSpace y (x + (widget.size.width + l.spacing)) items

/-- The loop for a vertical layout. -/
def updateVertical (remainingSpace x : BitVec 32) : BitVec 32 → List BoxItem → List BoxItem
  | _, []            => []
  | y, item :: items =>
    let extra := extraSpace remainingSpace item.stretch l.items.length
    let widget := item.widget.resize ⟨l.geometry.size.width, item.widget.minSize.height + extra⟩
    let widget := widget.move ⟨x, y⟩
    ⟨widget, item.stretch⟩ :: updateVertical remainingSpace x (y + (widget.size.height + l.spacing)) items

def update : TuBoxLayout :=
  { l with items :=
      if l.isHorizontal then
        l.updateHorizontal l.remainingSpace l.geometry.origin.y l.geometry.origin.x l.items
      else
        l.updateVertical l.remainingSpace l.geometry.origin.x l.geometry.origin.y l.items }

/-! ### Along the main axis -/

/-- The size along the main axis. -/
def along (size : TuSize) : BitVec 32 := if l.isHorizontal then size.width else size.height

/-- The position along the main axis. -/
def start (p : TuPoint) : BitVec 32 := if l.isHorizontal then p.x else p.y

/-- The minimum size of an item, as a number. -/
def least (item : BoxItem) : ℕ := (l.along item.widget.minSize).toNat

/-- The minimum sizes and the spacing. -/
def needed : ℕ := (l.items.map l.least).sum + l.spacing.toNat * (l.items.length - 1)

/-- The space that remains. -/
def space : ℕ := (l.along l.geometry.size).toNat - l.needed

/-- The size that the layout asks for, before it is limited. -/
def asked (item : BoxItem) : BitVec 32 :=
  l.along item.widget.minSize + extraSpace l.remainingSpace item.stretch l.items.length

/-- The layouts that are considered: no stretch is negative, the minimum sizes and the spacing fit, the
end of the geometry is a coordinate, and the maximum sizes do not limit. -/
structure Admissible : Prop where
  stretch : ∀ item ∈ l.items, 0 ≤ item.stretch.toInt
  fits : l.needed ≤ (l.along l.geometry.size).toNat
  ends : (l.start l.geometry.origin).toInt + (l.along l.geometry.size).toNat < 2 ^ 31
  unlimited : ∀ item ∈ l.items, l.asked item ≤ l.along item.widget.maxSize

/-- Where an item starts, how far it extends and its minimum size. -/
structure Span where
  start : ℤ
  extent : ℕ
  least : ℕ
  deriving DecidableEq

def span (item : BoxItem) : Span :=
  ⟨(l.start item.widget.position).toInt, (l.along item.widget.size).toNat, l.least item⟩

/-- What the items get in addition to their minimum sizes. -/
def distributed (spans : List Span) : ℕ := (spans.map fun s => s.extent - s.least).sum

/-- After `update` the items stand side by side in the geometry, each with its minimum size at least, and
the space that remains is distributed, up to rounding when an item has a stretch. -/
structure SideBySide : Prop where
  following : (l.update.items.map l.span).IsChain fun s t : Span =>
    t.start = s.start + (s.extent : ℤ) + (l.spacing.toNat : ℤ)
  atLeast : ∀ s ∈ l.update.items.map l.span, s.least ≤ s.extent
  inside : ∀ s ∈ l.update.items.map l.span, (l.start l.geometry.origin).toInt ≤ s.start ∧
    s.start + s.extent ≤ (l.start l.geometry.origin).toInt + (l.along l.geometry.size).toNat
  enough : distributed (l.update.items.map l.span) ≤ l.space
  spent : (∃ item ∈ l.items, 0 < item.stretch.toInt) →
    l.space < distributed (l.update.items.map l.span) + l.items.length

/-! ### Products -/

/-- The space that remains, if an `int32_t` can hold it. -/
def offered : ℕ := if l.space < 2 ^ 31 then l.space else 0

/-- The product of the space and the stretch of an item, which is divided by the number of the items.
Of the share that it gives 32 bits are kept, and nothing when it overflows together with the minimum
size. -/
def product (item : BoxItem) : ℕ :=
  let t := l.offered * item.stretch.toNat % (l.items.length * 2 ^ 32)
  if l.least item * l.items.length + t < l.items.length * 2 ^ 32 then t else 0

variable {l} {item : BoxItem} {items : List BoxItem} {a c : BitVec 32} {n : ℕ}

/-! ### The space -/

lemma toNat_foldl (f : BoxItem → BitVec 32) (m : BitVec 32) (items : List BoxItem) :
    (items.foldl (fun m item => m + f item) m).toNat =
      (m.toNat + (items.map fun item => (f item).toNat).sum) % 2 ^ 32 := by
  induction items generalizing m with
  | nil => simp [Nat.mod_eq_of_lt m.isLt]
  | cons item items ih =>
    rw [List.foldl_cons, ih, List.map_cons, List.sum_cons, BitVec.toNat_add, Nat.mod_add_mod, Nat.add_assoc]

lemma toNat_spacing (spacing : BitVec 32) (hn : 0 < n) :
    ((spacing.setWidth 64 * (BitVec.ofNat 64 n - 1)).setWidth 32).toNat =
      spacing.toNat * (n - 1) % 2 ^ 32 := by
  have hpred : BitVec.ofNat 64 n - 1 = BitVec.ofNat 64 (n - 1) := by
    obtain ⟨k, rfl⟩ : ∃ k, n = k + 1 := Nat.exists_eq_succ_of_ne_zero hn.ne'
    rw [Nat.add_sub_cancel, BitVec.ofNat_add]
    exact BitVec.add_sub_cancel _ _
  have hspacing : (spacing.setWidth 64).toNat = spacing.toNat := by
    rw [BitVec.toNat_setWidth]
    exact Nat.mod_eq_of_lt (spacing.isLt.trans (by norm_num))
  have hdvd : 2 ^ 32 ∣ 2 ^ 64 := Nat.pow_dvd_pow 2 (by norm_num)
  rw [hpred, BitVec.toNat_setWidth, BitVec.toNat_mul, hspacing, BitVec.toNat_ofNat, Nat.mod_mod_of_dvd _ hdvd,
    Nat.mul_mod, Nat.mod_mod_of_dvd _ hdvd, ← Nat.mul_mod]

lemma minSize_eq : l.minSize = l.items.foldl (fun m item => m + l.along item.widget.minSize) 0 +
    (l.spacing.setWidth 64 * (BitVec.ofNat 64 l.items.length - 1)).setWidth 32 := by
  rw [minSize]
  cases hh : l.isHorizontal <;> simp [along, hh]

lemma toNat_minSize (h : l.Admissible) (hn : 0 < l.items.length) : l.minSize.toNat = l.needed := by
  have hlt : l.needed < 2 ^ 32 := h.fits.trans_lt (l.along l.geometry.size).isLt
  have hsum := toNat_foldl (fun item => l.along item.widget.minSize) 0 l.items
  rw [minSize_eq, BitVec.toNat_add, hsum, toNat_spacing _ hn, ← Nat.add_mod]
  have hzero : (0 : BitVec 32).toNat = 0 := rfl
  rw [hzero, Nat.zero_add]
  exact Nat.mod_eq_of_lt hlt

lemma toNat_tuMax_zero : (tuMax a 0).toNat = if a.toNat < 2 ^ 31 then a.toNat else 0 := by
  have hslt : (0 : BitVec 32).slt a = decide (0 < a.toInt) := rfl
  rw [tuMax, hslt]
  have hint := BitVec.toInt_eq_toNat_cond a
  by_cases ha : a.toNat < 2 ^ 31
  · rw [if_pos ha]
    rw [if_pos (by omega)] at hint
    by_cases hpos : 0 < a.toInt
    · rw [decide_eq_true hpos, if_pos rfl]
    · rw [decide_eq_false hpos, if_neg Bool.false_ne_true]
      change 0 = _
      omega
  · rw [if_neg ha]
    rw [if_neg (by omega)] at hint
    have hneg : ¬0 < a.toInt := by
      have hlt := a.isLt
      omega
    rw [decide_eq_false hneg, if_neg Bool.false_ne_true]
    rfl

/-- The code offers the space that remains. -/
lemma toNat_remainingSpace (h : l.Admissible) (hn : 0 < l.items.length) :
    l.remainingSpace.toNat = l.offered := by
  have heq : l.remainingSpace = tuMax (l.along l.geometry.size - l.minSize) 0 := by
    rw [remainingSpace, along]
    cases l.isHorizontal <;> rfl
  have hmin := toNat_minSize h hn
  have hsub : (l.along l.geometry.size - l.minSize).toNat = l.space := by
    have hle : l.minSize ≤ l.along l.geometry.size := by
      rw [BitVec.le_def, hmin]
      exact h.fits
    rw [BitVec.toNat_sub_of_le hle, hmin, space]
  rw [heq, toNat_tuMax_zero, hsub, offered]

/-! ### The sizes -/

lemma offered_lt : l.offered < 2 ^ 31 := by
  rw [offered]
  split_ifs with h
  · exact h
  · norm_num

lemma toNat_signExtend (h : a.toNat < 2 ^ 31) : (a.signExtend 64).toNat = a.toNat := by
  have hmsb : a.msb = false := by
    rw [BitVec.msb_eq_decide]
    exact decide_eq_false (not_le.mpr h)
  rw [BitVec.signExtend_eq_setWidth_of_msb_false hmsb, BitVec.toNat_setWidth]
  exact Nat.mod_eq_of_lt (a.isLt.trans (by norm_num))

lemma toNat_stretch (h : 0 ≤ a.toInt) : a.toNat < 2 ^ 31 := by
  have hint := BitVec.toInt_eq_toNat_cond a
  by_contra hge
  rw [if_neg (by omega)] at hint
  have hlt := a.isLt
  omega

lemma toNat_extraSpace (ha : a.toNat < 2 ^ 31) (hc : c.toNat < 2 ^ 31) :
    (extraSpace a c n).toNat = a.toNat * c.toNat / n % 2 ^ 32 := by
  have hlt : a.toNat * c.toNat < 2 ^ 64 :=
    (Nat.mul_lt_mul'' ha hc).trans (by norm_num)
  rw [extraSpace, BitVec.toNat_ofNat, BitVec.toNat_mul, toNat_signExtend ha, toNat_signExtend hc,
    Nat.mod_eq_of_lt hlt]

/-- What an item gets in addition to its minimum size. -/
lemma toNat_tuClamp_asked (h : l.Admissible) (hitem : item ∈ l.items) :
    (tuClamp (l.asked item) (l.along item.widget.minSize) (l.along item.widget.maxSize)).toNat =
      l.least item + l.product item / l.items.length := by
  have hn : 0 < l.items.length := List.length_pos_of_mem hitem
  have hremaining := toNat_remainingSpace h hn
  have hoffered := hremaining ▸ @offered_lt l
  have hextra := toNat_extraSpace (n := l.items.length) hoffered (toNat_stretch (h.stretch item hitem))
  rw [hremaining, ← Nat.mod_mul_right_div_self] at hextra
  have hask : (l.asked item).toNat = (l.least item + (extraSpace l.remainingSpace item.stretch
      l.items.length).toNat) % 2 ^ 32 := BitVec.toNat_add _ _
  have hunlimited : (l.asked item).toNat ≤ (l.along item.widget.maxSize).toNat :=
    BitVec.le_def.mp (h.unlimited item hitem)
  have hleast : (l.along item.widget.minSize).toNat = l.least item := rfl
  have hmin : l.least item < 2 ^ 32 := (l.along item.widget.minSize).isLt
  rw [hextra] at hask
  rw [product]
  generalize ht : l.offered * item.stretch.toNat % (l.items.length * 2 ^ 32) = t at *
  have hlt : t / l.items.length < 2 ^ 32 := by
    apply Nat.div_lt_of_lt_mul
    rw [← ht]
    exact Nat.mod_lt _ (Nat.mul_pos hn (by norm_num))
  have hwraps : l.least item * l.items.length + t < l.items.length * 2 ^ 32 ↔
      l.least item + t / l.items.length < 2 ^ 32 := by
    rw [Nat.add_comm, Nat.mul_comm l.items.length (2 ^ 32), ← Nat.div_lt_iff_lt_mul hn,
      Nat.add_mul_div_right _ _ hn, Nat.add_comm]
  simp only [tuClamp, BitVec.lt_def, gt_iff_lt, hleast]
  by_cases hfits : l.least item + t / l.items.length < 2 ^ 32
  · rw [Nat.mod_eq_of_lt hfits] at hask
    rw [if_pos (hwraps.mpr hfits), if_neg (by omega), if_neg (by omega), hask]
  · -- the sum wraps to less than the minimum size
    have hsum : (l.asked item).toNat = l.least item + t / l.items.length - 2 ^ 32 := by omega
    rw [if_neg fun hlt => hfits (hwraps.mp hlt), if_pos (by omega), Nat.zero_div, Nat.add_zero, hleast]

/-! ### The places -/

/-- Items that follow one another, by the size and the minimum size of each. -/
def place (spacing : BitVec 32) :
    BitVec 32 → List (BitVec 32 × BitVec 32) → List (BitVec 32 × BitVec 32 × BitVec 32)
  | _, []                 => []
  | x, (size, min) :: rest => (x, size, min) :: place spacing (x + (size + spacing)) rest

/-- The size of an item after `update`, and its minimum size. -/
def sizes (item : BoxItem) : BitVec 32 × BitVec 32 :=
  (tuClamp (l.asked item) (l.along item.widget.minSize) (l.along item.widget.maxSize),
    l.along item.widget.minSize)

/-- Where an item is, its size and its minimum size. -/
def view (item : BoxItem) : BitVec 32 × BitVec 32 × BitVec 32 :=
  (l.start item.widget.position, l.along item.widget.size, l.along item.widget.minSize)

lemma view_updateHorizontal (h : l.isHorizontal = true) (y x : BitVec 32) (items : List BoxItem) :
    (l.updateHorizontal l.remainingSpace y x items).map l.view =
      place l.spacing x (items.map l.sizes) := by
  induction items generalizing x with
  | nil => rfl
  | cons item items ih =>
    rw [updateHorizontal, List.map_cons, ih, List.map_cons, place]
    simp [view, sizes, start, along, asked, h, TuWidget.resize_size]

lemma view_updateVertical (h : l.isHorizontal = false) (x y : BitVec 32) (items : List BoxItem) :
    (l.updateVertical l.remainingSpace x y items).map l.view =
      place l.spacing y (items.map l.sizes) := by
  induction items generalizing y with
  | nil => rfl
  | cons item items ih =>
    rw [updateVertical, List.map_cons, ih, List.map_cons, place]
    simp [view, sizes, start, along, asked, h, TuWidget.resize_size]

/-- Along the main axis a horizontal and a vertical layout are the same. -/
lemma view_update : l.update.items.map l.view =
    place l.spacing (l.start l.geometry.origin) (l.items.map l.sizes) := by
  rw [update]
  cases hh : l.isHorizontal with
  | true =>
    have hstart : l.start l.geometry.origin = l.geometry.origin.x := by rw [start, hh, if_pos rfl]
    simp only [if_true]
    rw [view_updateHorizontal hh, hstart]
  | false =>
    have hstart : l.start l.geometry.origin = l.geometry.origin.y := by
      rw [start, hh, if_neg Bool.false_ne_true]
    simp only [Bool.false_eq_true, if_false]
    rw [view_updateVertical hh, hstart]

/-- The view of an item in numbers. -/
def toSpan (v : BitVec 32 × BitVec 32 × BitVec 32) : Span := ⟨v.1.toInt, v.2.1.toNat, v.2.2.toNat⟩

lemma spans_update : l.update.items.map l.span =
    (place l.spacing (l.start l.geometry.origin) (l.items.map l.sizes)).map toSpan := by
  rw [← view_update, List.map_map]
  rfl

variable {g x : BitVec 32} {zs : List (BitVec 32 × BitVec 32)} {e : ℤ}

lemma distributed_place : distributed ((place g x zs).map toSpan) =
    (zs.map fun z => z.1.toNat - z.2.toNat).sum := by
  induction zs generalizing x with
  | nil => rfl
  | cons z zs ih =>
    obtain ⟨size, min⟩ := z
    have hrest := @ih (x + (size + g))
    rw [distributed] at hrest ⊢
    rw [place, List.map_cons, List.map_cons, List.sum_cons, hrest]
    rfl

lemma atLeast_place (h : ∀ z ∈ zs, z.2.toNat ≤ z.1.toNat) :
    ∀ s ∈ (place g x zs).map toSpan, s.least ≤ s.extent := by
  induction zs generalizing x with
  | nil => simp [place]
  | cons z zs ih =>
    obtain ⟨size, min⟩ := z
    rw [place, List.map_cons, List.forall_mem_cons]
    exact ⟨h _ List.mem_cons_self, ih fun z hz => h z (List.mem_cons_of_mem _ hz)⟩

/-- A coordinate moves on by a number of pixels, as long as it stays one. -/
lemma toInt_add_of_lt {m : ℕ} (hc : c.toNat = m % 2 ^ 32) (h : a.toInt + m < 2 ^ 31) :
    (a + c).toInt = a.toInt + m := by
  have ha := BitVec.toInt_eq_toNat_cond a
  have hac := BitVec.toInt_eq_toNat_cond (a + c)
  have hlt := a.isLt
  rw [BitVec.toNat_add] at hac
  have hm : m < 2 ^ 32 := by
    split_ifs at ha <;> omega
  rw [Nat.mod_eq_of_lt hm] at hc
  split_ifs at ha hac <;> omega

/-- The items stand side by side up to the end when their sizes and the spacing lead no further. -/
lemma place_inside (hend : x.toInt + (zs.map fun z => z.1.toNat).sum + g.toNat * (zs.length - 1 : ℕ) ≤ e)
    (he : e < 2 ^ 31) :
    ((place g x zs).map toSpan).IsChain (fun s t : Span =>
        t.start = s.start + (s.extent : ℤ) + (g.toNat : ℤ)) ∧
      ∀ s ∈ (place g x zs).map toSpan, x.toInt ≤ s.start ∧ s.start + s.extent ≤ e := by
  induction zs generalizing x with
  | nil => simp [place]
  | cons z zs ih =>
    obtain ⟨size, min⟩ := z
    rw [List.map_cons, List.sum_cons, List.length_cons, Nat.add_sub_cancel, Nat.cast_add] at hend
    dsimp only at hend
    rw [place, List.map_cons]
    cases zs with
    | nil =>
      simp only [place, List.map_nil, List.forall_mem_singleton, List.isChain_singleton, true_and, toSpan]
      simp only [List.map_nil, List.sum_nil, List.length_nil, Nat.cast_zero, mul_zero, add_zero] at hend
      omega
    | cons z' zs =>
      obtain ⟨size', min'⟩ := z'
      have hgaps : 0 ≤ (g.toNat : ℤ) * zs.length := by positivity
      have hlength : (((size', min') :: zs).length : ℤ) = zs.length + 1 := by simp
      rw [hlength, mul_add, mul_one] at hend
      have hnext : (x + (size + g)).toInt = x.toInt + (size.toNat + g.toNat : ℕ) := by
        apply toInt_add_of_lt (BitVec.toNat_add _ _)
        omega
      rw [Nat.cast_add] at hnext
      obtain ⟨hchain, hinside⟩ := ih (x := x + (size + g)) (by
        rw [hnext, List.length_cons, Nat.add_sub_cancel]
        omega)
      refine ⟨?_, ?_⟩
      · rw [place, List.map_cons] at hchain ⊢
        exact List.IsChain.cons_cons (by simp only [toSpan]; omega) hchain
      · rw [List.forall_mem_cons]
        refine ⟨⟨le_refl _, ?_⟩, fun s hs => ?_⟩
        · simp only [toSpan]
          omega
        · have hs' := hinside s hs
          omega

/-! ### The division -/

variable (l) in
/-- The total stretch counts as the number of the items: the products add up to no more than the space for
each item and what the divisions lose, and to enough when an item has a stretch. -/
structure Even : Prop where
  notOver : (l.items.map l.product).sum ≤
    l.space * l.items.length + (l.items.map fun item => l.product item % l.items.length).sum
  notUnder : (∃ item ∈ l.items, 0 < item.stretch.toInt) →
    l.space * l.items.length + (l.items.map fun item => l.product item % l.items.length).sum <
      (l.items.map l.product).sum + l.items.length * l.items.length

lemma extent_sizes (h : l.Admissible) (hitem : item ∈ l.items) :
    (l.sizes item).1.toNat = l.least item + l.product item / l.items.length :=
  toNat_tuClamp_asked h hitem

lemma distributed_update (h : l.Admissible) : distributed (l.update.items.map l.span) =
    ((l.items.map l.product).map (· / l.items.length)).sum := by
  rw [spans_update, distributed_place, List.map_map, List.map_map]
  congr 1
  apply List.map_congr_left
  intro item hitem
  have hextent := extent_sizes h hitem
  have hleast : (l.sizes item).2.toNat = l.least item := rfl
  simp only [Function.comp_apply]
  rw [hextent, hleast, Nat.add_sub_cancel_left]

lemma sum_extents (h : l.Admissible) : ((l.items.map l.sizes).map fun z => z.1.toNat).sum =
    (l.items.map l.least).sum + ((l.items.map l.product).map (· / l.items.length)).sum := by
  rw [List.map_map, List.map_map, ← List.sum_map_add]
  congr 1
  apply List.map_congr_left
  intro item hitem
  exact extent_sizes h hitem

lemma atLeast_update (h : l.Admissible) : ∀ s ∈ l.update.items.map l.span, s.least ≤ s.extent := by
  rw [spans_update]
  apply atLeast_place
  intro z hz
  obtain ⟨item, hitem, rfl⟩ := List.mem_map.mp hz
  have hextent := extent_sizes h hitem
  have hleast : (l.sizes item).2.toNat = l.least item := rfl
  rw [hextent, hleast]
  exact Nat.le_add_right _ _

/-- `update` keeps to the geometry when it distributes no more than the space that remains. -/
lemma inside_of_enough (h : l.Admissible)
    (henough : ((l.items.map l.product).map (· / l.items.length)).sum ≤ l.space) :
    (l.update.items.map l.span).IsChain (fun s t : Span =>
        t.start = s.start + (s.extent : ℤ) + (l.spacing.toNat : ℤ)) ∧
      ∀ s ∈ l.update.items.map l.span, (l.start l.geometry.origin).toInt ≤ s.start ∧
        s.start + s.extent ≤ (l.start l.geometry.origin).toInt + (l.along l.geometry.size).toNat := by
  rw [spans_update]
  apply place_inside _ h.ends
  rw [sum_extents h, List.length_map]
  have hfits := h.fits
  rw [space] at henough
  have htotal : (l.items.map l.least).sum + ((l.items.map l.product).map (· / l.items.length)).sum +
      l.spacing.toNat * (l.items.length - 1) ≤ (l.along l.geometry.size).toNat := by
    rw [needed] at henough hfits
    omega
  rw [add_assoc]
  apply Int.add_le_add_left
  exact_mod_cast htotal

lemma product_of_sum_stretch (h : l.Admissible) (hlt : l.space < 2 ^ 31)
    (hsum : (l.items.map fun item => item.stretch.toNat).sum = l.items.length) (hitem : item ∈ l.items) :
    l.product item = l.space * item.stretch.toNat := by
  have hn : 0 < l.items.length := List.length_pos_of_mem hitem
  have hstretch : item.stretch.toNat ≤ l.items.length :=
    hsum ▸ List.le_sum_of_mem (List.mem_map_of_mem (f := fun item : BoxItem => item.stretch.toNat) hitem)
  have hleast : l.least item ≤ (l.items.map l.least).sum := List.le_sum_of_mem (List.mem_map_of_mem hitem)
  have hwidth := (l.along l.geometry.size).isLt
  have hfits := h.fits
  have hmax : l.least item + l.space < 2 ^ 32 := by
    rw [space] at *
    rw [needed] at *
    omega
  have hle : l.space * item.stretch.toNat ≤ l.space * l.items.length := Nat.mul_le_mul_left _ hstretch
  have hshare : l.least item * l.items.length + l.space * item.stretch.toNat < l.items.length * 2 ^ 32 := by
    calc _ ≤ l.least item * l.items.length + l.space * l.items.length := Nat.add_le_add_left hle _
      _ = (l.least item + l.space) * l.items.length := (Nat.add_mul _ _ _).symm
      _ < 2 ^ 32 * l.items.length := Nat.mul_lt_mul_of_pos_right hmax hn
      _ = l.items.length * 2 ^ 32 := Nat.mul_comm _ _
  rw [product, offered, if_pos hlt, Nat.mod_eq_of_lt (by omega), if_pos hshare]

/-- The code divides rightly when the total stretch is the number of the items, as it is when every item
has the stretch 1. -/
theorem even_of_sum_stretch (h : l.Admissible) (hlt : l.space < 2 ^ 31)
    (hsum : (l.items.map fun item => item.stretch.toNat).sum = l.items.length) : l.Even := by
  have hproducts : (l.items.map l.product).sum = l.space * l.items.length := by
    rw [← hsum, ← List.sum_map_mul_left]
    congr 1
    apply List.map_congr_left
    intro item hitem
    exact product_of_sum_stretch h hlt hsum hitem
  refine ⟨hproducts ▸ Nat.le_add_right _ _, ?_⟩
  rintro ⟨item, hitem, -⟩
  have hn : 0 < l.items.length := List.length_pos_of_mem hitem
  have hlost : (l.items.map fun item => l.product item % l.items.length).sum <
      l.items.length * l.items.length := by
    have hlt := List.sum_lt_sum_of_ne_nil (List.ne_nil_of_mem hitem)
      (fun item => l.product item % l.items.length) (fun _ => l.items.length) (fun _ _ => Nat.mod_lt _ hn)
    rwa [List.map_const', List.sum_replicate, Nat.nsmul_eq_mul] at hlt
  rw [hproducts]
  exact Nat.add_lt_add_left hlost _

/-- A box layout places its items in the geometry exactly when the total stretch counts as the number of
the items, by which the code divides. -/
theorem sideBySide_iff (h : l.Admissible) : l.SideBySide ↔ l.Even := by
  have hdistributed := distributed_update h
  have hmap : (l.items.map fun item => l.product item % l.items.length) =
      (l.items.map l.product).map (· % l.items.length) := by
    rw [List.map_map]
    rfl
  rcases Nat.eq_zero_or_pos l.items.length with hn | hn
  · -- there is nothing to place
    have hnil := List.eq_nil_of_length_eq_zero hn
    have hempty : l.update.items.map l.span = [] := by
      rw [spans_update, hnil]
      rfl
    constructor
    · intro _
      refine ⟨?_, ?_⟩ <;> simp [hnil]
    · intro _
      refine ⟨?_, ?_, ?_, ?_, ?_⟩ <;> simp [hempty, hnil, distributed]
  have hover := @sum_div_le_iff _ l.space (l.items.map l.product) hn
  have hunder := @lt_sum_div_add_iff _ l.space (l.items.map l.product) hn
  constructor
  · intro hside
    refine ⟨?_, fun hstretch => ?_⟩
    · rw [hmap, ← hover, ← hdistributed]
      exact hside.enough
    · rw [hmap, ← hunder, ← hdistributed]
      exact hside.spent hstretch
  · intro heven
    have henough : ((l.items.map l.product).map (· / l.items.length)).sum ≤ l.space := by
      rw [hover, ← hmap]
      exact heven.notOver
    obtain ⟨hfollowing, hinside⟩ := inside_of_enough h henough
    refine ⟨hfollowing, atLeast_update h, hinside, ?_, fun hstretch => ?_⟩
    · rw [hdistributed]
      exact henough
    · rw [hdistributed, hunder, ← hmap]
      exact heven.notUnder hstretch

/-- Two items in a row, 100 pixels wide. -/
def row (stretch stretch' : BitVec 32) : TuBoxLayout :=
  let widget : TuWidget := ⟨⟨0, 0⟩, ⟨0, 0⟩, ⟨10, 10⟩, ⟨.allOnes 32, .allOnes 32⟩⟩
  let layout : TuBoxLayout :=
    { geometry := ⟨⟨0, 0⟩, ⟨100, 50⟩⟩, items := [], spacing := 0, isHorizontal := true }
  (layout.addWidget widget stretch).addWidget widget stretch'

lemma admissible_row_one : (row 1 1).Admissible := ⟨by decide, by decide, by decide, by decide⟩

lemma admissible_row_two : (row 1 2).Admissible := ⟨by decide, by decide, by decide, by decide⟩

theorem sideBySide_row : (row 1 1).Admissible ∧ ((row 1 1).SideBySide ↔ (row 1 1).Even) ∧ (row 1 1).Even :=
  ⟨admissible_row_one, sideBySide_iff admissible_row_one, by decide, by decide⟩

/-- With the stretch factors 1 and 2 the items get 40 and 80 of the 80 pixels that remain. -/
theorem not_sideBySide : ¬∀ l : TuBoxLayout, l.Admissible → l.SideBySide := by
  intro h
  have henough := (h _ admissible_row_two).enough
  have hnot : ¬distributed ((row 1 2).update.items.map (row 1 2).span) ≤ (row 1 2).space := by decide
  exact hnot henough

end TuBoxLayout

end PiKachulm.Tulip

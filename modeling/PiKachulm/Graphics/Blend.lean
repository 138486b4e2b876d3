import PiKachulm.Graphics.Painter

/-!
# Blending

`draw_pixel` mixes each component of a colour with that of the pixel, rounded down. Text is drawn in one
colour, with the alpha values of the font: how often it has been drawn over a pixel can be seen, until the
rounding lets nothing change any more.
-/

namespace PiKachulm.Graphics

open Core

/-- The positions of the blue, the green and the red component. -/
def shifts : List ℕ := [0, 8, 16]

/-- A component of a colour; the one at 24 is its alpha value. -/
def component (shift : ℕ) (color : Color) : ℕ := color.toNat / 2 ^ shift % 256

/-- `alpha * src + (1 - alpha) * dst`, for values from 0 to 255. -/
def mix (alpha src dst : ℕ) : ℕ := (alpha * src + (255 - alpha) * dst) / 255

/-- A component over which the pixels of a text are drawn. -/
def mixText (src : ℕ) (alphas : List UInt8) (dst : ℕ) : ℕ :=
  alphas.foldl (fun dst alpha => mix alpha.toNat src dst) dst

/-! ### Components -/

variable {src dst color v v' : Color} {shift n : ℕ}

lemma component_lt : component shift color < 256 := Nat.mod_lt _ (by decide)

lemma mix_lt {alpha src dst : ℕ} (halpha : alpha < 256) (hsrc : src < 256) (hdst : dst < 256) :
    mix alpha src dst < 256 := by
  have hsrc' : alpha * src ≤ alpha * 255 := Nat.mul_le_mul_left _ (Nat.le_of_lt_succ hsrc)
  have hdst' : (255 - alpha) * dst ≤ (255 - alpha) * 255 := Nat.mul_le_mul_left _ (Nat.le_of_lt_succ hdst)
  rw [mix]
  omega

lemma toNat_component {k : UInt32} (hk : k.toNat < 32) :
    ((color >>> k) &&& 0xff).toNat = component k.toNat color := by
  have hmask : (0xff : UInt32).toNat = 2 ^ 8 - 1 := rfl
  rw [UInt32.toNat_and, UInt32.toNat_shiftRight, Nat.mod_eq_of_lt hk, hmask, Nat.and_two_pow_sub_one_eq_mod,
    Nat.shiftRight_eq_div_pow, component]

lemma toNat_blendComponent {k alpha : UInt32} (hk : k.toNat < 32) (halpha : alpha.toNat < 256)
    (src dst : Color) : (blendComponent k alpha src dst).toNat =
      mix alpha.toNat (component k.toNat src) (component k.toNat dst) := by
  have hsrc : component k.toNat src < 256 := component_lt
  have hdst : component k.toNat dst < 256 := component_lt
  have hrest : ((255 : UInt32) - alpha).toNat = 255 - alpha.toNat :=
    UInt32.toNat_sub_of_le _ _ (UInt32.le_iff_toNat_le.mpr (Nat.le_of_lt_succ halpha))
  have hdiv : (255 : UInt32).toNat = 255 := rfl
  have hsrc' : alpha.toNat * component k.toNat src ≤ 255 * 255 := Nat.mul_le_mul (by omega) (by omega)
  have hdst' : (255 - alpha.toNat) * component k.toNat dst ≤ 255 * 255 := Nat.mul_le_mul (by omega) (by omega)
  rw [blendComponent, UInt32.toNat_div, UInt32.toNat_add, UInt32.toNat_mul, UInt32.toNat_mul, hrest, hdiv,
    toNat_component hk, toNat_component hk, Nat.mod_eq_of_lt (b := 2 ^ 32) (by omega),
    Nat.mod_eq_of_lt (b := 2 ^ 32) (by omega), Nat.mod_eq_of_lt (b := 2 ^ 32) (by omega), mix]

/-- The components of a blended colour do not overlap. -/
lemma toNat_blend (src dst : Color) : (blend src dst).toNat =
    mix (component 24 src) (component 16 src) (component 16 dst) * 2 ^ 16 +
      mix (component 24 src) (component 8 src) (component 8 dst) * 2 ^ 8 +
        mix (component 24 src) (component 0 src) (component 0 dst) := by
  have halpha : ((src >>> 24) &&& 0xff).toNat = component 24 src := toNat_component (by decide)
  have hred := toNat_blendComponent (k := 16) (by decide) (halpha ▸ component_lt) src dst
  have hgreen := toNat_blendComponent (k := 8) (by decide) (halpha ▸ component_lt) src dst
  have hblue := toNat_blendComponent (k := 0) (by decide) (halpha ▸ component_lt) src dst
  rw [halpha] at hred hgreen hblue
  have hlt : ∀ shift, mix (component 24 src) (component shift src) (component shift dst) < 2 ^ 8 :=
    fun _ => mix_lt component_lt component_lt component_lt
  have h₁₆ : UInt32.toNat 16 = 16 := rfl
  have h₈ : UInt32.toNat 8 = 8 := rfl
  have h₀ : UInt32.toNat 0 = 0 := rfl
  rw [h₁₆] at hred
  rw [h₈] at hgreen
  rw [h₀] at hblue
  have h₁ := hlt 16
  have h₂ := hlt 8
  have h₃ := hlt 0
  rw [blend, UInt32.toNat_or, UInt32.toNat_or, UInt32.toNat_shiftLeft, UInt32.toNat_shiftLeft, hred, hgreen, hblue,
    h₁₆, h₈]
  generalize mix (component 24 src) (component 16 src) (component 16 dst) = r at *
  generalize mix (component 24 src) (component 8 src) (component 8 dst) = g at *
  generalize mix (component 24 src) (component 0 src) (component 0 dst) = b at *
  have hr : r <<< (16 % 32) % 2 ^ 32 = (r <<< 8) <<< 8 := by
    rw [← Nat.shiftLeft_add, Nat.shiftLeft_eq]
    show r * 2 ^ 16 % 2 ^ 32 = r * 2 ^ 16
    omega
  have hg : g <<< (8 % 32) % 2 ^ 32 = g <<< 8 := by
    rw [Nat.shiftLeft_eq]
    show g * 2 ^ 8 % 2 ^ 32 = g * 2 ^ 8
    omega
  have hhigh : r <<< 8 ||| g = r * 2 ^ 8 + g := by
    rw [← Nat.shiftLeft_add_eq_or_of_lt h₂, Nat.shiftLeft_eq]
  rw [hr, hg, ← Nat.shiftLeft_or_distrib, hhigh, ← Nat.shiftLeft_add_eq_or_of_lt h₃, Nat.shiftLeft_eq]
  omega

/-- Each component is mixed with the same alpha value. -/
lemma component_blend (hshift : shift ∈ shifts) : component shift (blend src dst) =
    mix (component 24 src) (component shift src) (component shift dst) := by
  have hlt : ∀ shift, mix (component 24 src) (component shift src) (component shift dst) < 256 :=
    fun _ => mix_lt component_lt component_lt component_lt
  have h₁ := hlt 16
  have h₂ := hlt 8
  have h₃ := hlt 0
  rw [component, toNat_blend]
  simp only [shifts, List.mem_cons, List.not_mem_nil, or_false] at hshift
  rcases hshift with rfl | rfl | rfl <;> omega

/-- A colour without alpha is known by its components. -/
lemma eq_of_component (hv : v.toNat < 2 ^ 24) (hv' : v'.toNat < 2 ^ 24)
    (h : ∀ shift ∈ shifts, component shift v = component shift v') : v = v' := by
  have h₀ := h 0 (by decide)
  have h₈ := h 8 (by decide)
  have h₁₆ := h 16 (by decide)
  rw [component, component] at h₀ h₈ h₁₆
  apply UInt32.toNat_inj.mp
  omega

/-- Blending again and again mixes the components again and again. -/
lemma component_iterate {f : Color → Color} {g : ℕ → ℕ} (h : ∀ v, component shift (f v) = g (component shift v))
    (n : ℕ) (v : Color) : component shift (f^[n] v) = g^[n] (component shift v) :=
  Function.Semiconj.iterate_right (f := component shift) h n v

/-- A colour that is not transparent hides what was there. -/
lemma blend_of_solid (h : component 24 src = 255) (v v' : Color) : blend src v = blend src v' := by
  refine eq_of_component (Painter.blend_lt _ _) (Painter.blend_lt _ _) fun shift hshift => ?_
  rw [component_blend hshift, component_blend hshift, h, mix, mix, Nat.sub_self, Nat.zero_mul, Nat.zero_mul]

/-! ### Text -/

namespace Painter

variable {p : Painter} {x y w : Int32} {i : ℕ} {l l' : List ((Int32 × Int32) × UInt8)}

/-- The pixels of `draw_alpha_map`, with their alpha values. -/
def alphaPixels (x y : Int32) (alphaMap : ℕ → UInt8) (w h : UInt32) : List ((Int32 × Int32) × UInt8) :=
  (upTo w).flatMap fun i => (upTo h).map fun j =>
    (((x.toUInt32 + i).toInt32, (y.toUInt32 + j).toInt32), alphaMap (i + j * w).toNat)

/-- The pixels of the characters that `draw_text` draws from a position on. -/
def textPixels (p : Painter) (x w : Int32) : List UInt8 → Int32 → Int32 → List ((Int32 × Int32) × UInt8)
  | [], _, _ => []
  | ch :: text, currentX, currentY =>
    if PKFont.supports ch then
      if currentX > p.clipping.xMax then textPixels p x w text currentX currentY
      else
        let q := p.placeChar x w currentX currentY
        let nextX := (q.1.toUInt32 + p.font.horizontalAdvance).toInt32
        alphaPixels q.1 q.2 (p.font.glyph ch) p.font.charWidth p.font.charHeight ++
          if q.2 > p.clipping.yMax then [] else textPixels p x w text nextX q.2
    else
      let q := p.skipChar x ch currentX currentY
      if q.2 > p.clipping.yMax then [] else textPixels p x w text q.1 q.2

/-- Pixels are drawn with their alpha values. -/
def drawAlphas (p : Painter) (color : Color) (l : List ((Int32 × Int32) × UInt8)) : Accesses :=
  l.flatMap fun q => p.drawPixel q.1.1 q.1.2 (withAlpha color q.2)

/-- The alpha values of the pixels that are drawn in a cell. -/
def alphasAt (p : Painter) (i : ℕ) (l : List ((Int32 × Int32) × UInt8)) : List UInt8 :=
  (l.filter fun q => !p.clips q.1.1 q.1.2 && p.index q.1.1.toUInt32 q.1.2.toUInt32 = i).map Prod.snd

lemma drawAlphas_append : p.drawAlphas color (l ++ l') = p.drawAlphas color l ++ p.drawAlphas color l' :=
  List.flatMap_append

lemma drawAlphaMap_eq {alphaMap : ℕ → UInt8} {w h : UInt32} :
    p.drawAlphaMap x y alphaMap w h color = p.drawAlphas color (alphaPixels x y alphaMap w h) := by
  rw [drawAlphas, alphaPixels, List.flatMap_assoc]
  simp only [List.flatMap_map]
  rfl

lemma drawChars_eq (text : List UInt8) (currentX currentY : Int32) :
    p.drawChars x w color text currentX currentY =
      p.drawAlphas color (p.textPixels x w text currentX currentY) := by
  induction text generalizing currentX currentY with
  | nil => rfl
  | cons ch text ih =>
    have hrest : ∀ nextX nextY : Int32,
        (if nextY > p.clipping.yMax then [] else p.drawChars x w color text nextX nextY) =
          p.drawAlphas color (if nextY > p.clipping.yMax then [] else p.textPixels x w text nextX nextY) := by
      intro nextX nextY
      split_ifs
      · rfl
      · exact ih nextX nextY
    rw [drawChars, textPixels]
    by_cases hch : PKFont.supports ch = true
    · rw [if_pos hch, if_pos hch]
      by_cases hright : currentX > p.clipping.xMax
      · rw [if_pos hright, if_pos hright]
        exact ih currentX currentY
      · rw [if_neg hright, if_neg hright]
        dsimp only
        rw [drawAlphas_append, drawAlphaMap_eq, hrest]
    · rw [if_neg hch, if_neg hch]
      exact hrest _ _

/-- The cell is blended with the colour once for each of its alpha values. -/
lemma effect_drawAlphas (v : Color) : Access.effect (p.drawAlphas color l) i v =
    (p.alphasAt i l).foldl (fun v alpha => blend (withAlpha color alpha) v) v := by
  rw [drawAlphas, alphasAt]
  induction l generalizing v with
  | nil => rfl
  | cons q l ih =>
    rw [List.flatMap_cons, Access.effect_append, ih, drawPixel]
    by_cases hclip : p.clips q.1.1 q.1.2 = true
    · rw [if_pos hclip, List.filter_cons_of_neg (by simp [hclip])]
      rfl
    · rw [if_neg hclip, Access.effect_cons, Access.effect_nil]
      by_cases hindex : p.index q.1.1.toUInt32 q.1.2.toUInt32 = i
      · rw [if_pos hindex, List.filter_cons_of_pos (by simp [hclip, hindex])]
        rfl
      · rw [if_neg hindex, List.filter_cons_of_neg (by simp [hindex])]

end Painter

lemma component_withAlpha {alpha : UInt8} : component 24 (withAlpha color alpha) = alpha.toNat ∧
    ∀ shift ∈ shifts, component shift (withAlpha color alpha) = component shift color := by
  have halpha := alpha.toNat_lt
  have hmask : (0xffffff : UInt32).toNat = 2 ^ 24 - 1 := rfl
  have h₂₄ : (24 : UInt32).toNat = 24 := rfl
  have hlow : color.toNat % 2 ^ 24 < 2 ^ 24 := Nat.mod_lt _ (by decide)
  have hhigh : alpha.toNat <<< (24 % 32) % 2 ^ 32 = alpha.toNat <<< 24 := by
    rw [Nat.shiftLeft_eq]
    show alpha.toNat * 2 ^ 24 % 2 ^ 32 = alpha.toNat * 2 ^ 24
    omega
  have hnat : (withAlpha color alpha).toNat = alpha.toNat * 2 ^ 24 + color.toNat % 2 ^ 24 := by
    rw [withAlpha, UInt32.toNat_or, UInt32.toNat_and, hmask, Nat.and_two_pow_sub_one_eq_mod, UInt32.toNat_shiftLeft,
      UInt8.toNat_toUInt32, h₂₄, hhigh, Nat.or_comm, ← Nat.shiftLeft_add_eq_or_of_lt hlow, Nat.shiftLeft_eq]
  constructor
  · rw [component, hnat]
    omega
  · intro shift hshift
    rw [component, component, hnat]
    simp only [shifts, List.mem_cons, List.not_mem_nil, or_false] at hshift
    rcases hshift with rfl | rfl | rfl <;> omega

/-- The components of a cell over which text is drawn. -/
lemma component_text (hshift : shift ∈ shifts) (alphas : List UInt8) (v : Color) :
    component shift (alphas.foldl (fun v alpha => blend (withAlpha color alpha) v) v) =
      mixText (component shift color) alphas (component shift v) := by
  rw [mixText]
  induction alphas generalizing v with
  | nil => rfl
  | cons alpha alphas ih =>
    rw [List.foldl_cons, ih, component_blend hshift, component_withAlpha.1, component_withAlpha.2 shift hshift,
      List.foldl_cons]

end PiKachulm.Graphics

import PiKachulm.Mmu.Tree

/-!
# Which entries a range reaches, and what splitting keeps

`Touches k vs ve p` says that the slot of height `k` of page `p` meets the pages from `vs` to
`ve`. `Part δ attr p x` says that the leaf `x` maps page `p` displaced by `δ` with attributes
`attr`, and `Keeps p r r'` that page `p` is mapped by `r'` as it was by `r`, through a leaf that
may have become smaller.
-/

namespace PiKachulm.Mmu

open Core

variable {k h n N p vs ve i : ℕ}

/-! ### First and last pages -/

lemma firstPage_le : firstPage k p ≤ p := lo_slot_le

lemma le_lastPage : p ≤ lastPage k p := le_hi_slot

@[simp] lemma firstPage_zero : firstPage 0 p = p := by simp [firstPage]

@[simp] lemma lastPage_zero : lastPage 0 p = p := by simp [lastPage]

lemma firstPage_anti (hk : h ≤ k) : firstPage k p ≤ firstPage h p := lo_slot_anti hk

lemma lastPage_mono (hk : h ≤ k) : lastPage h p ≤ lastPage k p := hi_slot_mono hk

lemma firstPage_eq (hp : slot 512 k p = n) : firstPage k p = lo 512 k n := by rw [firstPage, hp]

lemma lastPage_eq (hp : slot 512 k p = n) : lastPage k p = hi 512 k n := by rw [lastPage, hp]

/-- The first entry of a table ends where `entryVaStop` says, the others start after it. -/
lemma entryVaStop_of_first (hn : n % 512 = 0) : entryVaStop k n = hi 512 k n := by
  rw [entryVaStop]
  congr 1
  omega

lemma entryVaStop_lt (hn : n % 512 ≠ 0) : entryVaStop k n < lo 512 k n := hi_lt_lo (by omega)

/-! ### Touched entries -/

def Touches (k vs ve p : ℕ) : Prop :=
  vs ≤ ve ∧ slot 512 k vs ≤ slot 512 k p ∧ slot 512 k p ≤ slot 512 k ve

instance : Decidable (Touches k vs ve p) := inferInstanceAs (Decidable (_ ∧ _ ∧ _))

lemma touches_of_mem (h₁ : vs ≤ p) (h₂ : p ≤ ve) : Touches k vs ve p :=
  ⟨h₁.trans h₂, slot_le_slot h₁, slot_le_slot h₂⟩

@[simp] lemma touches_zero : Touches 0 vs ve p ↔ vs ≤ p ∧ p ≤ ve := by
  simp only [Touches, slot_zero]
  omega

lemma slot_le_of_le {a c : ℕ} (hk : h ≤ k) (hac : slot 512 h a ≤ slot 512 h c) :
    slot 512 k a ≤ slot 512 k c := by
  induction hk with
  | refl => exact hac
  | @step k _ ih =>
    rw [slot_succ, slot_succ]
    exact Nat.div_le_div_right ih

lemma Touches.mono (hk : h ≤ k) (ht : Touches h vs ve p) : Touches k vs ve p :=
  ⟨ht.1, slot_le_of_le hk ht.2.1, slot_le_of_le hk ht.2.2⟩

lemma Touches.firstPage_le (ht : Touches k vs ve p) : firstPage k p ≤ ve :=
  (lo_le_lo ht.2.2).trans lo_slot_le

lemma Touches.le_lastPage (ht : Touches k vs ve p) : vs ≤ lastPage k p :=
  le_hi_slot.trans (hi_le_hi ht.2.1)

/-- A slot is touched when its first page is not after the range nor its last page before it. -/
lemma touches_iff : Touches k vs ve p ↔ vs ≤ ve ∧ vs ≤ lastPage k p ∧ firstPage k p ≤ ve := by
  refine ⟨fun ht => ⟨ht.1, ht.le_lastPage, ht.firstPage_le⟩, fun ⟨hv, h₁, h₂⟩ => ⟨hv, ?_, ?_⟩⟩
  · rw [← slot_hi (b := 512) (k := k) (n := slot 512 k p)]
    exact slot_le_slot h₁
  · rw [← slot_lo (b := 512) (k := k) (n := slot 512 k p)]
    exact slot_le_slot h₂

lemma mem_touched :
    i ∈ touched k N vs ve ↔
      i < 512 ∧ slot 512 k vs ≤ N * 512 + i ∧ N * 512 + i ≤ slot 512 k ve := by
  rw [touched, List.mem_range'_1]
  omega

lemma nodup_touched : (touched k N vs ve).Nodup := List.nodup_range' _

lemma slot_index (hp : slot 512 (k + 1) p = N) : N * 512 + slot 512 k p % 512 = slot 512 k p := by
  rw [slot_succ] at hp
  omega

section

variable {op : ℕ → PageTree × History VirtualPA → Option (PageTree × History VirtualPA)}
  {x y : Table × History VirtualPA}

/-- The entry of a touched page is the result of `op` on that entry. -/
lemma onTable_touches (hop : onTable k N vs ve op x = some y) (hp : slot 512 (k + 1) p = N)
    (ht : Touches k vs ve p) :
    ∃ c c', op (slot 512 k p) (x.1 (slot 512 k p % 512), c) =
      some (y.1 (slot 512 k p % 512), c') := by
  rw [onTable, if_neg (not_lt.mpr ht.1)] at hop
  have hmem : slot 512 k p % 512 ∈ touched k N vs ve := by
    rw [mem_touched, slot_index hp]
    exact ⟨Nat.mod_lt _ (by norm_num), ht.2⟩
  simpa only [slot_index hp] using (updateCells_cell nodup_touched hop).2 _ hmem

/-- The entry of any other page is left alone. -/
lemma onTable_not_touches (hop : onTable k N vs ve op x = some y) (hp : slot 512 (k + 1) p = N)
    (ht : ¬Touches k vs ve p) : y.1 (slot 512 k p % 512) = x.1 (slot 512 k p % 512) := by
  by_cases hv : ve < vs
  · rw [onTable, if_pos hv] at hop
    cases hop
    rfl
  · rw [onTable, if_neg hv] at hop
    apply (updateCells_cell nodup_touched hop).1
    rw [mem_touched, slot_index hp]
    exact fun hmem => ht ⟨not_lt.mp hv, hmem.2⟩

/-- An empty range changes nothing. -/
lemma onTable_of_lt (hv : ve < vs) : onTable k N vs ve op x = some x := by
  rw [onTable, if_pos hv]

/-- A walk changes nothing in a table that lies outside its range. -/
lemma onTable_of_disjoint (hN : slot 512 (k + 1) ve < N ∨ N < slot 512 (k + 1) vs) :
    onTable k N vs ve op x = some x := by
  rw [onTable]
  split
  · rfl
  · have hnil : touched k N vs ve = [] := by
      rw [touched]
      rw [slot_succ, slot_succ] at hN
      have : min (slot 512 k ve + 1) ((N + 1) * 512) - max (slot 512 k vs) (N * 512) = 0 := by
        omega
      rw [this]
      rfl
    rw [hnil, updateCells_nil]

end

/-! ### Parts of a linear mapping -/

/-- The leaf `x`, found for page `p` with its height, maps its slot displaced by `δ`. -/
def Part (δ : ℕ) (attr : PagesAttributes) (p : ℕ) (x : ℕ × Mapping) : Prop :=
  x.2.attr = attr ∧ x.2.frame = (firstPage x.1 p + δ) % 2 ^ 36

/-- The displacement of the leaf `x` found for page `p`. -/
def leafDisp (p : ℕ) (x : ℕ × Mapping) : ℕ := displacement x.2.frame (firstPage x.1 p)

/-- Page `p` is mapped by `r'` as it was by `r`, or by neither. -/
inductive Keeps (p : ℕ) : Option (ℕ × Mapping) → Option (ℕ × Mapping) → Prop
  | unmapped : Keeps p none none
  | mapped {x x' : ℕ × Mapping} (hle : x'.1 ≤ x.1) (hpart : Part (leafDisp p x) x.2.attr p x') :
      Keeps p (some x) (some x')

/-- Page `p` is mapped by `r` through a leaf of height `h`, displaced by `δ`. -/
def MapsTo (h δ : ℕ) (attr : PagesAttributes) (p : ℕ) (r : Option (ℕ × Mapping)) : Prop :=
  ∃ x, r = some x ∧ x.1 = h ∧ Part δ attr p x

variable {δ : ℕ} {attr : PagesAttributes} {x x' : ℕ × Mapping}

lemma leafDisp_of_part (hp : p < 2 ^ 52) (hx : Part δ attr p x) :
    leafDisp p x = δ % 2 ^ 36 := by
  have hle : firstPage x.1 p ≤ p := firstPage_le
  rw [leafDisp, displacement, hx.2]
  omega

/-- A leaf is a part of itself. -/
lemma part_self (hp : p < 2 ^ 52) (hx : x.2.frame < 2 ^ 36) :
    Part (leafDisp p x) x.2.attr p x := by
  have hle : firstPage x.1 p ≤ p := firstPage_le
  refine ⟨rfl, ?_⟩
  rw [leafDisp, displacement]
  omega

/-- A part of a part is a part of the whole. -/
lemma Part.trans (hp : p < 2 ^ 52) (hx : Part δ attr p x)
    (hx' : Part (leafDisp p x) x.2.attr p x') : Part δ attr p x' := by
  refine ⟨hx'.1.trans hx.1, ?_⟩
  rw [hx'.2, leafDisp_of_part hp hx]
  omega

lemma Keeps.refl (hp : p < 2 ^ 52) {r : Option (ℕ × Mapping)}
    (hr : ∀ x, r = some x → x.2.frame < 2 ^ 36) : Keeps p r r := by
  cases r with
  | none => exact .unmapped
  | some x => exact .mapped le_rfl (part_self hp (hr x rfl))

lemma Keeps.trans (hp : p < 2 ^ 52) {r r' r'' : Option (ℕ × Mapping)} (h₁ : Keeps p r r')
    (h₂ : Keeps p r' r'') : Keeps p r r'' := by
  cases h₁ with
  | unmapped => exact h₂
  | mapped hle hpart =>
    cases h₂ with
    | mapped hle' hpart' => exact .mapped (hle'.trans hle) (hpart.trans hp hpart')

lemma Keeps.none_left {r : Option (ℕ × Mapping)} (hr : Keeps p none r) : r = none := by
  cases hr
  rfl

lemma Keeps.some_left {r : Option (ℕ × Mapping)} (hr : Keeps p (some x) r) :
    ∃ x', r = some x' ∧ x'.1 ≤ x.1 ∧ Part (leafDisp p x) x.2.attr p x' := by
  cases hr with
  | mapped hle hpart => exact ⟨_, rfl, hle, hpart⟩

end PiKachulm.Mmu

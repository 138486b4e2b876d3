import PiKachulm.Boot.Ranges
import PiKachulm.Libk.Utils
import Mathlib.Data.BitVec
import Mathlib.Tactic.Abel

/-!
# Bus addresses for DMA

`resolve_kernel_va` asks the processor for the physical page of an address and puts the address back
together, `get_dma_bus_address` finds the entry of `dma-ranges` that the result lies in. The processor's
answer, the register `PAR_EL1` after an `AT` instruction, is a parameter.
-/

namespace PiKachulm.Hardware

open Boot Libk

/-- `PAR_EL1` after `at s1e1r` or `at s1e1w` on an address. -/
abbrev AddressTranslation := BitVec 64 → Bool → BitVec 64

/-- `none` is a panic. -/
def resolveKernelVa (par : AddressTranslation) (va : BitVec 64) (readOnly : Bool) : Option (BitVec 64) :=
  if par va readOnly &&& 0x1 ≠ 0 then none
  else some ((par va readOnly &&& maskBits 12 47) ||| (va &&& maskBits 1 11))

/-- The loop of `get_dma_bus_address`. -/
def getDmaBusAddressFrom (m : SocMemoryProperties) (p : Property) (pa : BitVec 64) (index : ℕ) :
    Option (BitVec 64) :=
  if index < p.length then
    match _h₁ : p.getVariableInt index m.isSocMemAddressU64 with
    | none                => none
    | some (socStart, i₁) =>
      match _h₂ : p.getVariableInt i₁ m.isArmMemAddressU64 with
      | none                => none
      | some (armStart, i₂) =>
        match _h₃ : p.getVariableInt i₂ m.isSocMemSizeU64 with
        | none                => none
        | some (length, next) =>
          if BitVec.ofNat 64 armStart ≤ pa ∧ pa < BitVec.ofNat 64 armStart + BitVec.ofNat 64 length then
            some (BitVec.ofNat 64 socStart + (pa - BitVec.ofNat 64 armStart))
          else getDmaBusAddressFrom m p pa next
  else none
termination_by p.length - index
decreasing_by
  have hlt₁ := Property.lt_of_getVariableInt _h₁
  have hlt₂ := Property.lt_of_getVariableInt _h₂
  have hlt₃ := Property.lt_of_getVariableInt _h₃
  omega

/-- `dmaRanges` is `_soc_dma_range`. -/
def getDmaBusAddress (par : AddressTranslation) (m : SocMemoryProperties) (dmaRanges : Property)
    (va : BitVec 64) (readOnly : Bool) : Option (BitVec 64) := do
  let pa ← resolveKernelVa par va readOnly
  getDmaBusAddressFrom m dmaRanges pa 0

/-! ### The entry of an address -/

variable {m : SocMemoryProperties} {p : Property} {pa va frame : BitVec 64} {l : List SocRange}
  {r r' : SocRange} {index : ℕ} {par : AddressTranslation} {readOnly : Bool}

/-- The sum that the loop forms does not wrap. -/
def ArmFits (l : List SocRange) : Prop := ∀ r ∈ l, r.armStart.toNat + r.size.toNat < 2 ^ 64

/-- No physical address lies in two entries. -/
def ArmDisjoint (l : List SocRange) : Prop :=
  l.Pairwise fun r r' => ∀ pa, ¬(r.Covers pa ∧ r'.Covers pa)

lemma getDmaBusAddressFrom_of_next {next : ℕ} (hlt : index < p.length)
    (h : p.nextRange m index = some (r, next)) (hfits : r.armStart.toNat + r.size.toNat < 2 ^ 64) :
    getDmaBusAddressFrom m p pa index =
      if r.Covers pa then some (r.busOf pa) else getDmaBusAddressFrom m p pa next := by
  obtain ⟨socStart, armStart, size, i₁, i₂, h₁, h₂, h₃, rfl⟩ := Property.nextRange_eq_some h
  have hcovers : (BitVec.ofNat 64 armStart ≤ pa ∧ pa < BitVec.ofNat 64 armStart + BitVec.ofNat 64 size) ↔
      SocRange.Covers ⟨.ofNat 64 socStart, .ofNat 64 armStart, .ofNat 64 size⟩ pa := by
    rw [SocRange.Covers, BitVec.le_def, BitVec.lt_def, BitVec.toNat_add, Nat.mod_eq_of_lt hfits]
  rw [getDmaBusAddressFrom, if_pos hlt]
  split
  next heq => simp [h₁] at heq
  next heq =>
    cases heq.symm.trans h₁
    split
    next heq => simp [h₂] at heq
    next heq =>
      cases heq.symm.trans h₂
      split
      next heq => simp [h₃] at heq
      next heq =>
        cases heq.symm.trans h₃
        simp only [hcovers, SocRange.busOf]

/-- The entries are searched in their order. -/
lemma getDmaBusAddressFrom_eq (h : p.ranges m index = some l) (hfits : ArmFits l) :
    getDmaBusAddressFrom m p pa index = (l.find? fun r => r.Covers pa).map fun r => r.busOf pa := by
  induction l generalizing index with
  | nil =>
    rw [getDmaBusAddressFrom, if_neg (Property.ranges_eq_nil h)]
    rfl
  | cons r l ih =>
    obtain ⟨hlt, next, hnext, hrest⟩ := Property.ranges_eq_cons h
    obtain ⟨hr, hl⟩ := List.forall_mem_cons.mp hfits
    rw [getDmaBusAddressFrom_of_next hlt hnext hr, List.find?_cons]
    by_cases hcovers : r.Covers pa
    · simp [hcovers]
    · simp [hcovers, ih hrest hl]

/-- An address is found in the one entry that holds it. -/
lemma find?_covers (hdisjoint : ArmDisjoint l) (hr : r ∈ l) (hcovers : r.Covers pa) :
    (l.find? fun r => r.Covers pa) = some r := by
  refine find?_of_pairwise (hdisjoint.imp fun h => ?_) hr (decide_eq_true hcovers)
  simpa using h pa

/-! ### The physical address -/

/-- The address in the page at `frame` at the offset of `va`. -/
def physicalOf (frame va : BitVec 64) : BitVec 64 := frame + (va &&& maskBits 0 11)

lemma toNat_offset (va : BitVec 64) : (va &&& maskBits 0 11).toNat = va.toNat % 4096 := by
  rw [toNat_and_maskBits va (by decide) (by decide)]
  omega

/-- What `resolve_kernel_va` puts together lacks the lowest bit of the address. -/
lemma resolveKernelVa_eq (hmapped : par va readOnly &&& 0x1 = 0)
    (hframe : par va readOnly &&& maskBits 12 47 = frame) :
    resolveKernelVa par va readOnly = some (physicalOf frame va - BitVec.ofNat 64 (va.toNat % 2)) := by
  have hdisjoint : (par va readOnly &&& maskBits 12 47) &&& (va &&& maskBits 1 11) = 0 := by
    have hmask : maskBits 12 47 &&& maskBits 1 11 = 0 := by decide
    have hcomm : (par va readOnly &&& maskBits 12 47) &&& (va &&& maskBits 1 11) =
        (par va readOnly &&& va) &&& (maskBits 12 47 &&& maskBits 1 11) := by ac_rfl
    rw [hcomm, hmask]
    exact BitVec.and_zero
  have hoffset : (va &&& maskBits 1 11) = (va &&& maskBits 0 11) - BitVec.ofNat 64 (va.toNat % 2) := by
    have hodd : va.toNat % 2 < 2 ^ 64 := (Nat.mod_lt _ (by decide)).trans (by decide)
    have hle : BitVec.ofNat 64 (va.toNat % 2) ≤ va &&& maskBits 0 11 := by
      rw [BitVec.le_def, toNat_offset, BitVec.toNat_ofNat, Nat.mod_eq_of_lt hodd]
      omega
    apply BitVec.eq_of_toNat_eq
    rw [toNat_and_maskBits va (by decide) (by decide), BitVec.toNat_sub_of_le hle, toNat_offset,
      BitVec.toNat_ofNat, Nat.mod_eq_of_lt hodd]
    omega
  rw [resolveKernelVa, if_neg (not_not_intro hmapped), ← BitVec.add_eq_or_of_and_eq_zero _ _ hdisjoint,
    hframe, hoffset, physicalOf, BitVec.sub_eq_add_neg, BitVec.sub_eq_add_neg, BitVec.add_assoc]

lemma toNat_physicalOf (hframe : par va readOnly &&& maskBits 12 47 = frame) :
    (physicalOf frame va).toNat = frame.toNat + va.toNat % 4096 ∧ frame.toNat % 4096 = 0 := by
  have hmask := toNat_and_maskBits (par va readOnly) (a := 12) (c := 47) (by decide) (by decide)
  rw [hframe] at hmask
  rw [physicalOf, BitVec.toNat_add, toNat_offset]
  omega

/-- Inside a page, bus addresses are as far apart as the addresses. -/
lemma busOf_sub {va' : BitVec 64} (hpage : va'.toNat / 4096 = va.toNat / 4096) :
    r.busOf (physicalOf frame va') - r.busOf (physicalOf frame va) = va' - va := by
  have hoffset : ∀ w : BitVec 64, w.toNat / 4096 = va.toNat / 4096 →
      (w &&& maskBits 0 11) = w - BitVec.ofNat 64 (va.toNat / 4096 * 4096) := by
    intro w hw
    have hle : BitVec.ofNat 64 (w.toNat / 4096 * 4096) ≤ w := by
      rw [BitVec.le_def, BitVec.toNat_ofNat]
      exact (Nat.mod_le _ _).trans (Nat.div_mul_le_self _ _)
    have hlt : w.toNat / 4096 * 4096 < 2 ^ 64 := (Nat.div_mul_le_self _ _).trans_lt w.isLt
    apply BitVec.eq_of_toNat_eq
    rw [← hw, toNat_offset, BitVec.toNat_sub_of_le hle, BitVec.toNat_ofNat, Nat.mod_eq_of_lt hlt]
    omega
  rw [SocRange.busOf, SocRange.busOf, physicalOf, physicalOf, hoffset va rfl, hoffset va' hpage]
  generalize BitVec.ofNat 64 (va.toNat / 4096 * 4096) = page
  abel

lemma busOf_inj {pa' : BitVec 64} (h : r.busOf pa' = r.busOf pa) : pa' = pa :=
  sub_left_inj.mp (add_left_cancel h)

/-- The address lies at the start of its entry, and what the entry before it does with the byte before it
comes to the same. -/
def MeetsAtStart (l : List SocRange) (r : SocRange) (pa : BitVec 64) : Prop :=
  pa = r.armStart ∧ ∃ r' ∈ l, r'.Covers (pa - 1) ∧ r'.busOf (pa - 1) = r.socStart

/-- The byte before an odd address is looked up. It may lie in another entry only when the address is the
first of its own. -/
lemma find?_pred (hdisjoint : ArmDisjoint l) (hr : r ∈ l) (hcovers : r.Covers pa)
    (hpos : 0 < pa.toNat) :
    ((l.find? fun r => r.Covers (pa - 1)).map fun r => r.busOf (pa - 1)) = some (r.busOf pa) ↔
      MeetsAtStart l r pa := by
  have hpred : (pa - 1).toNat = pa.toNat - 1 := BitVec.toNat_sub_of_le hpos
  have hne : pa - 1 ≠ pa := by
    intro heq
    rw [heq] at hpred
    omega
  by_cases hstart : pa = r.armStart
  · have hbus : r.busOf pa = r.socStart := by rw [SocRange.busOf, hstart, sub_self, add_zero]
    rw [MeetsAtStart, and_iff_right hstart, hbus, Option.map_eq_some_iff]
    constructor
    · rintro ⟨r', hfind, hbus'⟩
      have hcovers' := List.find?_some hfind
      exact ⟨r', List.mem_of_find?_eq_some hfind, of_decide_eq_true hcovers', hbus'⟩
    · rintro ⟨r', hr', hcovers', hbus'⟩
      exact ⟨r', find?_covers hdisjoint hr' hcovers', hbus'⟩
  · have hpred' : r.Covers (pa - 1) := by
      have hne : pa.toNat ≠ r.armStart.toNat := fun h => hstart (BitVec.eq_of_toNat_eq h)
      rw [SocRange.Covers] at hcovers ⊢
      omega
    rw [find?_covers hdisjoint hr hpred', Option.map_some, Option.some.injEq]
    refine iff_of_false (fun h => hne (busOf_inj h)) fun h => hstart h.1

/-- The bus address of an address is exact when the address is even, and of odd addresses only where two
entries meet so that the missing bit makes no difference. Exact bus addresses tell the addresses of an
entry apart, and keep distances in a page. -/
theorem getDmaBusAddress_exact_iff {dmaRanges : Property} (hl : dmaRanges.ranges m 0 = some l)
    (hfits : ArmFits l) (hdisjoint : ArmDisjoint l) (hmapped : par va readOnly &&& 0x1 = 0)
    (hframe : par va readOnly &&& maskBits 12 47 = frame) (hr : r ∈ l)
    (hcovers : r.Covers (physicalOf frame va)) :
    (getDmaBusAddress par m dmaRanges va readOnly = some (r.busOf (physicalOf frame va)) ↔
      va.toNat % 2 = 0 ∨ MeetsAtStart l r (physicalOf frame va)) ∧
    (∀ pa, r.Covers pa → r.busOf pa = r.busOf (physicalOf frame va) → pa = physicalOf frame va) ∧
    ∀ va' : BitVec 64, va'.toNat / 4096 = va.toNat / 4096 →
      r.busOf (physicalOf frame va') - r.busOf (physicalOf frame va) = va' - va := by
  refine ⟨?_, fun pa _ h => busOf_inj h, fun va' hpage => busOf_sub hpage⟩
  have hrun : getDmaBusAddress par m dmaRanges va readOnly =
      (l.find? fun r => r.Covers (physicalOf frame va - BitVec.ofNat 64 (va.toNat % 2))).map
        fun r => r.busOf (physicalOf frame va - BitVec.ofNat 64 (va.toNat % 2)) := by
    rw [getDmaBusAddress, resolveKernelVa_eq hmapped hframe]
    exact getDmaBusAddressFrom_eq hl hfits
  rw [hrun]
  rcases Nat.mod_two_eq_zero_or_one va.toNat with heven | hodd
  · rw [heven, BitVec.sub_zero, find?_covers hdisjoint hr hcovers]
    simp
  · have hpos : 0 < (physicalOf frame va).toNat := by
      rw [(toNat_physicalOf hframe).1]
      omega
    rw [hodd, or_iff_right (by decide)]
    exact find?_pred hdisjoint hr hcovers hpos

/-! ### The memory of a board -/

section

/-- One entry: bus addresses from `0xc0000000` on for the physical addresses from 0 to `0x3f000000`. -/
def boardRanges : Property where
  length := 12
  data i := if i = 0 then 0xc0 else if i = 8 then 0x3f else 0

def boardProperties : SocMemoryProperties := ⟨⟨false, false⟩, false, false⟩

def boardEntry : SocRange := ⟨0xc0000000, 0, 0x3f000000⟩

lemma ranges_board : boardRanges.ranges boardProperties 0 = some [boardEntry] :=
  Property.ranges_singleton (by decide) (by decide)

/-- An even address of the second page, in the page frame `0x80000`. -/
theorem getDmaBusAddress_exact_even :
    getDmaBusAddress (fun _ _ => 0x80000) boardProperties boardRanges 0x1abc true = some 0xc0080abc := by
  have hexact := @getDmaBusAddress_exact_iff _ 0x1abc 0x80000 _ boardEntry (fun _ _ => 0x80000) true _
    ranges_board (by simp [ArmFits, boardEntry]) (List.pairwise_singleton _ _) (by decide) (by decide)
    List.mem_cons_self (by decide)
  exact (hexact.1.mpr (.inl (by decide))).trans (by decide)

/-- The address after it has the same bus address. -/
theorem not_getDmaBusAddress_exact : ¬∀ (par : AddressTranslation) (m : SocMemoryProperties)
    (dmaRanges : Property) (l : List SocRange) (r : SocRange) (va frame : BitVec 64) (readOnly : Bool),
    dmaRanges.ranges m 0 = some l → ArmFits l → ArmDisjoint l → par va readOnly &&& 0x1 = 0 →
    par va readOnly &&& maskBits 12 47 = frame → r ∈ l → r.Covers (physicalOf frame va) →
    getDmaBusAddress par m dmaRanges va readOnly = some (r.busOf (physicalOf frame va)) := by
  intro h
  have hexact := h (fun _ _ => 0x80000) _ _ _ boardEntry 0x1abd 0x80000 true ranges_board
    (by simp [ArmFits, boardEntry]) (List.pairwise_singleton _ _) (by decide) (by decide) List.mem_cons_self
    (by decide)
  rw [getDmaBusAddress, resolveKernelVa, if_neg (by decide), Option.bind_eq_bind, Option.bind_some,
    getDmaBusAddressFrom_eq ranges_board (by simp [ArmFits, boardEntry])] at hexact
  exact absurd hexact (by decide)

end

end PiKachulm.Hardware

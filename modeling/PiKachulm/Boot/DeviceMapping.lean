import PiKachulm.Boot.Ranges
import PiKachulm.Mmu.Heights
import Mathlib.Data.BitVec

/-!
# Device addresses

`setup_device_mapping` maps the entries of `/soc/ranges` one after the other at `DEVICE_MEMORY`, and
`convert_soc_address` reads the same property again to find the virtual address of a bus address.
-/

namespace PiKachulm.Boot

open Mmu Services
open PiKachulm.Core (slot)

/-- `DEVICE_MEMORY`. -/
def deviceMemoryVa : BitVec 64 := PiKachulm.kernelBase + 0x0000200000000000

def deviceMemory : PagesAttributes where
  sh := .outerShareable
  exec := .neverExecute
  rw := .readWrite
  access := .privileged
  type := .deviceNGnRnE

/-- The loop of `setup_device_mapping`; `none` is a panic. -/
def setupDeviceMappingFrom (tbl : MMUTable) (m : SocMemoryProperties) (p : Property) (index : ℕ)
    (offset : BitVec 64) (s : State) : Option State :=
  if index < p.length then
    match _h₁ : p.getVariableInt index m.isSocMemAddressU64 with
    | none         => none
    | some (_, i₁) =>
      match _h₂ : p.getVariableInt i₁ m.isArmMemAddressU64 with
      | none                        => none
      | some (memoryChunkStart, i₂) =>
        match _h₃ : p.getVariableInt i₂ m.isSocMemSizeU64 with
        | none                         => none
        | some (memoryChunkSize, next) =>
          let vaStart := deviceMemoryVa + offset
          let vaEnd := vaStart + .ofNat 64 memoryChunkSize - 0x1000
          match mapRange (some tbl) vaStart vaEnd (.ofNat 64 memoryChunkStart) deviceMemory s with
          | some (true, s) => setupDeviceMappingFrom tbl m p next (offset + .ofNat 64 memoryChunkSize) s
          | _              => none
  else some s
termination_by p.length - index
decreasing_by
  have hlt₁ := Property.lt_of_getVariableInt _h₁
  have hlt₂ := Property.lt_of_getVariableInt _h₂
  have hlt₃ := Property.lt_of_getVariableInt _h₃
  omega

/-- `socRanges` is the property `/soc/ranges`. -/
def setupDeviceMapping (tbl : MMUTable) (m : SocMemoryProperties) (socRanges : Property) (s : State) :
    Option State :=
  setupDeviceMappingFrom tbl m socRanges 0 0 s

/-- The loop of `convert_soc_address`; `none` is a panic. -/
def convertSocAddressFrom (m : SocMemoryProperties) (p : Property) (socAddress : BitVec 64) (index : ℕ)
    (offset : BitVec 64) : Option (BitVec 64) :=
  if index < p.length then
    match _h₁ : p.getVariableInt index m.isSocMemAddressU64 with
    | none                => none
    | some (socStart, i₁) =>
      match _h₂ : p.getVariableInt i₁ m.isArmMemAddressU64 with
      | none         => none
      | some (_, i₂) =>
        match _h₃ : p.getVariableInt i₂ m.isSocMemSizeU64 with
        | none                   => none
        | some (chunkSize, next) =>
          if BitVec.ofNat 64 socStart ≤ socAddress ∧
              socAddress < BitVec.ofNat 64 socStart + BitVec.ofNat 64 chunkSize then
            some (deviceMemoryVa + offset + (socAddress - BitVec.ofNat 64 socStart))
          else convertSocAddressFrom m p socAddress next (offset + .ofNat 64 chunkSize)
  else none
termination_by p.length - index
decreasing_by
  have hlt₁ := Property.lt_of_getVariableInt _h₁
  have hlt₂ := Property.lt_of_getVariableInt _h₂
  have hlt₃ := Property.lt_of_getVariableInt _h₃
  omega

def convertSocAddress (m : SocMemoryProperties) (socRanges : Property) (socAddress : BitVec 64) :
    Option (BitVec 64) :=
  convertSocAddressFrom m socRanges socAddress 0 0

/-! ### Entry after entry -/

/-- The entries, each with its distance from `DEVICE_MEMORY`. -/
def offsets : ℕ → List SocRange → List (ℕ × SocRange)
  | _, []     => []
  | o, r :: l => (o, r) :: offsets (o + r.size.toNat) l

/-- The entries are not empty and made of pages, they do not wrap around, no bus address lies in two of
them, and there is room for all of them. -/
structure ValidRanges (l : List SocRange) : Prop where
  pos : ∀ r ∈ l, 0 < r.size.toNat
  pages : ∀ r ∈ l, r.size.toNat % 4096 = 0
  noWrap : ∀ r ∈ l, r.socStart.toNat + r.size.toNat < 2 ^ 64
  disjoint : l.Pairwise fun r r' => ∀ a, ¬(r.CoversBus a ∧ r'.CoversBus a)
  total : (l.map fun r => r.size.toNat).sum ≤ 2 ^ 44

variable {S : Services} {m : SocMemoryProperties} {p : Property} {l : List SocRange} {r : SocRange}
  {s s' s₀ : State} {t : Table} {a offset : BitVec 64} {index next o : ℕ} {tbl : MMUTable}

lemma setupDeviceMappingFrom_of_next (hlt : index < p.length) (h : p.nextRange m index = some (r, next)) :
    setupDeviceMappingFrom tbl m p index offset s =
      match mapRange (some tbl) (deviceMemoryVa + offset) (deviceMemoryVa + offset + r.size - 0x1000)
        r.armStart deviceMemory s with
      | some (true, s) => setupDeviceMappingFrom tbl m p next (offset + r.size) s
      | _              => none := by
  obtain ⟨socStart, armStart, size, i₁, i₂, h₁, h₂, h₃, rfl⟩ := Property.nextRange_eq_some h
  rw [setupDeviceMappingFrom, if_pos hlt]
  split
  next heq => simp [h₁] at heq
  next heq =>
    cases heq.symm.trans h₁
    split
    next heq => simp [h₂] at heq
    next heq =>
      cases heq.symm.trans h₂
      split
      next heq => simp [h₃] at heq
      next heq =>
        cases heq.symm.trans h₃
        rfl

lemma convertSocAddressFrom_of_next (hlt : index < p.length) (h : p.nextRange m index = some (r, next))
    (hfits : r.socStart.toNat + r.size.toNat < 2 ^ 64) :
    convertSocAddressFrom m p a index offset =
      if r.CoversBus a then some (deviceMemoryVa + offset + (a - r.socStart))
      else convertSocAddressFrom m p a next (offset + r.size) := by
  obtain ⟨socStart, armStart, size, i₁, i₂, h₁, h₂, h₃, rfl⟩ := Property.nextRange_eq_some h
  have hcovers : (BitVec.ofNat 64 socStart ≤ a ∧ a < BitVec.ofNat 64 socStart + BitVec.ofNat 64 size) ↔
      SocRange.CoversBus ⟨.ofNat 64 socStart, .ofNat 64 armStart, .ofNat 64 size⟩ a := by
    rw [SocRange.CoversBus, BitVec.le_def, BitVec.lt_def, BitVec.toNat_add, Nat.mod_eq_of_lt hfits]
  rw [convertSocAddressFrom, if_pos hlt]
  split
  next heq => simp [h₁] at heq
  next heq =>
    cases heq.symm.trans h₁
    split
    next heq => simp [h₂] at heq
    next heq =>
      cases heq.symm.trans h₂
      split
      next heq => simp [h₃] at heq
      next heq =>
        cases heq.symm.trans h₃
        simp only [hcovers]

/-- The entries are mapped in their order. -/
def mapRanges (tbl : MMUTable) : List SocRange → BitVec 64 → State → Option State
  | [], _, s          => some s
  | r :: l, offset, s =>
    match mapRange (some tbl) (deviceMemoryVa + offset) (deviceMemoryVa + offset + r.size - 0x1000) r.armStart
      deviceMemory s with
    | some (true, s) => mapRanges tbl l (offset + r.size) s
    | _              => none

lemma setupDeviceMappingFrom_eq (h : p.ranges m index = some l) :
    setupDeviceMappingFrom tbl m p index offset s = mapRanges tbl l offset s := by
  induction l generalizing index offset s with
  | nil => rw [setupDeviceMappingFrom, if_neg (Property.ranges_eq_nil h), mapRanges]
  | cons r l ih =>
    obtain ⟨hlt, next, hnext, hrest⟩ := Property.ranges_eq_cons h
    rw [setupDeviceMappingFrom_of_next hlt hnext, mapRanges]
    simp only [ih hrest]

/-- The entries are searched in their order. -/
lemma convertSocAddressFrom_eq (h : p.ranges m index = some l)
    (hfits : ∀ r ∈ l, r.socStart.toNat + r.size.toNat < 2 ^ 64) :
    convertSocAddressFrom m p a index (.ofNat 64 o) = ((offsets o l).find? fun x => x.2.CoversBus a).map
      fun x => deviceMemoryVa + .ofNat 64 x.1 + (a - x.2.socStart) := by
  induction l generalizing index o with
  | nil =>
    rw [convertSocAddressFrom, if_neg (Property.ranges_eq_nil h)]
    rfl
  | cons r l ih =>
    obtain ⟨hlt, next, hnext, hrest⟩ := Property.ranges_eq_cons h
    obtain ⟨hr, hl⟩ := List.forall_mem_cons.mp hfits
    have hoffset : BitVec.ofNat 64 o + r.size = .ofNat 64 (o + r.size.toNat) := by
      rw [BitVec.ofNat_add, BitVec.ofNat_toNat, BitVec.setWidth_eq]
    rw [convertSocAddressFrom_of_next hlt hnext hr, offsets, List.find?_cons, hoffset, ih hrest hl]
    by_cases hcovers : r.CoversBus a
    · simp [hcovers]
    · simp [hcovers]

lemma map_snd_offsets (o : ℕ) (l : List SocRange) : (offsets o l).map Prod.snd = l := by
  induction l generalizing o with
  | nil         => rfl
  | cons r l ih => rw [offsets, List.map_cons, ih]

/-- An address in an entry is converted with the distance of the entry. -/
lemma convertSocAddress_of_mem {x : ℕ × SocRange} (h : p.ranges m 0 = some l) (hl : ValidRanges l)
    (hx : x ∈ offsets 0 l) (hcovers : x.2.CoversBus a) :
    convertSocAddress m p a = some (deviceMemoryVa + .ofNat 64 x.1 + (a - x.2.socStart)) := by
  have hpair : (offsets 0 l).Pairwise fun x y =>
      ¬(decide (x.2.CoversBus a) = true ∧ decide (y.2.CoversBus a) = true) := by
    refine (List.pairwise_map.mp (map_snd_offsets 0 l ▸ hl.disjoint)).imp fun hxy => ?_
    simpa using hxy a
  change convertSocAddressFrom m p a 0 (.ofNat 64 0) = _
  rw [convertSocAddressFrom_eq h hl.noWrap, find?_of_pairwise hpair hx (decide_eq_true hcovers),
    Option.map_some]

/-- An address in no entry is not converted. -/
lemma convertSocAddress_of_not_mem (h : p.ranges m 0 = some l) (hl : ValidRanges l)
    (hnot : ∀ r ∈ l, ¬r.CoversBus a) : convertSocAddress m p a = none := by
  change convertSocAddressFrom m p a 0 (.ofNat 64 0) = _
  rw [convertSocAddressFrom_eq h hl.noWrap, Option.map_eq_none_iff, List.find?_eq_none]
  intro x hx
  have hmem : x.2 ∈ l := map_snd_offsets 0 l ▸ List.mem_map_of_mem hx
  simpa using hnot x.2 hmem

/-! ### The tables -/

/-- The first page of the device region. -/
def devicePage : ℕ := pageNumber deviceMemoryVa

lemma devicePage_eq : devicePage = 0xffff200000000 := by decide

/-- The first page after the device region. -/
def deviceEnd : ℕ := devicePage + 2 ^ 32

lemma slot_of_device {q : ℕ} (hq : devicePage ≤ q) (hend : q < deviceEnd) :
    slot 512 4 q = rootSlot .kernel ∧ 64 ≤ slot 512 3 q % 512 ∧ slot 512 3 q % 512 < 96 := by
  have hbase := devicePage_eq
  have hsum : deviceEnd = devicePage + 2 ^ 32 := rfl
  have hpow : (512 : ℕ) ^ 4 = 2 ^ 36 ∧ (512 : ℕ) ^ 3 = 2 ^ 27 := by norm_num
  have hroot : rootSlot .kernel = 65535 := rfl
  rw [slot, slot, hpow.1, hpow.2, hroot]
  refine ⟨?_, ?_, ?_⟩
  · omega
  · omega
  · omega

/-- Nothing is mapped where the entries of the `pgd` are invalid. -/
lemma vacantFrom_device (ht : S.Holds s t)
    (hinvalid : ∀ i, 64 ≤ i → i < 96 → getEntryKind (s.mem S.pgd i) 1 = .invalid) :
    VacantFrom t devicePage deviceEnd := by
  have hempty : ∀ i, 64 ≤ i → i < 96 → t i = .empty := by
    intro i h₁ h₂
    have hlt : i < 512 := h₂.trans (by norm_num)
    have hrep : S.Rep s.mem 3 (s.mem S.pgd i) (t i) := ht.owns.rep i hlt
    have hwf := ht.wf i hlt
    have hkind := hinvalid i h₁ h₂
    cases hi : t i with
    | empty => rfl
    | leaf v =>
      rw [hi, Core.Node.wf_leaf] at hwf
      exact absurd hwf.1 (by norm_num)
    | table q sub =>
      rw [hi] at hrep
      have htable := (rep_table.mp hrep).1
      rw [hkind] at htable
      cases htable
  intro q hq hend
  obtain ⟨-, h₁, h₂⟩ := slot_of_device hq hend
  rw [Core.Entries.find, hempty _ h₁ h₂]
  exact ⟨by simp, fun j _ _ => noTable_empty⟩

/-- The pages of an entry at distance `o` are installed. -/
def InstalledAt (t : Table) (x : ℕ × SocRange) : Prop :=
  Installed t (devicePage + x.1 / 4096) (devicePage + x.1 / 4096 + x.2.size.toNat / 4096 - 1)
    (displacement (pageNumber x.2.armStart) (devicePage + x.1 / 4096)) deviceMemory

lemma toNat_deviceMemoryVa : deviceMemoryVa.toNat = 0xffff200000000000 := by decide

/-- The address at distance `o` from `DEVICE_MEMORY`. -/
lemma toNat_device_add (ho : o < 2 ^ 45) : (deviceMemoryVa + .ofNat 64 o).toNat = 0xffff200000000000 + o := by
  rw [BitVec.toNat_add, BitVec.toNat_ofNat, toNat_deviceMemoryVa]
  omega

lemma pageNumber_vaStart (ho : o ≤ 2 ^ 44) :
    pageNumber (deviceMemoryVa + .ofNat 64 o) = devicePage + o / 4096 := by
  rw [pageNumber, toNat_device_add (by omega), devicePage_eq]
  omega

lemma pageNumber_vaEnd (hpages : o % 4096 = 0) (hpos : 0 < r.size.toNat) (hr : r.size.toNat % 4096 = 0)
    (ho : o + r.size.toNat ≤ 2 ^ 44) :
    pageNumber (deviceMemoryVa + .ofNat 64 o + r.size - 0x1000) =
      devicePage + o / 4096 + r.size.toNat / 4096 - 1 := by
  have hend : (deviceMemoryVa + .ofNat 64 o + r.size).toNat = 0xffff200000000000 + o + r.size.toNat := by
    rw [BitVec.toNat_add, toNat_device_add (by omega)]
    omega
  have hpage : (0x1000 : BitVec 64).toNat = 4096 := rfl
  have hle : (0x1000 : BitVec 64) ≤ deviceMemoryVa + .ofNat 64 o + r.size := by
    rw [BitVec.le_def, hend, hpage]
    omega
  rw [pageNumber, BitVec.toNat_sub_of_le hle, hend, hpage, devicePage_eq]
  omega

/-- Mapping the entries installs them one after the other, and keeps what comes before. -/
lemma mapRanges_installs (hkind : S.kind = .kernel) (ht : S.Holds s t) (ho : o % 4096 = 0)
    (hpos : ∀ r ∈ l, 0 < r.size.toNat) (hpages : ∀ r ∈ l, r.size.toNat % 4096 = 0)
    (htotal : o + (l.map fun r => r.size.toNat).sum ≤ 2 ^ 44)
    (hvac : VacantFrom t (devicePage + o / 4096) deviceEnd)
    (hrun : mapRanges S.table l (.ofNat 64 o) s = some s') :
    ∃ t', S.Holds s' t' ∧ (∀ vs ve δ attr, devicePage ≤ vs → ve < devicePage + o / 4096 →
        Installed t vs ve δ attr → Installed t' vs ve δ attr) ∧
      ∀ x ∈ offsets o l, InstalledAt t' x := by
  induction l generalizing o s t with
  | nil =>
    cases hrun
    exact ⟨t, ht, fun _ _ _ _ _ _ h => h, by simp [offsets]⟩
  | cons r l ih =>
    obtain ⟨hr, hpos⟩ := List.forall_mem_cons.mp hpos
    obtain ⟨hrp, hpages⟩ := List.forall_mem_cons.mp hpages
    rw [List.map_cons, List.sum_cons] at htotal
    rw [mapRanges] at hrun
    split at hrun
    next s₁ hmap =>
      have hoffset : BitVec.ofNat 64 o + r.size = .ofNat 64 (o + r.size.toNat) := by
        rw [BitVec.ofNat_add, BitVec.ofNat_toNat, BitVec.setWidth_eq]
      rw [hoffset] at hrun
      obtain ⟨-, -, t₁, htable, ht₁⟩ := ht.mapRange hmap
      rw [pageNumber_vaStart (by omega), pageNumber_vaEnd ho hr hrp (by omega), hkind] at htable
      have hroot : ∀ q, devicePage ≤ q → q < deviceEnd → slot 512 4 q = rootSlot .kernel :=
        fun q h₁ h₂ => (slot_of_device h₁ h₂).1
      have hlast : ∀ q, slot 512 4 q = rootSlot .kernel → lastPage 4 q < 2 ^ 52 :=
        fun q h => lastPage_lt_of_slot_eq h
      have hend : deviceEnd = devicePage + 2 ^ 32 := rfl
      have hbase := devicePage_eq
      have hroot' : ∀ q, devicePage + o / 4096 ≤ q → q < deviceEnd → slot 512 4 q = rootSlot .kernel :=
        fun q h₁ h₂ => hroot q ((Nat.le_add_right _ _).trans h₁) h₂
      have hvac₁ := hvac.map ht.wf (by omega) (by omega) hroot' hlast htable
      have hinst := hvac.installed ht.wf (by omega) (by omega) (by omega) hroot' hlast htable
      have hnext : devicePage + o / 4096 + r.size.toNat / 4096 - 1 + 1 =
          devicePage + (o + r.size.toNat) / 4096 := by omega
      rw [hnext] at hvac₁
      obtain ⟨t', ht', hkeep, hrest⟩ := ih ht₁ (by omega) hpos hpages (by omega) hvac₁ hrun
      refine ⟨t', ht', fun vs ve δ attr hvs hve h => ?_, ?_⟩
      · refine hkeep vs ve δ attr hvs (by omega) (h.map hve (fun q h₁ h₂ => ?_) htable)
        exact hroot q (hvs.trans h₁) (by omega)
      · rw [offsets]
        refine List.forall_mem_cons.mpr ⟨?_, hrest⟩
        exact hkeep _ _ _ _ (Nat.le_add_right _ _) (by dsimp only; omega) hinst
    · cases hrun

/-! ### Bus addresses -/

/-- Every bus address of an entry is converted to an address that the hardware translates to the physical
address of the entry, and other bus addresses are not converted. -/
def PointsToDevices (S : Services) (s : State) (m : SocMemoryProperties) (p : Property) (l : List SocRange) :
    Prop :=
  ∀ a, (∀ r ∈ l, r.CoversBus a → ∃ va, convertSocAddress m p a = some va ∧
      hardwareTranslate S.table s va = some (r.armStart + (a - r.socStart))) ∧
    ((∀ r ∈ l, ¬r.CoversBus a) → convertSocAddress m p a = none)

/-- What an entry at a distance must meet: its physical addresses begin at a page and end below 2^48, and where
a whole block of 2 MiB or 1 GiB lies in its part of the region, the physical address and the distance differ
by a multiple of the size of the block. -/
structure Placed (x : ℕ × SocRange) : Prop where
  page : x.2.armStart.toNat % 4096 = 0
  fits : x.2.armStart.toNat + x.2.size.toNat ≤ 2 ^ 48
  block : ∀ k, 1 ≤ k → k ≤ 2 → ∀ c, x.1 ≤ c * (4096 * 512 ^ k) →
    (c + 1) * (4096 * 512 ^ k) ≤ x.1 + x.2.size.toNat →
    x.2.armStart.toNat ≡ x.1 [MOD 4096 * 512 ^ k]

variable {x : ℕ × SocRange}

lemma offsets_le (ho : o % 4096 = 0) (hpages : ∀ r ∈ l, r.size.toNat % 4096 = 0) (hx : x ∈ offsets o l) :
    x.1 % 4096 = 0 ∧ x.1 + x.2.size.toNat ≤ o + (l.map fun r => r.size.toNat).sum := by
  induction l generalizing o with
  | nil => cases hx
  | cons r l ih =>
    obtain ⟨hr, hpages⟩ := List.forall_mem_cons.mp hpages
    rw [List.map_cons, List.sum_cons]
    rcases List.mem_cons.mp hx with rfl | hx
    · exact ⟨ho, by dsimp only; omega⟩
    · obtain ⟨h₁, h₂⟩ := ih (by omega) hpages hx
      exact ⟨h₁, by omega⟩

lemma dvd_devicePage {k : ℕ} (hk : k ≤ 2) : 512 ^ k ∣ devicePage := by
  rw [devicePage_eq]
  exact (pow_dvd_pow 512 hk).trans (by norm_num)

/-- The distances of addresses and pages. -/
lemma placed_iff (hx : x.1 % 4096 = 0) (hsize : x.2.size.toNat % 4096 = 0) :
    Placed x ↔ Linearly x.2.armStart (devicePage + x.1 / 4096) (x.2.size.toNat / 4096) := by
  obtain ⟨o, r⟩ := x
  dsimp only at hx hsize ⊢
  obtain ⟨w, rfl⟩ := Nat.dvd_of_mod_eq_zero hx
  obtain ⟨n, hn⟩ := Nat.dvd_of_mod_eq_zero hsize
  have hdiv : ∀ v, 4096 * v / 4096 = v := fun v => Nat.mul_div_cancel_left v (by norm_num)
  have hmod : ∀ k ≤ 2, r.armStart.toNat % 4096 = 0 →
      (r.armStart.toNat ≡ 4096 * w [MOD 4096 * 512 ^ k] ↔
        pageNumber r.armStart ≡ devicePage + w [MOD 512 ^ k]) := by
    intro k hk hpage
    have harm : r.armStart.toNat = 4096 * pageNumber r.armStart := by
      rw [pageNumber]
      omega
    have hbase : devicePage ≡ 0 [MOD 512 ^ k] := Nat.modEq_zero_iff_dvd.mpr (dvd_devicePage hk)
    have hw : devicePage + w ≡ w [MOD 512 ^ k] := by simpa using hbase.add_right w
    rw [harm]
    constructor
    · exact fun h => (Nat.ModEq.mul_left_cancel' (by norm_num) h).trans hw.symm
    · exact fun h => (h.trans hw).mul_left' 4096
  have hscale : ∀ k c, c * (4096 * 512 ^ k) = 4096 * (c * 512 ^ k) := fun k c => Nat.mul_left_comm _ _ _
  constructor
  · rintro ⟨hpage, hfits, hblock⟩
    refine ⟨hpage, by rw [hn, hdiv, ← hn]; exact hfits, fun k hk c hfirst hlast => ?_⟩
    rw [hn, hdiv, hdiv] at hlast
    rw [hdiv] at hfirst ⊢
    rcases Nat.eq_zero_or_pos k with rfl | hpos
    · exact Nat.modEq_one
    · obtain ⟨base, hbase⟩ := dvd_devicePage hk
      rw [Nat.mul_comm] at hbase
      have hle : base ≤ c := by
        refine Nat.le_of_mul_le_mul_right ?_ (Nat.pow_pos (by norm_num) : 0 < 512 ^ k)
        exact hbase.symm.le.trans ((Nat.le_add_right _ _).trans hfirst)
      obtain ⟨c', rfl⟩ := Nat.exists_eq_add_of_le hle
      rw [hbase, Nat.add_mul] at hfirst
      rw [hbase, Nat.add_assoc, Nat.add_mul] at hlast
      refine (hmod k hk hpage).mp (hblock k hpos hk c' ?_ ?_)
      · dsimp only
        rw [hscale]
        omega
      · dsimp only
        rw [hscale, hn]
        omega
  · rintro ⟨hpage, hfits, hblock⟩
    refine ⟨hpage, by rw [hn, hdiv, ← hn] at hfits; exact hfits, fun k hpos hk c hfirst hlast => ?_⟩
    dsimp only at hfirst hlast
    obtain ⟨base, hbase⟩ := dvd_devicePage hk
    rw [Nat.mul_comm] at hbase
    rw [hscale] at hfirst
    rw [hscale, hn] at hlast
    refine (hmod k hk hpage).mpr ?_
    have hpages := hblock k hk (base + c)
    rw [hn, hdiv, hdiv, hbase, Nat.add_mul, Nat.add_assoc, Nat.add_mul base] at hpages
    rw [hbase]
    exact hpages (by omega) (by omega)

/-- The property of one entry is that of the addresses from its own on. -/
lemma linearly_of_points (hx : x ∈ offsets 0 l) (h : p.ranges m 0 = some l) (hl : ValidRanges l) :
    (∀ d < x.2.size.toNat, hardwareTranslate S.table s
        (.ofNat 64 (4096 * (devicePage + x.1 / 4096) + d)) = some (x.2.armStart + .ofNat 64 d)) ↔
      ∀ a, x.2.CoversBus a → ∃ va, convertSocAddress m p a = some va ∧
        hardwareTranslate S.table s va = some (x.2.armStart + (a - x.2.socStart)) := by
  obtain ⟨hpage, htotal⟩ := offsets_le rfl hl.pages hx
  have hmax := hl.total
  have hfits := hl.noWrap x.2 (map_snd_offsets 0 l ▸ List.mem_map_of_mem hx)
  have hva : ∀ d, deviceMemoryVa + BitVec.ofNat 64 x.1 + BitVec.ofNat 64 d =
      .ofNat 64 (4096 * (devicePage + x.1 / 4096) + d) := by
    intro d
    have hbase : deviceMemoryVa = .ofNat 64 (4096 * devicePage) := by
      rw [devicePage_eq]
      decide
    have hsum : 4096 * (devicePage + x.1 / 4096) + d = 4096 * devicePage + x.1 + d := by omega
    rw [hbase, hsum, BitVec.ofNat_add, BitVec.ofNat_add]
  constructor
  · intro hd a hcovers
    refine ⟨_, convertSocAddress_of_mem h hl hx hcovers, ?_⟩
    have hle : x.2.socStart ≤ a := hcovers.1
    have hlt : (a - x.2.socStart).toNat < x.2.size.toNat := by
      obtain ⟨h₁, h₂⟩ := hcovers
      rw [BitVec.toNat_sub_of_le hle]
      omega
    have hd := hd _ hlt
    rw [← hva, BitVec.ofNat_toNat, BitVec.setWidth_eq] at hd
    exact hd
  · intro ha d hd
    have hvalue : (x.2.socStart + .ofNat 64 d).toNat = x.2.socStart.toNat + d := by
      rw [BitVec.toNat_add, BitVec.toNat_ofNat]
      omega
    have hcovers : x.2.CoversBus (x.2.socStart + .ofNat 64 d) := by
      rw [SocRange.CoversBus, hvalue]
      omega
    obtain ⟨va, hconvert, hhardware⟩ := ha _ hcovers
    rw [convertSocAddress_of_mem h hl hx hcovers, Option.some.injEq, add_sub_cancel_left, hva] at hconvert
    rw [add_sub_cancel_left, ← hconvert] at hhardware
    exact hhardware

/-- When the device region was empty before, bus addresses point to the devices exactly when every entry is
placed well. -/
theorem pointsToDevices_iff (hs : S.Fresh s₀) (hreach : Reaches S.table (fun _ _ => True) s₀ s)
    (hkind : S.kind = .kernel)
    (hinvalid : ∀ i, 64 ≤ i → i < 96 → getEntryKind (s.mem S.pgd i) 1 = .invalid)
    (h : p.ranges m 0 = some l) (hl : ValidRanges l) (hrun : setupDeviceMapping S.table m p s = some s') :
    PointsToDevices S s' m p l ↔ ∀ x ∈ offsets 0 l, Placed x := by
  obtain ⟨t, ht, -⟩ := Reaches.invariant (fun _ _ => True) hs trivial (fun _ _ _ _ _ _ _ _ _ => trivial) hreach
  have hmaps : mapRanges S.table l (.ofNat 64 0) s = some s' := by
    rw [← hrun]
    exact (setupDeviceMappingFrom_eq h).symm
  have hvac : VacantFrom t (devicePage + 0 / 4096) deviceEnd := vacantFrom_device ht hinvalid
  obtain ⟨t', ht', -, hinst⟩ := mapRanges_installs hkind ht rfl hl.pos hl.pages
    (by simpa using hl.total) hvac hmaps
  have hentry : ∀ x ∈ offsets 0 l, Placed x ↔
      ∀ a, x.2.CoversBus a → ∃ va, convertSocAddress m p a = some va ∧
        hardwareTranslate S.table s' va = some (x.2.armStart + (a - x.2.socStart)) := by
    intro x hx
    have hmem : x.2 ∈ l := map_snd_offsets 0 l ▸ List.mem_map_of_mem hx
    obtain ⟨hpage, htotal⟩ := offsets_le rfl hl.pages hx
    have hpos := hl.pos x.2 hmem
    have hsize := hl.pages x.2 hmem
    have hmax := hl.total
    have hbase := devicePage_eq
    have hlength : 4096 * (x.2.size.toNat / 4096) = x.2.size.toNat := by omega
    have hlinear := ht'.linearly_iff (hinst x hx) (by omega) (by omega) (by omega)
    rw [hlength] at hlinear
    rw [placed_iff hpage hsize, ← hlinear, linearly_of_points hx h hl]
  constructor
  · intro hpoints x hx
    have hmem : x.2 ∈ l := map_snd_offsets 0 l ▸ List.mem_map_of_mem hx
    exact (hentry x hx).mpr fun a hcovers => (hpoints a).1 x.2 hmem hcovers
  · intro hplaced a
    refine ⟨fun r hr hcovers => ?_, convertSocAddress_of_not_mem h hl⟩
    rw [← map_snd_offsets 0 l] at hr
    obtain ⟨x, hx, rfl⟩ := List.mem_map.mp hr
    exact (hentry x hx).mp (hplaced x hx) a hcovers

/-! ### One entry -/

/-- The bytes of an entry of 2 MiB at `0x7e000000`, with the physical address `0xfe000000` or, one page
further, `0xfe001000`. -/
def oneEntry (further : Bool) : Property where
  length := 12
  data i := if i = 0 then 0x7e else if i = 4 then 0xfe else if i = 6 ∧ further then 0x10 else if i = 9 then 0x20
    else 0

def narrowProperties : SocMemoryProperties := ⟨⟨false, false⟩, false, false⟩

def entryOf (further : Bool) : SocRange := ⟨0x7e000000, if further then 0xfe001000 else 0xfe000000, 0x200000⟩

lemma ranges_oneEntry (further : Bool) :
    (oneEntry further).ranges narrowProperties 0 = some [entryOf further] := by
  cases further <;> exact Property.ranges_singleton (by decide) (by decide)

lemma validRanges_oneEntry (further : Bool) : ValidRanges [entryOf further] where
  pos := by simp [entryOf]
  pages := by simp [entryOf]
  noWrap := by simp [entryOf]
  disjoint := List.pairwise_singleton _ _
  total := by simp [entryOf]

/-- The entry at `0xfe000000` is one block, which the hardware finds. -/
theorem pointsToDevices_block : ∃ s', setupDeviceMapping (identity .kernel).table narrowProperties
      (oneEntry false) emptyState = some s' ∧
    PointsToDevices (identity .kernel) s' narrowProperties (oneEntry false) [entryOf false] := by
  have hrun : (mapRanges (identity .kernel).table [entryOf false] 0 emptyState).isSome = true := by
    decide +kernel
  obtain ⟨s', hmaps⟩ := Option.isSome_iff_exists.mp hrun
  have hsetup : setupDeviceMapping (identity .kernel).table narrowProperties (oneEntry false) emptyState =
      some s' := (setupDeviceMappingFrom_eq (ranges_oneEntry false)).trans hmaps
  refine ⟨s', hsetup, (pointsToDevices_iff (fresh_emptyState _) .refl rfl
    (fun i _ hi => (fresh_emptyState _).invalid i (hi.trans (by norm_num))) (ranges_oneEntry false)
    (validRanges_oneEntry false) hsetup).mpr ?_⟩
  intro x hx
  cases List.mem_singleton.mp hx
  refine ⟨by decide, by decide, fun k h₁ h₂ c _ hlast => ?_⟩
  obtain rfl | rfl : k = 1 ∨ k = 2 := by omega
  · decide
  · have hsize : (entryOf false).size.toNat = 0x200000 := rfl
    dsimp only at hlast
    rw [hsize] at hlast
    omega

/-- One page further, the block is not at a multiple of its size, and the hardware finds another address. -/
theorem not_pointsToDevices : ¬∀ (s s' : State) (m : SocMemoryProperties) (p : Property) (l : List SocRange),
    (identity .kernel).Fresh s → p.ranges m 0 = some l → ValidRanges l →
    setupDeviceMapping (identity .kernel).table m p s = some s' →
    PointsToDevices (identity .kernel) s' m p l := by
  intro h
  have hrun : (mapRanges (identity .kernel).table [entryOf true] 0 emptyState).any (fun s' =>
      decide (hardwareTranslate (identity .kernel).table s' deviceMemoryVa ≠ some 0xfe001000)) = true := by
    decide +kernel
  obtain ⟨s', hmaps, hrun⟩ := (Option.any_eq_true _ _).mp hrun
  have hsetup : setupDeviceMapping (identity .kernel).table narrowProperties (oneEntry true) emptyState =
      some s' := (setupDeviceMappingFrom_eq (ranges_oneEntry true)).trans hmaps
  have hpoints := h emptyState s' narrowProperties (oneEntry true) [entryOf true] (fresh_emptyState _)
    (ranges_oneEntry true) (validRanges_oneEntry true) hsetup
  obtain ⟨va, hva, hhardware⟩ := (hpoints 0x7e000000).1 _ List.mem_cons_self (by decide)
  rw [convertSocAddress_of_mem (ranges_oneEntry true) (validRanges_oneEntry true) List.mem_cons_self
    (by decide),
    Option.some.injEq] at hva
  subst hva
  exact of_decide_eq_true hrun hhardware

end PiKachulm.Boot

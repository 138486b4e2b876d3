import PiKachulm.Boot.Property

/-!
# The ranges of the bus of the SoC

`/soc/ranges` and `/soc/dma-ranges` list ranges of bus addresses, each with the physical address that it
begins at and its size. Three integers are read for each of them.
-/

namespace PiKachulm.Boot

/-- `DeviceMemoryProperties`, with what it says about the bus of the SoC. -/
structure SocMemoryProperties extends DeviceMemoryProperties where
  isSocMemAddressU64 : Bool
  isSocMemSizeU64 : Bool

/-- An entry of such a list. -/
structure SocRange where
  socStart : BitVec 64
  armStart : BitVec 64
  size : BitVec 64
  deriving DecidableEq

namespace SocRange

variable (r : SocRange)

/-- The entry holds the physical address. -/
def Covers (pa : BitVec 64) : Prop :=
  r.armStart.toNat ≤ pa.toNat ∧ pa.toNat < r.armStart.toNat + r.size.toNat

/-- The entry holds the bus address. -/
def CoversBus (a : BitVec 64) : Prop :=
  r.socStart.toNat ≤ a.toNat ∧ a.toNat < r.socStart.toNat + r.size.toNat

/-- The bus address of a physical address. -/
def busOf (pa : BitVec 64) : BitVec 64 := r.socStart + (pa - r.armStart)

instance (pa : BitVec 64) : Decidable (r.Covers pa) := inferInstanceAs (Decidable (_ ∧ _))

instance (a : BitVec 64) : Decidable (r.CoversBus a) := inferInstanceAs (Decidable (_ ∧ _))

end SocRange

/-- When no two elements satisfy a predicate, the search for one finds the one that does. -/
lemma find?_of_pairwise {α : Type*} {P : α → Bool} {l : List α} {x : α}
    (hpair : l.Pairwise fun x y => ¬(P x = true ∧ P y = true)) (hx : x ∈ l) (hP : P x = true) :
    l.find? P = some x := by
  induction l with
  | nil => cases hx
  | cons y l ih =>
    rw [List.pairwise_cons] at hpair
    rw [List.find?_cons]
    rcases List.mem_cons.mp hx with rfl | hmem
    · simp [hP]
    · have hnot : ¬P y = true := fun h => hpair.1 x hmem ⟨h, hP⟩
      simp [hnot, ih hpair.2 hmem]

namespace Property

variable (m : SocMemoryProperties) (p : Property)

/-- The entry at `index`, and the index after it. -/
def nextRange (index : ℕ) : Option (SocRange × ℕ) := do
  let (socStart, index) ← p.getVariableInt index m.isSocMemAddressU64
  let (armStart, index) ← p.getVariableInt index m.isArmMemAddressU64
  let (size, index) ← p.getVariableInt index m.isSocMemSizeU64
  return (⟨.ofNat 64 socStart, .ofNat 64 armStart, .ofNat 64 size⟩, index)

variable {m p} {index next : ℕ} {r : SocRange}

lemma nextRange_eq_some (h : p.nextRange m index = some (r, next)) :
    ∃ socStart armStart size i₁ i₂, p.getVariableInt index m.isSocMemAddressU64 = some (socStart, i₁) ∧
      p.getVariableInt i₁ m.isArmMemAddressU64 = some (armStart, i₂) ∧
      p.getVariableInt i₂ m.isSocMemSizeU64 = some (size, next) ∧
      r = ⟨.ofNat 64 socStart, .ofNat 64 armStart, .ofNat 64 size⟩ := by
  rw [nextRange, Option.bind_eq_bind, Option.bind_eq_some_iff] at h
  obtain ⟨⟨socStart, i₁⟩, h₁, h⟩ := h
  obtain ⟨⟨armStart, i₂⟩, h₂, h⟩ := Option.bind_eq_some_iff.mp h
  obtain ⟨⟨size, i₃⟩, h₃, h⟩ := Option.bind_eq_some_iff.mp h
  cases h
  exact ⟨socStart, armStart, size, i₁, i₂, h₁, h₂, h₃, rfl⟩

lemma lt_of_nextRange (h : p.nextRange m index = some (r, next)) : index < next := by
  obtain ⟨_, _, _, _, _, h₁, h₂, h₃, -⟩ := nextRange_eq_some h
  have hlt₁ := lt_of_getVariableInt h₁
  have hlt₂ := lt_of_getVariableInt h₂
  have hlt₃ := lt_of_getVariableInt h₃
  omega

/-- The entries from `index` on, when the property is made of such. -/
def ranges (m : SocMemoryProperties) (p : Property) (index : ℕ) : Option (List SocRange) :=
  if index < p.length then
    match _hnext : p.nextRange m index with
    | none           => none
    | some (r, next) => (ranges m p next).map fun l => r :: l
  else some []
termination_by p.length - index
decreasing_by
  have hlt := lt_of_nextRange _hnext
  omega

/-- An entry is read, and then the others. -/
lemma ranges_eq_cons {l : List SocRange} (h : p.ranges m index = some (r :: l)) :
    index < p.length ∧ ∃ next, p.nextRange m index = some (r, next) ∧ p.ranges m next = some l := by
  rw [ranges] at h
  split at h
  next hlt =>
    refine ⟨hlt, ?_⟩
    split at h
    · cases h
    next r' next hnext =>
      obtain ⟨l', hl', heq⟩ := Option.map_eq_some_iff.mp h
      cases heq
      exact ⟨next, hnext, hl'⟩
  · cases h

lemma ranges_eq_nil (h : p.ranges m index = some []) : ¬index < p.length := by
  rw [ranges] at h
  split at h
  · split at h
    · cases h
    · obtain ⟨l, -, heq⟩ := Option.map_eq_some_iff.mp h
      cases heq
  next hge => exact hge

/-- A property with one entry. -/
lemma ranges_singleton (hpos : 0 < p.length) (h : p.nextRange m 0 = some (r, p.length)) :
    p.ranges m 0 = some [r] := by
  have hend : p.ranges m p.length = some [] := by rw [ranges, if_neg (Nat.lt_irrefl _)]
  rw [ranges, if_pos hpos]
  split
  next heq => simp [h] at heq
  next heq =>
    cases heq.symm.trans h
    rw [hend]
    rfl

end Property

end PiKachulm.Boot

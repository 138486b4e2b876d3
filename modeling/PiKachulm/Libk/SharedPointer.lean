import Mathlib.Data.BitVec
import Mathlib.Data.Finset.Card
import Mathlib.Tactic.Common

/-!
# Shared pointers

`libk::SharedPointer`: variables that point to blocks, each of which holds a pointer to an object and the
number of the variables that point to it. The variables, the blocks and the objects are given by their
addresses.
-/

namespace PiKachulm.Libk.SharedPointer

structure Block where
  data : Option ℕ
  refCount : BitVec 32
  deriving DecidableEq

/-- The blocks that are allocated, the variables that are alive and what is in their `m_block`; further the
objects that have been given to a pointer, and how often an object has been deleted. -/
structure Pointers where
  block : ℕ → Option Block
  live : Finset ℕ
  mBlock : ℕ → Option ℕ
  given : Finset ℕ
  deleted : ℕ → ℕ

namespace Pointers

variable (s : Pointers) (x y b : ℕ) (ptr : Option ℕ)

/-- No variable and no block. -/
def start : Pointers := ⟨fun _ => none, ∅, fun _ => none, ∅, fun _ => 0⟩

/-! ### The operations

They are undefined when they read or write a block that is not allocated. -/

def setBlock (p : Option ℕ) : Pointers := { s with mBlock := Function.update s.mBlock x p }

/-- `delete` of an object; of null it does nothing. -/
def deleteObject : Pointers :=
  { s with deleted := ptr.elim s.deleted fun o => Function.update s.deleted o (s.deleted o + 1) }

/-- `reset()`, which leaves `m_block` as it is. -/
def reset : Option Pointers :=
  match s.mBlock x with
  | none   => some s
  | some b => do
    let blk ← s.block b
    let count := blk.refCount - 1
    if count = 0 then
      return { s.deleteObject blk.data with block := Function.update s.block b none }
    else
      return { s with block := Function.update s.block b (some { blk with refCount := count }) }

/-- `reset(ptr)`, with the address of the new block. -/
def resetTo : Option Pointers := do
  let s ← s.reset x
  let s := s.setBlock x (some b)
  return { s with
    block := Function.update s.block b (some ⟨ptr, 0 + 1⟩)
    given := ptr.elim s.given fun o => insert o s.given }

def get : Option (Option ℕ) :=
  match s.mBlock x with
  | none   => some none
  | some b => (s.block b).map Block.data

/-- `SharedPointer()`. -/
def construct : Pointers := { s.setBlock x none with live := insert x s.live }

/-- `SharedPointer(ptr)`. -/
def constructTo : Option Pointers := (s.construct x).resetTo x b ptr

/-- `SharedPointer(const SharedPointer&)`. -/
def copyConstruct : Option Pointers :=
  let s' := { s.setBlock x (s.mBlock y) with live := insert x s.live }
  match s'.mBlock x with
  | none   => some s'
  | some b => do
    let blk ← s'.block b
    return { s' with block := Function.update s'.block b (some { blk with refCount := blk.refCount + 1 }) }

/-- `SharedPointer(SharedPointer&&)`. -/
def moveConstruct : Pointers :=
  { (s.setBlock x (s.mBlock y)).setBlock y none with live := insert x s.live }

def copyAssign : Option Pointers :=
  if s.mBlock x = s.mBlock y then some s
  else do
    let s ← s.reset x
    s.copyConstruct x y

def moveAssign : Option Pointers := do
  let s ← s.reset x
  let s := s.setBlock x (s.mBlock y)
  return s.setBlock y none

/-- `~SharedPointer()`. -/
def destroy : Option Pointers := do
  let s ← s.reset x
  return { s with live := s.live.erase x }

/-! ### Runs -/

inductive Op where
  | construct (x : ℕ)
  | constructTo (x : ℕ) (ptr : Option ℕ) (b : ℕ)
  | copyConstruct (x y : ℕ)
  | moveConstruct (x y : ℕ)
  | copyAssign (x y : ℕ)
  | moveAssign (x y : ℕ)
  | reset (x : ℕ)
  | resetTo (x : ℕ) (ptr : Option ℕ) (b : ℕ)
  | get (x : ℕ)
  | destroy (x : ℕ)

def Op.run : Op → Option Pointers
  | construct x         => some (s.construct x)
  | constructTo x ptr b => s.constructTo x b ptr
  | copyConstruct x y   => s.copyConstruct x y
  | moveConstruct x y   => some (s.moveConstruct x y)
  | copyAssign x y      => s.copyAssign x y
  | moveAssign x y      => s.moveAssign x y
  | reset x             => s.reset x
  | resetTo x ptr b     => s.resetTo x b ptr
  | get x               => (s.get x).map fun _ => s
  | destroy x           => s.destroy x

/-- The pointer is null, or of an object that no pointer has been given before. -/
def New : Prop := ∀ o, ptr = some o → o ∉ s.given

/-- What a program must do: variables are constructed once and used while they are alive, and an object is
given to one pointer. A new block is where there is none. -/
def Op.Allowed : Op → Prop
  | construct x         => x ∉ s.live
  | constructTo x ptr b => x ∉ s.live ∧ s.New ptr ∧ s.block b = none
  | copyConstruct x y   => x ∉ s.live ∧ y ∈ s.live
  | moveConstruct x y   => x ∉ s.live ∧ y ∈ s.live
  | copyAssign x y      => x ∈ s.live ∧ y ∈ s.live
  | moveAssign x y      => x ∈ s.live ∧ y ∈ s.live
  | reset x             => x ∈ s.live
  | resetTo x ptr b     => x ∈ s.live ∧ s.New ptr ∧ (s.reset x).elim True fun s => s.block b = none
  | get x               => x ∈ s.live
  | destroy x           => x ∈ s.live

/-- The number of the variables, of some, that point to a block. -/
def refsOf (live : Finset ℕ) (mBlock : ℕ → Option ℕ) (b : ℕ) : ℕ :=
  (live.filter fun x => mBlock x = some b).card

def refs : ℕ := refsOf s.live s.mBlock b

/-- One more variable can be counted. -/
def Room (p : Option ℕ) : Prop := ∀ b, p = some b → s.refs b + 1 < 2 ^ 32

/-- `reset()` finds a pointer that is null, and no copy makes more pointers to a block than can be
counted. -/
def Op.Regular : Op → Prop
  | reset x           => s.mBlock x = none
  | copyConstruct _ y => s.Room (s.mBlock y)
  | copyAssign x y    => s.mBlock x = s.mBlock y ∨ s.Room (s.mBlock y)
  | _                 => True

/-- The number of references that is in a block, 0 when there is no block. -/
def count : ℕ := (s.block b).elim 0 fun blk => blk.refCount.toNat

/-- An object is held by a block. -/
def Held (o : ℕ) : Prop := ∃ b blk, s.block b = some blk ∧ blk.data = some o

/-- The blocks count the variables that point to them, and are there while there is such a variable. The
objects that have been given are deleted once when no block holds them any longer, and not before. -/
structure Correct : Prop where
  counts : ∀ b, s.count b = s.refs b
  positive : ∀ b, (s.block b).isSome → 0 < s.refs b
  alive : ∀ o, s.Held o → s.deleted o = 0
  gone : ∀ o ∈ s.given, ¬s.Held o → s.deleted o = 1
  others : ∀ o ∉ s.given, s.deleted o = 0

/-- The run goes through, every state of it is correct, and a pointer is null after `reset()`. -/
def CorrectFrom (s : Pointers) : List Op → Prop
  | []        => s.Correct
  | op :: ops => s.Correct ∧ ∃ s', op.run s = some s' ∧
      (∀ x, op = .reset x → s'.get x = some none) ∧ CorrectFrom s' ops

def AllowedFrom (s : Pointers) : List Op → Prop
  | []        => True
  | op :: ops => op.Allowed s ∧ (op.run s).elim True fun s' => AllowedFrom s' ops

def RegularFrom (s : Pointers) : List Op → Prop
  | []        => True
  | op :: ops => op.Regular s ∧ (op.run s).elim True fun s' => RegularFrom s' ops

/-- A property of what an operation leaves, if it goes through. -/
instance decidableElim {α : Type} (P : α → Prop) [DecidablePred P] :
    (r : Option α) → Decidable (r.elim True P)
  | none   => isTrue trivial
  | some a => inferInstanceAs (Decidable (P a))

instance decidableNew (s : Pointers) : (ptr : Option ℕ) → Decidable (s.New ptr)
  | none   => isTrue nofun
  | some o => decidable_of_iff (o ∉ s.given) (by simp [New])

instance decidableRoom (s : Pointers) : (p : Option ℕ) → Decidable (s.Room p)
  | none   => isTrue nofun
  | some b => decidable_of_iff (s.refs b + 1 < 2 ^ 32) (by simp [Room])

instance decidableAllowed (s : Pointers) : (op : Op) → Decidable (op.Allowed s)
  | .construct x         => inferInstanceAs (Decidable (x ∉ s.live))
  | .constructTo x ptr b => inferInstanceAs (Decidable (x ∉ s.live ∧ s.New ptr ∧ s.block b = none))
  | .copyConstruct x y   => inferInstanceAs (Decidable (x ∉ s.live ∧ y ∈ s.live))
  | .moveConstruct x y   => inferInstanceAs (Decidable (x ∉ s.live ∧ y ∈ s.live))
  | .copyAssign x y      => inferInstanceAs (Decidable (x ∈ s.live ∧ y ∈ s.live))
  | .moveAssign x y      => inferInstanceAs (Decidable (x ∈ s.live ∧ y ∈ s.live))
  | .reset x             => inferInstanceAs (Decidable (x ∈ s.live))
  | .resetTo x ptr b     =>
    inferInstanceAs (Decidable (x ∈ s.live ∧ s.New ptr ∧ (s.reset x).elim True fun s => s.block b = none))
  | .get x               => inferInstanceAs (Decidable (x ∈ s.live))
  | .destroy x           => inferInstanceAs (Decidable (x ∈ s.live))

instance decidableRegular (s : Pointers) : (op : Op) → Decidable (op.Regular s)
  | .reset x           => inferInstanceAs (Decidable (s.mBlock x = none))
  | .copyConstruct _ y => inferInstanceAs (Decidable (s.Room (s.mBlock y)))
  | .copyAssign x y    => inferInstanceAs (Decidable (s.mBlock x = s.mBlock y ∨ s.Room (s.mBlock y)))
  | .construct _ | .constructTo _ _ _ | .moveConstruct _ _ | .moveAssign _ _ | .resetTo _ _ _ | .get _
  | .destroy _         => isTrue trivial

instance decidableAllowedFrom : (ops : List Op) → (s : Pointers) → Decidable (AllowedFrom s ops)
  | [], _      => isTrue trivial
  | op :: ops, s =>
    have := fun s' => decidableAllowedFrom ops s'
    inferInstanceAs (Decidable (op.Allowed s ∧ (op.run s).elim True fun s' => AllowedFrom s' ops))

instance decidableRegularFrom : (ops : List Op) → (s : Pointers) → Decidable (RegularFrom s ops)
  | [], _      => isTrue trivial
  | op :: ops, s =>
    have := fun s' => decidableRegularFrom ops s'
    inferInstanceAs (Decidable (op.Regular s ∧ (op.run s).elim True fun s' => RegularFrom s' ops))

variable {s x y b ptr} {s' : Pointers} {p q : Option ℕ} {o : ℕ} {op : Op}

/-! ### Counting variables -/

/-- What a pointer adds to the references of a block. -/
def refTo (p : Option ℕ) (b : ℕ) : ℕ := if p = some b then 1 else 0

@[simp] lemma refTo_none : refTo none b = 0 := rfl

lemma refTo_self : refTo (some b) b = 1 := if_pos rfl

lemma refTo_of_ne (h : p ≠ some b) : refTo p b = 0 := if_neg h

section

variable {live : Finset ℕ} {mBlock : ℕ → Option ℕ}

lemma refsOf_insert (hx : x ∉ live) :
    refsOf (insert x live) (Function.update mBlock x p) b = refsOf live mBlock b + refTo p b := by
  have hsame : (live.filter fun y => Function.update mBlock x p y = some b) =
      live.filter fun y => mBlock y = some b := by
    refine Finset.filter_congr fun y hy => ?_
    rw [Function.update_of_ne]
    rintro rfl
    exact hx hy
  rw [refsOf, Finset.filter_insert, Function.update_self, hsame, refsOf, refTo]
  split_ifs
  · exact Finset.card_insert_of_notMem fun hmem => hx (Finset.mem_of_mem_filter x hmem)
  · rfl

lemma refsOf_erase (hx : x ∈ live) :
    refsOf (live.erase x) mBlock b + refTo (mBlock x) b = refsOf live mBlock b := by
  have hinsert := @refsOf_insert x b (mBlock x) (live.erase x) mBlock (Finset.notMem_erase x live)
  rw [Function.update_eq_self, Finset.insert_erase hx] at hinsert
  exact hinsert.symm

lemma refsOf_update (hx : x ∈ live) :
    refsOf live (Function.update mBlock x p) b + refTo (mBlock x) b = refsOf live mBlock b + refTo p b := by
  have hinsert := @refsOf_insert x b p (live.erase x) mBlock (Finset.notMem_erase x live)
  rw [Finset.insert_erase hx] at hinsert
  have herase := @refsOf_erase x b live mBlock hx
  omega

end

/-! ### Blocks and objects -/

/-- A block has references, an object is in one block at most, and what has become of the objects. -/
structure Blocks (s : Pointers) : Prop where
  positive : ∀ b blk, s.block b = some blk → blk.refCount ≠ 0
  sole : ∀ b b' blk blk' o, s.block b = some blk → s.block b' = some blk' → blk.data = some o →
    blk'.data = some o → b = b'
  given : ∀ o, s.Held o → o ∈ s.given
  alive : ∀ o, s.Held o → s.deleted o = 0
  gone : ∀ o ∈ s.given, ¬s.Held o → s.deleted o = 1
  others : ∀ o ∉ s.given, s.deleted o = 0

lemma count_eq {blk : Block} (h : s.block b = some blk) : s.count b = blk.refCount.toNat := by
  rw [count, h, Option.elim_some]

lemma count_of_self {r : Option Block} (h : s'.block = Function.update s.block b r) :
    s'.count b = r.elim 0 fun blk => blk.refCount.toNat := by rw [count, h, Function.update_self]

lemma count_of_ne {r : Option Block} {b' : ℕ} (h : s'.block = Function.update s.block b r) (hne : b' ≠ b) :
    s'.count b' = s.count b' := by rw [count, count, h, Function.update_of_ne hne]

lemma exists_of_count_pos (h : 0 < s.count b) : ∃ blk, s.block b = some blk := by
  rw [count] at h
  cases hb : s.block b with
  | none =>
    rw [hb] at h
    cases h
  | some blk => exact ⟨blk, rfl⟩

lemma Blocks.count_pos (h : s.Blocks) {blk : Block} (hb : s.block b = some blk) : 0 < s.count b := by
  rw [count_eq hb]
  exact Nat.pos_of_ne_zero fun hzero => h.positive b blk hb (BitVec.eq_of_toNat_eq hzero)

/-- The objects stay as they are when every block keeps its object. -/
lemma Blocks.of_same (h : s.Blocks) (hpositive : ∀ b blk, s'.block b = some blk → blk.refCount ≠ 0)
    (hdata : ∀ b, (s'.block b).map Block.data = (s.block b).map Block.data) (hgiven : s'.given = s.given)
    (hdeleted : s'.deleted = s.deleted) : s'.Blocks := by
  have hback : ∀ b blk, s'.block b = some blk → ∃ blk₀, s.block b = some blk₀ ∧ blk₀.data = blk.data := by
    intro b blk hb
    have hmap := hdata b
    rw [hb] at hmap
    exact Option.map_eq_some_iff.mp hmap.symm
  have hheld : ∀ o, s'.Held o ↔ s.Held o := by
    intro o
    constructor
    · rintro ⟨b, blk, hb, ho⟩
      obtain ⟨blk₀, hb₀, heq⟩ := hback b blk hb
      exact ⟨b, blk₀, hb₀, heq.trans ho⟩
    · rintro ⟨b, blk, hb, ho⟩
      have hmap := hdata b
      rw [hb] at hmap
      obtain ⟨blk', hb', heq⟩ := Option.map_eq_some_iff.mp hmap
      exact ⟨b, blk', hb', heq.trans ho⟩
  refine ⟨hpositive, fun b b' blk blk' o hb hb' ho ho' => ?_, fun o ho => ?_, fun o ho => ?_,
    fun o ho hnot => ?_, fun o ho => ?_⟩
  · obtain ⟨blk₀, hb₀, heq⟩ := hback b blk hb
    obtain ⟨blk₀', hb₀', heq'⟩ := hback b' blk' hb'
    exact h.sole b b' blk₀ blk₀' o hb₀ hb₀' (heq.trans ho) (heq'.trans ho')
  · exact hgiven ▸ h.given o ((hheld o).mp ho)
  · exact hdeleted ▸ h.alive o ((hheld o).mp ho)
  · rw [hgiven] at ho
    exact hdeleted ▸ h.gone o ho fun hh => hnot ((hheld o).mpr hh)
  · rw [hgiven] at ho
    exact hdeleted ▸ h.others o ho

/-- Another number of references is written to a block. -/
lemma Blocks.setCount (h : s.Blocks) {blk : Block} (hb : s.block b = some blk) {n : BitVec 32} (hn : n ≠ 0)
    (hblock : s'.block = Function.update s.block b (some { blk with refCount := n }))
    (hgiven : s'.given = s.given) (hdeleted : s'.deleted = s.deleted) : s'.Blocks := by
  refine h.of_same (fun b' blk' hb' => ?_) (fun b' => ?_) hgiven hdeleted
  · rw [hblock] at hb'
    by_cases hbb : b' = b
    · subst hbb
      rw [Function.update_self] at hb'
      cases hb'
      exact hn
    · rw [Function.update_of_ne hbb] at hb'
      exact h.positive b' blk' hb'
  · rw [hblock]
    by_cases hbb : b' = b
    · subst hbb
      rw [Function.update_self, hb]
      rfl
    · rw [Function.update_of_ne hbb]

lemma held_update_none {blk : Block} (h : s.Blocks) (hb : s.block b = some blk) {t : Pointers}
    (ht : t.block = Function.update s.block b none) : t.Held o ↔ s.Held o ∧ blk.data ≠ some o := by
  constructor
  · rintro ⟨b', blk', hb', ho⟩
    by_cases hbb : b' = b
    · subst hbb
      rw [ht, Function.update_self] at hb'
      cases hb'
    · rw [ht, Function.update_of_ne hbb] at hb'
      exact ⟨⟨b', blk', hb', ho⟩, fun heq => hbb (h.sole b' b blk' blk o hb' hb ho heq)⟩
  · rintro ⟨⟨b', blk', hb', ho⟩, hne⟩
    have hbb : b' ≠ b := by
      rintro rfl
      cases hb.symm.trans hb'
      exact hne ho
    exact ⟨b', blk', by rw [ht, Function.update_of_ne hbb, hb'], ho⟩

/-- A block is deleted with its object. -/
lemma Blocks.free (h : s.Blocks) {blk : Block} (hb : s.block b = some blk) :
    ({ s.deleteObject blk.data with block := Function.update s.block b none } : Pointers).Blocks := by
  have hheld : ∀ o, _ ↔ s.Held o ∧ blk.data ≠ some o := fun o =>
    @held_update_none s b o blk h hb
      { s.deleteObject blk.data with block := Function.update s.block b none } rfl
  have hdeleted : ∀ o, (s.deleteObject blk.data).deleted o =
      s.deleted o + if blk.data = some o then 1 else 0 := by
    intro o
    cases hdata : blk.data with
    | none => rfl
    | some o' =>
      by_cases ho : o = o'
      · subst ho
        simp [deleteObject]
      · simp [deleteObject, ho, Ne.symm ho]
  have hold : ∀ b' blk', Function.update s.block b none b' = some blk' → s.block b' = some blk' := by
    intro b' blk' hb'
    by_cases hbb : b' = b
    · subst hbb
      rw [Function.update_self] at hb'
      cases hb'
    · rwa [Function.update_of_ne hbb] at hb'
  refine ⟨fun b' blk' hb' => h.positive b' blk' (hold b' blk' hb'),
    fun b₁ b₂ blk₁ blk₂ o h₁ h₂ => h.sole b₁ b₂ blk₁ blk₂ o (hold _ _ h₁) (hold _ _ h₂),
    fun o ho => h.given o ((hheld o).mp ho).1, fun o ho => ?_, fun o ho hnot => ?_, fun o ho => ?_⟩
  · obtain ⟨hs, hne⟩ := (hheld o).mp ho
    exact (hdeleted o).trans (by rw [if_neg hne, h.alive o hs])
  · rw [hheld, not_and, not_not] at hnot
    refine (hdeleted o).trans ?_
    by_cases hs : s.Held o
    · rw [if_pos (hnot hs), h.alive o hs]
    · rw [if_neg fun heq => hs ⟨b, blk, hb, heq⟩, h.gone o ho hs]
  · have hne : blk.data ≠ some o := fun heq => ho (h.given o ⟨b, blk, hb, heq⟩)
    exact (hdeleted o).trans (by rw [if_neg hne, h.others o ho])

/-- A new block gets an object that no block has had. -/
lemma Blocks.alloc (h : s.Blocks) (hb : s.block b = none) (hnew : s.New ptr) :
    ({ s with
      block := Function.update s.block b (some ⟨ptr, 0 + 1⟩)
      given := ptr.elim s.given fun o => insert o s.given } : Pointers).Blocks := by
  have hcases : ∀ b' blk', Function.update s.block b (some ⟨ptr, 0 + 1⟩) b' = some blk' →
      (b' = b ∧ blk' = ⟨ptr, 0 + 1⟩) ∨ s.block b' = some blk' := by
    intro b' blk' hb'
    by_cases hbb : b' = b
    · subst hbb
      rw [Function.update_self] at hb'
      exact .inl ⟨rfl, (Option.some_inj.mp hb').symm⟩
    · rw [Function.update_of_ne hbb] at hb'
      exact .inr hb'
  have hne : ∀ b' blk', s.block b' = some blk' → b' ≠ b := by
    rintro b' blk' hb' rfl
    cases hb.symm.trans hb'
  -- an object that is held already is not the new one
  have hold : ∀ o, s.Held o → ptr ≠ some o := fun o ho heq => hnew o heq (h.given o ho)
  have hgiven : ∀ o, o ∈ (ptr.elim s.given fun o => insert o s.given) ↔ ptr = some o ∨ o ∈ s.given := by
    intro o
    cases ptr with
    | none => simp
    | some o' => simp [eq_comm]
  refine ⟨fun b' blk' hb' => ?_, fun b₁ b₂ blk₁ blk₂ o h₁ h₂ ho₁ ho₂ => ?_, fun o ho => (hgiven o).mpr ?_,
    fun o ho => ?_, fun o ho hnot => ?_, fun o ho => ?_⟩
  · rcases hcases b' blk' hb' with ⟨rfl, rfl⟩ | hb'
    · exact (by decide : (0 + 1 : BitVec 32) ≠ 0)
    · exact h.positive b' blk' hb'
  · rcases hcases b₁ blk₁ h₁ with ⟨rfl, rfl⟩ | hs₁
    · rcases hcases b₂ blk₂ h₂ with ⟨rfl, rfl⟩ | hs₂
      · rfl
      · exact absurd ho₁ (hold o ⟨b₂, blk₂, hs₂, ho₂⟩)
    · rcases hcases b₂ blk₂ h₂ with ⟨rfl, rfl⟩ | hs₂
      · exact absurd ho₂ (hold o ⟨b₁, blk₁, hs₁, ho₁⟩)
      · exact h.sole b₁ b₂ blk₁ blk₂ o hs₁ hs₂ ho₁ ho₂
  · obtain ⟨b', blk', hb', ho⟩ := ho
    rcases hcases b' blk' hb' with ⟨rfl, rfl⟩ | hb'
    · exact .inl ho
    · exact .inr (h.given o ⟨b', blk', hb', ho⟩)
  · obtain ⟨b', blk', hb', ho⟩ := ho
    rcases hcases b' blk' hb' with ⟨rfl, rfl⟩ | hb'
    · exact h.others o (hnew o ho)
    · exact h.alive o ⟨b', blk', hb', ho⟩
  · rcases (hgiven o).mp ho with hptr | ho
    · exact absurd ⟨b, _, Function.update_self .., hptr⟩ hnot
    · refine h.gone o ho fun hs => hnot ?_
      obtain ⟨b', blk', hb', ho⟩ := hs
      exact ⟨b', blk', (Function.update_of_ne (hne b' blk' hb') _ _).trans hb', ho⟩
  · exact h.others o fun hs => ho ((hgiven o).mpr (.inr hs))

/-! ### `reset` -/

/-- What `reset()` takes from the blocks. -/
structure Released (s : Pointers) (x : ℕ) (s' : Pointers) : Prop where
  live : s'.live = s.live
  mBlock : s'.mBlock = s.mBlock
  given : s'.given = s.given
  count : ∀ b, s'.count b + refTo (s.mBlock x) b = s.count b
  blocks : s'.Blocks

lemma reset_of_none (hx : s.mBlock x = none) : s.reset x = some s := by
  rw [reset, hx]

lemma reset_spec (h : s.Blocks) (hx : ∀ b, s.mBlock x = some b → 0 < s.count b) :
    ∃ s', s.reset x = some s' ∧ Released s x s' := by
  rw [reset]
  cases hm : s.mBlock x with
  | none => exact ⟨s, rfl, rfl, rfl, rfl, fun b => by rw [hm]; rfl, h⟩
  | some b =>
    obtain ⟨blk, hb⟩ := exists_of_count_pos (hx b hm)
    have hcount := count_eq hb
    have hother : ∀ b' r (t : Pointers), t.block = Function.update s.block b r → b' ≠ b →
        t.count b' + refTo (some b) b' = s.count b' := by
      intro b' r t ht hne
      rw [refTo_of_ne fun heq => hne (Option.some_inj.mp heq).symm, count_of_ne ht hne, Nat.add_zero]
    simp only [hb, Option.bind_eq_bind, Option.bind_some]
    split_ifs with hzero
    · refine ⟨_, rfl, rfl, rfl, rfl, fun b' => ?_, h.free hb⟩
      rw [hm]
      by_cases hbb : b' = b
      · subst hbb
        have hone : blk.refCount = 1 := sub_eq_zero.mp hzero
        rw [refTo_self, hcount, hone, count_of_self rfl]
        rfl
      · exact hother b' none _ rfl hbb
    · refine ⟨_, rfl, rfl, rfl, rfl, fun b' => ?_, h.setCount hb hzero rfl rfl rfl⟩
      rw [hm]
      by_cases hbb : b' = b
      · subst hbb
        have hpos : 0 < blk.refCount.toNat := hcount ▸ hx b' hm
        have hsub : (blk.refCount - 1).toNat + 1 = blk.refCount.toNat := by
          bv_omega
        rw [refTo_self, hcount, count_of_self rfl]
        exact hsub
      · exact hother b' _ _ rfl hbb

/-! ### The invariant -/

structure Inv (s : Pointers) : Prop where
  counts : ∀ b, s.count b = s.refs b
  blocks : s.Blocks

lemma inv_start : start.Inv where
  counts _ := rfl
  blocks := by
    have hheld : ∀ o, ¬start.Held o := by
      rintro o ⟨b, blk, hb, -⟩
      cases hb
    refine ⟨?_, ?_, fun o ho => absurd ho (hheld o), fun _ _ => rfl, ?_, fun _ _ => rfl⟩
    · intro b blk hb
      cases hb
    · intro b b' blk blk' o hb
      cases hb
    · intro o ho
      exact absurd ho (Finset.notMem_empty o)

lemma refs_pos (hx : x ∈ s.live) (hb : s.mBlock x = some b) : 0 < s.refs b :=
  Finset.card_pos.mpr ⟨x, Finset.mem_filter.mpr ⟨hx, hb⟩⟩

lemma Inv.count_pos (h : s.Inv) (hx : x ∈ s.live) : ∀ b, s.mBlock x = some b → 0 < s.count b :=
  fun b hb => h.counts b ▸ refs_pos hx hb

lemma count_lt : s.count b < 2 ^ 32 := by
  rw [count]
  cases s.block b with
  | none => decide
  | some blk => exact blk.refCount.isLt

lemma Inv.correct (h : s.Inv) : s.Correct where
  counts := h.counts
  positive b hb := by
    obtain ⟨blk, hblk⟩ := Option.isSome_iff_exists.mp hb
    exact h.counts b ▸ h.blocks.count_pos hblk
  alive := h.blocks.alive
  gone := h.blocks.gone
  others := h.blocks.others

/-- The variables do not matter to the blocks. -/
lemma Blocks.of_eq (h : s.Blocks) (hblock : s'.block = s.block) (hgiven : s'.given = s.given)
    (hdeleted : s'.deleted = s.deleted) : s'.Blocks :=
  h.of_same (fun b blk hb => h.positive b blk (hblock ▸ hb)) (fun b => by rw [hblock]) hgiven hdeleted

lemma inv_construct (h : s.Inv) (hx : x ∉ s.live) : (s.construct x).Inv where
  counts b := (h.counts b).trans (@refsOf_insert x b none s.live s.mBlock hx).symm
  blocks := h.blocks.of_eq rfl rfl rfl

/-- What a copy does to the counts when all variables but `x` are counted. -/
lemma copyConstruct_spec (hblocks : s.Blocks) (hcounts : ∀ b, s.count b = refsOf (s.live.erase x) s.mBlock b)
    (hy : ∀ b, s.mBlock y = some b → 0 < s.count b) :
    ∃ s', s.copyConstruct x y = some s' ∧ (∀ b, s'.refs b = s.count b + refTo (s.mBlock y) b) ∧
      ((∀ b, s.mBlock y = some b → s.count b + 1 < 2 ^ 32) → s'.Inv) := by
  have hrefs : ∀ b, refsOf (insert x s.live) (Function.update s.mBlock x (s.mBlock y)) b =
      s.count b + refTo (s.mBlock y) b := by
    intro b
    have hinsert := @refsOf_insert x b (s.mBlock y) (s.live.erase x) s.mBlock (Finset.notMem_erase x _)
    have hlive : insert x (s.live.erase x) = insert x s.live := by
      ext z
      by_cases hz : z = x <;> simp [hz]
    rwa [hlive, ← hcounts] at hinsert
  have hself : Function.update s.mBlock x (s.mBlock y) x = s.mBlock y := Function.update_self ..
  rw [copyConstruct]
  simp only [setBlock, hself]
  cases hm : s.mBlock y with
  | none =>
    rw [hm] at hrefs
    exact ⟨_, rfl, hrefs, fun _ => ⟨fun b => (hrefs b).symm, hblocks.of_eq rfl rfl rfl⟩⟩
  | some b =>
    rw [hm] at hrefs
    obtain ⟨blk, hb⟩ := exists_of_count_pos (hy b hm)
    simp only [hb, Option.bind_eq_bind, Option.bind_some]
    refine ⟨_, rfl, hrefs, fun hroom => ⟨fun b' => ?_, ?_⟩⟩
    · have hrefs' := hrefs b'
      by_cases hbb : b' = b
      · subst hbb
        have hlt : blk.refCount.toNat + 1 < 2 ^ 32 := count_eq hb ▸ hroom b' rfl
        have hadd : (blk.refCount + 1).toNat = blk.refCount.toNat + 1 := by bv_omega
        rw [refTo_self, count_eq hb] at hrefs'
        rw [count_of_self rfl]
        exact hadd.trans hrefs'.symm
      · rw [refTo_of_ne fun heq => hbb (Option.some_inj.mp heq).symm] at hrefs'
        exact (count_of_ne rfl hbb).trans hrefs'.symm
    · have hne : blk.refCount + 1 ≠ 0 := by
        intro hzero
        have hlt : blk.refCount.toNat + 1 < 2 ^ 32 := count_eq hb ▸ hroom b rfl
        bv_omega
      exact hblocks.setCount hb hne rfl rfl rfl

lemma inv_moveConstruct (h : s.Inv) (hx : x ∉ s.live) (hy : y ∈ s.live) : (s.moveConstruct x y).Inv where
  counts b := by
    have hne : y ≠ x := by
      rintro rfl
      exact hx hy
    have hinsert := @refsOf_insert x b (s.mBlock y) s.live s.mBlock hx
    have hupdate := @refsOf_update y b none (insert x s.live) (Function.update s.mBlock x (s.mBlock y))
      (Finset.mem_insert_of_mem hy)
    rw [Function.update_of_ne hne, refTo_none] at hupdate
    have hrefs : (s.moveConstruct x y).refs b = s.refs b := by
      change refsOf (insert x s.live) (Function.update (Function.update s.mBlock x _) y none) b = refsOf _ _ b
      omega
    rw [hrefs, ← h.counts]
    rfl
  blocks := h.blocks.of_eq rfl rfl rfl

/-- The variables that are left when one is not counted. -/
lemma Released.counts (h : s.Inv) (hx : x ∈ s.live) (hr : Released s x s') :
    ∀ b, s'.count b = refsOf (s'.live.erase x) s'.mBlock b := by
  intro b
  have hcount := hr.count b
  have herase := @refsOf_erase x b s.live s.mBlock hx
  have hrefs := h.counts b
  rw [hr.live, hr.mBlock]
  change _ = refsOf s.live s.mBlock b at hrefs
  omega

lemma copyAssign_spec (h : s.Inv) (hx : x ∈ s.live) (hy : y ∈ s.live) (hne : s.mBlock x ≠ s.mBlock y) :
    ∃ s', s.copyAssign x y = some s' ∧ (∀ b, s.mBlock y = some b → s'.refs b = s.refs b + 1) ∧
      (s.Room (s.mBlock y) → s'.Inv) := by
  obtain ⟨s₁, hreset, hr⟩ := reset_spec h.blocks (h.count_pos hx)
  -- the block of the other pointer keeps its references
  have hsame : ∀ b, s.mBlock y = some b → s₁.count b = s.refs b := by
    intro b hb
    have hcount := hr.count b
    rw [refTo_of_ne fun heq => hne (heq.trans hb.symm), h.counts] at hcount
    exact hcount
  obtain ⟨s', hcopy, hrefs, hinv⟩ := @copyConstruct_spec s₁ x y hr.blocks (hr.counts h hx) fun b hb => by
    rw [hr.mBlock] at hb
    rw [hsame b hb]
    exact refs_pos hy hb
  rw [hr.mBlock] at hrefs hinv
  refine ⟨s', ?_, fun b hb => ?_, fun hroom => hinv fun b hb => ?_⟩
  · rw [copyAssign, if_neg hne, hreset]
    exact hcopy
  · rw [hrefs, hsame b hb, hb, refTo_self]
  · rw [hsame b hb]
    exact hroom b hb

lemma moveAssign_spec (h : s.Inv) (hx : x ∈ s.live) (hy : y ∈ s.live) :
    ∃ s', s.moveAssign x y = some s' ∧ s'.Inv := by
  obtain ⟨s₁, hreset, hr⟩ := reset_spec h.blocks (h.count_pos hx)
  refine ⟨(s₁.setBlock x (s₁.mBlock y)).setBlock y none, ?_, fun b => ?_, hr.blocks.of_eq rfl rfl rfl⟩
  · rw [moveAssign, hreset]
    rfl
  · have hself : Function.update s.mBlock x (s.mBlock y) y = s.mBlock y := by
      by_cases hyx : y = x
      · rw [hyx, Function.update_self]
      · exact Function.update_of_ne hyx _ _
    have hfirst := @refsOf_update x b (s.mBlock y) s.live s.mBlock hx
    have hsecond := @refsOf_update y b none s.live (Function.update s.mBlock x (s.mBlock y)) hy
    rw [hself, refTo_none] at hsecond
    have hcount := hr.count b
    have hrefs := h.counts b
    change _ = refsOf s.live s.mBlock b at hrefs
    change s₁.count b = refsOf s₁.live (Function.update (Function.update s₁.mBlock x (s₁.mBlock y)) y none) b
    rw [hr.live, hr.mBlock]
    omega

lemma resetTo_spec (h : s.Inv) (hx : x ∈ s.live) (hnew : s.New ptr)
    (halloc : (s.reset x).elim True fun s => s.block b = none) :
    ∃ s', s.resetTo x b ptr = some s' ∧ s'.Inv := by
  obtain ⟨s₁, hreset, hr⟩ := reset_spec h.blocks (h.count_pos hx)
  rw [hreset, Option.elim_some] at halloc
  have hnew₁ : (s₁.setBlock x (some b)).New ptr := fun o ho => hr.given ▸ hnew o ho
  have hblocks : (s₁.setBlock x (some b)).Blocks := hr.blocks.of_eq rfl rfl rfl
  let s' : Pointers := { s₁.setBlock x (some b) with
    block := Function.update s₁.block b (some ⟨ptr, 0 + 1⟩)
    given := ptr.elim s₁.given fun o => insert o s₁.given }
  have hrun : s.resetTo x b ptr = some s' := by
    rw [resetTo, hreset]
    rfl
  refine ⟨s', hrun, fun b' => ?_, hblocks.alloc halloc hnew₁⟩
  have hnewCount : s'.count b' = s₁.count b' + refTo (some b) b' := by
    by_cases hbb : b' = b
    · subst hbb
      have hzero : s₁.count b' = 0 := by rw [Pointers.count, halloc, Option.elim_none]
      rw [hzero, refTo_self, @count_of_self s₁ b' s' _ rfl]
      rfl
    · rw [refTo_of_ne fun heq => hbb (Option.some_inj.mp heq).symm, @count_of_ne s₁ b s' _ b' rfl hbb,
        Nat.add_zero]
  have hupdate := @refsOf_update x b' (some b) s.live s.mBlock hx
  have hcount := hr.count b'
  have hrefs := h.counts b'
  change _ = refsOf s.live s.mBlock b' at hrefs
  change _ = refsOf s₁.live (Function.update s₁.mBlock x (some b)) b'
  rw [hr.live, hr.mBlock]
  omega

lemma destroy_spec (h : s.Inv) (hx : x ∈ s.live) : ∃ s', s.destroy x = some s' ∧ s'.Inv := by
  obtain ⟨s₁, hreset, hr⟩ := reset_spec h.blocks (h.count_pos hx)
  refine ⟨{ s₁ with live := s₁.live.erase x }, ?_, hr.counts h hx, hr.blocks.of_eq rfl rfl rfl⟩
  rw [destroy, hreset]
  rfl

/-! ### One operation -/

lemma run_of_regular (h : s.Inv) (hallowed : op.Allowed s) (hregular : op.Regular s) :
    ∃ s', op.run s = some s' ∧ s'.Inv ∧ ∀ x, op = .reset x → s'.get x = some none := by
  cases op with
  | construct x => exact ⟨_, rfl, inv_construct h hallowed, nofun⟩
  | constructTo x ptr b =>
    obtain ⟨hx, hnew, hb⟩ := hallowed
    have hinv := inv_construct h hx
    have hnull : (s.construct x).reset x = some (s.construct x) :=
      reset_of_none (by simp [construct, setBlock])
    obtain ⟨s', hrun, hinv'⟩ := @resetTo_spec (s.construct x) x b ptr hinv (Finset.mem_insert_self x _) hnew
      (hnull.symm ▸ hb)
    exact ⟨s', hrun, hinv', nofun⟩
  | copyConstruct x y =>
    obtain ⟨hx, hy⟩ := hallowed
    have hcounts : ∀ b, s.count b = refsOf (s.live.erase x) s.mBlock b := by
      rw [Finset.erase_eq_of_notMem hx]
      exact h.counts
    obtain ⟨s', hrun, -, hinv⟩ := @copyConstruct_spec s x y h.blocks hcounts (h.count_pos hy)
    exact ⟨s', hrun, hinv fun b hb => h.counts b ▸ hregular b hb, nofun⟩
  | moveConstruct x y => exact ⟨_, rfl, inv_moveConstruct h hallowed.1 hallowed.2, nofun⟩
  | copyAssign x y =>
    by_cases heq : s.mBlock x = s.mBlock y
    · exact ⟨s, if_pos heq, h, nofun⟩
    · obtain ⟨s', hrun, -, hinv⟩ := copyAssign_spec h hallowed.1 hallowed.2 heq
      exact ⟨s', hrun, hinv (hregular.resolve_left heq), nofun⟩
  | moveAssign x y =>
    obtain ⟨s', hrun, hinv⟩ := moveAssign_spec h hallowed.1 hallowed.2
    exact ⟨s', hrun, hinv, nofun⟩
  | reset x =>
    have hnull : s.mBlock x = none := hregular
    refine ⟨s, reset_of_none hnull, h, ?_⟩
    rintro z ⟨⟩
    rw [Pointers.get, hnull]
  | resetTo x ptr b =>
    obtain ⟨hx, hnew, hb⟩ := hallowed
    obtain ⟨s', hrun, hinv⟩ := resetTo_spec h hx hnew hb
    exact ⟨s', hrun, hinv, nofun⟩
  | get x =>
    refine ⟨s, ?_, h, nofun⟩
    rw [Op.run, Pointers.get]
    cases hm : s.mBlock x with
    | none => rfl
    | some b =>
      obtain ⟨blk, hb⟩ := exists_of_count_pos (h.count_pos hallowed b hm)
      simp only [hb, Option.map_some]
  | destroy x =>
    obtain ⟨s', hrun, hinv⟩ := destroy_spec h hallowed
    exact ⟨s', hrun, hinv, nofun⟩

/-- More variables point to a block than it can count. -/
lemma not_correct_of_not_room (h : ¬s.Room p) (hrefs : ∀ b, p = some b → s'.refs b = s.refs b + 1) :
    ¬s'.Correct := by
  intro hcorrect
  apply h
  intro b hb
  rw [← hrefs b hb, ← hcorrect.counts]
  exact count_lt

lemma not_correct_of_not_regular (h : s.Inv) (hallowed : op.Allowed s) (hregular : ¬op.Regular s)
    (hrun : op.run s = some s') : ¬s'.Correct := by
  cases op with
  | reset x =>
    intro hcorrect
    obtain ⟨b, hb⟩ := Option.ne_none_iff_exists'.mp hregular
    obtain ⟨s₁, hreset, hr⟩ := reset_spec h.blocks (h.count_pos hallowed)
    obtain rfl := Option.some_inj.mp (hreset.symm.trans hrun)
    -- the block has lost a reference, but no variable has changed
    have hcount := hr.count b
    have hrefs : s₁.refs b = s.refs b := by rw [refs, refs, hr.live, hr.mBlock]
    rw [hb, refTo_self, hcorrect.counts, hrefs, h.counts] at hcount
    omega
  | copyConstruct x y =>
    obtain ⟨hx, hy⟩ := hallowed
    have hcounts : ∀ b, s.count b = refsOf (s.live.erase x) s.mBlock b := by
      rw [Finset.erase_eq_of_notMem hx]
      exact h.counts
    obtain ⟨s₁, hcopy, hrefs, -⟩ := @copyConstruct_spec s x y h.blocks hcounts (h.count_pos hy)
    obtain rfl := Option.some_inj.mp (hcopy.symm.trans hrun)
    exact not_correct_of_not_room hregular fun b hb => by rw [hrefs, hb, refTo_self, h.counts]
  | copyAssign x y =>
    obtain ⟨hne, hroom⟩ := not_or.mp hregular
    obtain ⟨s₁, hcopy, hrefs, -⟩ := copyAssign_spec h hallowed.1 hallowed.2 hne
    obtain rfl := Option.some_inj.mp (hcopy.symm.trans hrun)
    exact not_correct_of_not_room hroom hrefs
  | construct x | constructTo x ptr b | moveConstruct x y | moveAssign x y | resetTo x ptr b | get x
  | destroy x => exact absurd trivial hregular

lemma CorrectFrom.correct {ops : List Op} (h : CorrectFrom s ops) : s.Correct := by
  cases ops with
  | nil => exact h
  | cons op ops => exact h.1

lemma correctFrom_iff (h : s.Inv) {ops : List Op} (hallowed : AllowedFrom s ops) :
    CorrectFrom s ops ↔ RegularFrom s ops := by
  induction ops generalizing s with
  | nil => exact ⟨fun _ => trivial, fun _ => h.correct⟩
  | cons op ops ih =>
    obtain ⟨hop, hrest⟩ := hallowed
    by_cases hregular : op.Regular s
    · obtain ⟨s', hrun, hinv, hnull⟩ := run_of_regular h hop hregular
      rw [hrun, Option.elim_some] at hrest
      have hiff := ih hinv hrest
      constructor
      · rintro ⟨-, t, ht, -, hcorrect⟩
        obtain rfl := Option.some_inj.mp (hrun.symm.trans ht)
        refine ⟨hregular, ?_⟩
        rw [hrun]
        exact hiff.mp hcorrect
      · rintro ⟨-, hregular'⟩
        rw [hrun] at hregular'
        exact ⟨h.correct, s', hrun, hnull, hiff.mpr hregular'⟩
    · constructor
      · rintro ⟨-, s', hrun, -, hcorrect⟩
        exact absurd hcorrect.correct (not_correct_of_not_regular h hop hregular hrun)
      · exact fun hregular' => absurd hregular'.1 hregular

/-- Shared pointers count correctly in the runs in which `reset()` only finds null pointers and no block
gets more references than it can count, and in no others. -/
theorem sharesCorrectly_iff (ops : List Op) (hallowed : AllowedFrom start ops) :
    CorrectFrom start ops ↔ RegularFrom start ops :=
  correctFrom_iff inv_start hallowed

/-- Two objects are shared, moved and replaced. -/
def someOps : List Op :=
  [.constructTo 0 (some 100) 1, .copyConstruct 1 0, .construct 2, .copyAssign 2 1, .copyAssign 2 2,
    .resetTo 0 (some 200) 2, .moveAssign 1 0, .moveConstruct 3 2, .reset 2, .destroy 3, .moveAssign 1 1,
    .get 1, .destroy 0]

theorem sharesCorrectly_someOps : CorrectFrom start someOps :=
  (sharesCorrectly_iff someOps (by decide)).mpr (by decide)

/-- After `reset()` the pointer still leads to its block, which has been deleted. -/
theorem not_sharesCorrectly :
    AllowedFrom start [.constructTo 0 (some 100) 1, .reset 0, .get 0] ∧
      ¬CorrectFrom start [.constructTo 0 (some 100) 1, .reset 0, .get 0] := by
  refine ⟨by decide, ?_⟩
  rintro ⟨-, s₁, h₁, -, -, s₂, h₂, -, hcorrect⟩
  cases h₁
  cases h₂
  have hcounts := hcorrect.correct.counts 1
  revert hcounts
  decide

end Pointers

end PiKachulm.Libk.SharedPointer

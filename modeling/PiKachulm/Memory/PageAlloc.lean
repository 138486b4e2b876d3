import PiKachulm.Core.OrTree
import PiKachulm.Libk.BitArray

/-!
# The page allocator

`PageAlloc` keeps one bit for each page, and above these a tree of bits that leads to a free page.
Pages are numbered from 0, and addresses are numbers of bytes.
-/

namespace PiKachulm.Memory

open Libk Core

/-- `PAGE_SIZE`. -/
def pageSize : ℕ := 4096

/-- `libk::div_round_up`. -/
def divRoundUp (a c : ℕ) : ℕ := (a + c - 1) / c

structure PageAlloc where
  nbPages : ℕ
  mmap : BitArray

namespace PageAlloc

def memoryNeeded (nbPages : ℕ) : ℕ := divRoundUp (nbPages * 2) 8

/-- The constructor, with the words found at the address of the array. -/
def init (nbPages : ℕ) (words : ℕ → BitVec 64) : PageAlloc where
  nbPages := nbPages
  mmap := ((BitArray.init words (memoryNeeded nbPages)).fillArray true).setBit 0 false

def pageIndex (a : PageAlloc) (addr : ℕ) : ℕ := a.nbPages + addr / pageSize

def pageStatus (a : PageAlloc) (addr : ℕ) : Bool := a.mmap.getBit (a.pageIndex addr)

/-- The loop of `mark_as_used`. -/
def clearUp (m : BitArray) (index : ℕ) : BitArray :=
  if index = 0 then m
  else
    let m := m.setBit index false
    let sideValue := m.getBit (index ^^^ 1)
    if sideValue then m else clearUp m (index / 2)

def markAsUsed (a : PageAlloc) (addr : ℕ) : PageAlloc :=
  { a with mmap := clearUp a.mmap (a.pageIndex addr) }

/-- The loop of `free_page`. -/
def setUp (m : BitArray) (index : ℕ) : BitArray :=
  if index = 0 then m
  else if m.getBit index then m else setUp (m.setBit index true) (index / 2)

def freePage (a : PageAlloc) (addr : ℕ) : PageAlloc :=
  { a with mmap := setUp a.mmap (a.pageIndex addr) }

/-- The loop of `fresh_page`: the leaf it finds. -/
def search (m : BitArray) (nbPages index : ℕ) (hindex : 0 < index) : Option ℕ :=
  if m.getBit index then
    if index ≥ nbPages then some index
    else search m nbPages (index * 2) (Nat.mul_pos hindex Nat.two_pos)
  else if _hodd : index % 2 = 1 then none
  else search m nbPages (index + 1) (Nat.succ_pos index)
termination_by (nbPages - index, 1 - index % 2)
decreasing_by
  · left
    omega
  · by_cases hlt : index < nbPages
    · left
      omega
    · have heq : nbPages - (index + 1) = nbPages - index := by omega
      rw [heq]
      right
      omega

/-- `none` when the function returns false. -/
def freshPage (a : PageAlloc) : Option (ℕ × PageAlloc) :=
  (search a.mmap a.nbPages 1 Nat.one_pos).map fun index =>
    let addr := (index - a.nbPages) * pageSize
    (addr, a.markAsUsed addr)

end PageAlloc

/-! ### Calls -/

inductive PageCall where
  | markAsUsed (addr : ℕ)
  | freePage (addr : ℕ)
  | freshPage
  deriving DecidableEq, Repr

def PageCall.run (a : PageAlloc) : PageCall → PageAlloc
  | markAsUsed addr => a.markAsUsed addr
  | freePage addr   => a.freePage addr
  | freshPage       => (a.freshPage.map Prod.snd).getD a

/-- The address of the call is that of a page of the allocator. -/
def PageCall.InRange (nbPages : ℕ) : PageCall → Prop
  | markAsUsed addr => addr < nbPages * pageSize
  | freePage addr   => addr < nbPages * pageSize
  | freshPage       => True

/-- The call frees page `page`. -/
def PageCall.Frees (page : ℕ) : PageCall → Prop
  | freePage addr => addr / pageSize = page
  | _             => False

/-- The allocators that calls in range and meeting `ok` lead to. -/
inductive PageReaches (ok : PageCall → Prop) (a : PageAlloc) : PageAlloc → Prop
  | refl : PageReaches ok a a
  | step {a' : PageAlloc} {c : PageCall} (h : PageReaches ok a a') (hok : ok c)
      (hrange : c.InRange a'.nbPages) : PageReaches ok a (c.run a')

variable {m : BitArray} {n i j page : ℕ} {a a' : PageAlloc} {c : PageCall} {ok : PageCall → Prop}

namespace PageAlloc

/-! ### The loops -/

lemma clearUp_of_ne (hi : i ≠ 0) : clearUp m i =
    if (m.setBit i false).getBit (i ^^^ 1) then m.setBit i false
    else clearUp (m.setBit i false) (i / 2) := by
  rw [clearUp, if_neg hi]

@[simp] lemma clearUp_zero : clearUp m 0 = m := by
  rw [clearUp, if_pos rfl]

lemma setUp_of_ne (hi : i ≠ 0) : setUp m i =
    if m.getBit i then m else setUp (m.setBit i true) (i / 2) := by
  rw [setUp, if_neg hi]

@[simp] lemma setUp_zero : setUp m 0 = m := by
  rw [setUp, if_pos rfl]

lemma clearUp_valid (hm : m.Valid) : (clearUp m i).Valid := by
  induction i using Nat.strong_induction_on generalizing m with
  | _ i ih =>
    by_cases hi : i = 0
    · rwa [hi, clearUp_zero]
    · have hset : (m.setBit i false).Valid := BitArray.setBit_valid.mpr hm
      rw [clearUp_of_ne hi]
      split_ifs
      · exact hset
      · exact ih (i / 2) (by omega) hset

/-- Only the nodes from `i` up to the root are written. -/
lemma clearUp_of_lt (hm : m.Valid) (hij : i < j) : (clearUp m i).getBit j = m.getBit j := by
  induction i using Nat.strong_induction_on generalizing m with
  | _ i ih =>
    by_cases hi : i = 0
    · rw [hi, clearUp_zero]
    · have hset : (m.setBit i false).Valid := BitArray.setBit_valid.mpr hm
      have hj : (m.setBit i false).getBit j = m.getBit j := by
        rw [BitArray.getBit_setBit hm, Function.update_of_ne hij.ne']
      rw [clearUp_of_ne hi]
      split_ifs
      · exact hj
      · rw [ih (i / 2) (by omega) hset (by omega), hj]

lemma setUp_valid (hm : m.Valid) : (setUp m i).Valid := by
  induction i using Nat.strong_induction_on generalizing m with
  | _ i ih =>
    by_cases hi : i = 0
    · rwa [hi, setUp_zero]
    · rw [setUp_of_ne hi]
      split_ifs
      · exact hm
      · exact ih (i / 2) (by omega) (BitArray.setBit_valid.mpr hm)

lemma setUp_of_lt (hm : m.Valid) (hij : i < j) : (setUp m i).getBit j = m.getBit j := by
  induction i using Nat.strong_induction_on generalizing m with
  | _ i ih =>
    by_cases hi : i = 0
    · rw [hi, setUp_zero]
    · have hj : (m.setBit i true).getBit j = m.getBit j := by
        rw [BitArray.getBit_setBit hm, Function.update_of_ne hij.ne']
      rw [setUp_of_ne hi]
      split_ifs
      · rfl
      · rw [ih (i / 2) (by omega) (BitArray.setBit_valid.mpr hm) (by omega), hj]

/-- Repairing a tree after clearing a bit. -/
lemma clearUp_orTree (hm : m.Valid) (hc : Clearing n m.getBit i) :
    OrTree n (clearUp m i).getBit := by
  induction i using Nat.strong_induction_on generalizing m with
  | _ i ih =>
    by_cases hi : i = 0
    · subst hi
      rw [clearUp_zero]
      exact hc.orTree_of_zero
    · have hset : (m.setBit i false).Valid := BitArray.setBit_valid.mpr hm
      have hget := @BitArray.getBit_setBit m i false hm
      rw [clearUp_of_ne hi]
      split_ifs with hs
      · rw [hget] at hs ⊢
        exact hc.stop hi hs
      · refine ih (i / 2) (by omega) hset ?_
        rw [hget] at hs ⊢
        exact hc.next hi (Bool.eq_false_iff.mpr hs)

lemma setUp_orTree (hm : m.Valid) (hc : Setting n m.getBit i) : OrTree n (setUp m i).getBit := by
  induction i using Nat.strong_induction_on generalizing m with
  | _ i ih =>
    by_cases hi : i = 0
    · subst hi
      rw [setUp_zero]
      exact hc.orTree_of_zero
    · rw [setUp_of_ne hi]
      split_ifs with hs
      · exact hc.stop hs
      · refine ih (i / 2) (by omega) (BitArray.setBit_valid.mpr hm) ?_
        rw [BitArray.getBit_setBit hm]
        exact hc.next hi

/-- A leaf that is cleared is clear, and the other leaves are as before. -/
lemma clearUp_leaf (hm : m.Valid) (hi : n ≤ i) (hi₂ : i < 2 * n) (hj : n ≤ j) :
    (clearUp m i).getBit j = if j = i then false else m.getBit j := by
  have hset : (m.setBit i false).Valid := BitArray.setBit_valid.mpr hm
  have hj' : (m.setBit i false).getBit j = if j = i then false else m.getBit j := by
    rw [BitArray.getBit_setBit hm, Function.update_apply]
  rw [clearUp_of_ne (by omega), ← hj']
  split_ifs
  · rfl
  · exact clearUp_of_lt hset (by omega)

lemma setUp_leaf (hm : m.Valid) (hi : n ≤ i) (hi₂ : i < 2 * n) (hj : n ≤ j) :
    (setUp m i).getBit j = if j = i then true else m.getBit j := by
  rw [setUp_of_ne (by omega)]
  split_ifs with hs hji hji
  · rw [hji, hs]
  · rfl
  · rw [setUp_of_lt (BitArray.setBit_valid.mpr hm) (by omega), BitArray.getBit_setBit hm, hji,
      Function.update_self]
  · rw [setUp_of_lt (BitArray.setBit_valid.mpr hm) (by omega), BitArray.getBit_setBit hm,
      Function.update_of_ne hji]

/-- The search from `i` ends at a leaf that is set when `i` is set, or its sibling on the right. -/
lemma search_eq_some (ht : OrTree n m.getBit) (hi : 0 < i) (hi₂ : i < 2 * n)
    (hset : m.getBit i = true ∨ (i % 2 = 0 ∧ m.getBit (i + 1) = true)) :
    ∃ l, search m n i hi = some l ∧ n ≤ l ∧ l < 2 * n ∧ m.getBit l = true := by
  fun_induction search m n i hi with
  | case1 i hi hbit hge => exact ⟨i, rfl, hge, hi₂, hbit⟩
  | case2 i hi hbit hlt ih =>
    have hor := ht i hi (by omega)
    rw [OrNode, hbit, eq_comm, Bool.or_eq_true, Nat.mul_comm 2 i] at hor
    exact ih (by omega) (hor.imp_right fun hright => ⟨by omega, hright⟩)
  | case3 i hi hbit hodd => exact absurd (hset.resolve_left hbit).1 (by omega)
  | case4 i hi hbit hodd ih =>
    obtain ⟨-, hright⟩ := hset.resolve_left hbit
    exact ih (by omega) (.inl hright)

lemma search_eq_none (hroot : m.getBit 1 = false) :
    search m n 1 Nat.one_pos = none := by
  rw [search, if_neg (by simp [hroot]), dif_pos rfl]

/-! ### Pages -/

/-- The page is free. -/
def isFree (a : PageAlloc) (page : ℕ) : Bool := a.mmap.getBit (a.nbPages + page)

lemma pageStatus_eq {addr : ℕ} : a.pageStatus addr = a.isFree (addr / pageSize) := rfl

/-- The array is not null, and its bits are a tree. -/
structure Wf (a : PageAlloc) : Prop where
  valid : a.mmap.Valid
  pos : 1 ≤ a.nbPages
  tree : OrTree a.nbPages a.mmap.getBit

lemma wf_init {words : ℕ → BitVec 64} (hn : 1 ≤ n) : (init n words).Wf := by
  have hvalid : ((BitArray.init words (memoryNeeded n)).fillArray true).Valid :=
    BitArray.fillArray_valid.mpr rfl
  refine ⟨BitArray.setBit_valid.mpr hvalid, hn, ?_⟩
  have hbit : ∀ i, 1 ≤ i → i < 2 * n → (init n words).mmap.getBit i = true := by
    intro i h₁ h₂
    rw [init, BitArray.getBit_setBit hvalid, Function.update_of_ne (by omega)]
    refine BitArray.getBit_fillArray rfl ?_
    change i < 8 * memoryNeeded n
    rw [memoryNeeded, divRoundUp]
    omega
  intro i h₁ h₂
  change i < n at h₂
  rw [OrNode, hbit i h₁ (by omega), hbit (2 * i) (by omega) (by omega), Bool.true_or]

section Wf

variable (ha : a.Wf)

include ha

lemma Wf.markAsUsed {addr : ℕ} : (a.markAsUsed addr).Wf :=
  ⟨clearUp_valid ha.valid, ha.pos,
    clearUp_orTree ha.valid (ha.tree.clearing (Nat.le_add_right _ _))⟩

lemma Wf.freePage {addr : ℕ} : (a.freePage addr).Wf :=
  ⟨setUp_valid ha.valid, ha.pos, setUp_orTree ha.valid (ha.tree.setting (Nat.le_add_right _ _))⟩

lemma Wf.isFree_markAsUsed {addr : ℕ} (haddr : addr < a.nbPages * pageSize) :
    (a.markAsUsed addr).isFree page =
      if page = addr / pageSize then false else a.isFree page := by
  have hpage : addr / pageSize < a.nbPages := Nat.div_lt_of_lt_mul (by rwa [Nat.mul_comm])
  have hleaf := clearUp_leaf ha.valid (n := a.nbPages) (i := a.pageIndex addr) (j := a.nbPages + page)
    (Nat.le_add_right _ _) (by rw [pageIndex]; omega) (Nat.le_add_right _ _)
  simp only [pageIndex, Nat.add_left_cancel_iff] at hleaf
  exact hleaf

lemma Wf.isFree_freePage {addr : ℕ} (haddr : addr < a.nbPages * pageSize) :
    (a.freePage addr).isFree page =
      if page = addr / pageSize then true else a.isFree page := by
  have hpage : addr / pageSize < a.nbPages := Nat.div_lt_of_lt_mul (by rwa [Nat.mul_comm])
  have hleaf := setUp_leaf ha.valid (n := a.nbPages) (i := a.pageIndex addr) (j := a.nbPages + page)
    (Nat.le_add_right _ _) (by rw [pageIndex]; omega) (Nat.le_add_right _ _)
  simp only [pageIndex, Nat.add_left_cancel_iff] at hleaf
  exact hleaf

/-- What `fresh_page` returns is the address of a free page. -/
lemma Wf.freshPage_eq_some (hfree : ∃ page < a.nbPages, a.isFree page = true) :
    ∃ page < a.nbPages, a.isFree page = true ∧
      a.freshPage = some (page * pageSize, a.markAsUsed (page * pageSize)) := by
  obtain ⟨page, hpage, hbit⟩ := hfree
  have hpos := ha.pos
  have hroot : a.mmap.getBit 1 = true :=
    (ha.tree.root_iff ha.pos).mpr ⟨a.nbPages + page, by omega, by omega, hbit⟩
  obtain ⟨l, hl, h₁, h₂, hset⟩ := search_eq_some ha.tree Nat.one_pos (by omega) (.inl hroot)
  refine ⟨l - a.nbPages, by omega, ?_, ?_⟩
  · rw [isFree, Nat.add_sub_cancel' h₁, hset]
  · rw [freshPage, hl]
    rfl

lemma Wf.freshPage_eq_none (hfree : ∀ page < a.nbPages, a.isFree page = false) :
    a.freshPage = none := by
  have hroot : a.mmap.getBit 1 = false := by
    rw [Bool.eq_false_iff, ne_eq, ha.tree.root_iff ha.pos]
    rintro ⟨l, h₁, h₂, hl⟩
    have hused := hfree (l - a.nbPages) (by omega)
    rw [isFree, Nat.add_sub_cancel' h₁, hl] at hused
    cases hused
  rw [freshPage, search_eq_none hroot]
  rfl

lemma Wf.freshPage_cases : (a.freshPage = none ∧ ∀ page < a.nbPages, a.isFree page = false) ∨
    ∃ page < a.nbPages, a.isFree page = true ∧
      a.freshPage = some (page * pageSize, a.markAsUsed (page * pageSize)) := by
  by_cases hfree : ∃ page < a.nbPages, a.isFree page = true
  · exact .inr (ha.freshPage_eq_some hfree)
  · have hused : ∀ page < a.nbPages, a.isFree page = false := by
      intro page hpage
      rw [Bool.eq_false_iff]
      exact fun h => hfree ⟨page, hpage, h⟩
    exact .inl ⟨ha.freshPage_eq_none hused, hused⟩

end Wf

/-! ### Runs -/

lemma Wf.run (ha : a.Wf) : (c.run a).Wf ∧ (c.run a).nbPages = a.nbPages := by
  cases c with
  | markAsUsed addr => exact ⟨ha.markAsUsed, rfl⟩
  | freePage addr => exact ⟨ha.freePage, rfl⟩
  | freshPage =>
    rcases ha.freshPage_cases with ⟨hnone, -⟩ | ⟨page, -, -, hsome⟩
    · rw [PageCall.run, hnone]
      exact ⟨ha, rfl⟩
    · rw [PageCall.run, hsome]
      exact ⟨ha.markAsUsed, rfl⟩

end PageAlloc

/-- Every allocator of a run is well formed. -/
lemma PageReaches.wf (ha : a.Wf) (hreach : PageReaches ok a a') :
    a'.Wf ∧ a'.nbPages = a.nbPages := by
  induction hreach with
  | refl => exact ⟨ha, rfl⟩
  | step _ _ _ ih => exact ⟨ih.1.run.1, ih.1.run.2.trans ih.2⟩

/-- A page in use stays so until it is freed. -/
lemma PageReaches.isFree_eq_false (ha : a.Wf) (hpage : a.isFree page = false)
    (hreach : PageReaches (fun c => ¬c.Frees page) a a') : a'.isFree page = false := by
  induction hreach with
  | refl => exact hpage
  | @step a' c h hok hrange ih =>
    have ha' := (h.wf ha).1
    cases c with
    | markAsUsed addr =>
      rw [PageCall.run, ha'.isFree_markAsUsed hrange, ih, ite_self]
    | freePage addr =>
      rw [PageCall.run, ha'.isFree_freePage hrange, if_neg (fun heq => hok heq.symm), ih]
    | freshPage =>
      rcases ha'.freshPage_cases with ⟨hnone, -⟩ | ⟨other, hother, -, hsome⟩
      · rw [PageCall.run, hnone]
        exact ih
      · have hrange : other * pageSize < a'.nbPages * pageSize :=
          Nat.mul_lt_mul_of_pos_right hother (by decide)
        rw [PageCall.run, hsome]
        change (a'.markAsUsed _).isFree page = false
        rw [ha'.isFree_markAsUsed hrange, ih, ite_self]

/-- What a page allocator guarantees: its bits are a tree; `fresh_page` finds a page if there is a
free one, and makes this page used; `mark_as_used` and `free_page` change the status of their own
page; and a page that was handed out is not handed out again before it is freed. -/
structure PageAllocSpec (n : ℕ) (a : PageAlloc) : Prop where
  tree : ∀ i, 1 ≤ i → i < n →
    a.mmap.getBit i = (a.mmap.getBit (2 * i) || a.mmap.getBit (2 * i + 1))
  full : a.freshPage = none ↔ ∀ addr < n * pageSize, a.pageStatus addr = false
  fresh : ∀ addr a', a.freshPage = some (addr, a') → addr < n * pageSize ∧ addr % pageSize = 0 ∧
    a.pageStatus addr = true ∧ a'.pageStatus addr = false ∧
    ∀ other < n * pageSize, other / pageSize ≠ addr / pageSize →
      a'.pageStatus other = a.pageStatus other
  marks : ∀ addr < n * pageSize, ∀ other < n * pageSize, (a.markAsUsed addr).pageStatus other =
    if other / pageSize = addr / pageSize then false else a.pageStatus other
  frees : ∀ addr < n * pageSize, ∀ other < n * pageSize, (a.freePage addr).pageStatus other =
    if other / pageSize = addr / pageSize then true else a.pageStatus other
  once : ∀ addr a₁ a₂ a₃, a.freshPage = some (addr, a₁) →
    PageReaches (fun c => ¬c.Frees (addr / pageSize)) a₁ a₂ → a₂.freshPage ≠ some (addr, a₃)

lemma page_mul_div : page * pageSize / pageSize = page := Nat.mul_div_cancel page (by decide)

lemma PageAlloc.Wf.spec (ha : a.Wf) : PageAllocSpec a.nbPages a := by
  have hmul : ∀ {page}, page < a.nbPages → page * pageSize < a.nbPages * pageSize :=
    fun hpage => Nat.mul_lt_mul_of_pos_right hpage (by decide)
  refine ⟨ha.tree, ?_, ?_, fun addr haddr other _ => ha.isFree_markAsUsed haddr,
    fun addr haddr other _ => ha.isFree_freePage haddr, ?_⟩
  · constructor
    · intro hnone addr haddr
      rcases ha.freshPage_cases with ⟨-, hused⟩ | ⟨page, -, -, hsome⟩
      · exact hused _ (Nat.div_lt_of_lt_mul (by rwa [Nat.mul_comm]))
      · rw [hnone] at hsome
        cases hsome
    · intro hused
      refine ha.freshPage_eq_none fun page hpage => ?_
      rw [← hused _ (hmul hpage), PageAlloc.pageStatus_eq, page_mul_div]
  · intro addr a' hfresh
    rcases ha.freshPage_cases with ⟨hnone, -⟩ | ⟨page, hpage, hfree, hsome⟩
    · rw [hnone] at hfresh
      cases hfresh
    · rw [hsome] at hfresh
      cases hfresh
      have hstatus : ∀ other, (a.markAsUsed (page * pageSize)).pageStatus other =
          if other / pageSize = page then false else a.pageStatus other := by
        intro other
        have heq : (a.markAsUsed (page * pageSize)).isFree (other / pageSize) = _ :=
          ha.isFree_markAsUsed (hmul hpage)
        rwa [page_mul_div] at heq
      refine ⟨hmul hpage, Nat.mul_mod_left _ _, ?_, ?_, ?_⟩
      · rw [PageAlloc.pageStatus_eq, page_mul_div, hfree]
      · rw [hstatus, page_mul_div, if_pos rfl]
      · intro other _ hne
        rw [page_mul_div] at hne
        rw [hstatus, if_neg hne]
  · intro addr a₁ a₂ a₃ hfresh hreach hagain
    rcases ha.freshPage_cases with ⟨hnone, -⟩ | ⟨page, hpage, -, hsome⟩
    · rw [hnone] at hfresh
      cases hfresh
    · rw [hsome] at hfresh
      cases hfresh
      rw [page_mul_div] at hreach
      have hused : (a.markAsUsed (page * pageSize)).isFree page = false := by
        rw [ha.isFree_markAsUsed (hmul hpage), page_mul_div, if_pos rfl]
      have hused' := hreach.isFree_eq_false ha.markAsUsed hused
      rcases (hreach.wf ha.markAsUsed).1.freshPage_cases with ⟨hnone, -⟩ | ⟨page', -, hfree, hsome'⟩
      · rw [hnone] at hagain
        cases hagain
      · rw [hsome', Option.some.injEq, Prod.mk.injEq] at hagain
        have heq : page' = page := Nat.eq_of_mul_eq_mul_right (by decide) hagain.1
        rw [heq, hused'] at hfree
        cases hfree

theorem pageAlloc_spec_of_reaches {words : ℕ → BitVec 64} (hn : 1 ≤ n)
    (hreach : PageReaches (fun _ => True) (PageAlloc.init n words) a) : PageAllocSpec n a := by
  obtain ⟨ha, hnb⟩ := hreach.wf (PageAlloc.wf_init hn)
  have hspec := ha.spec
  rwa [show a.nbPages = n from hnb] at hspec

theorem pageAlloc_spec_of_reaches_three : PageAllocSpec 3
    (PageCall.run (PageAlloc.init 3 fun _ => 0) (.markAsUsed 4096)) := by
  have hrange : PageCall.InRange 3 (.markAsUsed 4096) := by
    change 4096 < 3 * pageSize
    decide
  exact pageAlloc_spec_of_reaches (by decide) (.step .refl trivial hrange)

end PiKachulm.Memory

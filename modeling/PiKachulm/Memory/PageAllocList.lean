import Mathlib.Data.List.Forall2
import PiKachulm.Memory.PageAlloc

/-!
# The list of page allocators

`PageAllocList` manages several sections of physical memory, each with a page allocator of its
own. Addresses are those of bytes of physical memory, and `Free` says that the page around an
address is one that the allocator of a section may hand out.
-/

namespace PiKachulm.Memory

/-- An element of the list: the section from `sectionStart` to `sectionStop`, excluded. -/
structure AllocList where
  sectionStart : ℕ
  sectionStop : ℕ
  alloc : PageAlloc

structure PageAllocList where
  contiguousResStart : ℕ
  contiguousResStop : ℕ
  list : List AllocList

namespace AllocList

/-- `none` when no section has a free page. -/
def freshPage : List AllocList → Option (ℕ × List AllocList)
  | []          => none
  | cur :: next =>
    match cur.alloc.freshPage with
    | some (addr, alloc) => some (addr + cur.sectionStart, { cur with alloc := alloc } :: next)
    | none               => (freshPage next).map fun (addr, next) => (addr, cur :: next)

def freePage (addr : ℕ) (cur : AllocList) : AllocList :=
  if cur.sectionStart ≤ addr ∧ addr < cur.sectionStop then
    { cur with alloc := cur.alloc.freePage (addr - cur.sectionStart) }
  else cur

/-- The loop of `mark_as_used_range` over the pages of a section. -/
def markPages (sectionStart page pageStop : ℕ) (alloc : PageAlloc) : PageAlloc :=
  if page < pageStop then
    markPages sectionStart (page + pageSize) pageStop (alloc.markAsUsed (page - sectionStart))
  else alloc
termination_by pageStop - page
decreasing_by
  rw [pageSize]
  omega

def markAsUsedRange (start stop : ℕ) (cur : AllocList) : AllocList :=
  if stop > cur.sectionStart ∧ start < cur.sectionStop then
    let pageStart := max start cur.sectionStart
    let pageStop := min stop cur.sectionStop
    { cur with alloc := markPages cur.sectionStart pageStart pageStop cur.alloc }
  else cur

/-- The allocator of the section has the page of `addr`, and it is free. -/
def Free (cur : AllocList) (addr : ℕ) : Prop :=
  cur.sectionStart ≤ addr ∧ addr < cur.sectionStop ∧
    cur.alloc.pageStatus (addr - cur.sectionStart) = true

/-- The section begins at a page and ends where the pages of its allocator do. -/
structure Wf (cur : AllocList) : Prop where
  alloc : cur.alloc.Wf
  aligned : cur.sectionStart % pageSize = 0
  size : cur.sectionStop = cur.sectionStart + cur.alloc.nbPages * pageSize
  bounded : cur.sectionStop < 2 ^ 64

/-- The same section with, for every address, the status that `P` says. -/
structure Becomes (P : ℕ → Prop) (cur cur' : AllocList) : Prop where
  wf : cur'.Wf
  sectionStart : cur'.sectionStart = cur.sectionStart
  sectionStop : cur'.sectionStop = cur.sectionStop
  free : ∀ addr, cur'.Free addr ↔ P addr

end AllocList

namespace PageAllocList

def freshPage (l : PageAllocList) : Option (ℕ × PageAllocList) :=
  (AllocList.freshPage l.list).map fun (addr, list) => (addr, { l with list := list })

def freePage (l : PageAllocList) (addr : ℕ) : PageAllocList :=
  { l with list := l.list.map (AllocList.freePage addr) }

def markAsUsedRange (l : PageAllocList) (start stop : ℕ) : PageAllocList :=
  if start ≥ stop then l
  else { l with list := l.list.map (AllocList.markAsUsedRange start stop) }

/-- One of the sections has the page of `addr`, and it is free there. -/
def Free (l : PageAllocList) (addr : ℕ) : Prop := ∃ cur ∈ l.list, cur.Free addr

def Wf (l : PageAllocList) : Prop := ∀ cur ∈ l.list, cur.Wf

end PageAllocList

variable {cur : AllocList} {l : PageAllocList} {list list' : List AllocList} {a : PageAlloc}
  {s addr page start stop : ℕ}

namespace AllocList

/-! ### One section -/

lemma markPages_spec (ha : a.Wf) (hs : s % pageSize = 0) (hpage : page % pageSize = 0)
    (hstop : stop % pageSize = 0) (hle : s ≤ page) (hlast : stop ≤ s + a.nbPages * pageSize) :
    (markPages s page stop a).Wf ∧ (markPages s page stop a).nbPages = a.nbPages ∧
      ∀ addr, s ≤ addr → addr < s + a.nbPages * pageSize →
        (markPages s page stop a).pageStatus (addr - s) =
          if page ≤ addr ∧ addr < stop then false else a.pageStatus (addr - s) := by
  induction hd : stop - page using Nat.strong_induction_on generalizing page a with
  | _ d ih =>
    rw [markPages]
    by_cases hlt : page < stop
    · rw [if_pos hlt]
      have hpos : 0 < pageSize := by decide
      obtain ⟨hwf, hnb, hstatus⟩ := @ih (stop - (page + pageSize)) (by omega)
        (a.markAsUsed (page - s)) (page + pageSize) ha.markAsUsed (by rw [Nat.add_mod_right, hpage])
        (by omega) hlast rfl
      refine ⟨hwf, hnb, fun addr h₁ h₂ => ?_⟩
      have hmark := ha.spec.marks (page - s) (by omega) (addr - s) (by omega)
      rw [hstatus addr h₁ h₂, hmark]
      have hsame : (addr - s) / pageSize = (page - s) / pageSize ↔
          page ≤ addr ∧ addr < page + pageSize := by
        simp only [pageSize] at *
        omega
      simp only [hsame]
      split_ifs <;> first | rfl | (simp only [pageSize] at *; omega)
    · rw [if_neg hlt]
      refine ⟨ha, rfl, fun addr _ _ => ?_⟩
      rw [if_neg (by omega)]

lemma becomes_self (hcur : cur.Wf) : Becomes cur.Free cur cur := ⟨hcur, rfl, rfl, fun _ => Iff.rfl⟩

lemma Becomes.congr {P Q : ℕ → Prop} {cur' : AllocList} (h : Becomes P cur cur')
    (hPQ : ∀ addr, P addr ↔ Q addr) : Becomes Q cur cur' :=
  ⟨h.wf, h.sectionStart, h.sectionStop, fun addr => (h.free addr).trans (hPQ addr)⟩

lemma markAsUsedRange_becomes (hcur : cur.Wf) (hstart : start % pageSize = 0)
    (hstop : stop % pageSize = 0) :
    Becomes (fun addr => cur.Free addr ∧ ¬(start ≤ addr ∧ addr < stop)) cur
      (cur.markAsUsedRange start stop) := by
  have hsize := hcur.size
  have haligned := hcur.aligned
  rw [markAsUsedRange]
  by_cases hinter : stop > cur.sectionStart ∧ start < cur.sectionStop
  · rw [if_pos hinter]
    have hmax : max start cur.sectionStart % pageSize = 0 := by
      rcases max_choice start cur.sectionStart with h | h <;> rw [h] <;> assumption
    have hmin : min stop cur.sectionStop % pageSize = 0 := by
      rcases min_choice stop cur.sectionStop with h | h <;> rw [h]
      · exact hstop
      · rw [hsize, Nat.add_mul_mod_self_right, haligned]
    obtain ⟨hwf, hnb, hstatus⟩ := markPages_spec hcur.alloc haligned hmax hmin
      (le_max_right _ _) (hsize ▸ min_le_right _ _)
    refine ⟨⟨hwf, haligned, ?_, hcur.bounded⟩, rfl, rfl, fun addr => ?_⟩
    · simpa only [hnb] using hsize
    · simp only [Free]
      constructor
      · rintro ⟨h₁, h₂, h₃⟩
        rw [hstatus addr h₁ (hsize ▸ h₂)] at h₃
        split_ifs at h₃ with hmem
        exact ⟨⟨h₁, h₂, h₃⟩, fun h => hmem ⟨max_le h.1 h₁, lt_min h.2 h₂⟩⟩
      · rintro ⟨⟨h₁, h₂, h₃⟩, hout⟩
        refine ⟨h₁, h₂, ?_⟩
        rwa [hstatus addr h₁ (hsize ▸ h₂), if_neg]
        exact fun h => hout ⟨(le_max_left _ _).trans h.1, h.2.trans_le (min_le_left _ _)⟩
  · rw [if_neg hinter]
    refine (becomes_self hcur).congr fun addr => (and_iff_left_of_imp ?_).symm
    rintro ⟨h₁, h₂, -⟩ ⟨h₃, h₄⟩
    exact hinter ⟨h₁.trans_lt h₄, h₃.trans_lt h₂⟩

lemma freePage_becomes (hcur : cur.Wf) :
    Becomes (fun p => cur.Free p ∨ cur.sectionStart ≤ p ∧ p < cur.sectionStop ∧
      p / pageSize = addr / pageSize) cur (cur.freePage addr) := by
  have hsize := hcur.size
  have haligned := hcur.aligned
  rw [freePage]
  by_cases hin : cur.sectionStart ≤ addr ∧ addr < cur.sectionStop
  · rw [if_pos hin]
    refine ⟨⟨hcur.alloc.freePage, haligned, hsize, hcur.bounded⟩, rfl, rfl, fun p => ?_⟩
    have hsame : cur.sectionStart ≤ p → ((p - cur.sectionStart) / pageSize =
        (addr - cur.sectionStart) / pageSize ↔ p / pageSize = addr / pageSize) := by
      intro hp
      have hle := hin.1
      simp only [pageSize] at *
      omega
    by_cases hp : cur.sectionStart ≤ p ∧ p < cur.sectionStop
    · have hfree := hcur.alloc.spec.frees (addr - cur.sectionStart) (by omega)
        (p - cur.sectionStart) (by omega)
      simp only [Free, hfree, hsame hp.1, hp, true_and]
      split_ifs with heq <;> simp only [heq, or_true, or_false]
    · simp only [Free]
      constructor
      · rintro ⟨h₁, h₂, -⟩
        exact absurd ⟨h₁, h₂⟩ hp
      · rintro (⟨h₁, h₂, -⟩ | ⟨h₁, h₂, -⟩) <;> exact absurd ⟨h₁, h₂⟩ hp
  · rw [if_neg hin]
    refine (becomes_self hcur).congr fun p => (or_iff_left_of_imp ?_).symm
    rintro ⟨h₁, h₂, h₃⟩
    refine absurd ?_ hin
    simp only [pageSize] at *
    omega

/-- `Free` is about the page of the address. -/
lemma Free.congr (hcur : cur.Wf) (hfree : cur.Free addr) (heq : page / pageSize = addr / pageSize) :
    cur.Free page := by
  have hsize := hcur.size
  have haligned := hcur.aligned
  obtain ⟨h₁, h₂, h₃⟩ := hfree
  have hsame : (page - cur.sectionStart) / pageSize = (addr - cur.sectionStart) / pageSize := by
    simp only [pageSize] at *
    omega
  refine ⟨?_, ?_, ?_⟩
  · simp only [pageSize] at *
    omega
  · simp only [pageSize] at *
    omega
  · rwa [PageAlloc.pageStatus_eq, hsame, ← PageAlloc.pageStatus_eq]

/-! ### The sections of a list -/

/-- A list hands out a page that is free, and frees no page. -/
lemma freshPage_spec (hlist : ∀ cur ∈ list, cur.Wf) (h : freshPage list = some (addr, list')) :
    (∃ cur ∈ list, cur.Free addr) ∧
      List.Forall₂ (fun cur cur' => Becomes cur'.Free cur cur' ∧
        ∀ p, cur'.Free p → cur.Free p) list list' := by
  induction list generalizing addr list' with
  | nil => cases h
  | cons cur next ih =>
    have hcur := hlist cur List.mem_cons_self
    have hsame : ∀ {l : List AllocList}, (∀ cur ∈ l, cur.Wf) →
        List.Forall₂ (fun cur cur' => Becomes cur'.Free cur cur' ∧
          ∀ p, cur'.Free p → cur.Free p) l l := fun hl =>
      List.forall₂_same.mpr fun cur hmem => ⟨becomes_self (hl cur hmem), fun _ => id⟩
    have hnext : ∀ cur ∈ next, cur.Wf := fun cur hmem => hlist cur (List.mem_cons_of_mem _ hmem)
    rw [freshPage] at h
    cases hfresh : cur.alloc.freshPage with
    | none =>
      simp only [hfresh, Option.map_eq_some_iff, Prod.mk.injEq, Prod.exists] at h
      obtain ⟨addr', next', hnext', rfl, rfl⟩ := h
      obtain ⟨⟨c, hc, hfree⟩, hall⟩ := ih hnext hnext'
      exact ⟨⟨c, List.mem_cons_of_mem _ hc, hfree⟩,
        .cons ⟨becomes_self hcur, fun _ => id⟩ hall⟩
    | some r =>
      obtain ⟨addr', alloc⟩ := r
      simp only [hfresh, Option.some.injEq, Prod.mk.injEq] at h
      obtain ⟨rfl, rfl⟩ := h
      obtain ⟨hlt, -, hstatus, hused, hother⟩ := hcur.alloc.spec.fresh _ _ hfresh
      have hsize := hcur.size
      have hwf : alloc.Wf ∧ alloc.nbPages = cur.alloc.nbPages := by
        have hrun := hcur.alloc.run (c := .freshPage)
        rwa [PageCall.run, hfresh] at hrun
      refine ⟨⟨cur, List.mem_cons_self, Nat.le_add_left _ _, by omega, ?_⟩,
        .cons ⟨⟨⟨hwf.1, hcur.aligned, ?_, hcur.bounded⟩, rfl, rfl, fun _ => Iff.rfl⟩, ?_⟩
          (hsame hnext)⟩
      · rwa [Nat.add_sub_cancel]
      · simpa only [hwf.2] using hsize
      · rintro p ⟨h₁, h₂, h₃⟩
        refine ⟨h₁, h₂, ?_⟩
        change alloc.pageStatus (p - cur.sectionStart) = true at h₃
        by_cases heq : (p - cur.sectionStart) / pageSize = addr' / pageSize
        · rw [PageAlloc.pageStatus_eq, heq, ← PageAlloc.pageStatus_eq, hused] at h₃
          cases h₃
        · rwa [← hother _ (by change p < cur.sectionStop at h₂; omega) heq]

end AllocList

/-- Section by section, what the call does to the pages that `P` speaks of. -/
def PageAllocList.Changes (l l' : PageAllocList) (P : AllocList → ℕ → Prop) : Prop :=
  List.Forall₂ (fun cur cur' => AllocList.Becomes (P cur) cur cur') l.list l'.list

namespace PageAllocList

variable {l' : PageAllocList} {P : AllocList → ℕ → Prop}

lemma exists_of_mem_right {R : AllocList → AllocList → Prop} (h : List.Forall₂ R list list')
    {cur' : AllocList} (hmem : cur' ∈ list') : ∃ cur ∈ list, R cur cur' := by
  obtain ⟨i, hi, rfl⟩ := List.getElem_of_mem hmem
  have hi' : i < list.length := h.length_eq ▸ hi
  exact ⟨list[i], List.getElem_mem hi', h.get hi' hi⟩

lemma Changes.wf (h : l.Changes l' P) : l'.Wf := by
  intro cur' hmem
  obtain ⟨cur, -, hcur⟩ := exists_of_mem_right h hmem
  exact hcur.wf

lemma Changes.free_iff (h : l.Changes l' P) (addr : ℕ) :
    l'.Free addr ↔ ∃ cur ∈ l.list, P cur addr := by
  constructor
  · rintro ⟨cur', hmem, hfree⟩
    obtain ⟨cur, hcur, hbec⟩ := exists_of_mem_right h hmem
    exact ⟨cur, hcur, (hbec.free addr).mp hfree⟩
  · rintro ⟨cur, hmem, hP⟩
    obtain ⟨cur', hcur', hbec⟩ := exists_of_mem_right h.flip hmem
    exact ⟨cur', hcur', (hbec.free addr).mpr hP⟩

lemma markAsUsedRange_changes (hl : l.Wf) (hstart : start % pageSize = 0)
    (hstop : stop % pageSize = 0) : l.Changes (l.markAsUsedRange start stop)
      fun cur addr => cur.Free addr ∧ ¬(start ≤ addr ∧ addr < stop) := by
  rw [markAsUsedRange]
  by_cases hempty : start ≥ stop
  · rw [if_pos hempty]
    refine List.forall₂_same.mpr fun cur hmem => ?_
    refine (AllocList.becomes_self (hl cur hmem)).congr fun addr => ?_
    exact (and_iff_left_of_imp fun _ hin => absurd (hin.1.trans_lt hin.2) (Nat.not_lt.mpr hempty)).symm
  · rw [if_neg hempty]
    refine List.forall₂_map_right_iff.mpr (List.forall₂_same.mpr fun cur hmem => ?_)
    exact AllocList.markAsUsedRange_becomes (hl cur hmem) hstart hstop

lemma freePage_changes (addr : ℕ) (hl : l.Wf) : l.Changes (l.freePage addr) fun cur p =>
    cur.Free p ∨ cur.sectionStart ≤ p ∧ p < cur.sectionStop ∧ p / pageSize = addr / pageSize :=
  List.forall₂_map_right_iff.mpr (List.forall₂_same.mpr fun cur hmem =>
    AllocList.freePage_becomes (hl cur hmem))

/-- The page that is handed out was free, and no page gets free. -/
lemma freshPage_changes (hl : l.Wf) (h : l.freshPage = some (addr, l')) :
    l.Free addr ∧ l'.Wf ∧ ∀ p, l'.Free p → l.Free p := by
  rw [freshPage, Option.map_eq_some_iff] at h
  obtain ⟨⟨addr', list'⟩, hfresh, heq⟩ := h
  cases heq
  obtain ⟨hfree, hall⟩ := AllocList.freshPage_spec hl hfresh
  refine ⟨hfree, ?_, ?_⟩
  · intro cur' hmem
    obtain ⟨cur, -, hcur⟩ := exists_of_mem_right hall hmem
    exact hcur.1.wf
  · rintro p ⟨cur', hmem, hfree'⟩
    obtain ⟨cur, hcur, -, hsub⟩ := exists_of_mem_right hall hmem
    exact ⟨cur, hcur, hsub p hfree'⟩

end PageAllocList

end PiKachulm.Memory

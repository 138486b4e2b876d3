import PiKachulm.Memory.PageMapping

/-!
# Sections of pages

`allocate_pages_section` takes the pages of a chunk one at a time, and maps each of them before it
takes the next. When there is none left, or no address for it, it returns 0 and gives nothing back,
and the destructor of the chunk then panics over the address 0.
-/

namespace PiKachulm.Memory

open Core Mmu Services

/-- `_custom_pages`, and the tables of the kernel. Their history is that of `_page_alloc`, which serves
`fresh_page` and the tables. -/
structure CustomPages where
  customPages : VirtualPA
  table : State

/-- `CUSTOM_PAGES_MEMORY`, where the sections start. -/
def customPagesMemory : VirtualPA := 0xFFFF300000000000

/-- `custom_memory_rw`. -/
def customMemoryRw : PagesAttributes where
  sh := .innerShareable
  exec := .neverExecute
  rw := .readWrite
  access := .privileged
  type := .normal

/-- `_page_alloc.fresh_page`: a page that is not in use, if there is one. -/
def freshPage (S : Services) (s : State) : Option (PhysicalPA × State) :=
  (S.alloc s.history).map fun page =>
    (S.resolveVa page, { s with history := .alloc page :: s.history })

/-- `_page_alloc.free_page`. -/
def freePage (S : Services) (pa : PhysicalPA) (s : State) : State :=
  { s with history := .free (S.resolvePa pa) :: s.history }

/-- The fields of a `MemoryChunk` that no process has mapped. The array is there. -/
structure UnmappedChunk where
  nbPages : ℕ
  pas : ℕ → PhysicalPA
  kernelVa : VirtualPA

namespace CustomPages

/-- The loop of `allocate_pages_section` from page `pageId` on. There is no result when the kernel
panics for want of a page for its tables. -/
def allocatePages (S : Services) : ℕ → ℕ → (ℕ → PhysicalPA) → CustomPages →
    Option (Bool × (ℕ → PhysicalPA) × CustomPages)
  | _, 0, pas, st             => some (true, pas, st)
  | pageId, left + 1, pas, st =>
    match freshPage S st.table with
    | none             => some (false, pas, st)
    | some (pa, table) => do
      let pas := Function.update pas pageId pa
      let (mapped, table) ←
        mapRange (some S.table) st.customPages st.customPages pa customMemoryRw table
      if mapped then
        allocatePages S (pageId + 1) left pas ⟨st.customPages + PiKachulm.pageSize, table⟩
      else pure (false, pas, { st with table := table })

/-- `allocate_pages_section`: the address of the section, or 0. -/
def allocatePagesSection (S : Services) (nbPages : ℕ) (pas : ℕ → PhysicalPA) (st : CustomPages) :
    Option (VirtualPA × (ℕ → PhysicalPA) × CustomPages) := do
  let sectionStart := st.customPages
  let (allocated, pas, st) ← allocatePages S 0 nbPages pas st
  if allocated then
    -- a gap between each custom segment
    pure (sectionStart, pas, { st with customPages := st.customPages + PiKachulm.pageSize })
  else pure (0, pas, st)

/-- `free_section`; `none` is a panic. -/
def freeSection (S : Services) (nbPages : ℕ) (kernelVa : VirtualPA) (pas : ℕ → PhysicalPA)
    (st : CustomPages) : Option CustomPages := do
  let (unmapped, table) ←
    unmapRange (some S.table) kernelVa (kernelVa + (BitVec.ofNat 64 nbPages - 1) * PiKachulm.pageSize) st.table
  if unmapped then
    pure { st with table := (List.range nbPages).foldl (fun s i => freePage S (pas i) s) table }
  else none

end CustomPages

namespace UnmappedChunk

/-- The constructor of `MemoryChunk`; `pas` is what is in the new array. -/
def create (S : Services) (nbPages : ℕ) (pas : ℕ → PhysicalPA) (st : CustomPages) :
    Option (UnmappedChunk × CustomPages) := do
  let (kernelVa, pas, st) ← st.allocatePagesSection S nbPages pas
  pure (⟨nbPages, pas, kernelVa⟩, st)

/-- The destructor, when no process has mapped the chunk. -/
def destroy (S : Services) (c : UnmappedChunk) (st : CustomPages) : Option CustomPages :=
  st.freeSection S c.nbPages c.kernelVa c.pas

end UnmappedChunk

namespace CustomPages

open UnmappedChunk

/-- The same pages are in use, and the addresses of the kernel lead to the same pages. -/
structure SameMemory (S : Services) (s s' : State) : Prop where
  inUse : live s'.history = live s.history
  mapped : ∀ va, translate S.table s' va = translate S.table s va

/-- A chunk that gets no memory leaves everything as it was, and so does its destructor. -/
def FailsCleanly (S : Services) (nbPages : ℕ) (pas : ℕ → PhysicalPA) (st : CustomPages) : Prop :=
  ∀ c st', create S nbPages pas st = some (c, st') → c.kernelVa = 0 →
    SameMemory S st.table st'.table ∧
      ∃ st'', c.destroy S st' = some st'' ∧ SameMemory S st'.table st''.table

/-- There are a free page and an address of the kernel for each page, one after the other. -/
def Suffices (S : Services) : ℕ → CustomPages → Prop
  | 0, _        => True
  | left + 1, st => ∃ pa table, freshPage S st.table = some (pa, table) ∧
      checkVa S.kind st.customPages = true ∧ ∀ mapped table',
        mapRange (some S.table) st.customPages st.customPages pa customMemoryRw table =
          some (mapped, table') → Suffices S left ⟨st.customPages + PiKachulm.pageSize, table'⟩

variable {S : Services} {s s' : State} {st st' : CustomPages} {c : UnmappedChunk}
  {pas pas' : ℕ → PhysicalPA} {n pageId : ℕ} {allocated : Bool} {pa : PhysicalPA}

/-! ### Pages in use -/

lemma history_ite_write {p : Prop} [Decidable p] {table : VirtualPA} {index : ℕ} {entry : BitVec 64} :
    (if p then s.write table index entry else s).history = s.history := by
  split_ifs <;> rfl

lemma live_callAlloc {tbl : MMUTable} {page : VirtualPA} (h : tbl.callAlloc s = some (page, s')) :
    live s.history ⊆ live s'.history := by
  simp only [MMUTable.callAlloc, Option.bind_eq_bind, Option.bind_eq_some_iff, Option.pure_def,
    Option.some.injEq, Prod.mk.injEq] at h
  obtain ⟨_, -, p, -, -, rfl⟩ := h
  exact Set.subset_insert _ _

/-- Mapping takes pages for new tables, and gives none back. -/
lemma live_mapRangeInTable {tbl : MMUTable} {fuel : ℕ} {vaStart vaEnd : VirtualPA}
    {attr : PagesAttributes} {table : VirtualPA} {level : ℕ} {first : VirtualPA}
    (h : mapRangeInTable tbl fuel vaStart vaEnd pa attr table level first s = some s') :
    live s.history ⊆ live s'.history := by
  induction fuel generalizing vaStart vaEnd pa attr table level first s s' with
  | zero => cases h
  | succ fuel ih =>
    rw [mapRangeInTable, forEntries, Option.bind_eq_bind, Option.bind_eq_some_iff] at h
    obtain ⟨last, -, h⟩ := h
    split_ifs at h
    · cases h
      exact le_rfl
    · refine foldlM_induct (fun x : State => live s.history ⊆ live x.history) h le_rfl ?_
      intro index _ x x' hx hbody
      refine hx.trans ?_
      dsimp only at hbody
      by_cases htable : getEntryKind (x.mem table index) level = .table
      · rw [if_pos htable, Option.bind_eq_some_iff] at hbody
        obtain ⟨sub, -, hbody⟩ := hbody
        exact ih hbody
      · rw [if_neg htable, Option.bind_eq_some_iff] at hbody
        obtain ⟨stop, -, hbody⟩ := hbody
        by_cases hleaf : level = 4 ∨ vaStart ≤ getEntryVaFromTableIndex first level index ∧
            stop ≤ vaEnd ∧ level ≥ 2
        · rw [if_pos hleaf] at hbody
          cases hbody
          rw [State.write_history, history_ite_write]
        · rw [if_neg hleaf] at hbody
          simp only [Option.bind_eq_bind, Option.bind_eq_some_iff, Prod.exists] at hbody
          obtain ⟨newTable, x₁, halloc, newTablePa, -, x₂, hmap, hbody⟩ := hbody
          have h₁ := live_callAlloc halloc
          rw [history_ite_write] at h₁
          have h₂ := ih hmap
          rw [State.write_history] at h₂
          split_ifs at hbody
          · obtain ⟨x₃, hbefore, hbehind⟩ := Option.bind_eq_some_iff.mp hbody
            exact h₁.trans (h₂.trans ((ih hbefore).trans (ih hbehind)))
          · cases hbody
            exact h₁.trans h₂

lemma live_mapRange {tbl : MMUTable} {vaStart vaEnd : VirtualPA} {attr : PagesAttributes} {mapped : Bool}
    (h : mapRange (some tbl) vaStart vaEnd pa attr s = some (mapped, s')) :
    live s.history ⊆ live s'.history := by
  rw [mapRange] at h
  split_ifs at h
  · cases h
    exact le_rfl
  · rw [Option.bind_eq_bind, Option.bind_eq_some_iff] at h
    obtain ⟨s₁, hrun, hs⟩ := h
    cases hs
    exact live_mapRangeInTable hrun

/-! ### When the loop fails -/

/-- The loop runs to its end just when there is enough. -/
lemma allocatePages_iff (h : allocatePages S pageId n pas st = some (allocated, pas', st')) :
    allocated = true ↔ Suffices S n st := by
  induction n generalizing pageId pas st with
  | zero =>
    cases h
    exact iff_of_true rfl trivial
  | succ n ih =>
    rw [allocatePages] at h
    rw [Suffices]
    cases hfresh : freshPage S st.table with
    | none =>
      rw [hfresh] at h
      cases h
      refine iff_of_false Bool.false_ne_true ?_
      rintro ⟨pa, table, h, -⟩
      cases h
    | some r =>
      obtain ⟨pa, table⟩ := r
      rw [hfresh] at h
      simp only [Option.bind_eq_bind, Option.bind_eq_some_iff, Prod.exists] at h
      obtain ⟨mapped, table', hmap, h⟩ := h
      have hva := eq_checkVa_of_mapRange hmap
      cases mapped with
      | false =>
        cases h
        refine iff_of_false Bool.false_ne_true ?_
        rintro ⟨pa, table, -, hcheck, -⟩
        rw [hcheck] at hva
        cases hva
      | true =>
        rw [if_pos rfl] at h
        rw [ih h]
        constructor
        · intro hrest
          refine ⟨pa, table, rfl, hva.symm, fun mapped table'' hmap' => ?_⟩
          rw [hmap, Option.some.injEq, Prod.mk.injEq] at hmap'
          rwa [← hmap'.2]
        · rintro ⟨pa', table₁, hsome, -, hrest⟩
          cases hsome
          exact hrest _ _ hmap

/-- The kernel panics only as long as there is enough. -/
lemma suffices_of_panic (h : allocatePages S pageId n pas st = none) : 0 < n ∧ Suffices S n st := by
  induction n generalizing pageId pas st with
  | zero => cases h
  | succ n ih =>
    refine ⟨Nat.succ_pos n, ?_⟩
    rw [allocatePages] at h
    rw [Suffices]
    cases hfresh : freshPage S st.table with
    | none =>
      rw [hfresh] at h
      cases h
    | some r =>
      obtain ⟨pa, table⟩ := r
      rw [hfresh] at h
      dsimp only at h
      cases hmap : mapRange (some S.table) st.customPages st.customPages pa customMemoryRw table with
      | none =>
        have hcheck : checkVa S.kind st.customPages = true := by
          by_contra hno
          rw [mapRange] at hmap
          simp [Services.table, hno] at hmap
        refine ⟨pa, table, rfl, hcheck, fun mapped table' hsome => ?_⟩
        rw [hmap] at hsome
        cases hsome
      | some r =>
        obtain ⟨mapped, table'⟩ := r
        have hva := eq_checkVa_of_mapRange hmap
        rw [hmap, Option.bind_eq_bind, Option.bind_some] at h
        cases mapped with
        | false => cases h
        | true =>
          refine ⟨pa, table, rfl, hva.symm, fun mapped table'' hsome => ?_⟩
          rw [hmap, Option.some.injEq, Prod.mk.injEq] at hsome
          rw [← hsome.2]
          exact (ih h).2

lemma live_allocatePages (h : allocatePages S pageId n pas st = some (allocated, pas', st')) :
    live st.table.history ⊆ live st'.table.history := by
  induction n generalizing pageId pas st with
  | zero =>
    cases h
    exact le_rfl
  | succ n ih =>
    rw [allocatePages] at h
    cases hfresh : freshPage S st.table with
    | none =>
      rw [hfresh] at h
      cases h
      exact le_rfl
    | some r =>
      obtain ⟨pa, table⟩ := r
      have hlive : live st.table.history ⊆ live table.history := by
        obtain ⟨page, -, hr⟩ := Option.map_eq_some_iff.mp hfresh
        cases hr
        exact Set.subset_insert _ _
      rw [hfresh] at h
      simp only [Option.bind_eq_bind, Option.bind_eq_some_iff, Prod.exists] at h
      obtain ⟨mapped, table', hmap, h⟩ := h
      have hmapped := hlive.trans (live_mapRange hmap)
      cases mapped with
      | false =>
        cases h
        exact hmapped
      | true => exact hmapped.trans (ih h)

/-- The first page that is taken stays in use. -/
lemma live_ne_of_fresh (h : allocatePages S pageId (n + 1) pas st = some (allocated, pas', st'))
    (hfree : S.alloc st.table.history ≠ none) :
    live st'.table.history ≠ live st.table.history := by
  obtain ⟨page, hpage⟩ := Option.ne_none_iff_exists'.mp hfree
  have hfresh : freshPage S st.table = some (S.resolveVa page,
      { st.table with history := .alloc page :: st.table.history }) := by rw [freshPage, hpage]; rfl
  rw [allocatePages, hfresh] at h
  simp only [Option.bind_eq_bind, Option.bind_eq_some_iff, Prod.exists] at h
  obtain ⟨mapped, table', hmap, h⟩ := h
  have hmem : page ∈ live table'.history := live_mapRange hmap (Set.mem_insert _ _)
  have hmem' : page ∈ live st'.table.history := by
    cases mapped with
    | false =>
      cases h
      exact hmem
    | true => exact live_allocatePages h hmem
  intro heq
  exact (S.fresh _ _ hpage).2.2 (heq ▸ hmem')

/-! ### The chunk -/

lemma create_eq_some (h : create S n pas st = some (c, st')) : ∃ allocated st₁,
    allocatePages S 0 n pas st = some (allocated, c.pas, st₁) ∧ c.nbPages = n ∧
      st'.table = st₁.table ∧ c.kernelVa = if allocated then st.customPages else 0 := by
  simp only [create, allocatePagesSection, Option.bind_eq_bind, Option.bind_eq_some_iff,
    Option.pure_def, Option.some.injEq, Prod.mk.injEq, Prod.exists] at h
  obtain ⟨va, pas₁, st₁, ⟨allocated, pas₂, st₂, hpages, hva⟩, rfl, rfl⟩ := h
  cases allocated with
  | false =>
    cases hva
    exact ⟨false, _, hpages, rfl, rfl, rfl⟩
  | true =>
    cases hva
    exact ⟨true, _, hpages, rfl, rfl, rfl⟩

/-- The destructor of a chunk without memory panics. -/
lemma destroy_eq_none (hkind : S.kind = .kernel) (hva : c.kernelVa = 0) : c.destroy S st = none := by
  have hcheck : checkVa S.kind 0#64 = false := by
    rw [hkind]
    decide
  rw [destroy, freeSection, hva, unmapRange]
  simp [Services.table, hcheck]

lemma customPages_ne_zero (hkind : S.kind = .kernel) (hn : 0 < n) (h : Suffices S n st) :
    st.customPages ≠ 0 := by
  intro hzero
  obtain ⟨n, rfl⟩ := Nat.exists_eq_succ_of_ne_zero hn.ne'
  obtain ⟨-, -, -, hcheck, -⟩ := h
  rw [hzero, hkind] at hcheck
  exact absurd hcheck (by decide)

/-- A chunk never fails cleanly: the kernel keeps its promise just when there is enough for all of the
pages. When there is not, the free pages and the tables are as they were only if there was no page
at all. -/
theorem failsCleanly_iff (hkind : S.kind = .kernel) (nbPages : ℕ) (pas : ℕ → PhysicalPA)
    (st : CustomPages) :
    (st.FailsCleanly S nbPages pas ↔ st.customPages ≠ 0 ∧ st.Suffices S nbPages) ∧
    ∀ c st', create S nbPages pas st = some (c, st') → c.kernelVa = 0 →
      (SameMemory S st.table st'.table ↔ nbPages = 0 ∨ S.alloc st.table.history = none) := by
  refine ⟨⟨fun hclean => ?_, ?_⟩, fun c st' hcreate hzero => ?_⟩
  · cases hpages : allocatePages S 0 nbPages pas st with
    | none =>
      obtain ⟨hpos, hsuff⟩ := suffices_of_panic hpages
      exact ⟨customPages_ne_zero hkind hpos hsuff, hsuff⟩
    | some r =>
      by_contra hnot
      obtain ⟨c, st', hcreate⟩ : ∃ c st', create S nbPages pas st = some (c, st') := by
        obtain ⟨allocated, pas', st₁⟩ := r
        rw [create, allocatePagesSection, hpages]
        cases allocated <;> exact ⟨_, _, rfl⟩
      obtain ⟨allocated, st₁, hpages', -, -, hva⟩ := create_eq_some hcreate
      have hzero : c.kernelVa = 0 := by
        cases allocated with
        | false => exact hva
        | true =>
          have hsuff := (allocatePages_iff hpages').mp rfl
          by_contra hne
          exact hnot ⟨fun h => hne (hva.trans h), hsuff⟩
      obtain ⟨-, st'', hdestroy, -⟩ := hclean c st' hcreate hzero
      rw [destroy_eq_none hkind hzero] at hdestroy
      cases hdestroy
  · rintro ⟨hne, hsuff⟩ c st' hcreate hzero
    obtain ⟨allocated, st₁, hpages, -, -, hva⟩ := create_eq_some hcreate
    rw [(allocatePages_iff hpages).mpr hsuff, if_pos rfl, hzero] at hva
    exact absurd hva.symm hne
  · obtain ⟨allocated, st₁, hpages, -, htable, -⟩ := create_eq_some hcreate
    constructor
    · intro hsame
      by_contra hnot
      rw [not_or] at hnot
      obtain ⟨n, rfl⟩ := Nat.exists_eq_succ_of_ne_zero hnot.1
      refine live_ne_of_fresh hpages hnot.2 ?_
      rw [← htable]
      exact hsame.inUse
    · intro hnone
      have hst₁ : st₁ = st := by
        cases nbPages with
        | zero =>
          cases hpages
          rfl
        | succ n =>
          have hfresh : freshPage S st.table = none := by
            rw [freshPage, hnone.resolve_left (Nat.succ_ne_zero n)]
            rfl
          rw [allocatePages, hfresh] at hpages
          cases hpages
          rfl
      rw [htable, hst₁]
      exact ⟨rfl, fun _ => rfl⟩

/-- No section yet, and as many pages left as `fresh_page` has after `taken` of the pool are in use. -/
def poolLeft (taken : ℕ) : CustomPages where
  customPages := customPagesMemory
  table := { emptyState with history := (List.range' 2 taken).map fun n => .alloc (pageAddr n) }

theorem failsCleanly_iff_poolLeft : (poolLeft 0).FailsCleanly (identity .kernel) 2 (fun _ => 0) ↔
    (poolLeft 0).customPages ≠ 0 ∧ (poolLeft 0).Suffices (identity .kernel) 2 :=
  (failsCleanly_iff rfl 2 _ _).1

lemma create_poolLeft : ((create (identity .kernel) 2 (fun _ => 0) (poolLeft 12)).any fun x =>
    decide (x.1.kernelVa = 0 ∧ pageAddr 14 ∈ live x.2.table.history ∧
      pageAddr 14 ∉ live (poolLeft 12).table.history)) = true := by
  decide +kernel

/-- Four pages are left for a chunk of two: the first page and three tables take them all, and are not
given back. -/
theorem not_failsCleanly : ¬(poolLeft 12).FailsCleanly (identity .kernel) 2 fun _ => 0 := by
  intro hclean
  obtain ⟨⟨c, st⟩, hcreate, h⟩ := (Option.any_eq_true _ _).mp create_poolLeft
  rw [decide_eq_true_iff] at h
  obtain ⟨hzero, hused, hfree⟩ := h
  have hsame := (hclean c st hcreate hzero).1.inUse
  exact hfree (hsame ▸ hused)

end CustomPages

end PiKachulm.Memory

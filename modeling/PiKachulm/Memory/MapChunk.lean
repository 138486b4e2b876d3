import Mathlib.Data.Fintype.Card
import PiKachulm.Memory.PageTables
import PiKachulm.Memory.ProcessMemory

/-!
# Chunks that do not fit

`map_chunk` maps the pages of a chunk one by one. When the chunk reaches beyond the addresses of a
process, the pages below the limit are mapped before `map_range` refuses the next one, and they stay
mapped although the chunk is not registered.
-/

namespace PiKachulm.Memory

open Core Mmu Services

/-- What `map_chunk` changes: the tables of the process, and the lists of sections and mappings. -/
structure ProcessState where
  table : State
  mappings : Mappings

/-- `ProcessMemory::map_chunk`, for the chunk `c` at the address `chunk`. -/
def ProcessState.mapChunk (s : ProcessState) (tbl : MMUTable) (p : ProcPtr) (chunk : ℕ) (c : MemoryChunk)
    (pageVa : ℕ) (readOnly executable : Bool) : Option (Bool × ProcessState) := do
  let (mapped, table) ← c.mapChunk tbl pageVa readOnly executable s.table
  pure (mapped, ⟨table, s.mappings.mapChunk p pageVa mapped chunk⟩)

/-- What the hardware makes of an address: physical addresses have 48 bits. -/
def physicalPage (S : Services) (s : State) (va : VirtualPA) : Option (PhysicalPA × PagesAttributes) :=
  (translate S.table s va).map fun x => (x.1 &&& Libk.maskBits 0 47, x.2)

/-- The frames of a chunk: its pages are all different. -/
structure MemoryChunk.HasFrames (c : MemoryChunk) (frames : List Frame) : Prop where
  length : frames.length = c.nbPages
  pas : ∀ pas, c.pas = some pas → ∀ i (hi : i < frames.length), pas i = frames[i].address
  nodup : (frames.map Frame.address).Nodup

namespace ProcessState

/-- A call that returns false has changed nothing. -/
def FailsAtomically (S : Services) (p : ProcPtr) (chunk : ℕ) (c : MemoryChunk) (pageVa : ℕ)
    (readOnly executable : Bool) (s : ProcessState) : Prop :=
  ∀ s', s.mapChunk S.table p chunk c pageVa readOnly executable = some (false, s') →
    (∀ va, checkVa S.kind va = true → physicalPage S s'.table va = physicalPage S s.table va) ∧
      s'.mappings = s.mappings

/-- The first address of a process that is too large, as a page number. -/
def topPage : ℕ := 2 ^ 36

/-- The chunk has no array, or it fits, or not even its first page does; or the pages below the limit
are mapped as they would be, unless the kernel panics over their tables. -/
def Harmless (S : Services) (c : MemoryChunk) (frames : List Frame) (pageVa : ℕ) (readOnly executable : Bool)
    (s : State) : Prop :=
  c.pas = none ∨ pageVa / 4096 + c.nbPages ≤ topPage ∨ topPage ≤ pageVa / 4096 ∨
    (CanMap S (getProperties readOnly executable) (pageVa / 4096) (topPage - pageVa / 4096) frames s →
      ∀ i (hi : i < frames.length), pageVa / 4096 + i < topPage →
        physicalPage S s (pageAddr (pageVa / 4096 + i)) =
          some (frames[i].address, getProperties readOnly executable))

variable {S : Services} {s s' : State} {t : Table} {attr : PagesAttributes} {f : Frame}
  {frames : List Frame} {pas : ℕ → PhysicalPA} {base pageId k left n p : ℕ} {mapped : Bool}
  {va : VirtualPA} {c : MemoryChunk} {readOnly executable : Bool}

/-! ### Physical addresses -/

lemma physicalPage_of_keeps
    (h : KeepsTranslation (translate S.table s va) (translate S.table s' va)) :
    physicalPage S s' va = physicalPage S s va := by
  rw [physicalPage, physicalPage]
  match translate S.table s va, translate S.table s' va, h with
  | none, none, _ => rfl
  | some (pa, attr), some (pa', attr'), h =>
    obtain ⟨rfl, hpa, -⟩ := h
    rw [Option.map_some, Option.map_some, hpa]

lemma physicalPage_of_translate (h : translate S.table s va = some (f.address, attr)) :
    physicalPage S s va = some (f.address, attr) := by
  have hmask : f.address &&& Libk.maskBits 0 47 = f.address := by
    apply BitVec.eq_of_toNat_eq
    have hfits := f.fits
    rw [Libk.toNat_and_maskBits _ (by norm_num) (by norm_num)]
    omega
  rw [physicalPage, h, Option.map_some, hmask]

/-! ### The loop -/

lemma pageVa_eq : BitVec.ofNat 64 (base * 4096 + pageId * 4096) = pageAddr (base + pageId) := by
  rw [pageAddr, Nat.add_mul]

lemma mapPages_succ : MemoryChunk.mapPages S.table attr pas (base * 4096) pageId (left + 1) s =
    (mapRange (some S.table) (pageAddr (base + pageId)) (pageAddr (base + pageId)) (pas pageId) attr s).bind
      fun r => if r.1 then MemoryChunk.mapPages S.table attr pas (base * 4096) (pageId + 1) left r.2
        else some (false, r.2) := by
  rw [MemoryChunk.mapPages, pageVa_eq]
  rfl

/-- No page below the limit is refused. -/
lemma eq_true_of_mapPages (hkind : S.kind = .process) (hfit : base + pageId + left ≤ topPage)
    (hrun : MemoryChunk.mapPages S.table attr pas (base * 4096) pageId left s = some (mapped, s')) :
    mapped = true := by
  induction left generalizing pageId s with
  | zero =>
    cases hrun
    rfl
  | succ left ih =>
    have htop : topPage = 2 ^ 36 := rfl
    rw [mapPages_succ, Option.bind_eq_some_iff] at hrun
    obtain ⟨⟨b, s₁⟩, hmap, hrun⟩ := hrun
    have hcheck : checkVa S.kind (pageAddr (base + pageId)) = true := by
      rw [hkind]
      exact (checkVa_pageAddr (by omega)).mpr (by omega)
    rw [eq_checkVa_of_mapRange hmap, hcheck, if_pos rfl] at hrun
    exact ih (by omega) hrun

/-- The page at the limit is refused. -/
lemma mapPages_of_top (hkind : S.kind = .process) (htop : topPage ≤ base + pageId)
    (hlt : base + pageId < 2 ^ 52) :
    MemoryChunk.mapPages S.table attr pas (base * 4096) pageId (left + 1) s = some (false, s) := by
  have hcheck : checkVa S.kind (pageAddr (base + pageId)) = false := by
    rw [Bool.eq_false_iff, ne_eq, hkind, checkVa_pageAddr hlt, Nat.not_lt]
    exact htop
  rw [mapPages_succ, mapRange_of_not_checkVa hcheck]
  rfl

/-- The kernel panics over pages below the limit that cannot be mapped. -/
lemma mapPages_eq_none (hkind : S.kind = .process) (hfit : base + pageId + k ≤ topPage)
    (hpas : ∀ i (hi : i < frames.length), i < k → pas (pageId + i) = frames[i].address)
    (hk : k ≤ frames.length) (hcan : ¬CanMap S attr (base + pageId) k frames s) :
    MemoryChunk.mapPages S.table attr pas (base * 4096) pageId (k + left) s = none := by
  induction k generalizing pageId s frames with
  | zero => exact absurd trivial hcan
  | succ k ih =>
    cases frames with
    | nil => exact absurd hk (Nat.not_succ_le_zero k)
    | cons f frames =>
      have htop : topPage = 2 ^ 36 := rfl
      have hcheck : checkVa S.kind (pageAddr (base + pageId)) = true := by
        rw [hkind]
        exact (checkVa_pageAddr (by omega)).mpr (by omega)
      have hf : pas pageId = f.address := hpas 0 (Nat.succ_pos _) (Nat.succ_pos _)
      rw [Nat.add_right_comm, mapPages_succ, hf]
      cases hmap : mapRange (some S.table) (pageAddr (base + pageId)) (pageAddr (base + pageId))
          f.address attr s with
      | none => rfl
      | some r =>
        obtain ⟨b, s₁⟩ := r
        obtain rfl : b = true := (eq_checkVa_of_mapRange hmap).trans hcheck
        rw [Option.bind_some, if_pos rfl]
        refine ih (by omega) (fun i hi hik => ?_) (Nat.le_of_succ_le_succ hk) fun hrest => ?_
        · have hnext := hpas (i + 1) (Nat.succ_lt_succ hi) (Nat.succ_lt_succ hik)
          rwa [← Nat.add_assoc, Nat.add_right_comm] at hnext
        · exact hcan ⟨s₁, hmap, hrest⟩

/-- Pages that can be mapped get their frames, and the others are kept. -/
lemma mapPages_of_canMap (ht : S.Holds s t) (hkind : S.kind = .process) (hpos : 0 < base)
    (hfit : base + pageId + k ≤ topPage)
    (hpas : ∀ i (hi : i < frames.length), i < k → pas (pageId + i) = frames[i].address)
    (hcan : CanMap S attr (base + pageId) k frames s) :
    ∃ s', (∀ left, MemoryChunk.mapPages S.table attr pas (base * 4096) pageId (k + left) s =
        MemoryChunk.mapPages S.table attr pas (base * 4096) (pageId + k) left s') ∧
      (∀ i (hi : i < frames.length), i < k →
        physicalPage S s' (pageAddr (base + pageId + i)) = some (frames[i].address, attr)) ∧
      ∀ p < topPage, ¬(base + pageId ≤ p ∧ p < base + pageId + k) →
        physicalPage S s' (pageAddr p) = physicalPage S s (pageAddr p) := by
  induction k generalizing pageId s t frames with
  | zero =>
    refine ⟨s, fun left => by rw [Nat.zero_add, Nat.add_zero], fun i _ hi => absurd hi (Nat.not_lt_zero i),
      fun p _ _ => rfl⟩
  | succ k ih =>
    cases frames with
    | nil => exact absurd hcan id
    | cons f frames =>
      have htop : topPage = 2 ^ 36 := rfl
      obtain ⟨s₁, hmap, hrest⟩ := hcan
      obtain ⟨-, ⟨t₁, ht₁⟩, hself, hothers⟩ := mapRange_page ht hkind (by omega) (by omega) hmap
      have hf : pas pageId = f.address := hpas 0 (Nat.succ_pos _) (Nat.succ_pos _)
      have hpas' : ∀ i (hi : i < frames.length), i < k → pas (pageId + 1 + i) = frames[i].address := by
        intro i hi hik
        have hnext := hpas (i + 1) (Nat.succ_lt_succ hi) (Nat.succ_lt_succ hik)
        rwa [← Nat.add_assoc, Nat.add_right_comm] at hnext
      obtain ⟨s', hrun, hpages, hkept⟩ := ih ht₁ (by omega) hpas' hrest
      refine ⟨s', fun left => ?_, fun i hi hik => ?_, fun p hp hout => ?_⟩
      · rw [Nat.add_right_comm, mapPages_succ, hf, hmap, Option.bind_some, if_pos rfl, hrun]
        congr 1
        omega
      · cases i with
        | zero =>
          rw [hkept _ (by omega) (by omega)]
          exact physicalPage_of_translate hself
        | succ i =>
          have hnext : base + pageId + (i + 1) = base + (pageId + 1) + i := by omega
          rw [hnext]
          exact hpages i (Nat.lt_of_succ_lt_succ hi) (Nat.lt_of_succ_lt_succ hik)
      · rw [hkept p hp (by omega)]
        exact physicalPage_of_keeps (hothers p hp (by omega))

/-! ### When a call is atomic -/

/-- There are as many different frames as there is physical memory, at most. -/
lemma nbPages_le_topPage (h : c.HasFrames frames) : c.nbPages ≤ topPage := by
  have hinj : ((frames.map fun f => (⟨pageNumber f.address, pageNumber_lt f⟩ : Fin topPage)).map
      fun n => pageAddr n.val).Nodup := by
    rw [List.map_map]
    have hmap : (fun n : Fin topPage => pageAddr n.val) ∘
        (fun f => ⟨pageNumber f.address, pageNumber_lt f⟩) = Frame.address :=
      funext pageAddr_pageNumber
    rw [hmap]
    exact h.nodup
  have hle := (List.Nodup.of_map _ hinj).length_le_card
  rwa [List.length_map, Fintype.card_fin, h.length] at hle

lemma mapChunk_eq_some {p : ProcPtr} {chunk pageVa : ℕ} {st st' : ProcessState}
    (h : st.mapChunk S.table p chunk c pageVa readOnly executable = some (mapped, st')) :
    c.mapChunk S.table pageVa readOnly executable st.table = some (mapped, st'.table) ∧
      (mapped = false → st'.mappings = st.mappings) := by
  rw [mapChunk, Option.bind_eq_bind, Option.bind_eq_some_iff] at h
  obtain ⟨⟨b, table⟩, hrun, h⟩ := h
  cases h
  refine ⟨hrun, ?_⟩
  rintro rfl
  rfl

/-- `map_chunk` fails atomically just when the chunk fits, or the pages that it maps do not change what
their addresses lead to. -/
theorem failsAtomically_iff {st : ProcessState} (hkind : S.kind = .process) (ht : S.Holds st.table t)
    (hc : c.HasFrames frames) {pageVa : ℕ} (hva : pageVa < 2 ^ 64) (haligned : pageVa % 4096 = 0)
    (p : ProcPtr) (chunk : ℕ) (readOnly executable : Bool) :
    st.FailsAtomically S p chunk c pageVa readOnly executable ↔
      Harmless S c frames pageVa readOnly executable st.table := by
  have htop : topPage = 2 ^ 36 := rfl
  obtain ⟨base, rfl⟩ : ∃ base, pageVa = base * 4096 :=
    ⟨pageVa / 4096, (Nat.div_mul_cancel (Nat.dvd_of_mod_eq_zero haligned)).symm⟩
  have hbase : base < 2 ^ 52 := by omega
  rw [Harmless, Nat.mul_div_cancel base (by decide)]
  have hn := nbPages_le_topPage hc
  cases hpas : c.pas with
  | none =>
    refine iff_of_true (fun st' hrun => ?_) (.inl rfl)
    obtain ⟨htable, hmappings⟩ := mapChunk_eq_some hrun
    rw [MemoryChunk.mapChunk, hpas, Option.some.injEq, Prod.mk.injEq] at htable
    exact ⟨fun va _ => by rw [htable.2], hmappings rfl⟩
  | some pas =>
    have hframes := hc.pas pas hpas
    have hlength := hc.length
    by_cases hfit : base + c.nbPages ≤ topPage
    · refine iff_of_true (fun st' hrun => ?_) (.inr (.inl hfit))
      have htable := (mapChunk_eq_some hrun).1
      rw [MemoryChunk.mapChunk_of_pas hpas] at htable
      exact absurd (eq_true_of_mapPages hkind hfit htable) Bool.false_ne_true
    by_cases hover : topPage ≤ base
    · refine iff_of_true (fun st' hrun => ?_) (.inr (.inr (.inl hover)))
      obtain ⟨htable, hmappings⟩ := mapChunk_eq_some hrun
      rw [MemoryChunk.mapChunk_of_pas hpas] at htable
      cases hnb : c.nbPages with
      | zero =>
        rw [hnb] at htable
        cases htable
      | succ left =>
        rw [hnb, mapPages_of_top hkind hover hbase, Option.some.injEq, Prod.mk.injEq] at htable
        exact ⟨fun va _ => by rw [htable.2], hmappings rfl⟩
    -- the pages below the limit are mapped, unless the kernel panics
    rw [or_iff_right (by simp), or_iff_right hfit, or_iff_right hover]
    obtain ⟨k, hk⟩ : ∃ k, k = topPage - base := ⟨_, rfl⟩
    obtain ⟨left, hleft⟩ : ∃ left, c.nbPages = k + (left + 1) := ⟨c.nbPages - k - 1, by omega⟩
    have hpas' : ∀ i (hi : i < frames.length), i < k → pas (0 + i) = frames[i].address := by
      intro i hi _
      rw [Nat.zero_add]
      exact hframes i hi
    rw [← hk]
    by_cases hcan : CanMap S (getProperties readOnly executable) base k frames st.table
    · obtain ⟨s', hrun, hpages, hkept⟩ := mapPages_of_canMap ht hkind (by omega) (by omega) hpas' hcan
      have htable : c.mapChunk S.table (base * 4096) readOnly executable st.table = some (false, s') := by
        rw [MemoryChunk.mapChunk_of_pas hpas, hleft, hrun]
        exact mapPages_of_top hkind (by omega) (by omega)
      have hcall : st.mapChunk S.table p chunk c (base * 4096) readOnly executable =
          some (false, ⟨s', st.mappings⟩) := by
        rw [mapChunk, htable]
        rfl
      constructor
      · intro hatomic _ i hi hlt
        have hcheck : checkVa S.kind (pageAddr (base + i)) = true := by
          rw [hkind]
          exact (checkVa_pageAddr (by omega)).mpr (by omega)
        rw [← (hatomic _ hcall).1 _ hcheck]
        exact hpages i hi (by omega)
      · intro hsame st' hrun'
        rw [hcall, Option.some.injEq, Prod.mk.injEq] at hrun'
        rw [← hrun'.2]
        refine ⟨forall_checkVa.mpr fun p hp => ?_, rfl⟩
        rw [hkind, slot_process_iff] at hp
        by_cases hin : base ≤ p ∧ p < base + k
        · obtain ⟨i, rfl⟩ := Nat.exists_eq_add_of_le hin.1
          have hi : i < frames.length := by omega
          rw [hsame hcan i hi (by omega)]
          exact hpages i hi (by omega)
        · exact hkept p (by omega) (by omega)
    · refine iff_of_true (fun st' hrun => ?_) fun h => absurd h hcan
      have htable := (mapChunk_eq_some hrun).1
      rw [MemoryChunk.mapChunk_of_pas hpas, hleft,
        mapPages_eq_none hkind (by omega) hpas' (by omega) hcan] at htable
      cases htable

/-- Two pages at the last address of a process, whose tables are empty. -/
def emptyProcess : ProcessState := ⟨emptyState, .empty⟩

def twoFrames : List Frame := [⟨0x40000000, by decide, by decide⟩, ⟨0x40001000, by decide, by decide⟩]

def twoPages : MemoryChunk where
  nbPages := 2
  pas := some fun i => 0x40000000 + BitVec.ofNat 64 (i * 4096)
  hasMemory := true
  bytes := fun _ => 0

lemma twoPages_hasFrames : twoPages.HasFrames twoFrames where
  length := rfl
  pas := by
    rintro _ ⟨⟩ i hi
    match i, hi with
    | 0, _ => rfl
    | 1, _ => rfl
  nodup := by decide

theorem failsAtomically_iff_lastPage :
    emptyProcess.FailsAtomically (identity .process) 0 0 twoPages 0xfffffffff000 false false ↔
      Harmless (identity .process) twoPages twoFrames 0xfffffffff000 false false emptyProcess.table :=
  failsAtomically_iff rfl (holds_emptyState _) twoPages_hasFrames (by decide) (by decide) 0 0 false false

lemma emptyProcess_mapChunk : ((emptyProcess.mapChunk (identity .process).table 0 0 twoPages 0xfffffffff000 false
    false).any fun x => decide (x.1 = false ∧
      physicalPage (identity .process) x.2.table 0xfffffffff000 ≠
        physicalPage (identity .process) emptyProcess.table 0xfffffffff000)) = true := by
  decide +kernel

/-- The first page is mapped at the last address and stays mapped. -/
theorem not_failsAtomically :
    ¬emptyProcess.FailsAtomically (identity .process) 0 0 twoPages 0xfffffffff000 false false := by
  intro hatomic
  obtain ⟨⟨mapped, st⟩, hrun, h⟩ := (Option.any_eq_true _ _).mp emptyProcess_mapChunk
  rw [decide_eq_true_iff] at h
  obtain ⟨rfl, hne⟩ := h
  exact hne ((hatomic st hrun).1 _ (by decide))

end ProcessState

end PiKachulm.Memory

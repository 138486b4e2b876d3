import PiKachulm.Memory.MemoryChunk
import PiKachulm.Mmu.OnePage

/-!
# The tables of a process

A process is mapped page by page, by `map_chunk` and by its heap. As long as there are pages for three
tables more for every page, mapping does not fail and gives each page what was asked for.
-/

namespace PiKachulm.Memory

open Core Mmu Services

variable {S : Services} {s s' : State} {attr : PagesAttributes} {f : Frame} {n p p' : ℕ}

/-- The tables map single pages, and have what it takes to map `n` more. -/
def PageTables (S : Services) (s : State) (n : ℕ) : Prop :=
  ∃ t, S.Holds s t ∧ t.Wf 512 PageOk 3 ∧ Lasts S.alloc (3 * n) s.history

/-- A page number is that of a frame. -/
lemma pageAddr_pageNumber (f : Frame) : pageAddr (pageNumber f.address) = f.address := by
  apply BitVec.eq_of_toNat_eq
  have hfits := f.fits
  have haligned := f.aligned
  rw [toNat_pageAddr, pageNumber]
  omega

lemma pageNumber_lt (f : Frame) : pageNumber f.address < 2 ^ 36 := by
  have hfits := f.fits
  rw [pageNumber]
  omega

lemma leafView_page (f : Frame) (hp : p < 2 ^ 52) :
    leafView p (0, ⟨(p + displacement (pageNumber f.address) p) % 2 ^ 36, attr⟩) =
      (f.address, attr) := by
  have hf := pageNumber_lt f
  have hframe : (p + displacement (pageNumber f.address) p) % 2 ^ 36 = pageNumber f.address := by
    rw [displacement]
    omega
  rw [leafView, pageOf, firstPage_zero, Nat.sub_self, Nat.add_zero, hframe, pageAddr_pageNumber]

/-- Mapping one page. -/
lemma PageTables.mapRange (hs : PageTables S s (n + 1)) (hkind : S.kind = .process)
    (hp : p < 2 ^ 36) :
    ∃ s', mapRange (some S.table) (pageAddr p) (pageAddr p) f.address attr s = some (true, s') ∧
      PageTables S s' n ∧ translate S.table s' (pageAddr p) = some (f.address, attr) ∧
        ∀ p' < 2 ^ 36, p' ≠ p →
          translate S.table s' (pageAddr p') = translate S.table s (pageAddr p') := by
  obtain ⟨t, ht, hw, hl⟩ := hs
  have hp52 : p < 2 ^ 52 := hp.trans (by norm_num)
  have hcheck : checkVa S.kind (pageAddr p) = true := by
    rw [hkind]
    exact (checkVa_pageAddr hp52).mpr hp
  have hroot : ∀ p < 2 ^ 36, slot 512 (3 + 1) p = rootSlot S.kind := by
    rw [hkind]
    exact fun p => slot_process_iff.mpr
  rw [Nat.mul_succ] at hl
  obtain ⟨t', h', hop, hw', hl', (hone : MapsOne 4 _ _ (displacement (pageNumber f.address) p) attr _ _)⟩ :=
    mapTable_onePage hw hl (hroot p hp)
  have hnum : pageNumber (pageAddr p) = p := pageNumber_pageAddr hp52
  have hrun := hop
  rw [← hnum] at hrun
  obtain ⟨s', hs'⟩ := ht.mapRange_returns hcheck hcheck hrun
  obtain ⟨-, -, t'', hop', ht''⟩ := ht.mapRange hs'
  rw [hrun] at hop'
  cases hop'
  refine ⟨s', hs', ⟨t', ht'', hw', hl'⟩, ?_, fun p' hp' hne => ?_⟩
  · rw [ht''.translate_eq hp52, hone.mapped, Option.map_some, leafView_page f hp52]
  · have hp'52 : p' < 2 ^ 52 := hp'.trans (by norm_num)
    rw [ht''.translate_eq hp'52, ht.translate_eq hp'52, hone.kept p' (hroot p' hp') hne]

/-- Mapping the pages of a chunk from its page `pageId` on. -/
lemma PageTables.mapPages {pas : ℕ → PhysicalPA} {base pageId left : ℕ}
    (hs : PageTables S s (n + left)) (hkind : S.kind = .process)
    (hpas : ∀ i, pageId ≤ i → i < pageId + left → ∃ f : Frame, pas i = f.address)
    (hfit : base + pageId + left ≤ 2 ^ 36) :
    ∃ s', MemoryChunk.mapPages S.table attr pas (base * 4096) pageId left s = some (true, s') ∧
      PageTables S s' n ∧ ∀ p < 2 ^ 36, translate S.table s' (pageAddr p) =
        if base + pageId ≤ p ∧ p < base + pageId + left then some (pas (p - base), attr)
        else translate S.table s (pageAddr p) := by
  induction left generalizing pageId s with
  | zero =>
    refine ⟨s, rfl, hs, fun p _ => (if_neg ?_).symm⟩
    rintro ⟨hle, hlt⟩
    exact absurd hle (Nat.not_le.mpr hlt)
  | succ left ih =>
    have hpage : base + pageId < 2 ^ 36 := by omega
    obtain ⟨f, hf⟩ := hpas pageId le_rfl (by omega)
    obtain ⟨s₁, hrun, hs₁, hself, hother⟩ : ∃ s₁, Mmu.mapRange (some S.table) _ _ f.address attr s = _ ∧ _ :=
      PageTables.mapRange hs hkind hpage
    obtain ⟨s₂, hrest, hs₂, htr⟩ := @ih s₁ (pageId + 1) hs₁
      (fun i hle hlt => hpas i (by omega) (by omega)) (by omega)
    refine ⟨s₂, ?_, hs₂, fun p hp => ?_⟩
    · have hva : BitVec.ofNat 64 (base * 4096 + pageId * 4096) = pageAddr (base + pageId) := by
        rw [pageAddr, Nat.add_mul]
      rw [MemoryChunk.mapPages, hva, hf, hrun, Option.bind_eq_bind,
        Option.bind_some]
      exact hrest
    · rw [htr p hp]
      by_cases hp₁ : base + (pageId + 1) ≤ p ∧ p < base + (pageId + 1) + left
      · rw [if_pos hp₁, if_pos (by omega)]
      · rw [if_neg hp₁]
        by_cases hp₂ : p = base + pageId
        · rw [if_pos (by omega), hp₂, hself, Nat.add_sub_cancel_left, hf]
        · rw [if_neg (by omega), hother p hp hp₂]

end PiKachulm.Memory

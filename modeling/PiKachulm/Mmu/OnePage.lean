import PiKachulm.Mmu.View
import PiKachulm.Mmu.TreeMap

/-!
# Mapping single pages

Tables that are only filled page by page have no blocks. Mapping one more page in them takes at most
three calls to the allocator, does not fail while it answers, and leaves every other page as it is.
-/

namespace PiKachulm.Mmu

open Core

variable {alloc : AllocFun} {k m n N p p' δ : ℕ} {attr : PagesAttributes} {e : PageTree} {t : Table}
  {h : History VirtualPA}

/-- Every leaf is a page. -/
def PageOk (k : ℕ) (m : Mapping) : Prop := k = 0 ∧ m.frame < 2 ^ 36

/-- The allocator answers the next `n` calls. -/
def Lasts (alloc : AllocFun) : ℕ → History VirtualPA → Prop
  | 0, _     => True
  | n + 1, h => ∃ q, alloc h = some q ∧ Lasts alloc n (.alloc q :: h)

instance decidableLasts (alloc : AllocFun) : (n : ℕ) → (h : History VirtualPA) →
    Decidable (Lasts alloc n h)
  | 0, _     => isTrue trivial
  | n + 1, h =>
    match hq : alloc h with
    | none   => isFalse fun ⟨q, hq', _⟩ => Option.some_ne_none q (hq'.symm.trans hq)
    | some q =>
      have := decidableLasts alloc n (.alloc q :: h)
      decidable_of_iff (Lasts alloc n (.alloc q :: h))
        ⟨fun hl => ⟨q, hq, hl⟩, fun ⟨q', hq', hl⟩ => by
          cases hq.symm.trans hq'
          exact hl⟩

lemma Lasts.mono (hl : Lasts alloc n h) (hmn : m ≤ n) : Lasts alloc m h := by
  induction n generalizing m h with
  | zero =>
    rw [Nat.le_zero.mp hmn]
    trivial
  | succ n ih =>
    cases m with
    | zero => trivial
    | succ m =>
      obtain ⟨q, hq, hl⟩ := hl
      exact ⟨q, hq, ih hl (Nat.le_of_succ_le_succ hmn)⟩

/-- A single page touches a single entry. -/
lemma onTable_onePage {op : ℕ → PageTree × History VirtualPA → Option (PageTree × History VirtualPA)}
    (hp : slot 512 (k + 1) p = N) :
    onTable k N p p op (t, h) = (op (slot 512 k p) (t (slot 512 k p % 512), h)).map fun y =>
      (Function.update t (slot 512 k p % 512) y.1, y.2) := by
  have htouched : touched k N p p = [slot 512 k p % 512] := by
    rw [slot_succ] at hp
    have hfirst : max (slot 512 k p) (N * 512) = slot 512 k p := by omega
    have hlast : min (slot 512 k p + 1) ((N + 1) * 512) = slot 512 k p + 1 := by omega
    rw [touched, hfirst, hlast, Nat.add_sub_cancel_left, List.range'_one, ← hp]
    congr 1
    omega
  rw [onTable, if_neg (lt_irrefl p), htouched, updateCells, List.foldlM_cons, slot_index hp]
  cases op (slot 512 k p) (t (slot 512 k p % 512), h) <;> rfl

/-- A slot above the pages has more than one page. -/
lemma lo_lt_hi : lo 512 (k + 1) N < hi 512 (k + 1) N := by
  apply Nat.lt_add_of_pos_right
  exact Nat.sub_pos_of_lt (Nat.one_lt_pow (Nat.succ_ne_zero k) (by norm_num))

/-- Page `p` has been mapped, and nothing else in slot `N` of height `k`. -/
structure MapsOne (k N p δ : ℕ) (attr : PagesAttributes) (find find' : ℕ → Option (ℕ × Mapping)) :
    Prop where
  mapped : find' p = some (0, ⟨(p + δ) % 2 ^ 36, attr⟩)
  kept : ∀ p', slot 512 k p' = N → p' ≠ p → find' p' = find p'

/-- What holds of the entry of the page holds of the table. -/
lemma mapTable_onePage_of_entry (hw : t.Wf 512 PageOk k) (hp : slot 512 (k + 1) p = N)
    (hentry : ∀ e : PageTree, e.Wf 512 PageOk k →
      ∃ e' h', mapEntry alloc k (slot 512 k p) p p δ attr (e, h) = some (e', h') ∧
        e'.Wf 512 PageOk k ∧ Lasts alloc n h' ∧
          MapsOne k (slot 512 k p) p δ attr (e.find 512 k) (e'.find 512 k)) :
    ∃ t' h', mapTable alloc k N p p δ attr (t, h) = some (t', h') ∧ t'.Wf 512 PageOk k ∧
      Lasts alloc n h' ∧ MapsOne (k + 1) N p δ attr (t.find 512 k) (t'.find 512 k) := by
  have hi : slot 512 k p % 512 < 512 := Nat.mod_lt _ (by norm_num)
  obtain ⟨e', h', hop, hw', hl', hone⟩ := hentry _ (hw _ hi)
  refine ⟨Function.update t (slot 512 k p % 512) e', h', ?_, Entries.wf_update hw hw', hl', ?_, ?_⟩
  · rw [mapTable, onTable_onePage hp, hop, Option.map_some]
  · rw [Entries.find, Function.update_self]
    exact hone.mapped
  · intro p' hp' hne
    by_cases hslot : slot 512 k p' = slot 512 k p
    · rw [Entries.find, Entries.find, hslot, Function.update_self]
      exact hone.kept p' hslot hne
    · rw [Entries.find, Entries.find, Function.update_of_ne]
      intro hmod
      have h₁ := slot_index hp
      have h₂ := slot_index hp'
      rw [hmod, h₁] at h₂
      exact hslot h₂.symm

/-- Mapping page `p` in its entry of height `k`. -/
lemma mapEntry_onePage (hw : e.Wf 512 PageOk k) (hl : Lasts alloc (n + k) h) (hp : slot 512 k p = N) :
    ∃ e' h', mapEntry alloc k N p p δ attr (e, h) = some (e', h') ∧ e'.Wf 512 PageOk k ∧
      Lasts alloc n h' ∧ MapsOne k N p δ attr (e.find 512 k) (e'.find 512 k) := by
  induction k generalizing e h N n with
  | zero =>
    rw [slot_zero] at hp
    subst hp
    refine ⟨.leaf ⟨(p + δ) % 2 ^ 36, attr⟩, h, mapEntry_zero, ?_, hl, Node.find_leaf, ?_⟩
    · exact Node.wf_leaf.mpr ⟨rfl, Nat.mod_lt _ (by norm_num)⟩
    · intro p' hp' hne
      rw [slot_zero] at hp'
      exact absurd hp' hne
  | succ k ih =>
    have htable : ∀ {t : Table} {h}, t.Wf 512 PageOk k → Lasts alloc (n + k) h →
        ∃ t' h', mapTable alloc k N p p δ attr (t, h) = some (t', h') ∧ t'.Wf 512 PageOk k ∧
          Lasts alloc n h' ∧ MapsOne (k + 1) N p δ attr (t.find 512 k) (t'.find 512 k) :=
      fun hw hl => mapTable_onePage_of_entry hw hp fun e he => ih he hl rfl
    cases e with
    | empty =>
      obtain ⟨q, hq, hl⟩ := hl
      have hpart : ¬(p ≤ lo 512 (k + 1) N ∧ hi 512 (k + 1) N ≤ p ∧ k + 1 ≤ 2) :=
        fun hcov => absurd lo_lt_hi (hcov.2.1.trans hcov.1).not_gt
      obtain ⟨t', h', hop, hw', hl', hone⟩ := htable Entries.wf_empty hl
      refine ⟨.table q t', h', ?_, Node.wf_table.mpr hw', hl', ?_, ?_⟩
      · rw [mapEntry_empty, if_neg hpart, hq, Option.bind_some, hop, Option.map_some]
      · rw [Node.find_table]
        exact hone.mapped
      · intro p' hp' hne
        rw [Node.find_table, Node.find_empty, hone.kept p' hp' hne, Entries.find_empty]
    | leaf m => exact absurd (Node.wf_leaf.mp hw).1 (Nat.succ_ne_zero k)
    | table q sub =>
      obtain ⟨t', h', hop, hw', hl', hone⟩ := htable (Node.wf_table.mp hw) (hl.mono (by simp))
      refine ⟨.table q t', h', ?_, Node.wf_table.mpr hw', hl', ?_, ?_⟩
      · rw [mapEntry_table, hop, Option.map_some]
      · rw [Node.find_table]
        exact hone.mapped
      · intro p' hp' hne
        rw [Node.find_table, Node.find_table, hone.kept p' hp' hne]

lemma mapTable_onePage (hw : t.Wf 512 PageOk k) (hl : Lasts alloc (n + k) h)
    (hp : slot 512 (k + 1) p = N) :
    ∃ t' h', mapTable alloc k N p p δ attr (t, h) = some (t', h') ∧ t'.Wf 512 PageOk k ∧
      Lasts alloc n h' ∧ MapsOne (k + 1) N p δ attr (t.find 512 k) (t'.find 512 k) :=
  mapTable_onePage_of_entry hw hp fun _ he => mapEntry_onePage he hl rfl

end PiKachulm.Mmu

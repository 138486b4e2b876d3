import PiKachulm.Mmu.Runs
import PiKachulm.Mmu.TreePages
import PiKachulm.Mmu.MapRange

/-!
# The pages obtained for tables

In which runs the pages obtained from the allocator and not given back are those of the tables
below `pgd`. `clear_all` then gives back every one of them.
-/

namespace PiKachulm.Mmu

open Libk Core Services

variable {S : Services} {s s' s₀ : State} {t : Table} {k i : ℕ} {q : VirtualPA} {c : MmuCall}
  {mem : VirtualPA → ℕ → BitVec 64} {entry : BitVec 64} {e : PageTree}

/-! ### Calls that give back no table in use -/

/-- What an `unmap_range` must meet. When the range stops inside an entry of level `3 - k` that is
not the first of its table, and does not start inside it, the sub-table (of level `4 - k`) is given
back: the entries after the one of `vaEnd` must not be tables, and when this one is the first and
the range stops inside it, it must be invalid. -/
def UnmapReleases (S : Services) (s : State) (vaStart vaEnd : VirtualPA) : Prop :=
  ∀ k table, 1 ≤ k → k ≤ 2 →
    subTableAt S.table s 1 S.pgd (pathTo 512 (pageNumber vaEnd) 3 (3 - k)) = some table →
    slot 512 (k + 1) (pageNumber vaEnd) % 512 ≠ 0 →
    pageNumber vaStart ≤ firstPage (k + 1) (pageNumber vaEnd) →
    pageNumber vaEnd < lastPage (k + 1) (pageNumber vaEnd) →
    (∀ i < 512, slot 512 k (pageNumber vaEnd) % 512 < i →
      getEntryKind (s.mem table i) (4 - k) ≠ .table) ∧
    (slot 512 k (pageNumber vaEnd) % 512 = 0 → pageNumber vaEnd < lastPage k (pageNumber vaEnd) →
      getEntryKind (s.mem table 0) (4 - k) = .invalid)

def ReleasingCall (S : Services) (s : State) : MmuCall → Prop
  | .unmapRange vaStart vaEnd => UnmapReleases S s vaStart vaEnd
  | _                         => True

lemma Services.Rep.kind_of_isTable (hrep : S.Rep mem k entry e) (he : IsTable e) :
    getEntryKind entry (4 - k) = .table := by
  cases e with
  | empty => exact absurd he id
  | leaf m => exact absurd he id
  | table q sub =>
    cases k with
    | zero => exact absurd hrep (by simp [Rep])
    | succ k => exact (rep_table.mp hrep).1

lemma Services.Rep.eq_empty (hrep : S.Rep mem k entry e)
    (hkind : getEntryKind entry (4 - k) = .invalid) : e = .empty := by
  cases e with
  | empty => rfl
  | leaf m =>
    obtain ⟨pa, hentry, -⟩ := rep_leaf.mp hrep
    rw [hentry, getEntryKind_encodeNewEntry] at hkind
    split_ifs at hkind
  | table q sub =>
    rw [hrep.kind_of_isTable trivial] at hkind
    cases hkind

lemma UnmapReleases.releases {vaStart vaEnd : VirtualPA} (ht : S.Holds s t)
    (hu : UnmapReleases S s vaStart vaEnd) :
    Releases 3 S.pgd t (pageNumber vaStart) (pageNumber vaEnd) := by
  intro k a hk₁ hk₂ hat hidx hfirst hlast
  have hpath : ∀ i ∈ pathTo 512 (pageNumber vaEnd) 3 (3 - k), i < 512 := fun i hi => mem_pathTo hi
  have hrel : Option.Rel _ (subTableAt S.table s 1 S.pgd _) _ :=
    subTableAt_rel le_rfl ht.owns.rep hpath
  rw [hat, length_pathTo, Nat.sub_sub_self hk₂.le] at hrel
  cases hsub : subTableAt S.table s 1 S.pgd (pathTo 512 (pageNumber vaEnd) 3 (3 - k)) with
  | none =>
    rw [hsub] at hrel
    cases hrel
  | some table =>
    rw [hsub] at hrel
    obtain ⟨-, hrep⟩ := Option.rel_some_some.mp hrel
    obtain ⟨hafter, hzero⟩ := hu k table hk₁ (Nat.le_of_lt_succ hk₂) hsub hidx hfirst hlast
    constructor
    · exact fun i hi hlt he => hafter i hi hlt ((hrep i hi).kind_of_isTable he)
    · exact fun h₀ h₁ => (hrep 0 (by norm_num)).eq_empty (hzero h₀ h₁)

/-- A call that meets the condition keeps the account. -/
lemma accounts_step {y : Table × History VirtualPA} (ht : S.Holds s t)
    (ha : t.Accounts 512 ∅ s.history) (hok : ReleasingCall S s c) (hacc : c.Accepted S.kind)
    (htree : c.onTree S (t, s.history) = some y) : Entries.Accounts 512 ∅ y.1 y.2 := by
  have halloc : NeverInUse S.alloc := fun h p hp => (S.fresh h p hp).2.2
  cases c with
  | mapRange vaStart vaEnd paStart attr => exact mapTable_accounts halloc ht.wf ha htree
  | unmapRange vaStart vaEnd =>
    exact unmapTable_accounts halloc ht.wf ha (fun _ => UnmapReleases.releases ht hok) htree
  | changeAttrRange vaStart vaEnd attr => exact changeTable_accounts halloc ht.wf ha htree
  | changeAttrVa va attr =>
    cases htree
    exact setAttrInTable_accounts ha

/-! ### Runs -/

/-- Each page in use is the sub-table at the end of just one path from `pgd`, and no other page is
a sub-table. -/
def TablesAreLive (S : Services) (s : State) : Prop :=
  (∀ q, q ∈ live s.history ↔ ∃ path, path ≠ [] ∧ (∀ i ∈ path, i < 512) ∧
    subTableAt S.table s 1 S.pgd path = some q) ∧
  ∀ q path path', (∀ i ∈ path, i < 512) → (∀ i ∈ path', i < 512) →
    subTableAt S.table s 1 S.pgd path = some q → subTableAt S.table s 1 S.pgd path' = some q →
    path = path'

lemma tablesAreLive_of_accounts (ht : S.Holds s t) (ha : t.Accounts 512 ∅ s.history) :
    TablesAreLive S s := by
  have hsub : ∀ {path q}, (∀ i ∈ path, i < 512) →
      (subTableAt S.table s 1 S.pgd path = some q ↔
        ∃ sub, tableAt (S.pgd, t) path = some (q, sub)) := by
    intro path q hpath
    rw [ht.subTableAt_eq hpath, Option.map_eq_some_iff]
    constructor
    · rintro ⟨x, hx, rfl⟩
      exact ⟨x.2, hx⟩
    · rintro ⟨sub, hx⟩
      exact ⟨(q, sub), hx, rfl⟩
  constructor
  · intro q
    rw [ha.live, Set.empty_union, Entries.mem_pages_iff S.pgd]
    refine exists_congr fun path => and_congr_right fun _ => and_congr_right fun hpath => ?_
    exact (hsub hpath).symm
  · intro q path path' hpath hpath' h₁ h₂
    obtain ⟨sub₁, h₁⟩ := (hsub hpath).mp h₁
    obtain ⟨sub₂, h₂⟩ := (hsub hpath').mp h₂
    exact tableAt_injective ht.owns.sep ht.owns.self hpath hpath' h₁ h₂

/-- `clear_all` gives back every page that was obtained, and leaves `pgd` without valid entries. -/
def ClearsAll (S : Services) (s : State) : Prop :=
  ∃ s', clearAll (some S.table) s = some s' ∧ live s'.history = ∅ ∧ Disciplined s'.history ∧
    (∀ q, s'.history.count (.alloc q) = s'.history.count (.free q)) ∧
    ∀ i < 512, getEntryKind (s'.mem S.pgd i) 1 = .invalid

lemma clearsAll_of_accounts (ht : S.Holds s t) (ha : t.Accounts 512 ∅ s.history) :
    ClearsAll S s := by
  obtain ⟨y, hy⟩ := clearEntries_total 3 (t, s.history)
  have hrel : Option.Rel _ (clearTable S.table 4 S.pgd 1 (getBaseAddress S.kind) s) _ :=
    clearTable_rel le_rfl ht.owns (getBaseAddress S.kind)
  rw [hy] at hrel
  cases hrun : clearTable S.table 4 S.pgd 1 (getBaseAddress S.kind) s with
  | none =>
    rw [hrun] at hrel
    cases hrel
  | some s' =>
    rw [hrun] at hrel
    have howns := Option.rel_some_some.mp hrel
    have hya := clearEntries_accounts ht.wf ha hy
    have hempty : ∀ i < 512, y.1 i = .empty := fun i hi => clearEntries_eq_empty hy hi
    have hlive : live s'.history = ∅ := by
      rw [howns.history, hya.live, Set.empty_union]
      refine pages_eq_empty fun i hi => ?_
      rw [hempty i hi, Node.pages_empty]
    have hd : Disciplined s'.history := by
      rw [howns.history]
      exact hya.disciplined
    refine ⟨s', ?_, hlive, hd, hd.count_eq_of_live_empty hlive, fun i hi => ?_⟩
    · have hcheck : ¬(!S.table.free || S.table.resolvePa.isNone || S.table.pgd = 0) = true := by
        rw [Bool.not_eq_true]
        exact decide_eq_false S.pgd_ne
      rw [clearAll, if_neg hcheck]
      exact hrun
    · have hrep := howns.rep i hi
      rwa [hempty i hi, rep_empty] at hrep

/-- In a run whose calls all meet the condition no page is lost and none is given back twice; a
final `clear_all` gives everything back. -/
theorem tables_are_live_of_reaches (hs : S.Fresh s₀)
    (hreach : Reaches S.table (ReleasingCall S) s₀ s) :
    TablesAreLive S s ∧ Disciplined s.history ∧ ClearsAll S s := by
  obtain ⟨t, ht, ha⟩ : ∃ t, S.Holds s t ∧ t.Accounts 512 ∅ s.history := by
    refine Reaches.invariant (fun t h => t.Accounts 512 ∅ h) hs ?_ ?_ hreach
    · exact ⟨by simp, by simp, Entries.sep_empty, disciplined_nil⟩
    · exact fun s t c y ht ha hok hacc htree => accounts_step ht ha hok hacc htree
  exact ⟨tablesAreLive_of_accounts ht ha, ha.disciplined, clearsAll_of_accounts ht ha⟩

/-- Map the first page, and unmap it. -/
theorem tables_are_live_of_reaches_page : ∃ s,
    Reaches (identity .process).table (ReleasingCall (identity .process)) emptyState s ∧
    TablesAreLive (identity .process) s ∧ Disciplined s.history ∧ ClearsAll (identity .process) s := by
  have hrun : (mapRange (some (identity .process).table) 0 0 0x5000 normalMemory emptyState).any
      (fun x => (unmapRange (some (identity .process).table) 0 0 x.2).isSome) = true := by
    decide +kernel
  obtain ⟨⟨b, s⟩, hmap, hrun⟩ := (Option.any_eq_true _ _).mp hrun
  obtain ⟨⟨b', s'⟩, hunmap⟩ := Option.isSome_iff_exists.mp hrun
  have hok : ReleasingCall (identity .process) s (.unmapRange 0 0) := by
    intro k table _ _ _ hidx _ _
    exact absurd (by simp [slot, pageNumber]) hidx
  have hreach : Reaches (identity .process).table (ReleasingCall (identity .process)) emptyState
      s' := by
    refine .step (.step .refl ?_ (c := .mapRange 0 0 0x5000 normalMemory) hmap) hok hunmap
    trivial
  have hlive := tables_are_live_of_reaches (fresh_emptyState _) hreach
  exact ⟨s', hreach, hlive⟩

/-! ### A table that is lost -/

/-- Without a valid entry in `pgd` there are no sub-tables. -/
lemma subTableAt_of_invalid {path : List ℕ}
    (hs : ∀ i < 512, getEntryKind (s.mem S.pgd i) 1 = .invalid) (hne : path ≠ [])
    (hpath : ∀ i ∈ path, i < 512) : subTableAt S.table s 1 S.pgd path = none := by
  cases path with
  | nil => exact absurd rfl hne
  | cons i path =>
    rw [subTableAt, if_neg (by simp [hs i (hpath i (by simp))])]

/-- Map a page 5 GiB after the beginning of an entry of the first level, and unmap the first page
of this entry: the tables of the other page are in use, but no longer found. -/
theorem tables_not_live : ∃ s,
    Reaches (identity .process).table (fun _ _ => True) emptyState s ∧
    ¬TablesAreLive (identity .process) s := by
  have hrun : (mapRange (some (identity .process).table) 0x8140000000 0x8140000000 0x5000
      normalMemory emptyState).any (fun x =>
        (unmapRange (some (identity .process).table) 0x8000000000 0x8000000000 x.2).any fun y =>
          decide ((∀ i : ℕ, i < 512 → getEntryKind (y.2.mem (pageAddr 1) i) 1 = .invalid) ∧
            pageAddr 3 ∈ live y.2.history)) = true := by
    decide +kernel
  obtain ⟨⟨b, s⟩, hmap, hrun⟩ := (Option.any_eq_true _ _).mp hrun
  obtain ⟨⟨b', s'⟩, hunmap, hrun⟩ := (Option.any_eq_true _ _).mp hrun
  obtain ⟨hinvalid, hlive⟩ := of_decide_eq_true hrun
  refine ⟨s', .step (.step .refl trivial (c := .mapRange 0x8140000000 0x8140000000 0x5000
    normalMemory) hmap) trivial (c := .unmapRange 0x8000000000 0x8000000000) hunmap, fun htables => ?_⟩
  obtain ⟨path, hne, hpath, hsub⟩ := (htables.1 _).mp hlive
  rw [subTableAt_of_invalid hinvalid hne hpath] at hsub
  cases hsub

end PiKachulm.Mmu

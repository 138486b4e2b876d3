import PiKachulm.Mmu.Operations
import PiKachulm.Mmu.Tree

/-!
# Trees in memory

`Services` are the functions that a set of tables relies on, with what they promise. `Rep` relates
a descriptor to the tree below it, and `Owns` a table with the state it is in: the words of its
sub-tables are only found there, and the pages of a frame `F` are as they were in `mem₀`.
-/

namespace PiKachulm.Mmu

open Libk Core

/-- The functions behind an `MMUTable`: every page that `alloc` returns is not in use, and
`resolve_pa` gives it back from the address that `resolve_va` gives for it. -/
structure Services where
  kind : Kind
  pgd : VirtualPA
  alloc : AllocFun
  resolvePa : PhysicalPA → VirtualPA
  resolveVa : VirtualPA → PhysicalPA
  pgd_ne : pgd ≠ 0
  fresh : ∀ h p, alloc h = some p → p ≠ 0 ∧ p ≠ pgd ∧ p ∉ live h
  resolve : ∀ h p, alloc h = some p → resolvePa (resolveVa p) = p
  fits : ∀ h p, alloc h = some p → resolveVa p &&& maskBits 12 47 = resolveVa p

namespace Services

variable (S : Services)

def table : MMUTable where
  kind := S.kind
  pgd := S.pgd
  alloc := some S.alloc
  free := true
  resolvePa := some S.resolvePa
  resolveVa := some S.resolveVa

/-- The first of 16 pages that is not in use. -/
def poolAlloc : AllocFun := fun h =>
  ((List.range' 2 16).map pageAddr).find? fun p => p ∉ live h

lemma poolAlloc_eq_some {h : History VirtualPA} {p : VirtualPA} (hp : poolAlloc h = some p) :
    p ∉ live h ∧ ∃ n, (2 ≤ n ∧ n < 18) ∧ pageAddr n = p := by
  obtain ⟨n, hn, hp'⟩ := List.mem_map.mp (List.mem_of_find?_eq_some hp)
  have hfree := List.find?_some (p := fun a => decide (a ∉ live h)) hp
  exact ⟨of_decide_eq_true hfree, n, List.mem_range'_1.mp hn, hp'⟩

/-- The services of a pool of pages, where addresses are mapped to themselves. -/
def identity (kind : Kind) : Services where
  kind := kind
  pgd := pageAddr 1
  alloc := poolAlloc
  resolvePa := id
  resolveVa := id
  pgd_ne := by decide
  fresh h p hp := by
    obtain ⟨hlive, n, hn, rfl⟩ := poolAlloc_eq_some hp
    have hzero : (0 : VirtualPA) = pageAddr 0 := rfl
    rw [hzero, ne_eq, ne_eq, pageAddr_inj (by omega) (by omega),
      pageAddr_inj (by omega) (by omega)]
    exact ⟨by omega, by omega, hlive⟩
  resolve _ _ _ := rfl
  fits h p hp := by
    obtain ⟨-, n, hn, rfl⟩ := poolAlloc_eq_some hp
    exact pageAddr_and_mask (by omega)

/-- The descriptor `entry` of height `k` holds the tree `e`. -/
def Rep (mem : VirtualPA → ℕ → BitVec 64) : ℕ → BitVec 64 → PageTree → Prop
  | k, entry, .empty           => getEntryKind entry (4 - k) = .invalid
  | k, entry, .leaf m          => ∃ pa, entry = encodeNewEntry S.kind pa (4 - k) m.attr ∧
      frameOf pa = m.frame
  | 0, _, .table _ _           => False
  | k + 1, entry, .table q sub => getEntryKind entry (4 - (k + 1)) = .table ∧
      S.resolvePa (getTablePaFromEntry entry) = q ∧ q ≠ 0 ∧
      ∀ i < 512, Rep mem k (mem q i) (sub i)

/-- The table at `q`, whose entries have height `k`, holds the tree of `x`, the allocator has the
history of `x`, and the pages of `F` are as in `mem₀`. -/
structure Owns (F : Set VirtualPA) (mem₀ : VirtualPA → ℕ → BitVec 64) (q : VirtualPA) (k : ℕ)
    (s : State) (x : Table × History VirtualPA) : Prop where
  history : s.history = x.2
  rep : ∀ i < 512, S.Rep s.mem k (s.mem q i) (x.1 i)
  sep : x.1.Sep 512
  self : q ∉ x.1.pages 512
  used : x.1.pages 512 ⊆ live x.2
  outside : ∀ p ∈ F, s.mem p = mem₀ p
  self_frame : q ∉ F
  disjoint : Disjoint F (x.1.pages 512)
  known : ∀ p ∈ insert q F, p = S.pgd ∨ p ∈ live x.2
  root : S.pgd ∈ insert q F

end Services

variable {S : Services} {F : Set VirtualPA} {mem₀ mem mem' : VirtualPA → ℕ → BitVec 64}
  {q p : VirtualPA} {k i : ℕ} {s s' : State} {t sub : Table} {h h' : History VirtualPA}
  {entry : BitVec 64} {e : PageTree} {x : Table × History VirtualPA}

/-! ### Writing entries -/

@[simp] lemma State.write_history : (s.write q i entry).history = s.history := rfl

lemma State.write_mem_of_ne {a : VirtualPA} (ha : a ≠ q) : (s.write q i entry).mem a = s.mem a :=
  Function.update_of_ne ha _ _

@[simp] lemma State.write_mem_same : (s.write q i entry).mem q i = entry := by
  simp [State.write]

lemma State.write_mem_of_ne_index {j : ℕ} (hj : j ≠ i) :
    (s.write q i entry).mem q j = s.mem q j := by
  simp [State.write, hj]

@[simp] lemma State.write_write {entry' : BitVec 64} :
    (s.write q i entry').write q i entry = s.write q i entry := by
  simp [State.write]

namespace Services

@[simp] lemma rep_empty : S.Rep mem k entry .empty ↔ getEntryKind entry (4 - k) = .invalid := by
  simp [Rep]

@[simp] lemma rep_leaf {m : Mapping} : S.Rep mem k entry (.leaf m) ↔
    ∃ pa, entry = encodeNewEntry S.kind pa (4 - k) m.attr ∧ frameOf pa = m.frame := by
  simp [Rep]

@[simp] lemma rep_table : S.Rep mem (k + 1) entry (.table q sub) ↔
    getEntryKind entry (4 - (k + 1)) = .table ∧ S.resolvePa (getTablePaFromEntry entry) = q ∧
      q ≠ 0 ∧ ∀ i < 512, S.Rep mem k (mem q i) (sub i) := by
  simp [Rep]

/-- A tree depends on the words of its own tables only. -/
lemma Rep.congr (hrep : S.Rep mem k entry e) (hmem : ∀ a ∈ e.pages 512, mem' a = mem a) :
    S.Rep mem' k entry e := by
  induction e generalizing k entry with
  | empty => exact rep_empty.mpr (rep_empty.mp hrep)
  | leaf m => exact rep_leaf.mpr (rep_leaf.mp hrep)
  | table q sub ih =>
    cases k with
    | zero => exact absurd hrep (by simp [Rep])
    | succ k =>
      obtain ⟨hkind, hq, hne, hsub⟩ := rep_table.mp hrep
      rw [Node.pages_table] at hmem
      refine rep_table.mpr ⟨hkind, hq, hne, fun i hi => ?_⟩
      rw [hmem q (Set.mem_insert _ _)]
      refine ih i (hsub i hi) fun a ha => hmem a (Set.mem_insert_of_mem _ ⟨i, hi, ha⟩)

lemma rep_invalid : S.Rep mem k 0 .empty := by
  simp [getEntryKind]

/-- The pages below the other entries of a table. -/
def others (t : Table) (i : ℕ) : Set VirtualPA := {a | ∃ j < 512, j ≠ i ∧ a ∈ (t j).pages 512}

lemma others_subset : others t i ⊆ t.pages 512 := by
  rintro a ⟨j, hj, -, ha⟩
  exact ⟨j, hj, ha⟩

lemma not_mem_others (hsep : t.Sep 512) (hi : i < 512) {a : VirtualPA}
    (ha : a ∈ (t i).pages 512) : a ∉ others t i := by
  rintro ⟨j, hj, hji, haj⟩
  exact Set.disjoint_left.mp (hsep.2 j hj i hi hji) haj ha

namespace Owns

/-- The pages of the other entries are in use. -/
lemma not_root (hx : S.Owns F mem₀ q k s x) : S.pgd ∉ x.1.pages 512 := by
  rcases hx.root with hroot | hroot
  · exact hroot ▸ hx.self
  · exact Set.disjoint_left.mp hx.disjoint hroot

/-- Write an entry that has no table below it. -/
lemma write (hx : S.Owns F mem₀ q k s (t, h)) (hi : i < 512)
    (he : ∀ mem, S.Rep mem k entry e) (hp : e.pages 512 = ∅) (hs : e.Sep 512) :
    S.Owns F mem₀ q k (s.write q i entry) (Function.update t i e, h) := by
  have hpages : Entries.pages 512 (Function.update t i e) ⊆ t.pages 512 := by
    intro a ha
    rw [Entries.mem_pages_update hi, hp] at ha
    rcases ha with ha | ⟨j, hj, -, ha⟩
    · exact absurd ha (Set.notMem_empty a)
    · exact ⟨j, hj, ha⟩
  refine ⟨hx.history, ?_, ?_, fun hq => hx.self (hpages hq), hpages.trans hx.used, ?_,
    hx.self_frame, hx.disjoint.mono_right hpages, hx.known, hx.root⟩
  · intro j hj
    by_cases hji : j = i
    · subst hji
      simp only [State.write_mem_same, Function.update_self]
      exact he _
    · simp only [State.write_mem_of_ne_index hji, Function.update_of_ne hji]
      refine (hx.rep j hj).congr fun a ha => State.write_mem_of_ne ?_
      rintro rfl
      exact hx.self ⟨j, hj, ha⟩
  · refine Entries.sep_update hx.sep hs fun j _ _ => ?_
    rw [hp]
    exact Set.disjoint_empty _
  · intro a ha
    have haq : a ≠ q := by
      rintro rfl
      exact hx.self_frame ha
    rw [State.write_mem_of_ne haq]
    exact hx.outside a ha

lemma writeEmpty (hx : S.Owns F mem₀ q k s x) (hi : i < 512) :
    S.Owns F mem₀ q k (s.write q i 0) (Function.update x.1 i .empty, x.2) :=
  hx.write hi (fun _ => rep_invalid) Node.pages_empty Node.sep_empty

lemma writeLeaf (hx : S.Owns F mem₀ q k s x) (hi : i < 512) (pa : PhysicalPA)
    (attr : PagesAttributes) :
    S.Owns F mem₀ q k (s.write q i (encodeNewEntry S.kind pa (4 - k) attr))
      (Function.update x.1 i (.leaf ⟨frameOf pa, attr⟩), x.2) :=
  hx.write hi (fun _ => rep_leaf.mpr ⟨pa, rfl, rfl⟩) Node.pages_leaf Node.sep_leaf

/-- The frame of the sub-table under entry `i`. -/
def innerFrame (F : Set VirtualPA) (q : VirtualPA) (t : Table) (i : ℕ) : Set VirtualPA :=
  insert q (F ∪ others t i)

lemma known_innerFrame (hx : S.Owns F mem₀ q k s (t, h)) :
    ∀ a ∈ innerFrame F q t i, a = S.pgd ∨ a ∈ live h := by
  rintro a (rfl | ha | ha)
  · exact hx.known _ (Set.mem_insert _ _)
  · exact hx.known _ (Set.mem_insert_of_mem _ ha)
  · exact .inr (hx.used (others_subset ha))

lemma root_innerFrame (hx : S.Owns F mem₀ q k s (t, h)) : S.pgd ∈ innerFrame F q t i := by
  rcases hx.root with hroot | hroot
  · exact hroot ▸ Set.mem_insert _ _
  · exact Set.mem_insert_of_mem _ (.inl hroot)

/-- The state as seen from a sub-table. -/
lemma enter (hx : S.Owns F mem₀ q (k + 1) s (t, h)) (hi : i < 512) (hti : t i = .table p sub) :
    S.Owns (innerFrame F q t i) s.mem p k s (sub, h) := by
  have hrep : S.Rep s.mem (k + 1) (s.mem q i) (t i) := hx.rep i hi
  have hsep : (t i).Sep 512 := hx.sep.1 i hi
  rw [hti, rep_table] at hrep
  rw [hti, Node.sep_table] at hsep
  have hsub : insert p (Entries.pages 512 sub) ⊆ (t i).pages 512 := by
    rw [hti, Node.pages_table]
  have hpages : insert p (Entries.pages 512 sub) ⊆ t.pages 512 := fun a ha => ⟨i, hi, hsub ha⟩
  have hnot : ∀ a ∈ insert p (Entries.pages 512 sub), a ∉ innerFrame F q t i := by
    rintro a ha (rfl | haF | haO)
    · exact hx.self (hpages ha)
    · exact Set.disjoint_left.mp hx.disjoint haF (hpages ha)
    · exact not_mem_others hx.sep hi (hsub ha) haO
  refine ⟨hx.history, hrep.2.2.2, hsep.2, hsep.1, ?_, fun _ _ => rfl,
    hnot p (Set.mem_insert _ _), ?_, ?_, Set.mem_insert_of_mem _ hx.root_innerFrame⟩
  · exact fun a ha => hx.used (hpages (Set.mem_insert_of_mem _ ha))
  · exact Set.disjoint_left.mpr fun a haF ha => hnot a (Set.mem_insert_of_mem _ ha) haF
  · rintro a (rfl | ha)
    · exact .inr (hx.used (hpages (Set.mem_insert _ _)))
    · exact hx.known_innerFrame a ha

/-- The state as seen from a table that was just obtained. -/
lemma enter_new (hx : S.Owns F mem₀ q (k + 1) s (t, h)) (hp : S.alloc h = some p)
    (hhist : s'.history = .alloc p :: h) (hzero : s'.mem p = fun _ => 0) :
    S.Owns (innerFrame F q t i) s'.mem p k s' (.empty, .alloc p :: h) := by
  obtain ⟨-, hpgd, hlive⟩ := S.fresh h p hp
  refine ⟨hhist, ?_, Entries.sep_empty, by simp, by simp, fun _ _ => rfl, ?_, by simp, ?_,
    Set.mem_insert_of_mem _ hx.root_innerFrame⟩
  · intro j _
    rw [hzero]
    exact rep_invalid
  · intro hpF
    rcases hx.known_innerFrame p hpF with hroot | hused
    · exact hpgd hroot
    · exact hlive hused
  · rintro a (rfl | ha)
    · exact .inr (by simp)
    · exact (hx.known_innerFrame a ha).imp_right fun ha => Set.mem_insert_of_mem _ ha

/-- Back from a sub-table, when only its entry has changed in the table above. -/
lemma leave (hx : S.Owns F mem₀ q (k + 1) s (t, h)) (hi : i < 512)
    (hsub : S.Owns (innerFrame F q t i) mem p k s' (sub, h'))
    (hmem : ∀ a ∈ F ∪ others t i, mem a = s.mem a) (hq : ∀ j, j ≠ i → mem q j = s.mem q j)
    (hrep : S.Rep s'.mem (k + 1) (mem q i) e)
    (he : e.pages 512 ⊆ insert p (Entries.pages 512 sub)) (hsep : e.Sep 512) :
    S.Owns F mem₀ q (k + 1) s' (Function.update t i e, h') := by
  have hqF : q ∈ innerFrame F q t i := Set.mem_insert _ _
  have hsubset : F ∪ others t i ⊆ innerFrame F q t i := fun a ha => Set.mem_insert_of_mem _ ha
  have hnew : ∀ a ∈ e.pages 512, a ∉ innerFrame F q t i := by
    intro a ha haF
    rcases he ha with rfl | ha
    · exact hsub.self_frame haF
    · exact Set.disjoint_left.mp hsub.disjoint haF ha
  have hused : ∀ a ∈ e.pages 512, a ∈ live h' := by
    intro a ha
    rcases he ha with rfl | ha
    · refine (hsub.known a (Set.mem_insert _ _)).resolve_left ?_
      rintro rfl
      exact hsub.self_frame hx.root_innerFrame
    · exact hsub.used ha
  have hpages : ∀ a ∈ Entries.pages 512 (Function.update t i e),
      a ∈ e.pages 512 ∨ a ∈ others t i := fun a ha => (Entries.mem_pages_update hi).mp ha
  refine ⟨hsub.history, ?_, ?_, ?_, ?_, ?_, hx.self_frame, ?_, ?_, hx.root⟩
  · intro j hj
    rw [hsub.outside q hqF]
    by_cases hji : j = i
    · subst hji
      simp only [Function.update_self]
      exact hrep
    · simp only [Function.update_of_ne hji, hq j hji]
      refine (hx.rep j hj).congr fun a ha => ?_
      have haO : a ∈ F ∪ others t i := .inr ⟨j, hj, hji, ha⟩
      rw [hsub.outside a (hsubset haO), hmem a haO]
  · refine Entries.sep_update hx.sep hsep fun j hj hji => ?_
    rw [Set.disjoint_right]
    exact fun a ha haj => hnew a ha (hsubset (.inr ⟨j, hj, hji, haj⟩))
  · intro hqp
    rcases hpages q hqp with hqp | hqp
    · exact hnew q hqp hqF
    · exact hx.self (others_subset hqp)
  · intro a ha
    rcases hpages a ha with ha | ha
    · exact hused a ha
    · refine (hsub.known a (Set.mem_insert_of_mem _ (hsubset (.inr ha)))).resolve_left ?_
      rintro rfl
      exact hx.not_root (others_subset ha)
  · intro a ha
    rw [hsub.outside a (hsubset (.inl ha)), hmem a (.inl ha), hx.outside a ha]
  · rw [Set.disjoint_left]
    intro a haF ha
    rcases hpages a ha with ha | ha
    · exact hnew a ha (hsubset (.inl haF))
    · exact Set.disjoint_left.mp hx.disjoint haF (others_subset ha)
  · rintro a (rfl | ha)
    · exact hsub.known a (Set.mem_insert_of_mem _ hqF)
    · exact hsub.known a (Set.mem_insert_of_mem _ (hsubset (.inl ha)))

/-- Give back a page that holds none of the tables at hand. -/
lemma release (hx : S.Owns F mem₀ q k s x) (hp : p ∉ x.1.pages 512) (hpF : p ∉ insert q F) :
    S.Owns F mem₀ q k (s.release p) (x.1, .free p :: x.2) := by
  refine ⟨congrArg (AllocEvent.free p :: ·) hx.history, hx.rep, hx.sep, hx.self, ?_, hx.outside,
    hx.self_frame, hx.disjoint, ?_, hx.root⟩
  · intro a ha
    refine ⟨hx.used ha, ?_⟩
    rintro rfl
    exact hp ha
  · intro a ha
    refine (hx.known a ha).imp_right fun hal => ⟨hal, ?_⟩
    rintro rfl
    exact hpF ha

/-- Write a table of the frame. -/
lemma write_frame {a : VirtualPA} (hx : S.Owns F mem₀ q k s x) (ha : a ∈ F) :
    S.Owns F (s.write a i entry).mem q k (s.write a i entry) x := by
  have hqa : q ≠ a := by
    rintro rfl
    exact hx.self_frame ha
  refine ⟨hx.history, ?_, hx.sep, hx.self, hx.used, fun _ _ => rfl, hx.self_frame, hx.disjoint,
    hx.known, hx.root⟩
  intro j hj
  rw [State.write_mem_of_ne hqa]
  refine (hx.rep j hj).congr fun c hc => State.write_mem_of_ne ?_
  rintro rfl
  exact Set.disjoint_left.mp hx.disjoint ha ⟨j, hj, hc⟩

/-- Give back a table and clear its entry. -/
lemma drop (hx : S.Owns F mem₀ q (k + 1) s (t, h)) (hi : i < 512) (hti : t i = .table p sub) :
    S.Owns F mem₀ q (k + 1) ((s.release p).write q i 0)
      (Function.update t i .empty, .free p :: h) := by
  have hpi : p ∈ (t i).pages 512 := by
    rw [hti, Node.pages_table]
    exact Set.mem_insert _ _
  have hpt : p ∈ t.pages 512 := ⟨i, hi, hpi⟩
  refine (hx.writeEmpty hi).release ?_ ?_
  · intro hp
    rw [Entries.mem_pages_update hi, Node.pages_empty] at hp
    exact not_mem_others hx.sep hi hpi (hp.resolve_left (Set.notMem_empty p))
  · rintro (rfl | hpF)
    · exact hx.self hpt
    · exact Set.disjoint_left.mp hx.disjoint hpF hpt

/-! ### Working in a sub-table -/

/-- Enter the sub-table under entry `i`, and come back with what was left in it. -/
lemma subTable (hx : S.Owns F mem₀ q (k + 1) s (t, h)) (hi : i < 512)
    (hti : t i = .table p sub) :
    ∃ F' mem', S.Owns F' mem' p k s (sub, h) ∧ ∀ s' y, S.Owns F' mem' p k s' y →
      S.Owns F mem₀ q (k + 1) s' (Function.update t i (.table p y.1), y.2) := by
  have hrep : S.Rep s.mem (k + 1) (s.mem q i) (t i) := hx.rep i hi
  rw [hti, rep_table] at hrep
  refine ⟨_, _, hx.enter hi hti, fun s' y hy => ?_⟩
  refine hx.leave hi hy (fun _ _ => rfl) (fun _ _ => rfl) ?_ Node.pages_table.subset
    (Node.sep_table.mpr ⟨hy.self, hy.sep⟩)
  exact rep_table.mpr ⟨hrep.1, hrep.2.1, hrep.2.2.1, hy.rep⟩

/-- Clear entry `i`, enter the sub-table that it was for, and come back to give this one back. -/
lemma abandon (hx : S.Owns F mem₀ q (k + 1) s (t, h)) (hi : i < 512) (hti : t i = .table p sub) :
    ∃ F' mem', S.Owns F' mem' p k (s.write q i 0) (sub, h) ∧ ∀ s' y, S.Owns F' mem' p k s' y →
      S.Owns F mem₀ q (k + 1) (s'.release p) (Function.update t i .empty, .free p :: y.2) := by
  have hqF : q ∈ innerFrame F q t i := Set.mem_insert _ _
  refine ⟨_, _, (hx.enter hi hti).write_frame hqF, fun s' y hy => ?_⟩
  have hback : S.Owns F mem₀ q (k + 1) s' (Function.update t i .empty, y.2) := by
    refine hx.leave hi hy ?_ ?_ ?_ ?_ Node.sep_empty
    · intro a ha
      refine State.write_mem_of_ne ?_
      rintro rfl
      rcases ha with ha | ha
      · exact hx.self_frame ha
      · exact hx.self (others_subset ha)
    · exact fun j hj => State.write_mem_of_ne_index hj
    · rw [State.write_mem_same]
      exact rep_invalid
    · rw [Node.pages_empty]
      exact Set.empty_subset _
  refine hback.release ?_ ?_
  · intro hp
    rw [Entries.mem_pages_update hi, Node.pages_empty] at hp
    have hpO : p ∈ others t i := hp.resolve_left (Set.notMem_empty p)
    exact hy.self_frame (Set.mem_insert_of_mem _ (.inr hpO))
  · rintro (rfl | hpF)
    · exact hy.self_frame hqF
    · exact hy.self_frame (Set.mem_insert_of_mem _ (.inl hpF))

/-- Enter a table that was just obtained and written at index `i`, and come back. -/
lemma newTable {s₀ : State} (hx : S.Owns F mem₀ q (k + 1) s (t, h)) (hi : i < 512) (hk : k ≤ 2)
    (hp : S.alloc h = some p) (hs₀ : s₀ = s ∨ s₀ = s.write q i 0) :
    ∃ F' mem', S.Owns F' mem' p k ((s₀.obtain p).write q i (S.resolveVa p ||| tableMarker))
        (.empty, .alloc p :: h) ∧
      ∀ s' y, S.Owns F' mem' p k s' y →
        S.Owns F mem₀ q (k + 1) s' (Function.update t i (.table p y.1), y.2) := by
  obtain ⟨hne, hpgd, hlive⟩ := S.fresh h p hp
  have hknown : ∀ a ∈ insert q F, a ≠ p := by
    rintro a ha rfl
    exact (hx.known a ha).elim hpgd hlive
  have hqp : q ≠ p := hknown q (Set.mem_insert _ _)
  -- what the state before the allocation shares with `s`
  have hhist : s₀.history = h := by
    rcases hs₀ with rfl | rfl <;> exact hx.history
  have hmem : ∀ a, a ≠ q → s₀.mem a = s.mem a := by
    intro a ha
    rcases hs₀ with rfl | rfl
    · rfl
    · exact State.write_mem_of_ne ha
  have hq : ∀ j, j ≠ i → s₀.mem q j = s.mem q j := by
    intro j hj
    rcases hs₀ with rfl | rfl
    · rfl
    · exact State.write_mem_of_ne_index hj
  have hobtain : ∀ a, a ≠ p → (s₀.obtain p).mem a = s₀.mem a := fun a ha =>
    Function.update_of_ne ha _ _
  have hlevel : 4 - (k + 1) ≠ 4 := by omega
  obtain ⟨hkind, hpa⟩ := tableMarker_or (S.fits h p hp) hlevel
  have hzero : ((s₀.obtain p).write q i (S.resolveVa p ||| tableMarker)).mem p = fun _ => 0 := by
    rw [State.write_mem_of_ne hqp.symm]
    exact Function.update_self _ _ _
  have henter := hx.enter_new (i := i) hp (congrArg (AllocEvent.alloc p :: ·) hhist) hzero
  refine ⟨_, _, henter, fun s' y hy => ?_⟩
  refine hx.leave hi hy ?_ ?_ (rep_table.mpr ⟨?_, ?_, hne, hy.rep⟩) Node.pages_table.subset
    (Node.sep_table.mpr ⟨hy.self, hy.sep⟩)
  · intro a ha
    have haq : a ≠ q := by
      rintro rfl
      rcases ha with ha | ha
      · exact hx.self_frame ha
      · exact hx.self (others_subset ha)
    have hap : a ≠ p := by
      rintro rfl
      exact henter.self_frame (Set.mem_insert_of_mem _ ha)
    rw [State.write_mem_of_ne haq, hobtain a hap, hmem a haq]
  · intro j hj
    rw [State.write_mem_of_ne_index hj, hobtain q hqp, hq j hj]
  · rw [State.write_mem_same]
    exact hkind
  · rw [State.write_mem_same, hpa]
    exact S.resolve h p hp

end Owns

end Services

end PiKachulm.Mmu

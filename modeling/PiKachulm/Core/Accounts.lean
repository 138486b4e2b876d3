import PiKachulm.Core.History
import PiKachulm.Core.Loop
import PiKachulm.Core.Radix

/-!
# Trees that account for an allocator's pages

`Accounts L e h` says that after the calls `h` the pages in use are those of the tree `e` and those
of `L`, each used once. Operations that keep this for every `L` neither lose a page nor free one
that is still in the tree.
-/

namespace PiKachulm.Core

variable {P V : Type*} {b i : ℕ} {L : Set P} {q : P} {v : V} {e e' : Node P V} {t sub : Entries P V}
  {h h' : History P}

/-- The pages in use are those of `e` and of `L`. -/
structure Node.Accounts (b : ℕ) (L : Set P) (e : Node P V) (h : History P) : Prop where
  live : live h = L ∪ e.pages b
  disjoint : Disjoint L (e.pages b)
  sep : e.Sep b
  disciplined : Disciplined h

/-- The pages in use are those of the tables below `t` and of `L`. -/
structure Entries.Accounts (b : ℕ) (L : Set P) (t : Entries P V) (h : History P) : Prop where
  live : Core.live h = L ∪ t.pages b
  disjoint : Disjoint L (t.pages b)
  sep : t.Sep b
  disciplined : Disciplined h

/-- The page of a table is in use on behalf of the table above. -/
lemma Node.accounts_table :
    (Node.table q t).Accounts b L h ↔ q ∉ L ∧ t.Accounts b (insert q L) h := by
  constructor
  · rintro ⟨hlive, hdisj, hsep, hd⟩
    rw [pages_table] at hlive hdisj
    rw [sep_table] at hsep
    obtain ⟨hq, hdisj⟩ := Set.disjoint_insert_right.mp hdisj
    refine ⟨hq, ?_, Set.disjoint_insert_left.mpr ⟨hsep.1, hdisj⟩, hsep.2, hd⟩
    rw [hlive, Set.insert_union, Set.union_insert]
  · rintro ⟨hq, hlive, hdisj, hsep, hd⟩
    obtain ⟨hqt, hdisj⟩ := Set.disjoint_insert_left.mp hdisj
    refine ⟨?_, ?_, sep_table.mpr ⟨hqt, hsep⟩, hd⟩
    · rw [hlive, pages_table, Set.insert_union, Set.union_insert]
    · rw [pages_table]
      exact Set.disjoint_insert_right.mpr ⟨hq, hdisj⟩

/-- Only its pages matter in a tree. -/
lemma Node.Accounts.congr (ha : e.Accounts b L h) (hp : e'.pages b = e.pages b) (hs : e'.Sep b) :
    e'.Accounts b L h := by
  refine ⟨?_, ?_, hs, ha.disciplined⟩
  · rw [hp]
    exact ha.live
  · rw [hp]
    exact ha.disjoint

lemma Node.Accounts.to_leaf (ha : e.Accounts b L h) (hp : e.pages b = ∅) :
    (Node.leaf v : Node P V).Accounts b L h :=
  ha.congr (Node.pages_leaf.trans hp.symm) Node.sep_leaf

lemma Node.Accounts.to_empty (ha : e.Accounts b L h) (hp : e.pages b = ∅) :
    (Node.empty : Node P V).Accounts b L h :=
  ha.congr (Node.pages_empty.trans hp.symm) Node.sep_empty

/-- A page that is obtained can be used for a table. -/
lemma Node.Accounts.alloc (ha : e.Accounts b L h) (hp : e.pages b = ∅) (hq : q ∉ Core.live h) :
    q ∉ L ∧ (Entries.empty : Entries P V).Accounts b (insert q L) (.alloc q :: h) := by
  have hL : Core.live h = L := by rw [ha.live, hp, Set.union_empty]
  refine ⟨hL ▸ hq, ?_, by simp, Entries.sep_empty, hq, ha.disciplined⟩
  rw [live_alloc, hL, Entries.pages_empty, Set.union_empty]

/-- The page of a table without sub-tables can be given back. -/
lemma Entries.Accounts.free (ha : t.Accounts b (insert q L) h) (hq : q ∉ L) (hp : t.pages b = ∅) :
    (Node.empty : Node P V).Accounts b L (.free q :: h) := by
  have hlive : Core.live h = insert q L := by rw [ha.live, hp, Set.union_empty]
  refine ⟨?_, by simp, Node.sep_empty, ?_, ha.disciplined⟩
  · rw [live_free, hlive, Node.pages_empty, Set.union_empty]
    exact Set.insert_sdiff_self_of_notMem hq
  · rw [hlive]
    exact Set.mem_insert q L

/-! ### Rewriting one entry -/

/-- The pages below the other entries of a table. -/
def Entries.otherPages (b : ℕ) (t : Entries P V) (i : ℕ) : Set P :=
  {p | ∃ j < b, j ≠ i ∧ p ∈ (t j).pages b}

lemma Entries.pages_eq_union (hi : i < b) : t.pages b = t.otherPages b i ∪ (t i).pages b := by
  ext p
  constructor
  · rintro ⟨j, hj, hp⟩
    by_cases hji : j = i
    · exact .inr (hji ▸ hp)
    · exact .inl ⟨j, hj, hji, hp⟩
  · rintro (⟨j, hj, -, hp⟩ | hp)
    · exact ⟨j, hj, hp⟩
    · exact ⟨i, hi, hp⟩

lemma Entries.otherPages_update :
    Entries.otherPages b (Function.update t i e) i = t.otherPages b i := by
  ext p
  refine exists_congr fun j => and_congr_right fun _ => and_congr_right fun hji => ?_
  rw [Function.update_of_ne hji]

/-- An entry accounts for its pages, with the other entries among the rest. -/
lemma Entries.Accounts.entry (ha : t.Accounts b L h) (hi : i < b) :
    (t i).Accounts b (L ∪ t.otherPages b i) h := by
  have hdisj := ha.disjoint
  rw [pages_eq_union hi, Set.disjoint_union_right] at hdisj
  refine ⟨?_, ?_, ha.sep.1 i hi, ha.disciplined⟩
  · rw [ha.live, pages_eq_union hi, Set.union_assoc]
  · refine Set.disjoint_union_left.mpr ⟨hdisj.2, Set.disjoint_left.mpr ?_⟩
    rintro p ⟨j, hj, hji, hpj⟩ hpi
    exact Set.disjoint_left.mp (ha.sep.2 j hj i hi hji) hpj hpi

lemma Entries.Accounts.update (ha : t.Accounts b L h) (hi : i < b)
    (he : e.Accounts b (L ∪ t.otherPages b i) h') :
    Entries.Accounts b L (Function.update t i e) h' := by
  have hpages : Entries.pages b (Function.update t i e) = t.otherPages b i ∪ e.pages b := by
    rw [pages_eq_union hi, otherPages_update, Function.update_self]
  obtain ⟨hLe, hOe⟩ := Set.disjoint_union_left.mp he.disjoint
  have hLO : Disjoint L (t.otherPages b i) :=
    ha.disjoint.mono_right ((pages_eq_union hi).symm ▸ Set.subset_union_left)
  refine ⟨?_, ?_, Entries.sep_update ha.sep he.sep fun j hj hji => ?_, he.disciplined⟩
  · rw [he.live, hpages, Set.union_assoc]
  · rw [hpages]
    exact Set.disjoint_union_right.mpr ⟨hLO, hLe⟩
  · have hsub : (t j).pages b ⊆ t.otherPages b i := fun p hp => ⟨j, hj, hji, hp⟩
    exact hOe.mono_left hsub

/-- A loop over entries keeps the account when each iteration does. -/
lemma updateCells_accounts {op : ℕ → Node P V × History P → Option (Node P V × History P)}
    {l : List ℕ} {x y : Entries P V × History P} (hl : l.Nodup) (hlt : ∀ i ∈ l, i < b)
    (hop : updateCells op l x = some y) (ha : Entries.Accounts b L x.1 x.2)
    (hstep : ∀ i ∈ l, ∀ L c e' c', (x.1 i).Accounts b L c → op i (x.1 i, c) = some (e', c') →
      e'.Accounts b L c') : Entries.Accounts b L y.1 y.2 := by
  refine updateCells_induct (fun t c => Entries.Accounts b L t c) hl hop ha ?_
  intro i hi t c e' c' hac heq hopi
  have hentry := hac.entry (hlt i hi)
  rw [heq] at hentry hopi
  exact hac.update (hlt i hi) (hstep i hi _ c e' c' hentry hopi)

end PiKachulm.Core

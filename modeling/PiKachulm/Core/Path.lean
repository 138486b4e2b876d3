import PiKachulm.Core.Radix

/-!
# Paths in radix trees

A path is a list of indices, from the topmost table down. `tableAt` follows one through the tables
of a tree; in a tree that uses no page twice, a table is found at the end of one path only.
-/

namespace PiKachulm.Core

variable {P V : Type*} {b k h j p d i : ℕ} {q q' : P} {v : V} {t sub : Entries P V} {path : List ℕ}

/-- The page and the entries of the table that `path` leads to. -/
def tableAt : P × Entries P V → List ℕ → Option (P × Entries P V)
  | x, []        => some x
  | x, i :: path =>
    match x.2 i with
    | .table q sub => tableAt (q, sub) path
    | _            => none

@[simp] lemma tableAt_nil (x : P × Entries P V) : tableAt x [] = some x := rfl

@[simp] lemma tableAt_of_table (ht : t i = .table q' sub) :
    tableAt (q, t) (i :: path) = tableAt (q', sub) path := by
  simp [tableAt, ht]

lemma tableAt_cons_eq_some {x : P × Entries P V} :
    tableAt (q, t) (i :: path) = some x ↔
      ∃ q' sub, t i = .table q' sub ∧ tableAt (q', sub) path = some x := by
  cases hti : t i <;> simp [tableAt, hti]

@[simp] lemma tableAt_of_empty (ht : t i = .empty) : tableAt (q, t) (i :: path) = none := by
  simp [tableAt, ht]

@[simp] lemma tableAt_of_leaf (ht : t i = .leaf v) : tableAt (q, t) (i :: path) = none := by
  simp [tableAt, ht]

/-- The path that a lookup of `p` follows through `d` tables, the first of height `k`. -/
def pathTo (b p : ℕ) : (k d : ℕ) → List ℕ
  | _, 0     => []
  | k, d + 1 => (slot b k p % b) :: pathTo b p (k - 1) d

@[simp] lemma pathTo_zero : pathTo b p k 0 = [] := by simp [pathTo]

lemma pathTo_succ : pathTo b p k (d + 1) = (slot b k p % b) :: pathTo b p (k - 1) d := rfl

@[simp] lemma length_pathTo : (pathTo b p k d).length = d := by
  induction d generalizing k with
  | zero => simp
  | succ d ih => rw [pathTo_succ, List.length_cons, ih]

lemma mem_pathTo [NeZero b] (hi : i ∈ pathTo b p k d) : i < b := by
  induction d generalizing k with
  | zero => simp at hi
  | succ d ih =>
    rcases List.mem_cons.mp hi with rfl | hi
    · exact Nat.mod_lt _ (NeZero.pos b)
    · exact ih hi

/-! ### The pages of a tree -/

lemma Node.mem_pages_table_iff {x : P} :
    x ∈ (Node.table q sub).pages b ↔ x = q ∨ x ∈ sub.pages b := by
  rw [Node.pages_table, Set.mem_insert_iff]

/-- The pages of a tree are those that a path leads to. -/
lemma Node.mem_pages_iff {e : Node P V} {x : P} : x ∈ e.pages b ↔ ∃ q sub, e = .table q sub ∧
    ∃ path, (∀ i ∈ path, i < b) ∧ ∃ sub', tableAt (q, sub) path = some (x, sub') := by
  induction e with
  | empty => simp
  | leaf v => simp
  | table q sub ih =>
    rw [mem_pages_table_iff]
    constructor
    · rintro (rfl | ⟨i, hi, hx⟩)
      · exact ⟨x, sub, rfl, [], by simp, sub, rfl⟩
      · obtain ⟨q', sub', hsub, path, hpath, hat⟩ := (ih i).mp hx
        refine ⟨q, sub, rfl, i :: path, List.forall_mem_cons.mpr ⟨hi, hpath⟩, ?_⟩
        rw [tableAt_of_table hsub]
        exact hat
    · rintro ⟨_, _, heq, path, hpath, sub', hat⟩
      cases heq
      cases path with
      | nil =>
        cases hat
        exact .inl rfl
      | cons i path =>
        obtain ⟨hi, hpath⟩ := List.forall_mem_cons.mp hpath
        obtain ⟨q', sub₁, hsub, hat⟩ := tableAt_cons_eq_some.mp hat
        exact .inr ⟨i, hi, (ih i).mpr ⟨q', sub₁, hsub, path, hpath, sub', hat⟩⟩

lemma Entries.mem_pages_iff {x : P} (q : P) : x ∈ t.pages b ↔ ∃ path, path ≠ [] ∧
    (∀ i ∈ path, i < b) ∧ ∃ sub, tableAt (q, t) path = some (x, sub) := by
  constructor
  · rintro ⟨i, hi, hx⟩
    obtain ⟨q', sub, hti, path, hpath, hat⟩ := Node.mem_pages_iff.mp hx
    refine ⟨i :: path, by simp, List.forall_mem_cons.mpr ⟨hi, hpath⟩, ?_⟩
    rw [tableAt_of_table hti]
    exact hat
  · rintro ⟨path, hne, hpath, sub, hat⟩
    cases path with
    | nil => exact absurd rfl hne
    | cons i path =>
      obtain ⟨hi, hpath⟩ := List.forall_mem_cons.mp hpath
      obtain ⟨q', sub', hti, hat⟩ := tableAt_cons_eq_some.mp hat
      exact ⟨i, hi, Node.mem_pages_iff.mpr ⟨q', sub', hti, path, hpath, sub, hat⟩⟩

/-- No table is found at the end of two paths. -/
lemma tableAt_injective {path' : List ℕ} {x : P} {sub' : Entries P V} (hsep : t.Sep b)
    (hq : q ∉ t.pages b) (hpath : ∀ i ∈ path, i < b) (hpath' : ∀ i ∈ path', i < b)
    (h₁ : tableAt (q, t) path = some (x, sub)) (h₂ : tableAt (q, t) path' = some (x, sub')) :
    path = path' := by
  induction path generalizing q t path' with
  | nil =>
    obtain ⟨rfl, rfl⟩ : q = x ∧ t = sub := by simpa using h₁
    by_contra hne
    exact hq ((Entries.mem_pages_iff q).mpr ⟨path', Ne.symm hne, hpath', sub', h₂⟩)
  | cons i path ih =>
    cases path' with
    | nil =>
      obtain ⟨rfl, rfl⟩ : q = x ∧ t = sub' := by simpa using h₂
      exact absurd ((Entries.mem_pages_iff q).mpr ⟨i :: path, by simp, hpath, sub, h₁⟩) hq
    | cons j path' =>
      obtain ⟨hi, hrest⟩ := List.forall_mem_cons.mp hpath
      obtain ⟨hj, hrest'⟩ := List.forall_mem_cons.mp hpath'
      obtain ⟨q₁, sub₁, hti, hat₁⟩ := tableAt_cons_eq_some.mp h₁
      obtain ⟨q₂, sub₂, htj, hat₂⟩ := tableAt_cons_eq_some.mp h₂
      have hij : i = j := by
        by_contra hne
        have hxi : x ∈ (t i).pages b :=
          Node.mem_pages_iff.mpr ⟨q₁, sub₁, hti, path, hrest, sub, hat₁⟩
        have hxj : x ∈ (t j).pages b :=
          Node.mem_pages_iff.mpr ⟨q₂, sub₂, htj, path', hrest', sub', hat₂⟩
        exact Set.disjoint_left.mp (hsep.2 i hi j hj hne) hxi hxj
      subst hij
      rw [hti] at htj
      cases htj
      have hsep' : (t i).Sep b := hsep.1 i hi
      rw [hti, Node.sep_table] at hsep'
      rw [ih hsep'.2 hsep'.1 hrest hrest' hat₁ hat₂]

/-! ### Tables and leaves -/

/-- The table at the end of a path in a well-formed tree is well formed. -/
lemma tableAt_wf {ok : ℕ → V → Prop} {x : P × Entries P V} (hw : t.Wf b ok k)
    (hpath : ∀ i ∈ path, i < b) (hat : tableAt (q, t) path = some x) :
    path.length ≤ k ∧ x.2.Wf b ok (k - path.length) := by
  induction path generalizing k q t with
  | nil =>
    cases hat
    exact ⟨Nat.zero_le k, hw⟩
  | cons i path ih =>
    obtain ⟨hi, hrest⟩ := List.forall_mem_cons.mp hpath
    obtain ⟨q', sub, hti, hat⟩ := tableAt_cons_eq_some.mp hat
    have hwi := hw i hi
    rw [hti] at hwi
    cases k with
    | zero => exact absurd hwi (by simp [Node.Wf])
    | succ k =>
      obtain ⟨hle, hwx⟩ := ih (Node.wf_table.mp hwi) hrest hat
      rw [List.length_cons, Nat.add_sub_add_right]
      exact ⟨Nat.succ_le_succ hle, hwx⟩

/-- Where a leaf is found there is no table. -/
lemma tableAt_eq_none_of_find (hf : t.find b k p = some (h, v)) :
    tableAt (q, t) (pathTo b p k (k - h + 1)) = none := by
  induction k generalizing q t with
  | zero =>
    rw [Entries.find] at hf
    rw [Nat.zero_sub, pathTo_succ]
    cases ht : t (slot b 0 p % b) with
    | empty => exact tableAt_of_empty ht
    | leaf w => exact tableAt_of_leaf ht
    | table q' sub =>
      rw [ht] at hf
      simp [Node.find] at hf
  | succ k ih =>
    rw [Entries.find] at hf
    cases ht : t (slot b (k + 1) p % b) with
    | empty => simp [ht] at hf
    | leaf w => exact tableAt_of_leaf ht
    | table q' sub =>
      rw [ht, Node.find_table] at hf
      have hle : h ≤ k := Entries.find_height_le hf
      rw [pathTo_succ, tableAt_of_table ht, Nat.add_sub_cancel, Nat.sub_add_comm hle]
      exact ih hf

end PiKachulm.Core

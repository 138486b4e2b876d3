import PiKachulm.Core.Path
import PiKachulm.Mmu.View

/-!
# Runs of the operations

An `MmuCall` is a call that changes the tables, and `Reaches` a run of such calls. Each call that
returns leaves the state as it is or does to its tree what `MmuCall.onTree` says; `Reaches.invariant`
is the rule for what holds in every state of a run.
-/

namespace PiKachulm.Mmu

open Libk Core

/-! ### Walking down in memory -/

/-- The sub-table that a path of indices leads to from a table of level `level`. -/
def subTableAt (tbl : MMUTable) (s : State) : ℕ → VirtualPA → List ℕ → Option VirtualPA
  | _, table, [] => some table
  | level, table, index :: path =>
    let entry := s.mem table index
    if getEntryKind entry level = .table then do
      let subTable ← tbl.callResolvePa (getTablePaFromEntry entry)
      subTableAt tbl s (level + 1) subTable path
    else none

/-! ### Calls -/

lemma not_pure_true {f : Option State} {s' : State} :
    (do let s ← f; pure (true, s)) ≠ some (false, s') := by
  cases f <;> simp

section Refused

variable {tbl : MMUTable} {vaStart vaEnd : VirtualPA} {paStart : PhysicalPA}
  {attr : PagesAttributes} {s s' : State}

/-- A call that returns false has done nothing. -/
lemma mapRange_false (hrun : mapRange (some tbl) vaStart vaEnd paStart attr s = some (false, s')) :
    s' = s := by
  rw [mapRange] at hrun
  split_ifs at hrun
  · cases hrun
    rfl
  · exact absurd hrun not_pure_true

lemma unmapRange_false (hrun : unmapRange (some tbl) vaStart vaEnd s = some (false, s')) :
    s' = s := by
  rw [unmapRange] at hrun
  split_ifs at hrun
  · cases hrun
    rfl
  · exact absurd hrun not_pure_true

lemma changeAttrRange_false
    (hrun : changeAttrRange (some tbl) vaStart vaEnd attr s = some (false, s')) : s' = s := by
  rw [changeAttrRange] at hrun
  split_ifs at hrun
  · cases hrun
    rfl
  · exact absurd hrun not_pure_true

end Refused

inductive MmuCall where
  | mapRange (vaStart vaEnd : VirtualPA) (paStart : PhysicalPA) (attr : PagesAttributes)
  | unmapRange (vaStart vaEnd : VirtualPA)
  | changeAttrRange (vaStart vaEnd : VirtualPA) (attr : PagesAttributes)
  | changeAttrVa (va : VirtualPA) (attr : PagesAttributes)
  deriving DecidableEq, Repr

namespace MmuCall

def run (tbl : MMUTable) : MmuCall → State → Option (Bool × State)
  | mapRange vaStart vaEnd paStart attr, s => Mmu.mapRange (some tbl) vaStart vaEnd paStart attr s
  | unmapRange vaStart vaEnd, s            => Mmu.unmapRange (some tbl) vaStart vaEnd s
  | changeAttrRange vaStart vaEnd attr, s  => Mmu.changeAttrRange (some tbl) vaStart vaEnd attr s
  | changeAttrVa va attr, s                => some (Mmu.changeAttrVa (some tbl) va attr s)

/-- `check_va` accepts the addresses of the call. -/
def Accepted (kind : Kind) : MmuCall → Prop
  | mapRange vaStart vaEnd _ _      => checkVa kind vaStart = true ∧ checkVa kind vaEnd = true
  | unmapRange vaStart vaEnd        => checkVa kind vaStart = true ∧ checkVa kind vaEnd = true
  | changeAttrRange vaStart vaEnd _ => checkVa kind vaStart = true ∧ checkVa kind vaEnd = true
  | changeAttrVa va _               => checkVa kind va = true

/-- What the call does to a tree. -/
def onTree (S : Services) (x : Table × History VirtualPA) :
    MmuCall → Option (Table × History VirtualPA)
  | mapRange vaStart vaEnd paStart attr =>
    mapTable S.alloc 3 (Services.rootSlot S.kind) (Services.pageNumber vaStart)
      (Services.pageNumber vaEnd)
      (displacement (Services.pageNumber paStart) (Services.pageNumber vaStart)) attr x
  | unmapRange vaStart vaEnd =>
    unmapTable S.alloc 3 (Services.rootSlot S.kind) (Services.pageNumber vaStart)
      (Services.pageNumber vaEnd) x
  | changeAttrRange vaStart vaEnd attr =>
    changeTable S.alloc 3 (Services.rootSlot S.kind) (Services.pageNumber vaStart)
      (Services.pageNumber vaEnd) attr x
  | changeAttrVa va attr => some (setAttrInTable attr 3 x.1 (Services.pageNumber va), x.2)

end MmuCall

/-- The states that calls meeting `ok` lead to. -/
inductive Reaches (tbl : MMUTable) (ok : State → MmuCall → Prop) (s : State) : State → Prop
  | refl : Reaches tbl ok s s
  | step {s' s'' : State} {c : MmuCall} {b : Bool} (h : Reaches tbl ok s s') (hok : ok s' c)
      (hrun : c.run tbl s' = some (b, s'')) : Reaches tbl ok s s''

variable {S : Services} {F : Set VirtualPA} {mem₀ : VirtualPA → ℕ → BitVec 64} {q : VirtualPA}
  {k p : ℕ} {s s' s₀ : State} {t : Table} {h : History VirtualPA} {c : MmuCall} {b : Bool}
  {attr : PagesAttributes} {ok : State → MmuCall → Prop}

namespace Services

/-- A `pgd` without valid entries, before any call to the allocator. -/
structure Fresh (S : Services) (s : State) : Prop where
  invalid : ∀ i < 512, getEntryKind (s.mem S.pgd i) 1 = .invalid
  history : s.history = []

lemma Fresh.holds (hs : S.Fresh s) : S.Holds s .empty := by
  refine ⟨⟨rfl, fun i hi => rep_empty.mpr (hs.invalid i hi), Entries.sep_empty, by simp, by simp,
    by simp, by simp, by simp, ?_, Set.mem_insert _ _⟩, Entries.wf_empty⟩
  rintro p (rfl | hp)
  · exact .inl rfl
  · exact absurd hp (Set.notMem_empty p)

lemma fresh_emptyState (S : Services) : S.Fresh emptyState := by
  have hrep : S.Rep (fun _ _ => 0) 3 0 .empty := rep_invalid
  exact ⟨fun _ _ => rep_empty.mp hrep, rfl⟩

/-! ### Walking down a tree in memory -/

/-- What the table at the end of a path has in common with its tree. -/
def IsAt (S : Services) (s : State) (k : ℕ) (q : VirtualPA) (x : VirtualPA × Table) : Prop :=
  x.1 = q ∧ ∀ i < 512, S.Rep s.mem k (s.mem q i) (x.2 i)

lemma subTableAt_rel {path : List ℕ} (hk : k ≤ 3)
    (hrep : ∀ i < 512, S.Rep s.mem k (s.mem q i) (t i)) (hpath : ∀ i ∈ path, i < 512) :
    Option.Rel (S.IsAt s (k - path.length)) (subTableAt S.table s (4 - k) q path)
      (tableAt (q, t) path) := by
  induction path generalizing k q t with
  | nil => exact .some ⟨rfl, hrep⟩
  | cons i path ih =>
    obtain ⟨hi, hpath⟩ := List.forall_mem_cons.mp hpath
    have hrepi := hrep i hi
    rw [subTableAt]
    cases hti : t i with
    | empty =>
      rw [hti, rep_empty] at hrepi
      rw [tableAt_of_empty hti, if_neg (by simp [hrepi])]
      exact .none
    | leaf m =>
      rw [hti, rep_leaf] at hrepi
      obtain ⟨pa, hentry, -⟩ := hrepi
      rw [tableAt_of_leaf hti, if_neg]
      · exact .none
      · rw [hentry, getEntryKind_encodeNewEntry]
        split_ifs <;> simp
    | table q' sub =>
      rw [hti] at hrepi
      cases k with
      | zero => exact absurd hrepi (by simp [Services.Rep])
      | succ k =>
        obtain ⟨hkind, hpa, -, hsub⟩ := rep_table.mp hrepi
        have hlevel : 4 - (k + 1) + 1 = 4 - k := by omega
        rw [tableAt_of_table hti, if_pos hkind, callResolvePa_table, hpa, hlevel,
          List.length_cons, Nat.add_sub_add_right]
        exact ih (by omega) hsub hpath

/-- On a tree, `subTableAt` finds the pages of the tables. -/
lemma Holds.subTableAt_eq {path : List ℕ} (ht : S.Holds s t) (hpath : ∀ i ∈ path, i < 512) :
    subTableAt S.table s 1 S.pgd path = (tableAt (S.pgd, t) path).map Prod.fst := by
  have heq := rel_map_eq (f := id) (g := Prod.fst)
    (subTableAt_rel le_rfl ht.owns.rep hpath) fun q x hx => hx.1.symm
  rwa [Option.map_id] at heq

/-! ### Changing the attributes of one entry -/

lemma Owns.changeAttrVa (attr : PagesAttributes) (hk : k ≤ 3) (hp : p < 2 ^ 52)
    (hx : S.Owns F mem₀ q k s (t, h))
    {table : VirtualPA} {index level : ℕ}
    (hfind : findEntryInTable S.table s (k + 1) q (4 - k) (pageAddr p) =
      some (table, index, level)) :
    S.Owns F mem₀ q k ((s.write table index 0).write table index
      (encodeNewEntry S.kind (decodeEntry (s.mem table index)).1 level attr))
      (setAttrInTable attr k t p, h) := by
  induction k using Nat.strong_induction_on generalizing F mem₀ q t with
  | _ k ih =>
    have hidx : slot 512 k p % 512 < 512 := Nat.mod_lt _ (by norm_num)
    have hrep : S.Rep s.mem k (s.mem q (slot 512 k p % 512)) (t (slot 512 k p % 512)) :=
      hx.rep _ hidx
    rw [findEntryInTable, getIndexInTable_pageAddr hk hp] at hfind
    cases hti : t (slot 512 k p % 512) with
    | empty =>
      rw [hti, rep_empty] at hrep
      simp [hrep] at hfind
    | leaf m =>
      obtain ⟨pa, hframe, hdecode, hkind⟩ := getEntryKind_of_leaf hx hidx hti
      obtain ⟨rfl, rfl, rfl⟩ : q = table ∧ slot 512 k p % 512 = index ∧ 4 - k = level := by
        split_ifs at hkind <;> simpa [hkind] using hfind
      rw [State.write_write, hdecode, setAttrInTable, hti, setAttr]
      have hwrite := hx.writeLeaf hidx (pa &&& maskBits 12 47) attr
      rw [frameOf_and_mask, hframe] at hwrite
      exact hwrite
    | table q' sub =>
      rw [hti] at hrep
      cases k with
      | zero => exact absurd hrep (by simp [Rep])
      | succ k =>
        obtain ⟨hkind, hpa, hne, -⟩ := rep_table.mp hrep
        have hlevel : 4 - (k + 1) + 1 = 4 - k := by omega
        simp only [hkind, callResolvePa_table, hpa, if_neg hne, hlevel] at hfind
        obtain ⟨F', mem', hsub, hback⟩ := hx.subTable hidx hti
        have hnew := hback _ _ (ih k (Nat.lt_succ_self k) (by omega) hsub hfind)
        rw [setAttrInTable, hti, setAttr]
        exact hnew

lemma setAttr_wf {e : PageTree} (hw : e.Wf 512 LeafOk k) : (setAttr attr k e p).Wf 512 LeafOk k := by
  induction k generalizing e with
  | zero =>
    cases e with
    | empty => simp [setAttr]
    | leaf m => simpa [setAttr, LeafOk] using hw
    | table q sub => exact hw
  | succ k ih =>
    cases e with
    | empty => simp [setAttr]
    | leaf m => simpa [setAttr, LeafOk] using hw
    | table q sub =>
      have hsub := Node.wf_table.mp hw
      rw [setAttr]
      refine Node.wf_table.mpr (Entries.wf_update hsub ?_)
      exact ih (hsub _ (Nat.mod_lt _ (by norm_num)))

lemma setAttrInTable_wf (hw : t.Wf 512 LeafOk k) : (setAttrInTable attr k t p).Wf 512 LeafOk k :=
  Entries.wf_update hw (setAttr_wf (hw _ (Nat.mod_lt _ (by norm_num))))

/-- The call leaves the state alone, or changes the leaf that it finds. -/
lemma Holds.changeAttrVa {va : VirtualPA} (ht : S.Holds s t)
    (hrun : Mmu.changeAttrVa (some S.table) va attr s = (b, s')) :
    s' = s ∨ checkVa S.kind va = true ∧ s'.history = s.history ∧
      S.Holds s' (setAttrInTable attr 3 t (pageNumber va)) := by
  rw [Mmu.changeAttrVa] at hrun
  split_ifs at hrun with hlook
  · have hva : checkVa S.kind va = true := by
      rw [canLookUp] at hlook
      exact (of_decide_eq_true hlook).2.2
    obtain ⟨heq, hslot⟩ := checkVa_iff_page.mp hva
    cases hfind : findEntryInTable S.table s 4 S.table.pgd 1 va with
    | none =>
      rw [hfind] at hrun
      cases hrun
      exact .inl rfl
    | some x =>
      obtain ⟨entryTable, index, level⟩ := x
      simp only [hfind, Prod.mk.injEq] at hrun
      obtain ⟨-, rfl⟩ := hrun
      rw [heq] at hfind
      have hnew := Owns.changeAttrVa attr le_rfl (lt_of_slot_eq hslot) ht.owns hfind
      obtain ⟨ht', hhist⟩ := hnew.to_holds (setAttrInTable_wf ht.wf)
      exact .inr ⟨hva, hhist, ht'⟩
  · cases hrun
    exact .inl rfl

/-! ### What a call does -/

lemma Holds.call (ht : S.Holds s t) (hrun : c.run S.table s = some (b, s')) :
    s' = s ∨ c.Accepted S.kind ∧
      ∃ t', c.onTree S (t, s.history) = some (t', s'.history) ∧ S.Holds s' t' := by
  cases c with
  | mapRange vaStart vaEnd paStart attr =>
    cases b with
    | true =>
      obtain ⟨h₁, h₂, htree⟩ := ht.mapRange hrun
      exact .inr ⟨⟨h₁, h₂⟩, htree⟩
    | false => exact .inl (mapRange_false hrun)
  | unmapRange vaStart vaEnd =>
    cases b with
    | true =>
      obtain ⟨h₁, h₂, htree⟩ := ht.unmapRange hrun
      exact .inr ⟨⟨h₁, h₂⟩, htree⟩
    | false => exact .inl (unmapRange_false hrun)
  | changeAttrRange vaStart vaEnd attr =>
    cases b with
    | true =>
      obtain ⟨h₁, h₂, htree⟩ := ht.changeAttrRange hrun
      exact .inr ⟨⟨h₁, h₂⟩, htree⟩
    | false => exact .inl (changeAttrRange_false hrun)
  | changeAttrVa va attr =>
    rcases ht.changeAttrVa (Option.some.inj hrun) with heq | ⟨hva, hhist, ht'⟩
    · exact .inl heq
    · exact .inr ⟨hva, _, by rw [MmuCall.onTree, hhist], ht'⟩

/-- What holds of the tree of a fresh state, and is kept by every call that meets `ok`, holds of
the tree of every state of a run of such calls. -/
theorem Reaches.invariant (I : Table → History VirtualPA → Prop) (hs : S.Fresh s₀)
    (h0 : I .empty [])
    (hstep : ∀ s t c y, S.Holds s t → I t s.history → ok s c → c.Accepted S.kind →
      c.onTree S (t, s.history) = some y → I y.1 y.2)
    (hreach : Reaches S.table ok s₀ s) : ∃ t, S.Holds s t ∧ I t s.history := by
  induction hreach with
  | refl =>
    refine ⟨.empty, hs.holds, ?_⟩
    rw [hs.history]
    exact h0
  | step _ hok hrun ih =>
    obtain ⟨t, ht, hI⟩ := ih
    rcases ht.call hrun with rfl | ⟨hacc, t', htree, ht'⟩
    · exact ⟨t, ht, hI⟩
    · exact ⟨t', ht', hstep _ _ _ _ ht hI hok hacc htree⟩

end Services

end PiKachulm.Mmu

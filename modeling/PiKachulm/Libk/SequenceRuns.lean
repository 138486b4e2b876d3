import PiKachulm.Libk.Sequence

/-!
# Runs of operations on a linked list

The public operations of `libk::LinkedList`, one after the other on one list, against the operations on
sequences that they stand for.
-/

namespace PiKachulm.Libk

open Core Nodes

variable {T : Type}

/-- An operation, with the address of the node that it allocates. `emplace_back` comes with the element
that it constructs. -/
inductive ListOp (T : Type) where
  | pushFront (node : ℕ) (data : T)
  | pushBack (node : ℕ) (data : T)
  | emplaceBack (node : ℕ) (data : T)
  | insertBefore (it : Iterator) (node : ℕ) (data : T)
  | insertAfter (it : Iterator) (node : ℕ) (data : T)
  | erase (it : Iterator)
  | popFront
  | popBack
  | clear

/-- What an operation returns: nothing, an element, or a reference to the element of a node. -/
inductive Output (T : Type) where
  | nothing
  | value (data : T)
  | reference (node : ℕ)
  deriving DecidableEq

namespace ListOp

/-- What the code does; the fuel is for the loop of `clear`. -/
def run (fuel : ℕ) (s : Nodes T) (l : LinkedList) : ListOp T → Option (Output T × Nodes T × LinkedList)
  | pushFront node data       => (s.pushFront l node data).map fun r => (.nothing, r)
  | pushBack node data        => (s.pushBack l node data).map fun r => (.nothing, r)
  | emplaceBack node data     => (s.pushBack l node data).map fun r => (.reference node, r)
  | insertBefore it node data => do
    let s ← s.new node data
    let a ← it.node
    let r ← s.insertBefore l a node
    return (.nothing, r)
  | insertAfter it node data  => do
    let s ← s.new node data
    let a ← it.node
    let r ← s.insertAfter l a node
    return (.nothing, r)
  | erase it                  => do
    let a ← it.node
    let r ← s.removeNode l a
    return (.nothing, r)
  | popFront                  => (s.popFront l).map fun r => (.value r.1, r.2)
  | popBack                   => (s.popBack l).map fun r => (.value r.1, r.2)
  | clear                     => (s.clear l fuel).map fun r => (.nothing, r)

/-! ### Sequences -/

/-- The element of an iterator gives way to other elements. -/
def replace (it : Iterator) (f : ℕ × T → List (ℕ × T)) (cells : List (ℕ × T)) : List (ℕ × T) :=
  cells.flatMap fun c => if it.node = some c.1 then f c else [c]

/-- The operation on sequences. -/
def apply (cells : List (ℕ × T)) : ListOp T → List (ℕ × T)
  | pushFront node data       => (node, data) :: cells
  | pushBack node data        => cells ++ [(node, data)]
  | emplaceBack node data     => cells ++ [(node, data)]
  | insertBefore it node data => replace it (fun c => [(node, data), c]) cells
  | insertAfter it node data  => replace it (fun c => [c, (node, data)]) cells
  | erase it                  => replace it (fun _ => []) cells
  | popFront                  => cells.tail
  | popBack                   => cells.dropLast
  | clear                     => []

/-- The elements that the operation removes. -/
def removed (cells : List (ℕ × T)) : ListOp T → List (ℕ × T)
  | erase it => cells.filter fun c => it.node = some c.1
  | popFront => cells.head?.toList
  | popBack  => cells.getLast?.toList
  | clear    => cells
  | _        => []

def output (cells : List (ℕ × T)) : ListOp T → Output T
  | emplaceBack node _ => .reference node
  | popFront           => cells.head?.elim .nothing fun c => .value c.2
  | popBack            => cells.getLast?.elim .nothing fun c => .value c.2
  | _                  => .nothing

/-- The iterator is one to an element of the sequence. -/
def Denotes (s : Nodes T) (cells : List (ℕ × T)) (it : Iterator) : Prop :=
  ∃ c ∈ cells, it = s.iterator (some c.1)

/-- What an operation may expect: a new node is where there is none, an iterator is valid and not the end,
and what is popped is there. -/
def Valid (s : Nodes T) (cells : List (ℕ × T)) : ListOp T → Prop
  | pushFront node _       => s.node node = none
  | pushBack node _        => s.node node = none
  | emplaceBack node _     => s.node node = none
  | insertBefore it node _ => s.node node = none ∧ Denotes s cells it
  | insertAfter it node _  => s.node node = none ∧ Denotes s cells it
  | erase it               => Denotes s cells it
  | popFront               => cells ≠ []
  | popBack                => cells ≠ []
  | clear                  => True

instance [DecidableEq T] (s : Nodes T) (cells : List (ℕ × T)) (it : Iterator) :
    Decidable (Denotes s cells it) :=
  inferInstanceAs (Decidable (∃ c ∈ cells, it = s.iterator (some c.1)))

instance [DecidableEq T] (s : Nodes T) (cells : List (ℕ × T)) : (op : ListOp T) → Decidable (op.Valid s cells)
  | pushFront node _       => inferInstanceAs (Decidable (s.node node = none))
  | pushBack node _        => inferInstanceAs (Decidable (s.node node = none))
  | emplaceBack node _     => inferInstanceAs (Decidable (s.node node = none))
  | insertBefore it node _ => inferInstanceAs (Decidable (s.node node = none ∧ Denotes s cells it))
  | insertAfter it node _  => inferInstanceAs (Decidable (s.node node = none ∧ Denotes s cells it))
  | erase it               => inferInstanceAs (Decidable (Denotes s cells it))
  | popFront               => inferInstanceAs (Decidable (cells ≠ []))
  | popBack                => inferInstanceAs (Decidable (cells ≠ []))
  | clear                  => isTrue trivial

/-- The address of the new node. -/
def newNode : ListOp T → Option ℕ
  | pushFront node _       => some node
  | pushBack node _        => some node
  | emplaceBack node _     => some node
  | insertBefore _ node _  => some node
  | insertAfter _ node _   => some node
  | _                      => none

variable {s s' : Nodes T} {l : LinkedList} {cells xs ys : List (ℕ × T)} {c : ℕ × T} {fuel : ℕ}
  {it : Iterator} {f : ℕ × T → List (ℕ × T)} {op : ListOp T}

lemma replace_of_notMem (h : ∀ c ∈ cells, it.node ≠ some c.1) : replace it f cells = cells := by
  induction cells with
  | nil => rfl
  | cons c cells ih =>
    have hrest := ih fun e he => h e (List.mem_cons_of_mem c he)
    rw [replace] at hrest
    rw [replace, List.flatMap_cons, if_neg (h c List.mem_cons_self), hrest]
    rfl

/-- An iterator to an element denotes this one alone. -/
lemma replace_eq (h : (addresses (xs ++ c :: ys)).Nodup) (hit : it.node = some c.1) :
    replace it f (xs ++ c :: ys) = xs ++ (f c ++ ys) := by
  rw [addresses_append, addresses_cons] at h
  obtain ⟨-, hys, hapart⟩ := List.nodup_append.mp h
  have hne : ∀ e : ℕ × T, e.1 ≠ c.1 → it.node ≠ some e.1 := fun e he heq =>
    he (Option.some_inj.mp (hit.symm.trans heq)).symm
  have hxs : replace it f xs = xs := replace_of_notMem fun e he => hne e fun heq =>
    hapart e.1 (mem_addresses.mpr ⟨e, he, rfl⟩) c.1 List.mem_cons_self heq
  have hys' : replace it f ys = ys := replace_of_notMem fun e he => hne e fun heq =>
    (List.nodup_cons.mp hys).1 (mem_addresses.mpr ⟨e, he, heq⟩)
  rw [replace] at hxs hys' ⊢
  rw [List.flatMap_append, List.flatMap_cons, hxs, hys', if_pos hit]

lemma filter_eq (h : (addresses (xs ++ c :: ys)).Nodup) (hit : it.node = some c.1) :
    ((xs ++ c :: ys).filter fun e => it.node = some e.1) = [c] := by
  rw [addresses_append, addresses_cons] at h
  obtain ⟨-, hys, hapart⟩ := List.nodup_append.mp h
  have hne : ∀ e : ℕ × T, e.1 ≠ c.1 → ¬decide (it.node = some e.1) = true := fun e he heq =>
    he (Option.some_inj.mp (hit.symm.trans (of_decide_eq_true heq))).symm
  have hxs : (xs.filter fun e => it.node = some e.1) = [] := List.filter_eq_nil_iff.mpr fun e he =>
    hne e fun heq => hapart e.1 (mem_addresses.mpr ⟨e, he, rfl⟩) c.1 List.mem_cons_self heq
  have hys' : (ys.filter fun e => it.node = some e.1) = [] := List.filter_eq_nil_iff.mpr fun e he =>
    hne e fun heq => (List.nodup_cons.mp hys).1 (mem_addresses.mpr ⟨e, he, heq⟩)
  rw [List.filter_append, hxs, List.filter_cons_of_pos (by simpa using hit), hys']
  rfl

/-! ### One operation -/

/-- An operation does to the list what it does to the sequence. -/
lemma run_spec (h : Represents s l cells) (hvalid : op.Valid s cells) (hfuel : cells.length ≤ fuel) :
    ∃ s' l', op.run fuel s l = some (op.output cells, s', l') ∧ Represents s' l' (op.apply cells) ∧
      Effect s s' cells op.newNode (addresses (op.removed cells)) := by
  cases op with
  | pushFront node data =>
    obtain ⟨s', l', heq, hrep, heffect⟩ := @pushFront_spec T s l node data cells h hvalid
    exact ⟨s', l', by rw [run, heq]; rfl, hrep, heffect⟩
  | pushBack node data =>
    obtain ⟨s', l', heq, hrep, heffect⟩ := @pushBack_spec T s l node data cells h hvalid
    exact ⟨s', l', by rw [run, heq]; rfl, hrep, heffect⟩
  | emplaceBack node data =>
    obtain ⟨s', l', heq, hrep, heffect⟩ := @pushBack_spec T s l node data cells h hvalid
    exact ⟨s', l', by rw [run, heq]; rfl, hrep, heffect⟩
  | insertBefore it node data =>
    obtain ⟨hnode, c, hc, rfl⟩ := hvalid
    obtain ⟨xs, ys, rfl⟩ := List.append_of_mem hc
    have hfresh := h.notMem hnode
    have hput := @Represents.put T s l node ⟨data, none, none⟩ _ h hfresh
    have hdata : (s.put node ⟨data, none, none⟩).data node = some data := by simp
    obtain ⟨s', l', heq, hrep, heffect⟩ := insertBefore_spec hput hdata hfresh
    refine ⟨s', l', ?_, ?_, heffect.of_put⟩
    · rw [run, new_eq hnode]
      simp only [iterator, Option.bind_eq_bind, Option.bind_some, heq]
      rfl
    · rw [apply, replace_eq h.nodup rfl]
      exact hrep
  | insertAfter it node data =>
    obtain ⟨hnode, c, hc, rfl⟩ := hvalid
    obtain ⟨xs, ys, rfl⟩ := List.append_of_mem hc
    have hfresh := h.notMem hnode
    have hput := @Represents.put T s l node ⟨data, none, none⟩ _ h hfresh
    have hdata : (s.put node ⟨data, none, none⟩).data node = some data := by simp
    obtain ⟨s', l', heq, hrep, heffect⟩ := insertAfter_spec hput hdata hfresh
    refine ⟨s', l', ?_, ?_, heffect.of_put⟩
    · rw [run, new_eq hnode]
      simp only [iterator, Option.bind_eq_bind, Option.bind_some, heq]
      rfl
    · rw [apply, replace_eq h.nodup rfl]
      exact hrep
  | erase it =>
    obtain ⟨c, hc, rfl⟩ := hvalid
    obtain ⟨xs, ys, rfl⟩ := List.append_of_mem hc
    obtain ⟨s', l', heq, hrep, heffect⟩ := removeNode_spec h
    refine ⟨s', l', ?_, ?_, ?_⟩
    · simp only [run, iterator, Option.bind_eq_bind, Option.bind_some, heq]
      rfl
    · rw [apply, replace_eq h.nodup rfl]
      exact hrep
    · rw [removed, filter_eq h.nodup rfl]
      exact heffect
  | popFront =>
    cases cells with
    | nil => exact absurd rfl hvalid
    | cons c cells =>
      have hsplit : Represents s l ([] ++ c :: cells) := h
      obtain ⟨s', l', heq, hrep, heffect⟩ := removeNode_spec hsplit
      have hhead : l.head = some c.1 := h.next.head_eq
      have hnode := hsplit.node_eq
      refine ⟨s', l', ?_, hrep, heffect⟩
      simp only [run, Nodes.popFront, hhead, hnode, heq, Option.bind_eq_bind, Option.bind_some]
      rfl
  | popBack =>
    rcases List.eq_nil_or_concat' cells with rfl | ⟨xs, c, rfl⟩
    · exact absurd rfl hvalid
    · obtain ⟨s', l', heq, hrep, heffect⟩ := removeNode_spec h
      have htail : l.tail = some c.1 := by simpa using h.previous.head_eq
      obtain ⟨head, hhead⟩ : ∃ head, l.head = some head := by
        rw [← Option.isSome_iff_exists, h.next.head_eq]
        simp
      have hnode := h.node_eq
      refine ⟨s', l', ?_, ?_, ?_⟩
      · simp only [run, Nodes.popBack, hhead, htail, hnode, heq, Option.bind_eq_bind, Option.bind_some]
        simp [output]
      · simpa [apply] using hrep
      · simpa [removed, newNode] using heffect
  | clear =>
    obtain ⟨s', heq, heffect⟩ := clearFrom_spec h.data h.next hfuel
    refine ⟨s', .empty, ?_, ⟨by simp [apply], rfl, rfl⟩, heffect⟩
    rw [run, Nodes.clear, heq]
    rfl

lemma length_apply_le (h : (addresses cells).Nodup) (hvalid : op.Valid s cells) :
    (op.apply cells).length ≤ cells.length + 1 := by
  cases op with
  | pushFront node data => exact Nat.le_refl _
  | pushBack node data => simp [apply]
  | emplaceBack node data => simp [apply]
  | insertBefore it node data =>
    obtain ⟨-, c, hc, rfl⟩ := hvalid
    obtain ⟨xs, ys, rfl⟩ := List.append_of_mem hc
    rw [apply, replace_eq h rfl]
    simp [Nat.add_assoc]
  | insertAfter it node data =>
    obtain ⟨-, c, hc, rfl⟩ := hvalid
    obtain ⟨xs, ys, rfl⟩ := List.append_of_mem hc
    rw [apply, replace_eq h rfl]
    simp [Nat.add_assoc]
  | erase it =>
    obtain ⟨c, hc, rfl⟩ := hvalid
    obtain ⟨xs, ys, rfl⟩ := List.append_of_mem hc
    rw [apply, replace_eq h rfl]
    simp
    omega
  | popFront =>
    rw [apply, List.length_tail]
    omega
  | popBack =>
    rw [apply, List.length_dropLast]
    omega
  | clear => exact Nat.zero_le _

/-- An element that is not removed stays. -/
lemma mem_apply (hc : c ∈ cells) (hkept : c ∉ op.removed cells) : c ∈ op.apply cells := by
  cases op with
  | pushFront node data => exact List.mem_cons_of_mem _ hc
  | pushBack node data => exact List.mem_append_left _ hc
  | emplaceBack node data => exact List.mem_append_left _ hc
  | insertBefore it node data =>
    refine List.mem_flatMap.mpr ⟨c, hc, ?_⟩
    split_ifs <;> simp
  | insertAfter it node data =>
    refine List.mem_flatMap.mpr ⟨c, hc, ?_⟩
    split_ifs <;> simp
  | erase it =>
    have hne : it.node ≠ some c.1 := fun heq => hkept (List.mem_filter.mpr ⟨hc, decide_eq_true heq⟩)
    refine List.mem_flatMap.mpr ⟨c, hc, ?_⟩
    rw [if_neg hne]
    exact List.mem_singleton_self c
  | popFront =>
    cases cells with
    | nil => cases hc
    | cons e cells =>
      rcases List.mem_cons.mp hc with rfl | hc
      · exact absurd (by simp [removed]) hkept
      · exact hc
  | popBack =>
    rcases List.eq_nil_or_concat' cells with rfl | ⟨xs, e, rfl⟩
    · cases hc
    · rcases List.mem_append.mp hc with hc | hc
      · simpa [apply] using hc
      · exact absurd (by simpa [removed] using List.mem_singleton.mp hc) hkept
  | clear => exact absurd hc hkept

end ListOp

/-! ### Runs -/

section

variable (fuel : ℕ)

/-- The operations one after the other, with what they return. -/
def runAll : List (ListOp T) → Nodes T × LinkedList → Option (List (Output T) × Nodes T × LinkedList)
  | [], c        => some ([], c)
  | op :: ops, c => do
    let r ← op.run fuel c.1 c.2
    let r' ← runAll ops r.2
    return (r.1 :: r'.1, r'.2)

def applyAll (ops : List (ListOp T)) (cells : List (ℕ × T)) : List (ℕ × T) :=
  ops.foldl (fun cells op => op.apply cells) cells

def outputs : List (ListOp T) → List (ℕ × T) → List (Output T)
  | [], _            => []
  | op :: ops, cells => op.output cells :: outputs ops (op.apply cells)

def removedAll : List (ListOp T) → List (ℕ × T) → List (ℕ × T)
  | [], _            => []
  | op :: ops, cells => op.removed cells ++ removedAll ops (op.apply cells)

/-- Every operation finds what it may expect. -/
def ValidFrom : List (ListOp T) → Nodes T × LinkedList → List (ℕ × T) → Prop
  | [], _, _            => True
  | op :: ops, c, cells =>
    op.Valid c.1 cells ∧ (op.run fuel c.1 c.2).elim True fun r => ValidFrom ops r.2 (op.apply cells)

instance decidableValidFrom [DecidableEq T] : (ops : List (ListOp T)) → (c : Nodes T × LinkedList) →
    (cells : List (ℕ × T)) → Decidable (ValidFrom fuel ops c cells)
  | [], _, _            => isTrue trivial
  | op :: ops, c, cells =>
    have : Decidable ((op.run fuel c.1 c.2).elim True fun r => ValidFrom fuel ops r.2 (op.apply cells)) :=
      match op.run fuel c.1 c.2 with
      | none   => isTrue trivial
      | some r => decidableValidFrom ops r.2 (op.apply cells)
    inferInstanceAs (Decidable (_ ∧ _))

/-- The elements that are met along a link. -/
def Nodes.traverse (s : Nodes T) (link : Node T → Option ℕ) : ℕ → Option ℕ → Option (List T)
  | _, none          => some []
  | 0, some _        => none
  | fuel + 1, some a => do
    let n ← s.node a
    let es ← s.traverse link fuel (link n)
    return n.data :: es

end

/-- The list is this sequence, in both directions. -/
structure IsSequence (s : Nodes T) (l : LinkedList) (cells : List (ℕ × T)) : Prop where
  forward : ∀ fuel, cells.length ≤ fuel → s.traverse Node.next fuel l.head = some (cells.map Prod.snd)
  backward : ∀ fuel, cells.length ≤ fuel →
    s.traverse Node.previous fuel l.tail = some (cells.map Prod.snd).reverse
  inverse : ∀ a b, (a ∈ addresses cells ∧ s.next a = some b) ↔ (b ∈ addresses cells ∧ s.previous b = some a)
  head : l.head = none ↔ cells = []
  tail : l.tail = none ↔ cells = []

/-- A run from the empty list does to the list what it does to the empty sequence, deletes each removed
node once, and an iterator from any point of the run denotes its element for as long as this one is not
removed. -/
def Implements (s₀ : Nodes T) (fuel : ℕ) (ops : List (ListOp T)) : Prop :=
  ∃ s l, runAll fuel ops (s₀, .empty) = some (outputs ops [], s, l) ∧ IsSequence s l (applyAll ops []) ∧
    (∀ a, s.deleted a = s₀.deleted a + (addresses (removedAll ops [])).count a) ∧
    ∀ pre suf, ops = pre ++ suf → ∃ s₁ l₁, runAll fuel pre (s₀, .empty) = some (outputs pre [], s₁, l₁) ∧
      ∀ c ∈ applyAll pre [], c.1 ∉ addresses (removedAll suf (applyAll pre [])) →
        c ∈ applyAll ops [] ∧ (s.read (s₁.iterator (some c.1))).map Node.data = some c.2

variable {s s' s₀ : Nodes T} {l l' : LinkedList} {cells : List (ℕ × T)} {c : ℕ × T} {fuel : ℕ}
  {ops ops' : List (ListOp T)}

lemma traverse_eq {link : Node T → Option ℕ} {p : Option ℕ} (hdata : ∀ c ∈ cells, s.data c.1 = some c.2)
    (h : Chain (fun a => (s.node a).bind link) p (addresses cells)) (hfuel : cells.length ≤ fuel) :
    s.traverse link fuel p = some (cells.map Prod.snd) := by
  induction cells generalizing p fuel with
  | nil =>
    obtain rfl := chain_nil.mp h
    cases fuel <;> rfl
  | cons c cells ih =>
    obtain ⟨rfl, hrest⟩ := h
    have hnode := Nodes.node_eq (hdata c List.mem_cons_self)
    beta_reduce at hrest
    rw [hnode, Option.bind_some] at hrest
    cases fuel with
    | zero => cases hfuel
    | succ fuel =>
      have htraverse := ih (fun e he => hdata e (List.mem_cons_of_mem c he)) hrest
        (Nat.le_of_succ_le_succ hfuel)
      rw [Nodes.traverse, hnode, Option.bind_eq_bind, Option.bind_some, htraverse]
      rfl

lemma Nodes.Represents.isSequence (h : Represents s l cells) : IsSequence s l cells where
  forward fuel hfuel := traverse_eq h.data h.next hfuel
  backward fuel hfuel := by
    have hreverse : addresses cells.reverse = (addresses cells).reverse := List.map_reverse
    rw [← List.map_reverse]
    apply traverse_eq (fun c hc => h.data c (List.mem_reverse.mp hc))
    · rw [hreverse]
      exact h.previous
    · rwa [List.length_reverse]
  inverse a b := by
    rw [h.next.mem_and_next_eq_iff, ← List.mem_reverse, h.previous.mem_and_next_eq_iff]
    constructor
    · rintro ⟨xs, ys, heq⟩
      exact ⟨ys.reverse, xs.reverse, by simp [heq]⟩
    · rintro ⟨xs, ys, heq⟩
      exact ⟨ys.reverse, xs.reverse, by simpa using congrArg List.reverse heq⟩
  head := by rw [← h.next.eq_nil_iff, addresses, List.map_eq_nil_iff]
  tail := by rw [← h.previous.eq_nil_iff, List.reverse_eq_nil_iff, addresses, List.map_eq_nil_iff]

/-- A run from any list. -/
lemma runAll_spec (h : Represents s l cells) (hvalid : ValidFrom fuel ops (s, l) cells)
    (hfuel : cells.length + ops.length ≤ fuel) :
    ∃ s' l', runAll fuel ops (s, l) = some (outputs ops cells, s', l') ∧
      Represents s' l' (applyAll ops cells) ∧ (applyAll ops cells).length ≤ cells.length + ops.length ∧
      ∀ a, s'.deleted a = s.deleted a + (addresses (removedAll ops cells)).count a := by
  induction ops generalizing s l cells with
  | nil => exact ⟨s, l, rfl, h, Nat.le_refl _, fun _ => rfl⟩
  | cons op ops ih =>
    obtain ⟨hop, hrest⟩ := hvalid
    rw [List.length_cons] at hfuel
    have hle : cells.length ≤ fuel := by omega
    obtain ⟨s₁, l₁, hrun, hrep, heffect⟩ := ListOp.run_spec h hop hle
    rw [hrun, Option.elim_some] at hrest
    have hlength := ListOp.length_apply_le h.nodup hop
    obtain ⟨s', l', hrunAll, hrep', hlength', hdeleted⟩ := ih hrep hrest (by omega)
    refine ⟨s', l', ?_, hrep', ?_, fun a => ?_⟩
    · simp only [runAll, hrun, hrunAll, Option.bind_eq_bind, Option.bind_some]
      rfl
    · rw [applyAll] at hlength' ⊢
      rw [List.foldl_cons, List.length_cons]
      omega
    · rw [hdeleted, heffect.deleted, removedAll, addresses_append, List.count_append, Nat.add_assoc]

lemma mem_applyAll (hc : c ∈ cells) (hkept : c.1 ∉ addresses (removedAll ops cells)) :
    c ∈ applyAll ops cells := by
  induction ops generalizing cells with
  | nil => exact hc
  | cons op ops ih =>
    rw [removedAll, addresses_append, List.mem_append, not_or] at hkept
    exact ih (ListOp.mem_apply hc fun hmem => hkept.1 (mem_addresses.mpr ⟨c, hmem, rfl⟩)) hkept.2

lemma runAll_append (pre suf : List (ListOp T)) {c c₁ : Nodes T × LinkedList} {outs : List (Output T)}
    (h : runAll fuel pre c = some (outs, c₁)) :
    runAll fuel (pre ++ suf) c = (runAll fuel suf c₁).map fun r => (outs ++ r.1, r.2) := by
  induction pre generalizing c outs with
  | nil =>
    obtain ⟨rfl, rfl⟩ := Prod.mk.inj (Option.some_inj.mp h)
    rw [List.nil_append]
    cases runAll fuel suf c <;> rfl
  | cons op pre ih =>
    obtain ⟨r, hr, h⟩ := Option.bind_eq_some_iff.mp h
    obtain ⟨r', hr', h⟩ := Option.bind_eq_some_iff.mp h
    obtain ⟨rfl, rfl⟩ := Prod.mk.inj (Option.some_inj.mp h)
    rw [List.cons_append, runAll, hr, Option.bind_eq_bind, Option.bind_some, ih hr']
    cases runAll fuel suf r'.2 <;> rfl

lemma ValidFrom.append {pre suf : List (ListOp T)} {c c₁ : Nodes T × LinkedList} {outs : List (Output T)}
    (h : ValidFrom fuel (pre ++ suf) c cells) (hrun : runAll fuel pre c = some (outs, c₁)) :
    ValidFrom fuel suf c₁ (applyAll pre cells) := by
  induction pre generalizing c cells outs with
  | nil =>
    obtain ⟨-, rfl⟩ := Prod.mk.inj (Option.some_inj.mp hrun)
    exact h
  | cons op pre ih =>
    obtain ⟨r, hr, hrun⟩ := Option.bind_eq_some_iff.mp hrun
    obtain ⟨r', hr', hrun⟩ := Option.bind_eq_some_iff.mp hrun
    obtain ⟨-, rfl⟩ := Prod.mk.inj (Option.some_inj.mp hrun)
    obtain ⟨-, hrest⟩ := h
    rw [hr, Option.elim_some] at hrest
    exact ih hrest hr'

lemma ValidFrom.of_append {pre suf : List (ListOp T)} {c : Nodes T × LinkedList}
    (h : ValidFrom fuel (pre ++ suf) c cells) : ValidFrom fuel pre c cells := by
  induction pre generalizing c cells with
  | nil => trivial
  | cons op pre ih =>
    obtain ⟨hop, hrest⟩ := h
    refine ⟨hop, ?_⟩
    cases hr : op.run fuel c.1 c.2 with
    | none   => trivial
    | some r =>
      rw [hr, Option.elim_some] at hrest
      exact ih hrest

/-- A linked list implements the sequences. -/
theorem implements_of_validFrom (s₀ : Nodes T) (ops : List (ListOp T)) (fuel : ℕ)
    (hfuel : ops.length ≤ fuel) (hvalid : ValidFrom fuel ops (s₀, .empty) []) : Implements s₀ fuel ops := by
  have hfuel' : ([] : List (ℕ × T)).length + ops.length ≤ fuel := by simpa using hfuel
  obtain ⟨s, l, hrun, hrep, -, hdeleted⟩ := runAll_spec represents_empty hvalid hfuel'
  refine ⟨s, l, hrun, hrep.isSequence, hdeleted, ?_⟩
  rintro pre suf rfl
  rw [List.length_append] at hfuel
  have hpre : ([] : List (ℕ × T)).length + pre.length ≤ fuel := by simp; omega
  obtain ⟨s₁, l₁, hrun₁, hrep₁, hlength, -⟩ := runAll_spec represents_empty hvalid.of_append hpre
  refine ⟨s₁, l₁, hrun₁, fun c hc hkept => ?_⟩
  have hsuf : (applyAll pre []).length + suf.length ≤ fuel := by
    rw [List.length_nil, Nat.zero_add] at hlength
    omega
  obtain ⟨s', l', hrun', -, -, hdeleted'⟩ := runAll_spec hrep₁ (hvalid.append hrun₁) hsuf
  -- the second part of the run leads to the same state
  rw [runAll_append pre suf hrun₁, hrun', Option.map_some] at hrun
  obtain ⟨-, hstate⟩ := Prod.mk.inj (Option.some_inj.mp hrun)
  obtain ⟨rfl, rfl⟩ := Prod.mk.inj hstate
  have hmem : c ∈ applyAll (pre ++ suf) [] := by
    rw [applyAll, List.foldl_append]
    exact mem_applyAll hc hkept
  have hsame : s'.deleted c.1 = s₁.deleted c.1 := by
    rw [hdeleted', List.count_eq_zero_of_not_mem hkept, Nat.add_zero]
  refine ⟨hmem, ?_⟩
  rw [read_of_eq hsame]
  exact hrep.data c hmem

/-- No node is there, and none has been deleted. -/
def noNodes : Nodes ℕ := ⟨fun _ => none, fun _ => 0⟩

/-- An insertion in the middle, the removal of a neighbour, and a new node at the address of a deleted
one. -/
def someOps : List (ListOp ℕ) :=
  [.pushBack 1 10, .pushFront 2 20, .insertAfter ⟨some 2, 0⟩ 3 30, .erase ⟨some 1, 0⟩, .popBack,
    .emplaceBack 1 40, .insertBefore ⟨some 1, 1⟩ 4 50, .popFront, .clear]

theorem implements_someOps : Implements noNodes 9 someOps :=
  implements_of_validFrom noNodes someOps 9 (by decide) (by decide)

end PiKachulm.Libk

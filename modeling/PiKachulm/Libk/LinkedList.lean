import Mathlib.Logic.Function.Basic
import Mathlib.Data.List.Nodup
import Mathlib.Algebra.Order.Ring.Nat
import Mathlib.Tactic.Common

/-!
# Linked lists

`libk::LinkedList`: nodes that are allocated and deleted one by one, linked in both directions. The
address of a deleted node can be given to a new one. A node that is read through an iterator must be
the one that the iterator was set to, and not another one at the same address.
-/

namespace PiKachulm.Libk

variable {T : Type}

structure Node (T : Type) where
  data : T
  next : Option ℕ
  previous : Option ℕ
  deriving DecidableEq

/-- The nodes of all lists, by their addresses, and how often a node has been deleted at each
address. -/
structure Nodes (T : Type) where
  node : ℕ → Option (Node T)
  deleted : ℕ → ℕ

structure LinkedList where
  head : Option ℕ
  tail : Option ℕ
  deriving DecidableEq

/-- A list without elements. -/
def LinkedList.empty : LinkedList := ⟨none, none⟩

namespace Nodes

variable (s : Nodes T) (l : LinkedList) (a b : ℕ)

/-- A field of a node is written. -/
def modify (f : Node T → Node T) : Option (Nodes T) :=
  (s.node a).map fun n => { s with node := Function.update s.node a (some (f n)) }

def setNext (next : Option ℕ) : Option (Nodes T) := s.modify a fun n => { n with next := next }

def setPrevious (previous : Option ℕ) : Option (Nodes T) :=
  s.modify a fun n => { n with previous := previous }

/-- `delete`. -/
def delete : Option (Nodes T) :=
  (s.node a).map fun _ =>
    ⟨Function.update s.node a none, Function.update s.deleted a (s.deleted a + 1)⟩

/-- `new Node`, at an address where there is no node. -/
def new (data : T) : Option (Nodes T) :=
  match s.node a with
  | some _ => none
  | none   => some { s with node := Function.update s.node a (some ⟨data, none, none⟩) }

/-- The field that leads to what comes after `previous`: `m_head` when there is no node before. -/
def linkNext (previous next : Option ℕ) : Option (Nodes T × LinkedList) :=
  match previous with
  | none   => some (s, { l with head := next })
  | some p => (s.setNext p next).map fun s => (s, l)

/-- The field that leads to what comes before `next`: `m_tail` when there is no node after. -/
def linkPrevious (next previous : Option ℕ) : Option (Nodes T × LinkedList) :=
  match next with
  | none   => some (s, { l with tail := previous })
  | some q => (s.setPrevious q previous).map fun s => (s, l)

def removeNode : Option (Nodes T × LinkedList) := do
  let n ← s.node a
  let r ← s.linkNext l n.previous n.next
  let n ← r.1.node a
  let r ← r.1.linkPrevious r.2 n.next n.previous
  let s ← r.1.delete a
  return (s, r.2)

/-- `insert_before`, with the new node at `b`. -/
def insertBefore : Option (Nodes T × LinkedList) := do
  let s ← s.setNext b (some a)
  let n ← s.node a
  let s ← s.setPrevious b n.previous
  let n ← s.node a
  let r ← s.linkNext l n.previous (some b)
  let s ← r.1.setPrevious a (some b)
  return (s, r.2)

/-- `insert_after`, with the new node at `b`. -/
def insertAfter : Option (Nodes T × LinkedList) := do
  let s ← s.setPrevious b (some a)
  let n ← s.node a
  let s ← s.setNext b n.next
  let n ← s.node a
  let r ← s.linkPrevious l n.next (some b)
  let s ← r.1.setNext a (some b)
  return (s, r.2)

def insertBack : Option (Nodes T × LinkedList) :=
  match l.tail with
  | none      => some (s, ⟨some a, some a⟩)
  | some tail => s.insertAfter l tail a

def insertFront : Option (Nodes T × LinkedList) :=
  match l.tail, l.head with
  | none, _      => some (s, ⟨some a, some a⟩)
  | some _, none => none
  | some _, some head => s.insertBefore l head a

/-- `push_front`, with the address of the new node. -/
def pushFront (data : T) : Option (Nodes T × LinkedList) := do
  let s ← s.new a data
  s.insertFront l a

/-- `push_back`, with the address of the new node. -/
def pushBack (data : T) : Option (Nodes T × LinkedList) := do
  let s ← s.new a data
  s.insertBack l a

/-- `pop_front`; it panics when the list is empty. -/
def popFront : Option (T × Nodes T × LinkedList) := do
  let head ← l.head
  let n ← s.node head
  let r ← s.removeNode l head
  return (n.data, r)

/-- `pop_back`; it panics when the list is empty. -/
def popBack : Option (T × Nodes T × LinkedList) := do
  let _ ← l.head
  let tail ← l.tail
  let n ← s.node tail
  let r ← s.removeNode l tail
  return (n.data, r)

/-- The loop of `clear`. -/
def clearFrom : ℕ → Nodes T → Option ℕ → Option (Nodes T)
  | _, s, none          => some s
  | 0, _, some _        => none
  | fuel + 1, s, some a => do
    let n ← s.node a
    let s ← s.delete a
    clearFrom fuel s n.next

def clear (fuel : ℕ) : Option (Nodes T × LinkedList) :=
  (clearFrom fuel s l.head).map fun s => (s, .empty)

/-! ### Iterators -/

/-- An iterator, with what it needs to know its node again. -/
structure Iterator where
  node : Option ℕ
  deleted : ℕ
  deriving DecidableEq

/-- The iterator to the node at an address, or `end()`. -/
def iterator (node : Option ℕ) : Iterator := ⟨node, node.elim 0 s.deleted⟩

/-- The node of an iterator is read, unless it has been deleted since. -/
def read (it : Iterator) : Option (Node T) := do
  let a ← it.node
  if s.deleted a = it.deleted then s.node a else none

/-- The first node from `node` on whose element satisfies `p`, as `std::find` looks for it. -/
def find (p : T → Bool) : ℕ → Option ℕ → Option (Option ℕ)
  | 0, _             => none
  | _ + 1, none      => some none
  | fuel + 1, some a => do
    let n ← s.node a
    if p n.data then some (some a) else find p fuel n.next

/-! ### Well-formed lists -/

/-- The nodes are linked in this order, `previous` being the one before them. -/
def Linked (s : Nodes T) (previous : Option ℕ) : List ℕ → Prop
  | []      => True
  | a :: as => (∃ data, s.node a = some ⟨data, as.head?, previous⟩) ∧ s.Linked (some a) as

/-- The list is made of these nodes. -/
structure Holds (s : Nodes T) (l : LinkedList) (as : List ℕ) : Prop where
  head : l.head = as.head?
  tail : l.tail = as.getLast?
  linked : s.Linked none as
  nodup : as.Nodup

/-! ### Deletions -/

/-- Nodes that have been deleted stay deleted. -/
def Later (s s' : Nodes T) : Prop := ∀ a, s.deleted a ≤ s'.deleted a

variable {s l a b} {s' s'' : Nodes T} {l' : LinkedList} {data : T} {f : Node T → Node T}

lemma Later.refl (s : Nodes T) : s.Later s := fun _ => Nat.le_refl _

lemma Later.trans (h : s.Later s') (h' : s'.Later s'') : s.Later s'' :=
  fun a => (h a).trans (h' a)

lemma modify_deleted (h : s.modify a f = some s') : s'.deleted = s.deleted := by
  obtain ⟨n, -, rfl⟩ := Option.map_eq_some_iff.mp h
  rfl

lemma later_of_deleted (h : s'.deleted = s.deleted) : s.Later s' := fun a => (congrFun h a).ge

lemma delete_spec (h : s.delete a = some s') :
    (∃ n, s.node a = some n) ∧
      s' = ⟨Function.update s.node a none, Function.update s.deleted a (s.deleted a + 1)⟩ := by
  obtain ⟨n, hn, rfl⟩ := Option.map_eq_some_iff.mp h
  exact ⟨⟨n, hn⟩, rfl⟩

lemma new_deleted (h : s.new a data = some s') : s'.deleted = s.deleted := by
  rw [new] at h
  split at h
  · cases h
  · cases h
    rfl

lemma linkNext_deleted {previous next : Option ℕ} {r : Nodes T × LinkedList}
    (h : s.linkNext l previous next = some r) : r.1.deleted = s.deleted := by
  cases previous with
  | none =>
    cases h
    rfl
  | some p =>
    obtain ⟨s₁, hs, rfl⟩ := Option.map_eq_some_iff.mp h
    exact modify_deleted hs

lemma linkPrevious_deleted {next previous : Option ℕ} {r : Nodes T × LinkedList}
    (h : s.linkPrevious l next previous = some r) : r.1.deleted = s.deleted := by
  cases next with
  | none =>
    cases h
    rfl
  | some q =>
    obtain ⟨s₁, hs, rfl⟩ := Option.map_eq_some_iff.mp h
    exact modify_deleted hs

/-- Up to its last step `remove_node` deletes nothing. -/
lemma removeNode_deleted (h : s.removeNode l a = some (s', l')) :
    s'.deleted = Function.update s.deleted a (s.deleted a + 1) := by
  simp only [removeNode, Option.bind_eq_bind, Option.bind_eq_some_iff] at h
  obtain ⟨n, -, r₁, h₁, n', -, r₂, h₂, s₃, h₃, h⟩ := h
  cases h
  obtain ⟨-, rfl⟩ := delete_spec h₃
  rw [linkPrevious_deleted h₂, linkNext_deleted h₁]

lemma later_removeNode (h : s.removeNode l a = some (s', l')) : s.Later s' := by
  intro b
  rw [removeNode_deleted h]
  by_cases hb : b = a
  · subst hb
    simp
  · simp [hb]

lemma removeNode_self (h : s.removeNode l a = some (s', l')) : s.deleted a < s'.deleted a := by
  rw [removeNode_deleted h, Function.update_self]
  exact Nat.lt_succ_self _

lemma insertBefore_deleted (h : s.insertBefore l a b = some (s', l')) : s'.deleted = s.deleted := by
  simp only [insertBefore, Option.bind_eq_bind, Option.bind_eq_some_iff] at h
  obtain ⟨s₁, h₁, n, -, s₂, h₂, n', -, r, h₃, s₄, h₄, h⟩ := h
  cases h
  rw [modify_deleted h₄, linkNext_deleted h₃, modify_deleted h₂, modify_deleted h₁]

lemma pushFront_deleted (h : s.pushFront l a data = some (s', l')) : s'.deleted = s.deleted := by
  simp only [pushFront, Option.bind_eq_bind, Option.bind_eq_some_iff] at h
  obtain ⟨s₁, h₁, h⟩ := h
  rw [← new_deleted h₁]
  rw [insertFront] at h
  split at h
  · cases h
    rfl
  · cases h
  · exact insertBefore_deleted h

/-- An iterator does not read a node that has been deleted. -/
lemma read_of_lt (h : s.deleted a < s'.deleted a) : s'.read (s.iterator (some a)) = none := by
  simp only [read, iterator, Option.elim_some, Option.bind_eq_bind, Option.bind_some]
  exact if_neg h.ne'

/-- It reads the node for as long as this one is there. -/
lemma read_of_eq (h : s'.deleted a = s.deleted a) : s'.read (s.iterator (some a)) = s'.node a := by
  simp only [read, iterator, Option.elim_some, Option.bind_eq_bind, Option.bind_some]
  exact if_pos h

lemma read_iterator : s.read (s.iterator (some a)) = s.node a := read_of_eq rfl

/-- The first node is the one that is found when it satisfies the predicate. -/
lemma find_head {p : T → Bool} {fuel : ℕ} {n : Node T} {r : Option ℕ} (hn : s.node a = some n)
    (hp : p n.data = true) (h : s.find p fuel (some a) = some r) : r = some a := by
  cases fuel with
  | zero => cases h
  | succ fuel =>
    rw [find, hn, Option.bind_eq_bind, Option.bind_some, if_pos hp] at h
    exact (Option.some_inj.mp h).symm

/-- The search in a well-formed list finds what there is to be found. -/
lemma find_linked {p : T → Bool} {fuel : ℕ} {r : Option ℕ} {as : List ℕ} {previous : Option ℕ}
    (hl : s.Linked previous as) (h : s.find p fuel as.head? = some r) :
    r = as.find? fun a => (s.node a).any fun n => p n.data := by
  induction as generalizing fuel previous with
  | nil =>
    cases fuel with
    | zero => cases h
    | succ fuel =>
      cases h
      rfl
  | cons a as ih =>
    obtain ⟨⟨data, hn⟩, hrest⟩ := hl
    cases fuel with
    | zero => cases h
    | succ fuel =>
      rw [List.head?_cons, find, hn] at h
      rw [List.find?_cons, hn, Option.any_some]
      by_cases hp : p data = true
      · rw [Option.bind_eq_bind, Option.bind_some, if_pos hp] at h
        rw [hp]
        exact (Option.some_inj.mp h).symm
      · rw [Bool.not_eq_true] at hp
        simp only [Option.bind_eq_bind, Option.bind_some, hp, Bool.false_eq_true, if_false] at h
        rw [hp]
        exact ih hrest h

end Nodes

end PiKachulm.Libk

import PiKachulm.Libk.Sequence

/-!
# Reverse iteration

`rbegin` and `rend` hand the iterators to the last node and to the end to `std::reverse_iterator`, which
dereferences the predecessor of the iterator that it is given.
-/

namespace PiKachulm.Libk

open Core

variable {T : Type}

namespace Nodes

variable (s : Nodes T) (l : LinkedList)

/-! ### Iterators

A `BaseIterator` is its `m_node`; the end is null. -/

def dereference : Option ℕ → Option (ℕ × T)
  | none   => none
  | some a => (s.node a).map fun n => (a, n.data)

def increment : Option ℕ → Option (Option ℕ)
  | none   => some none
  | some a => (s.node a).map Node.next

def decrement : Option ℕ → Option (Option ℕ)
  | none   => some none
  | some a => (s.node a).map Node.previous

/-- What is visited from an iterator on, up to `end()`. -/
def iterate : ℕ → Option ℕ → Option (List (ℕ × T))
  | _, none             => some []
  | 0, some _           => none
  | fuel + 1, it@(some _) => do
    let c ← s.dereference it
    let next ← s.increment it
    let rest ← iterate fuel next
    return c :: rest

/-- `operator*` of `std::reverse_iterator`, on the iterator that it holds. -/
def reverseDereference (it : Option ℕ) : Option (ℕ × T) := do
  let tmp ← s.decrement it
  s.dereference tmp

/-- What is visited from a reverse iterator on, up to `rend()`, which holds null. Its `++` decrements. -/
def reverseIterate : ℕ → Option ℕ → Option (List (ℕ × T))
  | _, none             => some []
  | 0, some _           => none
  | fuel + 1, it@(some _) => do
    let c ← s.reverseDereference it
    let previous ← s.decrement it
    let rest ← reverseIterate fuel previous
    return c :: rest

/-- From `rbegin()` to `rend()` the elements are visited that are visited from `begin()` to `end()`, the
other way round; no other node is dereferenced. -/
def ReverseIterates : Prop :=
  ∃ cells, (∃ fuel, s.iterate fuel l.head = some cells) ∧
    ∃ fuel, s.reverseIterate fuel l.tail = some cells.reverse

variable {s l} {cells : List (ℕ × T)} {a fuel : ℕ} {as : List ℕ}

lemma iterate_eq {p : Option ℕ} (hdata : ∀ c ∈ cells, s.data c.1 = some c.2)
    (h : Chain s.next p (addresses cells)) : s.iterate cells.length p = some cells := by
  induction cells generalizing p with
  | nil =>
    obtain rfl := chain_nil.mp h
    rfl
  | cons c cells ih =>
    obtain ⟨rfl, hrest⟩ := h
    have hnode := Nodes.node_eq (hdata c List.mem_cons_self)
    have hiterate := ih (fun e he => hdata e (List.mem_cons_of_mem c he)) hrest
    rw [List.length_cons, iterate, dereference, increment, hnode]
    simp only [Option.bind_eq_bind, Option.map_some, Option.bind_some, hiterate]
    rfl

/-- The iteration ends at the first element, whose predecessor is dereferenced. -/
lemma reverseIterate_eq_none (h : Chain s.previous (some a) as) (hdata : ∀ a ∈ as, (s.data a).isSome) :
    s.reverseIterate fuel (some a) = none := by
  induction as generalizing a fuel with
  | nil => cases h
  | cons x as ih =>
    obtain ⟨hx, hrest⟩ := h
    obtain rfl := Option.some_inj.mp hx
    obtain ⟨d, hd⟩ := Option.isSome_iff_exists.mp (hdata a List.mem_cons_self)
    have hnode := Nodes.node_eq hd
    cases fuel with
    | zero => rfl
    | succ fuel =>
      rw [reverseIterate, reverseDereference, decrement, hnode]
      cases hprevious : s.previous a with
      | none => rfl
      | some p =>
        rw [hprevious] at hrest
        have hnone := @ih p fuel hrest fun x hx => hdata x (List.mem_cons_of_mem a hx)
        simp only [Option.map_some, Option.bind_eq_bind, Option.bind_some, hnone, Option.bind_none,
          Option.bind_fun_none]

/-- Only an empty list can be iterated in reverse. -/
theorem reverseIterates_iff (h : Represents s l cells) : s.ReverseIterates l ↔ cells = [] := by
  constructor
  · rintro ⟨visited, -, fuel, hreverse⟩
    by_contra hne
    obtain ⟨a, ha⟩ : ∃ a, l.tail = some a := by
      rw [← Option.isSome_iff_exists, h.previous.head_eq]
      simpa [addresses] using hne
    have hprevious := h.previous
    rw [ha] at hprevious
    rw [ha, reverseIterate_eq_none hprevious fun x hx => h.isSome (List.mem_reverse.mp hx)] at hreverse
    cases hreverse
  · rintro rfl
    refine ⟨[], ⟨0, iterate_eq h.data h.next⟩, 0, ?_⟩
    rw [chain_nil.mp h.previous]
    rfl

/-- One node, and the list of it. -/
def oneNode : Nodes ℕ := ⟨Function.update (fun _ => none) 1 (some ⟨10, none, none⟩), fun _ => 0⟩

def oneElement : LinkedList := ⟨some 1, some 1⟩

lemma represents_oneElement : Represents oneNode oneElement [(1, 10)] where
  data := by decide
  next := ⟨rfl, rfl⟩
  previous := ⟨rfl, rfl⟩

theorem reverseIterates_empty : oneNode.ReverseIterates .empty :=
  (reverseIterates_iff represents_empty).mpr rfl

/-- The only element is not visited, and null is dereferenced. -/
theorem not_reverseIterates : Represents oneNode oneElement [(1, 10)] ∧
    oneNode.iterate 1 oneElement.head = some [(1, 10)] ∧ ¬oneNode.ReverseIterates oneElement := by
  refine ⟨represents_oneElement, by decide, ?_⟩
  rintro ⟨visited, -, fuel, hreverse⟩
  rw [oneElement, reverseIterate_eq_none represents_oneElement.previous (by decide)] at hreverse
  cases hreverse

end Nodes

end PiKachulm.Libk

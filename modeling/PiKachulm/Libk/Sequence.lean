import PiKachulm.Core.Chain
import PiKachulm.Libk.LinkedList

/-!
# Linked lists as sequences

What the operations of `libk::LinkedList` do to the elements of the list. An element of the sequence comes
with the address of its node. The nodes are found by two chains, along `next` from `m_head` and along
`previous` from `m_tail`.
-/

namespace PiKachulm.Libk

open Core

variable {T : Type}

namespace Nodes

/-! ### The fields of the nodes -/

def next (s : Nodes T) (a : ℕ) : Option ℕ := (s.node a).bind Node.next

def previous (s : Nodes T) (a : ℕ) : Option ℕ := (s.node a).bind Node.previous

def data (s : Nodes T) (a : ℕ) : Option T := (s.node a).map Node.data

/-- The node at an address is written. -/
def put (s : Nodes T) (a : ℕ) (n : Node T) : Nodes T := { s with node := Function.update s.node a (some n) }

variable {s s' : Nodes T} {l l' : LinkedList} {a b : ℕ} {n : Node T} {d : T} {p q : Option ℕ}

@[simp] lemma next_put : (s.put a n).next = Function.update s.next a n.next := by
  funext b
  by_cases hb : b = a
  · subst hb
    simp [next, put]
  · simp [next, put, hb]

@[simp] lemma previous_put : (s.put a n).previous = Function.update s.previous a n.previous := by
  funext b
  by_cases hb : b = a
  · subst hb
    simp [previous, put]
  · simp [previous, put, hb]

@[simp] lemma data_put : (s.put a n).data = Function.update s.data a (some n.data) := by
  funext b
  by_cases hb : b = a
  · subst hb
    simp [data, put]
  · simp [data, put, hb]

@[simp] lemma deleted_put : (s.put a n).deleted = s.deleted := rfl

@[simp] lemma node_put_self : (s.put a n).node a = some n := Function.update_self ..

lemma node_put_of_ne (h : b ≠ a) : (s.put a n).node b = s.node b := Function.update_of_ne h ..

lemma node_eq (h : s.data a = some d) : s.node a = some ⟨d, s.next a, s.previous a⟩ := by
  obtain ⟨n, hn, rfl⟩ := Option.map_eq_some_iff.mp h
  simp [next, previous, hn]

lemma setNext_eq (h : s.data a = some d) :
    s.setNext a q = some (s.put a ⟨d, q, s.previous a⟩) := by
  rw [setNext, modify, node_eq h]
  rfl

lemma setPrevious_eq (h : s.data a = some d) :
    s.setPrevious a p = some (s.put a ⟨d, s.next a, p⟩) := by
  rw [setPrevious, modify, node_eq h]
  rfl

/-- The node at an address is deleted. -/
def drop (s : Nodes T) (a : ℕ) : Nodes T :=
  ⟨Function.update s.node a none, Function.update s.deleted a (s.deleted a + 1)⟩

lemma next_drop : (s.drop a).next = Function.update s.next a none := by
  funext b
  by_cases hb : b = a
  · subst hb
    simp [next, drop]
  · simp [next, drop, hb]

lemma previous_drop : (s.drop a).previous = Function.update s.previous a none := by
  funext b
  by_cases hb : b = a
  · subst hb
    simp [previous, drop]
  · simp [previous, drop, hb]

lemma data_drop_of_ne (h : b ≠ a) : (s.drop a).data b = s.data b := by simp [data, drop, h]

lemma deleted_drop : (s.drop a).deleted b = s.deleted b + [a].count b := by
  by_cases hb : b = a
  · subst hb
    simp [drop]
  · simp [drop, hb, Ne.symm hb]

lemma delete_eq (h : s.data a = some d) : s.delete a = some (s.drop a) := by
  rw [delete, node_eq h]
  rfl

/-! ### Links -/

/-- The links forward are those of `r`; nothing else has changed, but in the node `w`. -/
structure NextSet (s : Nodes T) (l : LinkedList) (w : Option ℕ) (r : (ℕ → Option ℕ) × Option ℕ)
    (s' : Nodes T) (l' : LinkedList) : Prop where
  next : s'.next = r.1
  head : l'.head = r.2
  previous : s'.previous = s.previous
  tail : l'.tail = l.tail
  data : s'.data = s.data
  deleted : s'.deleted = s.deleted
  node : ∀ a, w ≠ some a → s'.node a = s.node a

/-- The links backward are those of `r`; nothing else has changed, but in the node `w`. -/
structure PreviousSet (s : Nodes T) (l : LinkedList) (w : Option ℕ) (r : (ℕ → Option ℕ) × Option ℕ)
    (s' : Nodes T) (l' : LinkedList) : Prop where
  previous : s'.previous = r.1
  tail : l'.tail = r.2
  next : s'.next = s.next
  head : l'.head = l.head
  data : s'.data = s.data
  deleted : s'.deleted = s.deleted
  node : ∀ a, w ≠ some a → s'.node a = s.node a

lemma linkNext_spec {w v : Option ℕ} (hw : ∀ a, w = some a → (s.data a).isSome) :
    ∃ s' l', s.linkNext l w v = some (s', l') ∧ NextSet s l w (relink s.next l.head w v) s' l' := by
  cases w with
  | none => exact ⟨s, _, rfl, rfl, rfl, rfl, rfl, rfl, rfl, fun _ _ => rfl⟩
  | some w =>
    obtain ⟨d, hd⟩ := Option.isSome_iff_exists.mp (hw w rfl)
    have hset : s.linkNext l (some w) v = some (s.put w ⟨d, v, s.previous w⟩, l) := by
      rw [linkNext, setNext_eq hd]
      rfl
    refine ⟨_, _, hset, ?_, rfl, ?_, rfl, ?_, rfl, fun a ha => ?_⟩
    · rw [next_put]
      rfl
    · rw [previous_put, Function.update_eq_self]
    · rw [data_put, ← hd, Function.update_eq_self]
    · apply node_put_of_ne
      rintro rfl
      exact ha rfl

lemma linkPrevious_spec {w v : Option ℕ} (hw : ∀ a, w = some a → (s.data a).isSome) :
    ∃ s' l', s.linkPrevious l w v = some (s', l') ∧
      PreviousSet s l w (relink s.previous l.tail w v) s' l' := by
  cases w with
  | none => exact ⟨s, _, rfl, rfl, rfl, rfl, rfl, rfl, rfl, fun _ _ => rfl⟩
  | some w =>
    obtain ⟨d, hd⟩ := Option.isSome_iff_exists.mp (hw w rfl)
    have hset : s.linkPrevious l (some w) v = some (s.put w ⟨d, s.next w, v⟩, l) := by
      rw [linkPrevious, setPrevious_eq hd]
      rfl
    refine ⟨_, _, hset, ?_, rfl, ?_, rfl, ?_, rfl, fun a ha => ?_⟩
    · rw [previous_put]
      rfl
    · rw [next_put, Function.update_eq_self]
    · rw [data_put, ← hd, Function.update_eq_self]
    · apply node_put_of_ne
      rintro rfl
      exact ha rfl

/-! ### The sequence of a list -/

/-- The addresses of the nodes of a sequence. -/
def addresses (cells : List (ℕ × T)) : List ℕ := cells.map Prod.fst

@[simp] lemma addresses_nil : addresses ([] : List (ℕ × T)) = [] := rfl

@[simp] lemma addresses_cons (c : ℕ × T) (cells : List (ℕ × T)) :
    addresses (c :: cells) = c.1 :: addresses cells := rfl

@[simp] lemma addresses_append (xs ys : List (ℕ × T)) :
    addresses (xs ++ ys) = addresses xs ++ addresses ys := List.map_append

lemma mem_addresses {cells : List (ℕ × T)} : a ∈ addresses cells ↔ ∃ c ∈ cells, c.1 = a := List.mem_map

/-- The list holds this sequence. -/
structure Represents (s : Nodes T) (l : LinkedList) (cells : List (ℕ × T)) : Prop where
  data : ∀ c ∈ cells, s.data c.1 = some c.2
  next : Chain s.next l.head (addresses cells)
  previous : Chain s.previous l.tail (addresses cells).reverse

namespace Represents

variable {cells xs ys : List (ℕ × T)} {c : ℕ × T}

lemma isSome (h : Represents s l cells) (ha : a ∈ addresses cells) : (s.data a).isSome := by
  obtain ⟨c, hc, rfl⟩ := mem_addresses.mp ha
  rw [h.data c hc]
  rfl

lemma isSome_getLast (h : Represents s l (xs ++ ys)) :
    ∀ a, (addresses xs).getLast? = some a → (s.data a).isSome := fun a ha => by
  apply h.isSome
  rw [addresses_append]
  exact List.mem_append_left _ (List.mem_of_getLast? ha)

lemma isSome_head (h : Represents s l (xs ++ c :: ys)) :
    ∀ a, (addresses ys).head? = some a → (s.data a).isSome := fun a ha => by
  apply h.isSome
  rw [addresses_append]
  exact List.mem_append_right _ (List.mem_cons_of_mem _ (List.mem_of_head? ha))

lemma next_chain (h : Represents s l (xs ++ c :: ys)) :
    Chain s.next l.head (addresses xs ++ c.1 :: addresses ys) := by
  simpa using h.next

lemma previous_chain (h : Represents s l (xs ++ c :: ys)) :
    Chain s.previous l.tail ((addresses ys).reverse ++ c.1 :: (addresses xs).reverse) := by
  simpa using h.previous

lemma next_eq (h : Represents s l (xs ++ c :: ys)) : s.next c.1 = (addresses ys).head? :=
  h.next_chain.next_eq

lemma previous_eq (h : Represents s l (xs ++ c :: ys)) : s.previous c.1 = (addresses xs).getLast? := by
  rw [h.previous_chain.next_eq, List.head?_reverse]

lemma nodup (h : Represents s l cells) : (addresses cells).Nodup := h.next.nodup

lemma node_eq (h : Represents s l (xs ++ c :: ys)) :
    s.node c.1 = some ⟨c.2, (addresses ys).head?, (addresses xs).getLast?⟩ := by
  rw [Nodes.node_eq (h.data c (List.mem_append_right _ List.mem_cons_self)), h.next_eq, h.previous_eq]

end Represents

variable {cells xs ys : List (ℕ × T)} {c : ℕ × T}

/-- What an operation does besides: it deletes some nodes, and leaves the nodes alone that are neither in
the list nor given to it. -/
structure Effect (s s' : Nodes T) (cells : List (ℕ × T)) (given : Option ℕ) (removed : List ℕ) : Prop where
  deleted : ∀ a, s'.deleted a = s.deleted a + removed.count a
  node : ∀ a ∉ addresses cells, given ≠ some a → s'.node a = s.node a

/-! ### One node more or less -/

lemma removeNode_spec (h : Represents s l (xs ++ c :: ys)) :
    ∃ s' l', s.removeNode l c.1 = some (s', l') ∧ Represents s' l' (xs ++ ys) ∧
      Effect s s' (xs ++ c :: ys) none [c.1] := by
  have hnode := h.node_eq
  obtain ⟨-, hys, hapart⟩ := List.nodup_append.mp h.next_chain.nodup
  have hxs : c.1 ∉ addresses xs := fun hmem => hapart c.1 hmem c.1 List.mem_cons_self rfl
  have hlast : (addresses xs).getLast? ≠ some c.1 := fun heq => hxs (List.mem_of_getLast? heq)
  have hcys : c.1 ∉ addresses ys := (List.nodup_cons.mp hys).1
  obtain ⟨s₁, l₁, h₁, hset₁⟩ := @linkNext_spec T s l _ (addresses ys).head? h.isSome_getLast
  have hnode₁ : s₁.node c.1 = _ := (hset₁.node _ hlast).trans hnode
  obtain ⟨s₂, l₂, h₂, hset₂⟩ := @linkPrevious_spec T s₁ l₁ (addresses ys).head?
    (addresses xs).getLast? fun a ha => hset₁.data ▸ h.isSome_head a ha
  have hdata₂ : s₂.data c.1 = some c.2 := by
    rw [hset₂.data, hset₁.data, h.data c (by simp)]
  refine ⟨s₂.drop c.1, l₂, ?_, ⟨fun e he => ?_, ?_, ?_⟩, fun a => ?_, fun a ha _ => ?_⟩
  · simp only [removeNode, hnode, h₁, hnode₁, h₂, delete_eq hdata₂, Option.bind_eq_bind, Option.bind_some]
    rfl
  · have hne : e.1 ≠ c.1 := by
      intro heq
      rcases List.mem_append.mp he with he | he
      · exact hxs (mem_addresses.mpr ⟨e, he, heq⟩)
      · exact hcys (mem_addresses.mpr ⟨e, he, heq⟩)
    rw [data_drop_of_ne hne, hset₂.data, hset₁.data]
    apply h.data
    rcases List.mem_append.mp he with he | he
    · exact List.mem_append_left _ he
    · exact List.mem_append_right _ (List.mem_cons_of_mem c he)
  · have hchain := h.next_chain.unlink
    rw [h.next_eq] at hchain
    rw [next_drop, hset₂.next, hset₂.head, hset₁.next, hset₁.head, addresses_append]
    exact hchain.update (by simp [hxs, hcys])
  · have hchain := h.previous_chain.unlink
    rw [h.previous_eq, List.getLast?_reverse] at hchain
    rw [previous_drop, hset₂.previous, hset₂.tail, hset₁.previous, hset₁.tail,
      addresses_append, List.reverse_append]
    exact hchain.update (by simp [hxs, hcys])
  · rw [deleted_drop, hset₂.deleted, hset₁.deleted]
  · simp only [addresses_append, addresses_cons, List.mem_append, List.mem_cons, not_or] at ha
    obtain ⟨hxa, hne, hya⟩ := ha
    have hlast' : (addresses xs).getLast? ≠ some a := fun heq => hxa (List.mem_of_getLast? heq)
    have hhead' : (addresses ys).head? ≠ some a := fun heq => hya (List.mem_of_head? heq)
    have hnode' : (s₂.drop c.1).node a = s₂.node a := Function.update_of_ne hne _ _
    rw [hnode', hset₂.node a hhead', hset₁.node a hlast']

lemma node_put_put (hne : a ≠ b) (n n' : Node T) : ((s.put b n).put b n').node a = s.node a := by
  rw [node_put_of_ne hne, node_put_of_ne hne]

lemma data_insert (h : Represents s l (xs ++ ys)) (hb : s.data b = some d) :
    ∀ e ∈ xs ++ (b, d) :: ys, s.data e.1 = some e.2 := fun e he => by
  rcases List.mem_append.mp he with he | he
  · exact h.data e (List.mem_append_left _ he)
  · rcases List.mem_cons.mp he with rfl | he
    · exact hb
    · exact h.data e (List.mem_append_right _ he)

lemma insertAfter_spec (h : Represents s l (xs ++ c :: ys)) (hb : s.data b = some d)
    (hfresh : b ∉ addresses (xs ++ c :: ys)) :
    ∃ s' l', s.insertAfter l c.1 b = some (s', l') ∧ Represents s' l' (xs ++ c :: (b, d) :: ys) ∧
      Effect s s' (xs ++ c :: ys) (some b) [] := by
  obtain ⟨hbx, hbc, hby⟩ : b ∉ addresses xs ∧ b ≠ c.1 ∧ b ∉ addresses ys := by simpa using hfresh
  have hc : s.data c.1 = some c.2 := h.data c (by simp)
  let s₂ : Nodes T := (s.put b ⟨d, s.next b, some c.1⟩).put b ⟨d, (addresses ys).head?, some c.1⟩
  have hprevious₂ : s₂.previous = Function.update s.previous b (some c.1) := by simp [s₂]
  have hnext₂ : s₂.next = Function.update s.next b (addresses ys).head? := by simp [s₂]
  have hdata₂ : s₂.data = s.data := by simp [s₂, ← hb]
  obtain ⟨s₃, l₃, h₃, hset₃⟩ := @linkPrevious_spec T s₂ l (addresses ys).head? (some b) fun a ha =>
    hdata₂ ▸ h.isSome_head a ha
  have hdata₃ : s₃.data c.1 = some c.2 := by rw [hset₃.data, hdata₂, hc]
  refine ⟨s₃.put c.1 ⟨c.2, some b, s₃.previous c.1⟩, l₃, ?_, ⟨?_, ?_, ?_⟩, fun a => ?_, fun a ha hba => ?_⟩
  · have hb₁ : (s.put b ⟨d, s.next b, some c.1⟩).data b = some d := by simp
    have hput : (s.put b ⟨d, s.next b, some c.1⟩).put b
        ⟨d, (addresses ys).head?, (s.put b ⟨d, s.next b, some c.1⟩).previous b⟩ = s₂ := by simp [s₂]
    simp only [insertAfter, setPrevious_eq hb, node_put_of_ne hbc.symm, h.node_eq, setNext_eq hb₁, hput,
      h₃, setNext_eq hdata₃, Option.bind_eq_bind, Option.bind_some]
    rfl
  · have hlist : xs ++ c :: (b, d) :: ys = (xs ++ [c]) ++ (b, d) :: ys := by simp
    have hrep : Represents s l ((xs ++ [c]) ++ ys) := by simpa using h
    rw [data_put, ← hdata₃, Function.update_eq_self, hset₃.data, hdata₂, hlist]
    exact data_insert hrep hb
  · have hchain : Chain s₂.next l.head ((addresses xs ++ [c.1]) ++ addresses ys) := by
      rw [hnext₂]
      simpa using h.next_chain.update (by simp [hbx, hbc, hby])
    have hlinked := hchain.link (x := b) (by simp [hbx, hbc, hby]) (by simp [hnext₂])
    rw [List.getLast?_concat] at hlinked
    rw [next_put, hset₃.next, hset₃.head]
    simpa [relink] using hlinked
  · have hchain : Chain s₂.previous l.tail ((addresses ys).reverse ++ c.1 :: (addresses xs).reverse) := by
      rw [hprevious₂]
      exact h.previous_chain.update (by simp [hbx, hbc, hby])
    have hlinked := hchain.link (x := b) (by simp [hbx, hbc, hby]) (by simp [hprevious₂])
    rw [List.getLast?_reverse] at hlinked
    rw [previous_put, Function.update_eq_self, hset₃.previous, hset₃.tail]
    simpa using hlinked
  · rw [deleted_put, hset₃.deleted]
    rfl
  · obtain ⟨-, hac, hay⟩ : a ∉ addresses xs ∧ a ≠ c.1 ∧ a ∉ addresses ys := by simpa using ha
    have hab : a ≠ b := fun heq => hba (congrArg some heq.symm)
    rw [node_put_of_ne hac, hset₃.node a fun heq => hay (List.mem_of_head? heq), node_put_put hab]

lemma insertBefore_spec (h : Represents s l (xs ++ c :: ys)) (hb : s.data b = some d)
    (hfresh : b ∉ addresses (xs ++ c :: ys)) :
    ∃ s' l', s.insertBefore l c.1 b = some (s', l') ∧ Represents s' l' (xs ++ (b, d) :: c :: ys) ∧
      Effect s s' (xs ++ c :: ys) (some b) [] := by
  obtain ⟨hbx, hbc, hby⟩ : b ∉ addresses xs ∧ b ≠ c.1 ∧ b ∉ addresses ys := by simpa using hfresh
  have hc : s.data c.1 = some c.2 := h.data c (by simp)
  let s₂ : Nodes T := (s.put b ⟨d, some c.1, s.previous b⟩).put b ⟨d, some c.1, (addresses xs).getLast?⟩
  have hprevious₂ : s₂.previous = Function.update s.previous b (addresses xs).getLast? := by simp [s₂]
  have hnext₂ : s₂.next = Function.update s.next b (some c.1) := by simp [s₂]
  have hdata₂ : s₂.data = s.data := by simp [s₂, ← hb]
  obtain ⟨s₃, l₃, h₃, hset₃⟩ := @linkNext_spec T s₂ l (addresses xs).getLast? (some b) fun a ha =>
    hdata₂ ▸ h.isSome_getLast a ha
  have hdata₃ : s₃.data c.1 = some c.2 := by rw [hset₃.data, hdata₂, hc]
  refine ⟨s₃.put c.1 ⟨c.2, s₃.next c.1, some b⟩, l₃, ?_, ⟨?_, ?_, ?_⟩, fun a => ?_, fun a ha hba => ?_⟩
  · have hb₁ : (s.put b ⟨d, some c.1, s.previous b⟩).data b = some d := by simp
    have hput : (s.put b ⟨d, some c.1, s.previous b⟩).put b
        ⟨d, (s.put b ⟨d, some c.1, s.previous b⟩).next b, (addresses xs).getLast?⟩ = s₂ := by simp [s₂]
    simp only [insertBefore, setNext_eq hb, node_put_of_ne hbc.symm, h.node_eq, setPrevious_eq hb₁, hput,
      h₃, setPrevious_eq hdata₃, Option.bind_eq_bind, Option.bind_some]
    rfl
  · rw [data_put, ← hdata₃, Function.update_eq_self, hset₃.data, hdata₂]
    exact data_insert h hb
  · have hchain : Chain s₂.next l.head (addresses xs ++ c.1 :: addresses ys) := by
      rw [hnext₂]
      exact h.next_chain.update (by simp [hbx, hbc, hby])
    have hlinked := hchain.link (x := b) (by simp [hbx, hbc, hby]) (by simp [hnext₂])
    rw [next_put, Function.update_eq_self, hset₃.next, hset₃.head]
    simpa using hlinked
  · have hchain : Chain s₂.previous l.tail
        (((addresses ys).reverse ++ [c.1]) ++ (addresses xs).reverse) := by
      rw [hprevious₂]
      simpa using h.previous_chain.update (by simp [hbx, hbc, hby])
    have hlinked := hchain.link (x := b) (by simp [hbx, hbc, hby]) (by simp [hprevious₂])
    rw [List.getLast?_concat] at hlinked
    rw [previous_put, hset₃.previous, hset₃.tail]
    simpa [relink] using hlinked
  · rw [deleted_put, hset₃.deleted]
    rfl
  · obtain ⟨hax, hac, -⟩ : a ∉ addresses xs ∧ a ≠ c.1 ∧ a ∉ addresses ys := by simpa using ha
    have hab : a ≠ b := fun heq => hba (congrArg some heq.symm)
    rw [node_put_of_ne hac, hset₃.node a fun heq => hax (List.mem_of_getLast? heq), node_put_put hab]

/-! ### New nodes -/

lemma new_eq (h : s.node a = none) : s.new a d = some (s.put a ⟨d, none, none⟩) := by
  rw [new, h]
  rfl

/-- An address where there is no node is none of the list. -/
lemma Represents.notMem (h : Represents s l cells) (ha : s.node a = none) : a ∉ addresses cells := by
  intro hmem
  have hsome := h.isSome hmem
  rw [Nodes.data, ha] at hsome
  cases hsome

lemma Represents.put (h : Represents s l cells) (ha : a ∉ addresses cells) :
    Represents (s.put a n) l cells where
  data c hc := by
    have hne : c.1 ≠ a := fun heq => ha (mem_addresses.mpr ⟨c, hc, heq⟩)
    rw [data_put, Function.update_of_ne hne, h.data c hc]
  next := by
    rw [next_put]
    exact h.next.update ha
  previous := by
    rw [previous_put]
    exact h.previous.update fun hmem => ha (List.mem_reverse.mp hmem)

lemma Effect.of_put {removed : List ℕ} (h : Effect (s.put b n) s' cells (some b) removed) :
    Effect s s' cells (some b) removed where
  deleted := h.deleted
  node a ha hba := by
    rw [h.node a ha hba, node_put_of_ne fun heq => hba (congrArg some heq.symm)]

lemma represents_empty : Represents s .empty [] := ⟨by simp, rfl, rfl⟩

lemma represents_singleton : Represents (s.put a ⟨d, none, none⟩) ⟨some a, some a⟩ [(a, d)] where
  data := by simp
  next := by simp
  previous := by simp

lemma pushBack_spec (h : Represents s l cells) (ha : s.node a = none) :
    ∃ s' l', s.pushBack l a d = some (s', l') ∧ Represents s' l' (cells ++ [(a, d)]) ∧
      Effect s s' cells (some a) [] := by
  have hfresh := h.notMem ha
  have hput := @Represents.put T s l a ⟨d, none, none⟩ cells h hfresh
  have hdata : (s.put a ⟨d, none, none⟩).data a = some d := by simp
  rw [pushBack, new_eq ha, Option.bind_eq_bind, Option.bind_some, insertBack]
  rcases List.eq_nil_or_concat' cells with rfl | ⟨xs, c, rfl⟩
  · rw [chain_nil.mp h.previous]
    exact ⟨_, _, rfl, represents_singleton, Effect.of_put ⟨fun _ => rfl, fun _ _ _ => rfl⟩⟩
  · have htail : l.tail = some c.1 := by simpa using h.previous.head_eq
    obtain ⟨s', l', heq, hrep, heffect⟩ := insertAfter_spec hput hdata hfresh
    rw [htail]
    exact ⟨s', l', heq, by simpa using hrep, heffect.of_put⟩

lemma pushFront_spec (h : Represents s l cells) (ha : s.node a = none) :
    ∃ s' l', s.pushFront l a d = some (s', l') ∧ Represents s' l' ((a, d) :: cells) ∧
      Effect s s' cells (some a) [] := by
  have hfresh := h.notMem ha
  have hput := @Represents.put T s l a ⟨d, none, none⟩ cells h hfresh
  have hdata : (s.put a ⟨d, none, none⟩).data a = some d := by simp
  rw [pushFront, new_eq ha, Option.bind_eq_bind, Option.bind_some, insertFront]
  cases cells with
  | nil =>
    rw [chain_nil.mp h.previous]
    exact ⟨_, _, rfl, represents_singleton, Effect.of_put ⟨fun _ => rfl, fun _ _ _ => rfl⟩⟩
  | cons c cells =>
    have hhead : l.head = some c.1 := h.next.head_eq
    obtain ⟨t, htail⟩ : ∃ t, l.tail = some t := by
      rw [← Option.isSome_iff_exists, h.previous.head_eq]
      simp
    have hsplit : Represents _ l ([] ++ c :: cells) := hput
    obtain ⟨s', l', heq, hrep, heffect⟩ := insertBefore_spec hsplit hdata hfresh
    rw [htail, hhead]
    exact ⟨s', l', heq, hrep, heffect.of_put⟩

/-- The loop of `clear` deletes every node. -/
lemma clearFrom_spec {fuel : ℕ} (hdata : ∀ c ∈ cells, s.data c.1 = some c.2)
    (hchain : Chain s.next p (addresses cells)) (hfuel : cells.length ≤ fuel) :
    ∃ s', clearFrom fuel s p = some s' ∧ Effect s s' cells none (addresses cells) := by
  induction cells generalizing s p fuel with
  | nil =>
    obtain rfl := chain_nil.mp hchain
    exact ⟨s, by cases fuel <;> rfl, fun _ => rfl, fun _ _ _ => rfl⟩
  | cons c cells ih =>
    obtain ⟨rfl, hrest⟩ := hchain
    have hc := hdata c List.mem_cons_self
    have hnotMem : c.1 ∉ addresses cells :=
      (List.nodup_cons.mp (chain_cons.mpr ⟨rfl, hrest⟩ : Chain s.next (some c.1) (c.1 :: _)).nodup).1
    cases fuel with
    | zero => cases hfuel
    | succ fuel =>
      obtain ⟨s', hs', heffect⟩ := @ih (s.drop c.1) (s.next c.1) fuel (fun e he => by
          have hne : e.1 ≠ c.1 := fun heq => hnotMem (mem_addresses.mpr ⟨e, he, heq⟩)
          rw [data_drop_of_ne hne, hdata e (List.mem_cons_of_mem c he)])
        (next_drop ▸ hrest.update hnotMem) (Nat.le_of_succ_le_succ hfuel)
      refine ⟨s', ?_, fun a => ?_, fun a ha _ => ?_⟩
      · rw [clearFrom, Nodes.node_eq hc, Option.bind_eq_bind, Option.bind_some, delete_eq hc]
        exact hs'
      · have hcount : (addresses (c :: cells)).count a = [c.1].count a + (addresses cells).count a :=
          @List.count_append ℕ _ a [c.1] (addresses cells)
        rw [heffect.deleted, deleted_drop, hcount, Nat.add_assoc]
      · obtain ⟨hne, ha⟩ : a ≠ c.1 ∧ a ∉ addresses cells := by simpa using ha
        rw [heffect.node a ha (by simp), drop]
        exact Function.update_of_ne hne _ _

end Nodes

end PiKachulm.Libk

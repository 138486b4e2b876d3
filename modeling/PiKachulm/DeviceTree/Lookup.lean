import PiKachulm.DeviceTree.Traversal
import Mathlib.Data.List.Forall2

/-!
# Looking up paths

`find_node` follows a path from the root, one component at a time, and `find_property` looks for a
property in the node that the path without its last component leads to. Both write what they find, and
nothing when there is nothing to be found.
-/

namespace PiKachulm.DeviceTree

open Core Libk

/-- The character `/`. -/
def slash : UInt8 := 0x2f

/-! ### The functions -/

section

variable (mem : ℕ → Option UInt8) (p : DeviceTreeParser)

/-- The first element that satisfies the test, of those an iterator goes through. -/
def search {α : Type} (get : ℕ → Option α) (test : α → Option Bool) (next : ℕ → Option (Option ℕ)) :
    ℕ → Option ℕ → Option (Option α)
  | 0, _                  => none
  | _ + 1, none           => some none
  | fuel + 1, some offset => do
    let a ← get offset
    let found ← test a
    if found then some (some a)
    else do
      let it ← next offset
      search get test next fuel it

/-- `n.get_name() == child_name`. -/
def Node.isCalled (childName : StringView) (n : Node) : Option Bool := do
  let name ← n.getName mem
  StringView.eq mem name childName

def Property.isCalled (propertyName : StringView) (q : Property) : Option Bool :=
  StringView.eq mem q.name propertyName

def Node.findChild (fuel : ℕ) (n : Node) (childName : StringView) : Option (Option Node) := do
  let it ← p.findNextNode mem fuel n.off
  search (p.node mem) (Node.isCalled mem childName) (p.nextNode mem fuel) fuel it

def Node.findProperty (fuel : ℕ) (n : Node) (propertyName : StringView) (out : Property) :
    Option (Bool × Property) := do
  let it ← p.findNextProperty mem fuel n.off
  let found ← search (p.property mem) (Property.isCalled mem propertyName) (p.nextProperty mem fuel)
    fuel it
  match found with
  | none => some (false, out)
  | some q => some (true, q)

/-- The loop of `find_node`. -/
def findNodeFrom (next : ℕ) (path : StringView) (out : Node) :
    ℕ → ℕ → Node → Option (Bool × Node)
  | 0, _, _ => none
  | fuel + 1, start, node =>
    if start < path.length then do
      let nextDelim ← strchrnul mem (path.data + start) slash
      let nodeNameLength := nextDelim - path.data - start
      let child ← node.findChild mem p next ⟨path.data + start, nodeNameLength⟩
      match child with
      | none => some (false, out)
      | some child =>
        let start := start + nodeNameLength
        findNodeFrom next path out fuel (if start < path.length then start + 1 else start) child
    else some (true, node)

def findNode (fuel : ℕ) (path : StringView) (out : Node) : Option (Bool × Node) :=
  if p.dts = 0 then some (false, out)
  else do
    let root ← p.node mem p.structOfs
    if path.length = 0 then findNodeFrom mem p fuel path out fuel 0 root
    else do
      let first ← mem path.data
      findNodeFrom mem p fuel path out fuel (if first = slash then 1 else 0) root

def findProperty (fuel : ℕ) (path : StringView) (out : Property) : Option (Bool × Property) := do
  let lastDelim ← path.rfind mem slash
  if lastDelim = path.data + path.length then
    if p.dts = 0 then some (false, out)
    else do
      let root ← p.node mem p.structOfs
      root.findProperty mem p fuel path out
  else do
    let (found, node) ← findNode mem p fuel ⟨path.data, lastDelim - path.data⟩ ⟨0, 0⟩
    if found then do
      let name ← StringView.ofString mem (lastDelim + 1)
      node.findProperty mem p fuel name out
    else some (false, out)

end

/-! ### What they are for -/

/-- The components of a path. A slash at its start and one at its end do not matter. -/
def components (path : List UInt8) : List (List UInt8) :=
  let parts := (if path.head? = some slash then path.tail else path).splitOn slash
  if parts.getLast? = some [] then parts.dropLast else parts

def Item.name : Item → List UInt8
  | .node name _ => name
  | _ => []

def Item.items : Item → List Item
  | .node _ items => items
  | _ => []

/-- The node that a path leads to from the node at an offset: at each level the first child of that
name. -/
def follow : ℕ → Item → List (List UInt8) → Option (ℕ × Item)
  | offset, item, [] => some (offset, item)
  | offset, item, name :: names =>
    ((childrenAt (offset + (nodeHeader item.name).length) item.items).find?
      fun child => child.2.name = name).bind fun child => follow child.1 child.2 names

/-- What `find_node` does: it writes the node that the path leads to, if there is one. -/
def NodeFound (mem : ℕ → Option UInt8) (p : DeviceTreeParser) (root : Item) (path : List UInt8)
    (out : Node) (r : Bool × Node) : Prop :=
  match follow p.structOfs root (components path) with
  | none => r = (false, out)
  | some (offset, _) => r.1 = true ∧ p.node mem offset = some r.2

/-- What `find_property` does: it writes the first property of that name of the node that the path leads
to. -/
def PropertyFound (mem : ℕ → Option UInt8) (p : DeviceTreeParser) (root : Item)
    (path name : List UInt8) (out : Property) (r : Bool × Property) : Prop :=
  match (follow p.structOfs root (components path)).bind fun node =>
      (ownProperties node.2.items).find? fun property => property.1 = name with
  | none => r = (false, out)
  | some property => r.1 = true ∧ r.2.content mem = some property

/-! ### Components -/

/-- The components of a path that does not start with a slash. -/
def pieces (path : List UInt8) : List (List UInt8) :=
  if (path.splitOn slash).getLast? = some [] then (path.splitOn slash).dropLast
  else path.splitOn slash

lemma components_eq (path : List UInt8) :
    components path = pieces (if path.head? = some slash then path.tail else path) := by
  rw [components, pieces]

variable {s t : List UInt8}

@[simp] lemma pieces_nil : pieces [] = [] := by decide

lemma pieces_of_notMem (hs : s ≠ []) (h : slash ∉ s) : pieces s = [s] := by
  rw [pieces, List.splitOn_eq_singleton h, if_neg]
  simpa using hs

lemma pieces_append (h : slash ∉ s) : pieces (s ++ slash :: t) = s :: pieces t := by
  have hsplit : (s ++ slash :: t).splitOn slash = s :: t.splitOn slash := by
    rw [List.splitOn_append_cons_self, List.splitOn_eq_singleton h]
    rfl
  obtain ⟨first, parts, hparts⟩ := List.exists_cons_of_ne_nil (List.splitOn_ne_nil slash t)
  rw [pieces, pieces, hsplit, hparts, List.getLast?_cons_cons, List.dropLast_cons_cons]
  split_ifs
  · rfl
  · rfl

/-- A path has a slash, or it has none. -/
lemma exists_first_slash (s : List UInt8) :
    slash ∉ s ∨ ∃ t u, s = t ++ slash :: u ∧ slash ∉ t := by
  induction s with
  | nil => exact .inl List.not_mem_nil
  | cons b s ih =>
    by_cases hb : b = slash
    · exact .inr ⟨[], s, by rw [hb]; rfl, List.not_mem_nil⟩
    · rcases ih with hs | ⟨t, u, rfl, ht⟩
      · exact .inl fun hmem => (List.mem_cons.mp hmem).elim (fun heq => hb heq.symm) hs
      · refine .inr ⟨b :: t, u, rfl, fun hmem => ?_⟩
        exact (List.mem_cons.mp hmem).elim (fun heq => hb heq.symm) ht

/-! ### Searching -/

variable {mem : ℕ → Option UInt8} {p : DeviceTreeParser} {offset fuel next : ℕ} {name : List UInt8}
  {items : List Item} {item root : Item}

/-- The search stops at the first element of the iteration that satisfies the test. -/
lemma search_eq {α β : Type} {get : ℕ → Option α} (test : α → Option Bool)
    {step : ℕ → Option (Option ℕ)} {n : ℕ} {it : Option ℕ} {as : List α} {ys : List β}
    (c : β → Bool) (R : β → α → Prop) (h : Node.collect get step n it = some as)
    (hall : List.Forall₂ (fun y a => test a = some (c y) ∧ R y a) ys as) :
    ∃ r, search get test step n it = some r ∧ Option.Rel R (ys.find? c) r := by
  induction n generalizing it as ys with
  | zero => cases h
  | succ n ih =>
    cases it with
    | none =>
      cases h
      cases hall
      exact ⟨none, rfl, .none⟩
    | some offset =>
      simp only [Node.collect, Option.bind_eq_bind, Option.bind_eq_some_iff] at h
      obtain ⟨a, ha, it, hit, rest, hrest, h⟩ := h
      cases h
      obtain _ | @⟨y, _, ys, _, ⟨htest, hR⟩, hys⟩ := hall
      by_cases hc : c y = true
      · refine ⟨some a, ?_, ?_⟩
        · rw [search, ha]
          simp [htest, hc]
        · rw [List.find?_cons_of_pos hc]
          exact .some hR
      · obtain ⟨r, hr, hrel⟩ := ih hrest hys
        refine ⟨r, ?_, ?_⟩
        · rw [search, ha]
          simp [htest, hc, hit, hr]
        · rw [List.find?_cons_of_neg hc]
          exact hrel

/-- The node that is stored at an offset. -/
def nodeAt (p : DeviceTreeParser) (offset : ℕ) (item : Item) : Node :=
  ⟨p.getString (offset + 4), offset + (nodeHeader item.name).length⟩

/-- A node is stored at the offset. -/
structure NodeStored (mem : ℕ → Option UInt8) (p : DeviceTreeParser) (next offset : ℕ) (item : Item) :
    Prop where
  isNode : ∃ name items, item = .node name items
  stored : Stored mem p offset item.encode
  named : item.Named mem p
  enough : item.encode.length ≤ next

lemma NodeStored.walks (h : NodeStored mem p next offset item) :
    Walks mem p next offset item.name item.items (nodeAt p offset item) := by
  obtain ⟨⟨name, items, rfl⟩, hstored, hnamed, henough⟩ := h
  exact walks_of_stored hstored hnamed henough

lemma isNode_of_mem_childrenAt (items : List Item) {o : ℕ} (h : (o, item) ∈ childrenAt offset items) :
    ∃ name items, item = .node name items := by
  induction items generalizing offset with
  | nil => exact absurd h List.not_mem_nil
  | cons first items ih =>
    cases first with
    | node name children =>
      rw [childrenAt, List.mem_cons] at h
      rcases h with heq | h
      · cases heq
        exact ⟨name, children, rfl⟩
      · exact ih h
    | nop =>
      rw [childrenAt] at h
      · exact ih h
      · exact fun _ _ heq => Item.noConfusion heq
    | prop name nameOffset value =>
      rw [childrenAt] at h
      · exact ih h
      · exact fun _ _ heq => Item.noConfusion heq

/-- The children of a stored node are stored. -/
lemma NodeStored.child (h : NodeStored mem p next offset item) {o : ℕ} {child : Item}
    (hmem : (o, child) ∈ childrenAt (offset + (nodeHeader item.name).length) item.items) :
    NodeStored mem p next o child := by
  obtain ⟨⟨name, items, rfl⟩, hstored, hnamed, henough⟩ := h
  rw [Item.Named] at hnamed
  rw [length_node] at henough
  obtain ⟨hstored', hnamed', hle⟩ :=
    stored_of_mem_childrenAt items hstored.behindHeader hnamed.2 hmem
  exact ⟨isNode_of_mem_childrenAt items hmem, hstored', hnamed', by omega⟩

lemma NodeStored.isCalled (h : NodeStored mem p next offset item) {v : StringView}
    (hv : v.Shows mem name) :
    (nodeAt p offset item).isCalled mem v = some (decide (item.name = name)) := by
  obtain ⟨w, hw, hread⟩ := Option.bind_eq_some_iff.mp h.walks.called
  obtain ⟨hlength, hreads⟩ := readBytes_eq_some_iff.mp hread
  have hzero : 0 ∉ item.name := by
    obtain ⟨⟨name, items, rfl⟩, -, hnamed, -⟩ := h
    rw [Item.Named] at hnamed
    exact hnamed.1
  rw [Node.isCalled, hw]
  exact StringView.eq_iff ⟨hreads, hlength.symm⟩ hv hzero

/-- `find_child` finds the first child of that name. -/
lemma NodeStored.findChild (h : NodeStored mem p next offset item) {v : StringView}
    (hv : v.Shows mem name) : (nodeAt p offset item).findChild mem p next v =
      some (((childrenAt (offset + (nodeHeader item.name).length) item.items).find?
        fun child => child.2.name = name).map fun child => nodeAt p child.1 child.2) := by
  obtain ⟨cs, hcs, hall⟩ := h.walks.children
  obtain ⟨it, hit, hcollect⟩ := Option.bind_eq_some_iff.mp hcs
  have hstored : List.Forall₂ (fun (child : ℕ × Item) c =>
      NodeStored mem p next child.1 child.2 ∧ p.node mem child.1 = some c) _ cs :=
    (List.forall₂_and_left _ _).mpr ⟨fun child hmem => h.child hmem, hall⟩
  obtain ⟨r, hr, hrel⟩ := search_eq (Node.isCalled mem v)
    (fun child : ℕ × Item => child.2.name = name) (fun (child : ℕ × Item) c => c = nodeAt p child.1 child.2)
    hcollect (hstored.imp fun child c ⟨hchild, hc⟩ => by
      cases Option.some_inj.mp (hc.symm.trans hchild.walks.node)
      exact ⟨hchild.isCalled hv, rfl⟩)
  rw [Node.findChild, hit]
  refine hr.trans (congrArg some ?_)
  generalize List.find? _ _ = found at hrel ⊢
  cases hrel with
  | none => rfl
  | some hc => rw [hc, Option.map_some]

/-- `find_property` finds the first property of that name. -/
lemma NodeStored.findProperty (h : NodeStored mem p next offset item) {v : StringView}
    (hv : v.Shows mem name) (out : Property) :
    ∃ r, (nodeAt p offset item).findProperty mem p next v out = some r ∧
      match (ownProperties item.items).find? fun property => property.1 = name with
      | none => r = (false, out)
      | some property => r.1 = true ∧ r.2.content mem = some property := by
  obtain ⟨⟨nodeName, items, rfl⟩, hstored, hnamed, henough⟩ := h
  have hitems := hstored.behindHeader
  have hcount := length_le_encodeAll items
  have hlength : (encodeAll items ++ endNode).length = (encodeAll items).length + 4 := by
    rw [List.length_append, endNode, length_beBytes]
  rw [Item.Named] at hnamed
  rw [length_node] at henough
  have hle : (encodeAll items ++ endNode).length ≤ next := by omega
  obtain ⟨it, hit, hcollect⟩ := Option.bind_eq_some_iff.mp
    (collect_properties items hitems hnamed.2 hle hle (show items.length < next by omega))
  obtain ⟨r, hr, hrel⟩ := search_eq (Property.isCalled mem v)
    (fun own : List UInt8 × ℕ × List UInt8 => own.1 = name)
    (fun own q => q.content mem = some own) hcollect
    ((represents_propertiesAt items hitems hnamed.2).imp fun own q hq =>
      ⟨StringView.eq_iff hq.name hv hq.zero, hq.content⟩)
  have hfind : (nodeAt p offset (.node nodeName items)).findProperty mem p next v out =
      some (r.elim (false, out) fun q => (true, q)) := by
    rw [Node.findProperty]
    change (p.findNextProperty mem next _).bind _ = _
    rw [show (nodeAt p offset (.node nodeName items)).off = offset + (nodeHeader nodeName).length
      from rfl, hit]
    change (search _ _ _ _ it).bind _ = _
    rw [hr]
    cases r <;> rfl
  refine ⟨_, hfind, ?_⟩
  rw [show (Item.node nodeName items).items = items from rfl]
  generalize List.find? _ _ = found at hrel ⊢
  cases hrel with
  | none => rfl
  | some hq => exact ⟨rfl, hq⟩

/-! ### Following a path -/

/-- One iteration of `find_node`, with the component `t` in front of a slash or of the end. -/
lemma findNodeFrom_component {path : StringView} {out : Node} {rest : List UInt8} {d : UInt8}
    {start n : ℕ} (h : NodeStored mem p next offset item) (hd : d = 0 ∨ d = slash)
    (hreads : Reads mem (path.data + start) (t ++ d :: rest)) (hzero : 0 ∉ t) (hslash : slash ∉ t)
    (hlt : t.length < 2 ^ 64) (hstart : start < path.length) :
    findNodeFrom mem p next path out (n + 1) start (nodeAt p offset item) =
      ((childrenAt (offset + (nodeHeader item.name).length) item.items).find?
        fun child => child.2.name = t).elim (some (false, out)) fun child =>
          findNodeFrom mem p next path out n
            (if start + t.length < path.length then start + t.length + 1 else start + t.length)
            (nodeAt p child.1 child.2) := by
  have hdelim : strchrnul mem (path.data + start) slash = some (path.data + start + t.length) :=
    strchrnul_eq hzero hslash hd hreads (lt_maxLength hlt)
  have hlength : path.data + start + t.length - path.data - start = t.length := by omega
  have hview : (StringView.mk (path.data + start) t.length).Shows mem t :=
    ⟨(reads_append.mp hreads).1, rfl⟩
  rw [findNodeFrom, if_pos hstart, hdelim, Option.bind_eq_bind, Option.bind_some]
  simp only [hlength, h.findChild hview]
  cases (childrenAt (offset + (nodeHeader item.name).length) item.items).find? fun child =>
    child.2.name = t with
  | none => rfl
  | some child => rfl

/-- The loop of `find_node`, with `s` left of the path. -/
lemma findNodeFrom_eq {path : StringView} {out : Node} {rest : List UInt8} {c : UInt8}
    (hc : c = 0 ∨ c = slash) (hlt : path.length < 2 ^ 64) {start n : ℕ} (h : NodeStored mem p next offset item)
    (hreads : Reads mem (path.data + start) (s ++ c :: rest)) (hzero : 0 ∉ s)
    (hlength : path.length = start + s.length) (hn : s.length < n) :
    ∃ r, findNodeFrom mem p next path out n start (nodeAt p offset item) = some r ∧
      match follow offset item (pieces s) with
      | none => r = (false, out)
      | some (o, _) => r.1 = true ∧ p.node mem o = some r.2 := by
  induction n generalizing offset item start s with
  | zero => exact absurd hn (Nat.not_lt_zero _)
  | succ n ih =>
    rw [findNodeFrom]
    by_cases hempty : s = []
    · subst hempty
      rw [if_neg (by rw [hlength]; exact Nat.lt_irrefl _), pieces_nil]
      exact ⟨_, rfl, rfl, h.walks.node⟩
    have hpos : 0 < s.length := List.length_pos_of_ne_nil hempty
    rw [← findNodeFrom]
    obtain hslash | ⟨t, u, rfl, hslash⟩ := exists_first_slash s
    · rw [findNodeFrom_component h hc hreads hzero hslash (by omega) (by omega),
        pieces_of_notMem hempty hslash, follow]
      cases hfind : (childrenAt (offset + (nodeHeader item.name).length) item.items).find?
          fun child => child.2.name = s with
      | none => exact ⟨_, rfl, rfl⟩
      | some child =>
        have hchild := h.child (List.mem_of_find?_eq_some hfind)
        have hreads' : Reads mem (path.data + (start + s.length)) ([] ++ c :: rest) := by
          rw [← Nat.add_assoc]
          exact (reads_append.mp hreads).2
        have hrest := ih hchild hreads' List.not_mem_nil (by simpa using hlength)
          (by rw [List.length_nil]; omega)
        rw [pieces_nil] at hrest
        rw [Option.elim_some, if_neg (by omega), Option.bind_some]
        exact hrest
    · rw [List.append_assoc, List.cons_append] at hreads
      rw [List.length_append, List.length_cons] at hlength hn
      have hzero' : 0 ∉ t ∧ 0 ∉ u := by
        simp only [List.mem_append, List.mem_cons, not_or] at hzero
        exact ⟨hzero.1, hzero.2.2⟩
      rw [findNodeFrom_component h (.inr rfl) hreads hzero'.1 hslash (by omega) (by omega),
        pieces_append hslash, follow]
      cases hfind : (childrenAt (offset + (nodeHeader item.name).length) item.items).find?
          fun child => child.2.name = t with
      | none => exact ⟨_, rfl, rfl⟩
      | some child =>
        have hchild := h.child (List.mem_of_find?_eq_some hfind)
        have hreads' : Reads mem (path.data + (start + t.length + 1)) (u ++ c :: rest) := by
          rw [← Nat.add_assoc, ← Nat.add_assoc]
          exact (reads_cons.mp (reads_append.mp hreads).2).2
        rw [Option.elim_some, if_pos (by omega), Option.bind_some]
        exact ih hchild hreads' hzero'.2 (by omega) (by omega)

/-- What a path leads to is stored. -/
lemma NodeStored.follow (h : NodeStored mem p next offset item) {names : List (List UInt8)} {o : ℕ}
    {target : Item} (hfollow : follow offset item names = some (o, target)) :
    NodeStored mem p next o target := by
  induction names generalizing offset item with
  | nil =>
    rw [DeviceTree.follow] at hfollow
    cases hfollow
    exact h
  | cons name names ih =>
    rw [DeviceTree.follow] at hfollow
    obtain ⟨child, hchild, hrest⟩ := Option.bind_eq_some_iff.mp hfollow
    exact ih (h.child (List.mem_of_find?_eq_some hchild)) hrest

/-- A whole tree is stored in the structure block. -/
structure TreeStored (mem : ℕ → Option UInt8) (p : DeviceTreeParser) (root : Item) : Prop where
  dts : p.dts ≠ 0
  isNode : ∃ name items, root = .node name items
  stored : Stored mem p p.structOfs root.encode
  named : root.Named mem p

lemma TreeStored.nodeStored (h : TreeStored mem p root) (hfuel : root.encode.length ≤ fuel) :
    NodeStored mem p fuel p.structOfs root := ⟨h.isNode, h.stored, h.named, hfuel⟩

/-- A path is cut in front of a NUL or a slash. -/
structure PathShown (mem : ℕ → Option UInt8) (path : StringView) (s : List UInt8) : Prop where
  reads : ∃ c rest, (c = 0 ∨ c = slash) ∧ Reads mem path.data (s ++ c :: rest)
  length : path.length = s.length
  zero : 0 ∉ s
  fits : s.length < 2 ^ 64

lemma findNode_found (h : TreeStored mem p root) {path : StringView} {s : List UInt8}
    (hpath : PathShown mem path s) (hfuel : root.encode.length ≤ fuel) (hs : s.length < fuel)
    (out : Node) :
    ∃ r, findNode mem p fuel path out = some r ∧ NodeFound mem p root s out r := by
  have hroot := h.nodeStored hfuel
  obtain ⟨⟨c, rest, hc, hreads⟩, hlength, hzero, hfits⟩ := hpath
  rw [findNode, if_neg h.dts, hroot.walks.node, Option.bind_eq_bind, Option.bind_some]
  simp only [NodeFound, components_eq]
  cases s with
  | nil =>
    rw [if_pos (show path.length = 0 from hlength)]
    have hstart : Reads mem (path.data + 0) ([] ++ c :: rest) := hreads
    exact findNodeFrom_eq hc (by omega) hroot hstart hzero (hlength.trans (Nat.zero_add _).symm) hs
  | cons b s =>
    rw [List.length_cons] at hlength hs hfits
    obtain ⟨hb, hreads'⟩ := reads_cons.mp hreads
    rw [if_neg (by omega), hb, Option.bind_eq_bind, Option.bind_some, List.head?_cons]
    by_cases hslash : b = slash
    · rw [if_pos hslash, if_pos (by rw [hslash]), List.tail_cons]
      exact findNodeFrom_eq hc (by omega) hroot hreads'
        (fun hmem => hzero (List.mem_cons_of_mem _ hmem)) (by omega) (by omega)
    · rw [if_neg hslash, if_neg fun heq => hslash (Option.some_inj.mp heq)]
      exact findNodeFrom_eq hc (by omega) hroot hreads hzero (by rw [List.length_cons]; omega)
        (by rw [List.length_cons]; omega)

/-- The path of a property ends with a slash and the name, in front of a NUL. -/
structure PropertyPathShown (mem : ℕ → Option UInt8) (path : StringView) (s name : List UInt8) :
    Prop where
  reads : ∃ rest, Reads mem path.data (s ++ slash :: (name ++ 0 :: rest))
  length : path.length = s.length + 1 + name.length
  zero : 0 ∉ s
  name_zero : 0 ∉ name
  name_slash : slash ∉ name
  fits : path.length < 2 ^ 64

lemma findProperty_found (h : TreeStored mem p root) {path : StringView} {s t : List UInt8}
    (hpath : PropertyPathShown mem path s t) (hfuel : root.encode.length ≤ fuel)
    (hlt : path.length < fuel) (out : Property) :
    ∃ r, findProperty mem p fuel path out = some r ∧ PropertyFound mem p root s t out r := by
  obtain ⟨⟨rest, hreads⟩, hlength, hs, ht, hslash, hfits⟩ := hpath
  have hshows : path.Shows mem (s ++ slash :: t) := by
    refine ⟨?_, by rw [hlength, List.length_append, List.length_cons]; omega⟩
    have hassoc : s ++ slash :: (t ++ 0 :: rest) = (s ++ slash :: t) ++ 0 :: rest := by simp
    rw [hassoc] at hreads
    exact (reads_append.mp hreads).1
  have hprefix : PathShown mem ⟨path.data, s.length⟩ s :=
    ⟨⟨slash, _, .inr rfl, hreads⟩, rfl, hs, by omega⟩
  obtain ⟨⟨found, node⟩, hnode, hfollow⟩ :=
    findNode_found h hprefix hfuel (show s.length < fuel by omega) ⟨0, 0⟩
  have hname := (reads_cons.mp (reads_append.mp hreads).2).2
  have hview : StringView.ofString mem (path.data + s.length + 1) =
      some ⟨path.data + s.length + 1, t.length⟩ :=
    StringView.ofString_eq ht hname (lt_maxLength (by omega))
  have hview' : StringView.Shows mem ⟨path.data + s.length + 1, t.length⟩ t :=
    ⟨(reads_append.mp hname).1, rfl⟩
  rw [findProperty, StringView.rfind_last hshows hslash, Option.bind_eq_bind, Option.bind_some,
    if_neg (by omega), Nat.add_sub_cancel_left, hnode]
  simp only [PropertyFound, NodeFound] at hfollow ⊢
  cases hwhere : follow p.structOfs root (components s) with
  | none =>
    rw [hwhere] at hfollow
    cases hfollow
    exact ⟨_, rfl, rfl⟩
  | some target =>
    rw [hwhere] at hfollow
    obtain ⟨rfl, hfound⟩ := hfollow
    have htarget := (h.nodeStored hfuel).follow hwhere
    cases Option.some_inj.mp (hfound.symm.trans htarget.walks.node)
    simp only [hview, Option.bind_some]
    exact htarget.findProperty hview' out

/-- `find_node` returns the node that a path leads to, and `find_property` the first property of that
name of the node that the path in front of the name leads to. -/
theorem lookups_found (h : TreeStored mem p root) (hfuel : root.encode.length ≤ fuel) :
    (∀ path s, PathShown mem path s → s.length < fuel → ∀ out,
      ∃ r, findNode mem p fuel path out = some r ∧ NodeFound mem p root s out r) ∧
    ∀ path s name, PropertyPathShown mem path s name → path.length < fuel → ∀ out,
      ∃ r, findProperty mem p fuel path out = some r ∧ PropertyFound mem p root s name out r :=
  ⟨fun _ _ hpath hlt out => findNode_found h hpath hfuel hlt out,
    fun _ _ _ hpath hlt out => findProperty_found h hpath hfuel hlt out⟩

/-- The path `/b/a`, behind the blob. -/
def pathMemory (a : ℕ) : Option UInt8 :=
  if a < 8 then none else (smallBlob ++ [slash, 98, slash, 97, 0])[a - 8]?

def smallPath : StringView := ⟨8 + smallBlob.length, 4⟩

lemma treeStored_smallTree : TreeStored pathMemory smallParser smallTree where
  dts := by decide
  isNode := ⟨_, _, rfl⟩
  stored := by
    have hread : readBytes pathMemory smallTree.encode.length 12 = some smallTree.encode := by
      decide +kernel
    exact ⟨(readBytes_eq_some_iff.mp hread).2, rfl, by decide +kernel⟩
  named := by
    have hread : readBytes pathMemory 2 8 = some ([97] ++ [0]) := by decide +kernel
    have hprop : ∀ value : List UInt8, value.length < 2 ^ 32 →
        (Item.prop [97] 0 value).Named pathMemory smallParser :=
      fun value hvalue => ⟨by decide, by decide, (readBytes_eq_some_iff.mp hread).2, hvalue⟩
    exact ⟨by decide, hprop [7] (by decide), ⟨by decide, hprop _ (by decide), trivial,
      hprop _ (by decide), trivial⟩, trivial, trivial⟩

lemma smallPath_shown : PropertyPathShown pathMemory smallPath [slash, 98] [97] where
  reads := by
    have hread : readBytes pathMemory 5 smallPath.data = some ([slash, 98] ++ slash :: ([97] ++ 0 :: [])) := by
      decide +kernel
    exact ⟨[], (readBytes_eq_some_iff.mp hread).2⟩
  length := rfl
  zero := by decide
  name_zero := by decide
  name_slash := by decide
  fits := by decide

/-- The property `/b/a` of the small tree. -/
theorem lookups_found_smallPath : ∃ r, findProperty pathMemory smallParser 100 smallPath ⟨⟨0, 0⟩, 0, 0⟩ =
    some r ∧ r.1 = true ∧ r.2.content pathMemory = some ([97], 3, [1, 2, 3]) := by
  have hfuel : smallTree.encode.length ≤ 100 := by decide +kernel
  exact (lookups_found treeStored_smallTree hfuel).2 smallPath _ _ smallPath_shown (by decide) _

end PiKachulm.DeviceTree

import PiKachulm.DeviceTree.Encoding

/-!
# Walking through the tree

`skip_node` ends just behind the node it starts at, and the iterators of a node go through its own
properties and through its children.
-/

namespace PiKachulm.DeviceTree

open Core Libk

variable {mem : ℕ → Option UInt8} {p : DeviceTreeParser} {offset fuel n : ℕ}
  {name : List UInt8} {items : List Item} {item : Item}

/-- The end of a node. -/
def endNode : List UInt8 := beBytes dtbEndNode

/-- What the loops of the parser find behind a node header: items, and the end of the node. -/
lemma stored_cons (h : Stored mem p offset (encodeAll (item :: items) ++ endNode)) :
    Stored mem p offset (item.encode ++ (encodeAll items ++ endNode)) := by
  rwa [encodeAll, List.append_assoc] at h

lemma Stored.rest (h : Stored mem p offset (encodeAll (item :: items) ++ endNode)) :
    Stored mem p (offset + item.encode.length) (encodeAll items ++ endNode) :=
  (stored_cons h).right (length_encode_mod item)

lemma length_cons_end : (encodeAll (item :: items) ++ endNode).length =
    item.encode.length + (encodeAll items ++ endNode).length := by
  rw [encodeAll, List.append_assoc, List.length_append]

lemma length_append_endNode : (encodeAll items ++ endNode).length = (encodeAll items).length + 4 := by
  rw [List.length_append, endNode, length_beBytes]

lemma length_nodeHeader_pos : 0 < (nodeHeader name).length := by
  rw [length_nodeHeader]
  exact Nat.add_pos_left (by decide) _

lemma Stored.behindHeader (h : Stored mem p offset (Item.node name items).encode) :
    Stored mem p (offset + (nodeHeader name).length) (encodeAll items ++ endNode) := by
  rw [Item.encode] at h
  refine h.right ?_
  rw [length_nodeHeader, Nat.add_mod, alignedLength_mod]

/-! ### The token of an item -/

lemma token_end (h : Stored mem p offset (encodeAll [] ++ endNode)) :
    p.getUint32 mem offset = some dtbEndNode := by
  have h' : Stored mem p offset (beBytes dtbEndNode ++ []) := by
    rw [List.append_nil]
    exact h
  exact h'.getUint32 (by decide)

lemma token_nop (h : Stored mem p offset (encodeAll (.nop :: items) ++ endNode)) :
    p.getUint32 mem offset = some dtbNop := by
  have h' := stored_cons h
  rw [Item.encode] at h'
  exact h'.getUint32 (by decide)

lemma token_prop {nameOffset : ℕ} {value : List UInt8}
    (h : Stored mem p offset (encodeAll (.prop name nameOffset value :: items) ++ endNode)) :
    p.getUint32 mem offset = some dtbProp := by
  have h' := (stored_cons h).left
  rw [Item.encode] at h'
  exact Stored.getUint32 h' (by decide)

lemma token_node {children : List Item}
    (h : Stored mem p offset (encodeAll (.node name children :: items) ++ endNode)) :
    p.getUint32 mem offset = some dtbBeginNode := by
  have h' := (stored_cons h).left
  rw [Item.encode] at h'
  exact Stored.getUint32 h'.left (by decide)

/-! ### Skipping -/

lemma skipProperty_stored {nameOffset : ℕ} {value : List UInt8}
    (h : Stored mem p offset (Item.prop name nameOffset value).encode)
    (hn : (Item.prop name nameOffset value).Named mem p) :
    p.skipProperty mem offset = some (offset + (Item.prop name nameOffset value).encode.length) := by
  rw [Item.encode] at h ⊢
  exact h.skipProperty hn.2.2.2

/-- `skip_node` returns the offset behind the end of a node when its loop does. -/
lemma skipNode_of_skipItems (h : Stored mem p offset (Item.node name items).encode)
    (hn : (Item.node name items).Named mem p)
    (hitems : p.skipItems mem fuel (offset + (nodeHeader name).length) =
      some (offset + (nodeHeader name).length + (encodeAll items ++ endNode).length)) :
    p.skipNode mem (fuel + 1) offset = some (offset + (Item.node name items).encode.length) := by
  have hheader : Stored mem p offset (nodeHeader name ++ (encodeAll items ++ endNode)) := by
    rw [Item.encode] at h
    exact h
  rw [Item.Named] at hn
  rw [DeviceTreeParser.skipNode, hheader.skipName hn.1, Option.bind_eq_bind, Option.bind_some,
    hitems, length_append_endNode, length_node, Nat.add_assoc, Nat.add_assoc]

/-- The loop of `skip_node` goes through the items of the node, up to its end. -/
lemma skipItems_stored (items : List Item) (h : Stored mem p offset (encodeAll items ++ endNode))
    (hn : NamedAll mem p items) (hfuel : (encodeAll items ++ endNode).length ≤ fuel) :
    p.skipItems mem fuel offset = some (offset + (encodeAll items ++ endNode).length) := by
  -- a child has one turn less, and its loop one less again
  induction fuel using Nat.strong_induction_on generalizing offset items with
  | _ fuel ih =>
    rw [length_append_endNode] at hfuel
    obtain ⟨fuel, rfl⟩ : ∃ k, fuel = k + 1 := Nat.exists_eq_succ_of_ne_zero (by omega)
    cases items with
    | nil =>
      rw [DeviceTreeParser.skipItems, token_end h]
      rfl
    | cons item items =>
      have hpos := length_encode_pos item
      rw [length_encodeAll_cons] at hfuel
      have hrest := ih fuel (Nat.lt_succ_self _) items h.rest hn.2 (by rw [length_append_endNode]; omega)
      rw [length_cons_end, ← Nat.add_assoc, ← hrest]
      cases item with
      | nop =>
        have hlength : Item.nop.encode.length = 4 := by simp [Item.encode]
        rw [DeviceTreeParser.skipItems, token_nop h, hlength]
        rfl
      | prop name nameOffset value =>
        have hskip := skipProperty_stored (stored_cons h).left hn.1
        rw [DeviceTreeParser.skipItems, token_prop h]
        change (p.skipProperty mem offset).bind _ = _
        rw [hskip]
        rfl
      | node name children =>
        have hchild := (stored_cons h).left
        have hnamed : (Item.node name children).Named mem p := hn.1
        have hheader : 0 < (nodeHeader name).length := length_nodeHeader_pos
        rw [length_node] at hfuel
        obtain ⟨fuel, rfl⟩ : ∃ k, fuel = k + 1 := Nat.exists_eq_succ_of_ne_zero (by omega)
        rw [Item.Named] at hnamed
        have hloop := ih fuel (by omega) children hchild.behindHeader hnamed.2 (by rw [length_append_endNode]; omega)
        rw [DeviceTreeParser.skipItems, token_node h]
        change (p.skipNode mem (fuel + 1) offset).bind _ = _
        rw [skipNode_of_skipItems hchild hn.1 hloop]
        rfl

/-- `skip_node` at the start of a node returns the offset behind its end. -/
lemma skipNode_stored (name : List UInt8) (items : List Item)
    (h : Stored mem p offset (Item.node name items).encode) (hn : (Item.node name items).Named mem p)
    (hfuel : (Item.node name items).encode.length ≤ fuel) :
    p.skipNode mem fuel offset = some (offset + (Item.node name items).encode.length) := by
  have hheader : 0 < (nodeHeader name).length := length_nodeHeader_pos
  have hnamed := hn
  rw [Item.Named] at hnamed
  rw [length_node] at hfuel
  obtain ⟨fuel, rfl⟩ : ∃ k, fuel = k + 1 := Nat.exists_eq_succ_of_ne_zero (by omega)
  refine skipNode_of_skipItems h hn (skipItems_stored items h.behindHeader hnamed.2 ?_)
  rw [length_append_endNode]
  omega

/-! ### Properties -/

/-- The properties of a node whose items start at an offset, as `operator*` of the iterator gives
them. -/
def propertiesAt (p : DeviceTreeParser) : ℕ → List Item → List Property
  | _, [] => []
  | offset, .prop name nameOffset value :: items =>
    ⟨⟨p.getString (p.stringOfs + nameOffset), name.length⟩, value.length,
        p.getString (offset + 3 * 4)⟩ ::
      propertiesAt p (offset + (Item.prop name nameOffset value).encode.length) items
  | offset, item :: items => propertiesAt p (offset + item.encode.length) items

/-- The iterator gives the property that it stands on. -/
lemma property_stored {nameOffset : ℕ} {value : List UInt8}
    (h : Stored mem p offset (Item.prop name nameOffset value).encode)
    (hn : (Item.prop name nameOffset value).Named mem p) : p.property mem offset =
      some ⟨⟨p.getString (p.stringOfs + nameOffset), name.length⟩, value.length,
        p.getString (offset + 3 * 4)⟩ := by
  obtain ⟨hzero, hlt, hreads, hvalue⟩ := hn
  rw [Item.encode] at h
  have htoken : p.getUint32 mem offset = some dtbProp := Stored.getUint32 h (by decide)
  have hlength : p.getUint32 mem (offset + 4) = some value.length := h.next.getUint32 hvalue
  have hoffset : p.getUint32 mem (offset + 2 * 4) = some nameOffset :=
    h.next.next.getUint32 (by omega)
  have hname := StringView.ofString_eq hzero hreads (lt_maxLength (by omega))
  rw [DeviceTreeParser.property, htoken]
  simp only [Option.bind_eq_bind, Option.bind_some, ne_eq, not_true_eq_false, if_false, hlength,
    hoffset]
  rw [DeviceTreeParser.getString, hname]
  rfl

/-- The iteration from the first property on. -/
lemma collect_properties (items : List Item) {offset fuel next n : ℕ}
    (h : Stored mem p offset (encodeAll items ++ endNode)) (hn : NamedAll mem p items)
    (hfuel : (encodeAll items ++ endNode).length ≤ fuel)
    (hnext : (encodeAll items ++ endNode).length ≤ next) (hlt : items.length < n) :
    ((p.findNextProperty mem fuel offset).bind
      (Node.collect (p.property mem) (p.nextProperty mem next) n)) =
        some (propertiesAt p offset items) := by
  have hend : ∀ items : List Item, 4 ≤ (encodeAll items ++ endNode).length := by
    intro items
    rw [List.length_append, endNode, length_beBytes]
    exact Nat.le_add_left _ _
  induction items generalizing offset fuel n with
  | nil =>
    obtain ⟨fuel, rfl⟩ : ∃ k, fuel = k + 1 := Nat.exists_eq_succ_of_ne_zero (by have := hend []; omega)
    obtain ⟨n, rfl⟩ : ∃ k, n = k + 1 := Nat.exists_eq_succ_of_ne_zero (by omega)
    rw [DeviceTreeParser.findNextProperty, token_end h]
    rfl
  | cons item items ih =>
    have hpos := length_encode_pos item
    have hpos' := hend items
    rw [length_cons_end] at hfuel hnext
    rw [List.length_cons] at hlt
    obtain ⟨fuel, rfl⟩ : ∃ k, fuel = k + 1 := Nat.exists_eq_succ_of_ne_zero (by omega)
    obtain ⟨n, rfl⟩ : ∃ k, n = k + 1 := Nat.exists_eq_succ_of_ne_zero (by omega)
    cases item with
    | nop =>
      have hrest := ih h.rest hn.2 (show _ ≤ fuel by omega) (by omega) (show _ < n + 1 by omega)
      have hlength : Item.nop.encode.length = 4 := by simp [Item.encode]
      rw [DeviceTreeParser.findNextProperty, token_nop h, propertiesAt, ← hrest, hlength]
      · rfl
      · exact fun _ _ _ heq => Item.noConfusion heq
    | prop name nameOffset value =>
      have hrest := ih h.rest hn.2 (show _ ≤ next by omega) (by omega) (show _ < n by omega)
      have hskip := skipProperty_stored (stored_cons h).left hn.1
      rw [DeviceTreeParser.findNextProperty, token_prop h, propertiesAt]
      change Node.collect (p.property mem) (p.nextProperty mem next) (n + 1) (some offset) = _
      rw [Node.collect, property_stored (stored_cons h).left hn.1]
      change ((p.nextProperty mem next offset).bind fun it => (Node.collect (p.property mem)
        (p.nextProperty mem next) n it).bind fun as => some (_ :: as)) = _
      rw [DeviceTreeParser.nextProperty, hskip]
      change ((p.findNextProperty mem next _).bind fun it => (Node.collect (p.property mem)
        (p.nextProperty mem next) n it).bind fun as => some (_ :: as)) = _
      rw [← Option.bind_assoc, hrest]
      rfl
    | node name children =>
      have hrest := ih h.rest hn.2 (show _ ≤ fuel by omega) (by omega) (show _ < n + 1 by omega)
      have hskip := skipNode_stored name children (stored_cons h).left hn.1 (show _ ≤ fuel by omega)
      rw [DeviceTreeParser.findNextProperty, token_node h, propertiesAt, ← hrest]
      · change ((p.skipNode mem fuel offset).bind fun offset =>
          p.findNextProperty mem fuel offset).bind _ = _
        rw [hskip, Option.bind_some]
      · exact fun _ _ _ heq => Item.noConfusion heq

/-! ### Children -/

/-- The iteration from the first child on. -/
lemma collect_children (items : List Item) {offset fuel next n : ℕ}
    (h : Stored mem p offset (encodeAll items ++ endNode)) (hn : NamedAll mem p items)
    (hfuel : (encodeAll items ++ endNode).length ≤ fuel)
    (hnext : (encodeAll items ++ endNode).length ≤ next) (hlt : items.length < n) :
    ∃ nodes, (p.findNextNode mem fuel offset).bind
      (Node.collect (p.node mem) (p.nextNode mem next) n) = some nodes ∧
        List.Forall₂ (fun child node => p.node mem child.1 = some node)
          (childrenAt offset items) nodes := by
  have hend : ∀ items : List Item, 4 ≤ (encodeAll items ++ endNode).length := by
    intro items
    rw [List.length_append, endNode, length_beBytes]
    exact Nat.le_add_left _ _
  induction items generalizing offset fuel n with
  | nil =>
    obtain ⟨fuel, rfl⟩ : ∃ k, fuel = k + 1 := Nat.exists_eq_succ_of_ne_zero (by have := hend []; omega)
    obtain ⟨n, rfl⟩ : ∃ k, n = k + 1 := Nat.exists_eq_succ_of_ne_zero (by omega)
    refine ⟨[], ?_, .nil⟩
    rw [DeviceTreeParser.findNextNode, token_end h]
    rfl
  | cons item items ih =>
    have hpos := length_encode_pos item
    have hpos' := hend items
    rw [length_cons_end] at hfuel hnext
    rw [List.length_cons] at hlt
    obtain ⟨fuel, rfl⟩ : ∃ k, fuel = k + 1 := Nat.exists_eq_succ_of_ne_zero (by omega)
    obtain ⟨n, rfl⟩ : ∃ k, n = k + 1 := Nat.exists_eq_succ_of_ne_zero (by omega)
    cases item with
    | nop =>
      obtain ⟨nodes, hrest, hall⟩ :=
        ih h.rest hn.2 (show _ ≤ fuel by omega) (by omega) (show _ < n + 1 by omega)
      have hlength : Item.nop.encode.length = 4 := by simp [Item.encode]
      refine ⟨nodes, ?_, ?_⟩
      · rw [DeviceTreeParser.findNextNode, token_nop h, ← hrest, hlength]
        rfl
      · rw [childrenAt]
        · exact hall
        · exact fun _ _ heq => Item.noConfusion heq
    | prop name nameOffset value =>
      obtain ⟨nodes, hrest, hall⟩ :=
        ih h.rest hn.2 (show _ ≤ fuel by omega) (by omega) (show _ < n + 1 by omega)
      have hskip := skipProperty_stored (stored_cons h).left hn.1
      refine ⟨nodes, ?_, ?_⟩
      · rw [DeviceTreeParser.findNextNode, token_prop h, ← hrest]
        change ((p.skipProperty mem offset).bind fun offset =>
          p.findNextNode mem fuel offset).bind _ = _
        rw [hskip]
        rfl
      · rw [childrenAt]
        · exact hall
        · exact fun _ _ heq => Item.noConfusion heq
    | node name children =>
      obtain ⟨nodes, hrest, hall⟩ :=
        ih h.rest hn.2 (show _ ≤ next by omega) (by omega) (show _ < n by omega)
      have hskip := skipNode_stored name children (stored_cons h).left hn.1 (show _ ≤ next by omega)
      have hheader := (stored_cons h).left
      rw [Item.encode] at hheader
      have hnode : p.node mem offset =
          some ⟨p.getString (offset + 4), offset + (nodeHeader name).length⟩ := by
        rw [DeviceTreeParser.node, hheader.skipName hn.1.1]
        rfl
      refine ⟨⟨p.getString (offset + 4), offset + (nodeHeader name).length⟩ :: nodes, ?_, ?_⟩
      · rw [DeviceTreeParser.findNextNode, token_node h]
        change Node.collect (p.node mem) (p.nextNode mem next) (n + 1) (some offset) = _
        rw [Node.collect, hnode]
        change ((p.nextNode mem next offset).bind fun it => (Node.collect (p.node mem)
          (p.nextNode mem next) n it).bind fun as => some (_ :: as)) = _
        rw [DeviceTreeParser.nextNode, hskip]
        change ((p.findNextNode mem next _).bind fun it => (Node.collect (p.node mem)
          (p.nextNode mem next) n it).bind fun as => some (_ :: as)) = _
        rw [← Option.bind_assoc, hrest]
        rfl
      · rw [childrenAt]
        exact .cons hnode hall


/-! ### The tree -/

/-- A property shows a name without NUL and the content that has been encoded. -/
structure Property.Represents (mem : ℕ → Option UInt8) (own : List UInt8 × ℕ × List UInt8)
    (q : Property) : Prop where
  name : q.name.Shows mem own.1
  zero : 0 ∉ own.1
  content : q.content mem = some own

/-- What the properties of a node show in memory. -/
lemma represents_propertiesAt (items : List Item) {offset : ℕ}
    (h : Stored mem p offset (encodeAll items ++ endNode)) (hn : NamedAll mem p items) :
    List.Forall₂ (Property.Represents mem) (ownProperties items) (propertiesAt p offset items) := by
  induction items generalizing offset with
  | nil => exact .nil
  | cons item items ih =>
    have hrest := ih h.rest hn.2
    cases item with
    | nop =>
      rw [propertiesAt]
      · exact hrest
      · exact fun _ _ _ heq => Item.noConfusion heq
    | prop name nameOffset value =>
      have hprop := (stored_cons h).left
      rw [Item.encode] at hprop
      have hvalue := (reads_append.mp hprop.next.next.next.reads).1
      have hname := (reads_append.mp hn.1.2.2.1).1
      have hcontent : Property.content mem ⟨⟨p.getString (p.stringOfs + nameOffset), name.length⟩,
          value.length, p.getString (offset + 3 * 4)⟩ = some (name, value.length, value) := by
        have hname' := readBytes_eq_some_iff.mpr ⟨rfl, hname⟩
        have hvalue' := readBytes_eq_some_iff.mpr ⟨rfl, hvalue⟩
        simp only [Property.content, DeviceTreeParser.getString]
        rw [hname']
        change (readBytes mem value.length (p.dts + (offset + 4 + 4 + 4))).bind _ = _
        rw [hvalue']
        rfl
      rw [propertiesAt]
      exact .cons ⟨⟨hname, rfl⟩, hn.1.1, hcontent⟩ hrest
    | node name children =>
      rw [propertiesAt]
      · exact hrest
      · exact fun _ _ _ heq => Item.noConfusion heq

lemma content_propertiesAt (items : List Item) {offset : ℕ}
    (h : Stored mem p offset (encodeAll items ++ endNode)) (hn : NamedAll mem p items) :
    (propertiesAt p offset items).mapM (Property.content mem) = some (ownProperties items) := by
  have hall := represents_propertiesAt items h hn
  generalize ownProperties items = owns at hall ⊢
  generalize propertiesAt p offset items = qs at hall ⊢
  induction hall with
  | nil => rfl
  | cons hq _ ih =>
    rw [List.mapM_cons, hq.content, ih]
    rfl

/-- A child is stored where it is said to be. -/
lemma stored_of_mem_childrenAt (items : List Item) {offset o : ℕ}
    (h : Stored mem p offset (encodeAll items ++ endNode)) (hn : NamedAll mem p items)
    (hmem : (o, item) ∈ childrenAt offset items) :
    Stored mem p o item.encode ∧ item.Named mem p ∧
      item.encode.length ≤ (encodeAll items).length := by
  induction items generalizing offset with
  | nil => exact absurd hmem List.not_mem_nil
  | cons first items ih =>
    have hrec : (o, item) ∈ childrenAt (offset + first.encode.length) items →
        Stored mem p o item.encode ∧ item.Named mem p ∧
          item.encode.length ≤ (encodeAll (first :: items)).length := by
      intro hmem
      obtain ⟨hstored, hnamed, hle⟩ := ih h.rest hn.2 hmem
      rw [length_encodeAll_cons]
      exact ⟨hstored, hnamed, hle.trans (Nat.le_add_left _ _)⟩
    cases first with
    | nop =>
      rw [childrenAt] at hmem
      · exact hrec hmem
      · exact fun _ _ heq => Item.noConfusion heq
    | prop name nameOffset value =>
      rw [childrenAt] at hmem
      · exact hrec hmem
      · exact fun _ _ heq => Item.noConfusion heq
    | node name children =>
      rw [childrenAt, List.mem_cons] at hmem
      rcases hmem with heq | hmem
      · cases heq
        rw [length_encodeAll_cons]
        exact ⟨(stored_cons h).left, hn.1, Nat.le_add_right _ _⟩
      · exact hrec hmem

/-- Every node of a stored tree is stored at its offset. -/
lemma Occurs.stored {root : Item} {o : ℕ} (hocc : Occurs offset root o item)
    (h : Stored mem p offset root.encode) (hn : root.Named mem p) :
    Stored mem p o item.encode ∧ item.Named mem p ∧ item.encode.length ≤ root.encode.length := by
  induction hocc with
  | root => exact ⟨h, hn, Nat.le_refl _⟩
  | child parent hmem ih =>
    obtain ⟨hstored, hnamed, hle⟩ := ih
    rw [Item.Named] at hnamed
    obtain ⟨hstored', hnamed', hle'⟩ := stored_of_mem_childrenAt _ hstored.behindHeader hnamed.2 hmem
    rw [length_node] at hle
    exact ⟨hstored', hnamed', by omega⟩

/-- The number of items is less than the length of their encoding. -/
lemma length_le_encodeAll (items : List Item) : items.length ≤ (encodeAll items).length := by
  induction items with
  | nil => exact Nat.le_refl _
  | cons item items ih =>
    have hpos := length_encode_pos item
    rw [length_encodeAll_cons, List.length_cons]
    omega

/-- What the parser makes of a node that is stored at `o`. -/
structure Walks (mem : ℕ → Option UInt8) (p : DeviceTreeParser) (fuel o : ℕ) (name : List UInt8)
    (items : List Item) (n : Node) : Prop where
  node : p.node mem o = some n
  called : (n.getName mem).bind (fun v => readBytes mem v.length v.data) = some name
  properties : ∃ ps, n.properties mem p fuel = some ps ∧
    ps.mapM (Property.content mem) = some (ownProperties items)
  children : ∃ cs, n.children mem p fuel = some cs ∧
    List.Forall₂ (fun child c => p.node mem child.1 = some c)
      (childrenAt (o + (nodeHeader name).length) items) cs

lemma walks_of_stored {o : ℕ} (h : Stored mem p o (Item.node name items).encode)
    (hn : (Item.node name items).Named mem p)
    (hfuel : (Item.node name items).encode.length ≤ fuel) :
    Walks mem p fuel o name items ⟨p.getString (o + 4), o + (nodeHeader name).length⟩ := by
  have hitems := h.behindHeader
  have hheader := h
  have hfits := h.fits
  rw [Item.encode] at hheader
  rw [Item.Named] at hn
  have hlengthEnd : (encodeAll items ++ endNode).length = (encodeAll items).length + 4 := by
    rw [List.length_append, endNode, length_beBytes]
  rw [length_node, length_nodeHeader] at hfuel hfits
  have hle := le_alignedLength (name.length + 1)
  have hcount := length_le_encodeAll items
  have henough : (encodeAll items ++ endNode).length ≤ fuel := by omega
  have hlt : items.length < fuel := by omega
  have hcontent := content_propertiesAt items hitems hn.2
  have hname := hheader.left.next.reads
  rw [padded, List.append_assoc] at hname
  have hview := StringView.ofString_eq hn.1 hname (lt_maxLength (by omega))
  constructor
  · rw [DeviceTreeParser.node, hheader.skipName hn.1]
    rfl
  · rw [Node.getName, DeviceTreeParser.getString, hview, Option.bind_some]
    exact readBytes_eq_some_iff.mpr ⟨rfl, (reads_append.mp hname).1⟩
  · exact ⟨_, collect_properties items hitems hn.2 henough henough hlt, hcontent⟩
  · exact collect_children items hitems hn.2 henough henough hlt

/-- For every node of a stored tree, `skip_node` returns the offset behind it, and the iterators go
through its properties and its children. -/
theorem occurs_walks {root : Item} {o : ℕ} (h : Stored mem p offset root.encode)
    (hn : root.Named mem p) (hocc : Occurs offset root o (.node name items))
    (hfuel : root.encode.length ≤ fuel) :
    p.skipNode mem fuel o = some (o + (Item.node name items).encode.length) ∧
      ∃ n, Walks mem p fuel o name items n := by
  obtain ⟨hstored, hnamed, hle⟩ := hocc.stored h hn
  exact ⟨skipNode_stored name items hstored hnamed (hle.trans hfuel),
    _, walks_of_stored hstored hnamed (hle.trans hfuel)⟩

/-- The items of a node `b`, one of them before and one behind a token that means nothing. -/
def smallItems : List Item := [.prop [97] 0 [1, 2, 3], .nop, .prop [97] 0 []]

/-- A tree with one child, behind a property. -/
def smallTree : Item := .node [] [.prop [97] 0 [7], .node [98] smallItems, .nop]

/-- The block of the strings, with the name `a`, followed by the structure block. -/
def smallBlob : List UInt8 := [97, 0, 0, 0] ++ smallTree.encode

/-- A memory that holds nothing but the blob. -/
def smallMemory (a : ℕ) : Option UInt8 := if a < 8 then none else smallBlob[a - 8]?

def smallParser : DeviceTreeParser := ⟨8, 4, 0⟩

lemma stored_smallTree : Stored smallMemory smallParser 4 smallTree.encode where
  reads := by
    have hread : readBytes smallMemory smallTree.encode.length 12 = some smallTree.encode := by
      decide +kernel
    exact (readBytes_eq_some_iff.mp hread).2
  aligned := rfl
  fits := by decide +kernel

lemma named_smallTree : smallTree.Named smallMemory smallParser := by
  have hread : readBytes smallMemory 2 8 = some ([97] ++ [0]) := by decide +kernel
  have hname := (readBytes_eq_some_iff.mp hread).2
  have hprop : ∀ value : List UInt8, value.length < 2 ^ 32 →
      (Item.prop [97] 0 value).Named smallMemory smallParser :=
    fun value hvalue => ⟨by decide, by decide, hname, hvalue⟩
  exact ⟨by decide, hprop [7] (by decide), ⟨by decide, hprop _ (by decide), trivial,
    hprop _ (by decide), trivial⟩, trivial, trivial⟩

/-- The child of the small tree. -/
theorem occurs_walks_child : smallParser.skipNode smallMemory 100 28 =
      some (28 + (Item.node [98] smallItems).encode.length) ∧
    ∃ n, Walks smallMemory smallParser 100 28 [98] smallItems n :=
  occurs_walks stored_smallTree named_smallTree (.child .root (.head _)) (by decide +kernel)

end PiKachulm.DeviceTree

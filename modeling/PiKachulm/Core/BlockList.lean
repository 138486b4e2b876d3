import Mathlib.Data.List.Chain
import Mathlib.Order.Basic
import Mathlib.Tactic.Common

/-!
# Heaps made of blocks

A heap as the list of its blocks, by increasing addresses. A block has a header of `h` bytes at
`addr`, and `size` bytes from `ptr` on; what lies between is padding. Two neighbours merge when the
second is free, and a block that is released merges with both of its neighbours.
-/

namespace PiKachulm.Core

structure Block where
  addr : ℕ
  ptr : ℕ
  size : ℕ
  isFree : Bool
  deriving DecidableEq, Repr

namespace Block

/-- The first byte after the block. -/
def stop (b : Block) : ℕ := b.ptr + b.size

/-- The header comes before the bytes of the block, and a free block has no padding. -/
structure Wf (h : ℕ) (b : Block) : Prop where
  header : b.addr + h ≤ b.ptr
  size : 1 ≤ b.size
  free : b.isFree = true → b.ptr = b.addr + h

/-- The block in use, from the address `ptr` in it on. -/
def take (b : Block) (ptr : ℕ) : Block :=
  { b with ptr := ptr, size := b.stop - ptr, isFree := false }

/-- The block once it is free, without its padding. -/
def release (h : ℕ) (b : Block) : Block :=
  { b with ptr := b.addr + h, size := b.stop - (b.addr + h), isFree := true }

/-- The block with the bytes and the header of the next one. -/
def merge (h : ℕ) (a b : Block) : Block := { a with size := a.size + (b.size + h) }

variable {h ptr : ℕ} {a b : Block}

@[simp] lemma take_addr : (b.take ptr).addr = b.addr := rfl

@[simp] lemma release_addr : (b.release h).addr = b.addr := rfl

@[simp] lemma merge_addr : (a.merge h b).addr = a.addr := rfl

@[simp] lemma merge_isFree : (a.merge h b).isFree = a.isFree := rfl

lemma take_stop (hptr : ptr ≤ b.stop) : (b.take ptr).stop = b.stop := Nat.add_sub_cancel' hptr

lemma Wf.release_stop (hb : b.Wf h) : (b.release h).stop = b.stop :=
  Nat.add_sub_cancel' (hb.header.trans (Nat.le_add_right _ _))

lemma Wf.take (hb : b.Wf h) (hle : b.ptr ≤ ptr) (hlt : ptr < b.stop) : (b.take ptr).Wf h :=
  ⟨hb.header.trans hle, Nat.sub_pos_of_lt hlt, fun hfree => by cases hfree⟩

lemma Wf.release (hb : b.Wf h) : (b.release h).Wf h := by
  refine ⟨le_rfl, ?_, fun _ => rfl⟩
  have hheader := hb.header
  have hsize := hb.size
  simp only [Block.release, stop]
  omega

lemma merge_stop : (a.merge h b).stop = a.stop + (b.size + h) := (Nat.add_assoc _ _ _).symm

lemma Wf.merge (ha : a.Wf h) : (a.merge h b).Wf h :=
  ⟨ha.header, ha.size.trans (Nat.le_add_right _ _), ha.free⟩

/-- A merged block ends where the second one did, at the latest. -/
lemma Wf.merge_stop_le (hb : b.Wf h) (hfree : b.isFree = true) (hle : a.stop ≤ b.addr) :
    (a.merge h b).stop ≤ b.stop := by
  rw [merge_stop, stop.eq_def b, hb.free hfree]
  omega

lemma Wf.merge_stop_eq (hb : b.Wf h) (hfree : b.isFree = true) (heq : a.stop = b.addr) :
    (a.merge h b).stop = b.stop := by
  rw [merge_stop, stop.eq_def b, hb.free hfree]
  omega

end Block

variable {h s e m : ℕ} {a b b' : Block} {l l₁ l₂ pre post : List Block}

/-! ### Disjoint blocks -/

/-- The blocks lie between `s` and `e`, one after the other. -/
def Fits (h : ℕ) : ℕ → List Block → ℕ → Prop
  | s, [], e     => s ≤ e
  | s, b :: l, e => s ≤ b.addr ∧ b.Wf h ∧ Fits h b.stop l e

@[simp] lemma fits_nil : Fits h s [] e ↔ s ≤ e := Iff.rfl

@[simp] lemma fits_cons : Fits h s (b :: l) e ↔ s ≤ b.addr ∧ b.Wf h ∧ Fits h b.stop l e := Iff.rfl

lemma Block.Wf.addr_lt (hb : b.Wf h) : b.addr + h < b.stop := by
  have hheader := hb.header
  have hsize := hb.size
  rw [Block.stop]
  omega

lemma Fits.mono {s' e' : ℕ} (hfits : Fits h s l e) (hs : s' ≤ s) (he : e ≤ e') :
    Fits h s' l e' := by
  induction l generalizing s s' with
  | nil => exact hs.trans (hfits.trans he)
  | cons b l ih =>
    obtain ⟨h₁, hb, h₂⟩ := hfits
    exact ⟨hs.trans h₁, hb, ih h₂ le_rfl⟩

lemma Fits.le (hfits : Fits h s l e) : s ≤ e := by
  induction l generalizing s with
  | nil => exact hfits
  | cons b l ih =>
    obtain ⟨h₁, hb, h₂⟩ := hfits
    have hlt := hb.addr_lt
    have hle := ih h₂
    omega

lemma fits_append : Fits h s (l₁ ++ l₂) e ↔ ∃ m, Fits h s l₁ m ∧ Fits h m l₂ e := by
  induction l₁ generalizing s with
  | nil =>
    rw [List.nil_append]
    constructor
    · exact fun hfits => ⟨s, le_rfl, hfits⟩
    · rintro ⟨m, hm, hfits⟩
      exact hfits.mono hm le_rfl
  | cons b l₁ ih =>
    rw [List.cons_append, fits_cons, ih]
    constructor
    · rintro ⟨h₁, hb, m, h₂, h₃⟩
      exact ⟨m, ⟨h₁, hb, h₂⟩, h₃⟩
    · rintro ⟨m, ⟨h₁, hb, h₂⟩, h₃⟩
      exact ⟨h₁, hb, m, h₂, h₃⟩

/-- What `Fits` says about one of the blocks. -/
lemma fits_split : Fits h s (pre ++ b :: post) e ↔
    Fits h s pre b.addr ∧ b.Wf h ∧ Fits h b.stop post e := by
  rw [fits_append]
  constructor
  · rintro ⟨m, hpre, hm, hb, hpost⟩
    exact ⟨hpre.mono le_rfl hm, hb, hpost⟩
  · rintro ⟨hpre, hb, hpost⟩
    exact ⟨b.addr, hpre, le_rfl, hb, hpost⟩

lemma Fits.of_mem (hfits : Fits h s l e) (hmem : b ∈ l) : s ≤ b.addr ∧ b.Wf h ∧ b.stop ≤ e := by
  obtain ⟨pre, post, rfl⟩ := List.append_of_mem hmem
  obtain ⟨hpre, hb, hpost⟩ := fits_split.mp hfits
  exact ⟨hpre.le, hb, hpost.le⟩

lemma Fits.pairwise (hfits : Fits h s l e) : l.Pairwise fun a b => a.stop ≤ b.addr := by
  induction l generalizing s with
  | nil => exact .nil
  | cons b l ih =>
    obtain ⟨-, -, hfits⟩ := hfits
    exact List.pairwise_cons.mpr ⟨fun c hc => (hfits.of_mem hc).1, ih hfits⟩

lemma Fits.pairwise_addr (hfits : Fits h s l e) : l.Pairwise fun a b => a.addr < b.addr := by
  refine hfits.pairwise.imp_of_mem fun ha _ hle => ?_
  have hlt := (hfits.of_mem ha).2.1.addr_lt
  omega

/-- Every block has a byte at least. -/
lemma Fits.length_le (hfits : Fits h s l e) : s + l.length ≤ e := by
  induction l generalizing s with
  | nil => exact hfits
  | cons b l ih =>
    obtain ⟨h₁, hb, h₂⟩ := hfits
    have hlt := hb.addr_lt
    have hle := ih h₂
    rw [List.length_cons]
    omega

/-- Two blocks do not overlap. -/
lemma Fits.disjoint (hfits : Fits h s l e) (ha : a ∈ l) (hb : b ∈ l) (hne : a ≠ b) :
    a.stop ≤ b.addr ∨ b.stop ≤ a.addr := by
  obtain ⟨pre, post, rfl⟩ := List.append_of_mem ha
  obtain ⟨-, hpost, hpre⟩ := List.pairwise_append.mp hfits.pairwise
  rcases List.mem_append.mp hb with hb | hb
  · exact .inr (hpre b hb a List.mem_cons_self)
  · refine .inl (List.rel_of_pairwise_cons hpost ?_)
    exact (List.mem_cons.mp hb).resolve_left (Ne.symm hne)

lemma Fits.ptr_ne (hfits : Fits h s l e) (ha : a ∈ l) (hb : b ∈ l) (hne : a ≠ b) :
    a.ptr ≠ b.ptr := by
  obtain ⟨-, hawf, -⟩ := hfits.of_mem ha
  obtain ⟨-, hbwf, -⟩ := hfits.of_mem hb
  have h₁ := hawf.header
  have h₂ := hbwf.header
  have h₃ := hawf.size
  have h₄ := hbwf.size
  have hdisjoint := hfits.disjoint ha hb hne
  rw [Block.stop, Block.stop] at hdisjoint
  omega

lemma Fits.replace (hfits : Fits h s (pre ++ b :: post) e) (hb' : b'.Wf h)
    (haddr : b'.addr = b.addr) (hstop : b'.stop ≤ b.stop) : Fits h s (pre ++ b' :: post) e := by
  obtain ⟨hpre, -, hpost⟩ := fits_split.mp hfits
  exact fits_split.mpr ⟨haddr ▸ hpre, hb', hpost.mono hstop le_rfl⟩

lemma Fits.merge (hfits : Fits h s (pre ++ a :: b :: post) e) (hfree : b.isFree = true) :
    Fits h s (pre ++ a.merge h b :: post) e := by
  obtain ⟨hpre, ha, hle, hb, hpost⟩ := fits_split.mp hfits
  exact fits_split.mpr ⟨hpre, ha.merge, hpost.mono (hb.merge_stop_le hfree hle) le_rfl⟩

lemma Fits.concat (hfits : Fits h s l m) (hm : m ≤ b.addr) (hb : b.Wf h) (he : b.stop ≤ e) :
    Fits h s (l ++ [b]) e :=
  fits_split.mpr ⟨hfits.mono le_rfl hm, hb, he⟩

/-! ### Blocks without gaps -/

/-- Every block but the last ends where the next one begins. -/
def Tight (l : List Block) : Prop := l.IsChain fun a b => a.stop = b.addr

lemma tight_split : Tight (pre ++ b :: post) ↔ Tight (pre ++ [b]) ∧ Tight (b :: post) :=
  List.isChain_split

lemma tight_concat : Tight (pre ++ [b]) ↔ Tight pre ∧ ∀ a ∈ pre.getLast?, a.stop = b.addr := by
  rw [Tight, List.isChain_append]
  simp [Tight]

lemma tight_cons : Tight (b :: post) ↔ (∀ c ∈ post.head?, b.stop = c.addr) ∧ Tight post := by
  rw [Tight, List.isChain_cons, Tight]

lemma Tight.replace (htight : Tight (pre ++ b :: post)) (haddr : b'.addr = b.addr)
    (hstop : b'.stop = b.stop) : Tight (pre ++ b' :: post) := by
  rw [tight_split, tight_concat, tight_cons] at htight ⊢
  rwa [haddr, hstop]

lemma Tight.merge (htight : Tight (pre ++ a :: b :: post)) (hb : b.Wf h) (hfree : b.isFree = true) :
    Tight (pre ++ a.merge h b :: post) := by
  rw [tight_split, tight_concat, tight_cons, tight_cons] at htight
  obtain ⟨hpre, hab, hpost⟩ := htight
  have hstop : (a.merge h b).stop = b.stop := hb.merge_stop_eq hfree (hab b rfl)
  rw [tight_split, tight_concat, tight_cons, Block.merge_addr, hstop]
  exact ⟨hpre, hpost⟩

/-! ### Free neighbours -/

/-- No two neighbours are free. -/
def Coalesced (l : List Block) : Prop := l.IsChain fun a b => ¬(a.isFree = true ∧ b.isFree = true)

lemma coalesced_split : Coalesced (pre ++ b :: post) ↔
    Coalesced (pre ++ [b]) ∧ Coalesced (b :: post) :=
  List.isChain_split

lemma coalesced_concat : Coalesced (pre ++ [b]) ↔
    Coalesced pre ∧ ∀ a ∈ pre.getLast?, ¬(a.isFree = true ∧ b.isFree = true) := by
  rw [Coalesced, List.isChain_append]
  simp [Coalesced]

lemma coalesced_cons : Coalesced (b :: post) ↔
    (∀ c ∈ post.head?, ¬(b.isFree = true ∧ c.isFree = true)) ∧ Coalesced post := by
  rw [Coalesced, List.isChain_cons, Coalesced]

/-- A block may be put in use. -/
lemma Coalesced.replace (hl : Coalesced (pre ++ b :: post)) (hb' : b'.isFree = false) :
    Coalesced (pre ++ b' :: post) := by
  rw [coalesced_split, coalesced_concat, coalesced_cons] at hl ⊢
  rw [hb']
  refine ⟨⟨hl.1.1, ?_⟩, ?_, hl.2.2⟩
  · rintro _ _ ⟨-, ⟨⟩⟩
  · rintro _ _ ⟨⟨⟩, -⟩

/-- Only whether the block is free matters to its neighbours. -/
lemma coalesced_cons_congr (hfree : b'.isFree = b.isFree) :
    Coalesced (b' :: post) ↔ Coalesced (b :: post) := by
  rw [coalesced_cons, coalesced_cons, hfree]

lemma coalesced_concat_congr (hfree : b'.isFree = b.isFree) :
    Coalesced (pre ++ [b']) ↔ Coalesced (pre ++ [b]) := by
  rw [coalesced_concat, coalesced_concat, hfree]

/-! ### Releasing a block -/

/-- A free block before the blocks of a list, merged with the first of them if this is free. -/
def joinNext (h : ℕ) (b : Block) : List Block → List Block
  | []     => [b]
  | c :: l => if c.isFree then b.merge h c :: l else b :: c :: l

/-- Blocks behind others, the first of them merged with the one before if this is free. -/
def joinPrevious (h : ℕ) (pre : List Block) : List Block → List Block
  | []     => pre
  | b :: l => match pre.getLast? with
    | some a => if a.isFree then pre.dropLast ++ a.merge h b :: l else pre ++ b :: l
    | none   => pre ++ b :: l

/-- The blocks once `b`, which lies between `pre` and `post`, is released. -/
def freed (h : ℕ) (pre : List Block) (b : Block) (post : List Block) : List Block :=
  joinPrevious h pre (joinNext h (b.release h) post)

lemma joinPrevious_of_used (hpre : ∀ a ∈ pre.getLast?, a.isFree = false) :
    joinPrevious h pre l = pre ++ l := by
  cases l with
  | nil => exact (List.append_nil pre).symm
  | cons b l =>
    rw [joinPrevious]
    cases hlast : pre.getLast? with
    | none => rfl
    | some a =>
      dsimp only
      rw [hpre a hlast, if_neg Bool.false_ne_true]

lemma joinPrevious_concat (hfree : a.isFree = true) :
    joinPrevious h (pre ++ [a]) (b :: l) = pre ++ a.merge h b :: l := by
  rw [joinPrevious, List.getLast?_concat]
  dsimp only
  rw [if_pos hfree, List.dropLast_concat]

/-- The block that is released starts at the same header, and no other block is changed. -/
lemma exists_joinNext (h : ℕ) (b : Block) (post : List Block) :
    ∃ c post', joinNext h b post = c :: post' ∧ c.addr = b.addr ∧ c.ptr = b.ptr ∧
      c.isFree = b.isFree ∧ post' ⊆ post := by
  cases post with
  | nil => exact ⟨b, [], rfl, rfl, rfl, rfl, List.Subset.refl _⟩
  | cons c post =>
    rw [joinNext]
    split_ifs
    · exact ⟨b.merge h c, post, rfl, rfl, rfl, rfl, List.subset_cons_self _ _⟩
    · exact ⟨b, c :: post, rfl, rfl, rfl, rfl, List.Subset.refl _⟩

/-! ### The blocks in use -/

/-- The blocks that are not free. -/
def used (l : List Block) : List Block := l.filter fun b => !b.isFree

lemma mem_used : b ∈ used l ↔ b ∈ l ∧ b.isFree = false := by
  rw [used, List.mem_filter, Bool.not_eq_true']

lemma used_append : used (l₁ ++ l₂) = used l₁ ++ used l₂ := List.filter_append l₁ l₂

lemma used_cons_of_free (hfree : b.isFree = true) : used (b :: l) = used l := by
  rw [used, List.filter_cons_of_neg (by rw [hfree]; decide), used]

lemma used_cons (hfree : b.isFree = false) : used (b :: l) = b :: used l := by
  rw [used, List.filter_cons_of_pos (by rw [hfree]; rfl), used]

lemma used_merge (ha : a.isFree = true) (hb : b.isFree = true) :
    used (pre ++ a.merge h b :: post) = used (pre ++ a :: b :: post) := by
  rw [used_append, used_append, used_cons_of_free (by exact ha), used_cons_of_free ha,
    used_cons_of_free hb]

end PiKachulm.Core

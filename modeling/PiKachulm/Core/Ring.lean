import Mathlib.Data.List.Basic
import Mathlib.Algebra.Order.Group.Nat

/-!
# Circular buffers

The elements of a memory from an index on, when the indices wrap around at a capacity, and what they
are after a list has been written behind them.
-/

namespace PiKachulm.Core

variable {α : Type*}

/-- The `n` elements from an index on. -/
def slice (m : ℕ → α) (start n : ℕ) : List α := (List.range n).map fun i => m (start + i)

/-- The `n` elements from an index on, in a circular buffer. -/
def ring (m : ℕ → α) (cap start n : ℕ) : List α := (List.range n).map fun i => m ((start + i) % cap)

/-- A list is copied to an index. -/
def blit (m : ℕ → α) (start : ℕ) (l : List α) : ℕ → α :=
  fun i => if i < start then m i else (l[i - start]?).getD (m i)

variable {m m' : ℕ → α} {cap start n k i : ℕ} {l : List α}

/-! ### Slices -/

@[simp] lemma length_slice : (slice m start n).length = n := by simp [slice]

@[simp] lemma length_ring : (ring m cap start n).length = n := by simp [ring]

lemma slice_congr {start' : ℕ} (h : ∀ i < n, m (start + i) = m' (start' + i)) :
    slice m start n = slice m' start' n := by
  rw [slice, slice]
  exact List.map_congr_left fun i hi => h i (List.mem_range.mp hi)

lemma slice_add (m : ℕ → α) (start n k : ℕ) :
    slice m start (n + k) = slice m start n ++ slice m (start + n) k := by
  rw [slice, slice, slice, List.range_add, List.map_append, List.map_map]
  congr 1
  exact List.map_congr_left fun i _ => by rw [Function.comp_apply, Nat.add_assoc]

lemma getElem_ring (hi : i < (ring m cap start n).length) :
    (ring m cap start n)[i] = m ((start + i) % cap) := by simp [ring]

lemma blit_of_lt (h : i < start) : blit m start l i = m i := if_pos h

lemma blit_of_ge (h : start + l.length ≤ i) : blit m start l i = m i := by
  have hge : l.length ≤ i - start := Nat.le_sub_of_add_le' h
  rw [blit, if_neg (Nat.not_lt.mpr ((Nat.le_add_right ..).trans h)), List.getElem?_eq_none hge]
  rfl

lemma blit_add (h : i < l.length) : blit m start l (start + i) = l[i] := by
  rw [blit, if_neg (Nat.not_lt.mpr (Nat.le_add_right ..)), Nat.add_sub_cancel_left,
    List.getElem?_eq_getElem h]
  rfl

/-! ### Rings -/

lemma ring_congr (h : ∀ i < n, m ((start + i) % cap) = m' ((start + i) % cap)) :
    ring m cap start n = ring m' cap start n :=
  List.map_congr_left fun i hi => h i (List.mem_range.mp hi)

lemma ring_add : ring m cap start (n + k) = ring m cap start n ++ ring m cap (start + n) k := by
  rw [ring, List.range_add, List.map_append, List.map_map]
  congr 1
  exact List.map_congr_left fun i _ => by rw [Function.comp_apply, Nat.add_assoc]

lemma ring_mod : ring m cap (start % cap) n = ring m cap start n :=
  List.map_congr_left fun i _ => by rw [Nat.mod_add_mod]

lemma take_ring (h : k ≤ n) : (ring m cap start n).take k = ring m cap start k := by
  rw [← Nat.add_sub_cancel' h, ring_add, List.take_left' length_ring]

lemma drop_ring (h : k ≤ n) : (ring m cap start n).drop k = ring m cap (start + k) (n - k) := by
  have hsplit : ring m cap start n = ring m cap start k ++ ring m cap (start + k) (n - k) := by
    rw [← ring_add, Nat.add_sub_cancel' h]
  rw [hsplit, List.drop_left' length_ring]

/-- A ring that does not reach the end of the buffer. -/
lemma ring_eq_slice (h : start + n ≤ cap) : ring m cap start n = slice m start n := by
  refine List.map_congr_left fun i hi => ?_
  have hlt : start + i < cap := (Nat.add_lt_add_left (List.mem_range.mp hi) start).trans_le h
  rw [Nat.mod_eq_of_lt hlt]

/-- A ring that reaches the end of the buffer goes on at its start. -/
lemma ring_eq_append (hstart : start ≤ cap) (h : cap ≤ start + n) (hn : n ≤ cap) :
    ring m cap start n = slice m start (cap - start) ++ slice m 0 (n - (cap - start)) := by
  have hsplit : n = (cap - start) + (n - (cap - start)) := by omega
  have hrest : ring m cap cap (n - (cap - start)) = slice m 0 (n - (cap - start)) := by
    rw [← ring_mod, Nat.mod_self]
    exact ring_eq_slice (by omega)
  calc ring m cap start n
      = ring m cap start (cap - start) ++ ring m cap (start + (cap - start)) (n - (cap - start)) := by
        rw [← ring_add, ← hsplit]
    _ = slice m start (cap - start) ++ slice m 0 (n - (cap - start)) := by
        rw [ring_eq_slice (by omega), Nat.add_sub_cancel' hstart, hrest]

/-! ### Writing -/

/-- A list is written from an index on, in one part or in two. -/
def writeRing (m : ℕ → α) (cap start : ℕ) (l : List α) : ℕ → α :=
  if start + l.length ≤ cap then blit m start l
  else blit (blit m start (l.take (cap - start))) 0 (l.drop (cap - start))

lemma add_mod_of_lt (hstart : start < cap) (hi : i < cap) :
    (start + i) % cap = if start + i < cap then start + i else start + i - cap := by
  split_ifs with hlt
  · exact Nat.mod_eq_of_lt hlt
  · rw [Nat.mod_eq_sub_mod (Nat.le_of_not_lt hlt), Nat.mod_eq_of_lt (by omega)]

/-- The list is where it was written. -/
lemma writeRing_of_lt (hstart : start < cap) (hl : l.length ≤ cap) (hi : i < l.length) :
    writeRing m cap start l ((start + i) % cap) = l[i] := by
  rw [writeRing, add_mod_of_lt hstart (hi.trans_le hl)]
  split_ifs with hfit hlt hlt
  · exact blit_add hi
  · exact absurd ((Nat.add_lt_add_left hi start).trans_le hfit) hlt
  · have hi' : i < (l.take (cap - start)).length := by
      rw [List.length_take]
      exact lt_min (by omega) hi
    rw [blit_of_ge, blit_add hi', List.getElem_take]
    rw [List.length_drop]
    omega
  · have hi' : start + i - cap < (l.drop (cap - start)).length := by
      rw [List.length_drop]
      omega
    have hblit : blit (blit m start (l.take (cap - start))) 0 _ (0 + _) = _ := blit_add hi'
    rw [Nat.zero_add] at hblit
    rw [hblit, List.getElem_drop]
    congr 1
    omega

/-- The rest is what it was. -/
lemma writeRing_of_ge (hstart : start < cap) (hi : i < cap) (hl : l.length ≤ i) :
    writeRing m cap start l ((start + i) % cap) = m ((start + i) % cap) := by
  rw [writeRing, add_mod_of_lt hstart hi]
  split_ifs with hfit hlt hlt
  · exact blit_of_ge (Nat.add_le_add_left hl start)
  · exact blit_of_lt (by omega)
  · omega
  · rw [blit_of_ge, blit_of_lt]
    · omega
    · rw [List.length_drop]
      omega

/-- What is written behind the elements of a ring is added to them. -/
lemma ring_writeRing {w : ℕ} (hw : w = (start + n) % cap) (hcap : 0 < cap) (h : n + l.length ≤ cap) :
    ring (writeRing m cap w l) cap start (n + l.length) = ring m cap start n ++ l := by
  have hlt : w < cap := hw ▸ Nat.mod_lt _ hcap
  rw [ring_add]
  congr 1
  · refine ring_congr fun i hi => ?_
    have hidx : (start + i) % cap = (w + (cap - n + i)) % cap := by
      rw [hw, Nat.mod_add_mod]
      have hsum : start + n + (cap - n + i) = start + i + cap := by omega
      rw [hsum, Nat.add_mod_right]
    rw [hidx]
    exact writeRing_of_ge hlt (by omega) (by omega)
  · apply List.ext_getElem length_ring
    intro i _ hi
    rw [getElem_ring, ← Nat.mod_add_mod, ← hw]
    exact writeRing_of_lt hlt (by omega) hi

end PiKachulm.Core

import Mathlib.Data.Set.Lattice
import Mathlib.Data.List.Basic
import Mathlib.Order.CompletePartialOrder

/-!
# Tilings

A list of pieces tiles a set when the regions of the pieces are pairwise disjoint and make up the
set together. A tiling of a set can be refined: each piece is replaced by a tiling of its own
region. This is what a recursive subdivision of an area does, whatever the areas are.
-/

namespace PiKachulm.Core

variable {α ι κ : Type*}

/-- The regions of `pieces` are pairwise disjoint and their union is `whole`. -/
structure Tiles (region : ι → Set α) (pieces : List ι) (whole : Set α) : Prop where
  disjoint : pieces.Pairwise fun s t ↦ Disjoint (region s) (region t)
  cover : ∀ p, p ∈ whole ↔ ∃ s ∈ pieces, p ∈ region s

namespace Tiles

variable {region : ι → Set α} {pieces others : List ι} {whole rest : Set α}

lemma nil : Tiles region [] ∅ :=
  ⟨List.Pairwise.nil, by simp⟩

lemma singleton (s : ι) : Tiles region [s] (region s) :=
  ⟨List.pairwise_singleton _ _, by simp⟩

/-- A piece of a tiling lies inside the tiled set. -/
lemma subset (h : Tiles region pieces whole) {s : ι} (hs : s ∈ pieces) : region s ⊆ whole :=
  fun p hp ↦ (h.cover p).mpr ⟨s, hs, hp⟩

lemma append (h : Tiles region pieces whole) (h' : Tiles region others rest)
    (hd : Disjoint whole rest) : Tiles region (pieces ++ others) (whole ∪ rest) := by
  refine ⟨List.pairwise_append.mpr ⟨h.disjoint, h'.disjoint, ?_⟩, fun p ↦ ?_⟩
  · intro s hs t ht
    exact hd.mono (h.subset hs) (h'.subset ht)
  · simp [h.cover, h'.cover, or_and_right, exists_or]

lemma cons {s : ι} (h : Tiles region pieces rest) (hd : Disjoint (region s) rest) :
    Tiles region (s :: pieces) (region s ∪ rest) :=
  (singleton s).append h hd

/-- Refinement: every piece is replaced by a tiling of its region. -/
lemma flatMap {region' : κ → Set α} {f : ι → List κ} (h : Tiles region pieces whole)
    (hf : ∀ s ∈ pieces, Tiles region' (f s) (region s)) :
    Tiles region' (pieces.flatMap f) whole := by
  refine ⟨?_, fun p ↦ ?_⟩
  · apply List.pairwise_flatMap.mpr
    refine ⟨fun s hs ↦ (hf s hs).disjoint, h.disjoint.imp_of_mem ?_⟩
    intro s t hs ht hst u hu v hv
    exact hst.mono ((hf s hs).subset hu) ((hf t ht).subset hv)
  · rw [h.cover]
    constructor
    · rintro ⟨s, hs, hp⟩
      obtain ⟨u, hu, hpu⟩ := ((hf s hs).cover p).mp hp
      exact ⟨u, List.mem_flatMap.mpr ⟨s, hs, hu⟩, hpu⟩
    · rintro ⟨u, hu, hp⟩
      obtain ⟨s, hs, hus⟩ := List.mem_flatMap.mp hu
      exact ⟨s, hs, (hf s hs).subset hus hp⟩

end Tiles

end PiKachulm.Core

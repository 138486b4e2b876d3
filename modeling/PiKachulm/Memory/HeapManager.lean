import PiKachulm.Libk.Word
import PiKachulm.Memory.PageAlloc

/-!
# The heap manager

`HeapManager` moves the end of a heap, and maps the pages below it. The end moves before the pages
are mapped, and stays where it is when there are too few of them.
-/

namespace PiKachulm.Memory

open Libk

structure HeapManager where
  heapStart : ℕ
  heapVaEnd : ℕ
  heapByteSize : ℕ
  deriving DecidableEq, Repr

namespace HeapManager

/-- The constructor, for a heap that starts at `heapStart`. -/
def init (heapStart : ℕ) : HeapManager := ⟨heapStart, heapStart, 0⟩

def getHeapEnd (hm : HeapManager) : ℕ := wadd hm.heapStart hm.heapByteSize

/-- The first loop of `change_heap_end`, when `pages` more pages can be had and mapped. -/
def increase (hm : HeapManager) : ℕ → Bool × HeapManager
  | 0         => (!decide (hm.heapVaEnd < hm.getHeapEnd), hm)
  | pages + 1 =>
    if hm.heapVaEnd < hm.getHeapEnd then
      increase { hm with heapVaEnd := wadd hm.heapVaEnd pageSize } pages
    else (true, hm)

/-- The second loop of `change_heap_end`. -/
def decrease (hm : HeapManager) : HeapManager :=
  if _h : pageSize ≤ hm.heapVaEnd ∧ hm.heapVaEnd - pageSize ≥ hm.getHeapEnd then
    decrease { hm with heapVaEnd := hm.heapVaEnd - pageSize }
  else hm
termination_by hm.heapVaEnd
decreasing_by
  have hpos : 0 < pageSize := by decide
  exact Nat.sub_lt_of_pos_le hpos _h.1

/-- The new end, or 0 when the pages run out. The offset is a word, and may stand for a negative
number. -/
def changeHeapEnd (hm : HeapManager) (pages byteOffset : ℕ) : ℕ × HeapManager :=
  match { hm with heapByteSize := wadd hm.heapByteSize byteOffset }.increase pages with
  | (false, hm) => (0, hm)
  | (true, hm)  => (hm.decrease.getHeapEnd, hm.decrease)

variable {hm : HeapManager} {pages byteOffset : ℕ}

/-! ### The end of the heap -/

lemma increase_same (hm : HeapManager) (pages : ℕ) : (hm.increase pages).2.heapStart = hm.heapStart ∧
    (hm.increase pages).2.heapByteSize = hm.heapByteSize := by
  induction pages generalizing hm with
  | zero => exact ⟨rfl, rfl⟩
  | succ pages ih =>
    rw [increase]
    split_ifs
    · exact ih _
    · exact ⟨rfl, rfl⟩

lemma decrease_same : hm.decrease.heapStart = hm.heapStart ∧
    hm.decrease.heapByteSize = hm.heapByteSize := by
  induction hd : hm.heapVaEnd using Nat.strong_induction_on generalizing hm with
  | _ d ih =>
    rw [decrease]
    split_ifs with h
    · have hpos : 0 < pageSize := by decide
      exact ih (hm.heapVaEnd - pageSize) (hd ▸ Nat.sub_lt_of_pos_le hpos h.1) rfl
    · exact ⟨rfl, rfl⟩

/-- The end moves, whether the pages are found or not. -/
lemma changeHeapEnd_same (hm : HeapManager) (pages byteOffset : ℕ) :
    (hm.changeHeapEnd pages byteOffset).2.heapStart = hm.heapStart ∧
    (hm.changeHeapEnd pages byteOffset).2.heapByteSize = wadd hm.heapByteSize byteOffset := by
  rw [changeHeapEnd]
  obtain ⟨h₁, h₂⟩ :=
    increase_same { hm with heapByteSize := wadd hm.heapByteSize byteOffset } pages
  split <;> rename_i hm' heq
  · rw [heq] at h₁ h₂
    exact ⟨h₁, h₂⟩
  · rw [heq] at h₁ h₂
    exact ⟨decrease_same.1.trans h₁, decrease_same.2.trans h₂⟩

lemma getHeapEnd_changeHeapEnd : (hm.changeHeapEnd pages byteOffset).2.getHeapEnd =
    wadd hm.heapStart (wadd hm.heapByteSize byteOffset) := by
  rw [getHeapEnd, (changeHeapEnd_same _ _ _).1, (changeHeapEnd_same _ _ _).2]

end HeapManager

end PiKachulm.Memory

import Mathlib.Data.List.Sort
import Mathlib.Order.Defs.LinearOrder

/-!
# Agendas

An agenda holds entries with the dates at which they are due. They stand in the order of their dates,
and entries of one date in the order in which they were put.
-/

namespace PiKachulm.Core.Agenda

variable {α δ : Type*} [LinearOrder δ] {e : α × δ} {d d' : δ} {l : List (α × δ)}

/-- Puts an entry in front of the first one that is due later. -/
def put (e : α × δ) (l : List (α × δ)) : List (α × δ) := l.orderedInsert (fun a b => a.2 < b.2) e

/-- The entries of one date. -/
def dueOn (d : δ) (l : List (α × δ)) : List (α × δ) := l.filter fun e => e.2 = d

/-- The entries after a date. -/
def dueAfter (d : δ) (l : List (α × δ)) : List (α × δ) := l.filter fun e => d < e.2

def InOrder (l : List (α × δ)) : Prop := l.Pairwise fun a b => a.2 ≤ b.2

/-! ### Entries of one date -/

@[simp] lemma dueOn_nil : dueOn d ([] : List (α × δ)) = [] := rfl

lemma dueOn_cons : dueOn d (e :: l) = if e.2 = d then e :: dueOn d l else dueOn d l := by
  rw [dueOn, List.filter_cons]
  simp only [decide_eq_true_eq]
  rfl

lemma dueOn_append (l l' : List (α × δ)) : dueOn d (l ++ l') = dueOn d l ++ dueOn d l' :=
  List.filter_append ..

lemma mem_dueOn : e ∈ dueOn d l ↔ e ∈ l ∧ e.2 = d := by
  rw [dueOn, List.mem_filter, decide_eq_true_eq]

lemma dueOn_eq_nil (h : ∀ e ∈ l, e.2 ≠ d) : dueOn d l = [] :=
  List.filter_eq_nil_iff.mpr fun e he => by simpa using h e he

/-! ### Putting -/

lemma mem_put {e' : α × δ} : e' ∈ put e l ↔ e' = e ∨ e' ∈ l := List.mem_orderedInsert _

lemma put_cons {e' : α × δ} : put e (e' :: l) = if e.2 < e'.2 then e :: e' :: l else e' :: put e l := rfl

/-- The entries of another date stay as they are. -/
lemma dueOn_put_of_ne (h : e.2 ≠ d) : dueOn d (put e l) = dueOn d l := by
  induction l with
  | nil          => rw [put, List.orderedInsert_nil, dueOn_cons, if_neg h]
  | cons e' l ih =>
    rw [put_cons]
    split_ifs
    · rw [dueOn_cons, if_neg h]
    · rw [dueOn_cons, dueOn_cons, ih]

/-- The entry comes behind those of its own date. -/
lemma dueOn_put_of_eq (he : e.2 = d) (h : InOrder l) : dueOn d (put e l) = dueOn d l ++ [e] := by
  induction l with
  | nil          => rw [put, List.orderedInsert_nil, dueOn_cons, if_pos he, dueOn_nil, List.nil_append]
  | cons e' l ih =>
    obtain ⟨hle, hl⟩ := List.pairwise_cons.mp h
    rw [put_cons]
    split_ifs with hlt
    · have hlater : dueOn d (e' :: l) = [] := by
        rw [he] at hlt
        refine dueOn_eq_nil fun a ha => ?_
        rcases List.mem_cons.mp ha with rfl | ha
        · exact hlt.ne'
        · exact (hlt.trans_le (hle a ha)).ne'
      rw [dueOn_cons, if_pos he, hlater, List.nil_append]
    · rw [dueOn_cons, dueOn_cons, ih hl]
      split_ifs
      · rfl
      · rfl

/-! ### The first date -/

/-- In an agenda that starts at a date, the entries of this date are those in front. -/
lemma InOrder.takeWhile_eq (h : InOrder l) (hle : ∀ e ∈ l, d ≤ e.2) :
    l.takeWhile (fun e => decide (e.2 = d)) = dueOn d l ∧
      l.dropWhile (fun e => decide (e.2 = d)) = dueAfter d l := by
  induction l with
  | nil         => exact ⟨rfl, rfl⟩
  | cons e l ih =>
    obtain ⟨hhead, hl⟩ := List.pairwise_cons.mp h
    by_cases he : e.2 = d
    · obtain ⟨htake, hdrop⟩ := ih hl fun a ha => hle a (List.mem_cons_of_mem _ ha)
      refine ⟨?_, ?_⟩
      · rw [List.takeWhile_cons_of_pos (by simpa using he), htake, dueOn_cons, if_pos he]
      · rw [List.dropWhile_cons_of_pos (by simpa using he), hdrop, dueAfter, dueAfter,
          List.filter_cons_of_neg (by simpa using he.le)]
    · have hlt : ∀ a ∈ e :: l, d < a.2 := by
        have hfirst := lt_of_le_of_ne (hle e (List.mem_cons_self ..)) (Ne.symm he)
        intro a ha
        rcases List.mem_cons.mp ha with rfl | ha
        · exact hfirst
        · exact hfirst.trans_le (hhead a ha)
      refine ⟨?_, ?_⟩
      · rw [List.takeWhile_cons_of_neg (by simpa using he), dueOn_eq_nil fun a ha => (hlt a ha).ne']
      · rw [List.dropWhile_cons_of_neg (by simpa using he), dueAfter]
        exact (List.filter_eq_self.mpr fun a ha => by simpa using hlt a ha).symm

lemma dueOn_dueAfter (h : d < d') : dueOn d' (dueAfter d l) = dueOn d' l := by
  rw [dueOn, dueAfter, List.filter_filter]
  refine List.filter_congr fun e _ => ?_
  by_cases he : e.2 = d'
  · simp [he, h]
  · simp [he]

end PiKachulm.Core.Agenda

import PiKachulm.Core.Bytes
import Mathlib.Tactic.Common

/-!
# Strings in memory

The functions of `libk/string.hpp` that device tree paths are read with, and `libk::StringView`. Strings
are given by their addresses in a memory of bytes; a byte that the memory does not have cannot be read.
-/

namespace PiKachulm.Libk

open Core

/-- No string is as long as this. -/
@[irreducible] def maxLength : ℕ := 2 ^ 64

section

variable (mem : ℕ → Option UInt8)

/-- The number of bytes before the first one that satisfies `stop`, when it comes within the fuel. -/
def lengthUntil (stop : UInt8 → Bool) : ℕ → ℕ → Option ℕ
  | 0, _        => none
  | fuel + 1, a => do
    let c ← mem a
    if stop c then some 0 else (lengthUntil stop fuel (a + 1)).map (· + 1)

def strlen (text : ℕ) : Option ℕ := lengthUntil mem (· = 0) maxLength text

/-- `strchrnul`: the first `ch`, or the NUL at the end. -/
def strchrnul (str : ℕ) (ch : UInt8) : Option ℕ :=
  (lengthUntil mem (fun c => c = 0 || c = ch) maxLength str).map (str + ·)

def strncmp (lhs rhs : ℕ) : ℕ → Option ℤ
  | 0         => some 0
  | count + 1 => do
    let l ← mem lhs
    let r ← mem rhs
    if l ≠ 0 ∧ l = r then strncmp (lhs + 1) (rhs + 1) count
    else some ((l.toNat : ℤ) - r.toNat)

end

/-- `libk::StringView`: the first byte and the number of bytes. -/
structure StringView where
  data : ℕ
  length : ℕ
  deriving DecidableEq

namespace StringView

variable (mem : ℕ → Option UInt8)

/-- The view of a whole string. -/
def ofString (str : ℕ) : Option StringView := (strlen mem str).map fun length => ⟨str, length⟩

/-- `operator==`. -/
def eq (lhs rhs : StringView) : Option Bool :=
  if lhs.length ≠ rhs.length then some false
  else (strncmp mem lhs.data rhs.data lhs.length).map fun cmp => decide (cmp = 0)

/-- The loop of `rfind`, over the first `n` bytes. -/
def rfindIn (v : StringView) (ch : UInt8) : ℕ → Option ℕ
  | 0     => some (v.data + v.length)
  | n + 1 => do
    let c ← mem (v.data + n)
    if c = ch then some (v.data + n) else rfindIn v ch n

def rfind (v : StringView) (ch : UInt8) : Option ℕ := rfindIn mem v ch v.length

end StringView

/-! ### Strings -/

variable {mem : ℕ → Option UInt8} {a b : ℕ} {s t rest : List UInt8} {stop : UInt8 → Bool} {c : UInt8}

lemma lengthUntil_eq (hs : ∀ c ∈ s, stop c = false) (hc : stop c = true)
    (h : Reads mem a (s ++ c :: rest)) {fuel : ℕ} (hfuel : s.length < fuel) :
    lengthUntil mem stop fuel a = some s.length := by
  induction s generalizing a fuel with
  | nil =>
    obtain ⟨hbyte, -⟩ := reads_cons.mp h
    cases fuel with
    | zero => exact absurd hfuel (Nat.not_lt_zero _)
    | succ fuel =>
      rw [lengthUntil, hbyte]
      simp [hc]
  | cons b s ih =>
    obtain ⟨hbyte, hrest⟩ := reads_cons.mp h
    cases fuel with
    | zero => exact absurd hfuel (Nat.not_lt_zero _)
    | succ fuel =>
      have hb : stop b = false := hs b List.mem_cons_self
      have hrec := ih (fun c hc => hs c (List.mem_cons_of_mem _ hc)) hrest
        (Nat.lt_of_succ_lt_succ hfuel)
      rw [lengthUntil, hbyte, Option.bind_eq_bind, Option.bind_some, hb, hrec]
      rfl

/-- A string is as long as what comes before its NUL. -/
lemma strlen_eq (hs : 0 ∉ s) (h : Reads mem a (s ++ 0 :: rest)) (hlt : s.length < maxLength) :
    strlen mem a = some s.length := by
  refine lengthUntil_eq (fun c hc => ?_) (by decide) h hlt
  exact decide_eq_false fun heq => hs (heq ▸ hc)

lemma strchrnul_eq {ch : UInt8} (hs : 0 ∉ s) (hch : ch ∉ s) (hc : c = 0 ∨ c = ch)
    (h : Reads mem a (s ++ c :: rest)) (hlt : s.length < maxLength) :
    strchrnul mem a ch = some (a + s.length) := by
  rw [strchrnul, lengthUntil_eq (fun b hb => ?_) (by simpa using hc) h hlt]
  · rfl
  · have hzero : b ≠ 0 := fun heq => hs (heq ▸ hb)
    have hne : b ≠ ch := fun heq => hch (heq ▸ hb)
    simp [hzero, hne]

/-- Strings of the same length and without NUL are compared byte by byte. -/
lemma strncmp_eq (hs : Reads mem a s) (ht : Reads mem b t) (hzero : 0 ∉ s)
    (hlength : s.length = t.length) :
    ∃ cmp, strncmp mem a b s.length = some cmp ∧ (cmp = 0 ↔ s = t) := by
  induction s generalizing a b t with
  | nil =>
    have ht : t = [] := List.length_eq_zero_iff.mp hlength.symm
    exact ⟨0, rfl, iff_of_true rfl ht.symm⟩
  | cons c s ih =>
    cases t with
    | nil => cases hlength
    | cons d t =>
      obtain ⟨hc, hs'⟩ := reads_cons.mp hs
      obtain ⟨hd, ht'⟩ := reads_cons.mp ht
      have hne : c ≠ 0 := fun heq => hzero (heq ▸ List.mem_cons_self)
      rw [List.length_cons, strncmp, hc, hd]
      simp only [Option.bind_eq_bind, Option.bind_some]
      by_cases heq : c = d
      · subst heq
        rw [if_pos ⟨hne, rfl⟩]
        obtain ⟨cmp, hcmp, hiff⟩ := ih hs' ht' (fun hmem => hzero (List.mem_cons_of_mem _ hmem))
          (Nat.succ.inj hlength)
        exact ⟨cmp, hcmp, hiff.trans (by simp)⟩
      · rw [if_neg fun h => heq h.2]
        refine ⟨_, rfl, iff_of_false (fun hzero => heq ?_) (by simp [heq])⟩
        exact UInt8.toNat_inj.mp (Int.ofNat_inj.mp (Int.sub_eq_zero.mp hzero))

namespace StringView

variable {v w : StringView}

/-- The view shows these bytes. -/
structure Shows (mem : ℕ → Option UInt8) (v : StringView) (s : List UInt8) : Prop where
  reads : Reads mem v.data s
  length : v.length = s.length

lemma ofString_eq (hs : 0 ∉ s) (h : Reads mem a (s ++ 0 :: rest)) (hlt : s.length < maxLength) :
    ofString mem a = some ⟨a, s.length⟩ := by
  rw [ofString, strlen_eq hs h hlt]
  rfl

/-- Views without NUL are equal when they show the same bytes. -/
lemma eq_iff (hv : v.Shows mem s) (hw : w.Shows mem t) (hs : 0 ∉ s) :
    eq mem v w = some (decide (s = t)) := by
  rw [eq]
  by_cases hlength : v.length = w.length
  · rw [if_neg (not_not_intro hlength), hv.length]
    obtain ⟨cmp, hcmp, hiff⟩ := strncmp_eq hv.reads hw.reads hs
      (hv.length.symm.trans (hlength.trans hw.length))
    rw [hcmp, Option.map_some, decide_eq_decide.mpr hiff]
  · rw [if_pos hlength, eq_comm, decide_eq_false]
    intro heq
    exact hlength (hv.length.trans (heq ▸ hw.length.symm))

/-- The last occurrence is found. -/
lemma rfind_last {ch : UInt8} (hv : v.Shows mem (s ++ ch :: t)) (ht : ch ∉ t) :
    rfind mem v ch = some (v.data + s.length) := by
  have hlast : ∀ n ≤ t.length, rfindIn mem v ch (s.length + 1 + n) = some (v.data + s.length) := by
    intro n
    induction n with
    | zero =>
      intro _
      have hbyte := (reads_cons.mp (reads_append.mp hv.reads).2).1
      rw [Nat.add_zero, rfindIn, hbyte]
      simp
    | succ n ih =>
      intro hn
      have hbyte := (reads_cons.mp (reads_append.mp hv.reads).2).2 n hn
      rw [Nat.add_assoc, Nat.add_assoc] at hbyte
      rw [← Nat.add_assoc, rfindIn, Nat.add_assoc s.length, hbyte, Option.bind_eq_bind,
        Option.bind_some, if_neg, ← Nat.add_assoc]
      · exact ih (Nat.le_of_lt hn)
      · exact fun heq => ht (heq ▸ List.getElem_mem _)
  rw [rfind, hv.length, List.length_append, List.length_cons, Nat.add_comm t.length,
    ← Nat.add_assoc]
  exact hlast t.length (Nat.le_refl _)

end StringView

end PiKachulm.Libk

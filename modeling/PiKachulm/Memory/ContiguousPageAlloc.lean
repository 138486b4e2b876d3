import PiKachulm.Memory.PageAlloc

/-!
# The contiguous page allocator

`ContiguousPageAllocator` keeps one bit for each page, and a cursor where the next search for free
pages in a row begins. A search that reaches the end begins again from the first page, once.
-/

namespace PiKachulm.Memory

open Libk

structure ContiguousPageAllocator where
  nbPages : ℕ
  freePage : BitArray
  pageCursor : ℕ

namespace ContiguousPageAllocator

def memoryNeeded (nbPages : ℕ) : ℕ := divRoundUp nbPages 8

/-- The constructor, with the words found at the address of the array. -/
def init (nbPages : ℕ) (words : ℕ → BitVec 64) : ContiguousPageAllocator where
  nbPages := nbPages
  freePage := (BitArray.init words (memoryNeeded nbPages)).fillArray true
  pageCursor := 0

def pageIndex (addr : ℕ) : ℕ := addr / pageSize

/-- The loop of `mark_as_used` and `free_pages`. -/
def setPages (m : BitArray) (first last : ℕ) (value : Bool) : BitArray :=
  (List.range' first (last + 1 - first)).foldl (fun m page => m.setBit page value) m

/-- `none` is a panic. -/
def markAsUsed (a : ContiguousPageAllocator) (start stop : ℕ) : Option ContiguousPageAllocator :=
  if start > stop then some a
  else if pageIndex stop ≥ a.nbPages then none
  else some { a with freePage := setPages a.freePage (pageIndex start) (pageIndex stop) false }

/-- `none` is a panic. -/
def freePages (a : ContiguousPageAllocator) (start stop : ℕ) : Option ContiguousPageAllocator :=
  if start > stop then some a
  else if pageIndex stop ≥ a.nbPages then none
  else some { a with freePage := setPages a.freePage (pageIndex start) (pageIndex stop) true }

/-- The loop of `try_fresh_pages`, from the page at the cursor: the range it marks as used, if any.
`pageCandidate` is `none` for `-1`; the whole result is `none` when an assertion fails. -/
def search (nbPages : ℕ) (pageCandidate : Option ℕ) (foundFreePages : ℕ)
    (a : ContiguousPageAllocator) : Option (Option (ℕ × ℕ) × ContiguousPageAllocator) :=
  if _hcursor : pageIndex a.pageCursor < a.nbPages then
    if a.freePage.getBit (pageIndex a.pageCursor) then
      let pageCandidate := if foundFreePages = 0 then some a.pageCursor else pageCandidate
      let foundFreePages := foundFreePages + 1
      if foundFreePages = nbPages then do
        let pageCandidate ← pageCandidate
        let a' ← a.markAsUsed pageCandidate a.pageCursor
        pure (some (pageCandidate, a'.pageCursor),
          { a' with pageCursor := a'.pageCursor + pageSize })
      else search nbPages pageCandidate foundFreePages { a with pageCursor := a.pageCursor + pageSize }
    else search nbPages none 0 { a with pageCursor := a.pageCursor + pageSize }
  else some (none, a)
termination_by a.nbPages - pageIndex a.pageCursor
decreasing_by
  all_goals
    simp only [pageIndex, pageSize] at *
    omega

def tryFreshPages (nbPages : ℕ) (firstPass : Bool) (a : ContiguousPageAllocator) :
    Option (Option (ℕ × ℕ) × ContiguousPageAllocator) := do
  let (range, a) ← search nbPages none 0 a
  match range, firstPass with
  | some range, _  => pure (some range, a)
  | none,    true  => tryFreshPages nbPages false { a with pageCursor := 0 }
  | none,    false => pure (none, a)
termination_by firstPass.toNat

/-- The range of pages that is returned, or `none` for false, with the allocator afterwards. -/
def freshPages (a : ContiguousPageAllocator) (nbPages : ℕ) :
    Option (Option (ℕ × ℕ) × ContiguousPageAllocator) :=
  tryFreshPages nbPages true a

def pageStatus (a : ContiguousPageAllocator) (addr : ℕ) : Bool :=
  if pageIndex addr < a.nbPages then a.freePage.getBit (pageIndex addr) else false

/-- The page is free. -/
def isFree (a : ContiguousPageAllocator) (page : ℕ) : Bool := a.freePage.getBit page

/-- The array is not null, and the cursor is at a page. -/
structure Wf (a : ContiguousPageAllocator) : Prop where
  valid : a.freePage.Valid
  cursor : a.pageCursor % pageSize = 0

/-- From `a` to `a'`, the pages from `first` to `last` get the status `value`, and no others. -/
structure Sets (first last : ℕ) (value : Bool) (a a' : ContiguousPageAllocator) : Prop where
  wf : a'.Wf
  nbPages : a'.nbPages = a.nbPages
  isFree : ∀ page, a'.isFree page = if first ≤ page ∧ page ≤ last then value else a.isFree page

/-- There are `n` free pages in a row from page `first` on. -/
def FreeRun (a : ContiguousPageAllocator) (n first : ℕ) : Prop :=
  first + n ≤ a.nbPages ∧ ∀ page, first ≤ page → page < first + n → a.isFree page = true

variable {m : BitArray} {a a' : ContiguousPageAllocator} {n i first last start stop found : ℕ}
  {value : Bool} {candidate : Option ℕ}

lemma pageIndex_mul : pageIndex (i * pageSize) = i := page_mul_div

/-! ### Marking a range -/

lemma setPages_getBit (hm : m.Valid) : (setPages m first last value).Valid ∧
    ∀ j, (setPages m first last value).getBit j =
      if first ≤ j ∧ j ≤ last then value else m.getBit j := by
  rw [setPages]
  generalize hlen : last + 1 - first = len
  induction len generalizing m first with
  | zero =>
    refine ⟨hm, fun j => ?_⟩
    rw [if_neg (by omega)]
    rfl
  | succ len ih =>
    have hset : (m.setBit first value).Valid := BitArray.setBit_valid.mpr hm
    obtain ⟨hvalid, hbits⟩ := @ih _ (first + 1) hset (by omega)
    rw [List.range'_succ, List.foldl_cons]
    refine ⟨hvalid, fun j => ?_⟩
    rw [hbits, BitArray.getBit_setBit hm]
    by_cases hj : j = first
    · subst hj
      rw [Function.update_self, if_neg (by omega), if_pos (by omega)]
    · have hiff : (first + 1 ≤ j ∧ j ≤ last) ↔ (first ≤ j ∧ j ≤ last) := by omega
      rw [Function.update_of_ne hj]
      simp only [hiff]

lemma sets_setPages (ha : a.Wf) : Sets first last value a
    { a with freePage := setPages a.freePage first last value } := by
  have hset := @setPages_getBit a.freePage first last value ha.valid
  exact ⟨⟨hset.1, ha.cursor⟩, rfl, hset.2⟩

lemma markAsUsed_sets (ha : a.Wf) (hle : start ≤ stop) (hstop : pageIndex stop < a.nbPages) :
    ∃ a', a.markAsUsed start stop = some a' ∧ a'.pageCursor = a.pageCursor ∧
      Sets (pageIndex start) (pageIndex stop) false a a' := by
  rw [markAsUsed, if_neg (by omega), if_neg (by omega)]
  exact ⟨_, rfl, rfl, sets_setPages ha⟩

lemma freePages_sets (ha : a.Wf) (hle : start ≤ stop) (hstop : pageIndex stop < a.nbPages) :
    ∃ a', a.freePages start stop = some a' ∧
      Sets (pageIndex start) (pageIndex stop) true a a' := by
  rw [freePages, if_neg (by omega), if_neg (by omega)]
  exact ⟨_, rfl, sets_setPages ha⟩

/-! ### Searching -/

/-- The search found no run that starts at page `from` or later. -/
structure FindsNone (n first : ℕ) (a a' : ContiguousPageAllocator) : Prop where
  wf : a'.Wf
  nbPages : a'.nbPages = a.nbPages
  freePage : a'.freePage = a.freePage
  none : ∀ s, first ≤ s → ¬a.FreeRun n s

lemma Wf.advance (ha : a.Wf) : ({ a with pageCursor := a.pageCursor + pageSize } :
    ContiguousPageAllocator).Wf :=
  ⟨ha.valid, by rw [Nat.add_mod_right]; exact ha.cursor⟩

/-- What the search finds from page `i` on, after `found` free pages. -/
lemma search_spec (hn : found < n) (ha : a.Wf) (hi : a.pageCursor = i * pageSize) (hfound : found ≤ i)
    (hcand : found ≠ 0 → candidate = some ((i - found) * pageSize))
    (hfree : ∀ page, i - found ≤ page → page < i → a.isFree page = true) :
    (∃ a', search n candidate found a = some (none, a') ∧ FindsNone n (i - found) a a') ∨
      ∃ s a', search n candidate found a =
          some (some (s * pageSize, s * pageSize + (n - 1) * pageSize), a') ∧
        a.FreeRun n s ∧ Sets s (s + n - 1) false a a' := by
  induction hd : a.nbPages - i using Nat.strong_induction_on generalizing a i found candidate with
  | _ d ih =>
    have hidx : pageIndex a.pageCursor = i := by rw [hi, pageIndex_mul]
    have hnext : a.pageCursor + pageSize = (i + 1) * pageSize := by rw [hi, Nat.succ_mul]
    rw [search, hidx]
    by_cases hcur : i < a.nbPages
    · rw [dif_pos hcur]
      by_cases hbit : a.freePage.getBit i = true
      · rw [if_pos hbit]
        have hcand' : (if found = 0 then some a.pageCursor else candidate) =
            some ((i - found) * pageSize) := by
          split_ifs with h0
          · rw [h0, hi, Nat.sub_zero]
          · exact hcand h0
        have hfree' : ∀ page, i - found ≤ page → page < i + 1 → a.isFree page = true := by
          intro page h₁ h₂
          rcases Nat.lt_succ_iff_lt_or_eq.mp h₂ with hlt | rfl
          · exact hfree page h₁ hlt
          · exact hbit
        simp only [hcand']
        by_cases hdone : found + 1 = n
        · right
          subst hdone
          have hle : (i - found) * pageSize ≤ a.pageCursor := by
            rw [hi]
            exact Nat.mul_le_mul_right _ (Nat.sub_le i found)
          obtain ⟨a', hmark, hcursor, hsets⟩ := markAsUsed_sets ha hle (by rwa [hidx])
          rw [pageIndex_mul, hidx] at hsets
          have hlast : i - found + (found + 1) - 1 = i := by omega
          refine ⟨i - found, { a' with pageCursor := a'.pageCursor + pageSize }, ?_, ?_, ?_⟩
          · rw [if_pos rfl]
            simp only [Option.bind_eq_bind, Option.bind_some, hmark, Option.pure_def,
              Option.some.injEq, Prod.mk.injEq, and_true, true_and]
            rw [hcursor, hi, Nat.add_sub_cancel, ← Nat.add_mul, Nat.sub_add_cancel hfound]
          · exact ⟨by omega, fun page h₁ h₂ => hfree' page h₁ (by omega)⟩
          · rw [hlast]
            exact ⟨hsets.wf.advance, hsets.nbPages, hsets.isFree⟩
        · rw [if_neg hdone]
          have hsub : i + 1 - (found + 1) = i - found := by omega
          have hrec := @ih (a.nbPages - (i + 1)) (by omega) _ (i + 1) (found + 1)
            (some ((i - found) * pageSize)) (by omega) ha.advance hnext (by omega)
            (fun _ => by rw [hsub]) (by rwa [hsub]) rfl
          rw [hsub] at hrec
          rcases hrec with ⟨a', hsearch, hnone⟩ | ⟨s, a', hsearch, hrun, hsets⟩
          · exact .inl ⟨a', hsearch, hnone.wf, hnone.nbPages, hnone.freePage, hnone.none⟩
          · exact .inr ⟨s, a', hsearch, hrun, hsets.wf, hsets.nbPages, hsets.isFree⟩
      · rw [if_neg hbit]
        have hrec := @ih (a.nbPages - (i + 1)) (by omega) _ (i + 1) 0 none
          (by omega) ha.advance hnext (Nat.zero_le _) (fun h0 => absurd rfl h0)
          (fun page h₁ h₂ => absurd h₂ (by omega)) rfl
        rcases hrec with ⟨a', hsearch, hnone⟩ | ⟨s, a', hsearch, hrun, hsets⟩
        · refine .inl ⟨a', hsearch, hnone.wf, hnone.nbPages, hnone.freePage, fun s hs hrun => ?_⟩
          rcases Nat.lt_or_ge i s with hlt | hge
          · exact hnone.none s hlt hrun
          · exact hbit (hrun.2 i hge (by omega))
        · exact .inr ⟨s, a', hsearch, hrun, hsets.wf, hsets.nbPages, hsets.isFree⟩
    · rw [dif_neg hcur]
      refine .inl ⟨a, rfl, ha, rfl, rfl, fun s hs hrun => ?_⟩
      have hle := hrun.1
      omega

lemma FreeRun.congr {a' : ContiguousPageAllocator} (hnb : a'.nbPages = a.nbPages)
    (hfree : a'.freePage = a.freePage) : a'.FreeRun n first ↔ a.FreeRun n first := by
  rw [FreeRun, FreeRun, hnb]
  simp only [isFree, hfree]

/-- `fresh_pages` takes `n` free pages in a row, and fails only when there are none. -/
lemma freshPages_spec (hn : 1 ≤ n) (ha : a.Wf) :
    (∃ a', a.freshPages n = some (none, a') ∧ FindsNone n 0 a a') ∨
      ∃ s a', a.freshPages n =
          some (some (s * pageSize, s * pageSize + (n - 1) * pageSize), a') ∧
        a.FreeRun n s ∧ Sets s (s + n - 1) false a a' := by
  have hcur : a.pageCursor = a.pageCursor / pageSize * pageSize :=
    (Nat.div_mul_cancel (Nat.dvd_of_mod_eq_zero ha.cursor)).symm
  have hsearch : ∀ {b : ContiguousPageAllocator} {i}, b.Wf → b.pageCursor = i * pageSize →
      (∃ b', search n none 0 b = some (none, b') ∧ FindsNone n i b b') ∨
        ∃ s b', search n none 0 b =
            some (some (s * pageSize, s * pageSize + (n - 1) * pageSize), b') ∧
          b.FreeRun n s ∧ Sets s (s + n - 1) false b b' := by
    intro b i hb hi
    exact search_spec hn hb hi (Nat.zero_le _) (fun h0 => absurd rfl h0)
      fun page h₁ h₂ => absurd h₂ (by omega)
  rw [freshPages, tryFreshPages]
  rcases hsearch ha hcur with ⟨a₁, h₁, hnone₁⟩ | ⟨s, a₁, h₁, hrun, hsets⟩
  · have hwf : ({ a₁ with pageCursor := 0 } : ContiguousPageAllocator).Wf :=
      ⟨hnone₁.wf.valid, Nat.zero_mod _⟩
    have hrestart := hsearch (i := 0) hwf (Nat.zero_mul _).symm
    have hfree : ∀ page, a₁.isFree page = a.isFree page := by
      intro page
      rw [isFree, isFree, hnone₁.freePage]
    have hcongr : ∀ s, a₁.FreeRun n s ↔ a.FreeRun n s :=
      fun s => FreeRun.congr hnone₁.nbPages hnone₁.freePage
    simp only [h₁, Option.bind_eq_bind, Option.bind_some]
    rw [tryFreshPages]
    rcases hrestart with ⟨a₂, h₂, hnone₂⟩ | ⟨s, a₂, h₂, hrun, hsets⟩
    · left
      refine ⟨a₂, by rw [h₂]; rfl, hnone₂.wf, hnone₂.nbPages.trans hnone₁.nbPages,
        hnone₂.freePage.trans hnone₁.freePage, fun s hs hrun => ?_⟩
      exact hnone₂.none s hs ((hcongr s).mpr hrun)
    · right
      refine ⟨s, a₂, by rw [h₂]; rfl, (hcongr s).mp hrun, hsets.wf,
        hsets.nbPages.trans hnone₁.nbPages, fun page => ?_⟩
      rw [hsets.isFree, ← hfree]
      rfl
  · exact .inr ⟨s, a₁, by rw [h₁]; rfl, hrun, hsets⟩

/-- A request for no page at all finds nothing. -/
lemma search_zero : ∃ a', search 0 candidate found a = some (none, a') ∧
    a'.freePage = a.freePage := by
  induction hd : a.nbPages - pageIndex a.pageCursor using Nat.strong_induction_on
    generalizing a found candidate with
  | _ d ih =>
    have hrec : ∀ {candidate found}, pageIndex a.pageCursor < a.nbPages → ∃ a',
        search 0 candidate found { a with pageCursor := a.pageCursor + pageSize } =
          some (none, a') ∧ a'.freePage = a.freePage := by
      intro candidate found hlt
      have hnext : pageIndex (a.pageCursor + pageSize) = pageIndex a.pageCursor + 1 :=
        Nat.add_div_right _ (by decide)
      have hlt' : a.nbPages - pageIndex (a.pageCursor + pageSize) < d := by
        rw [hnext]
        omega
      obtain ⟨a', hsearch, hfree⟩ :=
        @ih _ hlt' { a with pageCursor := a.pageCursor + pageSize } found candidate rfl
      exact ⟨a', hsearch, hfree⟩
    rw [search]
    by_cases hlt : pageIndex a.pageCursor < a.nbPages
    · rw [dif_pos hlt]
      simp only [Nat.add_one_ne_zero, if_false]
      split_ifs
      · exact hrec hlt
      · exact hrec hlt
      · exact hrec hlt
    · rw [dif_neg hlt]
      exact ⟨a, rfl, rfl⟩

lemma freshPages_zero : ∃ a', a.freshPages 0 = some (none, a') ∧ a'.freePage = a.freePage := by
  rw [freshPages, tryFreshPages]
  obtain ⟨a₁, h₁, hfree₁⟩ := @search_zero a 0 none
  simp only [h₁, Option.bind_eq_bind, Option.bind_some]
  rw [tryFreshPages]
  obtain ⟨a₂, h₂, hfree₂⟩ := @search_zero { a₁ with pageCursor := 0 } 0 none
  rw [h₂]
  exact ⟨a₂, rfl, hfree₂.trans hfree₁⟩

/-! ### What the calls preserve -/

lemma markAsUsed_wf (ha : a.Wf) (hmark : a.markAsUsed start stop = some a') :
    a'.Wf ∧ a'.nbPages = a.nbPages := by
  rw [markAsUsed] at hmark
  split_ifs at hmark
  · cases hmark
    exact ⟨ha, rfl⟩
  · cases hmark
    exact ⟨(sets_setPages ha).wf, rfl⟩

lemma freePages_wf (ha : a.Wf) (hfree : a.freePages start stop = some a') :
    a'.Wf ∧ a'.nbPages = a.nbPages := by
  rw [freePages] at hfree
  split_ifs at hfree
  · cases hfree
    exact ⟨ha, rfl⟩
  · cases hfree
    exact ⟨(sets_setPages ha).wf, rfl⟩

lemma search_wf {r : Option (ℕ × ℕ)} (ha : a.Wf)
    (hsearch : search n candidate found a = some (r, a')) : a'.Wf ∧ a'.nbPages = a.nbPages := by
  induction hd : a.nbPages - pageIndex a.pageCursor using Nat.strong_induction_on
    generalizing a found candidate with
  | _ d ih =>
    have hrec : ∀ {candidate found}, pageIndex a.pageCursor < a.nbPages →
        search n candidate found { a with pageCursor := a.pageCursor + pageSize } = some (r, a') →
        a'.Wf ∧ a'.nbPages = a.nbPages := by
      intro candidate found hlt hsearch
      have hnext : pageIndex (a.pageCursor + pageSize) = pageIndex a.pageCursor + 1 :=
        Nat.add_div_right _ (by decide)
      have hlt' : a.nbPages - pageIndex (a.pageCursor + pageSize) < d := by
        rw [hnext]
        omega
      have hwf := ih _ hlt' ha.advance hsearch rfl
      exact hwf
    rw [search] at hsearch
    by_cases hlt : pageIndex a.pageCursor < a.nbPages
    · rw [dif_pos hlt] at hsearch
      by_cases hbit : a.freePage.getBit (pageIndex a.pageCursor) = true
      · rw [if_pos hbit] at hsearch
        by_cases hdone : found + 1 = n
        · simp only [if_pos hdone, Option.bind_eq_bind, Option.bind_eq_some_iff, Option.pure_def,
            Option.some.injEq, Prod.mk.injEq] at hsearch
          obtain ⟨c, -, b, hmark, -, rfl⟩ := hsearch
          obtain ⟨hb, hnb⟩ := markAsUsed_wf ha hmark
          exact ⟨hb.advance, hnb⟩
        · simp only [if_neg hdone] at hsearch
          exact hrec hlt hsearch
      · rw [if_neg hbit] at hsearch
        exact hrec hlt hsearch
    · rw [dif_neg hlt] at hsearch
      cases hsearch
      exact ⟨ha, rfl⟩

lemma tryFreshPages_wf {b : Bool} {r : Option (ℕ × ℕ)} (ha : a.Wf)
    (htry : tryFreshPages n b a = some (r, a')) : a'.Wf ∧ a'.nbPages = a.nbPages := by
  have hlast : ∀ {a}, a.Wf → tryFreshPages n false a = some (r, a') →
      a'.Wf ∧ a'.nbPages = a.nbPages := by
    intro a ha htry
    rw [tryFreshPages, Option.bind_eq_bind, Option.bind_eq_some_iff] at htry
    obtain ⟨⟨range, a₁⟩, hsearch, htry⟩ := htry
    cases range with
    | none =>
      cases htry
      exact search_wf ha hsearch
    | some range =>
      cases htry
      exact search_wf ha hsearch
  cases b with
  | false => exact hlast ha htry
  | true =>
    rw [tryFreshPages, Option.bind_eq_bind, Option.bind_eq_some_iff] at htry
    obtain ⟨⟨range, a₁⟩, hsearch, htry⟩ := htry
    obtain ⟨ha₁, hnb⟩ := search_wf ha hsearch
    cases range with
    | none =>
      have hreset : ({ a₁ with pageCursor := 0 } : ContiguousPageAllocator).Wf :=
        ⟨ha₁.valid, Nat.zero_mod _⟩
      obtain ⟨ha', hnb'⟩ := hlast hreset htry
      exact ⟨ha', hnb'.trans hnb⟩
    | some range =>
      cases htry
      exact ⟨ha₁, hnb⟩

lemma wf_init {words : ℕ → BitVec 64} : (init n words).Wf :=
  ⟨BitArray.fillArray_valid.mpr rfl, Nat.zero_mod _⟩

end ContiguousPageAllocator

/-! ### Runs -/

inductive ContiguousCall where
  | markAsUsed (start stop : ℕ)
  | freePages (start stop : ℕ)
  | freshPages (nbPages : ℕ)
  deriving DecidableEq, Repr

/-- `none` is a panic. -/
def ContiguousCall.run (a : ContiguousPageAllocator) : ContiguousCall → Option ContiguousPageAllocator
  | markAsUsed start stop => a.markAsUsed start stop
  | freePages start stop  => a.freePages start stop
  | freshPages nbPages    => (a.freshPages nbPages).map Prod.snd

/-- The allocators that calls without panic lead to. -/
inductive ContiguousReaches (a : ContiguousPageAllocator) : ContiguousPageAllocator → Prop
  | refl : ContiguousReaches a a
  | step {a' a'' : ContiguousPageAllocator} {c : ContiguousCall} (h : ContiguousReaches a a')
      (hrun : c.run a' = some a'') : ContiguousReaches a a''

open ContiguousPageAllocator

variable {a a' : ContiguousPageAllocator} {n : ℕ}

lemma ContiguousReaches.wf (ha : a.Wf) (hreach : ContiguousReaches a a') :
    a'.Wf ∧ a'.nbPages = a.nbPages := by
  induction hreach with
  | refl => exact ⟨ha, rfl⟩
  | @step a' a'' c _ hrun ih =>
    suffices hstep : a''.Wf ∧ a''.nbPages = a'.nbPages from ⟨hstep.1, hstep.2.trans ih.2⟩
    cases c with
    | markAsUsed start stop => exact markAsUsed_wf ih.1 hrun
    | freePages start stop => exact freePages_wf ih.1 hrun
    | freshPages k =>
      rw [ContiguousCall.run, Option.map_eq_some_iff] at hrun
      obtain ⟨⟨r, b⟩, hfresh, rfl⟩ := hrun
      exact tryFreshPages_wf ih.1 hfresh

/-- What a contiguous allocator guarantees for requests of `n` pages: a request returns; it
succeeds when there are `n` free pages in a row, takes such pages and no others, and changes
nothing when it fails; and giving the pages back, at any later time, makes them free. -/
structure ContiguousSpec (a : ContiguousPageAllocator) (n : ℕ) : Prop where
  returns : ∃ r a', a.freshPages n = some (r, a') ∧ (r.isSome = true ↔ ∃ first, a.FreeRun n first)
  takes : ∀ start stop a', a.freshPages n = some (some (start, stop), a') →
    stop = start + (n - 1) * pageSize ∧ start % pageSize = 0 ∧ a.FreeRun n (start / pageSize) ∧
    ∀ page, a'.isFree page =
      if start / pageSize ≤ page ∧ page < start / pageSize + n then false else a.isFree page
  fails : ∀ a', a.freshPages n = some (none, a') → a'.freePage = a.freePage
  frees : ∀ start stop a₁ a₂, a.freshPages n = some (some (start, stop), a₁) →
    ContiguousReaches a₁ a₂ → ∃ a₃, a₂.freePages start stop = some a₃ ∧
    ∀ page, a₃.isFree page =
      if start / pageSize ≤ page ∧ page < start / pageSize + n then true else a₂.isFree page

lemma ContiguousPageAllocator.Wf.spec (ha : a.Wf) (hn : 1 ≤ n) : ContiguousSpec a n := by
  have hdiv : ∀ s, (s * pageSize + (n - 1) * pageSize) / pageSize = s + (n - 1) := by
    intro s
    rw [← Nat.add_mul, page_mul_div]
  have hiff : ∀ s page, (s ≤ page ∧ page ≤ s + n - 1) ↔ (s ≤ page ∧ page < s + n) := by
    intro s page
    omega
  rcases freshPages_spec hn ha with ⟨b, hfresh, hnone⟩ | ⟨s, b, hfresh, hrun, hsets⟩
  · refine ⟨⟨none, b, hfresh, ?_⟩, ?_, ?_, ?_⟩
    · simp only [Option.isSome_none, Bool.false_eq_true, false_iff, not_exists]
      exact fun first => hnone.none first (Nat.zero_le _)
    · intro start stop a' h
      rw [hfresh] at h
      cases h
    · intro a' h
      rw [hfresh] at h
      cases h
      exact hnone.freePage
    · intro start stop a₁ a₂ h
      rw [hfresh] at h
      cases h
  · refine ⟨⟨_, b, hfresh, ?_⟩, ?_, ?_, ?_⟩
    · simp only [Option.isSome_some, true_iff]
      exact ⟨s, hrun⟩
    · intro start stop a' h
      rw [hfresh] at h
      cases h
      rw [page_mul_div]
      refine ⟨rfl, Nat.mul_mod_left _ _, hrun, fun page => ?_⟩
      rw [hsets.isFree]
      simp only [hiff]
    · intro a' h
      rw [hfresh] at h
      cases h
    · intro start stop a₁ a₂ h hreach
      rw [hfresh] at h
      cases h
      obtain ⟨ha₂, hnb⟩ := hreach.wf hsets.wf
      have hlt : pageIndex (s * pageSize + (n - 1) * pageSize) < a₂.nbPages := by
        rw [pageIndex, hdiv, hnb, hsets.nbPages]
        have hle := hrun.1
        omega
      obtain ⟨a₃, hfree, hsets₃⟩ := freePages_sets ha₂ (Nat.le_add_right _ _) hlt
      rw [pageIndex_mul, pageIndex, hdiv] at hsets₃
      refine ⟨a₃, hfree, fun page => ?_⟩
      have hlast : s + (n - 1) = s + n - 1 := by omega
      rw [hsets₃.isFree, page_mul_div, hlast]
      simp only [hiff]

theorem contiguous_spec_of_reaches {nbPages : ℕ} {words : ℕ → BitVec 64} (hn : 1 ≤ n)
    (hreach : ContiguousReaches (ContiguousPageAllocator.init nbPages words) a) :
    ContiguousSpec a n :=
  (hreach.wf wf_init).1.spec hn

/-- Calls one after another. -/
def ContiguousPageAllocator.runAll (a : ContiguousPageAllocator) (calls : List ContiguousCall) :
    Option ContiguousPageAllocator :=
  calls.foldlM (fun a c => c.run a) a

lemma ContiguousReaches.runAll {calls : List ContiguousCall} {a'' : ContiguousPageAllocator}
    (h : ContiguousReaches a a') (hrun : a'.runAll calls = some a'') : ContiguousReaches a a'' := by
  induction calls generalizing a' with
  | nil => exact Option.some_inj.mp hrun ▸ h
  | cons c calls ih =>
    obtain ⟨b, hb, hrest⟩ := Option.bind_eq_some_iff.mp hrun
    exact ih (h.step hb) hrest

/-- Of five pages, the first two have been given back, and the cursor is behind the next two. -/
def someCalls : List ContiguousCall := [.freshPages 3, .freshPages 1, .freePages 0 pageSize]

/-- A request for two pages, which are found in the second pass. -/
theorem contiguous_spec_of_reaches_five : ∃ a,
    (ContiguousPageAllocator.init 5 fun _ => 0).runAll someCalls = some a ∧ a.pageCursor = 4 * pageSize ∧
      (List.range 5).map a.isFree = [true, true, false, false, true] ∧ ContiguousSpec a 2 := by
  have hcalls : ((ContiguousPageAllocator.init 5 fun _ => 0).runAll someCalls).any (fun a =>
      decide (a.pageCursor = 4 * pageSize ∧ (List.range 5).map a.isFree = [true, true, false, false, true])) := by
    decide +kernel
  obtain ⟨a, hrun, hstate⟩ := (Option.any_eq_true _ _).mp hcalls
  obtain ⟨hcursor, hfree⟩ := of_decide_eq_true hstate
  exact ⟨a, hrun, hcursor, hfree, contiguous_spec_of_reaches (by decide) (ContiguousReaches.refl.runAll hrun)⟩

end PiKachulm.Memory

import Mathlib.Logic.Function.Basic
import Mathlib.Data.List.Nodup

/-!
# Mappings of chunks and buffers

A memory chunk or a buffer that is mapped in a process is registered twice: in the sections of the
process, and in the list of mappings of the chunk. The two lists stay the same as long as, of several
mappings of a chunk in one process, the oldest is the one that is unmapped. A destructor unmaps while it walks
through the list of mappings, and fails as soon as there is one.
-/

namespace PiKachulm.Memory

/-- Process memories are named by the addresses of their objects. -/
abbrev ProcPtr := ℕ

/-- What can be mapped, by the address of the object. -/
inductive Mapped where
  | chunk (address : ℕ)
  | buffer (address : ℕ)
  deriving DecidableEq

/-- `MemoryChunk::ProcessMapped`, and the structure of that name in `Buffer`. -/
structure ProcessMapped where
  start : ℕ
  proc : ProcPtr
  deriving DecidableEq

/-- `ProcessMemory::MappedSections`. -/
structure MappedSection where
  start : ℕ
  mem : Mapped
  deriving DecidableEq

/-- The list `_sec` of every process, and the list `_proc` of every chunk and buffer. -/
structure Mappings where
  sec : ProcPtr → List MappedSection
  proc : Mapped → List ProcessMapped

namespace Mappings

variable (s : Mappings) (p : ProcPtr) (o : Mapped) (a : ℕ)

def registerMapping : Mappings :=
  { s with proc := Function.update s.proc o (s.proc o ++ [⟨a, p⟩]) }

/-- The first entry of the process is erased; without one the kernel panics. -/
def unregisterMapping : Option Mappings :=
  match (s.proc o).find? fun m => m.proc = p with
  | none   => none
  | some m => some { s with proc := Function.update s.proc o ((s.proc o).erase m) }

/-- `map_chunk` and `map_buffer`: `mapped` tells that the object has memory and that the pages have
been mapped. -/
def mapMemory (mapped : Bool) : Mappings :=
  if mapped then
    ({ s with sec := Function.update s.sec p (s.sec p ++ [⟨a, o⟩]) } : Mappings).registerMapping p o a
  else s

def mapChunk (mapped : Bool) (chunk : ℕ) : Mappings := s.mapMemory p (.chunk chunk) a mapped

def mapBuffer (mapped : Bool) (buffer : ℕ) : Mappings := s.mapMemory p (.buffer buffer) a mapped

/-- `unmap_memory`; an address at which nothing is mapped is logged. -/
def unmapMemory : Option Mappings :=
  match (s.sec p).find? fun it => it.start = a with
  | none    => some s
  | some it => (s.unregisterMapping p it.mem).map fun s =>
    { s with sec := Function.update s.sec p ((s.sec p).erase it) }

/-- The range-for of the destructors, whose iterator stands on entry `i` of the list. The body may erase
entries: when it is that of the iterator, `operator++` reads a deleted node; when it is one before, the next
entry is number `i` then. Each iteration moves on or shortens the list, which bounds their number. -/
def destroyLoop (o : Mapped) : ℕ → ℕ → Mappings → Option Mappings
  | 0, _, _ => none
  | fuel + 1, i, s =>
    match (s.proc o)[i]? with
    | none   => some s
    | some m => do
      let s' ← s.unmapMemory m.proc m.start
      if (s'.proc o).length = (s.proc o).length then destroyLoop o fuel (i + 1) s'
      else if (s.proc o).findIdx (fun m' => m'.proc = m.proc) = i then none
      else destroyLoop o fuel i s'

/-- The destructors of `MemoryChunk` and `Buffer`. -/
def destroy : Option Mappings := do
  let s' ← destroyLoop o ((s.proc o).length + 1) 0 s
  if (s'.proc o).isEmpty then some s' else none

inductive Op where
  | mapChunk (mapped : Bool) (p : ProcPtr) (chunk a : ℕ)
  | mapBuffer (mapped : Bool) (p : ProcPtr) (buffer a : ℕ)
  | unmapMemory (p : ProcPtr) (a : ℕ)
  | destroy (o : Mapped)

def Op.run (s : Mappings) : Op → Option Mappings
  | .mapChunk mapped p chunk a   => some (s.mapChunk p a mapped chunk)
  | .mapBuffer mapped p buffer a => some (s.mapBuffer p a mapped buffer)
  | .unmapMemory p a             => s.unmapMemory p a
  | .destroy o                   => s.destroy o

/-- The addresses in a process are distinct. -/
def Op.Distinct (s : Mappings) : Op → Prop
  | .mapChunk _ p _ a  => ∀ it ∈ s.sec p, it.start ≠ a
  | .mapBuffer _ p _ a => ∀ it ∈ s.sec p, it.start ≠ a
  | _                  => True

/-- What is unmapped is the oldest mapping of its chunk or buffer in the process, and what is destroyed has
no mappings left. -/
def Op.Clean (s : Mappings) : Op → Prop
  | .unmapMemory p a => ∀ it, ((s.sec p).find? fun it => it.start = a) = some it →
    ((s.sec p).find? fun it' => it'.mem = it.mem) = some it
  | .destroy o       => s.proc o = []
  | _                => True

/-- The mappings of the processes and those of the chunks are the same. -/
def Sound : Prop := ∀ o p a, (s.proc o).count ⟨a, p⟩ = (s.sec p).count ⟨a, o⟩

/-- A destructor unmaps exactly what is mapped, and its assertion holds. -/
def Op.Works (s : Mappings) : Op → Prop
  | .destroy o => ∃ s', s.destroy o = some s' ∧ (∀ p, s'.sec p = (s.sec p).filter fun it => it.mem ≠ o) ∧
    s'.proc = Function.update s.proc o []
  | _          => True

/-- All states of the run are sound, and all destructors work. -/
def AlwaysSound (s : Mappings) : List Op → Prop
  | []        => s.Sound
  | op :: ops => s.Sound ∧ (op.Distinct s → op.Works s ∧ ∀ s', op.run s = some s' → s'.AlwaysSound ops)

/-- All steps of the run are clean. -/
def AlwaysClean (s : Mappings) : List Op → Prop
  | []        => True
  | op :: ops => op.Distinct s → op.Clean s ∧ ∀ s', op.run s = some s' → s'.AlwaysClean ops

/-- Nothing is mapped. -/
def empty : Mappings := ⟨fun _ => [], fun _ => []⟩

/-! ### The lists -/

/-- The sections of a process that belong to an object. -/
def ofMem : List MappedSection := (s.sec p).filter fun it => it.mem = o

/-- The mappings of an object in a process. -/
def ofProc : List ProcessMapped := (s.proc o).filter fun m => m.proc = p

/-- The invariant: both lists are in the same order. -/
structure Ordered : Prop where
  same : ∀ o p, (s.ofMem p o).map MappedSection.start = (s.ofProc p o).map ProcessMapped.start
  distinct : ∀ p, ((s.sec p).map MappedSection.start).Nodup

variable {s p o a} {s' : Mappings} {it : MappedSection} {m : ProcessMapped} {p' : ProcPtr} {o' : Mapped}
  {op : Op} {ops : List Op}

/-- A section and a mapping are removed. -/
def removed (s : Mappings) (p : ProcPtr) (it : MappedSection) (m : ProcessMapped) : Mappings where
  sec := Function.update s.sec p ((s.sec p).erase it)
  proc := Function.update s.proc it.mem ((s.proc it.mem).erase m)

lemma sec_removed : (s.removed p it m).sec = Function.update s.sec p ((s.sec p).erase it) := rfl

lemma proc_removed : (s.removed p it m).proc = Function.update s.proc it.mem ((s.proc it.mem).erase m) := rfl

lemma unmapMemory_eq_some (hs : s.unmapMemory p a = some s') :
    (((s.sec p).find? fun it => it.start = a) = none ∧ s' = s) ∨
      ∃ it m, ((s.sec p).find? fun it => it.start = a) = some it ∧
        ((s.proc it.mem).find? fun m => m.proc = p) = some m ∧ s' = s.removed p it m := by
  rw [unmapMemory] at hs
  cases hit : (s.sec p).find? fun it => it.start = a with
  | none    =>
    rw [hit] at hs
    cases hs
    exact .inl ⟨rfl, rfl⟩
  | some it =>
    rw [hit] at hs
    obtain ⟨s₁, h₁, rfl⟩ := Option.map_eq_some_iff.mp hs
    rw [unregisterMapping] at h₁
    split at h₁
    · cases h₁
    · rename_i m hm
      cases h₁
      exact .inr ⟨it, m, rfl, hm, rfl⟩

lemma head?_ofMem : (s.ofMem p o).head? = (s.sec p).find? fun it => it.mem = o := List.head?_filter

lemma head?_ofProc : (s.ofProc p o).head? = (s.proc o).find? fun m => m.proc = p := List.head?_filter

lemma Ordered.head_start (h : s.Ordered) : ((s.sec p).find? fun it => it.mem = o).map MappedSection.start =
    ((s.proc o).find? fun m => m.proc = p).map ProcessMapped.start := by
  rw [← head?_ofMem, ← head?_ofProc, ← List.head?_map, h.same, List.head?_map]

lemma ofMem_removed_self : (s.removed p it m).ofMem p o' = (s.ofMem p o').erase it := by
  rw [ofMem, sec_removed, Function.update_self, ofMem, List.erase_filter]

lemma ofMem_removed_of_ne (hp : p' ≠ p) : (s.removed p it m).ofMem p' o' = s.ofMem p' o' := by
  rw [ofMem, sec_removed, Function.update_of_ne hp, ofMem]

lemma ofProc_removed_self : (s.removed p it m).ofProc p' it.mem = (s.ofProc p' it.mem).erase m := by
  rw [ofProc, proc_removed, Function.update_self, ofProc, List.erase_filter]

lemma ofProc_removed_of_ne (ho : o' ≠ it.mem) : (s.removed p it m).ofProc p' o' = s.ofProc p' o' := by
  rw [ofProc, proc_removed, Function.update_of_ne ho, ofProc]

/-- The oldest mapping is removed from both lists. -/
lemma Ordered.removed (h : s.Ordered) (hit : ((s.sec p).find? fun it' => it'.mem = it.mem) = some it)
    (hm : ((s.proc it.mem).find? fun m => m.proc = p) = some m) : (s.removed p it m).Ordered := by
  refine ⟨fun o' p' => ?_, fun p' => ?_⟩
  · by_cases hp : p' = p
    · subst hp
      rw [ofMem_removed_self]
      by_cases ho : o' = it.mem
      · subst ho
        have hsame := h.same it.mem p'
        rw [← head?_ofMem] at hit
        rw [← head?_ofProc] at hm
        obtain ⟨its, hits⟩ := List.head?_eq_some_iff.mp hit
        obtain ⟨ms, hms⟩ := List.head?_eq_some_iff.mp hm
        rw [ofProc_removed_self, hits, hms, List.erase_cons_head, List.erase_cons_head]
        rw [hits, hms, List.map_cons, List.map_cons] at hsame
        exact (List.cons.inj hsame).2
      · have hnot : it ∉ s.ofMem p' o' := by
          intro hmem
          exact ho (of_decide_eq_true (List.mem_filter.mp hmem).2).symm
        rw [ofProc_removed_of_ne ho, List.erase_of_not_mem hnot, h.same]
    · rw [ofMem_removed_of_ne hp, h.same]
      by_cases ho : o' = it.mem
      · subst ho
        have hnot : m ∉ s.ofProc p' it.mem := by
          intro hmem
          have hmp := List.find?_some hm
          rw [decide_eq_true_iff] at hmp
          exact hp ((of_decide_eq_true (List.mem_filter.mp hmem).2).symm.trans hmp)
        rw [ofProc_removed_self, List.erase_of_not_mem hnot]
      · rw [ofProc_removed_of_ne ho]
  · by_cases hp : p' = p
    · subst hp
      rw [sec_removed, Function.update_self]
      exact (h.distinct p').sublist (List.erase_sublist.map _)
    · rw [sec_removed, Function.update_of_ne hp]
      exact h.distinct p'

/-! ### Unmapping -/

/-- An object with a section has a mapping too. -/
lemma Ordered.exists_mapping (h : s.Ordered) (hit : it ∈ s.sec p) :
    ∃ it₀ m, ((s.sec p).find? fun it' => it'.mem = it.mem) = some it₀ ∧
      ((s.proc it.mem).find? fun m => m.proc = p) = some m ∧ it₀.start = m.start := by
  have hstart := h.head_start (p := p) (o := it.mem)
  cases hfind : (s.sec p).find? fun it' => it'.mem = it.mem with
  | none     =>
    have hnone := List.find?_eq_none.mp hfind it hit
    simp at hnone
  | some it₀ =>
    rw [hfind, Option.map_some] at hstart
    obtain ⟨m, hm, heq⟩ := Option.map_eq_some_iff.mp hstart.symm
    exact ⟨it₀, m, rfl, hm, heq.symm⟩

/-- Sections of a process at the same address are the same. -/
lemma Ordered.eq_of_start (h : s.Ordered) {it' : MappedSection} (hit : it ∈ s.sec p) (hit' : it' ∈ s.sec p)
    (hstart : it.start = it'.start) : it = it' :=
  List.inj_on_of_nodup_map (h.distinct p) hit hit' hstart

lemma unmapMemory_of_find? (hit : ((s.sec p).find? fun it => it.start = a) = some it)
    (hm : ((s.proc it.mem).find? fun m => m.proc = p) = some m) :
    s.unmapMemory p a = some (s.removed p it m) := by
  rw [unmapMemory, hit]
  dsimp only
  rw [unregisterMapping, hm]
  rfl

/-- The entry that `unregister_mapping` erases is the one of the section exactly when this is the oldest. -/
lemma Ordered.oldest_iff (h : s.Ordered) (hit : it ∈ s.sec p)
    (hm : ((s.proc it.mem).find? fun m => m.proc = p) = some m) :
    ((s.sec p).find? fun it' => it'.mem = it.mem) = some it ↔ it.start = m.start := by
  obtain ⟨it₀, m₀, hit₀, hm₀, hstart⟩ := h.exists_mapping hit
  rw [hm] at hm₀
  cases hm₀
  rw [hit₀]
  constructor
  · intro heq
    cases heq
    exact hstart
  · intro heq
    rw [h.eq_of_start (List.mem_of_find?_eq_some hit₀) hit (hstart.trans heq.symm)]

lemma count_ofMem : (s.sec p).count ⟨a, o⟩ = ((s.ofMem p o).map MappedSection.start).count a := by
  rw [List.count, List.count, List.countP_map, ofMem, List.countP_filter]
  refine List.countP_congr fun it _ => ?_
  obtain ⟨start, mem⟩ := it
  simp

lemma count_ofProc : (s.proc o).count ⟨a, p⟩ = ((s.ofProc p o).map ProcessMapped.start).count a := by
  rw [List.count, List.count, List.countP_map, ofProc, List.countP_filter]
  refine List.countP_congr fun m _ => ?_
  obtain ⟨start, proc⟩ := m
  simp

lemma Ordered.count_eq (h : s.Ordered) : (s.proc o).count ⟨a, p⟩ = (s.sec p).count ⟨a, o⟩ := by
  rw [count_ofMem, count_ofProc, h.same]

/-- If the counts stay the same, both entries that are removed are at the same address. -/
lemma Ordered.start_eq_of_count (h : s.Ordered) (hit : it ∈ s.sec p)
    (hm : ((s.proc it.mem).find? fun m => m.proc = p) = some m)
    (hcount : ((s.removed p it m).proc it.mem).count ⟨it.start, p⟩ =
      ((s.removed p it m).sec p).count ⟨it.start, it.mem⟩) : it.start = m.start := by
  have hproc := List.find?_some hm
  rw [decide_eq_true_iff] at hproc
  by_contra hne
  have hnot : m ≠ ⟨it.start, p⟩ := fun heq => hne (congrArg ProcessMapped.start heq).symm
  have hpos : 0 < (s.sec p).count it := List.count_pos_iff.mpr hit
  rw [sec_removed, proc_removed, Function.update_self, Function.update_self, List.count_erase_of_ne hnot.symm,
    h.count_eq, List.count_erase_self] at hcount
  change (s.sec p).count it = (s.sec p).count it - 1 at hcount
  exact Nat.ne_of_gt (Nat.sub_one_lt_of_lt hpos) hcount

/-! ### Destroying -/

/-- The section of the first entry is found, and the entry is erased. -/
lemma Ordered.unmap_head {ms : List ProcessMapped} (h : s.Ordered) (hms : s.proc o = m :: ms) :
    ∃ s', s.unmapMemory m.proc m.start = some s' ∧ s'.proc = Function.update s.proc o ms := by
  have hm : ((s.proc o).find? fun m' => m'.proc = m.proc) = some m := by
    rw [hms, List.find?_cons_of_pos]
    exact decide_eq_true rfl
  have hstart := h.head_start (p := m.proc) (o := o)
  rw [hm, Option.map_some] at hstart
  obtain ⟨it, hit, heq⟩ := Option.map_eq_some_iff.mp hstart
  have hmem := List.mem_of_find?_eq_some hit
  have hito := List.find?_some hit
  rw [decide_eq_true_iff] at hito
  subst hito
  have hfind : ((s.sec m.proc).find? fun it' => it'.start = m.start) = some it := by
    cases hf : (s.sec m.proc).find? fun it' => it'.start = m.start with
    | none     =>
      have hnone := List.find?_eq_none.mp hf it hmem
      exact (hnone (decide_eq_true heq)).elim
    | some it' =>
      have hstart' := List.find?_some hf
      rw [decide_eq_true_iff] at hstart'
      rw [h.eq_of_start (List.mem_of_find?_eq_some hf) hmem (hstart'.trans heq.symm)]
  refine ⟨_, unmapMemory_of_find? hfind hm, ?_⟩
  rw [proc_removed, hms, List.erase_cons_head]

/-- The first iteration erases the entry that it is at. -/
lemma Ordered.destroy_eq_none (h : s.Ordered) (hne : s.proc o ≠ []) : s.destroy o = none := by
  obtain ⟨m, ms, hms⟩ := List.exists_cons_of_ne_nil hne
  obtain ⟨s', hs', hproc⟩ := h.unmap_head hms
  have hlength : (s'.proc o).length ≠ (s.proc o).length := by
    rw [hproc, Function.update_self, hms, List.length_cons]
    exact Nat.ne_of_lt (Nat.lt_succ_self _)
  have hfirst : (s.proc o).findIdx (fun m' => m'.proc = m.proc) = 0 := by
    rw [hms, List.findIdx_cons, decide_eq_true rfl]
    rfl
  have hhead : (s.proc o)[0]? = some m := by
    rw [hms]
    rfl
  have hloop : destroyLoop o ((s.proc o).length + 1) 0 s = none := by
    rw [destroyLoop, hhead]
    dsimp only
    rw [hs', Option.bind_eq_bind, Option.bind_some, if_neg hlength, if_pos hfirst]
  rw [destroy, hloop]
  rfl

/-- Without mappings there is nothing to do. -/
lemma destroy_of_nil (hnil : s.proc o = []) : s.destroy o = some s := by
  have hloop : destroyLoop o ((s.proc o).length + 1) 0 s = some s := by
    rw [destroyLoop, hnil]
    rfl
  rw [destroy, hloop, Option.bind_eq_bind, Option.bind_some, hnil]
  rfl

/-- A destructor works exactly when there are no mappings. -/
lemma Ordered.works_destroy_iff (h : s.Ordered) : (Op.destroy o).Works s ↔ s.proc o = [] := by
  constructor
  · rintro ⟨s', hs', -⟩
    by_contra hne
    rw [h.destroy_eq_none hne] at hs'
    cases hs'
  · intro hnil
    refine ⟨s, destroy_of_nil hnil, fun p => ?_, ?_⟩
    · have hofMem : s.ofMem p o = [] := by
        rw [← List.map_eq_nil_iff (f := MappedSection.start), h.same, ofProc, hnil]
        rfl
      rw [eq_comm, List.filter_eq_self]
      intro it hit
      exact decide_eq_true fun ho => List.filter_eq_nil_iff.mp hofMem it hit (decide_eq_true ho)
    · rw [← hnil, Function.update_eq_self]

lemma Ordered.sound (h : s.Ordered) : s.Sound := fun _ _ _ => h.count_eq

/-! ### Runs -/

lemma Ordered.mapMemory {mapped : Bool} (h : s.Ordered) (hdistinct : ∀ it ∈ s.sec p, it.start ≠ a) :
    (s.mapMemory p o a mapped).Ordered := by
  rw [Mappings.mapMemory]
  split_ifs
  swap
  · exact h
  refine ⟨fun o' p' => ?_, fun p' => ?_⟩
  · have hsec : (Function.update s.sec p (s.sec p ++ [⟨a, o⟩]) p').filter (fun it => it.mem = o') =
        s.ofMem p' o' ++ if p' = p ∧ o' = o then [⟨a, o⟩] else [] := by
      by_cases hp : p' = p
      · subst hp
        rw [Function.update_self, List.filter_append, ofMem]
        by_cases ho : o' = o
        · simp [ho]
        · simp [ho, Ne.symm ho]
      · rw [Function.update_of_ne hp, if_neg fun hpo => hp hpo.1, List.append_nil, ofMem]
    have hproc : (Function.update s.proc o (s.proc o ++ [⟨a, p⟩]) o').filter (fun m => m.proc = p') =
        s.ofProc p' o' ++ if p' = p ∧ o' = o then [⟨a, p⟩] else [] := by
      by_cases ho : o' = o
      · subst ho
        rw [Function.update_self, List.filter_append, ofProc]
        by_cases hp : p' = p
        · simp [hp]
        · simp [hp, Ne.symm hp]
      · rw [Function.update_of_ne ho, if_neg fun hpo => ho hpo.2, List.append_nil, ofProc]
    show (List.filter _ _).map MappedSection.start = (List.filter _ _).map ProcessMapped.start
    rw [registerMapping, hsec, hproc, List.map_append, List.map_append, h.same]
    split_ifs <;> rfl
  · show ((Function.update s.sec p (s.sec p ++ [⟨a, o⟩]) p').map MappedSection.start).Nodup
    by_cases hp : p' = p
    · subst hp
      rw [Function.update_self, List.map_append, List.map_singleton, ← List.concat_eq_append,
        List.nodup_concat]
      refine ⟨fun hmem => ?_, h.distinct p'⟩
      obtain ⟨it, hit, hstart⟩ := List.mem_map.mp hmem
      exact hdistinct it hit hstart
    · rw [Function.update_of_ne hp]
      exact h.distinct p'

/-- A clean step keeps the invariant. -/
lemma Ordered.run (h : s.Ordered) (hd : op.Distinct s) (hclean : op.Clean s) (hs : op.run s = some s') :
    s'.Ordered := by
  cases op with
  | mapChunk mapped p chunk a   =>
    cases hs
    exact h.mapMemory hd
  | mapBuffer mapped p buffer a =>
    cases hs
    exact h.mapMemory hd
  | unmapMemory p a             =>
    rcases unmapMemory_eq_some hs with ⟨-, rfl⟩ | ⟨it, m, hit, hm, rfl⟩
    · exact h
    · exact h.removed (hclean it hit) hm
  | destroy o                   =>
    rw [Op.run, destroy_of_nil hclean] at hs
    cases hs
    exact h

lemma Ordered.works (h : s.Ordered) (hclean : op.Clean s) : op.Works s := by
  cases op with
  | destroy o => exact h.works_destroy_iff.mpr hclean
  | _         => exact trivial

/-- A step that works, and after which the mappings are the same, is clean. -/
lemma Ordered.clean (h : s.Ordered) (hworks : op.Works s) (hsound : ∀ s', op.run s = some s' → s'.Sound) :
    op.Clean s := by
  cases op with
  | unmapMemory p a =>
    intro it hit
    have hmem := List.mem_of_find?_eq_some hit
    obtain ⟨-, m, -, hm, -⟩ := h.exists_mapping hmem
    rw [h.oldest_iff hmem hm]
    exact h.start_eq_of_count hmem hm (hsound _ (unmapMemory_of_find? hit hm) ..)
  | destroy o       => exact h.works_destroy_iff.mp hworks
  | _               => exact trivial

lemma AlwaysSound.sound (h : s.AlwaysSound ops) : s.Sound := by
  cases ops with
  | nil      => exact h
  | cons _ _ => exact h.1

lemma Ordered.alwaysSound_iff_alwaysClean (h : s.Ordered) : s.AlwaysSound ops ↔ s.AlwaysClean ops := by
  induction ops generalizing s with
  | nil           => exact iff_of_true h.sound trivial
  | cons op ops ih =>
    rw [AlwaysSound, AlwaysClean, and_iff_right h.sound]
    refine forall_congr' fun hd => ?_
    constructor
    · rintro ⟨hworks, hrest⟩
      have hclean := h.clean hworks fun s' hs => (hrest s' hs).sound
      exact ⟨hclean, fun s' hs => (ih (h.run hd hclean hs)).mp (hrest s' hs)⟩
    · rintro ⟨hclean, hrest⟩
      exact ⟨h.works hclean, fun s' hs => (ih (h.run hd hclean hs)).mpr (hrest s' hs)⟩

lemma ordered_empty : empty.Ordered := ⟨fun _ _ => rfl, fun _ => List.nodup_nil⟩

/-- The two sides stay the same, and the destructors work, exactly in the runs in which the mapping that is
unmapped is always the oldest one of its chunk or buffer in the process, and only chunks and buffers without
mappings are destroyed. -/
theorem mappingsSound_iff (ops : List Op) : empty.AlwaysSound ops ↔ empty.AlwaysClean ops :=
  ordered_empty.alwaysSound_iff_alwaysClean

/-- A chunk is mapped twice in a process, and the second mapping is unmapped: the entry of the first one is
erased. And a chunk that is mapped once is destroyed: the loop of the destructor erases the entry that it is
at. -/
theorem not_alwaysSound_secondUnmapped :
    ¬empty.AlwaysSound [.mapChunk true 1 7 0x1000, .mapChunk true 1 7 0x2000, .unmapMemory 1 0x2000] ∧
      ¬empty.AlwaysSound [.mapChunk true 1 7 0x1000, .destroy (.chunk 7)] := by
  let s₁ := empty.mapChunk 1 0x1000 true 7
  constructor
  · intro h
    have hdistinct : ∀ it ∈ s₁.sec 1, it.start ≠ 0x2000 := by decide +kernel
    have h₁ := (h.2 nofun).2 s₁ rfl
    have h₂ := (h₁.2 hdistinct).2 (s₁.mapChunk 1 0x2000 true 7) rfl
    have h₃ := ((h₂.2 trivial).2 _ rfl).sound (.chunk 7) 1 0x1000
    revert h₃
    decide +kernel
  · intro h
    obtain ⟨s', hs', -⟩ := (((h.2 nofun).2 s₁ rfl).2 trivial).1
    have hnone : s₁.destroy (.chunk 7) = none := by decide +kernel
    rw [hnone] at hs'
    cases hs'

end Mappings

end PiKachulm.Memory

import PiKachulm.Libk.LinkedList
import PiKachulm.Memory.ProcessMemory

/-!
# Loops that erase what they walk through

A task gives back its windows and its pipes, a process its sections, a chunk or a buffer its mappings,
each in a loop over the list that the body of the loop erases from. All lists have their nodes in the
same memory.
-/

namespace PiKachulm.Tasks

open Libk Memory

inductive Element where
  | mappedSection (s : MappedSection)
  | processMapped (m : ProcessMapped)
  | window (window : ℕ)
  | pipe (pipe : ℕ)
  deriving DecidableEq

/-- The lists: `_sec` of a process, `_proc` of a chunk or a buffer, `m_windows` of a task and of the
window manager, `m_open_pipes` of a task. -/
inductive ListName where
  | sec (p : ProcPtr)
  | proc (o : Mapped)
  | ownWindows (task : ℕ)
  | windows
  | openPipes (task : ℕ)
  deriving DecidableEq

/-- `owner` is the task of a window, `focused` is `m_focus_window`. -/
structure World where
  nodes : Nodes Element
  list : ListName → LinkedList
  focused : Option ℕ
  visible : ℕ → Bool
  owner : ℕ → ℕ

/-- What a function does with the nodes of lists that are not considered here. It allocates and deletes
nodes, but changes none that it does not delete. -/
structure Elsewhere where
  run : Nodes Element → Option (Nodes Element)
  later : ∀ s s', run s = some s' → s.Later s'
  keeps : ∀ s s' a n, run s = some s' → s.node a = some n → s'.deleted a = s.deleted a →
    s'.node a = some n

/-- The address that `new` returns for a node, what `unregister_pipe` does to close a pipe of a task,
which it may have to wake other tasks for, and what `unref` does. -/
structure Services where
  address : Nodes Element → Option ℕ
  close : (task pipe : ℕ) → Elsewhere
  unref : (pipe : ℕ) → Elsewhere

namespace World

variable (S : Services) (fuel : ℕ) (w : World)

def find (name : ListName) (p : Element → Bool) : Option (Option ℕ) :=
  w.nodes.find p fuel (w.list name).head

def erase (name : ListName) (a : ℕ) : Option World :=
  (w.nodes.removeNode (w.list name) a).map fun r =>
    { w with nodes := r.1, list := Function.update w.list name r.2 }

def pushFront (name : ListName) (x : Element) : Option World := do
  let a ← S.address w.nodes
  let r ← w.nodes.pushFront (w.list name) a x
  return { w with nodes := r.1, list := Function.update w.list name r.2 }

/-- The element that `std::find` finds is erased. There has to be one. -/
def eraseFound (name : ListName) (p : Element → Bool) : Option World := do
  let it ← w.find fuel name p
  let a ← it
  w.erase name a

/-! ### Sections and mappings -/

def isMappingIn (p : ProcPtr) : Element → Bool
  | .processMapped m => m.proc = p
  | _ => false

def isSectionAt (start : ℕ) : Element → Bool
  | .mappedSection s => s.start = start
  | _ => false

def unregisterMapping (o : Mapped) (p : ProcPtr) : Option World :=
  w.eraseFound fuel (.proc o) (isMappingIn p)

def unmapMemory (p : ProcPtr) (start : ℕ) : Option World := do
  let it ← w.find fuel (.sec p) (isSectionAt start)
  match it with
  | none => some w
  | some a => do
    let n ← w.nodes.node a
    match n.data with
    | .mappedSection s => do
      let w ← w.unregisterMapping fuel s.mem p
      w.erase (.sec p) a
    | _ => none

/-! ### Windows -/

/-- The elements of a list from a node on. -/
def elements (nodes : Nodes Element) : ℕ → Option ℕ → Option (List Element)
  | 0, _             => none
  | _ + 1, none      => some []
  | fuel + 1, some a => do
    let n ← nodes.node a
    let es ← elements nodes fuel n.next
    return n.data :: es

/-- What `focus_window` does when no window has the focus. -/
def raise (window : ℕ) : Option World := do
  let w : World := { w with focused := some window }
  let w ← w.eraseFound fuel .windows (· = .window window)
  w.pushFront S .windows (.window window)

/-- An element is a visible window other than `window`. -/
def candidate (window : ℕ) : Element → Option ℕ
  | .window v => if v ≠ window ∧ w.visible v then some v else none
  | _ => none

def unfocusWindow (window : ℕ) : Option World :=
  if w.focused ≠ some window then some w
  else do
    let es ← elements w.nodes fuel (w.list .windows).head
    let unfocused : World := { w with focused := none }
    match (es.filterMap (w.candidate window)).getLast? with
    | none => some unfocused
    | some v => unfocused.raise S fuel v

def focusWindow (window : ℕ) : Option World :=
  if w.focused = some window then some w
  else do
    let w ← w.focused.elim (some w) fun v => w.unfocusWindow S fuel v
    w.raise S fuel window

/-- The end of `destroy_window`: the last window of the list gets the focus. -/
def focusBack : Option World :=
  if (w.list .windows).head = none then some w
  else do
    let a ← (w.list .windows).tail
    let n ← w.nodes.node a
    match n.data with
    | .window back => w.focusWindow S fuel back
    | _ => none

def destroyWindow (window : ℕ) : Option World := do
  let it ← w.find fuel .windows (· = .window window)
  let _ ← it
  let w ← w.eraseFound fuel (.ownWindows (w.owner window)) (· = .window window)
  let w ← (if w.focused = some window then w.unfocusWindow S fuel window else some w)
  let w ← w.eraseFound fuel .windows (· = .window window)
  w.focusBack S fuel

/-! ### Pipes -/

def unregisterPipe (task pipe : ℕ) : Option World := do
  let nodes ← (S.close task pipe).run w.nodes
  let w : World := { w with nodes := nodes }
  let w ← w.eraseFound fuel (.openPipes task) (· = .pipe pipe)
  let nodes ← (S.unref pipe).run w.nodes
  return { w with nodes := nodes }

end World

/-! ### The loops -/

/-- The loops of `ProcessMemory::free`, of the destructors of `MemoryChunk` and `Buffer`, and two of
`Task::free_resources`. -/
inductive WalkLoop where
  | sections (p : ProcPtr)
  | mappings (o : Mapped)
  | windows (task : ℕ)
  | pipes (task : ℕ)

namespace WalkLoop

/-- The list that a loop walks through. -/
def name : WalkLoop → ListName
  | .sections p   => .sec p
  | .mappings o   => .proc o
  | .windows task => .ownWindows task
  | .pipes task   => .openPipes task

def body (S : Services) (fuel : ℕ) : WalkLoop → Element → World → Option World
  | .sections p, .mappedSection chunk, w => w.unmapMemory fuel p chunk.start
  | .mappings _, .processMapped proc, w  => w.unmapMemory fuel proc.proc proc.start
  | .windows _, .window window, w        => w.destroyWindow S fuel window
  | .pipes task, .pipe pipe, w           => w.unregisterPipe S fuel task pipe
  | _, _, _                              => none

/-- The loop from an iterator on, with the nodes it visits. The node of the iterator is read before the
body, and again to go on to the next one. -/
def run (S : Services) (loop : WalkLoop) : ℕ → Nodes.Iterator → World → Option (List ℕ × World)
  | 0, _, _ => none
  | fuel + 1, it, w =>
    match it.node with
    | none => some ([], w)
    | some a => do
      let n ← w.nodes.read it
      let w ← loop.body S fuel n.data w
      let n ← w.nodes.read it
      let r ← run S loop fuel (w.nodes.iterator n.next) w
      return (a :: r.1, r.2)

/-- The loop reads no node that has been deleted, visits each of the given ones once and leaves the
list empty. -/
def Safe (S : Services) (loop : WalkLoop) (w : World) (nodes : List ℕ) : Prop :=
  ∃ fuel r, loop.run S fuel (w.nodes.iterator (w.list loop.name).head) w = some r ∧
    r.1.Perm nodes ∧ (r.2.list loop.name).head = none

/-- What is registered is registered twice: a mapping of an object is the section of its process at
that address, a window of a task has this task. -/
def Registered (w : World) : WalkLoop → Element → Prop
  | .mappings o, .processMapped m => ∃ as a n, w.nodes.Holds (w.list (.sec m.proc)) as ∧
      (as.find? fun a => (w.nodes.node a).any fun n => World.isSectionAt m.start n.data) = some a ∧
        w.nodes.node a = some n ∧ n.data = .mappedSection ⟨m.start, o⟩
  | .windows task, .window window => w.owner window = task
  | _, _ => True

/-- The list of the loop is made of these nodes, whose elements are registered. -/
structure Ready (w : World) (loop : WalkLoop) (nodes : List ℕ) : Prop where
  holds : w.nodes.Holds (w.list loop.name) nodes
  registered : ∀ a ∈ nodes, ∀ n, w.nodes.node a = some n → Registered w loop n.data

end WalkLoop

/-! ### Deletions -/

namespace World

variable {S : Services} {fuel a h : ℕ} {w w' : World} {name : ListName} {p : Element → Bool}
  {x : Element} {n : Node Element} {window : ℕ}

lemma erase_spec (hw : w.erase name a = some w') :
    w.nodes.Later w'.nodes ∧ w.nodes.deleted a < w'.nodes.deleted a := by
  obtain ⟨r, hr, rfl⟩ := Option.map_eq_some_iff.mp hw
  exact ⟨Nodes.later_removeNode hr, Nodes.removeNode_self hr⟩

lemma eraseFound_spec (hw : w.eraseFound fuel name p = some w') :
    ∃ a, w.find fuel name p = some (some a) ∧ w.erase name a = some w' := by
  simp only [eraseFound, Option.bind_eq_bind, Option.bind_eq_some_iff] at hw
  obtain ⟨it, hit, a, rfl, ha⟩ := hw
  exact ⟨a, hit, ha⟩

lemma later_eraseFound (hw : w.eraseFound fuel name p = some w') : w.nodes.Later w'.nodes := by
  obtain ⟨a, -, ha⟩ := eraseFound_spec hw
  exact (erase_spec ha).1

/-- The first node of a list is deleted when it is one that is looked for. -/
lemma eraseFound_head (hhead : (w.list name).head = some h) (hn : w.nodes.node h = some n)
    (hp : p n.data = true) (hw : w.eraseFound fuel name p = some w') :
    w.nodes.deleted h < w'.nodes.deleted h := by
  obtain ⟨a, hfind, ha⟩ := eraseFound_spec hw
  rw [find, hhead] at hfind
  cases Option.some_inj.mp (Nodes.find_head hn hp hfind)
  exact (erase_spec ha).2

lemma later_pushFront (hw : w.pushFront S name x = some w') : w.nodes.Later w'.nodes := by
  simp only [pushFront, Option.bind_eq_bind, Option.bind_eq_some_iff] at hw
  obtain ⟨a, -, r, hr, hw⟩ := hw
  cases hw
  exact Nodes.later_of_deleted (Nodes.pushFront_deleted hr)

lemma later_raise (hw : w.raise S fuel window = some w') : w.nodes.Later w'.nodes := by
  simp only [raise, Option.bind_eq_bind, Option.bind_eq_some_iff] at hw
  obtain ⟨w₁, h₁, h₂⟩ := hw
  have hfirst := later_eraseFound h₁
  exact hfirst.trans (later_pushFront h₂)

lemma later_unfocusWindow (hw : w.unfocusWindow S fuel window = some w') :
    w.nodes.Later w'.nodes := by
  rw [unfocusWindow] at hw
  split_ifs at hw with hf
  · cases hw
    exact Nodes.Later.refl _
  · simp only [Option.bind_eq_bind, Option.bind_eq_some_iff] at hw
    obtain ⟨es, -, hw⟩ := hw
    split at hw
    · cases hw
      exact Nodes.Later.refl _
    · exact later_raise (w := { w with focused := none }) hw

lemma later_focusWindow (hw : w.focusWindow S fuel window = some w') : w.nodes.Later w'.nodes := by
  rw [focusWindow] at hw
  split_ifs at hw with hf
  · cases hw
    exact Nodes.Later.refl _
  · simp only [Option.bind_eq_bind, Option.bind_eq_some_iff] at hw
    obtain ⟨w₁, h₁, h₂⟩ := hw
    have hfirst : w.nodes.Later w₁.nodes := by
      cases hold : w.focused with
      | none =>
        rw [hold] at h₁
        cases h₁
        exact Nodes.Later.refl _
      | some old =>
        rw [hold] at h₁
        exact later_unfocusWindow h₁
    exact hfirst.trans (later_raise h₂)

lemma later_focusBack (hw : w.focusBack S fuel = some w') : w.nodes.Later w'.nodes := by
  rw [focusBack] at hw
  split_ifs at hw with hempty
  · cases hw
    exact Nodes.Later.refl _
  · simp only [Option.bind_eq_bind, Option.bind_eq_some_iff] at hw
    obtain ⟨a, -, n, -, hw⟩ := hw
    split at hw
    · exact later_focusWindow hw
    · cases hw

lemma unmapMemory_spec {p : ProcPtr} {start : ℕ} (hw : w.unmapMemory fuel p start = some w') :
    (w.find fuel (.sec p) (isSectionAt start) = some none ∧ w' = w) ∨
      ∃ a n s w₁, w.find fuel (.sec p) (isSectionAt start) = some (some a) ∧
        w.nodes.node a = some n ∧ n.data = .mappedSection s ∧
        w.unregisterMapping fuel s.mem p = some w₁ ∧ w₁.erase (.sec p) a = some w' := by
  simp only [unmapMemory, Option.bind_eq_bind, Option.bind_eq_some_iff] at hw
  obtain ⟨it, hit, hw⟩ := hw
  cases it with
  | none =>
    cases hw
    exact .inl ⟨hit, rfl⟩
  | some a =>
    simp only [Option.bind_eq_some_iff] at hw
    obtain ⟨n, hn, hw⟩ := hw
    split at hw
    · next s hs =>
      obtain ⟨w₁, h₁, h₂⟩ := Option.bind_eq_some_iff.mp hw
      exact .inr ⟨a, n, s, w₁, hit, hn, hs, h₁, h₂⟩
    · cases hw

end World

namespace WalkLoop

variable {S : Services} {fuel h : ℕ} {w w' : World} {loop : WalkLoop} {n : Node Element}
  {nodes : List ℕ}

lemma Ready.head (hr : Ready w loop (h :: nodes)) : (w.list loop.name).head = some h := hr.holds.head

lemma Ready.node (hr : Ready w loop (h :: nodes)) : ∃ n, w.nodes.node h = some n := by
  obtain ⟨data, hn⟩ := hr.holds.linked.1
  exact ⟨_, hn⟩

/-- `unmap_memory` erases the first section of the process. -/
lemma sections_deletes {p : ProcPtr} {chunk : MappedSection} (hr : Ready w (.sections p) (h :: nodes))
    (hn : w.nodes.node h = some n) (hdata : n.data = .mappedSection chunk)
    (hw : w.unmapMemory fuel p chunk.start = some w') :
    w.nodes.deleted h < w'.nodes.deleted h := by
  have hp : World.isSectionAt chunk.start n.data = true := by simp [hdata, World.isSectionAt]
  have hfound : ∀ r, w.find fuel (.sec p) (World.isSectionAt chunk.start) = some r → r = some h := by
    intro r hr'
    rw [World.find, show (w.list (.sec p)).head = some h from hr.head] at hr'
    exact Nodes.find_head hn hp hr'
  rcases World.unmapMemory_spec hw with ⟨hnone, -⟩ | ⟨a, n', s, w₁, hsome, -, -, h₁, h₂⟩
  · cases hfound _ hnone
  · cases hfound _ hsome
    have hlater := World.later_eraseFound h₁
    exact (hlater h).trans_lt (World.erase_spec h₂).2

/-- `unmap_memory` of a mapping erases the first mapping in its process from the list of the object. -/
lemma mappings_deletes {o : Mapped} {m : ProcessMapped} (hr : Ready w (.mappings o) (h :: nodes))
    (hn : w.nodes.node h = some n) (hdata : n.data = .processMapped m)
    (hw : w.unmapMemory fuel m.proc m.start = some w') :
    w.nodes.deleted h < w'.nodes.deleted h := by
  have hreg := hr.registered h List.mem_cons_self n hn
  rw [hdata] at hreg
  obtain ⟨as, b, nb, hholds, hfirst, hb, hmem⟩ := hreg
  have hfound : ∀ r, w.find fuel (.sec m.proc) (World.isSectionAt m.start) = some r → r = some b := by
    intro r hr'
    rw [World.find, hholds.head] at hr'
    rw [Nodes.find_linked hholds.linked hr', hfirst]
  rcases World.unmapMemory_spec hw with ⟨hnone, -⟩ | ⟨a, n', s, w₁, hsome, ha, hs, h₁, h₂⟩
  · cases hfound _ hnone
  · cases hfound _ hsome
    cases hb.symm.trans ha
    cases hmem.symm.trans hs
    have hp : World.isMappingIn m.proc n.data = true := by simp [hdata, World.isMappingIn]
    have hlt := World.eraseFound_head (show (w.list (.proc o)).head = some h from hr.head) hn hp h₁
    exact hlt.trans_le ((World.erase_spec h₂).1 h)

/-- `destroy_window` erases the first window of the task, before the focus moves. -/
lemma windows_deletes {task window : ℕ} (hr : Ready w (.windows task) (h :: nodes))
    (hn : w.nodes.node h = some n) (hdata : n.data = .window window)
    (hw : w.destroyWindow S fuel window = some w') :
    w.nodes.deleted h < w'.nodes.deleted h := by
  have howner := hr.registered h List.mem_cons_self n hn
  rw [hdata] at howner
  simp only [World.destroyWindow, Option.bind_eq_bind, Option.bind_eq_some_iff] at hw
  obtain ⟨it, -, -, -, w₁, h₁, w₂, h₂, w₃, h₃, h₄⟩ := hw
  rw [show w.owner window = task from howner] at h₁
  have hlt := World.eraseFound_head (show (w.list (.ownWindows task)).head = some h from hr.head) hn
    (by simp [hdata]) h₁
  have hunfocus : w₁.nodes.Later w₂.nodes := by
    split_ifs at h₂
    · exact World.later_unfocusWindow h₂
    · cases h₂
      exact Nodes.Later.refl _
  have hrest := hunfocus.trans ((World.later_eraseFound h₃).trans (World.later_focusBack h₄))
  exact hlt.trans_le (hrest h)

/-- `unregister_pipe` erases the first pipe of the task, if closing it has left it there. -/
lemma pipes_deletes {task pipe : ℕ} (hr : Ready w (.pipes task) (h :: nodes))
    (hn : w.nodes.node h = some n) (hdata : n.data = .pipe pipe)
    (hw : w.unregisterPipe S fuel task pipe = some w') :
    w.nodes.deleted h < w'.nodes.deleted h := by
  simp only [World.unregisterPipe, Option.bind_eq_bind, Option.bind_eq_some_iff] at hw
  obtain ⟨closed, hclose, w₁, h₁, unrefed, hunref, hw⟩ := hw
  cases hw
  have hlater := (S.close task pipe).later _ _ hclose
  have hlast := (S.unref pipe).later _ _ hunref
  have herase := World.later_eraseFound h₁
  by_cases hsame : closed.deleted h = w.nodes.deleted h
  · have hn' := (S.close task pipe).keeps _ _ h n hclose hn hsame
    have hlt := World.eraseFound_head (w := { w with nodes := closed })
      (show (w.list (.openPipes task)).head = some h from hr.head) hn' (by simp [hdata]) h₁
    rw [← hsame]
    exact hlt.trans_le (hlast h)
  · have hlt := lt_of_le_of_ne (hlater h) (Ne.symm hsame)
    exact hlt.trans_le ((herase h).trans (hlast h))

/-- The body of each loop deletes the node that the loop stands on. -/
lemma body_deletes (hr : Ready w loop (h :: nodes)) (hn : w.nodes.node h = some n)
    (hw : loop.body S fuel n.data w = some w') : w.nodes.deleted h < w'.nodes.deleted h := by
  cases hdata : n.data <;> cases loop <;> rw [hdata] at hw
  case mappedSection.sections => exact sections_deletes hr hn hdata hw
  case processMapped.mappings => exact mappings_deletes hr hn hdata hw
  case window.windows => exact windows_deletes hr hn hdata hw
  case pipe.pipes => exact pipes_deletes hr hn hdata hw
  all_goals cases hw

/-- With something in the list the loop reads a deleted node after its first iteration. -/
lemma run_cons (hr : Ready w loop (h :: nodes)) :
    loop.run S fuel (w.nodes.iterator (w.list loop.name).head) w = none := by
  obtain ⟨n, hn⟩ := hr.node
  rw [hr.head]
  cases fuel with
  | zero => rfl
  | succ fuel =>
    change (w.nodes.read (w.nodes.iterator (some h))).bind _ = none
    rw [Nodes.read_iterator, hn, Option.bind_some]
    cases hbody : loop.body S fuel n.data w with
    | none => rfl
    | some w' =>
      have hstale := Nodes.read_of_lt (body_deletes hr hn hbody)
      simp only [Option.bind_eq_bind, Option.bind_some, hstale, Option.bind_none]

lemma not_safe_cons (hr : Ready w loop (h :: nodes)) : ¬Safe S loop w (h :: nodes) := by
  rintro ⟨fuel, r, hrun, -⟩
  rw [run_cons hr] at hrun
  cases hrun

/-- The loops are safe for empty lists only. -/
theorem safe_iff (S : Services) (hr : Ready w loop nodes) : Safe S loop w nodes ↔ nodes = [] := by
  constructor
  · intro hsafe
    cases nodes with
    | nil => rfl
    | cons h nodes => exact absurd hsafe (not_safe_cons hr)
  · rintro rfl
    have hhead : (w.list loop.name).head = none := hr.holds.head
    refine ⟨1, ([], w), ?_, List.Perm.refl _, hhead⟩
    rw [hhead]
    rfl

/-- A process with one section, which belongs to a chunk. -/
def oneSection : World where
  nodes := ⟨fun a => if a = 10 then some ⟨.mappedSection ⟨4096, .chunk 1⟩, none, none⟩
    else if a = 20 then some ⟨.processMapped ⟨4096, 7⟩, none, none⟩ else none, fun _ => 0⟩
  list
    | .sec 7 => ⟨some 10, some 10⟩
    | .proc (.chunk 1) => ⟨some 20, some 20⟩
    | _ => .empty
  focused := none
  visible := fun _ => false
  owner := fun _ => 0

/-- Nothing is done elsewhere. -/
def idle : Services where
  address := fun _ => none
  close := fun _ _ => ⟨some, fun _ _ h => by cases h; exact Nodes.Later.refl _,
    fun _ _ _ _ h hn _ => by cases h; exact hn⟩
  unref := fun _ => ⟨some, fun _ _ h => by cases h; exact Nodes.Later.refl _,
    fun _ _ _ _ h hn _ => by cases h; exact hn⟩

lemma ready_oneSection : Ready oneSection (.sections 7) [10] where
  holds := ⟨rfl, rfl, ⟨⟨_, rfl⟩, trivial⟩, by decide⟩
  registered := fun _ _ n _ => by
    cases n.data <;> trivial

/-- `ProcessMemory::free` for this process. -/
theorem safe_iff_oneSection :
    Safe idle (.sections 7) oneSection [10] ↔ [10] = ([] : List ℕ) :=
  safe_iff idle ready_oneSection

theorem not_safe_oneSection : ¬∀ (S : Services) (loop : WalkLoop) (w : World) (nodes : List ℕ),
    Ready w loop nodes → Safe S loop w nodes :=
  fun hall => not_safe_cons ready_oneSection (hall idle _ _ _ ready_oneSection)

end WalkLoop

end PiKachulm.Tasks

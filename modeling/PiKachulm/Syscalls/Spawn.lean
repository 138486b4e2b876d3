import Mathlib.Algebra.Order.BigOperators.Group.List
import PiKachulm.Core.Bytes
import PiKachulm.Libk.Word
import PiKachulm.Memory.MemoryChunk

/-!
# The arguments of a program

`spawn` writes the number of arguments, a table of pointers and the arguments themselves into one page
of the new task, where the library of the task reads them again.
-/

namespace PiKachulm.Syscalls

open Core Libk Memory Mmu Services

/-- A string in the memory of a process, without the byte that ends it. Processes have `2 ^ 48` bytes
of addresses. -/
structure CString where
  bytes : List UInt8
  noNul : 0 ∉ bytes
  fits : bytes.length < 2 ^ 48

/-- `libk::strlen(data) + 1`. -/
def CString.dataLen (s : CString) : ℕ := s.bytes.length + 1

/-- The string with the byte that ends it. -/
def CString.data (s : CString) : List UInt8 := s.bytes ++ [0]

/-- `SYS_ARGS_ADDRESS`. -/
def sysArgsAddress : ℕ := 0x1000000

/-! ### Writing the arguments -/

/-- The loop of `pika_sys_spawn` from argument `i` on. -/
def writeArgs (chunk : MemoryChunk) (argvDataOffset i : ℕ) : List CString → MemoryChunk
  | []        => chunk
  | s :: argv =>
    let chunk := chunk.write argvDataOffset s.data
    let argvAddr := wadd sysArgsAddress argvDataOffset
    let chunk := chunk.write (8 + 8 * i) (leBytes 8 argvAddr)
    writeArgs chunk (wadd argvDataOffset s.dataLen) (i + 1) argv

/-- What the arguments start with: their number, and then the room for the pointers. -/
def argvDataStart (argc : ℕ) : ℕ := wadd argc (8 * (argc + 1) % 2 ^ 64)

/-- A call of `spawn` returns with an error, or starts a task that has the chunk mapped. -/
inductive SpawnResult where
  | error
  | started (argsChunk : MemoryChunk)

/-- `pika_sys_spawn`, for pointers that are not null. `created` is what `create_task` returns, if it
does, and `table` are the translation tables of the new task. -/
def pikaSysSpawn (tbl : MMUTable) (table : State) (created : Option Bool) (p : Provision)
    (argv : List CString) : Option SpawnResult := do
  let created ← created
  if created then
    let chunk ← MemoryChunk.create 1 p
    let (mapped, _) ← chunk.mapChunk tbl sysArgsAddress true false table
    if mapped then
      let chunk := chunk.write 0 (leBytes 8 argv.length)
      pure (.started (writeArgs chunk (argvDataStart argv.length) 0 argv))
    else pure .error
  else pure .error

/-! ### Reading the arguments -/

/-- The memory of the task: the page of the arguments, and whatever the task has at other addresses, and
at these when the chunk has no memory. -/
def taskMemory (argsChunk : MemoryChunk) (rest : ℕ → Option UInt8) (a : ℕ) : Option UInt8 :=
  if argsChunk.hasMemory ∧ sysArgsAddress ≤ a ∧ a < sysArgsAddress + 4096 then
    some (argsChunk.bytes (a - sysArgsAddress))
  else rest a

def sysGetArgc (mem : ℕ → Option UInt8) : Option ℕ := readWord mem 8 sysArgsAddress

def sysGetArgv : ℕ := sysArgsAddress + 8

/-- `sys_get_argv()[i]`. -/
def argvEntry (mem : ℕ → Option UInt8) (i : ℕ) : Option ℕ := readWord mem 8 (sysGetArgv + 8 * i)

/-- Two ranges of addresses, by their starts and lengths, have no address in common. -/
def Apart (a n b m : ℕ) : Prop := a + n ≤ b ∨ b + m ≤ a

/-- The task finds the arguments in its memory. -/
structure Faithful (mem : ℕ → Option UInt8) (argv : List CString) : Prop where
  argc : sysGetArgc mem = some argv.length
  argv : ∃ ptr : ℕ → ℕ, ∀ i (hi : i < argv.length), argvEntry mem i = some (ptr i) ∧
    Reads mem (ptr i) argv[i].data ∧
    Apart (ptr i) argv[i].dataLen sysGetArgv (8 * argv.length) ∧
    ∀ j (hj : j < argv.length), i ≠ j → Apart (ptr i) argv[i].dataLen (ptr j) argv[j].dataLen

/-- The call returns with an error, or starts a task that finds the arguments, whatever else there is
in its memory. -/
def PassesArgs (tbl : MMUTable) (table : State) (created : Option Bool) (p : Provision)
    (argv : List CString) : Prop :=
  ∃ r, pikaSysSpawn tbl table created p argv = some r ∧
    ∀ argsChunk, r = .started argsChunk → ∀ rest, Faithful (taskMemory argsChunk rest) argv

/-- The bytes that the arguments take, with a byte more for each of them than there has to be. -/
def argsSize (argv : List CString) : ℕ :=
  9 * argv.length + 8 + (argv.map CString.dataLen).sum

/-- What `spawn` needs of the kernel, and of the arguments. -/
def CanPass (tbl : MMUTable) (table : State) (created : Option Bool) (p : Provision)
    (argv : List CString) : Prop :=
  created = some false ∨ created = some true ∧ ∃ chunk mapped table',
    MemoryChunk.create 1 p = some chunk ∧
      chunk.mapChunk tbl sysArgsAddress true false table = some (mapped, table') ∧
      (mapped = true → chunk.hasMemory = true ∧ argsSize argv ≤ 4096)

/-! ### The layout -/

variable {chunk : MemoryChunk} {offset i j k x : ℕ} {s : CString} {argv : List CString}
  {rest : ℕ → Option UInt8}

@[simp] lemma length_data (s : CString) : s.data.length = s.dataLen := List.length_append

/-- The bytes of a chunk, as a memory of their own. -/
def content (chunk : MemoryChunk) (x : ℕ) : Option UInt8 := some (chunk.bytes x)

/-- Where the data of argument `k` is, when that of the first one is at `offset`. -/
def dataOffset (offset : ℕ) (argv : List CString) (k : ℕ) : ℕ :=
  offset + ((argv.take k).map CString.dataLen).sum

lemma dataOffset_succ (offset : ℕ) (s : CString) (argv : List CString) (k : ℕ) :
    dataOffset offset (s :: argv) (k + 1) = dataOffset (offset + s.dataLen) argv k := by
  rw [dataOffset, dataOffset, List.take_succ_cons, List.map_cons, List.sum_cons, Nat.add_assoc]

lemma dataOffset_add_le (hk : k < argv.length) (hkj : k < j) :
    dataOffset offset argv k + argv[k].dataLen ≤ dataOffset offset argv j := by
  have hsucc : dataOffset offset argv k + argv[k].dataLen = dataOffset offset argv (k + 1) := by
    rw [dataOffset, dataOffset, ← List.take_append_getElem hk, List.map_append, List.sum_append,
      List.map_singleton, List.sum_singleton, Nat.add_assoc]
  rw [hsucc]
  apply Nat.add_le_add_left
  apply List.Sublist.sum_le_sum
  · exact (List.take_sublist_take_left hkj).map _
  · exact fun _ _ => Nat.zero_le _

lemma dataOffset_length : dataOffset offset argv argv.length =
    offset + (argv.map CString.dataLen).sum := by
  rw [dataOffset, List.take_length]

/-! ### What the loop writes -/

@[simp] lemma hasMemory_writeArgs : (writeArgs chunk offset i argv).hasMemory = chunk.hasMemory := by
  induction argv generalizing chunk offset i with
  | nil => rfl
  | cons s argv ih => exact ih

@[simp] lemma getByteSize_writeArgs :
    (writeArgs chunk offset i argv).getByteSize = chunk.getByteSize := by
  induction argv generalizing chunk offset i with
  | nil => rfl
  | cons s argv ih => exact ih

/-- The last argument is written last, and its pointer after it. -/
lemma writeArgs_concat (hfit : offset + (argv.map CString.dataLen).sum < 2 ^ 64) :
    writeArgs chunk offset i (argv ++ [s]) =
      ((writeArgs chunk offset i argv).write (offset + (argv.map CString.dataLen).sum) s.data).write
        (8 + 8 * (i + argv.length))
        (leBytes 8 (wadd sysArgsAddress (offset + (argv.map CString.dataLen).sum))) := by
  induction argv generalizing chunk offset i with
  | nil => rfl
  | cons s' argv ih =>
    rw [List.map_cons, List.sum_cons, ← Nat.add_assoc] at hfit ⊢
    rw [List.cons_append, writeArgs, writeArgs, wadd_of_lt ((Nat.le_add_right _ _).trans_lt hfit),
      ih hfit, List.length_cons, show i + (argv.length + 1) = i + 1 + argv.length by ring]

/-- Bytes before the data are only written in the table. -/
lemma bytes_writeArgs (hfit : offset + (argv.map CString.dataLen).sum < 2 ^ 64) (hx : x < offset)
    (htable : x < 8 + 8 * i ∨ 8 + 8 * (i + argv.length) ≤ x) :
    (writeArgs chunk offset i argv).bytes x = chunk.bytes x := by
  induction argv generalizing chunk offset i with
  | nil => rfl
  | cons s argv ih =>
    rw [List.map_cons, List.sum_cons, ← Nat.add_assoc] at hfit
    rw [List.length_cons] at htable
    rw [writeArgs, wadd_of_lt ((Nat.le_add_right _ _).trans_lt hfit)]
    rw [ih hfit (hx.trans_le (Nat.le_add_right _ _)) (by omega)]
    have hentry : x < 8 + 8 * i ∨ 8 + 8 * i + (leBytes 8 (wadd sysArgsAddress offset)).length ≤ x := by
      rw [length_leBytes]
      omega
    rcases hentry with hlt | hge
    · rw [MemoryChunk.bytes_write_of_lt hlt, MemoryChunk.bytes_write_of_lt hx]
    · rw [MemoryChunk.bytes_write_of_ge hge, MemoryChunk.bytes_write_of_lt hx]

lemma reads_write {data : List UInt8} (hmem : chunk.hasMemory = true)
    (h : offset + data.length ≤ chunk.getByteSize) :
    Reads (content (chunk.write offset data)) offset data := by
  intro i hi
  rw [content, MemoryChunk.bytes_write_of_le hmem h, blit_add hi]

/-- Every argument is where its pointer says, when there is room for all of them behind the table. -/
lemma reads_writeArgs (hmem : chunk.hasMemory = true) (htable : 8 + 8 * (i + argv.length) ≤ offset)
    (hfit : offset + (argv.map CString.dataLen).sum ≤ chunk.getByteSize)
    (hlt : chunk.getByteSize < 2 ^ 64) (hk : k < argv.length) :
    Reads (content (writeArgs chunk offset i argv)) (dataOffset offset argv k) argv[k].data ∧
      Reads (content (writeArgs chunk offset i argv)) (8 + 8 * (i + k))
        (leBytes 8 (wadd sysArgsAddress (dataOffset offset argv k))) := by
  induction argv generalizing chunk offset i k with
  | nil => exact absurd hk (Nat.not_lt_zero k)
  | cons s argv ih =>
    rw [List.map_cons, List.sum_cons, ← Nat.add_assoc] at hfit
    rw [List.length_cons] at htable hk
    have hnext : wadd offset s.dataLen = offset + s.dataLen :=
      wadd_of_lt ((Nat.le_add_right _ _).trans_lt (hfit.trans_lt hlt))
    rw [writeArgs, hnext]
    cases k with
    | zero =>
      have hdata : offset + s.data.length ≤ chunk.getByteSize := by
        rw [length_data]
        exact (Nat.le_add_right _ _).trans hfit
      have hmem' : (chunk.write offset s.data).hasMemory = true := hmem
      have hentry : 8 + 8 * i + (leBytes 8 (wadd sysArgsAddress offset)).length ≤ offset := by
        rw [length_leBytes]
        omega
      refine ⟨(reads_write hmem hdata).congr fun l hl => ?_,
        (reads_write hmem' (hentry.trans ((Nat.le_add_right _ _).trans hdata))).congr fun l hl => ?_⟩
      · rw [length_data] at hl
        rw [content, content, bytes_writeArgs (hfit.trans_lt hlt) (Nat.add_lt_add_left hl _)
          (by omega), MemoryChunk.bytes_write_of_ge (by omega)]
      · have hl' : l < 8 := by rwa [length_leBytes] at hl
        rw [content, content, bytes_writeArgs (hfit.trans_lt hlt) (by omega) (by omega)]
    | succ k =>
      rw [dataOffset_succ, List.getElem_cons_succ, show i + (k + 1) = i + 1 + k by ring]
      have hmem' : ((chunk.write offset s.data).write (8 + 8 * i)
          (leBytes 8 (wadd sysArgsAddress offset))).hasMemory = true := hmem
      exact ih hmem' (by omega : 8 + 8 * (i + 1 + argv.length) ≤ offset + s.dataLen) hfit hlt
        (Nat.lt_of_succ_lt_succ hk)

/-! ### Arguments that fit -/

/-- The task sees the bytes of its page at the address of the arguments. -/
lemma reads_taskMemory {l : List UInt8} (hmem : chunk.hasMemory = true)
    (h : Reads (content chunk) offset l) (hfit : offset + l.length ≤ 4096) :
    Reads (taskMemory chunk rest) (sysArgsAddress + offset) l := by
  intro i hi
  have hlt : offset + i < 4096 := (Nat.add_lt_add_left hi offset).trans_le hfit
  rw [Nat.add_assoc, taskMemory, if_pos ⟨hmem, Nat.le_add_right _ _, Nat.add_lt_add_left hlt _⟩,
    Nat.add_sub_cancel_left]
  exact h i hi

lemma taskMemory_eq_none {a : ℕ} (h : chunk.hasMemory = false ∨ sysArgsAddress + 4096 ≤ a) :
    taskMemory chunk (fun _ => none) a = none := by
  rw [taskMemory, if_neg]
  rintro ⟨hmem, -, hlt⟩
  rcases h with hno | hge
  · rw [hmem] at hno
    cases hno
  · exact absurd hge hlt.not_ge

lemma argvDataStart_eq {argc : ℕ} (h : argc ≤ 511) : argvDataStart argc = 9 * argc + 8 := by
  rw [argvDataStart, Nat.mod_eq_of_lt (by omega), wadd_of_lt (by omega)]
  ring

/-- The arguments are found when they fit in the page. -/
lemma faithful_writeArgs (hmem : chunk.hasMemory = true) (hsize : chunk.getByteSize = 4096)
    (hfit : argsSize argv ≤ 4096) :
    Faithful (taskMemory (writeArgs (chunk.write 0 (leBytes 8 argv.length))
      (argvDataStart argv.length) 0 argv) rest) argv := by
  rw [argsSize] at hfit
  have hstart : argvDataStart argv.length = 9 * argv.length + 8 := argvDataStart_eq (by omega)
  rw [hstart]
  have hmem' : (writeArgs (chunk.write 0 (leBytes 8 argv.length)) (9 * argv.length + 8) 0
      argv).hasMemory = true := by
    rw [hasMemory_writeArgs]
    exact hmem
  have hmem₀ : (chunk.write 0 (leBytes 8 argv.length)).hasMemory = true := hmem
  have hsize₀ : (chunk.write 0 (leBytes 8 argv.length)).getByteSize = 4096 := hsize
  have hargs := fun k (hk : k < argv.length) => reads_writeArgs hmem₀
    (by omega : 8 + 8 * (0 + argv.length) ≤ 9 * argv.length + 8) (hsize₀ ▸ hfit)
    (hsize₀ ▸ by norm_num) hk
  have hend : ∀ k (hk : k < argv.length),
      dataOffset (9 * argv.length + 8) argv k + argv[k].dataLen ≤ 4096 := fun k hk =>
    (dataOffset_add_le hk hk).trans (dataOffset_length.le.trans hfit)
  refine ⟨?_, fun k => sysArgsAddress + dataOffset (9 * argv.length + 8) argv k, fun k hk => ?_⟩
  · have hread : Reads (content (chunk.write 0 (leBytes 8 argv.length))) 0 (leBytes 8 argv.length) :=
      reads_write hmem (by rw [hsize, length_leBytes]; norm_num)
    have hword : readWord (taskMemory _ rest) 8 _ = _ := (reads_taskMemory hmem'
      (hread.congr fun l hl => ?_) (by rw [length_leBytes]; norm_num)).readWord_eq
    · rw [Nat.add_zero, Nat.mod_eq_of_lt (by omega)] at hword
      exact hword
    · rw [length_leBytes] at hl
      rw [content, content, bytes_writeArgs (by omega) (by omega) (by omega)]
  · obtain ⟨hdata, hentry⟩ := hargs k hk
    have hk' := hend k hk
    have hge : 9 * argv.length + 8 ≤ dataOffset (9 * argv.length + 8) argv k := Nat.le_add_right _ _
    refine ⟨?_, ?_, .inr ?_, fun j hj hne => ?_⟩
    · have hword : readWord (taskMemory _ rest) 8 _ = _ :=
        (reads_taskMemory hmem' hentry (by rw [length_leBytes]; omega)).readWord_eq
      have hlt : sysArgsAddress + dataOffset (9 * argv.length + 8) argv k < 2 ^ 64 := by
        rw [sysArgsAddress]
        omega
      rw [wadd_of_lt hlt, Nat.mod_eq_of_lt (hlt.trans_eq (by norm_num)), Nat.zero_add,
        ← Nat.add_assoc] at hword
      exact hword
    · exact reads_taskMemory hmem' hdata (by rw [length_data]; exact hk')
    · show sysArgsAddress + 8 + 8 * argv.length ≤ sysArgsAddress + _
      rw [Nat.add_assoc]
      exact Nat.add_le_add_left (by omega) _
    · rcases Nat.lt_or_gt_of_ne hne with hkj | hjk
      · left
        rw [Nat.add_assoc]
        exact Nat.add_le_add_left (dataOffset_add_le hk hkj) _
      · right
        rw [Nat.add_assoc]
        exact Nat.add_le_add_left (dataOffset_add_le hj hjk) _

lemma sum_dataLen_le (argv : List CString) :
    (argv.map CString.dataLen).sum ≤ argv.length * 2 ^ 48 := by
  have hle := List.sum_le_card_nsmul (argv.map CString.dataLen) (2 ^ 48) ?_
  · rwa [List.length_map, nsmul_eq_mul] at hle
  · intro n hn
    obtain ⟨s, -, rfl⟩ := List.mem_map.mp hn
    exact s.fits

/-- The last argument ends in the page when the task finds it there. -/
lemma last_fits {a : ℕ} (hmem : chunk.hasMemory = true) (hsize : chunk.getByteSize = 4096)
    (hcount : argv.length + 1 ≤ 511) (hoff : offset + (argv.map CString.dataLen).sum < 2 ^ 63)
    (hentry : argvEntry (taskMemory (writeArgs chunk offset 0 (argv ++ [s])) fun _ => none)
      argv.length = some a)
    (hdata : Reads (taskMemory (writeArgs chunk offset 0 (argv ++ [s])) fun _ => none) a s.data) :
    offset + (argv.map CString.dataLen).sum + s.dataLen ≤ 4096 := by
  rw [writeArgs_concat (hoff.trans (by norm_num)), Nat.zero_add] at hentry hdata
  generalize offset + (argv.map CString.dataLen).sum = last at *
  have hptr : wadd sysArgsAddress last = sysArgsAddress + last := by
    rw [wadd_of_lt]
    rw [sysArgsAddress]
    omega
  have hinner : ((writeArgs chunk offset 0 argv).write last s.data).hasMemory = true := by
    rw [MemoryChunk.hasMemory_write, hasMemory_writeArgs, hmem]
  have hroom : 8 + 8 * argv.length + (leBytes 8 (wadd sysArgsAddress last)).length ≤
      ((writeArgs chunk offset 0 argv).write last s.data).getByteSize := by
    rw [MemoryChunk.getByteSize_write, getByteSize_writeArgs, hsize, length_leBytes]
    omega
  have hread := reads_write hinner hroom
  have houter := hinner
  rw [← MemoryChunk.hasMemory_write] at houter
  have hword : readWord (taskMemory _ fun _ => none) 8 _ = _ :=
    (reads_taskMemory houter hread (by rw [length_leBytes]; omega)).readWord_eq
  rw [← Nat.add_assoc] at hword
  have ha : a = sysArgsAddress + last := by
    have hlt : sysArgsAddress + last < 256 ^ 8 := by
      rw [sysArgsAddress]
      omega
    rw [argvEntry, sysGetArgv, hword, hptr, Nat.mod_eq_of_lt hlt] at hentry
    exact (Option.some.inj hentry).symm
  by_contra hno
  have hlen : s.bytes.length < s.data.length := by
    rw [length_data]
    exact Nat.lt_succ_self _
  have hnul := hdata s.bytes.length hlen
  rw [ha, taskMemory_eq_none (.inr ?_)] at hnul
  · cases hnul
  · rw [CString.dataLen] at hno
    omega

/-- Arguments that are found, whatever else there is in memory, fit in the page. -/
lemma fits_of_faithful (hsize : chunk.getByteSize = 4096)
    (h : Faithful (taskMemory (writeArgs chunk (argvDataStart argv.length) 0 argv) fun _ => none)
      argv) : chunk.hasMemory = true ∧ argsSize argv ≤ 4096 := by
  obtain ⟨hargc, ptr, hargv⟩ := h
  have hmem : chunk.hasMemory = true := by
    by_contra hno
    rw [sysGetArgc, readWord_eq_none (i := 0) (by norm_num) (taskMemory_eq_none (.inl ?_))] at hargc
    · cases hargc
    · rw [hasMemory_writeArgs]
      exact Bool.eq_false_iff.mpr hno
  have hcount : argv.length ≤ 511 := by
    by_contra hno
    have hentry := (hargv 511 (Nat.lt_of_not_le hno)).1
    rw [argvEntry, readWord_eq_none (i := 0) (by norm_num) (taskMemory_eq_none (.inr ?_))] at hentry
    · cases hentry
    · exact le_rfl
  refine ⟨hmem, ?_⟩
  rcases List.eq_nil_or_concat argv with rfl | ⟨first, s, rfl⟩
  · exact (by norm_num : 8 ≤ 4096)
  rw [List.concat_eq_append] at *
  have hlen : (first ++ [s]).length = first.length + 1 := List.length_append
  obtain ⟨hentry, hdata, -⟩ := hargv first.length (hlen ▸ Nat.lt_succ_self _)
  rw [List.getElem_concat_length rfl] at hdata
  rw [argvDataStart_eq hcount] at hentry hdata
  have hsum := sum_dataLen_le first
  rw [argsSize, List.map_append, List.sum_append, List.map_singleton, List.sum_singleton,
    ← Nat.add_assoc]
  exact last_fits hmem hsize (by omega) (by omega) hentry hdata

/-! ### The whole call -/

lemma nbPages_of_create {n : ℕ} {p : Provision} (h : MemoryChunk.create n p = some chunk) :
    chunk.nbPages = n := by
  rw [MemoryChunk.create] at h
  obtain ⟨r, -, hr⟩ := Option.bind_eq_some_iff.mp h
  cases hr
  rfl

/-- What a task that has been started finds, against what there is room for. -/
lemma faithful_iff (hsize : chunk.getByteSize = 4096) :
    (∀ rest, Faithful (taskMemory (writeArgs (chunk.write 0 (leBytes 8 argv.length))
      (argvDataStart argv.length) 0 argv) rest) argv) ↔
      chunk.hasMemory = true ∧ argsSize argv ≤ 4096 := by
  constructor
  · intro h
    have hsize' : (chunk.write 0 (leBytes 8 argv.length)).getByteSize = 4096 := hsize
    have hfits : (chunk.write 0 (leBytes 8 argv.length)).hasMemory = true ∧ argsSize argv ≤ 4096 :=
      fits_of_faithful hsize' (h _)
    exact hfits
  · rintro ⟨hmem, hfit⟩ rest
    exact faithful_writeArgs hmem hsize hfit

/-- A call for which the task and the page of the arguments are there. -/
lemma passesArgs_of_mapped {tbl : MMUTable} {table table' : State} {p : Provision}
    (hc : MemoryChunk.create 1 p = some chunk)
    (hm : chunk.mapChunk tbl sysArgsAddress true false table = some (true, table')) :
    PassesArgs tbl table (some true) p argv ↔ chunk.hasMemory = true ∧ argsSize argv ≤ 4096 := by
  have hsize : chunk.getByteSize = 4096 := by
    rw [MemoryChunk.getByteSize, nbPages_of_create hc]
    rfl
  have hrun : pikaSysSpawn tbl table (some true) p argv =
      some (.started (writeArgs (chunk.write 0 (leBytes 8 argv.length))
        (argvDataStart argv.length) 0 argv)) := by
    simp [pikaSysSpawn, hc, hm]
  rw [← faithful_iff hsize]
  constructor
  · rintro ⟨r, hr, hfaithful⟩
    rw [hrun] at hr
    cases hr
    exact hfaithful _ rfl
  · intro hfaithful
    refine ⟨_, hrun, fun _ h => ?_⟩
    cases h
    exact hfaithful

/-- `spawn` passes the arguments exactly when `create_task` fails, or there is what the page of the
arguments needs and the arguments fit in it. -/
theorem passesArgs_iff (tbl : MMUTable) (table : State) (created : Option Bool) (p : Provision)
    (argv : List CString) :
    PassesArgs tbl table created p argv ↔ CanPass tbl table created p argv := by
  match created with
  | none =>
    constructor
    · rintro ⟨r, hr, -⟩
      cases hr
    · rintro (h | ⟨h, -⟩) <;> cases h
  | some false =>
    refine iff_of_true ⟨.error, rfl, fun _ h => ?_⟩ (.inl rfl)
    cases h
  | some true =>
    cases hc : MemoryChunk.create 1 p with
    | none =>
      constructor
      · rintro ⟨r, hr, -⟩
        rw [pikaSysSpawn, hc] at hr
        cases hr
      · rintro (h | ⟨-, _, _, _, h, -⟩)
        · cases h
        · rw [hc] at h
          cases h
    | some chunk =>
      have hcan : CanPass tbl table (some true) p argv ↔ ∃ mapped table',
          chunk.mapChunk tbl sysArgsAddress true false table = some (mapped, table') ∧
            (mapped = true → chunk.hasMemory = true ∧ argsSize argv ≤ 4096) := by
        simp [CanPass, hc]
      rw [hcan]
      cases hm : chunk.mapChunk tbl sysArgsAddress true false table with
      | none =>
        constructor
        · rintro ⟨r, hr, -⟩
          simp [pikaSysSpawn, hc, hm] at hr
        · rintro ⟨_, _, h, -⟩
          cases h
      | some r =>
        obtain ⟨mapped, table'⟩ := r
        cases mapped with
        | false =>
          refine iff_of_true ⟨.error, by simp [pikaSysSpawn, hc, hm], fun _ h => ?_⟩
            ⟨false, table', rfl, fun h => ?_⟩ <;> cases h
        | true =>
          rw [passesArgs_of_mapped hc hm]
          constructor
          · exact fun h => ⟨true, table', rfl, fun _ => h⟩
          · rintro ⟨_, _, h, hfits⟩
            cases h
            exact hfits rfl

/-- An argument of 4079 characters, which takes the page with its number and its pointer but for the
byte that ends it. -/
def longArgument : CString where
  bytes := List.replicate 4079 0x61
  noNul h := absurd (List.eq_of_mem_replicate h) (by decide)
  fits := by
    rw [List.length_replicate]
    norm_num

lemma argsSize_longArgument : argsSize [longArgument] = 4097 := by
  have hlen : longArgument.bytes.length = 4079 := List.length_replicate
  rw [argsSize, List.map_singleton, List.sum_singleton, CString.dataLen, hlen]
  rfl

/-- A chunk of one page. -/
def onePage : MemoryChunk where
  nbPages := 1
  pas := some (Function.update (fun _ => 0) 0 0x40000000)
  hasMemory := true
  bytes _ := 0

/-- It is mapped in a task that has nothing else. -/
lemma onePage_mapped : ∃ table', onePage.mapChunk (identity .process).table sysArgsAddress
    true false emptyState = some (true, table') :=
  exists_of_any (by decide +kernel)

/-- The task is started with the argument cut off. -/
theorem not_passesArgs_longArgument : ¬ PassesArgs (identity .process).table emptyState
    (some true) ⟨some fun _ => 0, [.page ⟨0x40000000, by decide, by decide⟩]⟩ [longArgument] := by
  intro h
  obtain ⟨table', hm⟩ := onePage_mapped
  have hfits := ((passesArgs_of_mapped rfl hm).mp h).2
  rw [argsSize_longArgument] at hfits
  exact absurd hfits (by decide)

end PiKachulm.Syscalls

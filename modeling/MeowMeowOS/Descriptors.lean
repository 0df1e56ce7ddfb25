import Mathlib.Algebra.BigOperators.Fin
import MeowMeowOS.ReferenceCounts

/-! The descriptor tables of the tasks, and everything that changes them: the
system calls, the start of a task and its exit. -/
namespace MeowMeowOS.Descriptors
open VfsNodes ReferenceCounts

abbrev maxOpenFiles : Nat := 16

instance : NeZero maxOpenFiles := ⟨by decide⟩

structure FileDescriptor where
  inUse : Bool
  filename : String
  currentOffset : Nat
  fileSize : Nat
  node : Option Nat

abbrev FdTable := Fin maxOpenFiles → FileDescriptor

/-- What a system call leaves, and what it puts in `eax`. -/
structure Reply where
  vfs : Vfs
  table : FdTable
  eax : Int

/-- The free descriptors, in the order in which the loops come to them. -/
def freeDescriptors (table : FdTable) : List (Fin maxOpenFiles) :=
  (List.finRange maxOpenFiles).filter fun fd => !(table fd).inUse

/-- The range check that every call makes of a descriptor. -/
def descriptor (fd : Int) : Option (Fin maxOpenFiles) :=
  if bounds : 0 ≤ fd ∧ fd.toNat < maxOpenFiles then some ⟨fd.toNat, bounds.2⟩ else none

def emptyDescriptor : FileDescriptor := ⟨false, "", 0, 0, none⟩

/-! ## System calls -/

/-- `vfs_open`, and `fat16_vfs_open` where that finds nothing. -/
def openEither (v : Vfs) (found : Lookup) (filename : String) (fileSize : Nat) (granted : Bool) : Vfs × Option Nat :=
  let opened := vfsOpen v found
  match opened.2 with
  | some node => (opened.1, some node)
  | none => fat16VfsOpen opened.1 filename fileSize granted

/-- The end of `SYS_OPEN` and `SYS_CREATE`: the first free descriptor gets the
node, or the node is closed again. -/
def install (v : Vfs) (table : FdTable) (filename : String) (node : Nat) : Reply :=
  match freeDescriptors table with
  | [] => ⟨vfsClose v (some node), table, -1⟩
  | fd :: _ => ⟨v, Function.update table fd ⟨true, filename, 0, (v.nodes node).length, some node⟩, fd⟩

/-- The two booleans are the answers of `vfs_check_access` and `task_has_cap`. -/
def sysOpen (v : Vfs) (table : FdTable) (path : Option String) (found : Lookup) (fileSize : Nat) (granted : Bool)
    (mayRead mayOpenDevice : Bool) : Reply :=
  match path with
  | none => ⟨v, table, -1⟩
  | some filename =>
    let opened := openEither v found filename fileSize granted
    match opened.2 with
    | none => ⟨opened.1, table, -1⟩
    | some node =>
      if mayRead = false then ⟨vfsClose opened.1 (some node), table, -1⟩
      else if (opened.1.nodes node).type = .device ∧ mayOpenDevice = false then
        ⟨vfsClose opened.1 (some node), table, -1⟩
      else install opened.1 table filename node

def sysCreate (v : Vfs) (table : FdTable) (path : Option String) (fileSize : Nat) (granted : Bool)
    (mayWrite : Bool) : Reply :=
  match path with
  | none => ⟨v, table, -1⟩
  | some filename =>
    if mayWrite = false then ⟨v, table, -1⟩
    else
      let opened := fat16VfsOpen v filename fileSize granted
      match opened.2 with
      | none => ⟨opened.1, table, -1⟩
      | some node => install opened.1 table filename node

def sysPipe (v : Vfs) (table : FdTable) (validPtr : Bool) (granted : Nat) : Reply :=
  if validPtr = false then ⟨v, table, -1⟩
  else
    let made := pipeCreate v granted
    match made.2 with
    | none => ⟨made.1, table, -1⟩
    | some (readNode, writeNode) =>
      match freeDescriptors table with
      | readFd :: writeFd :: _ =>
        ⟨made.1, Function.update (Function.update table readFd ⟨true, "pipe:[read]", 0, 0, some readNode⟩)
          writeFd ⟨true, "pipe:[write]", 0, 0, some writeNode⟩, 0⟩
      | _ => ⟨vfsClose (vfsClose made.1 (some readNode)) (some writeNode), table, -1⟩

def sysClose (v : Vfs) (table : FdTable) (fd : Int) : Reply :=
  match descriptor fd with
  | none => ⟨v, table, -1⟩
  | some fd =>
    if (table fd).inUse = false then ⟨v, table, -1⟩
    else ⟨vfsClose v (table fd).node, Function.update table fd emptyDescriptor, 0⟩

def sysDup (v : Vfs) (table : FdTable) (oldFd : Int) : Reply :=
  match descriptor oldFd with
  | none => ⟨v, table, -1⟩
  | some oldFd =>
    if (table oldFd).inUse = false then ⟨v, table, -1⟩
    else
      match freeDescriptors table with
      | [] => ⟨v, table, -1⟩
      | newFd :: _ => ⟨vfsRetain v (table oldFd).node, Function.update table newFd (table oldFd), newFd⟩

def sysDup2 (v : Vfs) (table : FdTable) (oldFd newFd : Int) : Reply :=
  match descriptor oldFd, descriptor newFd with
  | some oldFd, some newFd =>
    if (table oldFd).inUse = false then ⟨v, table, -1⟩
    else if oldFd = newFd then ⟨v, table, newFd⟩
    else
      let v := if (table newFd).inUse then vfsClose v (table newFd).node else v
      ⟨vfsRetain v (table oldFd).node, Function.update table newFd (table oldFd), newFd⟩
  | _, _ => ⟨v, table, -1⟩

/-- The numbers that go to the caller's buffer are left out. -/
def sysStat (v : Vfs) (table : FdTable) (validPtr : Bool) (path : Option String) (fileSize : Nat)
    (granted : Bool) : Reply :=
  if validPtr = false then ⟨v, table, -1⟩
  else
    match path with
    | none => ⟨v, table, -1⟩
    | some filename =>
      let opened := fat16VfsOpen v filename fileSize granted
      match opened.2 with
      | none => ⟨opened.1, table, -1⟩
      | some node => ⟨vfsClose opened.1 (some node), table, 0⟩

/-! ## Start and exit -/

/-- The part of `task_create` and `task_create_user` that fills the table. -/
def standardTable (v : Vfs) : Vfs × FdTable :=
  let input := vfsOpen v (.devfs "stdin")
  let output := vfsOpen input.1 (.devfs "stdout")
  let error := vfsOpen output.1 (.devfs "stdout")
  (error.1, Function.update
  (Function.update (Function.update (fun _ => emptyDescriptor) 0 ⟨true, "", 0, 0, input.2⟩)
    1 ⟨true, "", 0, 0, output.2⟩) 2 ⟨true, "", 0, 0, error.2⟩)

/-- A stream that `elf_load_and_spawn` puts in the place of a standard one. -/
def redirect (v : Vfs) (table : FdTable) (fd : Fin maxOpenFiles) (filename : String) (node : Option Nat) :
    Vfs × FdTable :=
  match node with
  | none => (v, table)
  | some node =>
    let v := if (table fd).inUse then vfsClose v (table fd).node else v
    (vfsRetain v (some node), Function.update table fd ⟨true, filename, 0, 0, some node⟩)

/-- What `elf_load_and_spawn` does to nodes: `loaded` says whether it gets as far
as `task_create_user`. No table means that it returns 0. -/
def elfLoadAndSpawn (v : Vfs) (found : Lookup) (filename : String) (fileSize : Nat) (granted loaded : Bool)
    (inNode outNode : Option Nat) : Vfs × Option FdTable :=
  let opened := openEither v found filename fileSize granted
  match opened.2 with
  | none => (opened.1, none)
  | some node =>
    let v := vfsClose opened.1 (some node)
    if loaded = false then (v, none)
    else
      let created := standardTable v
      let reading := redirect created.1 created.2 0 "pipe:[read]" inNode
      let writing := redirect reading.1 reading.2 1 "pipe:[write]" outNode
      (writing.1, some writing.2)

def closeSlot (state : Vfs × FdTable) (fd : Fin maxOpenFiles) : Vfs × FdTable :=
  if (state.2 fd).inUse then
    (vfsClose state.1 (state.2 fd).node, Function.update state.2 fd { state.2 fd with node := none, inUse := false })
  else state

/-- The loop of `task_exit_with_status` over the table. -/
def closeAll (v : Vfs) (table : FdTable) : Vfs × FdTable := (List.finRange maxOpenFiles).foldl closeSlot (v, table)

/-! ## The references of a table -/

def reference (d : FileDescriptor) : Option Nat := if d.inUse then d.node else none

def held (table : FdTable) : Multiset Nat := ∑ fd, holding (reference (table fd))

/-- The references of the other descriptors. -/
def without (table : FdTable) (fd : Fin maxOpenFiles) : Multiset Nat :=
  ∑ other ∈ Finset.univ.erase fd, holding (reference (table other))

/-- A descriptor that is free leads nowhere. -/
def Tidy (table : FdTable) : Prop := ∀ fd, (table fd).inUse = false → (table fd).node = none

/-- The nodes and one table, where `refs` are the references elsewhere. -/
structure Sound (v : Vfs) (table : FdTable) (refs : Multiset Nat) : Prop where
  balanced : Balanced v (held table + refs)
  tidy : Tidy table

section
variable {v : Vfs} {table : FdTable} {refs : Multiset Nat} {fd other : Fin maxOpenFiles} {d : FileDescriptor}

theorem held_eq (table : FdTable) (fd : Fin maxOpenFiles) :
    held table = holding (reference (table fd)) + without table fd :=
  (Finset.add_sum_erase _ _ (Finset.mem_univ fd)).symm

theorem without_update (table : FdTable) (fd : Fin maxOpenFiles) (d : FileDescriptor) :
    without (Function.update table fd d) fd = without table fd := by
  apply Finset.sum_congr rfl
  intro other member
  rw [Function.update_of_ne (Finset.ne_of_mem_erase member)]

theorem held_update (table : FdTable) (fd : Fin maxOpenFiles) (d : FileDescriptor) :
    held (Function.update table fd d) = holding (reference d) + without table fd := by
  rw [held_eq _ fd, Function.update_self, without_update]

theorem without_free (free : (table fd).inUse = false) : without table fd = held table := by
  rw [held_eq table fd, reference, free, if_neg (by decide), holding, zero_add]

theorem held_used (used : (table fd).inUse = true) : held table = holding (table fd).node + without table fd := by
  rw [held_eq table fd, reference, used, if_pos rfl]

theorem count_holding (target : Option Nat) (n : Nat) :
    (holding target).count n = if target = some n then 1 else 0 := by
  cases target with
  | none => simp [holding]
  | some m => simp [holding, Multiset.count_singleton, eq_comm]

theorem reference_eq (d : FileDescriptor) (n : Nat) : reference d = some n ↔ d.inUse = true ∧ d.node = some n := by
  unfold reference
  cases d.inUse <;> simp

/-- The references of a table to a node are the descriptors in use that hold it. -/
theorem count_held (table : FdTable) (n : Nat) :
    (held table).count n = (Finset.univ.filter fun fd => (table fd).inUse ∧ (table fd).node = some n).card := by
  rw [held, Multiset.count_sum', Finset.card_filter]
  apply Finset.sum_congr rfl
  intro fd _
  simp only [count_holding, reference_eq]

theorem mem_held {n : Nat} : n ∈ held table ↔ ∃ fd, (table fd).inUse = true ∧ (table fd).node = some n := by
  rw [← Multiset.count_pos, count_held, Finset.card_pos]
  constructor
  · rintro ⟨fd, member⟩
    exact ⟨fd, (Finset.mem_filter.mp member).2⟩
  · rintro ⟨fd, holds⟩
    exact ⟨fd, Finset.mem_filter.mpr ⟨Finset.mem_univ fd, holds⟩⟩

theorem mem_freeDescriptors : fd ∈ freeDescriptors table ↔ (table fd).inUse = false := by
  simp [freeDescriptors]

theorem tidy_update (tidy : Tidy table) (fitting : d.inUse = false → d.node = none) :
    Tidy (Function.update table fd d) := by
  intro other
  rw [Function.update_apply]
  split
  · exact fitting
  · exact tidy other

/-- A reference of the caller goes into a descriptor. -/
theorem sound_put (balanced : Balanced v (holding d.node + (without table fd + refs))) (tidy : Tidy table)
    (used : d.inUse = true) : Sound v (Function.update table fd d) refs := by
  refine ⟨?_, tidy_update tidy fun free => ?_⟩
  · rw [held_update, reference, if_pos used, add_assoc]
    exact balanced
  · rw [used] at free
    cases free

theorem sound_put_free (balanced : Balanced v (holding d.node + (held table + refs))) (tidy : Tidy table)
    (free : (table fd).inUse = false) (used : d.inUse = true) : Sound v (Function.update table fd d) refs :=
  sound_put (without_free free ▸ balanced) tidy used

/-- A descriptor gives its reference back. -/
theorem balanced_drop (sound : Sound v table refs) (used : (table fd).inUse = true) :
    Balanced (vfsClose v (table fd).node) (without table fd + refs) := by
  apply balanced_release
  rw [← add_assoc, ← held_used used]
  exact sound.balanced

theorem sound_clear (sound : Sound v table refs) (used : (table fd).inUse = true) (free : d.inUse = false)
    (nowhere : d.node = none) : Sound (vfsClose v (table fd).node) (Function.update table fd d) refs := by
  refine ⟨?_, tidy_update sound.tidy fun _ => nowhere⟩
  rw [held_update, reference, if_neg (by rw [free]; decide), holding, zero_add]
  exact balanced_drop sound used

/-! ## What a call keeps -/

theorem balanced_openEither (balanced : Balanced v refs) (found : Lookup) (filename : String) (fileSize : Nat)
    (granted : Bool) : Balanced (openEither v found filename fileSize granted).1
      (holding (openEither v found filename fileSize granted).2 + refs) := by
  have opened := balanced_vfsOpen balanced found
  unfold openEither
  dsimp only
  cases node : (vfsOpen v found).2 with
  | some node =>
    rw [node] at opened
    exact opened
  | none =>
    rw [node, holding, zero_add] at opened
    exact balanced_fat16VfsOpen opened filename fileSize granted

theorem sound_install (balanced : Balanced v (holding (some node) + (held table + refs))) (tidy : Tidy table)
    (filename : String) : Sound (install v table filename node).vfs (install v table filename node).table refs := by
  unfold install
  cases free : freeDescriptors table with
  | nil => exact ⟨balanced_release balanced, tidy⟩
  | cons fd rest =>
    have unused : fd ∈ freeDescriptors table := free ▸ List.mem_cons_self
    exact sound_put_free balanced tidy (mem_freeDescriptors.mp unused) rfl

theorem sound_sysOpen (sound : Sound v table refs) :
    Sound (sysOpen v table path found fileSize granted mayRead mayOpenDevice).vfs
      (sysOpen v table path found fileSize granted mayRead mayOpenDevice).table refs := by
  unfold sysOpen
  cases path with
  | none => exact sound
  | some filename =>
    have opened := balanced_openEither sound.balanced found filename fileSize granted
    dsimp only
    cases node : (openEither v found filename fileSize granted).2 with
    | none =>
      rw [node, holding, zero_add] at opened
      exact ⟨opened, sound.tidy⟩
    | some target =>
      rw [node] at opened
      dsimp only
      split
      · exact ⟨balanced_release opened, sound.tidy⟩
      · split
        · exact ⟨balanced_release opened, sound.tidy⟩
        · exact sound_install opened sound.tidy filename

theorem sound_sysCreate (sound : Sound v table refs) :
    Sound (sysCreate v table path fileSize granted mayWrite).vfs
      (sysCreate v table path fileSize granted mayWrite).table refs := by
  unfold sysCreate
  cases path with
  | none => exact sound
  | some filename =>
    have opened := balanced_fat16VfsOpen sound.balanced filename fileSize granted
    dsimp only
    split
    · exact sound
    · cases node : (fat16VfsOpen v filename fileSize granted).2 with
      | none =>
        rw [node, holding, zero_add] at opened
        exact ⟨opened, sound.tidy⟩
      | some target =>
        rw [node] at opened
        exact sound_install opened sound.tidy filename

theorem sound_sysStat (sound : Sound v table refs) :
    Sound (sysStat v table validPtr path fileSize granted).vfs
      (sysStat v table validPtr path fileSize granted).table refs := by
  unfold sysStat
  split
  · exact sound
  · cases path with
    | none => exact sound
    | some filename =>
      have opened := balanced_fat16VfsOpen sound.balanced filename fileSize granted
      dsimp only
      cases node : (fat16VfsOpen v filename fileSize granted).2 with
      | none =>
        rw [node, holding, zero_add] at opened
        exact ⟨opened, sound.tidy⟩
      | some target =>
        rw [node] at opened
        exact ⟨balanced_release opened, sound.tidy⟩

theorem sound_sysClose (sound : Sound v table refs) (number : Int) :
    Sound (sysClose v table number).vfs (sysClose v table number).table refs := by
  unfold sysClose
  cases descriptor number with
  | none => exact sound
  | some fd =>
    dsimp only
    split
    · exact sound
    · rename_i used
      exact sound_clear sound (eq_true_of_ne_false used) rfl rfl

/-- The node of a descriptor in use is still there, also for a second reference. -/
theorem balanced_copy (balanced : Balanced v refs) (kept : ∀ n, (table other).node = some n → n ∈ refs) :
    Balanced (vfsRetain v (table other).node) (holding (table other).node + refs) :=
  balanced_retain balanced fun n leads => balanced.counts.referenced n (kept n leads)

theorem sound_sysDup (sound : Sound v table refs) (number : Int) :
    Sound (sysDup v table number).vfs (sysDup v table number).table refs := by
  unfold sysDup
  cases descriptor number with
  | none => exact sound
  | some oldFd =>
    dsimp only
    split
    · exact sound
    · rename_i used
      have used := eq_true_of_ne_false used
      cases free : freeDescriptors table with
      | nil => exact sound
      | cons newFd rest =>
        have unused : newFd ∈ freeDescriptors table := free ▸ List.mem_cons_self
        apply sound_put_free _ sound.tidy (mem_freeDescriptors.mp unused) used
        apply balanced_copy sound.balanced
        intro n leads
        exact Multiset.mem_add.mpr (.inl (mem_held.mpr ⟨oldFd, used, leads⟩))

theorem mem_without {n : Nat} (ne : other ≠ fd) (used : (table other).inUse = true)
    (leads : (table other).node = some n) : n ∈ without table fd := by
  have member : n ∈ held (Function.update table fd emptyDescriptor) :=
    mem_held.mpr ⟨other, by rw [Function.update_of_ne ne]; exact ⟨used, leads⟩⟩
  rw [held_update, reference, if_neg (by decide), holding, zero_add] at member
  exact member

theorem sound_sysDup2 (sound : Sound v table refs) (number target : Int) :
    Sound (sysDup2 v table number target).vfs (sysDup2 v table number target).table refs := by
  unfold sysDup2
  split
  · rename_i oldFd newFd _ _
    split
    · exact sound
    · rename_i used
      have used := eq_true_of_ne_false used
      split
      · exact sound
      · rename_i ne
        have kept (n : Nat) (leads : (table oldFd).node = some n) : n ∈ without table newFd + refs :=
          Multiset.mem_add.mpr (.inl (mem_without ne used leads))
        dsimp only
        split
        · rename_i taken
          exact sound_put (balanced_copy (balanced_drop sound taken) kept) sound.tidy used
        · rename_i free
          have balanced := sound.balanced
          rw [← without_free (eq_false_of_ne_true free)] at balanced
          exact sound_put (balanced_copy balanced kept) sound.tidy used
  · exact sound

theorem sound_sysPipe (sound : Sound v table refs) (validPtr : Bool) (granted : Nat) :
    Sound (sysPipe v table validPtr granted).vfs (sysPipe v table validPtr granted).table refs := by
  unfold sysPipe
  split
  · exact sound
  · have made := balanced_pipeCreate sound.balanced granted
    dsimp only
    cases ends : (pipeCreate v granted).2 with
    | none =>
      rw [ends] at made
      dsimp only [Option.map_none, holding] at made
      rw [zero_add, zero_add] at made
      exact ⟨made, sound.tidy⟩
    | some nodes =>
      obtain ⟨readNode, writeNode⟩ := nodes
      rw [ends] at made
      dsimp only [Option.map_some] at made ⊢
      split
      · rename_i readFd writeFd rest free
        have distinct : (readFd :: writeFd :: rest).Nodup := free ▸ (List.nodup_finRange _).filter _
        have ne : writeFd ≠ readFd := fun same => by simp [same] at distinct
        have readFree : readFd ∈ freeDescriptors table := free ▸ List.mem_cons_self
        have writeFree : writeFd ∈ freeDescriptors table := free ▸ List.mem_cons_of_mem _ List.mem_cons_self
        have first : Sound (pipeCreate v granted).1
            (Function.update table readFd ⟨true, "pipe:[read]", 0, 0, some readNode⟩)
            (holding (some writeNode) + refs) := by
          apply sound_put_free _ sound.tidy (mem_freeDescriptors.mp readFree) rfl
          rw [add_left_comm (held table)]
          exact made
        apply sound_put_free _ first.tidy _ rfl
        · rw [add_left_comm]
          exact first.balanced
        · rw [Function.update_of_ne ne]
          exact mem_freeDescriptors.mp writeFree
      · exact ⟨balanced_release (balanced_release made), sound.tidy⟩

/-! ## What start and exit keep -/

theorem sound_empty (balanced : Balanced v refs) : Sound v (fun _ => emptyDescriptor) refs := by
  refine ⟨?_, fun _ _ => rfl⟩
  have empty : held (fun _ => emptyDescriptor) = 0 := Finset.sum_eq_zero fun _ _ => rfl
  rw [empty, zero_add]
  exact balanced

/-- One more standard stream is opened and stored. -/
theorem sound_stream (sound : Sound v table refs) (fd : Fin maxOpenFiles) (name : String)
    (free : (table fd).inUse = false) :
    Sound (vfsOpen v (.devfs name)).1
      (Function.update table fd ⟨true, "", 0, 0, (vfsOpen v (.devfs name)).2⟩) refs :=
  sound_put_free (balanced_vfsOpen sound.balanced _) sound.tidy free rfl

theorem sound_standardTable (balanced : Balanced v refs) : Sound (standardTable v).1 (standardTable v).2 refs := by
  have input := sound_stream (sound_empty balanced) 0 "stdin" rfl
  have output := sound_stream input 1 "stdout" rfl
  exact sound_stream output 2 "stdout" rfl

theorem sound_redirect (sound : Sound v table refs) (fd : Fin maxOpenFiles) (filename : String)
    (kept : ∀ n, node = some n → n ∈ refs) :
    Sound (redirect v table fd filename node).1 (redirect v table fd filename node).2 refs := by
  unfold redirect
  cases node with
  | none => exact sound
  | some n =>
    have copy {w : Vfs} (balanced : Balanced w (without table fd + refs)) :
        Balanced (vfsRetain w (some n)) (holding (some n) + (without table fd + refs)) := by
      apply balanced_retain balanced
      rintro m ⟨⟩
      exact balanced.counts.referenced n (Multiset.mem_add.mpr (.inr (kept n rfl)))
    dsimp only
    split
    · rename_i taken
      exact sound_put (copy (balanced_drop sound taken)) sound.tidy rfl
    · rename_i free
      have balanced := sound.balanced
      rw [← without_free (eq_false_of_ne_true free)] at balanced
      exact sound_put (copy balanced) sound.tidy rfl

theorem balanced_elfLoadAndSpawn (balanced : Balanced v refs) (found : Lookup) (filename : String) (fileSize : Nat)
    (granted loaded : Bool) (reads : ∀ n, inNode = some n → n ∈ refs)
    (writes : ∀ n, outNode = some n → n ∈ refs) :
    match (elfLoadAndSpawn v found filename fileSize granted loaded inNode outNode).2 with
    | none => Balanced (elfLoadAndSpawn v found filename fileSize granted loaded inNode outNode).1 refs
    | some table => Sound (elfLoadAndSpawn v found filename fileSize granted loaded inNode outNode).1 table refs := by
  have opened := balanced_openEither balanced found filename fileSize granted
  unfold elfLoadAndSpawn
  dsimp only
  cases node : (openEither v found filename fileSize granted).2 with
  | none =>
    rw [node, holding, zero_add] at opened
    exact opened
  | some target =>
    rw [node] at opened
    have closed : Balanced (vfsClose (openEither v found filename fileSize granted).1 (some target)) refs :=
      balanced_release opened
    cases loaded with
    | false => exact closed
    | true =>
      exact sound_redirect (sound_redirect (sound_standardTable closed) 0 "pipe:[read]" reads) 1 "pipe:[write]" writes

theorem sound_closeSlot (sound : Sound state.1 state.2 refs) (fd : Fin maxOpenFiles) :
    Sound (closeSlot state fd).1 (closeSlot state fd).2 refs := by
  unfold closeSlot
  split
  · rename_i used
    exact sound_clear sound used rfl rfl
  · exact sound

theorem closeSlot_free (state : Vfs × FdTable) (fd other : Fin maxOpenFiles)
    (free : other = fd ∨ (state.2 other).inUse = false) : ((closeSlot state fd).2 other).inUse = false := by
  unfold closeSlot
  split
  · dsimp only
    rw [Function.update_apply]
    split
    · rfl
    · rename_i ne
      exact free.resolve_left ne
  · rename_i unused
    rcases free with rfl | free
    · exact eq_false_of_ne_true unused
    · exact free

/-- The loop gives back every reference and leaves no descriptor in use. -/
theorem foldl_closeSlot (fds : List (Fin maxOpenFiles)) (state : Vfs × FdTable) (sound : Sound state.1 state.2 refs) :
    Sound (fds.foldl closeSlot state).1 (fds.foldl closeSlot state).2 refs ∧
      ∀ fd, fd ∈ fds ∨ (state.2 fd).inUse = false → ((fds.foldl closeSlot state).2 fd).inUse = false := by
  induction fds generalizing state with
  | nil => exact ⟨sound, fun fd free => free.resolve_left List.not_mem_nil⟩
  | cons first rest ih =>
    obtain ⟨kept, closed⟩ := ih _ (sound_closeSlot sound first)
    refine ⟨kept, fun fd free => closed fd ?_⟩
    rcases free with member | free
    · rcases List.mem_cons.mp member with rfl | member
      · exact .inr (closeSlot_free state fd fd (.inl rfl))
      · exact .inl member
    · exact .inr (closeSlot_free state first fd (.inr free))

theorem sound_closeAll (sound : Sound v table refs) :
    Sound (closeAll v table).1 (closeAll v table).2 refs ∧ ∀ fd, ((closeAll v table).2 fd).inUse = false := by
  obtain ⟨kept, closed⟩ := foldl_closeSlot (List.finRange maxOpenFiles) (v, table) sound
  exact ⟨kept, fun fd => closed fd (.inl (List.mem_finRange fd))⟩

end

end MeowMeowOS.Descriptors

import MeowMeowOS.Descriptors
import MeowMeowOS.GuardedRuns

/-! Reference counting over whole runs: tasks open, copy, overwrite and close
descriptors, start and exit, and the kernel holds nodes of its own. -/
namespace MeowMeowOS.NodeReferences
open Descriptors GuardedRuns ReferenceCounts VfsNodes

structure Task where
  pid : Nat
  exited : Bool
  fdTable : FdTable

/-- `kernel` are the references that kernel code holds outside the tables. -/
structure System where
  vfs : Vfs
  tasks : List Task
  nextPid : Nat
  kernel : Multiset Nat

inductive Call where
  | sysOpen (path : Option String) (found : Lookup) (fileSize : Nat) (granted mayRead mayOpenDevice : Bool)
  | sysCreate (path : Option String) (fileSize : Nat) (granted mayWrite : Bool)
  | sysPipe (validPtr : Bool) (granted : Nat)
  | sysClose (fd : Int)
  | sysDup (oldFd : Int)
  | sysDup2 (oldFd newFd : Int)
  | sysStat (validPtr : Bool) (path : Option String) (fileSize : Nat) (granted : Bool)

def perform (v : Vfs) (table : FdTable) : Call → Reply
  | .sysOpen path found fileSize granted mayRead mayOpenDevice =>
    sysOpen v table path found fileSize granted mayRead mayOpenDevice
  | .sysCreate path fileSize granted mayWrite => sysCreate v table path fileSize granted mayWrite
  | .sysPipe validPtr granted => sysPipe v table validPtr granted
  | .sysClose fd => sysClose v table fd
  | .sysDup oldFd => sysDup v table oldFd
  | .sysDup2 oldFd newFd => sysDup2 v table oldFd newFd
  | .sysStat validPtr path fileSize granted => sysStat v table validPtr path fileSize granted

/-- Tasks are named by their place in the list. -/
inductive Event where
  | call (i : Nat) (c : Call)
  | exit (i : Nat)
  | reap (i : Nat)
  | spawn (found : Lookup) (filename : String) (fileSize : Nat) (granted loaded : Bool) (inNode outNode : Option Nat)
  | taskCreate
  | kernelOpen (found : Lookup) (filename : String) (fileSize : Nat) (granted : Bool)
  | kernelPipe (granted : Nat)
  | kernelRelease (node : Nat)

def addTask (s : System) (v : Vfs) (table : FdTable) : System :=
  { s with vfs := v, tasks := ⟨s.nextPid, false, table⟩ :: s.tasks, nextPid := s.nextPid + 1 }

def spawned (s : System) (v : Vfs) : Option FdTable → System
  | none => { s with vfs := v }
  | some table => addTask s v table

/-- System calls and exits run with interrupts off and are one step each. -/
def Step (s : System) : Event → System → Prop
  | .call i c, s' => ∃ t, s.tasks[i]? = some t ∧ t.exited = false ∧
      s' = { s with
        vfs := (perform s.vfs t.fdTable c).vfs
        tasks := s.tasks.set i { t with fdTable := (perform s.vfs t.fdTable c).table } }
  | .exit i, s' => ∃ t, s.tasks[i]? = some t ∧ t.exited = false ∧
      s' = { s with
        vfs := (closeAll s.vfs t.fdTable).1
        tasks := s.tasks.set i { t with exited := true, fdTable := (closeAll s.vfs t.fdTable).2 } }
  | .reap i, s' => ∃ t, s.tasks[i]? = some t ∧ t.exited = true ∧ s' = { s with tasks := s.tasks.eraseIdx i }
  | .spawn found filename fileSize granted loaded inNode outNode, s' =>
      (∀ n, inNode = some n → n ∈ s.kernel) ∧ (∀ n, outNode = some n → n ∈ s.kernel) ∧
      s' = spawned s (elfLoadAndSpawn s.vfs found filename fileSize granted loaded inNode outNode).1
        (elfLoadAndSpawn s.vfs found filename fileSize granted loaded inNode outNode).2
  | .taskCreate, s' => s' = addTask s (standardTable s.vfs).1 (standardTable s.vfs).2
  | .kernelOpen found filename fileSize granted, s' =>
      s' = { s with
        vfs := (openEither s.vfs found filename fileSize granted).1
        kernel := holding (openEither s.vfs found filename fileSize granted).2 + s.kernel }
  | .kernelPipe granted, s' =>
      s' = { s with
        vfs := (pipeCreate s.vfs granted).1
        kernel := holding ((pipeCreate s.vfs granted).2.map Prod.fst) +
          (holding ((pipeCreate s.vfs granted).2.map Prod.snd) + s.kernel) }
  | .kernelRelease node, s' => node ∈ s.kernel ∧
      s' = { s with vfs := vfsRelease s.vfs (some node), kernel := s.kernel.erase node }

def deviceNode (device : String × Nat) : VfsNode := ⟨device.1, .device, 0, device.2, true, none, none⟩

/-- The drivers have registered their devices, each with some reference count,
and no task exists. -/
def beforeTasks (devices : List (String × Nat)) : System :=
  ⟨⟨fun n => deviceNode (devices.getD n ("", 0)), devices.length, fun _ => ⟨false, false⟩, 0,
    (List.range devices.length).reverse, [], []⟩, [], 1, 0⟩

/-- `task_initialize` makes the shell's task. -/
def booted (devices : List (String × Nat)) : System :=
  addTask (beforeTasks devices) (standardTable (beforeTasks devices).vfs).1 (standardTable (beforeTasks devices).vfs).2

/-- The descriptors in use that hold `n`, in every table. -/
def slotsHolding (s : System) (n : Nat) : Nat :=
  (s.tasks.map fun t => (Finset.univ.filter fun fd => (t.fdTable fd).inUse ∧ (t.fdTable fd).node = some n).card).sum

def references (s : System) (n : Nat) : Nat := slotsHolding s n + s.kernel.count n

structure Accounted (s : System) : Prop where
  counted : ∀ n < s.vfs.nextNode, n ∉ s.vfs.freedNodes → (s.vfs.nodes n).persistent = false →
    (s.vfs.nodes n).refCount = references s n
  freed : ∀ n < s.vfs.nextNode, (s.vfs.nodes n).persistent = false → (n ∈ s.vfs.freedNodes ↔ references s n = 0)
  once : s.vfs.freedNodes.Nodup
  slots : ∀ t ∈ s.tasks, ∀ fd n, (t.fdTable fd).node = some n → n < s.vfs.nextNode ∧ n ∉ s.vfs.freedNodes
  kernel : ∀ n ∈ s.kernel, n < s.vfs.nextNode ∧ n ∉ s.vfs.freedNodes
  ends : ∀ r < s.vfs.nextRing, r ∉ s.vfs.freedRings → ∃ ends, Shared s.vfs r ends
  rings : ∀ r < s.vfs.nextRing, s.vfs.freedRings.count r =
    if ∀ n < s.vfs.nextNode, (s.vfs.nodes n).ptr = some r → references s n = 0 then 1 else 0

/-- Every reference there is. -/
def total (s : System) : Multiset Nat := (s.tasks.map fun t => held t.fdTable).sum + s.kernel

/-- The references outside the table of one task. -/
def elsewhere (s : System) (i : Nat) : Multiset Nat := ((s.tasks.eraseIdx i).map fun t => held t.fdTable).sum + s.kernel

/-- An exited task holds nothing, and the references balance. -/
structure Sane (s : System) : Prop where
  balanced : Balanced s.vfs (total s)
  tidy : ∀ t ∈ s.tasks, Tidy t.fdTable
  closed : ∀ t ∈ s.tasks, t.exited = true → ∀ fd, (t.fdTable fd).inUse = false

section
variable {s s' : System} {t t' : Task} {i : Nat} {v : Vfs} {table : FdTable} {event : Event}

theorem total_eq (found : s.tasks[i]? = some t) : total s = held t.fdTable + elsewhere s i := by
  obtain ⟨bound, rfl⟩ := List.getElem?_eq_some_iff.mp found
  have order := ((List.getElem_cons_eraseIdx_perm bound).map fun t : Task => held t.fdTable).sum_eq
  rw [total, elsewhere, ← order, List.map_cons, List.sum_cons, add_assoc]

theorem total_set (found : s.tasks[i]? = some t) (t' : Task) (v : Vfs) :
    total { s with vfs := v, tasks := s.tasks.set i t' } = held t'.fdTable + elsewhere s i := by
  obtain ⟨bound, rfl⟩ := List.getElem?_eq_some_iff.mp found
  have order := ((List.set_perm_cons_eraseIdx bound t').map fun t : Task => held t.fdTable).sum_eq
  rw [total, elsewhere, order, List.map_cons, List.sum_cons, add_assoc]

theorem sound_task (sane : Sane s) (found : s.tasks[i]? = some t) : Sound s.vfs t.fdTable (elsewhere s i) :=
  ⟨total_eq found ▸ sane.balanced, sane.tidy t (List.mem_of_getElem? found)⟩

theorem sane_set (sane : Sane s) (found : s.tasks[i]? = some t) (sound : Sound v t'.fdTable (elsewhere s i))
    (closed : t'.exited = true → ∀ fd, (t'.fdTable fd).inUse = false) :
    Sane { s with vfs := v, tasks := s.tasks.set i t' } := by
  refine ⟨?_, ?_, ?_⟩
  · rw [total_set found]
    exact sound.balanced
  · intro u member
    rcases List.mem_or_eq_of_mem_set member with member | rfl
    · exact sane.tidy u member
    · exact sound.tidy
  · intro u member
    rcases List.mem_or_eq_of_mem_set member with member | rfl
    · exact sane.closed u member
    · exact closed

theorem sane_addTask (sane : Sane s) (sound : Sound v table (total s)) : Sane (addTask s v table) := by
  refine ⟨?_, ?_, ?_⟩
  · rw [total, addTask, List.map_cons, List.sum_cons, add_assoc]
    exact sound.balanced
  · intro u member
    rcases List.mem_cons.mp member with rfl | member
    · exact sound.tidy
    · exact sane.tidy u member
  · intro u member
    rcases List.mem_cons.mp member with rfl | member
    · nofun
    · exact sane.closed u member

theorem sound_perform (sound : Sound v table refs) (c : Call) :
    Sound (perform v table c).vfs (perform v table c).table refs := by
  cases c with
  | sysOpen path found fileSize granted mayRead mayOpenDevice => exact sound_sysOpen sound
  | sysCreate path fileSize granted mayWrite => exact sound_sysCreate sound
  | sysPipe validPtr granted => exact sound_sysPipe sound validPtr granted
  | sysClose fd => exact sound_sysClose sound fd
  | sysDup oldFd => exact sound_sysDup sound oldFd
  | sysDup2 oldFd newFd => exact sound_sysDup2 sound oldFd newFd
  | sysStat validPtr path fileSize granted => exact sound_sysStat sound

theorem held_closed (closed : ∀ fd, (table fd).inUse = false) : held table = 0 := by
  apply Finset.sum_eq_zero
  intro fd _
  rw [reference, closed fd, if_neg (by decide), holding]

theorem sane_kernel (sane : Sane s) (refs : Multiset Nat) (balanced : Balanced v (refs + total s)) :
    Sane { s with vfs := v, kernel := refs + s.kernel } := by
  refine ⟨?_, sane.tidy, sane.closed⟩
  rw [total, add_left_comm] at balanced
  exact balanced

theorem sane_step (sane : Sane s) (step : Step s event s') : Sane s' := by
  cases event with
  | call i c =>
    obtain ⟨t, found, running, rfl⟩ := step
    apply sane_set sane found (sound_perform (sound_task sane found) c)
    intro exited
    rw [running] at exited
    cases exited
  | exit i =>
    obtain ⟨t, found, running, rfl⟩ := step
    obtain ⟨sound, closed⟩ := sound_closeAll (sound_task sane found)
    exact sane_set sane found sound fun _ => closed
  | reap i =>
    obtain ⟨t, found, exited, rfl⟩ := step
    have kept {u : Task} (member : u ∈ s.tasks.eraseIdx i) : u ∈ s.tasks := List.mem_of_mem_eraseIdx member
    have balanced := sane.balanced
    rw [total_eq found, held_closed (sane.closed t (List.mem_of_getElem? found) exited), zero_add] at balanced
    exact ⟨balanced, fun u member => sane.tidy u (kept member), fun u member => sane.closed u (kept member)⟩
  | spawn found filename fileSize granted loaded inNode outNode =>
    obtain ⟨reads, writes, rfl⟩ := step
    have known (n : Nat) (member : n ∈ s.kernel) : n ∈ total s := Multiset.mem_add.mpr (.inr member)
    have kept := balanced_elfLoadAndSpawn sane.balanced found filename fileSize granted loaded
      (fun n leads => known n (reads n leads)) fun n leads => known n (writes n leads)
    cases made : (elfLoadAndSpawn s.vfs found filename fileSize granted loaded inNode outNode).2 with
    | none =>
      rw [made] at kept
      exact ⟨kept, sane.tidy, sane.closed⟩
    | some table =>
      rw [made] at kept
      exact sane_addTask sane kept
  | taskCreate =>
    cases step
    exact sane_addTask sane (sound_standardTable sane.balanced)
  | kernelOpen found filename fileSize granted =>
    cases step
    exact sane_kernel sane _ (balanced_openEither sane.balanced found filename fileSize granted)
  | kernelPipe granted =>
    cases step
    have made := balanced_pipeCreate sane.balanced granted
    rw [← add_assoc] at made ⊢
    exact sane_kernel sane _ made
  | kernelRelease node =>
    obtain ⟨member, rfl⟩ := step
    have dropped : Balanced (vfsRelease s.vfs (some node))
        ((s.tasks.map fun t => held t.fdTable).sum + s.kernel.erase node) := by
      apply balanced_release
      rw [holding, add_left_comm, Multiset.singleton_add, Multiset.cons_erase member]
      exact sane.balanced
    exact ⟨dropped, sane.tidy, sane.closed⟩

theorem balanced_beforeTasks (devices : List (String × Nat)) : Balanced (beforeTasks devices).vfs 0 := by
  refine ⟨⟨nofun, nofun, nofun, List.nodup_nil, ?_⟩, ⟨nofun, nofun, List.nodup_nil, nofun, nofun, nofun⟩⟩
  intro n device
  exact ⟨List.mem_range.mp (List.mem_reverse.mp device), rfl⟩

theorem sane_booted (devices : List (String × Nat)) : Sane (booted devices) := by
  apply sane_addTask ⟨balanced_beforeTasks devices, nofun, nofun⟩
  exact sound_standardTable (balanced_beforeTasks devices)

theorem count_held_sum (tasks : List Task) (n : Nat) : (tasks.map fun t => held t.fdTable).sum.count n =
    (tasks.map fun t =>
      (Finset.univ.filter fun fd => (t.fdTable fd).inUse ∧ (t.fdTable fd).node = some n).card).sum := by
  induction tasks with
  | nil => rfl
  | cons t rest ih => rw [List.map_cons, List.sum_cons, Multiset.count_add, ih, count_held, List.map_cons,
    List.sum_cons]

theorem count_total (s : System) (n : Nat) : (total s).count n = references s n := by
  rw [total, Multiset.count_add, count_held_sum]
  rfl

theorem freed_iff (sane : Sane s) (known : n < s.vfs.nextNode) (mortal : (s.vfs.nodes n).persistent = false) :
    n ∈ s.vfs.freedNodes ↔ references s n = 0 := by
  rw [← count_total, Multiset.count_eq_zero]
  constructor
  · intro freed member
    exact (sane.balanced.counts.referenced n member).2 freed
  · intro absent
    by_contra live
    exact absent (sane.balanced.counts.counted n known mortal live).1

/-- A ring is freed when no reference to either end is left. -/
theorem ring_freed_iff (sane : Sane s) (known : r < s.vfs.nextRing) : r ∈ s.vfs.freedRings ↔
    ∀ n < s.vfs.nextNode, (s.vfs.nodes n).ptr = some r → references s n = 0 := by
  have rings := sane.balanced.rings
  have mortal (n : Nat) (bound : n < s.vfs.nextNode) (found : (s.vfs.nodes n).ptr = some r) :
      n ∈ s.vfs.freedNodes ↔ references s n = 0 := freed_iff sane bound (rings.pointed n bound r found).2
  constructor
  · intro freed n bound found
    exact (mortal n bound found).mp ((rings.freed r freed).2 n bound found)
  · intro unreferenced
    by_contra live
    obtain ⟨ends, shared⟩ := rings.shared r known live id
    obtain ⟨side, alive⟩ := shared.alive
    have gone := unreferenced _ (shared.known side) (shared.pointed side)
    exact alive ((mortal _ (shared.known side) (shared.pointed side)).mpr gone)

theorem accounted (sane : Sane s) : Accounted s := by
  have counts := sane.balanced.counts
  refine ⟨?_, ?_, counts.once, ?_, ?_, ?_, ?_⟩
  · intro n known live mortal
    rw [(counts.counted n known mortal live).2, count_total]
  · intro n known mortal
    exact freed_iff sane known mortal
  · intro t member fd n leads
    have used : (t.fdTable fd).inUse = true := by
      by_contra free
      rw [sane.tidy t member fd (eq_false_of_ne_true free)] at leads
      cases leads
    obtain ⟨i, found⟩ := List.getElem?_of_mem member
    apply counts.referenced
    rw [total_eq found]
    exact Multiset.mem_add.mpr (.inl (mem_held.mpr ⟨fd, used, leads⟩))
  · intro n member
    exact counts.referenced n (Multiset.mem_add.mpr (.inr member))
  · intro r known live
    exact sane.balanced.rings.shared r known live id
  · intro r known
    split
    · rename_i unreferenced
      exact List.count_eq_one_of_mem sane.balanced.rings.once ((ring_freed_iff sane known).mpr unreferenced)
    · rename_i referenced
      exact List.count_eq_zero.mpr fun freed => referenced ((ring_freed_iff sane known).mp freed)

end

abbrev Always (_ : System) (_ : Event) : Prop := True

/-- In every state that a run reaches, the counts are right, a node is freed
when and only when nothing refers to it any more, no slot leads to a freed node,
and a ring is freed once, when both ends are gone. -/
theorem references_accounted (devices : List (String × Nat)) (s : System) (run : Run Always Step (booted devices) s) :
    Accounted s := by
  apply accounted
  apply run_invariant Sane run (sane_booted devices)
  intro t event u sane _ step
  exact sane_step sane step

def consoleDevices : List (String × Nat) := [("stdin", 1), ("stdout", 1)]

/-- A pipe that the kernel makes, a task that writes to it and copies the
descriptor, its exit, and the two references of the kernel. -/
theorem references_accounted_pipe : ∃ s, Run Always Step (booted consoleDevices) s ∧
    s.vfs.freedNodes = [3, 2, 4] ∧ s.vfs.freedRings = [0] ∧ Accounted s := by
  have start : Run Always Step (booted consoleDevices) (booted consoleDevices) := .refl
  have pipe := run_then start trivial (show Step _ (.kernelPipe 3) _ from rfl)
  have spawn := run_then pipe trivial
    (show Step _ (.spawn (.fat16 "cat.elf" 9 true) "cat.elf" 0 false true none (some 3)) _ from
      ⟨nofun, by rintro _ ⟨⟩; decide, rfl⟩)
  have copied := run_then spawn trivial (show Step _ (.call 0 (.sysDup2 1 7)) _ from ⟨_, rfl, rfl, rfl⟩)
  have exited := run_then copied trivial (show Step _ (.exit 0) _ from ⟨_, rfl, rfl, rfl⟩)
  have first := run_then exited trivial (show Step _ (.kernelRelease 2) _ from ⟨by decide, rfl⟩)
  have second := run_then first trivial (show Step _ (.kernelRelease 3) _ from ⟨by decide, rfl⟩)
  exact ⟨_, second, rfl, rfl, references_accounted consoleDevices _ second⟩

end MeowMeowOS.NodeReferences

import MeowMeowOS.MissingDirectories
import MeowMeowOS.Fat16Format

/-! The emptiness test of `fat16_delete_dir` against the listing. The test
reads one sector, the listing every sector of the directory, so entries behind
the sixteenth are listed and not tested. -/
namespace MeowMeowOS.EmptyDirectories
open ByteMemory Fat16Disk Fat16Names Fat16Directory Fat16Paths Fat16Files Fat16Format
open Fat16Geometry Fat16Scan Fat16Walks MissingDirectories

section Listing
variable {v : Volume} {slots : List Slot} {k : Nat}

/-- From cluster `c` a walk over a directory comes to cluster `c'`: every
cluster on the way is full. -/
inductive Reaches (v : Volume) : Nat → Nat → Prop where
  | here (inChain : InChain c) : Reaches v c c
  | next (inChain : InChain c) (full : ∀ e ∈ slotsOf v c, neverUsed e = false)
      (further : Reaches v (getFatEntry v c) c') : Reaches v c c'

/-- The clusters of the directory at `c`, the root's being 0. -/
def DirCluster (v : Volume) (c c' : Nat) : Prop := (c = 0 ∧ c' = 0) ∨ Reaches v c c'

theorem reaches_chain (reached : Reaches v c c') : InChain c := by
  cases reached with
  | here inChain => exact inChain
  | next inChain => exact inChain

/-! ## What the listing visits -/

theorem listChain_sound (listed : listChain v fuel c scan = some list) (member : visit ∈ list) :
    ∃ c', Reaches v c c' ∧ Live v c' visit.position ∧
      visit.slot = dirSlot v.disk (dirStart v.fs c') visit.position := by
  induction fuel generalizing c scan list with
  | zero => cases listed
  | succ fuel ih =>
    rw [listChain] at listed
    by_cases inChain : InChain c
    · rw [if_pos inChain] at listed
      have own : visit ∈ (visits 0 scan (slotsOf v c)).1 → ∃ c', Reaches v c c' ∧
          Live v c' visit.position ∧ visit.slot = dirSlot v.disk (dirStart v.fs c') visit.position :=
        fun seen => ⟨c, Reaches.here inChain, visit_live seen⟩
      cases ending : (visits 0 scan (slotsOf v c)).2 with
      | none =>
        simp only [ending, Option.some.injEq] at listed
        exact own (listed ▸ member)
      | some scan' =>
        simp only [ending, Option.map_eq_some_iff] at listed
        obtain ⟨rest, listed, rfl⟩ := listed
        rcases List.mem_append.mp member with seen | later
        · exact own seen
        · obtain ⟨c', reached, live⟩ := ih listed later
          refine ⟨c', Reaches.next inChain (fun e at_e => ?_) reached, live⟩
          by_contra never
          have ended : (visits 0 scan (slotsOf v c)).2 = none :=
            visits_ending.mpr ⟨e, at_e, by simpa using never⟩
          rw [ending] at ended
          cases ended
    · rw [if_neg inChain] at listed
      cases listed
      cases member

theorem listChain_complete (reached : Reaches v c c') (live : Live v c' k)
    (listed : listChain v fuel c scan = some list) :
    ∃ visit ∈ list, visit.slot = dirSlot v.disk (dirStart v.fs c') k := by
  induction reached generalizing fuel scan list with
  | @here c inChain =>
    cases fuel with
    | zero => cases listed
    | succ fuel =>
      rw [listChain, if_pos inChain] at listed
      obtain ⟨visit, seen, slot, -⟩ := live_visit scan live
      cases ending : (visits 0 scan (slotsOf v c)).2 with
      | none =>
        simp only [ending, Option.some.injEq] at listed
        exact ⟨visit, listed ▸ seen, slot⟩
      | some scan' =>
        simp only [ending, Option.map_eq_some_iff] at listed
        obtain ⟨rest, -, rfl⟩ := listed
        exact ⟨visit, List.mem_append_left _ seen, slot⟩
  | @next c c' inChain full further ih =>
    cases fuel with
    | zero => cases listed
    | succ fuel =>
      rw [listChain, if_pos inChain] at listed
      cases ending : (visits 0 scan (slotsOf v c)).2 with
      | none =>
        obtain ⟨e, member, never⟩ := visits_ending.mp ending
        rw [full e member] at never
        cases never
      | some scan' =>
        simp only [ending, Option.map_eq_some_iff] at listed
        obtain ⟨rest, listed, rfl⟩ := listed
        obtain ⟨visit, seen, slot⟩ := ih live listed
        exact ⟨visit, List.mem_append_right _ seen, slot⟩

/-- The listing visits the live entries of the current directory's clusters. -/
theorem fat16List_visits (listed : fat16List fuel v = some list) (P : Slot → Prop) :
    (∀ visit ∈ list, P visit.slot) ↔
      ∀ c k, DirCluster v v.fs.currentDirCluster c → Live v c k →
        P (dirSlot v.disk (dirStart v.fs c) k) := by
  unfold fat16List at listed
  by_cases root : v.fs.currentDirCluster = 0
  · rw [if_pos root, Option.some.injEq] at listed
    subst listed
    rw [root]
    constructor
    · intro all c k reached live
      rcases reached with ⟨-, rfl⟩ | reached
      · obtain ⟨visit, member, slot, -⟩ := live_visit Scan.initial live
        exact slot ▸ all visit member
      · exact absurd (reaches_chain reached).1 (by decide)
    · intro all visit member
      obtain ⟨live, slot⟩ := visit_live member
      exact slot ▸ all 0 visit.position (Or.inl ⟨rfl, rfl⟩) live
  · rw [if_neg root] at listed
    constructor
    · intro all c k reached live
      rcases reached with ⟨zero, -⟩ | reached
      · exact absurd zero root
      · obtain ⟨visit, member, slot⟩ := listChain_complete reached live listed
        exact slot ▸ all visit member
    · intro all visit member
      obtain ⟨c, reached, live, slot⟩ := listChain_sound listed member
      exact slot ▸ all c visit.position (Or.inr reached) live

/-! ## What the test reads -/

theorem isDirEmptySlots_sound (empty : isDirEmptySlots slots = true) (found : slots[k]? = some e)
    (inUse : InUse e) (before : ∀ j < k, ∀ e', slots[j]? = some e' → neverUsed e' = false) :
    isDotEntry e = true := by
  induction slots generalizing k with
  | nil => cases found
  | cons first rest ih =>
    rw [isDirEmptySlots] at empty
    cases k with
    | zero =>
      obtain rfl : first = e := by simpa using found
      obtain ⟨used, kept, short⟩ := inUse
      by_contra other
      simp [used, kept, short, other] at empty
    | succ k =>
      have used := before 0 (by omega) first rfl
      have later : isDirEmptySlots rest = true := by
        rw [if_neg (by simp [used])] at empty
        split at empty
        · exact empty
        · split at empty
          · exact empty
          · cases empty
      exact ih later (by simpa using found) fun j small e' at_j =>
        before (j + 1) (by omega) e' (by simpa using at_j)

/-- A directory that passes the test has only '.' and '..' among its first
sixteen entries. -/
theorem isDirEmpty_sound (empty : isDirEmpty v c = true) (child : c ≠ 0) (live : Live v c k)
    (tested : k < 16) : isDotEntry (dirSlot v.disk (dirStart v.fs c) k) = true := by
  have start : dirStart v.fs c = clusterLba v.fs c := if_neg child
  have get : ∀ j < 16, ((List.range 16).map (dirSlot v.disk (clusterLba v.fs c)))[j]? =
      some (dirSlot v.disk (dirStart v.fs c) j) := by
    intro j small
    rw [start]
    simp [small]
  refine isDirEmptySlots_sound empty (get k tested) live.inUse fun j below e at_j => ?_
  rw [get j (by omega), Option.some.injEq] at at_j
  exact at_j ▸ live.before j below

/-- The current directory lists an entry that the test does not read: one
behind the sixteenth, or any if the directory's cluster is 0. -/
def Stray (v : Volume) : Prop :=
  ∃ c k, DirCluster v v.fs.currentDirCluster c ∧ Live v c k ∧
    (v.fs.currentDirCluster ≠ 0 → c = v.fs.currentDirCluster → 16 ≤ k) ∧
    isDotEntry (dirSlot v.disk (dirStart v.fs c) k) = false

/-- What a directory that passes the test lists. -/
theorem fat16List_dots_iff (empty : isDirEmpty v v.fs.currentDirCluster = true)
    (listed : fat16List fuel v = some list) :
    (∀ visit ∈ list, isDotEntry visit.slot = true) ↔ ¬ Stray v := by
  rw [fat16List_visits listed fun e => isDotEntry e = true]
  constructor
  · rintro all ⟨c, k, reached, live, -, other⟩
    rw [all c k reached live] at other
    cases other
  · intro none c k reached live
    by_contra other
    refine none ⟨c, k, reached, live, fun child same => ?_, by simpa using other⟩
    by_contra tested
    subst same
    exact other (isDirEmpty_sound empty child live (by omega))

end Listing

/-! ## Deleting a directory -/

section Delete
variable {fuel fuel' : Nat} {v v' entered : Volume} {dirname base path : CString} {list : List Visit}

theorem deleteDir_entered (named : dirname ≠ []) (ran : fat16DeleteDir fuel v dirname = some v')
    (entering : enterPath fuel v dirname = some (entered, base)) :
    ∃ removed, deleteFound fuel entered (dirToDelete entered base) = some removed ∧
      v'.disk = removed.disk := by
  rw [fat16DeleteDir, if_neg named] at ran
  simp only [Option.bind_eq_bind, Option.bind_eq_some_iff, Prod.exists] at ran
  obtain ⟨entered', base', prologue, removed, deletes, left⟩ := ran
  rw [entering, Option.some.injEq, Prod.mk.injEq] at prologue
  obtain ⟨rfl, rfl⟩ := prologue
  exact ⟨removed, deletes, moved_disk (leavePath_moved left)⟩

theorem dirToDelete_empty (found : dirToDelete v base = some visit) :
    isDirEmpty v (clusterLow visit.slot) = true :=
  (Option.filter_eq_some_iff.mp found).2

/-- The call leaves the disk alone or removes a directory that lists only '.'
and '..', as long as the directory it goes for lists no entry that the test
does not read; on a regular volume, only then. -/
theorem deleteDir_empty_iff (named : dirname ≠ [])
    (entering : enterPath fuel v dirname = some (entered, base))
    (ran : fat16DeleteDir fuel v dirname = some v')
    (listed : ∀ found, dirToDelete entered base = some found →
      fat16List fuel' (enter entered (clusterLow found.slot) path) = some list) :
    ((∀ found, dirToDelete entered base = some found →
        ¬ Stray (enter entered (clusterLow found.slot) path)) →
      v'.disk = v.disk ∨ ∀ visit ∈ list, isDotEntry visit.slot = true) ∧
    (Regular entered →
      ((v'.disk = v.disk ∨ ∀ visit ∈ list, isDotEntry visit.slot = true) ↔
        ∀ found, dirToDelete entered base = some found →
          ¬ Stray (enter entered (clusterLow found.slot) path))) := by
  obtain ⟨removed, deletes, disk⟩ := deleteDir_entered named ran entering
  have same := moved_disk (enterPath_moved entering)
  rw [disk, ← same]
  have dots : ∀ found, dirToDelete entered base = some found →
      ((∀ visit ∈ list, isDotEntry visit.slot = true) ↔
        ¬ Stray (enter entered (clusterLow found.slot) path)) := by
    intro found target
    have tested : isDirEmpty entered (clusterLow found.slot) = true := dirToDelete_empty target
    have empty : isDirEmpty (enter entered (clusterLow found.slot) path) (clusterLow found.slot) = true :=
      tested
    exact fat16List_dots_iff empty (listed found target)
  have kept : (∀ found, dirToDelete entered base = some found →
      ¬ Stray (enter entered (clusterLow found.slot) path)) →
      removed.disk = entered.disk ∨ ∀ visit ∈ list, isDotEntry visit.slot = true := by
    intro tested
    cases target : dirToDelete entered base with
    | none => exact Or.inl (deleteFound_unchanged (target ▸ deletes))
    | some found => exact Or.inr ((dots found target).mpr (tested found target))
  refine ⟨kept, fun regular => ⟨?_, kept⟩⟩
  rintro (unchanged | onlyDots) found target
  · have none := (deleteFound_unchanged_iff regular (fun _ => dirToDelete_member) deletes).mp unchanged
    rw [target] at none
    cases none
  · exact (dots found target).mp onlyDots

end Delete

/-! ## A file behind the first sector -/

def dName : CString := [0x44]

/-- The empty directory `D` of the volume may be deleted. -/
theorem deleteDir_empty_iff_twoEntries :
    ∃ v' list, fat16DeleteDir 2 twoEntries dName = some v' ∧
      fat16List 2 (enter twoEntries 3 [slash, 0x44]) = some list ∧
      ((v'.disk = twoEntries.disk ∨ ∀ visit ∈ list, isDotEntry visit.slot = true) ↔
        ∀ found, dirToDelete twoEntries dName = some found →
          ¬ Stray (enter twoEntries (clusterLow found.slot) [slash, 0x44])) := by
  have runs : (fat16DeleteDir 2 twoEntries dName).isSome = true := by decide +kernel
  have lists : (fat16List 2 (enter twoEntries 3 [slash, 0x44])).isSome = true := by decide +kernel
  have target : (dirToDelete twoEntries dName).map (fun found => clusterLow found.slot) = some 3 := by
    decide +kernel
  obtain ⟨v', ran⟩ := Option.isSome_iff_exists.mp runs
  obtain ⟨list, listed⟩ := Option.isSome_iff_exists.mp lists
  have listing : ∀ found, dirToDelete twoEntries dName = some found →
      fat16List 2 (enter twoEntries (clusterLow found.slot) [slash, 0x44]) = some list := by
    intro found same
    rw [same, Option.map_some, Option.some.injEq] at target
    rw [target]
    exact listed
  exact ⟨v', list, ran, listed, (deleteDir_empty_iff (by decide) rfl ran listing).2 twoEntries_regular⟩

/-- A blank disk of 418 sectors, not yet mounted. -/
def blankDisk : Volume where
  fs := { twoEntries.fs with isMounted := false }
  disk := { total := 418, sectors := fun _ _ => 0 }

/-- The name of 180 letters takes 14 long-name entries, so that its short entry
is number 16 of the directory. -/
def farName : CString := List.replicate 180 0x61

def farFile : Option Volume := do
  let v ← fat16Initialize 1 ⟨fun _ => false, fun _ => 0⟩ blankDisk
  let (_, v) ← fat16CreateDir 2 v dName
  fat16WriteFile 2 v (dName ++ slash :: farName) emptyBuf 1

/-- A mounted volume after `mkdir D` and a write of a file in it: the listing of
`D` visits the file, and deleting `D` marks its entry and frees its cluster. -/
theorem delete_dir_loses_file :
    (farFile.bind fun v => (fat16Chdir 2 v dName).bind fun (_, v) =>
      (fat16List 2 v).map fun list => list.map fun visit => (visit.position, isDotEntry visit.slot)) =
        some [(0, true), (1, true), (16, false)] ∧
    farFile.map (fun v => (dirSlot v.disk 258 0 0, getFatEntry v 2)) = some (0x44, 0xFFFF) ∧
    (farFile.bind fun v => (fat16DeleteDir 2 v dName).map fun v =>
      (dirSlot v.disk 258 0 0, getFatEntry v 2)) = some (0xE5, 0x0000) := by
  refine ⟨?_, ?_, ?_⟩
  all_goals decide +kernel

end MeowMeowOS.EmptyDirectories

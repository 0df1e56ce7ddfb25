import MeowMeowOS.MissingDirectories
import MeowMeowOS.PathResolution
import MeowMeowOS.WalkedEntries

/-! Creations that fail. A cluster is claimed before the directory is searched for a
place, and no exit gives it back. -/
namespace MeowMeowOS.FailedCreations
open ByteMemory RunSearch Fat16Disk Fat16Names Fat16Directory Fat16Paths Fat16Files
open Fat16Geometry Fat16Walks Fat16Chains Fat16Entries VolumeRuns MissingDirectories PathResolution
open WalkedEntries (linked)

/-- The areas in their order, a table for clusters of 16 bits, and directories whose
clusters are on the disk and not free. -/
structure WellFormed (v : Volume) : Prop where
  placed : WellPlaced v
  table : v.fs.sectorsPerFat ≤ 256
  clusters : 0 < v.fs.sectorsPerCluster
  directories : ∀ fuel path w, fat16Chdir fuel v path = some (0, w) → w.fs.currentDirCluster = 0 ∨
    InData v w.fs.currentDirCluster ∧ getFatEntry v w.fs.currentDirCluster ≠ 0

/-- Both tables, the root and the clusters of the other directories hold the same. -/
def Unchanged (v w : Volume) : Prop :=
  SameSectors v.disk w.disk v.fs.reservedSectors v.fs.dataRegionLba ∧
    ∀ names c k, LeadTo v names c → InChain (linked v c k) →
      SameSectors v.disk w.disk (clusterLba v.fs (linked v c k))
      (clusterLba v.fs (linked v c k) + v.fs.sectorsPerCluster)

/-- The number of entries that a name takes. -/
def entriesFor (base : CString) : Nat := (if needLfn base then (base.length + 12) / 13 else 0) + 1

/-- The directory is entered, the name is new and a cluster is free, but the directory's
first cluster has no place for the entries. -/
def FullFor (fuel : Nat) (v : Volume) (path : CString) : Prop :=
  baseOf path ≠ [] ∧ ∃ parent, fat16Chdir fuel v (orRoot (directoryOf path)) = some (0, parent) ∧
    findEntryInCurrentDir fuel parent (baseOf path) = some none ∧
    findFreeCluster parent ≠ 0xFFFF ∧ findFreeSlots parent (entriesFor (baseOf path)) = none

def ParentFull (fuel : Nat) (v : Volume) (dirname : CString) : Prop :=
  v.fs.isMounted = true ∧ dirname ≠ [] ∧ FullFor fuel v (absolutePath v dirname)

/-- The data is written where `add_dir_entry` finds no place for the entry. -/
def Unplaced (fuel : Nat) (v : Volume) (filename : CString) (data : Mem) (size : Nat) : Prop :=
  ∃ entered base, enterPath fuel v filename = some (entered, base) ∧
    addDirEntry (storedData entered data size) base 0x20 (findFreeCluster entered) size = none

section
variable {v w parent : Volume} {fuel c : Nat} {name base : CString}

theorem nameEntries_count (base : CString) (attr : UInt8) (cluster size : Nat) :
    (nameEntries base attr cluster size).length = entriesFor base := by
  unfold nameEntries entriesFor
  simp

/-! ## The cluster of the new directory -/

theorem newDir_sectors (placed : WellPlaced v) (clusters : 0 < v.fs.sectorsPerCluster) (first : 2 ≤ c)
    (small : c < 2 ^ 16)
    {lo hi : Nat} (bound : hi ≤ 2 ^ 23) (apart : clusterLba v.fs c < lo ∨ hi ≤ clusterLba v.fs c) :
    SameSectors v.disk (writeNewDir v c).disk lo hi := by
  have inside := cluster_bound placed small
  rw [← clusterLba_eq placed first small] at inside
  exact write_sameSectors (by omega) bound apart

theorem storedDir_entry (placed : WellPlaced v) (table : v.fs.sectorsPerFat ≤ 256)
    (clusters : 0 < v.fs.sectorsPerCluster)
    (room : findFreeCluster v ≠ 0xFFFF) {x : Nat} (inside : InTable v x) :
    getFatEntry (storedDir v) x = if x = findFreeCluster v then 0xFFFF else getFatEntry v x := by
  rcases findFreeCluster_spec table with ⟨full, -⟩ | ⟨first, inTable, -, -⟩
  · exact absurd full room
  · unfold storedDir
    generalize findFreeCluster v = c at first inTable
    have placed' := wellPlaced_setFatEntry placed c 0xFFFF
    have root := placed.root
    have data := placed.data
    have onDisk := placed.noWrap
    have behind : v.fs.reservedSectors + v.fs.sectorsPerFat ≤ clusterLba (setFatEntry v c 0xFFFF).fs c := by
      rw [clusterLba_eq placed' first inTable.1, setFatEntry_fs]
      omega
    have same : SameSectors (setFatEntry v c 0xFFFF).disk (writeNewDir (setFatEntry v c 0xFFFF) c).disk
        v.fs.reservedSectors (v.fs.reservedSectors + v.fs.sectorsPerFat) :=
      newDir_sectors placed' clusters first inTable.1 (by omega) (Or.inr behind)
    have kept : getFatEntry (writeNewDir (setFatEntry v c 0xFFFF) c) x = getFatEntry (setFatEntry v c 0xFFFF) x :=
      getFatEntry_sectors rfl same inside
    rw [kept, getFatEntry_setEnd placed inTable inside]

theorem storedDir_taken (placed : WellPlaced v) (table : v.fs.sectorsPerFat ≤ 256)
    (clusters : 0 < v.fs.sectorsPerCluster)
    (room : findFreeCluster v ≠ 0xFFFF) : InTable v (findFreeCluster v) ∧ getFatEntry v (findFreeCluster v) = 0 ∧
      getFatEntry (storedDir v) (findFreeCluster v) = 0xFFFF := by
  rcases findFreeCluster_spec table with ⟨full, -⟩ | ⟨-, inTable, free, -⟩
  · exact absurd full room
  · refine ⟨inTable, free, ?_⟩
    rw [storedDir_entry placed table clusters room inTable, if_pos rfl]

/-- Directories whose clusters are not free keep their sectors. -/
theorem storedDir_sectors {d : Nat} (placed : WellPlaced v) (table : v.fs.sectorsPerFat ≤ 256)
    (clusters : 0 < v.fs.sectorsPerCluster)
    (room : findFreeCluster v ≠ 0xFFFF) (dir : d = 0 ∨ InData v d ∧ getFatEntry v d ≠ 0) :
    SameSectors v.disk (storedDir v).disk (dirStart v.fs d) (dirStart v.fs d + dirSectors v.fs d) := by
  rcases findFreeCluster_spec table with ⟨full, -⟩ | ⟨first, inTable, free, -⟩
  · exact absurd full room
  · have root := placed.root
    have data := placed.data
    have noWrap := placed.noWrap
    have located : DirPlaced v d := dir.imp_right And.left
    have onDisk := dirRegion_onDisk placed located
    have behind := dirRegion_behind placed located
    have other : d ≠ findFreeCluster v := by
      intro same
      rcases dir with zero | ⟨-, taken⟩
      · omega
      · exact taken (same ▸ free)
    have apart : clusterLba v.fs (findFreeCluster v) < dirStart v.fs d ∨
        dirStart v.fs d + dirSectors v.fs d ≤ clusterLba v.fs (findFreeCluster v) := by
      rw [clusterLba_eq placed first inTable.1]
      unfold dirStart dirSectors
      by_cases atRoot : d = 0
      · rw [if_pos atRoot, if_pos atRoot]
        omega
      · obtain ⟨first', small', -⟩ := located.resolve_left atRoot
        rw [if_neg atRoot, if_neg atRoot, clusterLba_eq placed first' small']
        have spaced := cluster_apart other first' first v.fs.sectorsPerCluster
        omega
    unfold storedDir
    have claimed := setFatEntry_sectors placed inTable (x := 0xFFFF) onDisk.2 behind
    exact claimed.trans (newDir_sectors (wellPlaced_setFatEntry placed _ _) clusters first inTable.1 onDisk.2 apart)

theorem storedDir_slots (placed : WellPlaced v) (table : v.fs.sectorsPerFat ≤ 256)
    (clusters : 0 < v.fs.sectorsPerCluster)
    (room : findFreeCluster v ≠ 0xFFFF)
    (dir : v.fs.currentDirCluster = 0 ∨ InData v v.fs.currentDirCluster ∧
    getFatEntry v v.fs.currentDirCluster ≠ 0)
    (required : Nat) : findFreeSlots (storedDir v) required = findFreeSlots v required :=
  findFreeSlots_sectors (storedDir_fs v) (storedDir_sectors placed table clusters room dir) required

/-! ## What is unchanged -/

theorem unchanged_of_disk (same : w.disk = v.disk) : Unchanged v w := by
  unfold Unchanged SameSectors
  rw [same]
  exact ⟨fun _ _ _ => rfl, fun _ _ _ _ _ _ _ _ => rfl⟩

theorem changed_of_entry (placed : WellPlaced v) (inTable : InTable v c) (free : getFatEntry v c = 0)
    (taken : getFatEntry { v with disk := w.disk } c ≠ 0) : ¬ Unchanged v w := by
  have root := placed.root
  have data := placed.data
  intro unchanged
  have same := unchanged.1.narrow (Nat.le_refl _) (show v.fs.reservedSectors + v.fs.sectorsPerFat ≤
    v.fs.dataRegionLba by omega)
  have kept : getFatEntry { v with disk := w.disk } c = getFatEntry v c := getFatEntry_sectors rfl same inTable
  exact taken (kept.trans free)

/-! ## A new directory -/

theorem addDirEntry_none (base : CString) (attr : UInt8) (cluster size : Nat) :
    addDirEntry v base attr cluster size = none ↔ findFreeSlots v (entriesFor base) = none := by
  unfold addDirEntry
  dsimp only
  rw [nameEntries_count, Option.map_eq_none_iff]

theorem createNew_failed (failed : createNew v base = (-1, w)) :
    (findFreeCluster v = 0xFFFF ∧ w = v) ∨
      (findFreeCluster v ≠ 0xFFFF ∧ findFreeSlots (storedDir v) (entriesFor base) = none ∧ w = storedDir v) := by
  rw [createNew_stages] at failed
  split at failed
  · rename_i full
    exact Or.inl ⟨full, (Prod.mk.inj failed).2.symm⟩
  · rename_i room
    refine Or.inr ⟨room, ?_⟩
    rw [← addDirEntry_none base 0x10 (findFreeCluster v) 0]
    split at failed
    · rename_i none
      exact ⟨none, (Prod.mk.inj failed).2.symm⟩
    · exact absurd (Prod.mk.inj failed).1 (by decide)

/-- Every failure but one leaves the disk alone. -/
theorem createIn_failed {path : CString} (wellFormed : WellFormed v) (ran : createIn fuel v path = some (-1, w)) :
    (w.disk = v.disk ∧ ¬ FullFor fuel v path) ∨ (FullFor fuel v path ∧ ∃ parent, Moved v parent ∧
      findFreeCluster parent ≠ 0xFFFF ∧ w = storedDir parent) := by
  unfold createIn at ran
  split at ran
  · rename_i empty
    obtain rfl := (Prod.mk.inj (Option.some.inj ran)).2
    exact Or.inl ⟨rfl, fun full => full.1 empty⟩
  · rename_i some
    obtain ⟨⟨code, parent⟩, walked, ran⟩ := Option.bind_eq_some_iff.mp ran
    have moved := fat16Chdir_moved walked
    dsimp only at ran
    split at ran
    · rename_i failed
      obtain rfl := (Prod.mk.inj (Option.some.inj ran)).2
      refine Or.inl ⟨moved_disk moved, ?_⟩
      rintro ⟨-, other, walked', -⟩
      exact failed (congrArg Prod.fst (Option.some.inj (walked.symm.trans walked')))
    · rename_i entered
      obtain rfl := not_not.mp entered
      obtain ⟨existing, looked, outcome⟩ := Option.bind_eq_some_iff.mp ran
      have same : ∀ other, fat16Chdir fuel v (orRoot (directoryOf path)) = .some (0, other) → other = parent :=
        fun other walked' => congrArg Prod.snd (Option.some.inj (walked'.symm.trans walked))
      simp only [Option.pure_def, Option.some.injEq] at outcome
      split at outcome
      · rename_i exists'
        obtain rfl := (Prod.mk.inj outcome).2
        refine Or.inl ⟨moved_disk moved, ?_⟩
        rintro ⟨-, other, walked', absent, -⟩
        rw [same other walked', looked] at absent
        obtain rfl := Option.some.inj absent
        exact absurd exists' (by decide)
      · rename_i absent
        obtain rfl : existing = none := by simpa using absent
        have dir := wellFormed.directories _ _ _ walked
        rcases createNew_failed outcome with ⟨full, rfl⟩ | ⟨room, noPlace, rfl⟩
        · refine Or.inl ⟨moved_disk moved, ?_⟩
          rintro ⟨-, other, walked', -, free, -⟩
          rw [same other walked'] at free
          exact free full
        · obtain ⟨d, p, rfl⟩ := moved
          have placed : WellPlaced (enter v d p) := ⟨wellFormed.placed.root, wellFormed.placed.data,
            wellFormed.placed.onDisk, wellFormed.placed.noWrap⟩
          rw [storedDir_slots placed wellFormed.table wellFormed.clusters room dir] at noPlace
          exact Or.inr ⟨⟨some, _, walked, looked, room, noPlace⟩, _, ⟨d, p, rfl⟩, room, rfl⟩

/-- What a call that succeeds has done. -/
theorem createDir_succeeded (ran : fat16CreateDir fuel v name = some (0, w)) : ∃ parent u,
    fat16Chdir fuel v (orRoot (directoryOf (absolutePath v name))) = some (0, parent) ∧
    (baseOf (absolutePath v name)).length < 64 ∧ findFreeCluster parent ≠ 0xFFFF ∧
    addDirEntry (storedDir parent) (baseOf (absolutePath v name)) 0x10 (findFreeCluster parent) 0 = some u ∧
    Moved u w := by
  unfold fat16CreateDir at ran
  dsimp only at ran
  split at ran
  · cases ran
  · split at ran
    · cases ran
    · rename_i short
      obtain ⟨⟨result, created⟩, inside, ran⟩ := Option.bind_eq_some_iff.mp ran
      obtain ⟨⟨code, left⟩, back, same⟩ := Option.bind_eq_some_iff.mp ran
      obtain ⟨rfl, rfl⟩ := Prod.mk.inj (Option.some.inj same)
      unfold createIn at inside
      split at inside
      · cases inside
      · obtain ⟨⟨code', parent⟩, walked, inside⟩ := Option.bind_eq_some_iff.mp inside
        dsimp only at inside
        split at inside
        · cases inside
        · rename_i entered
          obtain rfl := not_not.mp entered
          obtain ⟨existing, -, outcome⟩ := Option.bind_eq_some_iff.mp inside
          simp only [Option.pure_def, Option.some.injEq] at outcome
          split at outcome
          · exact absurd (Prod.mk.inj outcome).1 (by decide)
          · rw [createNew_stages] at outcome
            split at outcome
            · exact absurd (Prod.mk.inj outcome).1 (by decide)
            · rename_i room
              split at outcome
              · exact absurd (Prod.mk.inj outcome).1 (by decide)
              · rename_i u added
                obtain rfl := (Prod.mk.inj outcome).2
                exact ⟨parent, _, walked, by omega, room, added, fat16Chdir_moved back⟩

/-- A failed `fat16_create_dir` leaves tables and directories as they were if and only if
the directory it goes to was not full. -/
theorem createDir_unchanged_iff (wellFormed : WellFormed v) (ran : fat16CreateDir fuel v name = some (-1, w)) :
    Unchanged v w ↔ ¬ ParentFull fuel v name := by
  unfold fat16CreateDir at ran
  dsimp only at ran
  split at ran
  · rename_i refused
    obtain rfl := (Prod.mk.inj (Option.some.inj ran)).2
    refine iff_of_true (unchanged_of_disk rfl) ?_
    rintro ⟨mounted, some, -⟩
    rcases refused with unmounted | empty
    · rw [mounted] at unmounted
      cases unmounted
    · exact some empty
  · rename_i accepted
    obtain ⟨mounted, some⟩ := not_or.mp accepted
    split at ran
    · cases ran
    · obtain ⟨⟨result, created⟩, inside, ran⟩ := Option.bind_eq_some_iff.mp ran
      obtain ⟨⟨code, left⟩, back, same⟩ := Option.bind_eq_some_iff.mp ran
      obtain ⟨rfl, rfl⟩ := Prod.mk.inj (Option.some.inj same)
      have disk := moved_disk (fat16Chdir_moved back)
      rcases createIn_failed wellFormed inside with ⟨kept, notFull⟩ | ⟨full, parent, ⟨d, p, rfl⟩, room, rfl⟩
      · exact iff_of_true (unchanged_of_disk (disk.trans kept)) fun parentFull => notFull parentFull.2.2
      · refine iff_of_false ?_ (not_not.mpr ⟨by simpa using mounted, some, full⟩)
        have placed : WellPlaced (enter v d p) := ⟨wellFormed.placed.root, wellFormed.placed.data,
          wellFormed.placed.onDisk, wellFormed.placed.noWrap⟩
        obtain ⟨inTable, free, taken⟩ := storedDir_taken placed wellFormed.table wellFormed.clusters room
        refine changed_of_entry wellFormed.placed inTable free ?_
        have entry : getFatEntry { v with disk := left.disk } (findFreeCluster (enter v d p)) =
            getFatEntry (storedDir (enter v d p)) (findFreeCluster (enter v d p)) := by
          unfold getFatEntry
          rw [storedDir_fs, disk]
          rfl
        rw [entry, taken]
        decide

/-! ## A new file -/

/-- A `fat16_write_file` that finds no place for the entry has claimed a cluster. -/
theorem writeFile_changed {data : Mem} {size : Nat} (wellFormed : WellFormed v)
    (ran : fat16WriteFile fuel v name data size = some w)
    (unplaced : Unplaced fuel v name data size) : ¬ Unchanged v w := by
  obtain ⟨entered, base, prologue, noPlace⟩ := unplaced
  unfold fat16WriteFile at ran
  obtain ⟨⟨entered', base'⟩, prologue', ran⟩ := Option.bind_eq_some_iff.mp ran
  obtain ⟨rfl, rfl⟩ := Prod.mk.inj (Option.some.inj (prologue'.symm.trans prologue))
  obtain ⟨written, wrote, left⟩ := Option.bind_eq_some_iff.mp ran
  obtain ⟨d, p, rfl⟩ := enterPath_moved prologue
  have placed : WellPlaced (enter v d p) := ⟨wellFormed.placed.root, wellFormed.placed.data,
    wellFormed.placed.onDisk, wellFormed.placed.noWrap⟩
  obtain ⟨room, result⟩ := writeNew_stages wrote
  obtain ⟨-, inTable, free, taken⟩ := storedData_taken data placed wellFormed.table room (writeNew_sized wrote)
  rw [noPlace, Option.getD_none] at result
  refine changed_of_entry wellFormed.placed inTable free ?_
  have entry : getFatEntry { v with disk := w.disk } (findFreeCluster (enter v d p)) =
      getFatEntry (storedData (enter v d p) data size) (findFreeCluster (enter v d p)) := by
    unfold getFatEntry
    rw [storedData_fs, moved_disk (leavePath_moved left), result]
    rfl
  rw [entry]
  exact taken

/-- When failed creations leave tables and directories as they were. -/
theorem failed_creation_unchanged_iff (wellFormed : WellFormed v) :
    (∀ fuel name w, fat16CreateDir fuel v name = some (-1, w) → (Unchanged v w ↔ ¬ ParentFull fuel v name)) ∧
      ∀ fuel name data size w, fat16WriteFile fuel v name data size = some w →
      Unplaced fuel v name data size → ¬ Unchanged v w :=
  ⟨fun _ _ _ ran => createDir_unchanged_iff wellFormed ran, fun _ _ _ _ _ ran unplaced =>
    writeFile_changed wellFormed ran unplaced⟩

end

/-! ## A full root -/

/-- Sixteen files, `A` to `P`. -/
def fullSector : Sector := fun o =>
  if o % 32 = 0 then UInt8.ofNat (0x41 + o / 32) else if o % 32 < 11 then 0x20 else if o % 32 = 11 then 0x20 else 0

/-- One reserved sector, two tables of one sector, a root of one sector. -/
def fullVolume : Volume where
  fs :=
    { isMounted := true, rootDirLba := 3, rootDirSectors := 1, dataRegionLba := 4, sectorsPerFat := 1,
      sectorsPerCluster := 1
      reservedSectors := 1, currentDirCluster := 0, currentPath := rootPath }
  disk := ⟨64, fun lba => if lba = 3 then fullSector else fun _ => 0⟩

theorem walkTokens_root {v orig s : Volume} {fuel : Nat} {path : CString} {toks : List CString}
    (files : ∀ name e, Finds v 0 name e → isDirectory e = false)
    (walked : walkTokens fuel orig (enter v 0 path) toks = some (0, s)) : s.fs.currentDirCluster = 0 := by
  induction toks generalizing path with
  | nil =>
    obtain ⟨-, rfl⟩ := Prod.mk.inj (Option.some.inj walked)
    rfl
  | cons token rest ih =>
    rw [walkTokens] at walked
    split at walked
    · exact ih walked
    · split at walked
      · rw [if_neg (show ¬ (enter v 0 path).fs.currentDirCluster ≠ 0 from not_not.mpr rfl)] at walked
        exact ih walked
      · split at walked
        · cases walked
        · cases walked
        · rename_i e found
          rw [files token e ⟨fuel, path, found⟩, if_neg (by simp)] at walked
          cases walked

/-- A volume at its root, with no directory in it. -/
theorem wellFormed_files {v : Volume} (placed : WellPlaced v) (table : v.fs.sectorsPerFat ≤ 256)
    (clusters : 0 < v.fs.sectorsPerCluster)
    (root : v.fs.currentDirCluster = 0) (files : ∀ visit ∈ (visits 0 Scan.initial (slotsOf v 0)).1,
    isDirectory visit.slot = false) :
    WellFormed v where
  placed := placed
  table := table
  clusters := clusters
  directories := by
    have found : ∀ name e, Finds v 0 name e → isDirectory e = false := by
      rintro name e ⟨fuel, path, found⟩
      unfold findEntryInCurrentDir at found
      rw [if_pos (show (enter v 0 path).fs.currentDirCluster = 0 from rfl)] at found
      obtain ⟨visit, target, rfl⟩ := Option.map_eq_some_iff.mp (Option.some.inj found)
      exact files visit (List.mem_of_find?_eq_some target)
    have here : enter v 0 v.fs.currentPath = v := by
      rw [← root]
      rfl
    intro fuel path w ran
    refine Or.inl ?_
    unfold fat16Chdir at ran
    split at ran
    · cases ran
    · split at ran
      · cases ran
      · dsimp only at ran
        split at ran
        · exact walkTokens_root found ran
        · have fromRoot : walkTokens fuel v (enter v 0 v.fs.currentPath) (tokens path) = some (0, w) := by
            rw [here]
            exact ran
          exact walkTokens_root found fromRoot

theorem fullVolume_wellFormed : WellFormed fullVolume :=
  wellFormed_files ⟨rfl, rfl, by decide, by decide⟩ (by decide) (by decide) rfl (by decide +kernel)

theorem fullVolume_createDir : ∃ w, fat16CreateDir 0 fullVolume [0x51] = some (-1, w) ∧
    getFatEntry { fullVolume with disk := w.disk } 2 = 0xFFFF := by
  have outcome : (fat16CreateDir 0 fullVolume [0x51]).map (fun result =>
      (result.1, getFatEntry { fullVolume with disk := result.2.disk } 2)) =
      some (-1, 0xFFFF) := by decide +kernel
  obtain ⟨⟨code, w⟩, ran, same⟩ := Option.map_eq_some_iff.mp outcome
  obtain ⟨rfl, taken⟩ := Prod.mk.inj same
  exact ⟨w, ran, taken⟩

theorem fullVolume_unplaced : Unplaced 0 fullVolume [0x51] (fun _ => 0) 1 ∧
    ∃ w, fat16WriteFile 0 fullVolume [0x51] (fun _ => 0) 1 = some w := by
  have outcome : (enterPath 0 fullVolume [0x51]).map (fun entered =>
      (addDirEntry (storedData entered.1 (fun _ => 0) 1) entered.2 0x20 (findFreeCluster entered.1) 1).isNone) =
      some true := by decide +kernel
  obtain ⟨⟨entered, base⟩, ran, none⟩ := Option.map_eq_some_iff.mp outcome
  exact ⟨⟨entered, base, ran, Option.isNone_iff_eq_none.mp none⟩,
    Option.isSome_iff_exists.mp (by decide +kernel)⟩

/-- `mkdir A` where `A` is there, `mkdir Q` and a file `Q` in the full root. -/
theorem failed_creation_unchanged_iff_full :
    (∃ w, fat16CreateDir 0 fullVolume [0x41] = some (-1, w) ∧
      (Unchanged fullVolume w ↔ ¬ ParentFull 0 fullVolume [0x41])) ∧
    (∃ w, fat16CreateDir 0 fullVolume [0x51] = some (-1, w) ∧
      (Unchanged fullVolume w ↔ ¬ ParentFull 0 fullVolume [0x51])) ∧
    ∃ w, fat16WriteFile 0 fullVolume [0x51] (fun _ => 0) 1 = some w ∧
    Unplaced 0 fullVolume [0x51] (fun _ => 0) 1 ∧
      ¬ Unchanged fullVolume w := by
  obtain ⟨created, written⟩ := failed_creation_unchanged_iff fullVolume_wellFormed
  have outcome : (fat16CreateDir 0 fullVolume [0x41]).map Prod.fst = some (-1) := by decide +kernel
  obtain ⟨⟨code, w⟩, ran, rfl⟩ := Option.map_eq_some_iff.mp outcome
  obtain ⟨w', ran', -⟩ := fullVolume_createDir
  obtain ⟨unplaced, w'', ran''⟩ := fullVolume_unplaced
  exact ⟨⟨w, ran, created _ _ _ ran⟩, ⟨w', ran', created _ _ _ ran'⟩,
    w'', ran'', unplaced, written _ _ _ _ _ ran'' unplaced⟩

/-- `mkdir Q` fails and leaves cluster 2 claimed. -/
theorem cluster_stays_claimed : WellFormed fullVolume ∧ ∃ w, fat16CreateDir 0 fullVolume [0x51] =
    some (-1, w) ∧ ¬ Unchanged fullVolume w := by
  obtain ⟨w, ran, taken⟩ := fullVolume_createDir
  refine ⟨fullVolume_wellFormed, w, ran,
    changed_of_entry fullVolume_wellFormed.placed (c := 2) ?_ (by decide +kernel) ?_⟩
  · exact ⟨by decide, by decide⟩
  · rw [taken]
    decide

end MeowMeowOS.FailedCreations

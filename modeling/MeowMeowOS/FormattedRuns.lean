import MeowMeowOS.VolumeRuns
import MeowMeowOS.Fat16Entries

/-! The layout of a formatted disk through any run of calls: nothing writes in
front of the tables, so the parameter block is read back at every mount. -/
namespace MeowMeowOS.FormattedRuns
open ByteMemory Fat16Disk Fat16Names Fat16Directory Fat16Paths Fat16Files Fat16Format
open Fat16Chains Fat16Entries VolumeRuns

/-- What mounting a disk reads that was formatted for so many sectors. -/
def formattedFs (totalSectors : Nat) : FsState where
  isMounted := true
  rootDirLba := 256 + 2 * fatSectorsFor totalSectors
  rootDirSectors := 32
  dataRegionLba := 288 + 2 * fatSectorsFor totalSectors
  sectorsPerFat := fatSectorsFor totalSectors
  sectorsPerCluster := 32
  reservedSectors := 256
  currentDirCluster := 0
  currentPath := rootPath

/-- The volume has the layout of a disk formatted for `n` sectors. -/
structure LaidFor (n : Nat) (v : Volume) : Prop where
  fs : { v.fs with currentDirCluster := 0, currentPath := rootPath } = formattedFs n
  cluster : v.fs.currentDirCluster < 2 ^ 16

/-- The parameter block of a disk formatted for `n` sectors. -/
def BootFor (n : Nat) (d : Disk) : Prop := ∃ b, kdiskReadSector d 0 = bootSector b n

/-- A volume as formatting and mounting lay it out, formatted again perhaps. -/
structure Laid (v : Volume) : Prop where
  present : 0 < v.disk.total
  layout : ∃ n ≤ v.disk.total, LaidFor n v
  boot : ∃ n ≤ v.disk.total, BootFor n v.disk

/-! ## The parameter block -/

theorem bootSector_fields (b : Sector) (n : Nat) :
    bytesPerSector (bootSector b n) = 512 ∧ fatCount (bootSector b n) = 2 ∧
      mountedFs (bootSector b n) = formattedFs n := by
  have small : fatSectorsFor n < 2 ^ 16 := Nat.mod_lt _ (by decide)
  have label : volumeLabel.length = 11 := by decide
  have type : fsType.length = 8 := by decide
  unfold mountedFs formattedFs
  unfold bytesPerSector fatCount sectorsPerFatOf sectorsPerClusterOf reservedSectorsOf rootDirEntries bootSector
  generalize volumeLabel = label' at label ⊢
  generalize fsType = type' at type ⊢
  simp [readHalf, writeBytes, writeHalf, writeByte, writeWord, label, type, rootPath, slash]
  omega

/-- Mounting a formatted disk finds its parameters. -/
theorem initialize_boot (boot : BootFor n v.disk) (ran : fat16Initialize fuel junk v = some v') :
    v' = { v with fs := formattedFs n } := by
  obtain ⟨b, sector⟩ := boot
  obtain ⟨bytes, fats, fs⟩ := bootSector_fields b n
  unfold fat16Initialize at ran
  dsimp only at ran
  rw [sector, bytes, fats, fs, if_neg (by decide)] at ran
  exact (Option.some.inj ran).symm

/-! ## Writes behind the parameter block -/

/-- Sector 0 is as it was. -/
structure BootKept (d d' : Disk) : Prop where
  total : d'.total = d.total
  boot : kdiskReadSector d' 0 = kdiskReadSector d 0

theorem bootKept_refl (d : Disk) : BootKept d d := ⟨rfl, rfl⟩

theorem bootKept_trans (first : BootKept a b) (second : BootKept b c) : BootKept a c :=
  ⟨second.total.trans first.total, second.boot.trans first.boot⟩

theorem bootKept_write (d : Disk) (buf : Sector) (positive : 0 < a) (small : a < 2 ^ 23) :
    BootKept d (kdiskWriteSector d a buf) := by
  refine ⟨kdiskWrite_total _ _ _, ?_⟩
  rw [kdiskRead_write, if_neg]
  rintro ⟨same, -⟩
  rw [Nat.mod_eq_of_lt small] at same
  omega

/-- A loop whose every round keeps sector 0. -/
theorem bootKept_foldl {list : List Nat} (step : Disk → Nat → Disk)
    (each : ∀ d, ∀ i ∈ list, BootKept d (step d i))
    (d : Disk) : BootKept d (list.foldl step d) := by
  induction list generalizing d with
  | nil => exact bootKept_refl d
  | cons i rest ih =>
    rw [List.foldl_cons]
    apply bootKept_trans (each d i List.mem_cons_self)
    exact ih (fun d j member => each d j (List.mem_cons_of_mem _ member)) _

theorem bootKept_modifySlot (d : Disk) (f : Slot → Slot) (positive : 0 < slba) (small : slba + p / 16 < 2 ^ 23) :
    BootKept d (modifySlot d slba p f) :=
  bootKept_write _ _ (Nat.lt_of_lt_of_le positive (Nat.le_add_right _ _)) small

theorem bootKept_writeSlots (d : Disk) (entries : List Slot) (positive : 0 < slba)
    (small : slba + (p + entries.length) / 16 < 2 ^ 23) : BootKept d (writeSlots d slba p entries) := by
  induction entries generalizing d p with
  | nil => exact bootKept_refl d
  | cons e rest ih =>
    rw [List.length_cons] at small
    rw [writeSlots]
    exact bootKept_trans (bootKept_modifySlot d _ positive (by omega)) (ih (p := p + 1) _ (by omega))

theorem bootKept_marks (d : Disk) (positive : 0 < slba) (order : first ≤ last) (small : slba + last / 16 < 2 ^ 23) :
    BootKept d (markEntriesDeleted d slba first last) := by
  apply bootKept_foldl
  intro d i member
  have inside := List.mem_range.mp member
  exact bootKept_modifySlot d _ positive (by omega)

section Layout
variable {v v' : Volume} {n c : Nat}

/-- The numbers of the layout. -/
theorem laidFor_fields (laid : LaidFor n v) : v.fs.sectorsPerFat = fatSectorsFor n ∧
    v.fs.rootDirLba = 256 + 2 * fatSectorsFor n ∧ v.fs.rootDirSectors = 32 ∧
    v.fs.dataRegionLba = 288 + 2 * fatSectorsFor n ∧ v.fs.sectorsPerCluster = 32 ∧
    v.fs.reservedSectors = 256 ∧ fatSectorsFor n < 2 ^ 16 := by
  have same := laid.fs
  unfold formattedFs at same
  rw [FsState.mk.injEq] at same
  obtain ⟨-, root, rootSize, data, spf, spc, reserved, -, -⟩ := same
  exact ⟨spf, root, rootSize, data, spc, reserved, Nat.mod_lt _ (by decide)⟩

theorem laidFor_of_fs (laid : LaidFor n v) (fs : v'.fs = v.fs) : LaidFor n v' := by
  refine ⟨?_, ?_⟩
  · rw [fs]
    exact laid.fs
  · rw [fs]
    exact laid.cluster

theorem laid_kept (laid : Laid v) (fs : v'.fs = v.fs) (kept : BootKept v.disk v'.disk) : Laid v' := by
  obtain ⟨present, ⟨n, le, layout⟩, ⟨m, le', b, boot⟩⟩ := laid
  refine ⟨kept.total ▸ present, ⟨n, kept.total ▸ le, laidFor_of_fs layout fs⟩,
    ⟨m, kept.total ▸ le', b, ?_⟩⟩
  rw [kept.boot, boot]

/-- The sectors of a cluster number of 16 bits lie in front of the wrap. -/
theorem clusterLba_low (laid : LaidFor n v) (small : c < 2 ^ 16) :
    0 < clusterLba v.fs c ∧ clusterLba v.fs c + 33 < 2 ^ 23 := by
  obtain ⟨-, -, -, data, spc, -, bound⟩ := laidFor_fields laid
  have shift : 288 + 2 * fatSectorsFor n + (c + 2 ^ 32 - 2) * 32 =
      224 + 2 * fatSectorsFor n + c * 32 + 2 ^ 32 * 32 := by omega
  rw [clusterLba, data, spc, shift, Nat.add_mul_mod_self_left, Nat.mod_eq_of_lt (by omega)]
  omega

theorem directory_low (laid : LaidFor n v) (small : c < 2 ^ 16) :
    0 < dirStart v.fs c ∧ dirStart v.fs c + 33 < 2 ^ 23 ∧ dirLength v.fs c = 512 := by
  obtain ⟨-, root, rootSize, -, spc, -, bound⟩ := laidFor_fields laid
  have lba := clusterLba_low laid small
  rw [dirStart, dirLength, dirSectors]
  by_cases atRoot : c = 0
  · rw [if_pos atRoot, if_pos atRoot]
    omega
  · rw [if_neg atRoot, if_neg atRoot]
    omega

theorem setFatEntry_bootKept (laid : LaidFor n v) (small : c < 2 ^ 16) (x : Nat) :
    BootKept v.disk (setFatEntry v c x).disk := by
  obtain ⟨spf, -, -, -, -, reserved, bound⟩ := laidFor_fields laid
  unfold setFatEntry
  dsimp only
  refine bootKept_trans (bootKept_write _ _ ?_ ?_) (bootKept_write _ _ ?_ ?_)
  all_goals omega

theorem findFreeCluster_lt (v : Volume) : findFreeCluster v < 2 ^ 16 := by
  unfold findFreeCluster
  split
  · exact Nat.mod_lt _ (by decide)
  · decide

theorem writeCluster_bootKept (laid : LaidFor n v) (small : c < 2 ^ 16) (data : Mem) (size i : Nat) :
    BootKept v.disk (writeCluster v data size i c).disk := by
  obtain ⟨positive, bound⟩ := clusterLba_low laid small
  have spc := (laidFor_fields laid).2.2.2.2.1
  apply bootKept_foldl
  intro d s member
  have inside := List.mem_range.mp member
  rw [spc] at inside
  dsimp only
  split
  · exact bootKept_write _ _ (by omega) (by omega)
  · exact bootKept_refl d

theorem writeClusters_bootKept (laid : LaidFor n v) (small : c < 2 ^ 16) (data : Mem) (size remaining i : Nat) :
    BootKept v.disk (writeClusters data size remaining i c v).disk := by
  induction remaining generalizing v i c with
  | zero => exact bootKept_refl _
  | succ remaining ih =>
    have wrote := writeCluster_bootKept laid small data size i
    simp only [writeClusters]
    split
    · exact wrote
    · apply bootKept_trans wrote
      have laid1 : LaidFor n (writeCluster v data size i c) := laidFor_of_fs laid rfl
      generalize writeCluster v data size i c = v1 at laid1
      have next := findFreeCluster_lt v1
      apply bootKept_trans (setFatEntry_bootKept laid1 small (findFreeCluster v1))
      have laid2 : LaidFor n (setFatEntry v1 c (findFreeCluster v1)) := laidFor_of_fs laid1 rfl
      apply bootKept_trans (setFatEntry_bootKept laid2 next 0xFFFF)
      exact ih (v := setFatEntry (setFatEntry v1 c (findFreeCluster v1)) (findFreeCluster v1) 0xFFFF)
        (laidFor_of_fs laid2 rfl) next _

theorem writeNewDir_bootKept (laid : LaidFor n v) (small : c < 2 ^ 16) :
    BootKept v.disk (writeNewDir v c).disk := by
  obtain ⟨positive, bound⟩ := clusterLba_low laid small
  unfold writeNewDir
  exact bootKept_write _ _ positive (by omega)

theorem addDirEntry_bootKept (laid : LaidFor n v) (added : addDirEntry v base attr cluster size = some v') :
    v'.fs = v.fs ∧ BootKept v.disk v'.disk := by
  obtain ⟨positive, bound, length⟩ := directory_low laid laid.cluster
  unfold addDirEntry at added
  obtain ⟨start, found, rfl⟩ := Option.map_eq_some_iff.mp added
  have fits := (findFreeSlots_free found).1
  rw [length] at fits
  exact ⟨rfl, bootKept_writeSlots _ _ positive (by omega)⟩

theorem freeChain_bootKept (laid : LaidFor n v) (small : c < 2 ^ 16) (ran : freeChain fuel v c = some v') :
    v'.fs = v.fs ∧ BootKept v.disk v'.disk := by
  induction fuel generalizing v c with
  | zero => cases ran
  | succ fuel ih =>
    rw [freeChain] at ran
    split at ran
    · obtain ⟨fs, kept⟩ := ih (v := setFatEntry v c 0x0000) (laidFor_of_fs laid rfl) (getFatEntry_lt v c) ran
      exact ⟨fs, bootKept_trans (setFatEntry_bootKept laid small 0x0000) kept⟩
    · cases ran
      exact ⟨rfl, bootKept_refl _⟩

end Layout

/-! ## The calls -/

/-- The volumes of a disk that is formatted, mounted and used. The first format
has no system directory to keep; later ones are calls like any other. -/
inductive Reached : Volume → Prop
  | mounted {fuel fuel' maxSectors : Nat} {junk junk' : HeapJunk} {v w u : Volume} {preserveSystem : Bool}
      (present : 0 < v.disk.total) (fresh : systemCluster v preserveSystem = none)
      (formatted : fat16FormatDrive fuel junk v maxSectors preserveSystem = some w)
      (mounted : fat16Initialize fuel' junk' w = some u) : Reached u
  | call {fuel : Nat} {call : Call} {v w : Volume} (reached : Reached v) (ran : Call.run fuel v call = some w) :
      Reached w

section Calls
variable {v v' : Volume}

theorem laid_moves : KeptByMoves Laid where
  root := by
    rintro v ⟨present, ⟨n, le, fs, -⟩, boot⟩
    exact ⟨present, ⟨n, le, fs, Nat.two_pow_pos 16⟩, boot⟩
  below := by
    rintro v e path ⟨present, ⟨n, le, fs, -⟩, boot⟩
    exact ⟨present, ⟨n, le, fs, readHalf_lt _ _⟩, boot⟩

theorem storedData_bootKept (laid : LaidFor n v) (data : Mem) (size : Nat) :
    BootKept v.disk (storedData v data size).disk := by
  have first := findFreeCluster_lt v
  apply bootKept_trans (setFatEntry_bootKept laid first 0xFFFF)
  have laid1 : LaidFor n (setFatEntry v (findFreeCluster v) 0xFFFF) := laidFor_of_fs laid rfl
  exact writeClusters_bootKept laid1 first data size _ 0

theorem laid_stored (laid : Laid v) (data : Mem) (size : Nat) : Laid (storedData v data size) := by
  obtain ⟨n, -, layout⟩ := laid.layout
  exact laid_kept laid (storedData_fs v data size) (storedData_bootKept layout data size)

/-- An entry is added, if there is room for it. -/
theorem laid_added (laid : Laid v) (base : CString) (attr : UInt8) (cluster size : Nat) :
    Laid ((addDirEntry v base attr cluster size).getD v) := by
  obtain ⟨n, -, layout⟩ := laid.layout
  cases added : addDirEntry v base attr cluster size with
  | none => exact laid
  | some w =>
    obtain ⟨fs, kept⟩ := addDirEntry_bootKept layout added
    exact laid_kept laid fs kept

theorem laid_writes (laid : Laid v) (ran : writeNew v base data size = some v') : Laid v' := by
  have added := laid_added (laid_stored laid data size) base 0x20 (findFreeCluster v) size
  rw [(writeNew_stages ran).2]
  exact added

theorem storedDir_bootKept (laid : LaidFor n v) : BootKept v.disk (storedDir v).disk := by
  have first := findFreeCluster_lt v
  have laid1 : LaidFor n (setFatEntry v (findFreeCluster v) 0xFFFF) := laidFor_of_fs laid (setFatEntry_fs _ _ _)
  have wrote := writeNewDir_bootKept laid1 first
  unfold storedDir
  exact bootKept_trans (setFatEntry_bootKept laid first 0xFFFF) wrote

theorem laid_storedDir (laid : Laid v) : Laid (storedDir v) := by
  obtain ⟨n, -, layout⟩ := laid.layout
  exact laid_kept laid (storedDir_fs v) (storedDir_bootKept layout)

theorem laid_creates (laid : Laid v) (base : CString) : Laid (createNew v base).2 := by
  have stored := laid_storedDir laid
  rw [createNew_stages]
  generalize storedDir v = w at stored
  have added := laid_added stored base 0x10 (findFreeCluster v) 0
  split
  · exact laid
  · cases outcome : addDirEntry w base 0x10 (findFreeCluster v) 0 with
    | none => exact stored
    | some u =>
      rw [outcome] at added
      exact added

theorem laid_removes (laid : Laid v)
    (member : visit ∈ (visits 0 Scan.initial (slotsOf v v.fs.currentDirCluster)).1)
    (ran : removeEntry fuel v visit = some v') : Laid v' := by
  obtain ⟨n, -, layout⟩ := laid.layout
  obtain ⟨positive, bound, length⟩ := directory_low layout layout.cluster
  obtain ⟨order, fits⟩ := visit_run member
  rw [length] at fits
  have marked := bootKept_marks v.disk positive order (by omega)
  unfold removeEntry at ran
  dsimp only at ran
  generalize markEntriesDeleted v.disk (dirStart v.fs v.fs.currentDirCluster)
    (visit.lfnStart.getD visit.position) visit.position = d at ran marked
  have layout1 : LaidFor n { v with disk := d } := laidFor_of_fs layout rfl
  obtain ⟨fs, freed⟩ := freeChain_bootKept layout1 (readHalf_lt _ _) ran
  exact laid_kept laid fs (bootKept_trans marked freed)

theorem laid_changes : KeptByChanges Laid where
  moves := laid_moves
  writes := fun _ _ _ _ _ laid ran => laid_writes laid ran
  creates := fun _ base laid => laid_creates laid base
  removes := fun _ _ _ _ laid member ran => laid_removes laid member ran

/-- Behind the parameter block nothing of the empty volume reaches sector 0. -/
theorem writeTables_bootKept (d : Disk) (small : spf < 2 ^ 16) (entry : Nat → Nat) :
    BootKept d (writeTables d spf entry) := by
  apply bootKept_foldl
  intro d s member
  have inside := List.mem_range.mp member
  exact bootKept_trans (bootKept_write _ _ (by omega) (by omega)) (bootKept_write _ _ (by omega) (by omega))

theorem clearRoot_bootKept (d : Disk) (positive : 0 < lba) (small : lba + 32 < 2 ^ 23) :
    BootKept d (clearRoot d lba) := by
  apply bootKept_foldl
  intro d i member
  have inside := List.mem_range.mp member
  exact bootKept_write _ _ (by omega) (by omega)

/-- Writing the empty volume stores its parameter block. -/
theorem writeEmpty_boot (present : 0 < d.total) (n : Nat) (entry : Nat → Nat) :
    (writeEmpty d n entry).total = d.total ∧ BootFor n (writeEmpty d n entry) := by
  have small : fatSectorsFor n < 2 ^ 16 := Nat.mod_lt _ (by decide)
  unfold writeEmpty BootFor
  dsimp only
  generalize kdiskReadSector d 0 = b
  have stored : kdiskReadSector (kdiskWriteSector d 0 (bootSector b n)) 0 = bootSector b n := by
    generalize bootSector b n = boot
    rw [kdiskRead_write, if_pos ⟨rfl, present⟩]
  have same : (kdiskWriteSector d 0 (bootSector b n)).total = d.total := kdiskWrite_total _ _ _
  generalize kdiskWriteSector d 0 (bootSector b n) = booted at stored same
  generalize fatSectorsFor n = spf at small
  have tables := writeTables_bootKept booted small entry
  have root := clearRoot_bootKept (writeTables booted spf entry) (show 0 < 256 + 2 * spf by omega) (by omega)
  have kept := bootKept_trans tables root
  exact ⟨kept.total.trans same, b, kept.boot.trans stored⟩

/-- `total_sectors` of a format -/
def formattedSectors (v : Volume) (maxSectors : Nat) : Nat :=
  if maxSectors = 0 ∨ v.disk.total < maxSectors then v.disk.total else maxSectors

theorem formattedSectors_le (v : Volume) (maxSectors : Nat) : formattedSectors v maxSectors ≤ v.disk.total := by
  unfold formattedSectors
  split
  · exact Nat.le_refl _
  · omega

theorem format_fresh (fresh : systemCluster v preserveSystem = none) :
    fat16FormatDrive fuel junk v maxSectors preserveSystem = some { v with
      disk := writeEmpty v.disk (formattedSectors v maxSectors) (newEntry junk (oldFatOf v junk) none) } := by
  unfold fat16FormatDrive
  rw [fresh]
  rfl

/-- A format leaves a parameter block for at most the whole disk; the state of
the driver stays. -/
theorem format_boot (present : 0 < v.disk.total) (fresh : systemCluster v preserveSystem = none)
    (ran : fat16FormatDrive fuel junk v maxSectors preserveSystem = some v') :
    v'.fs = v.fs ∧ v'.disk.total = v.disk.total ∧ ∃ n ≤ v.disk.total, BootFor n v'.disk := by
  rw [format_fresh fresh] at ran
  obtain ⟨total, boot⟩ :=
    writeEmpty_boot present (formattedSectors v maxSectors) (newEntry junk (oldFatOf v junk) none)
  generalize writeEmpty v.disk (formattedSectors v maxSectors) (newEntry junk (oldFatOf v junk) none) =
    d at ran total boot
  cases ran
  exact ⟨rfl, total, _, formattedSectors_le v maxSectors, boot⟩

theorem laid_emptied (laid : Laid v) (le : n ≤ v.disk.total) (entry : Nat → Nat) :
    Laid { v with disk := writeEmpty v.disk n entry } := by
  obtain ⟨present, ⟨k, small, layout⟩, -⟩ := laid
  obtain ⟨total, boot⟩ := writeEmpty_boot present n entry
  generalize writeEmpty v.disk n entry = d at total boot
  refine ⟨?_, ⟨k, ?_, laidFor_of_fs layout rfl⟩, ⟨n, ?_, boot⟩⟩
  all_goals
    dsimp only
    omega

theorem laid_formats (laid : Laid v) (ran : fat16FormatDrive fuel junk v maxSectors preserveSystem = some v') :
    Laid v' := by
  have emptied := laid_emptied laid (formattedSectors_le v maxSectors)
  cases kept : systemCluster v preserveSystem with
  | none =>
    rw [format_fresh kept] at ran
    have laid' := emptied (newEntry junk (oldFatOf v junk) none)
    generalize writeEmpty v.disk (formattedSectors v maxSectors) (newEntry junk (oldFatOf v junk) none) = d at ran laid'
    cases ran
    exact laid'
  | some start =>
    unfold fat16FormatDrive at ran
    rw [kept] at ran
    dsimp only at ran
    split at ran
    · cases ran
    · obtain ⟨flags, -, same⟩ := Option.map_eq_some_iff.mp ran
      have laid' := emptied (newEntry junk (oldFatOf v junk) (some flags))
      unfold formattedSectors at laid'
      generalize writeEmpty _ _ _ = d at same laid'
      rw [← same]
      split
      · exact laid_added laid' system 0x10 start 0
      · exact laid'

theorem laid_mounts (laid : Laid v) (ran : fat16Initialize fuel junk v = some v') : Laid v' := by
  obtain ⟨present, -, ⟨n, le, boot⟩⟩ := laid
  rw [initialize_boot boot ran]
  exact ⟨present, ⟨n, le, rfl, Nat.two_pow_pos 16⟩, ⟨n, le, boot⟩⟩

theorem reached_laid (reached : Reached v) : Laid v := by
  induction reached with
  | mounted present fresh formatted mounted =>
    obtain ⟨-, total, n, le, boot⟩ := format_boot present fresh formatted
    rw [initialize_boot boot mounted]
    rw [← total] at present le
    exact ⟨present, ⟨n, le, rfl, Nat.two_pow_pos 16⟩, ⟨n, le, boot⟩⟩
  | call reached ran laid =>
    exact call_keeps laid_changes (fun _ _ _ _ _ _ laid ran => laid_formats laid ran)
      (fun _ _ _ _ laid ran => laid_mounts laid ran) laid _ ran

end Calls

end MeowMeowOS.FormattedRuns

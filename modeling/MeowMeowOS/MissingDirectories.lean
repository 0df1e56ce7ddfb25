import MeowMeowOS.Fat16Entries
import MeowMeowOS.VolumeRuns

/-! The operations on a qualified name whose directory does not exist. None of
them asks whether `fat16_chdir` succeeded, so all five go on in the current
directory, where another entry may carry the base name. -/
namespace MeowMeowOS.MissingDirectories
open ByteMemory Fat16Disk Fat16Names Fat16Directory Fat16Paths Fat16Files
open Fat16Geometry Fat16Scan Fat16Walks Fat16Chains Fat16Entries VolumeRuns

/-- A volume as formatting lays it out, whose links and whose entries in the
current directory stay inside the table. -/
structure Regular (v : Volume) : Prop where
  placed : WellPlaced v
  table : v.fs.sectorsPerFat ≤ 256
  dir : DirPlaced v v.fs.currentDirCluster
  links : LinksInTable v
  entries : ∀ k, Live v v.fs.currentDirCluster k →
    let c := clusterLow (dirSlot v.disk (dirStart v.fs v.fs.currentDirCluster) k)
    InChain c → InTable v c

section Missing
variable {fuel : Nat} {v v' v1 : Volume} {d b : CString}

/-- The prologue goes on with the base name where it was. -/
theorem enterPath_missing (mounted : v.fs.isMounted = true) (plain : slash ∉ b)
    (missing : fat16Chdir fuel v d = some (-1, v1))
    (ran : enterPath fuel v (d ++ slash :: b) = some (entered, base)) : entered = v ∧ base = b := by
  have named : d ≠ [] := by
    rintro rfl
    simp [fat16Chdir, mounted, tokens, walkTokens] at missing
  rw [enterPath, if_pos (by simp), directoryOf_join plain, baseOf_join plain] at ran
  dsimp only at ran
  rw [if_neg named, missing, fat16Chdir_failed missing] at ran
  split at ran
  · cases ran
  · simp only [Option.map_some, Option.some.injEq, Prod.mk.injEq] at ran
    exact ⟨ran.1.symm, ran.2.symm⟩

/-! ## Size and contents -/

theorem getFileSize_missing (mounted : v.fs.isMounted = true) (plain : slash ∉ b)
    (missing : fat16Chdir fuel v d = some (-1, v1))
    (ran : fat16GetFileSize fuel v (d ++ slash :: b) = some (n, v')) :
    ∃ entry, findEntryInCurrentDir fuel v b = some entry ∧ n = (entry.map fileSize).getD 0 := by
  simp only [fat16GetFileSize, mounted, Bool.true_eq_false, ↓reduceIte, Option.bind_eq_bind,
    Option.bind_eq_some_iff, Prod.exists] at ran
  obtain ⟨entered, base, prologue, entry, found, left, -, result⟩ := ran
  obtain ⟨rfl, rfl⟩ := enterPath_missing mounted plain missing prologue
  simp only [Option.pure_def, Option.some.injEq, Prod.mk.injEq] at result
  exact ⟨entry, found, result.1.symm⟩

/-- The entry of that name in the current directory has no bytes, if there is one. -/
def NoBytes (fuel : Nat) (v : Volume) (b : CString) : Prop :=
  ∀ e, findEntryInCurrentDir fuel v b = some (some e) → fileSize e = 0

theorem getFileSize_zero_iff (mounted : v.fs.isMounted = true) (plain : slash ∉ b)
    (missing : fat16Chdir fuel v d = some (-1, v1))
    (ran : fat16GetFileSize fuel v (d ++ slash :: b) = some (n, v')) : n = 0 ↔ NoBytes fuel v b := by
  obtain ⟨entry, found, rfl⟩ := getFileSize_missing mounted plain missing ran
  unfold NoBytes
  cases entry with
  | none =>
    refine iff_of_true rfl fun e found' => ?_
    rw [found] at found'
    cases found'
  | some e =>
    rw [Option.map_some, Option.getD_some]
    constructor
    · intro zero e' found'
      rw [found, Option.some.injEq, Option.some.injEq] at found'
      exact found' ▸ zero
    · exact fun all => all e found

theorem readSectors_grows (v : Volume) (lba want remaining s offset : Nat) (acc : List UInt8) :
    acc.length ≤ (readSectors v lba want remaining s offset acc).2.length := by
  induction remaining generalizing s offset acc with
  | zero => exact Nat.le_refl _
  | succ remaining ih =>
    rw [readSectors]
    split
    · exact Nat.le_refl _
    · split
      · exact ih _ _ _
      · refine Nat.le_trans ?_ (ih _ _ _)
        rw [List.length_append]
        exact Nat.le_add_right _ _

/-- A cluster that the offset does not skip yields at least one byte. -/
theorem readSectors_some (wanted : 0 < want) (inside : offset < remaining * 512) :
    0 < (readSectors v lba want remaining s offset []).2.length := by
  induction remaining generalizing s offset with
  | zero => omega
  | succ remaining ih =>
    rw [readSectors, List.length_nil, if_neg (by omega)]
    split
    · exact ih (by omega)
    · refine Nat.lt_of_lt_of_le ?_ (readSectors_grows _ _ _ _ _ _ _)
      rw [List.nil_append, List.length_map, List.length_range]
      omega

theorem readClusters_grows (ran : readClusters v want fuel c offset acc = some bytes) :
    acc.length ≤ bytes.length := by
  induction fuel generalizing c offset acc with
  | zero => cases ran
  | succ fuel ih =>
    rw [readClusters] at ran
    split at ran
    · exact Nat.le_trans (readSectors_grows v (clusterLba v.fs c) want _ 0 offset acc) (ih ran)
    · cases ran
      exact Nat.le_refl _

theorem readClusters_empty_iff (wanted : 0 < want) (inside : offset < v.fs.sectorsPerCluster * 512)
    (ran : readClusters v want fuel c offset [] = some bytes) : bytes = [] ↔ ¬ InChain c := by
  cases fuel with
  | zero => cases ran
  | succ fuel =>
    rw [readClusters, List.length_nil] at ran
    by_cases inChain : InChain c
    · rw [if_pos ⟨inChain, wanted⟩] at ran
      have some : 0 < (readSectors v (clusterLba v.fs c) want v.fs.sectorsPerCluster 0 offset []).2.length :=
        readSectors_some wanted inside
      have grown := Nat.lt_of_lt_of_le some (readClusters_grows ran)
      constructor
      · rintro rfl
        exact absurd grown (Nat.lt_irrefl 0)
      · exact fun off => absurd inChain off
    · rw [if_neg fun both => inChain both.1] at ran
      cases ran
      exact ⟨fun _ => inChain, fun _ => rfl⟩

/-- The entry of that name in the current directory, if there is one, has no
byte at the offset: nothing is asked for, the file ends before it, or its
chain does. -/
def NoBytesAt (fuel : Nat) (v : Volume) (b : CString) (offset size : Nat) : Prop :=
  ∀ e, findEntryInCurrentDir fuel v b = some (some e) →
    size = 0 ∨ fileSize e ≤ offset ∨
      ∀ c, skipClusters v (offset / (v.fs.sectorsPerCluster * 512)) (clusterLow e) = some c →
        ¬ InChain c

theorem readEntry_empty_iff (ran : readEntry fuel v e offset size = some bytes) (small : offset < 2 ^ 32) :
    bytes = [] ↔ size = 0 ∨ fileSize e ≤ offset ∨
      ∀ c, skipClusters v (offset / (v.fs.sectorsPerCluster * 512)) (clusterLow e) = some c →
        ¬ InChain c := by
  unfold readEntry at ran
  split at ran
  · rename_i behind
    cases ran
    exact iff_of_true rfl (Or.inr (Or.inl behind))
  · rename_i before
    dsimp only at ran
    split at ran
    · cases ran
    · rename_i wide
      split at ran
      · rename_i ended
        cases ran
        exact iff_of_true rfl (Or.inr (Or.inr fun c reached => by rw [ended] at reached; cases reached))
      · rename_i c reached
        have inside := Nat.mod_lt offset (Nat.pos_of_ne_zero wide)
        have onlyThis : (∀ c', skipClusters v (offset / (v.fs.sectorsPerCluster * 512)) (clusterLow e) =
            some c' → ¬ InChain c') ↔ ¬ InChain c := by
          rw [reached]
          simp
        rw [onlyThis]
        by_cases asked : size = 0
        · -- no byte is asked for, so the loop is not entered
          subst asked
          have nothing : ¬ fileSize e < (offset + 0) % 2 ^ 32 := by
            rw [Nat.add_zero, Nat.mod_eq_of_lt small]
            omega
          rw [if_neg nothing] at ran
          refine iff_of_true ?_ (Or.inl rfl)
          cases fuel with
          | zero => cases ran
          | succ fuel =>
            rw [readClusters, if_neg (by simp)] at ran
            exact (Option.some.inj ran).symm
        · have wanted : 0 < (if fileSize e < (offset + size) % 2 ^ 32 then fileSize e - offset else size) := by
            split <;> omega
          rw [readClusters_empty_iff wanted inside ran]
          simp [asked, before]

theorem readFile_empty_iff (mounted : v.fs.isMounted = true) (plain : slash ∉ b)
    (missing : fat16Chdir fuel v d = some (-1, v1)) (small : offset < 2 ^ 32)
    (ran : fat16ReadFile fuel v (d ++ slash :: b) offset size = some (bytes, v')) :
    bytes = [] ↔ NoBytesAt fuel v b offset size := by
  simp only [fat16ReadFile, Option.bind_eq_bind, Option.bind_eq_some_iff, Prod.exists] at ran
  obtain ⟨entered, base, prologue, entry, found, read, copied, left, -, result⟩ := ran
  obtain ⟨rfl, rfl⟩ := enterPath_missing mounted plain missing prologue
  simp only [Option.pure_def, Option.some.injEq, Prod.mk.injEq] at result
  obtain ⟨rfl, -⟩ := result
  rw [NoBytesAt, found]
  cases entry with
  | none =>
    cases copied
    simp
  | some e =>
    rw [readEntry_empty_iff copied small]
    simp

/-! ## Writing -/

/-- The first cluster of the new file was free, and no longer is. -/
theorem storedData_taken (data : Mem) (placed : WellPlaced v) (table : v.fs.sectorsPerFat ≤ 256)
    (notFull : findFreeCluster v ≠ 0xFFFF)
    (sized : ¬ (0 < size ∧ v.fs.sectorsPerCluster * 512 = 0)) :
    2 ≤ findFreeCluster v ∧ InTable v (findFreeCluster v) ∧ getFatEntry v (findFreeCluster v) = 0 ∧
      getFatEntry (storedData v data size) (findFreeCluster v) ≠ 0 := by
  rcases findFreeCluster_spec table with ⟨full, -⟩ | ⟨first, inTable, free, -⟩
  · exact absurd full notFull
  · refine ⟨first, inTable, free, ?_⟩
    unfold storedData
    generalize findFreeCluster v = c at first inTable free
    have placed' := wellPlaced_setFatEntry placed c 0xFFFF
    have reserved : getFatEntry (setFatEntry v c 0xFFFF) c ≠ 0 := by
      rw [getFatEntry_setFatEntry placed inTable inTable, if_pos rfl]
      decide
    by_cases none : size = 0
    · rw [none]
      exact reserved
    · have wide : 0 < v.fs.sectorsPerCluster := by
        apply Nat.pos_of_ne_zero
        intro flat
        exact sized ⟨Nat.pos_of_ne_zero none, by rw [flat]⟩
      exact writeClusters_taken placed' table wide inTable first inTable.1 reserved

theorem writeNew_sized (ran : writeNew v b data size = some v') :
    ¬ (0 < size ∧ v.fs.sectorsPerCluster * 512 = 0) := by
  unfold writeNew at ran
  dsimp only at ran
  split at ran
  · cases ran
  · rename_i room
    exact (not_or.mp room).2

theorem writeNew_changes (regular : Regular v) (ran : writeNew v b data size = some v') :
    v'.disk ≠ v.disk := by
  obtain ⟨placed, table, dir, -, -⟩ := regular
  have root := placed.root
  have region := placed.data
  have noWrap := placed.noWrap
  have sized := writeNew_sized ran
  obtain ⟨notFull, result⟩ := writeNew_stages ran
  obtain ⟨first, inTable, free, taken⟩ := storedData_taken data placed table notFull sized
  have fs := storedData_fs v data size
  have total : (storedData v data size).disk.total = v.disk.total := by
    rw [storedData, writeClusters_total, setFatEntry_total]
  generalize storedData v data size = w at result taken fs total
  have kept : v'.fs = v.fs ∧ getFatEntry v' (findFreeCluster v) ≠ 0 := by
    rw [result]
    cases added : addDirEntry w b 0x20 (findFreeCluster v) size with
    | none => exact ⟨fs, taken⟩
    | some v2 =>
      have placed2 : WellPlaced w := wellPlaced_of_eq placed fs total
      have dir2 : DirPlaced w w.fs.currentDirCluster := by
        unfold DirPlaced InData at *
        rw [fs, total]
        exact dir
      have behind := dirRegion_behind placed2 dir2
      obtain ⟨_, _, fs2, _, _, apart⟩ := addDirEntry_spec placed2 dir2 added
      refine ⟨fs2.trans fs, ?_⟩
      rw [Option.getD_some, getFatEntry_sectors fs2 (apart _ _ (by rw [fs]; omega) (Or.inr (by rw [fs] at *; omega)))
        ((inTable_of_eq fs).mpr inTable)]
      exact taken
  intro same
  apply kept.2
  rw [getFatEntry, same, kept.1, ← getFatEntry]
  exact free

theorem writeFile_changes (regular : Regular v) (mounted : v.fs.isMounted = true) (plain : slash ∉ b)
    (missing : fat16Chdir fuel v d = some (-1, v1))
    (ran : fat16WriteFile fuel v (d ++ slash :: b) data size = some v') : v'.disk ≠ v.disk := by
  simp only [fat16WriteFile, Option.bind_eq_bind, Option.bind_eq_some_iff, Prod.exists] at ran
  obtain ⟨entered, base, prologue, written, wrote, left⟩ := ran
  obtain ⟨rfl, rfl⟩ := enterPath_missing mounted plain missing prologue
  rw [moved_disk (leavePath_moved left)]
  exact writeNew_changes regular wrote

/-- Without a free cluster the call panics before it writes. -/
theorem writeFile_full (full : findFreeCluster v = 0xFFFF) (mounted : v.fs.isMounted = true)
    (plain : slash ∉ b) (missing : fat16Chdir fuel v d = some (-1, v1)) :
    fat16WriteFile fuel v (d ++ slash :: b) data size = none := by
  rw [Option.eq_none_iff_forall_ne_some]
  intro v' ran
  simp only [fat16WriteFile, Option.bind_eq_bind, Option.bind_eq_some_iff, Prod.exists] at ran
  obtain ⟨entered, base, prologue, written, wrote, left⟩ := ran
  obtain ⟨rfl, rfl⟩ := enterPath_missing mounted plain missing prologue
  simp [writeNew, full] at wrote

/-! ## Deleting -/

/-- A removed entry carries the mark of a deleted entry afterwards. -/
theorem removeEntry_marks (regular : Regular v)
    (member : visit ∈ (visits 0 Scan.initial (slotsOf v v.fs.currentDirCluster)).1)
    (ran : removeEntry fuel v visit = some v') :
    deleted (dirSlot v'.disk (dirStart v.fs v.fs.currentDirCluster) visit.position) = true := by
  obtain ⟨placed, -, dir, links, entries⟩ := regular
  obtain ⟨live, slot⟩ := visit_live member
  obtain ⟨order, fits⟩ := visit_run member
  obtain ⟨-, -, -, slots, -⟩ := removeEntry_spec placed dir links member
    (slot ▸ entries visit.position live) ran
  rw [slots visit.position fits, if_pos ⟨order, Nat.le_refl _⟩, deleted_trim]
  simp [deleted, writeByte]

theorem removeEntry_changes (regular : Regular v)
    (member : visit ∈ (visits 0 Scan.initial (slotsOf v v.fs.currentDirCluster)).1)
    (ran : removeEntry fuel v visit = some v') : v'.disk ≠ v.disk := by
  have gone := removeEntry_marks regular member ran
  intro same
  rw [same, (visit_live member).1.inUse.2.1] at gone
  cases gone

theorem deleteFound_unchanged (ran : deleteFound fuel v none = some v') : v'.disk = v.disk := by
  cases ran
  rfl

theorem deleteFound_unchanged_iff (regular : Regular v)
    (members : ∀ visit, found = some visit →
      visit ∈ (visits 0 Scan.initial (slotsOf v v.fs.currentDirCluster)).1)
    (ran : deleteFound fuel v found = some v') : v'.disk = v.disk ↔ found = none := by
  cases found with
  | none => exact iff_of_true (deleteFound_unchanged ran) rfl
  | some visit =>
    exact iff_of_false (removeEntry_changes regular (members visit rfl) ran) (Option.some_ne_none visit)

theorem findToDelete_member (found : findToDelete v b directory = some visit) :
    visit ∈ (visits 0 Scan.initial (slotsOf v v.fs.currentDirCluster)).1 :=
  List.mem_of_find?_eq_some found

theorem deleteFile_missing (mounted : v.fs.isMounted = true) (plain : slash ∉ b)
    (missing : fat16Chdir fuel v d = some (-1, v1))
    (ran : fat16DeleteFile fuel v (d ++ slash :: b) = some v') :
    ∃ removed, deleteFound fuel v (findToDelete v b false) = some removed ∧ v'.disk = removed.disk := by
  rw [fat16DeleteFile, if_neg (by simp)] at ran
  simp only [Option.bind_eq_bind, Option.bind_eq_some_iff, Prod.exists] at ran
  obtain ⟨entered, base, prologue, removed, deletes, left⟩ := ran
  obtain ⟨rfl, rfl⟩ := enterPath_missing mounted plain missing prologue
  exact ⟨removed, deletes, moved_disk (leavePath_moved left)⟩

/-- The entry that `fat16_delete_dir` goes for: a directory that passes the
emptiness test. -/
def dirToDelete (v : Volume) (b : CString) : Option Visit :=
  (findToDelete v b true).filter fun visit => isDirEmpty v (clusterLow visit.slot)

theorem deleteDir_missing (mounted : v.fs.isMounted = true) (plain : slash ∉ b)
    (missing : fat16Chdir fuel v d = some (-1, v1))
    (ran : fat16DeleteDir fuel v (d ++ slash :: b) = some v') :
    ∃ removed, deleteFound fuel v (dirToDelete v b) = some removed ∧ v'.disk = removed.disk := by
  rw [fat16DeleteDir, if_neg (by simp)] at ran
  simp only [Option.bind_eq_bind, Option.bind_eq_some_iff, Prod.exists] at ran
  obtain ⟨entered, base, prologue, removed, deletes, left⟩ := ran
  obtain ⟨rfl, rfl⟩ := enterPath_missing mounted plain missing prologue
  exact ⟨removed, deletes, moved_disk (leavePath_moved left)⟩

theorem dirToDelete_member (found : dirToDelete v b = some visit) :
    visit ∈ (visits 0 Scan.initial (slotsOf v v.fs.currentDirCluster)).1 :=
  findToDelete_member (Option.filter_eq_some_iff.mp found).1

/-- What the five operations do with a path `d/b` whose directory `d` cannot
be entered: they act on the name `b` in the current directory. -/
theorem missing_directory_iff (mounted : v.fs.isMounted = true) (plain : slash ∉ b)
    (missing : fat16Chdir fuel v d = some (-1, v1)) :
    (∀ n v', fat16GetFileSize fuel v (d ++ slash :: b) = some (n, v') → (n = 0 ↔ NoBytes fuel v b)) ∧
    (∀ offset size bytes v', offset < 2 ^ 32 →
      fat16ReadFile fuel v (d ++ slash :: b) offset size = some (bytes, v') →
        (bytes = [] ↔ NoBytesAt fuel v b offset size)) ∧
    (∀ data size v', Regular v → fat16WriteFile fuel v (d ++ slash :: b) data size = some v' →
      v'.disk ≠ v.disk) ∧
    (findFreeCluster v = 0xFFFF → ∀ data size,
      fat16WriteFile fuel v (d ++ slash :: b) data size = none) ∧
    (∀ v', fat16DeleteFile fuel v (d ++ slash :: b) = some v' →
      (findToDelete v b false = none → v'.disk = v.disk) ∧
      (Regular v → (v'.disk = v.disk ↔ findToDelete v b false = none))) ∧
    ∀ v', fat16DeleteDir fuel v (d ++ slash :: b) = some v' →
      (dirToDelete v b = none → v'.disk = v.disk) ∧
      (Regular v → (v'.disk = v.disk ↔ dirToDelete v b = none)) := by
  refine ⟨fun n v' ran => getFileSize_zero_iff mounted plain missing ran,
    fun offset size bytes v' small ran => readFile_empty_iff mounted plain missing small ran,
    fun data size v' regular ran => writeFile_changes regular mounted plain missing ran,
    fun full data size => writeFile_full full mounted plain missing, ?_, ?_⟩
  · intro v' ran
    obtain ⟨removed, deletes, disk⟩ := deleteFile_missing mounted plain missing ran
    rw [disk]
    refine ⟨fun none => deleteFound_unchanged (none ▸ deletes), fun regular => ?_⟩
    exact deleteFound_unchanged_iff regular (fun visit found => findToDelete_member found) deletes
  · intro v' ran
    obtain ⟨removed, deletes, disk⟩ := deleteDir_missing mounted plain missing ran
    rw [disk]
    refine ⟨fun none => deleteFound_unchanged (none ▸ deletes), fun regular => ?_⟩
    exact deleteFound_unchanged_iff regular (fun visit found => dirToDelete_member found) deletes

end Missing

/-! ## A root with a file `A` and an empty directory `D` -/

def twoEntriesTable : Sector := fun o => if o = 0 then 0xF8 else if o < 8 then 0xFF else 0

def twoEntriesRoot : Sector := fun o =>
  if o < 32 then shortEntry (shortNameFor [0x41]) 0x20 2 5 o
  else if o < 64 then shortEntry (shortNameFor [0x44]) 0x10 3 0 (o - 32)
  else 0

/-- The volume as formatting a disk of 418 sectors, writing `A` and creating
`D` leave it. -/
def twoEntries : Volume where
  fs :=
    { isMounted := true
      rootDirLba := 258
      rootDirSectors := 32
      dataRegionLba := 290
      sectorsPerFat := 1
      sectorsPerCluster := 32
      reservedSectors := 256
      currentDirCluster := 0
      currentPath := rootPath }
  disk :=
    { total := 418
      sectors := fun n =>
        if n = 256 ∨ n = 257 then twoEntriesTable
        else if n = 258 then twoEntriesRoot
        else if n = 322 then newDirSector 3 0
        else fun _ => 0 }

theorem twoEntries_missing : fat16Chdir 1 twoEntries [0x58] = some (-1, twoEntries) := by
  have code : (fat16Chdir 1 twoEntries [0x58]).map (·.1) = some (-1) := by decide +kernel
  obtain ⟨⟨_, v1⟩, ran, rfl⟩ := Option.map_eq_some_iff.mp code
  rw [ran, fat16Chdir_failed ran]

theorem twoEntries_ended (inTable : InTable twoEntries c) : ¬ InChain (getFatEntry twoEntries c) := by
  have all : ∀ c < 256, ¬ InChain (getFatEntry twoEntries c) := by decide +kernel
  apply all
  have sector := inTable.2
  change c / 256 < 1 at sector
  omega

theorem twoEntries_live (live : Live twoEntries 0 k) : k = 0 ∨ k = 1 := by
  have small : k < 2 := live_lt live (by decide)
  omega

theorem twoEntries_regular : Regular twoEntries where
  placed := ⟨rfl, rfl, by decide, by decide⟩
  table := by decide
  dir := Or.inl rfl
  links := fun c inTable inChain => absurd inChain (twoEntries_ended inTable)
  entries := by
    intro k live c _
    have small : ∀ k, k = 0 ∨ k = 1 →
        InTable twoEntries (clusterLow (dirSlot twoEntries.disk (dirStart twoEntries.fs 0) k)) := by
      rintro k (rfl | rfl)
      · exact ⟨by decide, by decide⟩
      · exact ⟨by decide, by decide⟩
    exact small k (twoEntries_live live)

/-- All conditions hold of this volume and the path `X/A`. -/
theorem missing_directory_iff_twoEntries :
    (∀ n v', fat16GetFileSize 1 twoEntries [0x58, slash, 0x41] = some (n, v') →
      (n = 0 ↔ NoBytes 1 twoEntries [0x41])) ∧
    (∀ v', fat16DeleteFile 1 twoEntries [0x58, slash, 0x41] = some v' →
      (v'.disk = twoEntries.disk ↔ findToDelete twoEntries [0x41] false = none)) :=
  have all := missing_directory_iff (b := [0x41]) rfl (by decide) twoEntries_missing
  ⟨all.1, fun v' ran => (all.2.2.2.2.1 v' ran).2 twoEntries_regular⟩

/-- `X` does not exist. The five operations act on the root's entries: the
size of `A` is reported and its bytes are read, cluster 4 is taken for `X/B`,
`A` is deleted as `X/A` and `D` as `X/D`. -/
theorem missing_directory_ignored :
    fat16Chdir 1 twoEntries [0x58] = some (-1, twoEntries) ∧
    (fat16GetFileSize 1 twoEntries [0x58, slash, 0x41]).map (·.1) = some 5 ∧
    (fat16ReadFile 2 twoEntries [0x58, slash, 0x41] 0 5).map (·.1.length) = some 5 ∧
    getFatEntry twoEntries 4 = 0 ∧
    (fat16WriteFile 1 twoEntries [0x58, slash, 0x42] emptyBuf 5).map (getFatEntry · 4) = some 0xFFFF ∧
    (fat16DeleteFile 2 twoEntries [0x58, slash, 0x41]).map (fun v => dirSlot v.disk 258 0 0) = some 0xE5 ∧
    (fat16DeleteDir 2 twoEntries [0x58, slash, 0x44]).map (fun v => dirSlot v.disk 258 1 0) = some 0xE5 := by
  refine ⟨twoEntries_missing, ?_, ?_, ?_, ?_, ?_, ?_⟩
  all_goals decide +kernel

end MeowMeowOS.MissingDirectories

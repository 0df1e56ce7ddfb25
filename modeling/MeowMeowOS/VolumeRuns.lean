import MeowMeowOS.Fat16Walks
import MeowMeowOS.Fat16Format
import MeowMeowOS.Fat16Chains

/-! Runs of the driver. What holds of a mounted volume for good is proved of the
moves between directories and of the three changes that the calls are made of: a
new file, a new directory and a removed entry. -/
namespace MeowMeowOS.VolumeRuns
open Fat16Disk Fat16Names Fat16Directory Fat16Paths Fat16Files Fat16Format

/-- The calls of the driver. -/
inductive Call
  | chdir (path : CString)
  | getFileSize (filename : CString)
  | readFile (filename : CString) (offset size : Nat)
  | writeFile (filename : CString) (data : ByteMemory.Mem) (size : Nat)
  | deleteFile (filename : CString)
  | createDir (dirname : CString)
  | copyFile (src dst : CString) (slack : ByteMemory.Mem)
  | deleteDir (dirname : CString)
  | formatDrive (junk : HeapJunk) (maxSectors : Nat) (preserveSystem : Bool)
  | mount (junk : HeapJunk)

/-- The volume after a call; none if the call does not return. -/
def Call.run (fuel : Nat) (v : Volume) : Call → Option Volume
  | .chdir path => (fat16Chdir fuel v path).map (·.2)
  | .getFileSize filename => (fat16GetFileSize fuel v filename).map (·.2)
  | .readFile filename offset size => (fat16ReadFile fuel v filename offset size).map (·.2)
  | .writeFile filename data size => fat16WriteFile fuel v filename data size
  | .deleteFile filename => fat16DeleteFile fuel v filename
  | .createDir dirname => (fat16CreateDir fuel v dirname).map (·.2)
  | .copyFile src dst slack => (fat16CopyFile fuel v src dst slack).map (·.2)
  | .deleteDir dirname => fat16DeleteDir fuel v dirname
  | .formatDrive junk maxSectors preserveSystem => fat16FormatDrive fuel junk v maxSectors preserveSystem
  | .mount junk => fat16Initialize fuel junk v

/-- `clusters_needed` -/
def clustersNeeded (v : Volume) (size : Nat) : Nat :=
  if 0 < size then (size + v.fs.sectorsPerCluster * 512 - 1) % 2 ^ 32 / (v.fs.sectorsPerCluster * 512) else 0

/-- Chain and data of a new file are on the disk, its entry is not. -/
def storedData (v : Volume) (data : ByteMemory.Mem) (size : Nat) : Volume :=
  writeClusters data size (clustersNeeded v size) 0 (findFreeCluster v) (setFatEntry v (findFreeCluster v) 0xFFFF)

theorem storedData_fs (v : Volume) (data : ByteMemory.Mem) (size : Nat) : (storedData v data size).fs = v.fs := by
  rw [storedData, Fat16Chains.writeClusters_fs, setFatEntry_fs]

theorem writeNew_stages (ran : writeNew v base data size = some v') : findFreeCluster v ≠ 0xFFFF ∧
    v' = (addDirEntry (storedData v data size) base 0x20 (findFreeCluster v) size).getD (storedData v data size) := by
  unfold writeNew at ran
  dsimp only at ran
  split at ran
  · cases ran
  · rename_i room
    rw [Option.some.injEq] at ran
    exact ⟨fun full => room (Or.inl full), ran.symm⟩

/-- Entry and first sector of a new directory are on the disk, its own entry in
the parent is not. -/
def storedDir (v : Volume) : Volume :=
  writeNewDir (setFatEntry v (findFreeCluster v) 0xFFFF) (findFreeCluster v)

theorem storedDir_fs (v : Volume) : (storedDir v).fs = v.fs := by
  unfold storedDir writeNewDir
  exact setFatEntry_fs v (findFreeCluster v) 0xFFFF

theorem createNew_stages (v : Volume) (base : CString) : createNew v base =
    if findFreeCluster v = 0xFFFF then (-1, v)
    else
      match addDirEntry (storedDir v) base 0x10 (findFreeCluster v) 0 with
      | none => (-1, storedDir v)
      | some w => (0, w) := rfl

/-! ## Moves -/

/-- A property that no change of the current directory ends. -/
structure KeptByMoves (P : Volume → Prop) : Prop where
  root : ∀ v, P v → P (enter v 0 rootPath)
  below : ∀ v e path, P v → P (enter v (clusterLow e) path)

section Moves
variable {P : Volume → Prop} {fuel : Nat} {orig v v' : Volume}

theorem walkTokens_keeps (moves : KeptByMoves P) (fallback : P orig) (start : P v)
    (ran : walkTokens fuel orig v list = some (code, v')) : P v' := by
  induction list generalizing v with
  | nil =>
    cases ran
    exact start
  | cons token rest ih =>
    have failed : some ((-1 : Int), orig) = some (code, v') → P v' := by
      intro same
      cases same
      exact fallback
    simp only [walkTokens] at ran
    split at ran
    · exact ih start ran
    · split at ran
      · split at ran
        · split at ran
          · cases ran
          · exact failed ran
          · exact ih (moves.below _ _ _ start) ran
        · exact ih start ran
      · split at ran
        · cases ran
        · exact failed ran
        · split at ran
          · exact ih (moves.below _ _ _ start) ran
          · exact failed ran

theorem fat16Chdir_keeps (moves : KeptByMoves P) (start : P v) (ran : fat16Chdir fuel v path = some (code, v')) :
    P v' := by
  unfold fat16Chdir at ran
  split at ran
  · cases ran
    exact start
  · split at ran
    · cases ran
    · refine walkTokens_keeps moves start ?_ ran
      split
      · exact moves.root v start
      · exact start

theorem enterPath_keeps (moves : KeptByMoves P) (start : P v) (ran : enterPath fuel v filename = some (v', base)) :
    P v' := by
  unfold enterPath at ran
  split at ran
  · split at ran
    · cases ran
    · obtain ⟨⟨code, w⟩, walked, same⟩ := Option.map_eq_some_iff.mp ran
      cases same
      exact fat16Chdir_keeps moves start walked
  · cases ran
    exact start

theorem leavePath_keeps (moves : KeptByMoves P) (start : P v)
    (ran : leavePath fuel filename oldCwd v = some v') : P v' := by
  unfold leavePath at ran
  split at ran
  · obtain ⟨⟨code, w⟩, walked, rfl⟩ := Option.map_eq_some_iff.mp ran
    exact fat16Chdir_keeps moves start walked
  · cases ran
    exact start

theorem getFileSize_keeps (moves : KeptByMoves P) (start : P v)
    (ran : fat16GetFileSize fuel v filename = some (size, v')) : P v' := by
  unfold fat16GetFileSize at ran
  split at ran
  · cases ran
    exact start
  · simp only [Option.bind_eq_bind, Option.bind_eq_some_iff, Prod.exists] at ran
    obtain ⟨entered, base, prologue, entry, -, left, back, result⟩ := ran
    simp only [Option.pure_def, Option.some.injEq, Prod.mk.injEq] at result
    rw [← result.2]
    exact leavePath_keeps moves (enterPath_keeps moves start prologue) back

theorem readFile_keeps (moves : KeptByMoves P) (start : P v)
    (ran : fat16ReadFile fuel v filename offset size = some (bytes, v')) : P v' := by
  simp only [fat16ReadFile, Option.bind_eq_bind, Option.bind_eq_some_iff, Prod.exists] at ran
  obtain ⟨entered, base, prologue, entry, -, copied, -, left, back, result⟩ := ran
  simp only [Option.pure_def, Option.some.injEq, Prod.mk.injEq] at result
  rw [← result.2]
  exact leavePath_keeps moves (enterPath_keeps moves start prologue) back

end Moves

/-! ## Changes -/

/-- A property that no call ends, as far as it concerns files and directories. -/
structure KeptByChanges (P : Volume → Prop) : Prop where
  moves : KeptByMoves P
  writes : ∀ v v' base data size, P v → writeNew v base data size = some v' → P v'
  creates : ∀ v base, P v → P (createNew v base).2
  removes : ∀ fuel v v' visit, P v → visit ∈ (visits 0 Scan.initial (slotsOf v v.fs.currentDirCluster)).1 →
    removeEntry fuel v visit = some v' → P v'

section Changes
variable {P : Volume → Prop} {fuel : Nat} {v v' : Volume}

theorem writeFile_keeps (kept : KeptByChanges P) (start : P v)
    (ran : fat16WriteFile fuel v filename data size = some v') : P v' := by
  simp only [fat16WriteFile, Option.bind_eq_bind, Option.bind_eq_some_iff, Prod.exists] at ran
  obtain ⟨entered, base, prologue, written, wrote, back⟩ := ran
  apply leavePath_keeps kept.moves _ back
  exact kept.writes _ _ _ _ _ (enterPath_keeps kept.moves start prologue) wrote

theorem deleteFound_keeps (kept : KeptByChanges P) (start : P v)
    (members : ∀ visit, found = some visit →
      visit ∈ (visits 0 Scan.initial (slotsOf v v.fs.currentDirCluster)).1)
    (ran : deleteFound fuel v found = some v') : P v' := by
  cases found with
  | none =>
    cases ran
    exact start
  | some visit => exact kept.removes _ _ _ _ start (members visit rfl) ran

theorem deleteFile_keeps (kept : KeptByChanges P) (start : P v)
    (ran : fat16DeleteFile fuel v filename = some v') : P v' := by
  unfold fat16DeleteFile at ran
  split at ran
  · cases ran
    exact start
  · simp only [Option.bind_eq_bind, Option.bind_eq_some_iff, Prod.exists] at ran
    obtain ⟨entered, base, prologue, removed, deletes, back⟩ := ran
    apply leavePath_keeps kept.moves _ back
    apply deleteFound_keeps kept (enterPath_keeps kept.moves start prologue) _ deletes
    exact fun visit found => List.mem_of_find?_eq_some found

theorem deleteDir_keeps (kept : KeptByChanges P) (start : P v)
    (ran : fat16DeleteDir fuel v dirname = some v') : P v' := by
  unfold fat16DeleteDir at ran
  split at ran
  · cases ran
    exact start
  · simp only [Option.bind_eq_bind, Option.bind_eq_some_iff, Prod.exists] at ran
    obtain ⟨entered, base, prologue, removed, deletes, back⟩ := ran
    apply leavePath_keeps kept.moves _ back
    apply deleteFound_keeps kept (enterPath_keeps kept.moves start prologue) _ deletes
    exact fun visit found => List.mem_of_find?_eq_some (Option.filter_eq_some_iff.mp found).1

theorem createDir_keeps (kept : KeptByChanges P) (start : P v)
    (ran : fat16CreateDir fuel v dirname = some (code, v')) : P v' := by
  unfold fat16CreateDir at ran
  dsimp only at ran
  split at ran
  · cases ran
    exact start
  · split at ran
    · cases ran
    · simp only [Option.bind_eq_bind, Option.bind_eq_some_iff, Prod.exists] at ran
      obtain ⟨result, created, inside, left, last, back, same⟩ := ran
      cases same
      refine fat16Chdir_keeps kept.moves ?_ back
      unfold createIn at inside
      split at inside
      · cases inside
        exact start
      · simp only [Option.bind_eq_bind, Option.bind_eq_some_iff, Prod.exists] at inside
        obtain ⟨entering, parent, walked, inside⟩ := inside
        have there := fat16Chdir_keeps kept.moves start walked
        split at inside
        · cases inside
          exact there
        · obtain ⟨existing, -, outcome⟩ := Option.bind_eq_some_iff.mp inside
          simp only [Option.pure_def, Option.some.injEq] at outcome
          split at outcome
          · cases outcome
            exact there
          · have same : (createNew parent (baseOf (absolutePath v dirname))).2 = created :=
              congrArg Prod.snd outcome
            rw [← same]
            exact kept.creates parent _ there

theorem readForCopy_keeps (moves : KeptByMoves P) (start : P v)
    (ran : readForCopy fuel v src dst = some (bytes, v')) : P v' := by
  simp only [readForCopy, Option.bind_eq_bind, Option.bind_eq_some_iff, Prod.exists] at ran
  obtain ⟨code, source, walked, ran⟩ := ran
  have entered := fat16Chdir_keeps moves start walked
  split at ran
  · cases ran
    exact entered
  · simp only [Option.bind_eq_some_iff, Prod.exists] at ran
    obtain ⟨size, sized, measured, ran⟩ := ran
    have sized := getFileSize_keeps moves entered measured
    split at ran
    · cases ran
      exact sized
    · simp only [Option.bind_eq_some_iff, Prod.exists] at ran
      obtain ⟨copied, copy, reading, ran⟩ := ran
      have copy := readFile_keeps moves sized reading
      split at ran
      · cases ran
        exact copy
      · simp only [Option.bind_eq_some_iff, Prod.exists] at ran
        obtain ⟨code', target, walked', outcome⟩ := ran
        have last := fat16Chdir_keeps moves copy walked'
        simp only [Option.pure_def, Option.some.injEq] at outcome
        split at outcome
        · cases outcome
          exact last
        · cases outcome
          exact last

theorem copyFile_keeps (kept : KeptByChanges P) (start : P v)
    (ran : fat16CopyFile fuel v src dst slack = some (code, v')) : P v' := by
  unfold fat16CopyFile at ran
  split at ran
  · cases ran
  · split at ran
    · cases ran
      exact start
    · simp only [Option.bind_eq_bind, Option.bind_eq_some_iff, Prod.exists] at ran
      obtain ⟨bytes, target, read, ran⟩ := ran
      have entered := readForCopy_keeps kept.moves start read
      cases bytes with
      | none =>
        simp only [Option.bind_eq_some_iff, Prod.exists] at ran
        obtain ⟨code', left, back, outcome⟩ := ran
        cases outcome
        exact fat16Chdir_keeps kept.moves entered back
      | some bytes =>
        simp only [Option.bind_eq_some_iff, Prod.exists] at ran
        obtain ⟨written, wrote, code', left, back, outcome⟩ := ran
        cases outcome
        exact fat16Chdir_keeps kept.moves (writeFile_keeps kept entered wrote) back

/-- Every call but a mount keeps such a property that formatting keeps too. -/
theorem use_keeps (kept : KeptByChanges P)
    (formats : ∀ fuel junk v v' maxSectors preserveSystem, P v →
      fat16FormatDrive fuel junk v maxSectors preserveSystem = some v' → P v')
    (start : P v) (call : Call) (mounted : ∀ junk, call ≠ .mount junk) (ran : call.run fuel v = some v') :
    P v' := by
  cases call with
  | chdir path =>
    obtain ⟨⟨_, _⟩, walked, rfl⟩ := Option.map_eq_some_iff.mp ran
    exact fat16Chdir_keeps kept.moves start walked
  | getFileSize filename =>
    obtain ⟨⟨_, _⟩, measured, rfl⟩ := Option.map_eq_some_iff.mp ran
    exact getFileSize_keeps kept.moves start measured
  | readFile filename offset size =>
    obtain ⟨⟨_, _⟩, read, rfl⟩ := Option.map_eq_some_iff.mp ran
    exact readFile_keeps kept.moves start read
  | writeFile filename data size => exact writeFile_keeps kept start ran
  | deleteFile filename => exact deleteFile_keeps kept start ran
  | createDir dirname =>
    obtain ⟨⟨_, _⟩, created, rfl⟩ := Option.map_eq_some_iff.mp ran
    exact createDir_keeps kept start created
  | copyFile src dst slack =>
    obtain ⟨⟨_, _⟩, copied, rfl⟩ := Option.map_eq_some_iff.mp ran
    exact copyFile_keeps kept start copied
  | deleteDir dirname => exact deleteDir_keeps kept start ran
  | formatDrive junk maxSectors preserveSystem => exact formats _ _ _ _ _ _ start ran
  | mount junk => exact absurd rfl (mounted junk)

/-- Every call keeps such a property that formatting and mounting keep too. -/
theorem call_keeps (kept : KeptByChanges P)
    (formats : ∀ fuel junk v v' maxSectors preserveSystem, P v →
      fat16FormatDrive fuel junk v maxSectors preserveSystem = some v' → P v')
    (mounts : ∀ fuel junk v v', P v → fat16Initialize fuel junk v = some v' → P v')
    (start : P v) (call : Call) (ran : call.run fuel v = some v') : P v' := by
  by_cases mounted : ∃ junk, call = .mount junk
  · obtain ⟨junk, rfl⟩ := mounted
    exact mounts _ _ _ _ start ran
  · exact use_keeps kept formats start call (not_exists.mp mounted) ran

end Changes

end MeowMeowOS.VolumeRuns

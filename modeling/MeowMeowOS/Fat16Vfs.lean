import MeowMeowOS.Fat16Files

/-! The FAT16 driver behind the virtual file system: opening a node, reading
from it and writing to it. Reading hands over no more bytes than it is asked
for. -/
namespace MeowMeowOS.Fat16Vfs
open ByteMemory Fat16Disk Fat16Names Fat16Directory Fat16Paths Fat16Files

/-- The name and the length of a node; the name is the path it was opened by. -/
structure FileNode where
  name : CString
  length : Nat

/-- The end of `fat16_vfs_open`, once the directory is entered. `granted` is
false when there is no heap memory for the node. -/
def openIn (fuel : Nat) (dir : Volume) (filename oldCwd : CString) (granted : Bool) :
    Option (Option FileNode × Volume) := do
  let (fileSize, sized) ← fat16GetFileSize fuel dir (baseOf filename)
  let (_, left) ← fat16Chdir fuel sized oldCwd
  return (if 0 < fileSize ∧ granted then some ⟨filename, fileSize⟩ else none, left)

def fat16VfsOpen (fuel : Nat) (v : Volume) (filename : CString) (granted : Bool) :
    Option (Option FileNode × Volume) :=
  if 256 ≤ filename.length then none
  else if slash ∈ filename then do
    let (code, dir) ← fat16Chdir fuel v (orRoot (directoryOf filename))
    if code ≠ 0 then some (none, dir) else openIn fuel dir filename v.fs.currentPath granted
  else openIn fuel v filename v.fs.currentPath granted

def fat16VfsRead (fuel : Nat) (v : Volume) (node : FileNode) (offset size : Nat) :
    Option (List UInt8 × Volume) :=
  fat16ReadFile fuel v node.name offset size

/-- The file is written anew: what it held, with the buffer laid over it. The result is
the count returned, the node with its new length and the volume. `granted` is false when
there is no heap memory for the copy. -/
def fat16VfsWrite (fuel : Nat) (v : Volume) (node : FileNode) (offset size : Nat) (buffer : Mem) (granted : Bool) :
    Option (Nat × FileNode × Volume) :=
  let newSize := if node.length < (offset + size) % 2 ^ 32 then (offset + size) % 2 ^ 32 else node.length
  if granted = false then some (0, node, v)
  else do
    let (old, read) ← if 0 < node.length then fat16ReadFile fuel v node.name 0 node.length else some ([], v)
    -- where the end wraps around, the copy runs past the memory granted
    if newSize < offset + size then none
    else do
      let temp : Mem := fun i => if offset ≤ i ∧ i < offset + size then buffer (i - offset) else old.getD i 0
      let gone ← if 0 < node.length then fat16DeleteFile fuel read node.name else some read
      let written ← fat16WriteFile fuel gone node.name temp newSize
      return (size, { node with length := newSize }, written)

/-! ## Reading stays within the size -/

section Bounds
variable {v v' : Volume} {fuel : Nat}

theorem readSectors_length (le : acc.length ≤ want) :
    (readSectors v lba want remaining s currentOffset acc).2.length ≤ want := by
  induction remaining generalizing s currentOffset acc with
  | zero => exact le
  | succ remaining ih =>
    rw [readSectors]
    split
    · exact le
    · split
      · exact ih le
      · apply ih
        rw [List.length_append, List.length_map, List.length_range]
        omega

theorem readClusters_length (le : acc.length ≤ want)
    (ran : readClusters v want fuel cluster currentOffset acc = some bytes) : bytes.length ≤ want := by
  induction fuel generalizing cluster currentOffset acc with
  | zero => cases ran
  | succ fuel ih =>
    rw [readClusters] at ran
    split at ran
    · exact ih (readSectors_length le) ran
    · exact Option.some.inj ran ▸ le

theorem readEntry_length (ran : readEntry fuel v entry offset size = some bytes) : bytes.length ≤ size := by
  unfold readEntry at ran
  split at ran
  · cases ran
    exact Nat.zero_le size
  · dsimp only at ran
    have asked : (if fileSize entry < (offset + size) % 2 ^ 32 then fileSize entry - offset else size) ≤ size := by
      split
      · have := Nat.mod_le (offset + size) (2 ^ 32)
        omega
      · exact Nat.le_refl size
    split at ran
    · cases ran
    · split at ran
      · cases ran
        exact Nat.zero_le size
      · exact Nat.le_trans (readClusters_length (Nat.zero_le _) ran) asked

theorem fat16VfsRead_length (ran : fat16VfsRead fuel v node offset size = some (bytes, v')) :
    bytes.length ≤ size := by
  simp only [fat16VfsRead, fat16ReadFile, Option.bind_eq_bind, Option.bind_eq_some_iff, Prod.exists] at ran
  obtain ⟨entered, base, -, entry, -, read, copied, left, -, result⟩ := ran
  simp only [Option.pure_def, Option.some.injEq, Prod.mk.injEq] at result
  obtain ⟨rfl, -⟩ := result
  cases entry with
  | none =>
    cases copied
    exact Nat.zero_le size
  | some e => exact readEntry_length copied

end Bounds

end MeowMeowOS.Fat16Vfs

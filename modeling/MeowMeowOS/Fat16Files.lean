import MeowMeowOS.Fat16Paths

/-! The operations of `fat16.c` on files and directories. -/
namespace MeowMeowOS.Fat16Files
open ByteMemory Fat16Disk Fat16Names Fat16Directory Fat16Paths

/-! ## Reading -/

/-- The loop over the sectors of one cluster: `remaining` sectors from sector
`s` on, with `currentOffset` bytes still to skip and `acc` already read. -/
def readSectors (v : Volume) (lba want : Nat) : Nat → Nat → Nat → List UInt8 → Nat × List UInt8
  | 0, _, currentOffset, acc => (currentOffset, acc)
  | remaining + 1, s, currentOffset, acc =>
    if want ≤ acc.length then (currentOffset, acc)
    else if 512 ≤ currentOffset then readSectors v lba want remaining (s + 1) (currentOffset - 512) acc
    else
      let toCopy := min (512 - currentOffset) (want - acc.length)
      let sector := kdiskReadSector v.disk (lba + s)
      readSectors v lba want remaining (s + 1) 0
        (acc ++ (List.range toCopy).map fun i => sector (currentOffset + i))

def readClusters (v : Volume) (want : Nat) : Nat → Nat → Nat → List UInt8 → Option (List UInt8)
  | 0, _, _, _ => none
  | fuel + 1, cluster, currentOffset, acc =>
    if InChain cluster ∧ acc.length < want then
      let (currentOffset, acc) :=
        readSectors v (clusterLba v.fs cluster) want v.fs.sectorsPerCluster 0 currentOffset acc
      readClusters v want fuel (getFatEntry v cluster) currentOffset acc
    else some acc

/-- The cluster `count` links further down the chain, if it has that many. -/
def skipClusters (v : Volume) : Nat → Nat → Option Nat
  | 0, cluster => some cluster
  | count + 1, cluster =>
    if InChain cluster then skipClusters v count (getFatEntry v cluster) else none

/-- What is read of an entry that was found: the bytes copied to the buffer. -/
def readEntry (fuel : Nat) (v : Volume) (entry : Slot) (offset size : Nat) : Option (List UInt8) :=
  if fileSize entry ≤ offset then some []
  else
    let bytesToRead := if fileSize entry < (offset + size) % 2 ^ 32 then fileSize entry - offset else size
    let clusterSize := v.fs.sectorsPerCluster * 512
    if clusterSize = 0 then none
    else
      match skipClusters v (offset / clusterSize) (clusterLow entry) with
      | none => some []
      | some cluster => readClusters v bytesToRead fuel cluster (offset % clusterSize) []

def readFound (fuel : Nat) (v : Volume) (entry : Option Slot) (offset size : Nat) : Option (List UInt8) :=
  match entry with
  | none => some []
  | some entry => readEntry fuel v entry offset size

/-- The bytes copied, as many as the function returns. -/
def fat16ReadFile (fuel : Nat) (v : Volume) (filename : CString) (offset size : Nat) :
    Option (List UInt8 × Volume) := do
  let (entered, baseName) ← enterPath fuel v filename
  let entry ← findEntryInCurrentDir fuel entered baseName
  let bytes ← readFound fuel entered entry offset size
  let left ← leavePath fuel filename v.fs.currentPath entered
  return (bytes, left)

/-! ## Writing -/

/-- The sectors of cluster number `i` of the file; behind the data the buffer
is `NULL` and nothing is written. -/
def writeCluster (v : Volume) (data : Mem) (size i current : Nat) : Volume :=
  let bpc := v.fs.sectorsPerCluster * 512
  { v with disk := (List.range v.fs.sectorsPerCluster).foldl (fun d s =>
      let offset := (i * bpc + s * 512) % 2 ^ 32
      if offset < size then
        kdiskWriteSector d (clusterLba v.fs current + s) fun j => data (offset + j)
      else d) v.disk }

/-- The loop over the clusters of the file, `remaining` of them to go. -/
def writeClusters (data : Mem) (size : Nat) : Nat → Nat → Nat → Volume → Volume
  | 0, _, _, v => v
  | remaining + 1, i, current, v =>
    let v := writeCluster v data size i current
    if remaining = 0 then v
    else
      let next := findFreeCluster v
      let v := setFatEntry (setFatEntry v current next) next 0xFFFF
      writeClusters data size remaining (i + 1) next v

/-- Clusters, data and entry of a new file in the current directory. -/
def writeNew (v : Volume) (baseName : CString) (data : Mem) (size : Nat) : Option Volume :=
  let firstCluster := findFreeCluster v
  let bpc := v.fs.sectorsPerCluster * 512
  if firstCluster = 0xFFFF ∨ (0 < size ∧ bpc = 0) then none
  else
    let clustersNeeded := if 0 < size then (size + bpc - 1) % 2 ^ 32 / bpc else 0
    let v := setFatEntry v firstCluster 0xFFFF
    let v := writeClusters data size clustersNeeded 0 firstCluster v
    some ((addDirEntry v baseName 0x20 firstCluster size).getD v)

def fat16WriteFile (fuel : Nat) (v : Volume) (filename : CString) (data : Mem) (size : Nat) :
    Option Volume := do
  let (entered, baseName) ← enterPath fuel v filename
  let written ← writeNew entered baseName data size
  leavePath fuel filename v.fs.currentPath written

/-! ## Deleting -/

def deleteFound (fuel : Nat) (v : Volume) (found : Option Visit) : Option Volume :=
  match found with
  | none => some v
  | some visit => removeEntry fuel v visit

def fat16DeleteFile (fuel : Nat) (v : Volume) (filename : CString) : Option Volume :=
  if filename = [] then some v
  else do
    let (entered, baseName) ← enterPath fuel v filename
    let removed ← deleteFound fuel entered (findToDelete entered baseName false)
    leavePath fuel filename v.fs.currentPath removed

/-- A directory is only removed when the test of its first sector lets it. -/
def fat16DeleteDir (fuel : Nat) (v : Volume) (dirname : CString) : Option Volume :=
  if dirname = [] then some v
  else do
    let (entered, baseName) ← enterPath fuel v dirname
    let found := (findToDelete entered baseName true).filter fun visit =>
      isDirEmpty entered (clusterLow visit.slot)
    let removed ← deleteFound fuel entered found
    leavePath fuel dirname v.fs.currentPath removed

/-! ## Creating directories and copying -/

/-- The first sector of a new directory. -/
def newDirSector (dirCluster parent : Nat) : Sector := fun o =>
  if o < 32 then shortEntry dotName 0x10 dirCluster 0 o
  else if o < 64 then shortEntry dotDotName 0x10 parent 0 (o - 32)
  else 0

def writeNewDir (v : Volume) (dirCluster : Nat) : Volume :=
  { v with
    disk := kdiskWriteSector v.disk (clusterLba v.fs dirCluster)
      (newDirSector dirCluster v.fs.currentDirCluster) }

/-- A new directory in the current one, with the result code. -/
def createNew (v : Volume) (baseName : CString) : Int × Volume :=
  let dirCluster := findFreeCluster v
  if dirCluster = 0xFFFF then (-1, v)
  else
    let v := writeNewDir (setFatEntry v dirCluster 0xFFFF) dirCluster
    match addDirEntry v baseName 0x10 dirCluster 0 with
    | none => (-1, v)
    | some v => (0, v)

def absolutePath (v : Volume) (dirname : CString) : CString :=
  if dirname.head? = some slash then dirname
  else if v.fs.currentPath = rootPath then (rootPath ++ dirname).take 255
  else (v.fs.currentPath ++ slash :: dirname).take 255

/-- The directory part of an absolute path; the root when nothing is left. -/
def orRoot (directory : CString) : CString := if directory = [] then rootPath else directory

/-- What happens in the parent directory, unless it cannot be entered. -/
def createIn (fuel : Nat) (v : Volume) (path : CString) : Option (Int × Volume) :=
  if baseOf path = [] then some (-1, v)
  else do
    let (code, parent) ← fat16Chdir fuel v (orRoot (directoryOf path))
    if code ≠ 0 then some (-1, parent)
    else do
      let existing ← findEntryInCurrentDir fuel parent (baseOf path)
      return if existing.isSome then (-1, parent) else createNew parent (baseOf path)

def fat16CreateDir (fuel : Nat) (v : Volume) (dirname : CString) : Option (Int × Volume) :=
  let path := absolutePath v dirname
  if v.fs.isMounted = false ∨ dirname = [] then some (-1, v)
  else if 256 ≤ path.length ∨ 64 ≤ (baseOf path).length then none
  else do
    let (result, created) ← createIn fuel v path
    let (_, left) ← fat16Chdir fuel created v.fs.currentPath
    return (result, left)

/-- The steps of a copy up to the write: the bytes of the source, once the
target's directory is entered. `none` inside stands for the result -1. -/
def readForCopy (fuel : Nat) (v : Volume) (src dst : CString) : Option (Option (List UInt8) × Volume) := do
  let (code, source) ← fat16Chdir fuel v (orRoot (directoryOf src))
  if code ≠ 0 then some (none, source)
  else do
    let (size, source) ← fat16GetFileSize fuel source (baseOf src)
    if size = 0 then some (none, source)
    else do
      let (bytes, source) ← fat16ReadFile fuel source (baseOf src) 0 size
      if bytes.length ≠ size then some (none, source)
      else do
        let (code, target) ← fat16Chdir fuel source (orRoot (directoryOf dst))
        return if code ≠ 0 then (none, target) else (some bytes, target)

/-- `slack` is what lies in memory behind the copy of the file. -/
def fat16CopyFile (fuel : Nat) (v : Volume) (src dst : CString) (slack : Mem) : Option (Int × Volume) :=
  if 256 ≤ src.length ∨ 256 ≤ dst.length then none
  else if slash ∉ src ∨ slash ∉ dst then some (-1, v)
  else do
    let (bytes, target) ← readForCopy fuel v src dst
    match bytes with
    | none =>
      let (_, left) ← fat16Chdir fuel target v.fs.currentPath
      return (-1, left)
    | some bytes =>
      let data : Mem := fun i => if i < bytes.length then bytes.getD i 0 else slack i
      let written ← fat16WriteFile fuel target (baseOf dst) data bytes.length
      let (_, left) ← fat16Chdir fuel written v.fs.currentPath
      return (0, left)

end MeowMeowOS.Fat16Files

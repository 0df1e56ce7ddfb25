import MeowMeowOS.Fat16Names
import MeowMeowOS.RunSearch

/-! Directories: runs of 32-byte entries that five functions of `fat16.c` walk
with one and the same loop, collecting a long name on the way. Entries are
numbered through the sectors, 16 to each. -/
namespace MeowMeowOS.Fat16Directory
open ByteMemory RunSearch Fat16Disk Fat16Names

/-! ## Fields of an entry -/

def fileName (e : Slot) : List UInt8 := (List.range 11).map e

def attributes (e : Slot) : UInt8 := e 11

def clusterLow (e : Slot) : Nat := readHalf e 26

def fileSize (e : Slot) : Nat := readWord e 28

def isDirectory (e : Slot) : Bool := attributes e &&& 0x10 ≠ 0

/-- `filename[0] == '.' && (filename[1] == ' ' || filename[1] == '.')` -/
def isDotEntry (e : Slot) : Bool := e 0 = 0x2E ∧ (e 1 = 0x20 ∨ e 1 = 0x2E)

def neverUsed (e : Slot) : Bool := e 0 = 0x00

def deleted (e : Slot) : Bool := e 0 = 0xE5

def isLongName (e : Slot) : Bool := attributes e = 0x0F

/-- The entry that `add_dir_entry` writes. -/
def shortEntry (shortName : List UInt8) (attributes : UInt8) (cluster size : Nat) : Slot :=
  let e : Slot := fun j => if j < 11 then shortName.getD j 0 else 0
  let e := writeByte e 11 attributes
  let e := writeHalf e 26 cluster
  writeWord e 28 size

/-! ## Entries on the disk -/

/-- An entry ends after 32 bytes. -/
def trim (e : Slot) : Slot := fun j => if j < 32 then e j else 0

/-- Entry `p` of the directory whose sectors start at `slba`. -/
def dirSlot (d : Disk) (slba p : Nat) : Slot :=
  trim fun j => kdiskReadSector d (slba + p / 16) (p % 16 * 32 + j)

/-- Entry `p` is changed in its sector, which is written back. -/
def modifySlot (d : Disk) (slba p : Nat) (f : Slot → Slot) : Disk :=
  let buf := kdiskReadSector d (slba + p / 16)
  kdiskWriteSector d (slba + p / 16) fun o =>
    if p % 16 * 32 ≤ o ∧ o < p % 16 * 32 + 32 then f (dirSlot d slba p) (o - p % 16 * 32) else buf o

/-- First sector and number of sectors of the directory at a cluster; 0 stands
for the root. -/
def dirStart (fs : FsState) (cluster : Nat) : Nat :=
  if cluster = 0 then fs.rootDirLba else clusterLba fs cluster

def dirSectors (fs : FsState) (cluster : Nat) : Nat :=
  if cluster = 0 then fs.rootDirSectors else fs.sectorsPerCluster

def dirLength (fs : FsState) (cluster : Nat) : Nat := 16 * dirSectors fs cluster

/-- The entries of one cluster, or of the root, in order. -/
def slotsOf (v : Volume) (cluster : Nat) : List Slot :=
  (List.range (dirLength v.fs cluster)).map (dirSlot v.disk (dirStart v.fs cluster))

/-! ## The loop over the entries -/

/-- `lfn_buf`, `lfn_chksum`, and where the long-name run began. -/
structure Scan where
  lfnBuf : Mem
  lfnChksum : UInt8
  lfnStart : Option Nat

def emptyBuf : Mem := fun _ => 0

def Scan.initial : Scan := ⟨emptyBuf, 0, none⟩

/-- An entry the loop stops at, with the long name in front of it, empty when
there is none. -/
structure Visit where
  position : Nat
  slot : Slot
  lfnName : CString
  lfnStart : Option Nat

def Scan.cleared (scan : Scan) : Scan := { scan with lfnBuf := emptyBuf, lfnStart := none }

def Scan.longName (scan : Scan) (p : Nat) (e : Slot) : Scan :=
  ⟨extractLfnChars e scan.lfnBuf, e 13, some (scan.lfnStart.getD p)⟩

/-- A long name with another checksum than the short name's is thrown away. -/
def Scan.checked (scan : Scan) (e : Slot) : Scan :=
  if scan.lfnBuf 0 ≠ 0 ∧ scan.lfnChksum ≠ lfnChecksum (fileName e) then scan.cleared else scan

/-- The entries the loop reaches, from entry `p` on, and the state in which it
runs off the end; none when it meets a never-used entry. -/
def visits : Nat → Scan → List Slot → List Visit × Option Scan
  | _, scan, [] => ([], some scan)
  | p, scan, e :: rest =>
    if neverUsed e then ([], none)
    else if deleted e then visits (p + 1) scan.cleared rest
    else if isLongName e then visits (p + 1) (scan.longName p e) rest
    else
      let checked := scan.checked e
      let visit := ⟨p, e, lfnString checked.lfnBuf, checked.lfnStart⟩
      let (more, ending) := visits (p + 1) checked.cleared rest
      (visit :: more, ending)

/-- The comparison of a visited entry with a name that is looked for. -/
def Visit.matches (visit : Visit) (target : CString) : Bool :=
  if visit.lfnName ≠ [] then fat16Strcasecmp visit.lfnName target
  else fileName visit.slot == formatFilenameToFat target

/-! ## The functions that walk a directory -/

/-- The walk through the clusters of a subdirectory. -/
def findInChain (v : Volume) (target : CString) : Nat → Nat → Scan → Option (Option Slot)
  | 0, _, _ => none
  | fuel + 1, cluster, scan =>
    if InChain cluster then
      let (found, ending) := visits 0 scan (slotsOf v cluster)
      match found.find? (·.matches target) with
      | some visit => some (some visit.slot)
      | none =>
        match ending with
        | none => some none
        | some scan => findInChain v target fuel (getFatEntry v cluster) scan
    else some none

/-- The outer result is missing when the walk does not end. -/
def findEntryInCurrentDir (fuel : Nat) (v : Volume) (target : CString) : Option (Option Slot) :=
  if v.fs.currentDirCluster = 0 then
    some (((visits 0 Scan.initial (slotsOf v 0)).1.find? (·.matches target)).map (·.slot))
  else findInChain v target fuel v.fs.currentDirCluster Scan.initial

def listChain (v : Volume) : Nat → Nat → Scan → Option (List Visit)
  | 0, _, _ => none
  | fuel + 1, cluster, scan =>
    if InChain cluster then
      let (seen, ending) := visits 0 scan (slotsOf v cluster)
      match ending with
      | none => some seen
      | some scan => (listChain v fuel (getFatEntry v cluster) scan).map (seen ++ ·)
    else some []

/-- The entries for which `fat16_list` calls its visitor. -/
def fat16List (fuel : Nat) (v : Volume) : Option (List Visit) :=
  if v.fs.currentDirCluster = 0 then some (visits 0 Scan.initial (slotsOf v 0)).1
  else listChain v fuel v.fs.currentDirCluster Scan.initial

/-- The name `fat16_list` hands to its visitor. -/
def listedName (visit : Visit) : CString :=
  if visit.lfnName ≠ [] then visit.lfnName
  else
    let base := ((fileName visit.slot).take 8).takeWhile (· ≠ 0x20)
    let ext := (fileName visit.slot).drop 8
    if ext.head? ≠ some 0x20 then base ++ 0x2E :: ext.takeWhile (· ≠ 0x20) else base

def isDirEmptySlots : List Slot → Bool
  | [] => true
  | e :: rest =>
    if neverUsed e then true
    else if deleted e || isLongName e then isDirEmptySlots rest
    else if isDotEntry e then isDirEmptySlots rest
    else false

/-- Only the first sector is looked at. -/
def isDirEmpty (v : Volume) (cluster : Nat) : Bool :=
  isDirEmptySlots ((List.range 16).map (dirSlot v.disk (clusterLba v.fs cluster)))

/-! ## The functions that change a directory -/

/-- Entries `first` to `last` get the mark of a deleted entry. -/
def markEntriesDeleted (d : Disk) (slba first last : Nat) : Disk :=
  (List.range (last + 1 - first)).foldl
    (fun d i => modifySlot d slba (first + i) fun e => writeByte e 0 0xE5) d

/-- The entries that carry a name: its long-name entries, last part first,
and the short entry behind them. -/
def nameEntries (baseName : CString) (attributes : UInt8) (cluster size : Nat) : List Slot :=
  let shortName := shortNameFor baseName
  let lfnCount := if needLfn baseName then (baseName.length + 12) / 13 else 0
  (List.range lfnCount).map (fun i =>
      populateLfnEntry baseName (lfnCount - i) (lfnChecksum shortName) (i = 0)) ++
    [shortEntry shortName attributes cluster size]

def writeSlots (d : Disk) (slba : Nat) : Nat → List Slot → Disk
  | _, [] => d
  | p, e :: rest => writeSlots (modifySlot d slba p fun _ => e) slba (p + 1) rest

/-- A never-used or deleted entry. -/
def isFreeSlot (e : Slot) : Bool := neverUsed e || deleted e

/-- Where `add_dir_entry` puts `required` entries. -/
def findFreeSlots (v : Volume) (required : Nat) : Option Nat :=
  let slba := dirStart v.fs v.fs.currentDirCluster
  firstRun (fun p => isFreeSlot (dirSlot v.disk slba p)) required
    (dirLength v.fs v.fs.currentDirCluster) 0 0 0

/-- The result is missing when the function returns -1. -/
def addDirEntry (v : Volume) (baseName : CString) (attributes : UInt8) (cluster size : Nat) :
    Option Volume :=
  let entries := nameEntries baseName attributes cluster size
  (findFreeSlots v entries.length).map fun start =>
    { v with disk := writeSlots v.disk (dirStart v.fs v.fs.currentDirCluster) start entries }

/-- The first entry of the current directory's first cluster that carries the
name and the wanted kind, as the two deleting functions look for it. -/
def findToDelete (v : Volume) (baseName : CString) (directory : Bool) : Option Visit :=
  (visits 0 Scan.initial (slotsOf v v.fs.currentDirCluster)).1.find? fun visit =>
    visit.matches baseName && isDirectory visit.slot == directory

/-- The chain's entries are cleared one after the other, each read first. -/
def freeChain : Nat → Volume → Nat → Option Volume
  | 0, _, _ => none
  | fuel + 1, v, curr =>
    if InChain curr then freeChain fuel (setFatEntry v curr 0x0000) (getFatEntry v curr)
    else some v

def removeEntry (fuel : Nat) (v : Volume) (visit : Visit) : Option Volume :=
  let d := markEntriesDeleted v.disk (dirStart v.fs v.fs.currentDirCluster)
    (visit.lfnStart.getD visit.position) visit.position
  freeChain fuel { v with disk := d } (clusterLow visit.slot)

end MeowMeowOS.Fat16Directory

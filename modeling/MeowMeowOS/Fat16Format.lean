import MeowMeowOS.Fat16Files

/-! Formatting and mounting. A format that preserves the system directory
copies the old table, marks every cluster it reaches from that directory,
writes a new table from the marks, clears the root and adds the one entry
again. -/
namespace MeowMeowOS.Fat16Format
open ByteMemory Fat16Disk Fat16Names Fat16Directory

/-! ## The parameter block -/

def bytesPerSector (b : Sector) : Nat := readHalf b 11
def sectorsPerClusterOf (b : Sector) : Nat := (b 13).toNat
def reservedSectorsOf (b : Sector) : Nat := readHalf b 14
def fatCount (b : Sector) : Nat := (b 16).toNat
def rootDirEntries (b : Sector) : Nat := readHalf b 17
def sectorsPerFatOf (b : Sector) : Nat := readHalf b 22

def writeBytes (b : Sector) (a : Nat) (bytes : List UInt8) : Sector :=
  fun o => if a ≤ o ∧ o < a + bytes.length then bytes.getD (o - a) 0 else b o

/-- `sectors_per_fat` for a disk of so many sectors, in `uint16_t`. -/
def fatSectorsFor (totalSectors : Nat) : Nat := (totalSectors / 32 * 2 / 512 + 1) % 2 ^ 16

/-- "MEOWMEOW", with the padding of the volume label, and "FAT16   ". -/
def volumeLabel : List UInt8 := padded 11 [0x4D, 0x45, 0x4F, 0x57, 0x4D, 0x45, 0x4F, 0x57]

def fsType : List UInt8 := padded 8 [0x46, 0x41, 0x54, 0x31, 0x36]

def bootSector (b : Sector) (totalSectors : Nat) : Sector :=
  let b := writeBytes b 0 [0xEB, 0x3C, 0x90]
  let b := writeBytes b 3 (volumeLabel.take 8)
  let b := writeHalf b 11 512
  let b := writeByte b 13 32
  let b := writeHalf b 14 256
  let b := writeByte b 16 2
  let b := writeHalf b 17 512
  let b := writeHalf b 19 (if totalSectors < 65536 then totalSectors else 0)
  let b := writeWord b 32 (if totalSectors < 65536 then 0 else totalSectors)
  let b := writeByte b 21 0xF8
  let b := writeHalf b 22 (fatSectorsFor totalSectors)
  let b := writeHalf b 24 63
  let b := writeHalf b 26 255
  let b := writeWord b 28 0
  let b := writeByte b 36 0x80
  let b := writeByte b 37 0x00
  let b := writeByte b 38 0x29
  let b := writeWord b 39 0x12345678
  let b := writeBytes b 43 volumeLabel
  let b := writeBytes b 54 fsType
  writeBytes b 510 [0x55, 0xAA]

/-! ## Protecting the system directory -/

/-- `protected_flags` and the length it was allocated with. -/
structure Flags where
  length : Nat
  marked : Nat → Bool

/-- A store behind the array is no defined step. -/
def Flags.mark (flags : Flags) (c : Nat) : Option Flags :=
  if c < flags.length then some { flags with marked := Function.update flags.marked c true } else none

def protectFatChain (oldFat : Nat → Nat) : Nat → Flags → Nat → Option Flags
  | 0, _, _ => none
  | fuel + 1, flags, c =>
    if InChain c then
      if c < flags.length ∧ flags.marked c then some flags
      else (flags.mark c).bind fun flags => protectFatChain oldFat fuel flags (oldFat c)
    else some flags

/-- The loop over the entries of one cluster. The result tells whether it met
a never-used entry, which ends the whole directory. -/
def protectSlots (subtree chain : Flags → Nat → Option Flags) : Flags → List Slot → Option (Flags × Bool)
  | flags, [] => some (flags, false)
  | flags, e :: rest =>
    if neverUsed e then some (flags, true)
    else if deleted e || isLongName e then protectSlots subtree chain flags rest
    else if isDotEntry e then protectSlots subtree chain flags rest
    else
      ((if isDirectory e then subtree else chain) flags (clusterLow e)).bind fun flags =>
        protectSlots subtree chain flags rest

def protectDirectoryTree (v : Volume) (oldFat : Nat → Nat) : Nat → Flags → Nat → Option Flags
  | 0, _, _ => none
  | fuel + 1, flags, c =>
    if InChain c then
      (flags.mark c).bind fun flags =>
        (protectSlots (protectDirectoryTree v oldFat fuel) (protectFatChain oldFat fuel) flags
          (slotsOf v c)).bind fun (flags, ended) =>
            if ended then some flags else protectDirectoryTree v oldFat fuel flags (oldFat c)
    else some flags

/-! ## Formatting -/

/-- What the kernel heap holds behind the two arrays: the code reads past the
end of either. -/
structure HeapJunk where
  flag : Nat → Bool
  entry : Nat → Nat

def system : CString := [0x73, 0x79, 0x73, 0x74, 0x65, 0x6D]

/-- The system directory's cluster, when the old volume has one to keep. -/
def systemCluster (v : Volume) (preserveSystem : Bool) : Option Nat :=
  if preserveSystem ∧ v.fs.isMounted then
    match ((visits 0 Scan.initial (slotsOf v 0)).1.find?
        (·.matches system)).map (·.slot) with
    | some e => if isDirectory e then some (clusterLow e) else none
    | none => none
  else none

def oldFatOf (v : Volume) (junk : HeapJunk) (c : Nat) : Nat :=
  if c < v.fs.sectorsPerFat * 256 then tableEntry v c else junk.entry c

/-- The new table's entry for a cluster. -/
def newEntry (junk : HeapJunk) (oldFat : Nat → Nat) (flags : Option Flags) (cluster : Nat) : Nat :=
  if cluster = 0 then 0xFFF8
  else if cluster = 1 then 0xFFFF
  else
    match flags with
    | none => 0
    | some flags =>
      if (if cluster < flags.length then flags.marked cluster else junk.flag cluster) then oldFat cluster
      else 0

def fatSector (entry : Nat → Nat) (s : Nat) : Sector := fun o =>
  UInt8.ofNat (if o % 2 = 0 then entry (s * 256 + o / 2) else entry (s * 256 + o / 2) / 256)

def writeTables (d : Disk) (spf : Nat) (entry : Nat → Nat) : Disk :=
  (List.range spf).foldl (fun d s =>
    kdiskWriteSector (kdiskWriteSector d (256 + s) (fatSector entry s)) (256 + spf + s) (fatSector entry s)) d

def clearRoot (d : Disk) (rootLba : Nat) : Disk :=
  (List.range 32).foldl (fun d i => kdiskWriteSector d (rootLba + i) fun _ => 0) d

/-- Everything before the system entry is added again. -/
def writeEmpty (d : Disk) (totalSectors : Nat) (entry : Nat → Nat) : Disk :=
  let spf := fatSectorsFor totalSectors
  let d := kdiskWriteSector d 0 (bootSector (kdiskReadSector d 0) totalSectors)
  let d := writeTables d spf entry
  clearRoot d (256 + 2 * spf)


def fat16FormatDrive (fuel : Nat) (junk : HeapJunk) (v : Volume) (maxSectors : Nat)
    (preserveSystem : Bool) : Option Volume :=
  let totalSectors := if maxSectors = 0 ∨ v.disk.total < maxSectors then v.disk.total else maxSectors
  let oldFat := oldFatOf v junk
  match systemCluster v preserveSystem with
  | none => some { v with disk := writeEmpty v.disk totalSectors (newEntry junk oldFat none) }
  | some start =>
    if v.fs.sectorsPerCluster = 0 then none
    else
      let unmarked : Flags := ⟨totalSectors / v.fs.sectorsPerCluster + 2, fun _ => false⟩
      (protectDirectoryTree v oldFat fuel unmarked start).map fun flags =>
        let v := { v with disk := writeEmpty v.disk totalSectors (newEntry junk oldFat (some flags)) }
        if 2 ≤ start then (addDirEntry v system 0x10 start 0).getD v else v

/-! ## Mounting -/

def mountedFs (b : Sector) : FsState :=
  let rootDirLba := reservedSectorsOf b + fatCount b * sectorsPerFatOf b
  let rootDirSectors := rootDirEntries b * 32 / 512
  { isMounted := true
    reservedSectors := reservedSectorsOf b
    sectorsPerFat := sectorsPerFatOf b
    sectorsPerCluster := sectorsPerClusterOf b
    rootDirLba := rootDirLba
    rootDirSectors := rootDirSectors
    dataRegionLba := rootDirLba + rootDirSectors
    currentDirCluster := 0
    currentPath := [0x2F] }

/-- A disk that is not of this format is formatted first. -/
def fat16Initialize (fuel : Nat) (junk : HeapJunk) (v : Volume) : Option Volume :=
  let b := kdiskReadSector v.disk 0
  if bytesPerSector b ≠ 512 ∨ fatCount b ≠ 2 then
    (fat16FormatDrive fuel junk v 0 false).map fun v =>
      { v with fs := mountedFs (kdiskReadSector v.disk 0) }
  else some { v with fs := mountedFs b }

end MeowMeowOS.Fat16Format

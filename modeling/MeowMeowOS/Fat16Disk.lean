import MeowMeowOS.ByteMemory
import Mathlib.Logic.Function.Basic
import Mathlib.Data.List.Range

/-! The disk below the FAT16 driver and the two copies of its allocation
table. Sectors are read and written whole; the block device turns a sector
number into a byte offset in `uint32_t`, so numbers wrap at 2^23, and a write
behind the last sector is lost. -/
namespace MeowMeowOS.Fat16Disk
open ByteMemory

/-- The 512 bytes of a sector, from offset 0. -/
abbrev Sector := Mem

structure Disk where
  total : Nat
  sectors : Nat → Sector

def kdiskReadSector (d : Disk) (lba : Nat) : Sector := d.sectors (lba % 2 ^ 23)

def kdiskWriteSector (d : Disk) (lba : Nat) (buf : Sector) : Disk :=
  if lba % 2 ^ 23 < d.total then { d with sectors := Function.update d.sectors (lba % 2 ^ 23) buf }
  else d

/-- `fs_state_t`. Strings are lists of their bytes, without the final zero. -/
structure FsState where
  isMounted : Bool
  rootDirLba : Nat
  rootDirSectors : Nat
  dataRegionLba : Nat
  sectorsPerFat : Nat
  sectorsPerCluster : Nat
  reservedSectors : Nat
  currentDirCluster : Nat
  currentPath : List UInt8

structure Volume where
  fs : FsState
  disk : Disk

def getFatEntry (v : Volume) (cluster : Nat) : Nat :=
  readHalf (kdiskReadSector v.disk (v.fs.reservedSectors + cluster * 2 / 512)) (cluster * 2 % 512)

def setFatEntry (v : Volume) (cluster value : Nat) : Volume :=
  let lbaOff := cluster * 2 / 512
  let buf := writeHalf (kdiskReadSector v.disk (v.fs.reservedSectors + lbaOff)) (cluster * 2 % 512) value
  let d := kdiskWriteSector v.disk (v.fs.reservedSectors + lbaOff) buf
  { v with disk := kdiskWriteSector d (v.fs.reservedSectors + v.fs.sectorsPerFat + lbaOff) buf }

/-- Entry `i` of sector `s` of the table, as the search numbers it. -/
def tableEntry (v : Volume) (c : Nat) : Nat :=
  readHalf (kdiskReadSector v.disk (v.fs.reservedSectors + c / 256)) (c % 256 * 2)

/-- The lowest free cluster, truncated to `uint16_t`; 0xFFFF when there is none. -/
def findFreeCluster (v : Volume) : Nat :=
  match (List.range (v.fs.sectorsPerFat * 256)).find? fun c => 2 ≤ c ∧ tableEntry v c = 0 with
  | some c => c % 2 ^ 16
  | none => 0xFFFF

/-- The test of every loop along a chain. -/
abbrev InChain (c : Nat) : Prop := 2 ≤ c ∧ c < 0xFFF8

/-- `data_region_lba + (cluster - 2) * sectors_per_cluster` in `uint32_t`. -/
def clusterLba (fs : FsState) (cluster : Nat) : Nat :=
  (fs.dataRegionLba + (cluster + 2 ^ 32 - 2) * fs.sectorsPerCluster) % 2 ^ 32

/-! ## Reads after writes -/

theorem kdiskRead_write (d : Disk) (a b : Nat) (buf : Sector) :
    kdiskReadSector (kdiskWriteSector d a buf) b =
      if b % 2 ^ 23 = a % 2 ^ 23 ∧ a % 2 ^ 23 < d.total then buf else kdiskReadSector d b := by
  unfold kdiskWriteSector kdiskReadSector
  by_cases onDisk : a % 2 ^ 23 < d.total
  · by_cases same : b % 2 ^ 23 = a % 2 ^ 23
    · rw [if_pos onDisk, if_pos ⟨same, onDisk⟩, same]
      exact Function.update_self _ _ _
    · rw [if_pos onDisk, if_neg (fun both => same both.1)]
      exact Function.update_of_ne same _ _
  · rw [if_neg onDisk, if_neg (fun both => onDisk both.2)]

@[simp] theorem kdiskWrite_total (d : Disk) (a : Nat) (buf : Sector) :
    (kdiskWriteSector d a buf).total = d.total := by
  unfold kdiskWriteSector
  split <;> rfl

@[simp] theorem setFatEntry_fs (v : Volume) (c x : Nat) : (setFatEntry v c x).fs = v.fs := rfl

@[simp] theorem setFatEntry_total (v : Volume) (c x : Nat) :
    (setFatEntry v c x).disk.total = v.disk.total := by
  simp [setFatEntry]

theorem getFatEntry_lt (v : Volume) (c : Nat) : getFatEntry v c < 2 ^ 16 := readHalf_lt _ _

theorem tableEntry_eq (v : Volume) (c : Nat) : tableEntry v c = getFatEntry v c := by
  have sector : c * 2 / 512 = c / 256 := by omega
  have offset : c * 2 % 512 = c % 256 * 2 := by omega
  rw [tableEntry, getFatEntry, sector, offset]

end MeowMeowOS.Fat16Disk

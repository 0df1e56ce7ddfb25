import MeowMeowOS.Fat16Entries
import MeowMeowOS.Fat16Format

/-! What formatting leaves on the disk: a parameter block, two equal tables, an
empty root, and the data sectors as they were. -/
namespace MeowMeowOS.Fat16Formatted
open ByteMemory RunSearch Fat16Disk Fat16Names Fat16Directory Fat16Files Fat16Format
open Fat16Geometry Fat16Scan Fat16Entries

/-- A mounted volume with the layout that formatting gives a disk of this size.
The driver below reports the 28-bit size of the disk. -/
structure Formatted (v : Volume) : Prop where
  mounted : v.fs.isMounted = true
  reserved : v.fs.reservedSectors = 256
  tables : v.fs.sectorsPerFat = fatSectorsFor v.disk.total
  root : v.fs.rootDirLba = 256 + 2 * v.fs.sectorsPerFat
  rootSize : v.fs.rootDirSectors = 32
  data : v.fs.dataRegionLba = v.fs.rootDirLba + 32
  cluster : v.fs.sectorsPerCluster = 32
  onDisk : v.fs.dataRegionLba ≤ v.disk.total
  size : v.disk.total < 2 ^ 28

theorem fatSectorsFor_lt (total : Nat) : fatSectorsFor total < 2 ^ 16 := Nat.mod_lt _ (by decide)

theorem wellPlaced_of_formatted (formatted : Formatted v) : WellPlaced v where
  root := by rw [formatted.root, formatted.reserved]
  data := by rw [formatted.data, formatted.rootSize]
  onDisk := formatted.onDisk
  noWrap := by
    have small := fatSectorsFor_lt v.disk.total
    rw [← formatted.tables] at small
    rw [formatted.data, formatted.root, formatted.cluster]
    omega

/-- A data cluster on the disk has its entry in the table, and a place among
the protection flags. -/
theorem inData_small (formatted : Formatted v) (inData : InData v c) :
    InTable v c ∧ c < v.disk.total / v.fs.sectorsPerCluster + 2 := by
  obtain ⟨first, small, fits⟩ := inData
  obtain ⟨_, _, tables, root, _, data, cluster, onDisk, size⟩ := formatted
  rw [cluster] at fits ⊢
  unfold fatSectorsFor at tables
  exact ⟨⟨small, by omega⟩, by omega⟩

/-! ## Sectors -/

section Sectors
variable {d : Disk} {spf b : Nat} {entry : Nat → Nat}

theorem read_write_mod (small : a < 2 ^ 23) (onDisk : a < d.total) (smallB : b < 2 ^ 23) :
    kdiskReadSector (kdiskWriteSector d a buf) b = if b = a then buf else kdiskReadSector d b := by
  rw [kdiskRead_write, Nat.mod_eq_of_lt small, Nat.mod_eq_of_lt smallB]
  simp [onDisk]

theorem read_writeTables (spf n : Nat) (entry : Nat → Nat) (le : n ≤ spf) (fits : 256 + 2 * spf ≤ d.total)
    (small : 256 + 2 * spf < 2 ^ 23) (smallB : b < 2 ^ 23) :
    let written := (List.range n).foldl (fun d s =>
      kdiskWriteSector (kdiskWriteSector d (256 + s) (fatSector entry s)) (256 + spf + s) (fatSector entry s)) d
    written.total = d.total ∧ kdiskReadSector written b =
      if 256 ≤ b ∧ b < 256 + n then fatSector entry (b - 256)
      else if 256 + spf ≤ b ∧ b < 256 + spf + n then fatSector entry (b - 256 - spf)
      else kdiskReadSector d b := by
  induction n with
  | zero =>
    refine ⟨rfl, ?_⟩
    rw [if_neg (by omega), if_neg (by omega)]
    rfl
  | succ n ih =>
    obtain ⟨total, read⟩ := ih (by omega)
    simp only [List.range_succ, List.foldl_append, List.foldl_cons, List.foldl_nil]
    refine ⟨by rw [kdiskWrite_total, kdiskWrite_total, total], ?_⟩
    rw [read_write_mod (by omega) (by rw [kdiskWrite_total, total]; omega) smallB,
      read_write_mod (by omega) (by rw [total]; omega) smallB, read]
    by_cases second : b = 256 + spf + n
    · subst second
      rw [if_pos rfl, if_neg (by omega), if_pos (by omega), show 256 + spf + n - 256 - spf = n by omega]
    · rw [if_neg second]
      by_cases first : b = 256 + n
      · subst first
        rw [if_pos rfl, if_pos (by omega), show 256 + n - 256 = n by omega]
      · have inFirst : (256 ≤ b ∧ b < 256 + (n + 1)) ↔ 256 ≤ b ∧ b < 256 + n := by omega
        have inSecond : (256 + spf ≤ b ∧ b < 256 + spf + (n + 1)) ↔
            256 + spf ≤ b ∧ b < 256 + spf + n := by omega
        simp only [if_neg first, inFirst, inSecond]

theorem read_clearRoot (rootLba n : Nat) (fits : rootLba + n ≤ d.total) (small : rootLba + n < 2 ^ 23)
    (smallB : b < 2 ^ 23) :
    let cleared := (List.range n).foldl (fun d i => kdiskWriteSector d (rootLba + i) fun _ => 0) d
    cleared.total = d.total ∧ kdiskReadSector cleared b =
      if rootLba ≤ b ∧ b < rootLba + n then fun _ => 0 else kdiskReadSector d b := by
  induction n with
  | zero =>
    refine ⟨rfl, ?_⟩
    rw [if_neg (by omega)]
    rfl
  | succ n ih =>
    obtain ⟨total, read⟩ := ih (by omega) (by omega)
    simp only [List.range_succ, List.foldl_append, List.foldl_cons, List.foldl_nil]
    refine ⟨by rw [kdiskWrite_total, total], ?_⟩
    rw [read_write_mod (by omega) (by rw [total]; omega) smallB, read]
    by_cases here : b = rootLba + n
    · subst here
      rw [if_pos rfl, if_pos (by omega)]
    · rw [if_neg here]
      by_cases inside : rootLba ≤ b ∧ b < rootLba + n
      · rw [if_pos inside, if_pos (by omega)]
      · rw [if_neg inside, if_neg (by omega)]

/-- The sectors of a disk that has been formatted empty. -/
theorem read_writeEmpty (fits : 288 + 2 * fatSectorsFor totalSectors ≤ d.total) (small : b < 2 ^ 23) :
    let spf := fatSectorsFor totalSectors
    (writeEmpty d totalSectors entry).total = d.total ∧
    kdiskReadSector (writeEmpty d totalSectors entry) b =
      if 256 + 2 * spf ≤ b ∧ b < 288 + 2 * spf then fun _ => 0
      else if 256 ≤ b ∧ b < 256 + spf then fatSector entry (b - 256)
      else if 256 + spf ≤ b ∧ b < 256 + 2 * spf then fatSector entry (b - 256 - spf)
      else if b = 0 then bootSector (kdiskReadSector d 0) totalSectors
      else kdiskReadSector d b := by
  have bound := fatSectorsFor_lt totalSectors
  generalize spfIs : fatSectorsFor totalSectors = spf at *
  unfold writeEmpty writeTables clearRoot
  simp only [spfIs]
  generalize bootIs : kdiskWriteSector d 0 (bootSector (kdiskReadSector d 0) totalSectors) = boot
  have bootTotal : boot.total = d.total := by
    rw [← bootIs, kdiskWrite_total]
  obtain ⟨tablesTotal, tables⟩ :=
    read_writeTables (d := boot) spf spf entry (Nat.le_refl _) (by omega) (by omega) small
  obtain ⟨rootTotal, root⟩ := read_clearRoot (256 + 2 * spf) 32 (by rw [tablesTotal]; omega) (by omega) small
  refine ⟨rootTotal.trans (tablesTotal.trans bootTotal), ?_⟩
  rw [root, tables, ← bootIs, read_write_mod (by omega) (by omega) small]
  by_cases inRoot : 256 + 2 * spf ≤ b ∧ b < 288 + 2 * spf
  · rw [if_pos inRoot, if_pos (by omega)]
  · rw [if_neg inRoot, if_neg (by omega), show 256 + spf + spf = 256 + 2 * spf by omega]

/-- An entry of the table is read back as it was given. -/
theorem readHalf_fatSector (entry : Nat → Nat) (s i : Nat) :
    readHalf (fatSector entry s) (i * 2) = entry (s * 256 + i) % 2 ^ 16 := by
  have low : fatSector entry s (i * 2) = UInt8.ofNat (entry (s * 256 + i)) := by
    rw [fatSector, if_pos (by omega), show i * 2 / 2 = i by omega]
  have high : fatSector entry s (i * 2 + 1) = UInt8.ofNat (entry (s * 256 + i) / 256) := by
    rw [fatSector, if_neg (by omega), show (i * 2 + 1) / 2 = i by omega]
  simp only [readHalf, low, high, UInt8.toNat_ofNat']
  omega

end Sectors

/-! ## Entries of the second table -/

/-- What `get_fat_entry` would read in the second table. -/
def secondEntry (v : Volume) (c : Nat) : Nat :=
  readHalf (kdiskReadSector v.disk (v.fs.reservedSectors + v.fs.sectorsPerFat + c / 256)) (c % 256 * 2)

/-- Both tables hold what was given. -/
theorem writeEmpty_entries (formatted : Formatted v) (inTable : c < v.fs.sectorsPerFat * 256) :
    let w : Volume := { v with disk := writeEmpty v.disk v.disk.total entry }
    getFatEntry w c = entry c % 2 ^ 16 ∧ secondEntry w c = entry c % 2 ^ 16 := by
  have small := fatSectorsFor_lt v.disk.total
  obtain ⟨_, reserved, tables, root, _, data, _, onDisk, _⟩ := formatted
  have fits : 288 + 2 * fatSectorsFor v.disk.total ≤ v.disk.total := by omega
  have whole : c / 256 * 256 + c % 256 = c := by omega
  dsimp only
  constructor
  · rw [← tableEntry_eq, tableEntry]
    dsimp only
    rw [reserved, (read_writeEmpty fits (by omega)).2, if_neg (by omega), if_pos (by omega),
      show 256 + c / 256 - 256 = c / 256 by omega, readHalf_fatSector, whole]
  · rw [secondEntry]
    dsimp only
    rw [reserved, (read_writeEmpty fits (by omega)).2, if_neg (by omega), if_neg (by omega),
      if_pos (by omega), tables,
      show 256 + fatSectorsFor v.disk.total + c / 256 - 256 - fatSectorsFor v.disk.total = c / 256 by omega,
      readHalf_fatSector, whole]

/-- The data sectors stay. -/
theorem writeEmpty_data (formatted : Formatted v) :
    SameSectors v.disk (writeEmpty v.disk v.disk.total entry) v.fs.dataRegionLba (2 ^ 23) := by
  obtain ⟨_, _, tables, root, _, data, _, onDisk, _⟩ := formatted
  intro b above below
  rw [(read_writeEmpty (by omega) below).2, if_neg (by omega), if_neg (by omega), if_neg (by omega),
    if_neg (by omega)]

/-- The root holds never-used entries only. -/
theorem writeEmpty_root (formatted : Formatted v) (small : k < 512) :
    dirSlot (writeEmpty v.disk v.disk.total entry) v.fs.rootDirLba k = emptyBuf := by
  have bound := fatSectorsFor_lt v.disk.total
  obtain ⟨_, _, tables, root, _, data, _, onDisk, _⟩ := formatted
  unfold dirSlot
  rw [(read_writeEmpty (by omega) (by omega)).2, if_pos (by omega)]
  funext j
  simp [trim, emptyBuf]

theorem writeEmpty_total (formatted : Formatted v) :
    (writeEmpty v.disk v.disk.total entry).total = v.disk.total := by
  obtain ⟨_, _, tables, root, _, data, _, onDisk, _⟩ := formatted
  have fits : 288 + 2 * fatSectorsFor v.disk.total ≤ v.disk.total := by omega
  exact (read_writeEmpty fits (show 0 < 2 ^ 23 by decide)).1

end MeowMeowOS.Fat16Formatted

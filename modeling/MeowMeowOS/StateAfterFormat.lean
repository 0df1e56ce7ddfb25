import MeowMeowOS.MountedGeometry
import MeowMeowOS.Fat16Formatted
import MeowMeowOS.DirectoryWalks

/-! What a format does to the state of the driver: nothing. The new volume has the
parameters of its boot sector and an empty root, the driver goes on with those it read at
the mount and with its current directory. -/
namespace MeowMeowOS.StateAfterFormat
open ByteMemory Fat16Disk Fat16Names Fat16Directory Fat16Paths Fat16Format
open Fat16Geometry Fat16Scan Fat16Entries Fat16Formatted FormattedRuns MountedGeometry PathResolution
open KeptSystem (zeroJunk)

/-- The fields that mounting reads from the boot sector. -/
def geometry (fs : FsState) : FsState := { fs with currentDirCluster := 0, currentPath := rootPath }

/-- Mounting would find the fields as they are, and the current directory is the root or
one that its path leads to. -/
structure InStep (v : Volume) : Prop where
  fields : ∀ fuel junk, fat16Initialize fuel junk v = some { v with fs := geometry v.fs }
  directory : v.fs.currentDirCluster = 0 ∨ Resolves v

section
variable {v w : Volume} {d : Disk} {slba p j fuel maxSectors n : Nat} {junk : HeapJunk} {preserveSystem : Bool}

/-! ## Bytes outside of the entries written -/

theorem modifySlot_byte (f : Slot → Slot) (b : Nat)
    (apart : ¬ ((slba + p / 16) % 2 ^ 23 = b % 2 ^ 23 ∧ p % 16 * 32 ≤ j ∧ j < p % 16 * 32 + 32)) :
    kdiskReadSector (modifySlot d slba p f) b j = kdiskReadSector d b j := by
  unfold modifySlot
  dsimp only
  rw [kdiskRead_write]
  split
  · rename_i same
    dsimp only
    rw [if_neg fun inside => apart ⟨same.1.symm, inside⟩]
    unfold kdiskReadSector
    rw [same.1]
  · rfl

theorem writeSlots_byte (entries : List Slot) (b : Nat) (apart : ∀ q, p ≤ q → q < p + entries.length →
    ¬ ((slba + q / 16) % 2 ^ 23 = b % 2 ^ 23 ∧ q % 16 * 32 ≤ j ∧ j < q % 16 * 32 + 32)) :
    kdiskReadSector (writeSlots d slba p entries) b j = kdiskReadSector d b j := by
  induction entries generalizing d p with
  | nil => rfl
  | cons e rest ih =>
    rw [List.length_cons] at apart
    rw [writeSlots, ih fun q above below => apart q (by omega) (by omega)]
    exact modifySlot_byte _ b (apart p (Nat.le_refl p) (by omega))

/-! ## The parameter block -/

theorem bootSector_first (b : Sector) (n : Nat) : bootSector b n 0 = 0xEB := by
  have label : volumeLabel.length = 11 := by decide
  have type : fsType.length = 8 := by decide
  unfold bootSector
  generalize volumeLabel = label' at label ⊢
  generalize fsType = type' at type ⊢
  simp [writeBytes, writeHalf, writeByte, writeWord, label, type]

/-- The fields lie in the first 32 bytes. -/
theorem mountedFs_front {b c : Sector} (front : ∀ j < 32, b j = c j) :
    mountedFs b = mountedFs c ∧ (Accepted b ↔ Accepted c) := by
  have half : ∀ a < 31, readHalf b a = readHalf c a := by
    intro a small
    unfold readHalf
    rw [front a (by omega), front (a + 1) (by omega)]
  have spc : sectorsPerClusterOf b = sectorsPerClusterOf c := congrArg UInt8.toNat (front 13 (by decide))
  have fats : fatCount b = fatCount c := congrArg UInt8.toNat (front 16 (by decide))
  have bytes : bytesPerSector b = bytesPerSector c := half 11 (by decide)
  have reserved : reservedSectorsOf b = reservedSectorsOf c := half 14 (by decide)
  have entries : rootDirEntries b = rootDirEntries c := half 17 (by decide)
  have tables : sectorsPerFatOf b = sectorsPerFatOf c := half 22 (by decide)
  unfold mountedFs Accepted
  rw [spc, fats, bytes, reserved, entries, tables]
  exact ⟨rfl, Iff.rfl⟩

/-- No entry is free where the parameter block begins. -/
theorem added_front {b : Sector} {base : CString} {attr : UInt8} {cluster size : Nat}
    (boot : kdiskReadSector v.disk 0 = bootSector b n) :
    ∀ j < 32, kdiskReadSector ((addDirEntry v base attr cluster size).getD v).disk 0 j = bootSector b n j := by
  intro j small
  rw [← boot]
  cases added : addDirEntry v base attr cluster size with
  | none => rfl
  | some w =>
    unfold addDirEntry at added
    obtain ⟨start, found, rfl⟩ := Option.map_eq_some_iff.mp added
    obtain ⟨-, free⟩ := findFreeSlots_free found
    refine writeSlots_byte _ 0 fun q above below here => ?_
    obtain ⟨k, rfl⟩ := Nat.exists_eq_add_of_le above
    have unused := free k (by omega)
    have first : dirSlot v.disk (dirStart v.fs v.fs.currentDirCluster) (start + k) 0 = 0xEB := by
      have sector : kdiskReadSector v.disk (dirStart v.fs v.fs.currentDirCluster + (start + k) / 16) =
          bootSector b n := by
        rw [← boot]
        unfold kdiskReadSector
        rw [here.1]
      unfold dirSlot
      rw [trim_lt _ 0 (by decide), sector, show (start + k) % 16 * 32 + 0 = 0 by omega, bootSector_first]
    unfold isFreeSlot neverUsed deleted at unused
    rw [first] at unused
    exact absurd unused (by decide)

/-! ## The new volume -/

/-- A format writes an empty volume and perhaps one entry. -/
theorem format_outcome (ran : fat16FormatDrive fuel junk v maxSectors preserveSystem = some w) :
    ∃ entry u, u = { v with disk := writeEmpty v.disk (formattedSectors v maxSectors) entry } ∧
      (w = u ∨ ∃ start, w = (addDirEntry u system 0x10 start 0).getD u) := by
  cases kept : systemCluster v preserveSystem with
  | none =>
    rw [format_fresh kept] at ran
    exact ⟨_, _, rfl, Or.inl (Option.some.inj ran).symm⟩
  | some start =>
    unfold fat16FormatDrive at ran
    rw [kept] at ran
    dsimp only at ran
    split at ran
    · cases ran
    · obtain ⟨flags, -, same⟩ := Option.map_eq_some_iff.mp ran
      refine ⟨newEntry junk (oldFatOf v junk) (some flags), _, rfl, ?_⟩
      unfold formattedSectors
      generalize writeEmpty _ _ _ = d at same ⊢
      rw [← same]
      split
      · exact Or.inr ⟨start, rfl⟩
      · exact Or.inl rfl

/-- What mounting the new volume finds. -/
theorem format_mounts (present : 0 < v.disk.total)
    (ran : fat16FormatDrive fuel junk v maxSectors preserveSystem = some w) :
    ∀ fuel junk, fat16Initialize fuel junk w = some { w with fs := formattedFs (formattedSectors v maxSectors) } := by
  obtain ⟨entry, u, made, last⟩ := format_outcome ran
  obtain ⟨-, b, boot⟩ := writeEmpty_boot present (formattedSectors v maxSectors) entry
  generalize writeEmpty v.disk (formattedSectors v maxSectors) entry = d at made boot
  replace boot : kdiskReadSector u.disk 0 = bootSector b (formattedSectors v maxSectors) := by rw [made, boot]
  have front : ∀ j < 32, kdiskReadSector w.disk 0 j = bootSector b (formattedSectors v maxSectors) j := by
    rcases last with rfl | ⟨start, rfl⟩
    · rw [boot]
      exact fun j _ => rfl
    · exact added_front boot
  obtain ⟨bytes, fats, fs⟩ := bootSector_fields b (formattedSectors v maxSectors)
  obtain ⟨same, accepted⟩ := mountedFs_front front
  intro fuel junk
  rw [initialize_accepted (accepted.mpr ⟨bytes, fats⟩), same, fs]

/-- The root sectors of the new volume hold zeros where no entry is added. -/
theorem format_rootSector (room : 288 + 2 * fatSectorsFor v.disk.total ≤ v.disk.total)
    (fields : geometry v.fs = formattedFs v.disk.total)
    (below : 2 ≤ v.fs.currentDirCluster ∧ v.fs.currentDirCluster < 2 ^ 16)
    (ran : fat16FormatDrive fuel junk v 0 preserveSystem = some w) : kdiskReadSector w.disk w.fs.rootDirLba 0 = 0 := by
  obtain ⟨entry, u, made, last⟩ := format_outcome ran
  have laid : LaidFor v.disk.total v := ⟨fields, below.2⟩
  obtain ⟨-, root, -, data, spc, -, small⟩ := laidFor_fields laid
  have whole : formattedSectors v 0 = v.disk.total := if_pos (Or.inl rfl)
  obtain ⟨-, cleared⟩ := @read_writeEmpty v.disk (256 +
    2 * fatSectorsFor v.disk.total) entry v.disk.total room (by omega)
  rw [if_pos (by omega)] at cleared
  rw [whole] at made
  generalize writeEmpty v.disk v.disk.total entry = d at made cleared
  have fs : u.fs = v.fs := by rw [made]
  have zero : kdiskReadSector u.disk v.fs.rootDirLba 0 = 0 := by rw [made, root, cleared]
  rw [format_fs ran]
  rcases last with rfl | ⟨start, rfl⟩
  · exact zero
  · cases added : addDirEntry u system 0x10 start 0 with
    | none => exact zero
    | some w =>
      unfold addDirEntry at added
      obtain ⟨first, found, rfl⟩ := Option.map_eq_some_iff.mp added
      have fits := (findFreeSlots_free found).1
      refine (writeSlots_byte _ _ fun q above inside here => ?_).trans zero
      -- the entry goes to the cluster of the current directory, behind the root
      rw [fs] at fits here
      have length : dirLength v.fs v.fs.currentDirCluster = 512 := (directory_low laid below.2).2.2
      have behind : dirStart v.fs v.fs.currentDirCluster = 288 + 2 * fatSectorsFor v.disk.total +
          (v.fs.currentDirCluster - 2) * 32 := by
        have shift : 288 + 2 * fatSectorsFor v.disk.total + (v.fs.currentDirCluster + 2 ^ 32 - 2) * 32 =
            288 + 2 * fatSectorsFor v.disk.total + (v.fs.currentDirCluster - 2) * 32 + 2 ^ 32 * 32 := by omega
        rw [dirStart, if_neg (by omega), clusterLba, data, spc, shift, Nat.add_mul_mod_self_left,
          Nat.mod_eq_of_lt (by omega)]
      rw [length] at fits
      rw [behind, root] at here
      omega

/-- So the root has no entries then. -/
theorem format_empties (room : 288 + 2 * fatSectorsFor v.disk.total ≤ v.disk.total)
    (fields : geometry v.fs = formattedFs v.disk.total)
    (below : 2 ≤ v.fs.currentDirCluster ∧ v.fs.currentDirCluster < 2 ^ 16)
    (ran : fat16FormatDrive fuel junk v 0 preserveSystem = some w) (name : CString) (e : Slot) :
    ¬ Finds w 0 name e := by
  rintro ⟨fuel, path, found⟩
  have zero := format_rootSector room fields below ran
  have unused : neverUsed (dirSlot w.disk w.fs.rootDirLba 0) = true := by
    unfold neverUsed dirSlot
    rw [trim_lt _ 0 (by decide)]
    simpa using zero
  unfold findEntryInCurrentDir at found
  rw [if_pos (show (enter w 0 path).fs.currentDirCluster = 0 from rfl)] at found
  obtain ⟨visit, target, -⟩ := Option.map_eq_some_iff.mp (Option.some.inj found)
  have none : (visits 0 Scan.initial (slotsOf (enter w 0 path) 0)).1 = [] := by
    change (visits 0 Scan.initial (slotsOf w 0)).1 = []
    unfold slotsOf
    cases dirLength w.fs 0 with
    | zero => rfl
    | succ length =>
      rw [List.range_succ_eq_map, List.map_cons, visits_neverUsed (by exact unused)]
  rw [none] at target
  cases target

/-- Whoever is below the root has left it by some name. -/
theorem leadTo_first {names : List CString} {c : Nat} (lead : LeadTo v names c) (below : c ≠ 0) :
    ∃ name e, Finds v 0 name e := by
  induction lead with
  | root => exact absurd rfl below
  | @down names c name e rest plain found directory ih =>
    by_cases first : c = 0
    · exact ⟨name, e, first ▸ found⟩
    · exact ih first

/-- The driver is in step with the disk after a format if and only if it had the
parameters that the format writes before, and was in the root. -/
theorem format_inStep_iff (room : 288 + 2 * fatSectorsFor v.disk.total ≤ v.disk.total)
    (directory : v.fs.currentDirCluster = 0 ∨ 2 ≤ v.fs.currentDirCluster ∧ v.fs.currentDirCluster < 2 ^ 16)
    (ran : fat16FormatDrive fuel junk v 0 preserveSystem = some w) :
    InStep w ↔ geometry v.fs = formattedFs v.disk.total ∧ v.fs.currentDirCluster = 0 := by
  have fs := format_fs ran
  have mounts := format_mounts (by omega) ran
  rw [show formattedSectors v 0 = v.disk.total from if_pos (Or.inl rfl)] at mounts
  constructor
  · rintro ⟨fields, placed⟩
    have same := Option.some.inj ((mounts fuel junk).symm.trans (fields fuel junk))
    have matching : geometry v.fs = formattedFs v.disk.total := by
      rw [← fs]
      exact (congrArg Volume.fs same).symm
    refine ⟨matching, ?_⟩
    rcases directory with root | below
    · exact root
    · rcases placed with root | ⟨names, -, -, lead⟩
      · rw [← fs, root]
      · rw [fs] at lead
        obtain ⟨name, e, found⟩ := leadTo_first lead (by omega)
        exact absurd found (format_empties room matching below ran name e)
  · rintro ⟨matching, root⟩
    refine ⟨fun fuel junk => ?_, Or.inl (fs ▸ root)⟩
    rw [mounts, fs, matching]

end

/-! ## A disk with small clusters -/

/-- The parameter block of a volume with one reserved sector, two tables of 16 sectors, 512
entries in the root and four sectors in a cluster. -/
def smallClusterBoot : Sector :=
  writeHalf (writeHalf (writeByte (writeHalf (writeByte (writeHalf (fun _ => 0) 11 512) 13 4) 14 1) 16 2) 17 512) 22 16

def smallClusterVolume : Volume :=
  ⟨mountedFs smallClusterBoot, ⟨16384, Function.update (fun _ _ => 0) 0 smallClusterBoot⟩⟩

theorem smallCluster_formats : ∃ w, fat16FormatDrive 0 zeroJunk smallClusterVolume 0 true = some w := by
  have empty : systemCluster smallClusterVolume true = none := by decide +kernel
  exact ⟨_, format_fresh empty⟩

theorem format_inStep_iff_smallCluster : ∃ w, fat16FormatDrive 0 zeroJunk smallClusterVolume 0 true = some w ∧
    (InStep w ↔ geometry smallClusterVolume.fs = formattedFs smallClusterVolume.disk.total ∧
      smallClusterVolume.fs.currentDirCluster = 0) := by
  obtain ⟨w, ran⟩ := smallCluster_formats
  exact ⟨w, ran, format_inStep_iff (by decide) (Or.inl rfl) ran⟩

/-- It is mounted as it is. After `SYS_FORMAT` the driver still counts four sectors for a
cluster, the new volume has 32. -/
theorem format_loses_step : ∃ v w, fat16Initialize 0 zeroJunk v = some v ∧
    fat16FormatDrive 0 zeroJunk v 0 true = some w ∧ ¬ InStep w := by
  have boot : kdiskReadSector smallClusterVolume.disk 0 = smallClusterBoot := by
    simp only [kdiskReadSector, smallClusterVolume, Nat.zero_mod, Function.update_self]
  have accepted : Accepted smallClusterBoot := by
    unfold Accepted
    decide
  obtain ⟨w, ran⟩ := smallCluster_formats
  refine ⟨smallClusterVolume, w, ?_, ran, fun inStep => ?_⟩
  · rw [initialize_accepted (boot ▸ accepted), boot]
    rfl
  · have mounts := format_mounts (by decide) ran 0 zeroJunk
    have same := Option.some.inj (mounts.symm.trans (inStep.fields 0 zeroJunk))
    have kept : (32 : Nat) = w.fs.sectorsPerCluster := congrArg (fun v => v.fs.sectorsPerCluster) same
    rw [format_fs ran] at kept
    exact absurd kept (by decide)

end MeowMeowOS.StateAfterFormat

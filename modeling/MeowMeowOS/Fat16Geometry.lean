import MeowMeowOS.Fat16Files

/-! Where things lie on a volume: the two tables, the root directory and the
data clusters follow each other, so a write into one of them leaves the others
alone. -/
namespace MeowMeowOS.Fat16Geometry
open ByteMemory Fat16Disk Fat16Names Fat16Directory Fat16Files

/-- What formatting establishes: the areas in their order, the system area on
the disk, and no sector number that wraps. -/
structure WellPlaced (v : Volume) : Prop where
  root : v.fs.rootDirLba = v.fs.reservedSectors + 2 * v.fs.sectorsPerFat
  data : v.fs.dataRegionLba = v.fs.rootDirLba + v.fs.rootDirSectors
  onDisk : v.fs.dataRegionLba ≤ v.disk.total
  noWrap : v.fs.dataRegionLba + 65536 * v.fs.sectorsPerCluster ≤ 2 ^ 23

/-- The cluster's entry lies in the table. -/
def InTable (v : Volume) (c : Nat) : Prop := c < 2 ^ 16 ∧ c / 256 < v.fs.sectorsPerFat

/-- The cluster's sectors lie in the data area and on the disk. -/
def InData (v : Volume) (c : Nat) : Prop :=
  2 ≤ c ∧ c < 2 ^ 16 ∧
    v.fs.dataRegionLba + (c - 2) * v.fs.sectorsPerCluster + v.fs.sectorsPerCluster ≤ v.disk.total

/-- The directory's sectors lie on the disk: the root, or a data cluster. -/
def DirPlaced (v : Volume) (c : Nat) : Prop := c = 0 ∨ InData v c

/-! ## Sectors without wrapping -/

theorem read_write_same (small : a < 2 ^ 23) (onDisk : a < d.total) :
    kdiskReadSector (kdiskWriteSector d a buf) a = buf := by
  rw [kdiskRead_write, Nat.mod_eq_of_lt small]
  simp [onDisk]

theorem read_write_apart (smallA : a < 2 ^ 23) (smallB : b < 2 ^ 23) (apart : b ≠ a) :
    kdiskReadSector (kdiskWriteSector d a buf) b = kdiskReadSector d b := by
  rw [kdiskRead_write, Nat.mod_eq_of_lt smallA, Nat.mod_eq_of_lt smallB]
  simp [apart]

/-- Two disks that hold the same in these sectors. -/
def SameSectors (d d' : Disk) (lo hi : Nat) : Prop :=
  ∀ b, lo ≤ b → b < hi → kdiskReadSector d' b = kdiskReadSector d b

theorem SameSectors.trans (first : SameSectors a b lo hi) (second : SameSectors b c lo hi) :
    SameSectors a c lo hi :=
  fun s above below => (second s above below).trans (first s above below)

theorem SameSectors.refl (d : Disk) (lo hi : Nat) : SameSectors d d lo hi := fun _ _ _ => rfl

theorem SameSectors.narrow (same : SameSectors d d' lo hi) (above : lo ≤ lo') (below : hi' ≤ hi) :
    SameSectors d d' lo' hi' :=
  fun s first second => same s (Nat.le_trans above first) (Nat.lt_of_lt_of_le second below)

theorem write_sameSectors (small : a < 2 ^ 23) (bound : hi ≤ 2 ^ 23) (apart : a < lo ∨ hi ≤ a) :
    SameSectors d (kdiskWriteSector d a buf) lo hi :=
  fun b above below => read_write_apart small (by omega) (by omega)

section Placed
variable {v : Volume}

theorem clusterLba_eq (placed : WellPlaced v) (first : 2 ≤ c) (small : c < 2 ^ 16) :
    clusterLba v.fs c = v.fs.dataRegionLba + (c - 2) * v.fs.sectorsPerCluster := by
  have noWrap := placed.noWrap
  have shift : (c + 2 ^ 32 - 2) * v.fs.sectorsPerCluster =
      (c - 2) * v.fs.sectorsPerCluster + 2 ^ 32 * v.fs.sectorsPerCluster := by
    rw [← Nat.add_mul]
    congr 1
    omega
  have bound : (c - 2) * v.fs.sectorsPerCluster ≤ 65536 * v.fs.sectorsPerCluster :=
    Nat.mul_le_mul_right _ (by omega)
  rw [clusterLba, shift, ← Nat.add_assoc, Nat.add_mul_mod_self_left]
  exact Nat.mod_eq_of_lt (by omega)

/-- Clusters are consecutive runs of sectors, so distinct ones are apart. -/
theorem cluster_apart (ne : c ≠ c') (first : 2 ≤ c) (first' : 2 ≤ c') (spc : Nat) :
    (c - 2) * spc + spc ≤ (c' - 2) * spc ∨ (c' - 2) * spc + spc ≤ (c - 2) * spc := by
  rcases Nat.lt_or_gt_of_ne ne with less | less
  · left
    rw [← Nat.succ_mul]
    exact Nat.mul_le_mul_right _ (by omega)
  · right
    rw [← Nat.succ_mul]
    exact Nat.mul_le_mul_right _ (by omega)

theorem cluster_bound (placed : WellPlaced v) (small : c < 2 ^ 16) :
    v.fs.dataRegionLba + (c - 2) * v.fs.sectorsPerCluster + v.fs.sectorsPerCluster ≤ 2 ^ 23 := by
  have noWrap := placed.noWrap
  have bound : (c - 2 + 1) * v.fs.sectorsPerCluster ≤ 65536 * v.fs.sectorsPerCluster :=
    Nat.mul_le_mul_right _ (by omega)
  rw [Nat.succ_mul] at bound
  omega

/-! ## The table -/

theorem setFatEntry_sectors (placed : WellPlaced v) (inTable : InTable v c)
    (bound : hi ≤ 2 ^ 23) (behind : v.fs.rootDirLba ≤ lo) :
    SameSectors v.disk (setFatEntry v c x).disk lo hi := by
  obtain ⟨small, sector⟩ := inTable
  have root := placed.root
  have data := placed.data
  have noWrap := placed.noWrap
  have word : c * 2 / 512 = c / 256 := by omega
  intro b above below
  simp only [setFatEntry, word]
  rw [read_write_apart (by omega) (by omega) (by omega),
    read_write_apart (by omega) (by omega) (by omega)]

theorem getFatEntry_setFatEntry (placed : WellPlaced v) (inTable : InTable v c)
    (inTable' : InTable v c') :
    getFatEntry (setFatEntry v c x) c' = if c' = c then x % 2 ^ 16 else getFatEntry v c' := by
  obtain ⟨small, sector⟩ := inTable
  obtain ⟨small', sector'⟩ := inTable'
  have root := placed.root
  have data := placed.data
  have onDisk := placed.onDisk
  have noWrap := placed.noWrap
  have word : c * 2 / 512 = c / 256 := by omega
  have word' : c' * 2 / 512 = c' / 256 := by omega
  simp only [getFatEntry, setFatEntry, word, word']
  rw [read_write_apart (by omega) (by omega) (by omega)]
  by_cases together : c' / 256 = c / 256
  · rw [together, read_write_same (by omega) (by omega)]
    by_cases same : c' = c
    · simp [same]
    · rw [if_neg same, readHalf_writeHalf_apart _ _ _ _ (by omega)]
  · rw [read_write_apart (by omega) (by omega) (by omega)]
    have : c' ≠ c := fun same => together (by rw [same])
    simp [this]

theorem getFatEntry_setEnd {x : Nat} (placed : WellPlaced v) (inTable : InTable v c) (inside : InTable v x) :
    getFatEntry (setFatEntry v c 0xFFFF) x = if x = c then 0xFFFF else getFatEntry v x := by
  rw [getFatEntry_setFatEntry placed inTable inside, Nat.mod_eq_of_lt (show 0xFFFF < 2 ^ 16 by decide)]

theorem wellPlaced_of_eq (placed : WellPlaced v) (fs : v'.fs = v.fs)
    (total : v'.disk.total = v.disk.total) : WellPlaced v' where
  root := by rw [fs]; exact placed.root
  data := by rw [fs]; exact placed.data
  onDisk := by rw [fs, total]; exact placed.onDisk
  noWrap := by rw [fs]; exact placed.noWrap

/-- A write behind the tables changes no entry. -/
theorem getFatEntry_sectors (fs : v'.fs = v.fs)
    (same : SameSectors v.disk v'.disk v.fs.reservedSectors (v.fs.reservedSectors + v.fs.sectorsPerFat))
    (inTable : InTable v c) : getFatEntry v' c = getFatEntry v c := by
  obtain ⟨small, sector⟩ := inTable
  simp only [getFatEntry, fs]
  rw [same _ (by omega) (by omega)]

end Placed

/-! ## Entries of directories -/

section Slots

theorem dirSlot_sectors (same : SameSectors d d' slba (slba + n)) (small : p < 16 * n) :
    dirSlot d' slba p = dirSlot d slba p := by
  unfold dirSlot
  rw [same _ (by omega) (by omega)]

@[simp] theorem modifySlot_total (d : Disk) (slba p : Nat) (f : Slot → Slot) :
    (modifySlot d slba p f).total = d.total := by
  simp [modifySlot]

theorem modifySlot_sectors (small : slba + p / 16 < 2 ^ 23) (bound : hi ≤ 2 ^ 23)
    (apart : slba + p / 16 < lo ∨ hi ≤ slba + p / 16) :
    SameSectors d (modifySlot d slba p f) lo hi := by
  unfold modifySlot
  exact write_sameSectors small bound apart

/-- Only the entry itself changes. -/
theorem dirSlot_modifySlot (small : slba + p / 16 < 2 ^ 23) (onDisk : slba + p / 16 < d.total)
    (small' : slba + q / 16 < 2 ^ 23) :
    dirSlot (modifySlot d slba p f) slba q =
      if q = p then trim (f (dirSlot d slba p)) else dirSlot d slba q := by
  by_cases together : q / 16 = p / 16
  · have read : kdiskReadSector (modifySlot d slba p f) (slba + p / 16) = fun o =>
        if p % 16 * 32 ≤ o ∧ o < p % 16 * 32 + 32 then f (dirSlot d slba p) (o - p % 16 * 32)
        else kdiskReadSector d (slba + p / 16) o := by
      unfold modifySlot
      exact read_write_same small onDisk
    funext j
    by_cases same : q = p
    · subst same
      rw [if_pos rfl]
      generalize wanted : trim (f (dirSlot d slba q)) j = w
      simp only [dirSlot, trim, read]
      by_cases inside : j < 32
      · rw [if_pos inside, if_pos (by omega), ← wanted, trim, if_pos inside]
        congr 1
        omega
      · rw [if_neg inside, ← wanted, trim, if_neg inside]
    · rw [if_neg same]
      simp only [dirSlot, trim, together, read]
      by_cases inside : j < 32
      · rw [if_pos inside, if_pos inside, if_neg (by omega)]
      · rw [if_neg inside, if_neg inside]
  · have : q ≠ p := fun same => together (by rw [same])
    rw [if_neg this]
    unfold dirSlot
    rw [show kdiskReadSector (modifySlot d slba p f) (slba + q / 16) =
      kdiskReadSector d (slba + q / 16) from read_write_apart small small' (by omega)]

/-- All fields lie in the first 32 bytes. -/
theorem trim_lt (e : Slot) (j : Nat) (small : j < 32) : trim e j = e j := if_pos small

@[simp] theorem neverUsed_trim (e : Slot) : neverUsed (trim e) = neverUsed e := by
  unfold neverUsed trim
  simp

@[simp] theorem deleted_trim (e : Slot) : deleted (trim e) = deleted e := by
  unfold deleted trim
  simp

@[simp] theorem attributes_trim (e : Slot) : attributes (trim e) = attributes e := by
  unfold attributes trim
  simp

@[simp] theorem isLongName_trim (e : Slot) : isLongName (trim e) = isLongName e := by
  unfold isLongName
  rw [attributes_trim]

@[simp] theorem isDirectory_trim (e : Slot) : isDirectory (trim e) = isDirectory e := by
  unfold isDirectory
  rw [attributes_trim]

@[simp] theorem isDotEntry_trim (e : Slot) : isDotEntry (trim e) = isDotEntry e := by
  unfold isDotEntry trim
  simp

@[simp] theorem clusterLow_trim (e : Slot) : clusterLow (trim e) = clusterLow e := by
  unfold clusterLow trim readHalf
  simp

@[simp] theorem fileSize_trim (e : Slot) : fileSize (trim e) = fileSize e := by
  unfold fileSize trim readWord
  simp

theorem fileName_congr {e e' : Slot} (same : ∀ j < 11, e j = e' j) : fileName e = fileName e' :=
  List.map_congr_left fun j member => same j (List.mem_range.mp member)

@[simp] theorem fileName_trim (e : Slot) : fileName (trim e) = fileName e :=
  fileName_congr fun j small => trim_lt e j (by omega)

end Slots

/-! ## Runs of entries -/

/-- The sectors of a region, all on the disk. -/
def OnDisk (d : Disk) (slba n : Nat) : Prop := slba + n ≤ d.total ∧ slba + n ≤ 2 ^ 23

section Runs
variable {d : Disk} {slba n : Nat}

theorem onDisk_total (onDisk : OnDisk d slba n) (same : d'.total = d.total) : OnDisk d' slba n := by
  unfold OnDisk at *
  omega

@[simp] theorem writeSlots_total (d : Disk) (slba p : Nat) (entries : List Slot) :
    (writeSlots d slba p entries).total = d.total := by
  induction entries generalizing d p with
  | nil => rfl
  | cons e rest ih => rw [writeSlots, ih, modifySlot_total]

theorem writeSlots_sectors (onDisk : OnDisk d slba n) (fits : p + entries.length ≤ 16 * n)
    (bound : hi ≤ 2 ^ 23) (apart : slba + n ≤ lo ∨ hi ≤ slba) :
    SameSectors d (writeSlots d slba p entries) lo hi := by
  induction entries generalizing d p with
  | nil => exact SameSectors.refl d lo hi
  | cons e rest ih =>
    have noWrap := onDisk.2
    rw [List.length_cons] at fits
    rw [writeSlots]
    exact SameSectors.trans (modifySlot_sectors (by omega) bound (by omega))
      (ih (onDisk_total onDisk (modifySlot_total _ _ _ _)) (by omega))

/-- The written entries stand in their places, the others are as they were. -/
theorem dirSlot_writeSlots (onDisk : OnDisk d slba n) (fits : p + entries.length ≤ 16 * n)
    (small : q < 16 * n) :
    dirSlot (writeSlots d slba p entries) slba q =
      if p ≤ q ∧ q < p + entries.length then trim (entries.getD (q - p) emptyBuf)
      else dirSlot d slba q := by
  induction entries generalizing d p with
  | nil =>
    have : ¬ (p ≤ q ∧ q < p + ([] : List Slot).length) := by
      simp only [List.length_nil]
      omega
    rw [writeSlots, if_neg this]
  | cons e rest ih =>
    obtain ⟨total, noWrap⟩ := onDisk
    rw [List.length_cons] at fits
    rw [writeSlots, ih (onDisk_total ⟨total, noWrap⟩ (modifySlot_total _ _ _ _)) (by omega),
      dirSlot_modifySlot (by omega) (by omega) (by omega), List.length_cons]
    by_cases first : q = p
    · subst first
      rw [if_neg (by omega), if_pos rfl, if_pos (by omega)]
      simp
    · by_cases inside : p ≤ q ∧ q < p + (rest.length + 1)
      · rw [if_pos (by omega), if_pos inside]
        rw [show q - p = (q - (p + 1)) + 1 by omega, List.getD_cons_succ]
      · rw [if_neg (by omega), if_neg first, if_neg inside]

/-- Marking runs through the entries one by one. -/
theorem markEntriesDeleted_slots (first count : Nat) (onDisk : OnDisk d slba n) (fits : first + count ≤ 16 * n)
    (small : q < 16 * n) :
    let marked := (List.range count).foldl
      (fun d i => modifySlot d slba (first + i) fun e => writeByte e 0 0xE5) d
    marked.total = d.total ∧
      (∀ lo hi, hi ≤ 2 ^ 23 → slba + n ≤ lo ∨ hi ≤ slba → SameSectors d marked lo hi) ∧
      dirSlot marked slba q =
        if first ≤ q ∧ q < first + count then trim (writeByte (dirSlot d slba q) 0 0xE5)
        else dirSlot d slba q := by
  obtain ⟨total, noWrap⟩ := onDisk
  induction count with
  | zero =>
    refine ⟨rfl, fun lo hi _ _ => SameSectors.refl d lo hi, ?_⟩
    rw [if_neg (by omega)]
    rfl
  | succ count ih =>
    obtain ⟨sameTotal, sectors, slots⟩ := ih (by omega)
    simp only [List.range_succ, List.foldl_append, List.foldl_cons, List.foldl_nil]
    refine ⟨by rw [modifySlot_total, sameTotal], fun lo hi bound apart => ?_, ?_⟩
    · exact SameSectors.trans (sectors lo hi bound apart)
        (modifySlot_sectors (by omega) bound (by omega))
    · rw [dirSlot_modifySlot (by omega) (by omega) (by omega)]
      by_cases last : q = first + count
      · subst last
        rw [if_neg (by omega)] at slots
        rw [if_pos rfl, if_pos (by omega), slots]
      · rw [if_neg last, slots]
        by_cases inside : first ≤ q ∧ q < first + count
        · rw [if_pos inside, if_pos (by omega)]
        · rw [if_neg inside, if_neg (by omega)]

/-- Entries `first` to `last` are deleted and everything else is kept. -/
theorem dirSlot_markEntriesDeleted (onDisk : OnDisk d slba n) (order : first ≤ last)
    (fits : last < 16 * n) (small : q < 16 * n) :
    dirSlot (markEntriesDeleted d slba first last) slba q =
      if first ≤ q ∧ q ≤ last then trim (writeByte (dirSlot d slba q) 0 0xE5)
      else dirSlot d slba q := by
  have slots := (markEntriesDeleted_slots first (last + 1 - first) onDisk
    (by omega) small).2.2
  have range : (first ≤ q ∧ q < first + (last + 1 - first)) ↔ first ≤ q ∧ q ≤ last := by omega
  simp only [range] at slots
  exact slots

theorem markEntriesDeleted_sectors (onDisk : OnDisk d slba n) (order : first ≤ last)
    (fits : last < 16 * n) (bound : hi ≤ 2 ^ 23) (apart : slba + n ≤ lo ∨ hi ≤ slba) :
    SameSectors d (markEntriesDeleted d slba first last) lo hi :=
  (markEntriesDeleted_slots (q := first) first _ onDisk (by omega) (by omega)).2.1 lo hi bound apart

@[simp] theorem markEntriesDeleted_total (d : Disk) (slba first last : Nat) :
    (markEntriesDeleted d slba first last).total = d.total := by
  unfold markEntriesDeleted
  generalize List.range (last + 1 - first) = list
  induction list generalizing d with
  | nil => rfl
  | cons i rest ih => rw [List.foldl_cons, ih, modifySlot_total]

end Runs

/-! ## Directories as regions -/

section Directories
variable {v : Volume}

theorem dirRegion_onDisk (placed : WellPlaced v) (dir : DirPlaced v c) :
    OnDisk v.disk (dirStart v.fs c) (dirSectors v.fs c) := by
  have data := placed.data
  have onDisk := placed.onDisk
  have noWrap := placed.noWrap
  by_cases root : c = 0
  · simp only [dirStart, dirSectors, root, ↓reduceIte]
    exact ⟨by omega, by omega⟩
  · obtain ⟨first, small, fits⟩ := dir.resolve_left root
    have bound := cluster_bound placed small
    simp only [dirStart, dirSectors, root, ↓reduceIte, clusterLba_eq placed first small]
    exact ⟨by omega, by omega⟩

/-- Directories lie behind the tables. -/
theorem dirRegion_behind (placed : WellPlaced v) (dir : DirPlaced v c) :
    v.fs.rootDirLba ≤ dirStart v.fs c := by
  have data := placed.data
  by_cases root : c = 0
  · simp [dirStart, root]
  · obtain ⟨first, small, -⟩ := dir.resolve_left root
    simp only [dirStart, root, ↓reduceIte, clusterLba_eq placed first small]
    omega

/-- Distinct directories have no sector in common. -/
theorem dirRegion_apart (placed : WellPlaced v) (dir : DirPlaced v c) (dir' : DirPlaced v c')
    (ne : c ≠ c') :
    dirStart v.fs c + dirSectors v.fs c ≤ dirStart v.fs c' ∨
      dirStart v.fs c' + dirSectors v.fs c' ≤ dirStart v.fs c := by
  have data := placed.data
  by_cases root : c = 0
  · have other : c' ≠ 0 := fun same => ne (by rw [root, same])
    obtain ⟨first, small, -⟩ := dir'.resolve_left other
    simp only [dirStart, dirSectors, root, other, ↓reduceIte, clusterLba_eq placed first small]
    omega
  · obtain ⟨first, small, -⟩ := dir.resolve_left root
    by_cases root' : c' = 0
    · simp only [dirStart, dirSectors, root, root', ↓reduceIte, clusterLba_eq placed first small]
      omega
    · obtain ⟨first', small', -⟩ := dir'.resolve_left root'
      have apart := cluster_apart ne first first' v.fs.sectorsPerCluster
      simp only [dirStart, dirSectors, root, root', ↓reduceIte, clusterLba_eq placed first small,
        clusterLba_eq placed first' small']
      omega

end Directories

end MeowMeowOS.Fat16Geometry

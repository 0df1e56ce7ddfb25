import MeowMeowOS.SystemLookup
import MeowMeowOS.Fat16Formatted
import MeowMeowOS.EmptyDirectories

/-! A format that preserves the system directory. The tree survives on the disk
and in both tables, but its entry is added to the directory that happens to be
the current one. -/
namespace MeowMeowOS.KeptSystem
open ByteMemory RunSearch Fat16Disk Fat16Names Fat16Directory Fat16Paths Fat16Files Fat16Format
open Fat16Geometry Fat16Scan Fat16Walks Fat16Entries Fat16Formatted SystemTree SystemLookup
open MissingDirectories EmptyDirectories

section Format
variable {v w : Volume} {start : Nat} {junk : HeapJunk} {flags : Flags}

/-- What the search for the system directory has found. -/
theorem systemCluster_found (found : systemCluster v true = some start) (fuel : Nat) (path : CString) :
    ∃ e, findEntryInCurrentDir fuel (enter v 0 path) system = some (some e) ∧
      isDirectory e = true ∧ clusterLow e = start := by
  unfold systemCluster at found
  split at found
  · split at found
    · rename_i e target
      split at found
      · rename_i directory
        refine ⟨e, ?_, directory, Option.some.inj found⟩
        unfold findEntryInCurrentDir
        rw [if_pos (show (enter v 0 path).fs.currentDirCluster = 0 from rfl)]
        exact congrArg some target
      · cases found
    · cases found
  · cases found

/-- The disk once the tables and the root are written. -/
def emptied (v : Volume) (junk : HeapJunk) (flags : Flags) : Volume :=
  { v with disk := writeEmpty v.disk v.disk.total (newEntry junk (oldFatOf v junk) (some flags)) }

/-- The walk returns, and the format goes on with its marks. -/
theorem format_runs (formatted : Formatted v) (found : systemCluster v true = some start)
    (tree : DirTree v start) (junk : HeapJunk) : ∃ enough, ∀ fuel ≥ enough, ∃ flags,
      flags.length = v.disk.total / v.fs.sectorsPerCluster + 2 ∧
      (∀ x, flags.marked x = true ↔ Belongs v start x) ∧
      fat16FormatDrive fuel junk v 0 true =
        some ((addDirEntry (emptied v junk flags) system 0x10 start 0).getD (emptied v junk flags)) := by
  obtain ⟨enough, marking⟩ := protectDirectoryTree_marks tree
  refine ⟨enough, fun fuel above => ?_⟩
  obtain ⟨flags, ran, marks⟩ := marking fuel above (oldFatOf v junk)
    ⟨v.disk.total / v.fs.sectorsPerCluster + 2, fun _ => false⟩ (by
      intro x inData
      obtain ⟨⟨small, sector⟩, short⟩ := inData_small formatted inData
      refine ⟨?_, short⟩
      rw [oldFatOf, if_pos (by omega), tableEntry_eq]) (by intro x marked; cases marked)
  refine ⟨flags, marks.length, fun x => ?_, ?_⟩
  · rw [marks.marked]
    simp
  · have wide : v.fs.sectorsPerCluster ≠ 0 := by rw [formatted.cluster]; decide
    simp only [fat16FormatDrive, found, wide, true_or, ↓reduceIte, ran, Option.map_some,
      (dirTree_placed tree).1.1]
    rfl

theorem emptied_entry (formatted : Formatted v) (inTable : c < v.fs.sectorsPerFat * 256) :
    let entry := newEntry junk (oldFatOf v junk) (some flags) c
    getFatEntry (emptied v junk flags) c = entry % 2 ^ 16 ∧
      secondEntry (emptied v junk flags) c = entry % 2 ^ 16 :=
  writeEmpty_entries formatted inTable

/-- The tree's links are kept in the new table. -/
theorem emptied_link (formatted : Formatted v) (tree : DirTree v start)
    (length : flags.length = v.disk.total / v.fs.sectorsPerCluster + 2)
    (marks : ∀ x, flags.marked x = true ↔ Belongs v start x) (belongs : Belongs v start x) :
    getFatEntry (emptied v junk flags) x = getFatEntry v x := by
  obtain ⟨inChain, inData⟩ := belongs_placed tree belongs
  obtain ⟨⟨small, sector⟩, short⟩ := inData_small formatted inData
  have first := inChain.1
  rw [(emptied_entry formatted (by omega)).1, newEntry, if_neg (by omega), if_neg (by omega),
    length, if_pos short, if_pos ((marks x).mpr belongs), oldFatOf, if_pos (by omega), tableEntry_eq]
  exact Nat.mod_eq_of_lt (getFatEntry_lt v x)

/-- Every other cluster of the disk is free in both tables. -/
theorem emptied_free (formatted : Formatted v)
    (length : flags.length = v.disk.total / v.fs.sectorsPerCluster + 2)
    (marks : ∀ x, flags.marked x = true ↔ Belongs v start x) (first : 2 ≤ c)
    (short : c < v.disk.total / v.fs.sectorsPerCluster + 2) (inTable : c < v.fs.sectorsPerFat * 256)
    (other : ¬ Belongs v start c) :
    getFatEntry (emptied v junk flags) c = 0 ∧ secondEntry (emptied v junk flags) c = 0 := by
  have none : newEntry junk (oldFatOf v junk) (some flags) c = 0 := by
    rw [newEntry, if_neg (by omega), if_neg (by omega),
      length, if_pos short, if_neg fun marked => other ((marks c).mp marked)]
  have entry : ∀ x, newEntry junk (oldFatOf v junk) (some flags) c = x →
      getFatEntry (emptied v junk flags) c = x % 2 ^ 16 ∧ secondEntry (emptied v junk flags) c = x % 2 ^ 16 := by
    rintro _ rfl
    exact emptied_entry formatted inTable
  exact entry 0 none

/-! ## The entry that is added again -/

def systemEntries (start : Nat) : List Slot :=
  [populateLfnEntry system 1 (lfnChecksum (shortNameFor system)) true,
    shortEntry (shortNameFor system) 0x10 start 0]

/-- The long-name entry as it is read back. -/
def systemLong : Slot := trim (populateLfnEntry system 1 (lfnChecksum (shortNameFor system)) true)

theorem nameEntries_system (start : Nat) : nameEntries system 0x10 start 0 = systemEntries start := by
  have long : needLfn system = true := by decide
  simp only [nameEntries, long, ↓reduceIte]
  rfl

theorem neverUsed_emptyBuf : neverUsed emptyBuf = true := by
  simp [neverUsed, emptyBuf]

/-- The root with the two entries: the first carries the long name. -/
theorem system_visits (start : Nat) (rest : List Slot) :
    ∃ visit, (visits 0 Scan.initial
        (((systemEntries start).map trim) ++ emptyBuf :: rest)).1 = [visit] ∧
      visit.lfnName = system ∧ visit.slot = trim (shortEntry (shortNameFor system) 0x10 start 0) := by
  have name : fileName (trim (shortEntry (shortNameFor system) 0x10 start 0)) = shortNameFor system := by
    rw [fileName_trim, fileName_shortEntry _ _ _ _ (by decide)]
  obtain ⟨bytes, attr, -, -⟩ := shortEntry_fields (shortNameFor system) 0x10 start 0
  have first : shortEntry (shortNameFor system) 0x10 start 0 0 = 0x53 := (bytes 0 (by decide)).trans (by decide)
  have inUse : InUse (trim (shortEntry (shortNameFor system) 0x10 start 0)) := by
    refine ⟨?_, ?_, ?_⟩
    · simp [neverUsed, trim, first]
    · simp [deleted, trim, first]
    · rw [isLongName_trim, isLongName, attr]
      decide
  simp only [systemEntries, List.map_cons, List.map_nil, List.cons_append, List.nil_append]
  generalize trim (shortEntry (shortNameFor system) 0x10 start 0) = e at *
  have long : neverUsed systemLong = false ∧ deleted systemLong = false ∧ isLongName systemLong = true := by
    decide
  have chars : lfnString (extractLfnChars systemLong emptyBuf) = system := by decide
  have sum : systemLong 13 = lfnChecksum (fileName e) := by
    rw [name]
    decide +kernel
  have kept : (Scan.initial.longName 0 systemLong).checked e = Scan.initial.longName 0 systemLong := by
    rw [Scan.checked, if_neg]
    exact fun both => both.2 sum
  rw [← systemLong, visits_longName long.1 long.2.1 long.2.2, visits_inUse inUse,
    visits_neverUsed neverUsed_emptyBuf]
  have buf : (Scan.initial.longName 0 systemLong).lfnBuf = extractLfnChars systemLong emptyBuf := by
    simp only [Scan.longName, Scan.initial]
  refine ⟨visitOf 1 (Scan.initial.longName 0 systemLong) e, rfl, ?_, rfl⟩
  simp only [visitOf, kept, buf, chars]

end Format

/-! ## The volume afterwards -/

/-- The volume that a preserving format leaves, with these marks. -/
def reformatted (v : Volume) (junk : HeapJunk) (flags : Flags) (start : Nat) : Volume :=
  (addDirEntry (emptied v junk flags) system 0x10 start 0).getD (emptied v junk flags)

section After
variable {v : Volume} {start : Nat} {junk : HeapJunk} {flags : Flags}

@[simp] theorem emptied_fs (v : Volume) (junk : HeapJunk) (flags : Flags) :
    (emptied v junk flags).fs = v.fs := by
  simp only [emptied]

theorem emptied_total (formatted : Formatted v) :
    (emptied v junk flags).disk.total = v.disk.total := by
  simp only [emptied]
  exact writeEmpty_total formatted

theorem emptied_placed (formatted : Formatted v) : WellPlaced (emptied v junk flags) :=
  wellPlaced_of_eq (wellPlaced_of_formatted formatted) (emptied_fs v junk flags) (emptied_total formatted)

theorem emptied_dir (formatted : Formatted v) (dir : DirPlaced v c) : DirPlaced (emptied v junk flags) c := by
  unfold DirPlaced InData at *
  rw [emptied_total formatted, emptied_fs]
  exact dir

theorem emptied_rootSlot (formatted : Formatted v) (small : k < 512) :
    dirSlot (emptied v junk flags).disk v.fs.rootDirLba k = emptyBuf := by
  simp only [emptied]
  exact writeEmpty_root formatted small

theorem emptied_data (formatted : Formatted v) :
    SameSectors v.disk (emptied v junk flags).disk v.fs.dataRegionLba (2 ^ 23) := by
  simp only [emptied]
  exact writeEmpty_data formatted

/-- Adding the entry touches one directory. -/
theorem reformatted_frame (formatted : Formatted v) (dir : DirPlaced v v.fs.currentDirCluster) :
    (reformatted v junk flags start).fs = v.fs ∧
      ∀ lo hi, hi ≤ 2 ^ 23 →
        dirStart v.fs v.fs.currentDirCluster + dirSectors v.fs v.fs.currentDirCluster ≤ lo ∨
          hi ≤ dirStart v.fs v.fs.currentDirCluster →
        SameSectors (emptied v junk flags).disk (reformatted v junk flags start).disk lo hi := by
  have placed : WellPlaced (emptied v junk flags) := emptied_placed formatted
  have dir' : DirPlaced (emptied v junk flags) v.fs.currentDirCluster := emptied_dir formatted dir
  unfold reformatted
  have fs := emptied_fs v junk flags
  generalize emptied v junk flags = u at *
  rw [← fs] at dir' ⊢
  cases added : addDirEntry u system 0x10 start 0 with
  | none => exact ⟨rfl, fun lo hi _ _ => SameSectors.refl _ _ _⟩
  | some w =>
    obtain ⟨_, -, fs', -, -, apart⟩ := addDirEntry_spec placed dir' added
    exact ⟨fs', apart⟩

theorem reformatted_entry (formatted : Formatted v) (dir : DirPlaced v v.fs.currentDirCluster)
    (inTable : c < v.fs.sectorsPerFat * 256) :
    getFatEntry (reformatted v junk flags start) c = getFatEntry (emptied v junk flags) c ∧
      secondEntry (reformatted v junk flags start) c = secondEntry (emptied v junk flags) c := by
  obtain ⟨fs, apart⟩ : (reformatted v junk flags start).fs = v.fs ∧ _ := reformatted_frame formatted dir
  have placed := wellPlaced_of_formatted formatted
  have behind := dirRegion_behind placed dir
  have root := placed.root
  have data := placed.data
  have noWrap := placed.noWrap
  have same := apart v.fs.reservedSectors v.fs.rootDirLba (by omega) (Or.inr behind)
  have fs' := emptied_fs v junk flags
  generalize emptied v junk flags = u at *
  generalize reformatted v junk flags start = w at *
  constructor
  · rw [← tableEntry_eq, ← tableEntry_eq, tableEntry, tableEntry, fs, fs', same _ (by omega) (by omega)]
  · rw [secondEntry, secondEntry, fs, fs', same _ (by omega) (by omega)]

/-- In an empty root the first run of two entries is found at its front. -/
theorem findFreeSlots_front (root : u.fs.currentDirCluster = 0) (size : u.fs.rootDirSectors = 32)
    (empty : ∀ k < 512, dirSlot u.disk u.fs.rootDirLba k = emptyBuf) : findFreeSlots u 2 = some 0 := by
  have first : dirStart u.fs u.fs.currentDirCluster = u.fs.rootDirLba := if_pos root
  have length : dirLength u.fs u.fs.currentDirCluster = 510 + 2 := by
    unfold dirLength dirSectors
    rw [if_pos root, size]
  have free : ∀ k < 512, isFreeSlot (dirSlot u.disk u.fs.rootDirLba k) = true := by
    intro k small
    rw [empty k small, isFreeSlot, neverUsed_emptyBuf, Bool.true_or]
  unfold findFreeSlots
  simp only [first, length]
  rw [firstRun, if_pos (free 0 (by decide)), if_neg (by decide), firstRun, if_pos (free 1 (by decide)),
    if_pos (by decide)]
  rfl

/-- The first three entries of the root, and the rest. -/
theorem slotsOf_root (size : u.fs.rootDirSectors = 32) : ∃ rest, slotsOf u 0 =
    dirSlot u.disk u.fs.rootDirLba 0 :: dirSlot u.disk u.fs.rootDirLba 1 ::
      dirSlot u.disk u.fs.rootDirLba 2 :: rest := by
  have length : dirLength u.fs 0 = 509 + 3 := by
    unfold dirLength dirSectors
    rw [if_pos rfl, size]
  have first : dirStart u.fs 0 = u.fs.rootDirLba := if_pos rfl
  refine ⟨(List.range 509).map fun k => dirSlot u.disk u.fs.rootDirLba (k + 3), ?_⟩
  rw [slotsOf, length, first]
  generalize 509 = n
  simp only [List.range_succ_eq_map, List.map_cons, List.map_map]
  rfl

/-- Added to an empty root, the system directory is all that the root lists. -/
theorem added_root (placed : WellPlaced u) (root : u.fs.currentDirCluster = 0)
    (size : u.fs.rootDirSectors = 32) (empty : ∀ k < 512, dirSlot u.disk u.fs.rootDirLba k = emptyBuf) :
    ∃ w visit, addDirEntry u system 0x10 start 0 = some w ∧
      (∀ fuel path, fat16List fuel (enter w 0 path) = some [visit]) ∧
      visit.lfnName = system ∧ visit.slot = trim (shortEntry (shortNameFor system) 0x10 start 0) := by
  have found := findFreeSlots_front root size empty
  obtain ⟨w, added⟩ : ∃ w, addDirEntry u system 0x10 start 0 = some w := by
    unfold addDirEntry
    dsimp only
    rw [nameEntries_system, show (systemEntries start).length = 2 from rfl, found]
    exact ⟨_, rfl⟩
  obtain ⟨first, found', fs, -, slots, -⟩ := addDirEntry_spec placed (Or.inl root) added
  rw [nameEntries_system, show (systemEntries start).length = 2 from rfl] at slots found'
  obtain rfl : 0 = first := Option.some.inj (found.symm.trans found')
  have rootStart : dirStart u.fs u.fs.currentDirCluster = w.fs.rootDirLba := by
    rw [fs]
    exact if_pos root
  have length : dirLength u.fs u.fs.currentDirCluster = 512 := by
    unfold dirLength dirSectors
    rw [if_pos root, size]
  rw [rootStart, length] at slots
  have zero := slots 0 (by decide)
  have one := slots 1 (by decide)
  have two := slots 2 (by decide)
  rw [if_pos (by decide)] at zero one
  rw [if_neg (by decide), fs, empty 2 (by decide), ← fs] at two
  obtain ⟨rest, all⟩ := slotsOf_root (u := w) (by rw [fs]; exact size)
  obtain ⟨visit, listed, name, slot⟩ := system_visits start rest
  refine ⟨w, visit, added, fun fuel path => ?_, name, slot⟩
  have same : slotsOf (enter w 0 path) 0 = (systemEntries start).map trim ++ emptyBuf :: rest := by
    rw [show slotsOf (enter w 0 path) 0 = slotsOf w 0 from rfl, all, zero, one, two]
    rfl
  rw [fat16List, if_pos (show (enter w 0 path).fs.currentDirCluster = 0 from rfl), same, listed]

/-! ## What the format should keep -/

/-- The root of `w` lists the system directory and nothing else. Every path
below it leads to the same place as on `v`, where the same entries are found and
listed and every file reads the same. The clusters outside the tree are free in
both tables. -/
structure SystemKept (v w : Volume) (start : Nat) : Prop where
  root : ∃ visit, (∀ fuel, fat16List fuel (enter w 0 rootPath) = some [visit]) ∧
    listedName visit = system ∧ isDirectory visit.slot = true ∧ clusterLow visit.slot = start
  paths : ∀ fuel path names, path.head? = some slash → tokens path = system :: names → dotDot ∉ names →
    fat16Chdir fuel w path = (fat16Chdir fuel v path).map fun (code, u) => (code, withDisk w.disk u)
  contents : ∀ fuel path names u, path.head? = some slash → tokens path = system :: names →
    dotDot ∉ names → fat16Chdir fuel v path = some (0, u) → ∀ fuel,
      fat16List fuel (withDisk w.disk u) = fat16List fuel u ∧
      (∀ name, findEntryInCurrentDir fuel (withDisk w.disk u) name = findEntryInCurrentDir fuel u name) ∧
      ∀ name e, name ≠ [0x2E] → name ≠ dotDot → findEntryInCurrentDir fuel u name = some (some e) →
        isDirectory e = false → ∀ offset size,
          readEntry fuel (withDisk w.disk u) e offset size = readEntry fuel u e offset size
  free : ∀ c, 2 ≤ c → c < v.disk.total / v.fs.sectorsPerCluster + 2 → c < v.fs.sectorsPerFat * 256 →
    ¬ Belongs v start c → getFatEntry w c = 0 ∧ secondEntry w c = 0

theorem withDisk_of_fs (fs : w.fs = v.fs) : withDisk w.disk v = w := by
  unfold withDisk
  rw [← fs]

theorem moved_withDisk (v : Volume) (d : Disk) (c : Nat) (path : CString) :
    withDisk d (enter v c path) = enter (withDisk d v) c path := rfl

/-- From the system directory on, both disks are walked alike. -/
theorem chdir_system (mounted : v.fs.isMounted = true) (found : systemCluster v true = some start)
    (fuel : Nat) (absolute : path.head? = some slash) (split : tokens path = system :: names) :
    fat16Chdir fuel v path =
      if 256 ≤ path.length then none
      else walkTokens fuel v (enter v start (childPath rootPath system)) names := by
  obtain ⟨e, target, directory, cluster⟩ := systemCluster_found found fuel rootPath
  unfold fat16Chdir
  rw [if_neg (by simp [mounted]), if_pos absolute, split]
  split
  · rfl
  · simp only [walkTokens]
    rw [if_neg (by decide), if_neg (by decide), target]
    have short : (enter v 0 rootPath).fs.currentPath.length + system.length + 2 < 256 := by
      rw [show (enter v 0 rootPath).fs.currentPath = rootPath from rfl]
      decide
    simp only [directory, short, and_self, ↓reduceIte, cluster]
    rfl

/-- The search finds the new entry as it found the old one. -/
theorem systemCluster_after (mounted : w.fs.isMounted = true)
    (listed : fat16List 0 (enter w 0 rootPath) = some [visit]) (name : visit.lfnName = system)
    (slot : visit.slot = trim (shortEntry (shortNameFor system) 0x10 start 0)) (small : start < 2 ^ 16) :
    systemCluster w true = some start := by
  obtain ⟨-, attr, cluster, -⟩ := shortEntry_fields (shortNameFor system) 0x10 start 0
  have seen : (visits 0 Scan.initial (slotsOf w 0)).1 = [visit] := Option.some.inj listed
  have matching : visit.matches system = true := by
    rw [Visit.matches, name, if_pos (by decide)]
    decide
  have directory : isDirectory visit.slot = true := by
    rw [slot, isDirectory_trim, isDirectory, attr]
    decide
  unfold systemCluster
  rw [if_pos ⟨rfl, mounted⟩, seen]
  simp only [List.find?_cons, matching, Option.map_some, directory, ↓reduceIte]
  rw [slot, clusterLow_trim, cluster, Nat.mod_eq_of_lt small]

/-- Added to another directory, the entry leaves the root empty. -/
theorem reformatted_elsewhere (formatted : Formatted v) (dir : DirPlaced v v.fs.currentDirCluster)
    (elsewhere : v.fs.currentDirCluster ≠ 0) :
    ¬ ∃ visit, (∀ fuel, fat16List fuel (enter (reformatted v junk flags start) 0 rootPath) = some [visit]) ∧
      listedName visit = system ∧ isDirectory visit.slot = true ∧ clusterLow visit.slot = start := by
  rintro ⟨visit, listed, -⟩
  obtain ⟨fs, apart⟩ : (reformatted v junk flags start).fs = v.fs ∧ _ := reformatted_frame formatted dir
  have placed := wellPlaced_of_formatted formatted
  have data := placed.data
  have noWrap := placed.noWrap
  have size := formatted.rootSize
  have outside := dirRegion_apart placed dir (Or.inl rfl) elsewhere
  simp only [dirStart, dirSectors, ↓reduceIte] at outside
  have same := apart v.fs.rootDirLba (v.fs.rootDirLba + 1) (by omega) (by
    simp only [dirStart, dirSectors]
    omega)
  have first : dirSlot (emptied v junk flags).disk v.fs.rootDirLba 0 = emptyBuf :=
    emptied_rootSlot formatted (by decide)
  rw [← dirSlot_sectors same (by decide)] at first
  have listed := listed 0
  generalize reformatted v junk flags start = w at *
  obtain ⟨rest, all⟩ := slotsOf_root (u := w) (by rw [fs]; exact size)
  rw [fat16List, if_pos (show (enter w 0 rootPath).fs.currentDirCluster = 0 from rfl),
    show slotsOf (enter w 0 rootPath) 0 = slotsOf w 0 from rfl, all, fs, first,
    visits_neverUsed neverUsed_emptyBuf] at listed
  simp at listed

/-- In the root, everything is kept. -/
theorem reformatted_keeps (formatted : Formatted v) (found : systemCluster v true = some start)
    (tree : DirTree v start) (root : v.fs.currentDirCluster = 0)
    (length : flags.length = v.disk.total / v.fs.sectorsPerCluster + 2)
    (marks : ∀ x, flags.marked x = true ↔ Belongs v start x) :
    SystemKept v (reformatted v junk flags start) start := by
  have dir : DirPlaced v v.fs.currentDirCluster := Or.inl root
  have placed := wellPlaced_of_formatted formatted
  obtain ⟨fs, apart⟩ : (reformatted v junk flags start).fs = v.fs ∧ _ := reformatted_frame formatted dir
  obtain ⟨w', visit, added, listed, name, slot⟩ : ∃ w visit,
      addDirEntry (emptied v junk flags) system 0x10 start 0 = some w ∧ _ :=
    added_root (emptied_placed formatted) (by rw [emptied_fs]; exact root)
      (by rw [emptied_fs]; exact formatted.rootSize)
      (fun k small => by rw [emptied_fs]; exact emptied_rootSlot formatted small)
  have isW : reformatted v junk flags start = w' := by
    rw [reformatted, added, Option.getD_some]
  have entries : ∀ c, c < v.fs.sectorsPerFat * 256 →
      getFatEntry (reformatted v junk flags start) c = getFatEntry (emptied v junk flags) c ∧
        secondEntry (reformatted v junk flags start) c = secondEntry (emptied v junk flags) c :=
    fun c inTable => reformatted_entry formatted dir inTable
  have data : SameSectors v.disk (emptied v junk flags).disk v.fs.dataRegionLba (2 ^ 23) := emptied_data formatted
  have links : ∀ x, Belongs v start x → getFatEntry (emptied v junk flags) x = getFatEntry v x :=
    fun x belongs => emptied_link formatted tree length marks belongs
  have free : ∀ c, 2 ≤ c → c < v.disk.total / v.fs.sectorsPerCluster + 2 →
      c < v.fs.sectorsPerFat * 256 → ¬ Belongs v start c →
      getFatEntry (emptied v junk flags) c = 0 ∧ secondEntry (emptied v junk flags) c = 0 :=
    fun c first short inTable other => emptied_free formatted length marks first short inTable other
  rw [← isW] at listed
  generalize reformatted v junk flags start = w at *
  generalize emptied v junk flags = u at *
  have eq : withDisk w.disk v = w := withDisk_of_fs fs
  have same : SameTree v w.disk start := by
    intro x belongs
    obtain ⟨inChain, inData⟩ := belongs_placed tree belongs
    obtain ⟨⟨small, sector⟩, -⟩ := inData_small formatted inData
    have bound := cluster_bound placed small
    have region := placed.data
    constructor
    · rw [clusterLba_eq placed inChain.1 small]
      refine (data.narrow (by omega) bound).trans (apart _ _ bound (Or.inl ?_))
      simp only [dirStart, dirSectors, root, ↓reduceIte]
      omega
    · rw [eq, (entries x (by omega)).1, links x belongs]
  have small : start < 2 ^ 16 := (dirTree_placed tree).2.2.1
  have foundW : systemCluster w true = some start :=
    systemCluster_after (by rw [fs]; exact formatted.mounted) (listed 0 rootPath) name slot small
  have walked : ∀ fuel path names, path.head? = some slash → tokens path = system :: names → dotDot ∉ names →
      fat16Chdir fuel w path = (fat16Chdir fuel v path).map (fun (code, u) => (code, withDisk w.disk u)) ∧
      ∀ u, fat16Chdir fuel v path = some (0, u) →
        ∃ c path, u = enter v c path ∧ DirTree v c ∧ SameTree v w.disk c := by
    intro fuel path names absolute split down
    rw [chdir_system (by rw [fs]; exact formatted.mounted) foundW fuel absolute split,
      chdir_system formatted.mounted found fuel absolute split]
    obtain ⟨walk, ends⟩ : _ ∧ ∀ u, walkTokens fuel v (enter v start (childPath rootPath system)) names =
      some (0, u) → _ := walkTokens_same tree same down
    rw [eq] at walk
    split
    · exact ⟨rfl, fun u ended => by cases ended⟩
    · exact ⟨walk, ends⟩
  refine ⟨⟨visit, fun fuel => listed fuel rootPath, ?_, ?_, ?_⟩, ?_, ?_, ?_⟩
  · rw [listedName, name, if_pos (by decide)]
  · rw [slot, isDirectory_trim, isDirectory, (shortEntry_fields _ _ _ _).2.1]
    decide
  · rw [slot, clusterLow_trim, (shortEntry_fields _ _ _ _).2.2.1, Nat.mod_eq_of_lt small]
  · exact fun fuel path names absolute split down => (walked fuel path names absolute split down).1
  · intro fuel path names u absolute split down entered fuel'
    obtain ⟨c, path', rfl, tree', same'⟩ := (walked fuel path names absolute split down).2 u entered
    rw [moved_withDisk]
    refine ⟨fat16List_same tree' same', findEntry_same tree' same', ?_⟩
    intro t e here up target plain offset size
    obtain ⟨k, live, rfl, named⟩ := findEntry_live tree' here up target
    exact readEntry_same (fun x on => same' x (Belongs.file live named plain on)) offset size
  · intro c first short inTable other
    rw [(entries c inTable).1, (entries c inTable).2]
    exact free c first short inTable other

/-- The format keeps the system tree exactly if the root is the current
directory. -/
theorem format_keeps_system_iff (formatted : Formatted v) (found : systemCluster v true = some start)
    (tree : DirTree v start) (dir : DirPlaced v v.fs.currentDirCluster) (junk : HeapJunk) :
    ∃ enough, ∀ fuel ≥ enough, ∃ w, fat16FormatDrive fuel junk v 0 true = some w ∧
      (SystemKept v w start ↔ v.fs.currentDirCluster = 0) := by
  obtain ⟨enough, runs⟩ := format_runs formatted found tree junk
  refine ⟨enough, fun fuel above => ?_⟩
  obtain ⟨flags, length, marks, ran⟩ := runs fuel above
  refine ⟨reformatted v junk flags start, ran, ?_, ?_⟩
  · intro kept
    by_contra elsewhere
    exact (reformatted_elsewhere formatted dir elsewhere) kept.root
  · intro root
    exact reformatted_keeps formatted found tree root length marks

end After

/-! ## A system directory with one file -/

def systemRoot : Sector := fun o =>
  if o < 32 then systemLong o
  else if o < 64 then shortEntry (shortNameFor system) 0x10 2 0 (o - 32)
  else 0

def systemSector : Sector := fun o =>
  if o < 64 then newDirSector 2 0 o
  else if o < 96 then shortEntry (shortNameFor [0x41]) 0x20 3 5 (o - 64)
  else 0

/-- The volume as formatting a disk of 418 sectors, creating `system` and
writing `A` in it leave it. -/
def systemVolume : Volume where
  fs := twoEntries.fs
  disk :=
    { total := 418
      sectors := fun n =>
        if n = 256 ∨ n = 257 then twoEntriesTable
        else if n = 258 then systemRoot
        else if n = 290 then systemSector
        else fun _ => 0 }

theorem systemVolume_formatted : Formatted systemVolume where
  mounted := rfl
  reserved := rfl
  tables := by decide
  root := rfl
  rootSize := rfl
  data := rfl
  cluster := rfl
  onDisk := by decide
  size := by decide

theorem systemVolume_live (live : Live systemVolume 2 k) : k = 0 ∨ k = 1 ∨ k = 2 := by
  have small : k < 3 := live_lt live (by decide)
  omega

theorem systemVolume_file : FileChain systemVolume 3 := by
  refine FileChain.link (by decide) ⟨by decide, by decide, by decide⟩ (FileChain.stop ?_)
  decide

theorem systemVolume_tree : DirTree systemVolume 2 := by
  have other : ∀ k, Live systemVolume 2 k → isDotEntry (entryAt systemVolume 2 k) = false → k = 2 := by
    intro k live named
    rcases systemVolume_live live with rfl | rfl | rfl
    · exact absurd named (by decide)
    · exact absurd named (by decide)
    · rfl
  refine DirTree.node (by decide) ⟨by decide, by decide, by decide⟩ (by decide +kernel) (by decide +kernel) ?_ ?_
  · intro k live named _
    rw [other k live named, show clusterLow (entryAt systemVolume 2 2) = 3 by decide]
    exact systemVolume_file
  · intro k live named directory
    rw [other k live named] at directory
    exact absurd directory (by decide)

def zeroJunk : HeapJunk := ⟨fun _ => false, fun _ => 0⟩

theorem format_keeps_system_iff_systemVolume :
    ∃ enough, ∀ fuel ≥ enough, ∃ w, fat16FormatDrive fuel zeroJunk systemVolume 0 true = some w ∧
      (SystemKept systemVolume w 2 ↔ systemVolume.fs.currentDirCluster = 0) :=
  format_keeps_system_iff systemVolume_formatted (by decide +kernel) systemVolume_tree (Or.inl rfl) zeroJunk

/-- `mkdir system`, a write of `A` in it and `cd system` on a blank disk. -/
def inSystem : Option Volume := do
  let v ← fat16Initialize 1 zeroJunk blankDisk
  let (_, v) ← fat16CreateDir 2 v system
  let v ← fat16WriteFile 2 v (system ++ [slash, 0x41]) emptyBuf 5
  let (_, v) ← fat16Chdir 2 v system
  return v

/-- The root lists one entry, and after the format none: the entry has gone to
the system directory itself. -/
theorem format_in_system_loses_root :
    (inSystem.bind fun v => (fat16List 0 (enter v 0 rootPath)).map List.length) = some 1 ∧
    (inSystem.bind fun v => (fat16FormatDrive 4 zeroJunk v 0 true).bind fun w =>
      (fat16List 0 (enter w 0 rootPath)).map List.length) = some 0 ∧
    (inSystem.bind fun v => (fat16FormatDrive 4 zeroJunk v 0 true).bind fun w =>
      (fat16List 2 (enter w 2 [slash])).map fun list => list.map (·.lfnName)) =
        some [[], [], [], system] := by
  refine ⟨?_, ?_, ?_⟩
  all_goals decide +kernel

end MeowMeowOS.KeptSystem

import MeowMeowOS.ReadContents
import MeowMeowOS.StoredChains
import MeowMeowOS.CreatedEntries
import MeowMeowOS.FailedCreations

/-! A file that has been written is read back. Its entry is found under its name, its
chain is the clusters it took, and their sectors hold the data. -/
namespace MeowMeowOS.WrittenFiles
open ByteMemory Fat16Disk Fat16Names Fat16Directory Fat16Paths Fat16Files Fat16Geometry Fat16Scan Fat16Entries
open Fat16Chains VolumeRuns WrittenBytes StoredChains CreatedEntries MissingDirectories LongNames ReadContents
open WalkedEntries (linked)
open FailedCreations (entriesFor nameEntries_count)

/-- A mounted volume with fewer than 0xFFF0 clusters. -/
structure Sound (v : Volume) : Prop where
  mounted : v.fs.isMounted = true
  placed : WellPlaced v
  table : v.fs.sectorsPerFat ≤ 256
  clusters : 0 < v.fs.sectorsPerCluster
  few : v.disk.total < v.fs.dataRegionLba + 0xFFF0 * v.fs.sectorsPerCluster

/-- The current directory is the root or one cluster, and what has never been used comes last. -/
structure Directory (v : Volume) : Prop where
  one : OneCluster v
  taken : v.fs.currentDirCluster = 0 ∨ getFatEntry v v.fs.currentDirCluster ≠ 0
  ended : ∀ (j k : Nat) (d e : Slot), j ≤ k → (slotsOf v v.fs.currentDirCluster)[j]? = some d →
    neverUsed d = true →
    (slotsOf v v.fs.currentDirCluster)[k]? = some e → isFreeSlot e = true

instance (v : Volume) (c : Nat) : Decidable (InData v c) := inferInstanceAs (Decidable (_ ∧ _ ∧ _))

/-- The free clusters that lie on the disk. -/
def freeOnDisk (v : Volume) : List Nat := (freeClusters v).filter fun c => InData v c

/-- There are clusters for `size` bytes and entries for the name. -/
structure Fits (v : Volume) (name : CString) (size : Nat) : Prop where
  some : freeOnDisk v ≠ []
  clusters : size ≤ (freeOnDisk v).length * clusterSize v
  entries : findFreeSlots v (entriesFor name) ≠ none

/-- Cluster number `k` of a chain in range that is not free up to there. -/
def Chained (v : Volume) (head k : Nat) : Prop :=
  ∀ j ≤ k, InData v (linked v head j) ∧ InTable v (linked v head j) ∧ getFatEntry v (linked v head j) ≠ 0

/-- The name has the length and the bytes of the data, and other chains are what they were. -/
structure ReadsBack (v w : Volume) (name : CString) (data : Mem) (size : Nat) : Prop where
  length : ∀ fuel, fat16GetFileSize (fuel + 2) w name = some (size, w)
  bytes : ∀ offset count fuel, offset + count < 2 ^ 32 → size < fuel * clusterSize v →
    fat16ReadFile (fuel + 2) w name offset count =
      some ((List.range (min count (size - offset))).map fun i => data (offset + i), w)
  others : ∀ head k, Chained v head k → linked w head (k + 1) = linked v head (k + 1) ∧
    (linked v head k ≠ v.fs.currentDirCluster → SameSectors v.disk w.disk (clusterLba v.fs (linked v head k))
      (clusterLba v.fs (linked v head k) + v.fs.sectorsPerCluster))

section
variable {v w : Volume} {c k size : Nat} {name : CString} {data : Mem}

theorem clusterSize_pos (sound : Sound v) : 0 < clusterSize v := Nat.mul_pos sound.clusters (by decide)

theorem Directory.located (dir : Directory v) :
    v.fs.currentDirCluster = 0 ∨ InData v v.fs.currentDirCluster ∧ getFatEntry v v.fs.currentDirCluster ≠ 0 :=
  dir.one.elim Or.inl fun inside => dir.taken.imp_right fun taken => ⟨inside.1, taken⟩

/-! ## The clusters of the file -/

theorem inData_chain (sound : Sound v) (inData : InData v c) : InChain c := by
  obtain ⟨first, -, bound⟩ := inData
  have few := sound.few
  have clusters := sound.clusters
  refine ⟨first, ?_⟩
  have split : (c - 2) * v.fs.sectorsPerCluster + v.fs.sectorsPerCluster = (c - 1) * v.fs.sectorsPerCluster := by
    rw [← Nat.succ_mul]
    congr 1
    omega
  have less : (c - 1) * v.fs.sectorsPerCluster < 0xFFF0 * v.fs.sectorsPerCluster := by omega
  have := Nat.lt_of_mul_lt_mul_right less
  omega

theorem mem_freeOnDisk : c ∈ freeOnDisk v ↔ c ∈ freeClusters v ∧ InData v c := by
  unfold freeOnDisk
  rw [List.mem_filter, decide_eq_true_iff]

theorem freeClusters_sorted (v : Volume) : (freeClusters v).Pairwise (· < ·) :=
  List.pairwise_lt_range.sublist List.filter_sublist

/-- In an ascending list the elements below a bound come first. -/
theorem take_below {l : List Nat} {p : Nat → Bool} (sorted : l.Pairwise (· < ·))
    (closed : ∀ a ∈ l, ∀ b, a < b → p b = true → p a = true) {n : Nat} (enough : n ≤ (l.filter p).length) :
    ∀ c ∈ l.take n, p c = true := by
  induction l generalizing n with
  | nil => simp
  | cons a rest ih =>
    obtain ⟨below, sorted⟩ := List.pairwise_cons.mp sorted
    cases n with
    | zero => simp
    | succ n =>
      have holds : p a = true := by
        rcases List.exists_mem_of_length_pos (Nat.lt_of_lt_of_le (Nat.succ_pos n) enough) with ⟨b, member⟩
        obtain ⟨inside, holds⟩ := List.mem_filter.mp member
        rcases List.mem_cons.mp inside with rfl | later
        · exact holds
        · exact closed a List.mem_cons_self b (below b later) holds
      rw [List.filter_cons_of_pos holds, List.length_cons] at enough
      intro c member
      rw [List.take_succ_cons] at member
      rcases List.mem_cons.mp member with rfl | later
      · exact holds
      · exact ih sorted (fun a inside => closed a (List.mem_cons_of_mem _ inside))
          (Nat.le_of_succ_le_succ enough) c later

theorem freeOnDisk_length (sound : Sound v) : (freeOnDisk v).length ≤ 0xFFF8 := by
  have nodup : (freeOnDisk v).Nodup := ((freeClusters_sorted v).imp Nat.ne_of_lt).filter _
  have inside : freeOnDisk v ⊆ List.range 0xFFF8 := fun c member =>
    List.mem_range.mpr (inData_chain sound (mem_freeOnDisk.mp member).2).2
  have short := (nodup.subperm inside).length_le
  rw [List.length_range] at short
  exact short

/-- The number of clusters does not overflow. -/
theorem clustersNeeded_le (sound : Sound v) (fits : Fits v name size) :
    clustersNeeded v size ≤ (freeOnDisk v).length ∧ size ≤ clustersNeeded v size * clusterSize v := by
  have noWrap := sound.placed.noWrap
  have clusters := sound.clusters
  have most := freeOnDisk_length sound
  have within := fits.clusters
  have wide : clusterSize v ≤ 65536 := by
    unfold clusterSize
    omega
  have positive := clusterSize_pos sound
  have bound : (freeOnDisk v).length * clusterSize v ≤ 0xFFF8 * 65536 := Nat.mul_le_mul most wide
  unfold clustersNeeded
  split
  · rename_i some
    change (size + clusterSize v - 1) % 2 ^ 32 / clusterSize v ≤ _ ∧
        _ ≤ (size + clusterSize v - 1) % 2 ^ 32 / clusterSize v * _
    rw [Nat.mod_eq_of_lt (by omega)]
    refine ⟨?_, ?_⟩
    · refine Nat.le_of_lt_succ ((Nat.div_lt_iff_lt_mul positive).mpr ?_)
      rw [Nat.succ_mul]
      omega
    · have place := Nat.div_add_mod' (size + clusterSize v - 1) (clusterSize v)
      have rest := Nat.mod_lt (size + clusterSize v - 1) positive
      omega
  · omega

theorem taken_inData (sound : Sound v) (fits : Fits v name size) : ∀ c ∈ takenClusters v size, InData v c := by
  have enough : max 1 (clustersNeeded v size) ≤ ((freeClusters v).filter fun c => InData v c).length :=
    Nat.max_le.mpr ⟨List.length_pos_iff.mpr fits.some, (clustersNeeded_le sound fits).1⟩
  intro c member
  refine of_decide_eq_true (take_below (freeClusters_sorted v) (fun a inside b less holds => ?_) enough c member)
  obtain ⟨-, small, bound⟩ := of_decide_eq_true holds
  have first := (mem_freeClusters.mp inside).2.1
  have fewer := Nat.mul_le_mul_right v.fs.sectorsPerCluster (show a - 2 ≤ b - 2 by omega)
  exact decide_eq_true ⟨first, by omega, by omega⟩

theorem room_for (sound : Sound v) (fits : Fits v name size) : findFreeCluster v ≠ 0xFFFF := by
  obtain ⟨c, member⟩ := List.exists_mem_of_ne_nil _ fits.some
  have positive := List.length_pos_of_mem (mem_freeOnDisk.mp member).1
  obtain ⟨c, rest, list⟩ := List.exists_cons_of_length_pos positive
  have taken : c ∈ takenClusters v size := by
    unfold takenClusters
    rw [list, ← Nat.succ_pred_eq_of_pos (Nat.lt_of_lt_of_le Nat.one_pos (Nat.le_max_left _ _)), List.take_succ_cons]
    exact List.mem_cons_self
  have below := (inData_chain sound (taken_inData sound fits c taken)).2
  rw [findFreeCluster_first sound.table list]
  omega

theorem taken_first (sound : Sound v) (fits : Fits v name size) :
    (takenClusters v size)[0]? = some (findFreeCluster v) := by
  obtain ⟨rest, list⟩ := free_some sound.table (room_for sound fits)
  unfold takenClusters
  rw [list, List.getElem?_take_of_lt (Nat.lt_of_lt_of_le Nat.one_pos (Nat.le_max_left _ _))]
  rfl

/-! ## The volume with the data and without the entry -/

theorem stored_directory (sound : Sound v) (dir : Directory v) (fits : Fits v name size) (data : Mem) :
    Stored v (storedData v data size) (takenClusters v size) ∧
      slotsOf (storedData v data size) v.fs.currentDirCluster = slotsOf v v.fs.currentDirCluster ∧
      OneCluster (storedData v data size) ∧
      findFreeSlots (storedData v data size) (entriesFor name) = findFreeSlots v (entriesFor name) := by
  have room := room_for sound fits
  have enough : clustersNeeded v size ≤ (freeClusters v).length :=
    Nat.le_trans (clustersNeeded_le sound fits).1 (List.length_filter_le _ _)
  have stored := storedData_stored data sound.placed sound.table room enough
  have same := storedData_sectors data sound.placed sound.table room enough dir.located
  refine ⟨stored, slotsOf_sectors stored.fs same, ?_, findFreeSlots_sectors stored.fs same _⟩
  unfold OneCluster InData InTable
  rw [stored.fs, stored.total]
  rcases dir.located with root | ⟨-, taken⟩
  · exact Or.inl root
  · refine dir.one.imp_right fun ⟨inData, inTable, inChain, last⟩ => ⟨inData, inTable, inChain, ?_⟩
    rw [stored.others _ inTable fun again => taken (mem_freeClusters.mp (taken_free again)).2.2]
    exact last

theorem addDirEntry_stored (sound : Sound v) (dir : Directory v) (fits : Fits v name size) (data : Mem) :
    ∃ w, addDirEntry (storedData v data size) name 0x20 (findFreeCluster v) size = some w := by
  refine Option.ne_none_iff_exists'.mp fun none => ?_
  rw [FailedCreations.addDirEntry_none, (stored_directory sound dir fits data).2.2.2] at none
  exact fits.entries none

theorem writeFile_added (sound : Sound v) (fits : Fits v name size) (plain : slash ∉ name)
    (added : addDirEntry (storedData v data size) name 0x20 (findFreeCluster v) size = some w) (fuel : Nat) :
    fat16WriteFile fuel v name data size = some w := by
  have room := room_for sound fits
  have clusters := sound.clusters
  have entered : enterPath fuel v name = some (v, name) := if_neg plain
  have left : leavePath fuel name v.fs.currentPath w = some w := if_neg plain
  have wrote : writeNew v name data size = some w := by
    unfold writeNew
    dsimp only
    rw [if_neg (not_or.mpr ⟨room, fun flat => absurd flat.2 (by omega)⟩)]
    change some ((addDirEntry (storedData v data size) name 0x20 (findFreeCluster v) size).getD _) = some w
    rw [added]
    rfl
  unfold fat16WriteFile
  simp only [Option.bind_eq_bind, Option.bind_eq_some_iff, Prod.exists]
  exact ⟨v, name, entered, w, wrote, left⟩

/-! ## What reads see -/

/-- The name leads to an entry of this size and first cluster. -/
theorem written_entry (sound : Sound v) (dir : Directory v) (fits : Fits v name size) (printable : PrintableName name)
    (whole : Tidy (slotsOf v v.fs.currentDirCluster)) (missing : firstMatch v name = none) (small : size < 2 ^ 32)
    (added : addDirEntry (storedData v data size) name 0x20 (findFreeCluster v) size = some w) (fuel : Nat) :
    ∃ e, findEntryInCurrentDir (fuel + 2) w name = some (some e) ∧ clusterLow e = findFreeCluster v ∧
    fileSize e = size := by
  obtain ⟨stored, slots, one, -⟩ := stored_directory sound dir fits data
  have placed := wellPlaced_of_eq sound.placed stored.fs stored.total
  have first := taken_inData sound fits _ (List.mem_of_getElem? (taken_first sound fits))
  have current : (storedData v data size).fs.currentDirCluster = v.fs.currentDirCluster := by rw [stored.fs]
  have absent : firstMatch (storedData v data size) name = none := by
    unfold firstMatch
    rw [current, slots]
    exact missing
  obtain ⟨created, -, cluster, length, found, -⟩ :=
    created_entry_found placed one (by rw [current, slots]; exact whole)
    printable (Or.inr rfl) first.2.1 small (noMatch_findEntry one absent fuel) added
  exact ⟨created.slot, found, cluster, length⟩

/-- The chain of the file is the clusters it took. -/
theorem linked_used {used : List Nat} (links : used.IsChain fun c next => getFatEntry w c = next)
    (first : used[0]? = some c) :
    ∀ k x, used[k]? = some x → linked w c k = x := by
  intro k
  induction k with
  | zero =>
    intro x here
    exact Option.some.inj (first.symm.trans here)
  | succ k ih =>
    intro x here
    obtain ⟨inside, rfl⟩ := List.getElem?_eq_some_iff.mp here
    have before : used[k]? = some used[k] := List.getElem?_eq_getElem (by omega)
    unfold linked at ih ⊢
    rw [Function.iterate_succ_apply', ih _ before]
    exact List.isChain_iff_getElem.mp links k inside

/-- The new entry leaves everything but its directory alone. -/
theorem entry_apart (sound : Sound v) (dir : Directory v) (fits : Fits v name size)
    (added : addDirEntry (storedData v data size) name 0x20 (findFreeCluster v) size = some w) :
    w.fs = v.fs ∧ w.disk.total = v.disk.total ∧
      (∀ x, InTable v x → getFatEntry w x = getFatEntry (storedData v data size) x) ∧
      ∀ lo hi, hi ≤ 2 ^ 23 →
      dirStart v.fs v.fs.currentDirCluster + dirSectors v.fs v.fs.currentDirCluster ≤ lo ∨
        hi ≤ dirStart v.fs v.fs.currentDirCluster → SameSectors (storedData v data size).disk w.disk lo hi := by
  obtain ⟨stored, -, one, -⟩ := stored_directory sound dir fits data
  have placed := wellPlaced_of_eq sound.placed stored.fs stored.total
  have located := oneCluster_placed one
  have behind := dirRegion_behind placed located
  obtain ⟨-, -, fs, total, -, apart⟩ := addDirEntry_spec placed located added
  have noWrap := placed.noWrap
  have root := placed.root
  have region := placed.data
  refine ⟨fs.trans stored.fs, total.trans stored.total, fun x inTable => ?_, ?_⟩
  · exact getFatEntry_sectors fs (apart _ _ (by omega) (Or.inr (by omega))) ((inTable_of_eq stored.fs).mpr inTable)
  · rw [stored.fs] at apart
    exact apart

/-- A read returns the part of the data it asks for. -/
theorem written_bytes (sound : Sound v) (dir : Directory v) (fits : Fits v name size) (small : size < 2 ^ 32)
    (added : addDirEntry (storedData v data size) name 0x20 (findFreeCluster v) size = some w) {x : Nat}
    (inside : x < size) :
    InChain (linked w (findFreeCluster v) (x / clusterSize v)) ∧ chainByte w (findFreeCluster v) x = data x := by
  have room := room_for sound fits
  have enough : clustersNeeded v size ≤ (freeClusters v).length :=
    Nat.le_trans (clustersNeeded_le sound fits).1 (List.length_filter_le _ _)
  obtain ⟨stored, -⟩ := stored_directory sound dir fits data
  obtain ⟨fs, total, table, apart⟩ := entry_apart sound dir fits added
  have positive := clusterSize_pos sound
  have place := Nat.div_add_mod' x (clusterSize v)
  have below := Nat.mod_lt x positive
  have short : x / clusterSize v < clustersNeeded v size := by
    refine (Nat.div_lt_iff_lt_mul positive).mpr ?_
    exact Nat.lt_of_lt_of_le inside (clustersNeeded_le sound fits).2
  have long : x / clusterSize v < (takenClusters v size).length := by
    unfold takenClusters
    rw [List.length_take]
    omega
  have here := List.getElem?_eq_getElem long
  generalize (takenClusters v size)[x / clusterSize v] = c at here
  have member := List.mem_of_getElem? here
  have inData := taken_inData sound fits c member
  have links : (takenClusters v size).IsChain fun c next => getFatEntry w c = next := by
    refine List.isChain_iff_getElem.mpr fun i further => ?_
    rw [table _ (freeClusters_inTable sound.table (taken_free (List.getElem_mem _)))]
    exact List.isChain_iff_getElem.mp stored.links i further
  have reached := linked_used links (taken_first sound fits) _ c here
  refine ⟨by rw [reached]; exact inData_chain sound inData, ?_⟩
  have size' : clusterSize w = clusterSize v := by
    unfold clusterSize
    rw [fs]
  have sector : x % clusterSize v / 512 < v.fs.sectorsPerCluster := by
    unfold clusterSize at below ⊢
    omega
  have content :=
    storedData_content data sound.placed sound.table room enough (taken_inData sound fits) small short here
    sector (by change _ * clusterSize v + _ < _; omega)
  have kept := apart (clusterLba v.fs c) (clusterLba v.fs c + v.fs.sectorsPerCluster) ?_ ?_
  · unfold chainByte sectorByte
    rw [size', reached, fs, kept _ (Nat.le_add_right _ _) (by omega), content]
    change data (_ * clusterSize v + _ + _) = _
    congr 1
    omega
  · rw [clusterLba_eq sound.placed inData.1 inData.2.1]
    exact cluster_bound sound.placed inData.2.1
  · exact taken_apart sound.placed sound.table dir.located member

/-! ## The chains of other entries -/

theorem other_entry (sound : Sound v) (dir : Directory v) (fits : Fits v name size)
    (added : addDirEntry (storedData v data size) name 0x20 (findFreeCluster v) size = some w)
    (inTable : InTable v c) (taken : getFatEntry v c ≠ 0) : getFatEntry w c = getFatEntry v c := by
  obtain ⟨stored, -⟩ := stored_directory sound dir fits data
  obtain ⟨-, -, table, -⟩ := entry_apart sound dir fits added
  rw [table c inTable]
  exact stored.others c inTable fun again => taken (mem_freeClusters.mp (taken_free again)).2.2

theorem other_sectors (sound : Sound v) (dir : Directory v) (fits : Fits v name size)
    (added : addDirEntry (storedData v data size) name 0x20 (findFreeCluster v) size = some w)
    (inData : InData v c) (taken : getFatEntry v c ≠ 0) (other : c ≠ v.fs.currentDirCluster) :
    SameSectors v.disk w.disk (clusterLba v.fs c) (clusterLba v.fs c + v.fs.sectorsPerCluster) := by
  obtain ⟨-, -, -, apart⟩ := entry_apart sound dir fits added
  have room := room_for sound fits
  have enough : clustersNeeded v size ≤ (freeClusters v).length :=
    Nat.le_trans (clustersNeeded_le sound fits).1 (List.length_filter_le _ _)
  have notRoot : c ≠ 0 := by
    have := inData.1
    omega
  have stored := storedData_sectors data sound.placed sound.table room enough (Or.inr ⟨inData, taken⟩)
  rw [dirStart, dirSectors, if_neg notRoot, if_neg notRoot] at stored
  have bound := cluster_bound sound.placed inData.2.1
  refine stored.trans (apart _ _ ?_ ?_)
  · rw [clusterLba_eq sound.placed inData.1 inData.2.1]
    exact bound
  · have region := sound.placed.data
    rw [dirStart, dirSectors, clusterLba_eq sound.placed inData.1 inData.2.1]
    by_cases root : v.fs.currentDirCluster = 0
    · rw [if_pos root, if_pos root]
      omega
    · obtain ⟨⟨first, small, -⟩, -⟩ := dir.located.resolve_left root
      have := cluster_apart other inData.1 first v.fs.sectorsPerCluster
      rw [if_neg root, if_neg root, clusterLba_eq sound.placed first small]
      omega

theorem other_chain (sound : Sound v) (dir : Directory v) (fits : Fits v name size)
    (added : addDirEntry (storedData v data size) name 0x20 (findFreeCluster v) size = some w) {head : Nat}
    (chained : Chained v head k) : linked w head (k + 1) = linked v head (k + 1) := by
  have step : ∀ j, linked w head j = linked v head j → j ≤ k →
    linked w head (j + 1) = linked v head (j + 1) := by
    intro j same within
    obtain ⟨-, inTable, taken⟩ := chained j within
    unfold linked at same ⊢
    rw [Function.iterate_succ_apply', Function.iterate_succ_apply', same]
    exact other_entry sound dir fits added inTable taken
  induction k with
  | zero => exact step 0 rfl (Nat.le_refl _)
  | succ k ih =>
    have before := ih (fun j within => chained j (Nat.le_succ_of_le within)) fun j same within =>
      step j same (Nat.le_succ_of_le within)
    exact step (k + 1) before (Nat.le_refl _)

/-! ## The round trip -/

/-- In a directory whose long names are whole, a new file is read back as it was written. -/
theorem write_then_read {found : Nat} (sound : Sound v) (dir : Directory v)
    (whole : Tidy (slotsOf v v.fs.currentDirCluster))
    (printable : PrintableName name) (plain : slash ∉ name)
    (missing : findEntryInCurrentDir found v name = some none) (small : size < 2 ^ 32) (fits : Fits v name size) :
    ∃ w, (∀ fuel, fat16WriteFile fuel v name data size = some w) ∧ ReadsBack v w name data size := by
  obtain ⟨w, added⟩ := addDirEntry_stored sound dir fits data
  obtain ⟨fs, -, -, -⟩ := entry_apart sound dir fits added
  have absent : firstMatch v name = none := Option.map_eq_none_iff.mp (findEntry_firstMatch dir.one missing).symm
  have entry := written_entry sound dir fits printable whole absent small added
  have entered : ∀ fuel, enterPath fuel w name = some (w, name) := fun _ => if_neg plain
  have left : ∀ fuel, leavePath fuel name w.fs.currentPath w = some w := fun _ => if_neg plain
  have size' : clusterSize w = clusterSize v := by
    unfold clusterSize
    rw [fs]
  refine ⟨w, writeFile_added sound fits plain added, fun fuel => ?_, fun offset count fuel words enough =>
    ?_, fun head k chained => ?_⟩
  · obtain ⟨e, lookup, -, length⟩ := entry fuel
    have mounted : w.fs.isMounted ≠ false := by
      rw [fs, sound.mounted]
      exact Bool.noConfusion
    unfold fat16GetFileSize
    rw [if_neg mounted]
    simp only [Option.bind_eq_bind, Option.bind_eq_some_iff, Prod.exists]
    refine ⟨w, name, entered _, some e, lookup, w, left _, ?_⟩
    rw [Option.map_some, Option.getD_some, length]
    rfl
  · obtain ⟨e, lookup, first, length⟩ := entry fuel
    have held : Held w e := by
      refine ⟨by rw [size']; exact clusterSize_pos sound, fun k before => ?_⟩
      rw [size', length] at before
      have there := (written_bytes sound dir fits small added before).1
      rw [Nat.mul_div_cancel _ (clusterSize_pos sound)] at there
      rw [first]
      exact there
    have read := readEntry_content (fuel + 1) count held (fun _ => words) (by
      rw [size', length, Nat.succ_mul]
      exact Nat.lt_of_lt_of_le enough (Nat.le_add_right _ _))
    rw [chainBytes, map_range_window, first, length] at read
    unfold fat16ReadFile
    simp only [Option.bind_eq_bind, Option.bind_eq_some_iff, Prod.exists]
    refine ⟨w, name, entered _, some e, lookup, _, read, w, left _, ?_⟩
    refine congrArg (fun bytes => some (bytes, w)) (List.map_congr_left fun i member => ?_)
    have below := List.mem_range.mp member
    exact (written_bytes sound dir fits small added (by omega)).2
  · refine ⟨other_chain sound dir fits added chained, fun other => ?_⟩
    obtain ⟨inData, -, taken⟩ := chained k (Nat.le_refl _)
    exact other_sectors sound dir fits added inData taken other

end

theorem write_then_read_twoEntries : ∃ w, (∀ fuel, fat16WriteFile fuel twoEntries [0x62] UInt8.ofNat 5 = some w) ∧
    ReadsBack twoEntries w [0x62] UInt8.ofNat 5 := by
  have absent : (findEntryInCurrentDir 1 twoEntries [0x62]).map Option.isNone = some true := by decide +kernel
  obtain ⟨found, missing, isNone⟩ := Option.map_eq_some_iff.mp absent
  exact write_then_read ⟨rfl, twoEntries_regular.placed, by decide, by decide, by decide⟩
    ⟨Or.inl rfl, Or.inl rfl, twoEntries_tidy.ended⟩ twoEntries_tidy ⟨by decide, by decide,
      by decide +kernel⟩ (by decide)
    (missing.trans (congrArg some (Option.isNone_iff_eq_none.mp isNone))) (by decide)
    ⟨by decide +kernel, by decide +kernel, by decide +kernel⟩

/-! ## A part of a long name without its entry -/

/-- A part that says `Z` with the checksum of `A`, a deleted entry, and nothing else. -/
def strayRoot : Sector := fun o =>
  if o = 0 then 0x41 else if o = 1 then 0x5A else if o = 11 then 0x0F else if o = 13 then lfnChecksum
    (shortNameFor [0x41])
  else if o = 32 then 0xE5 else 0

def strayPart : Volume := { twoEntries with
  disk :=
    { total := 418
      sectors := fun n => if n = 258 then strayRoot else fun _ => 0 } }

/-- No entry is there and every cluster is free, and the file `A` is not found once it is written. -/
theorem stray_part_hides : ∃ v, Sound v ∧ Directory v ∧
    (visits 0 Scan.initial (slotsOf v v.fs.currentDirCluster)).1 = [] ∧ freeClusters v = List.range' 2 254 ∧
    findEntryInCurrentDir 2 v [0x41] = some none ∧ Fits v [0x41] 1 ∧
    ¬ ∃ w, (∀ fuel, fat16WriteFile fuel v [0x41] (fun _ => 7) 1 = some w) ∧
    ReadsBack v w [0x41] (fun _ => 7) 1 := by
  have placed : WellPlaced strayPart := ⟨rfl, rfl, by decide, by decide⟩
  have ended := ended_from (slotsOf strayPart 0) 2 (by decide +kernel) (by decide +kernel)
  have absent : (findEntryInCurrentDir 2 strayPart [0x41]).map Option.isNone = some true := by decide +kernel
  obtain ⟨found, missing, isNone⟩ := Option.map_eq_some_iff.mp absent
  have lost : ((fat16WriteFile 2 strayPart [0x41] (fun _ => 7) 1).bind (fat16GetFileSize 2 · [0x41])).map (·.1) =
    some 0 := by
    decide +kernel
  refine ⟨strayPart, ⟨rfl, placed, by decide, by decide, by decide⟩, ⟨Or.inl rfl, Or.inl rfl, ended⟩,
    List.length_eq_zero_iff.mp (by decide +kernel), by decide +kernel,
    missing.trans (congrArg some (Option.isNone_iff_eq_none.mp isNone)),
    ⟨by decide +kernel, by decide +kernel, by decide +kernel⟩, ?_⟩
  rintro ⟨w, wrote, back⟩
  rw [wrote, Option.bind_some, back.length 0] at lost
  exact Nat.one_ne_zero (Option.some.inj lost)

end MeowMeowOS.WrittenFiles

import MeowMeowOS.Fat16Chains

/-! What the two changes of a directory do to its entries: an addition fills a
run of free ones, a removal marks a short entry and the long name in front of
it. Every other entry of every directory is as it was. -/
namespace MeowMeowOS.Fat16Entries
open ByteMemory RunSearch Fat16Disk Fat16Names Fat16Directory Fat16Geometry Fat16Scan Fat16Chains

section Entries
variable {v v' : Volume} {cwd : Nat}

/-! ## Adding -/

/-- The run that is found is free and lies in the directory. -/
theorem findFreeSlots_free (found : findFreeSlots v required = some start) :
    start + required ≤ dirLength v.fs v.fs.currentDirCluster ∧
      ∀ j < required, isFreeSlot
        (dirSlot v.disk (dirStart v.fs v.fs.currentDirCluster) (start + j)) = true := by
  unfold findFreeSlots at found
  have run := firstRun_free (fun counted => absurd counted (Nat.lt_irrefl 0))
    (fun _ above below => absurd below (by omega)) found
  rwa [Nat.zero_add] at run

/-- The entries of a directory are read from its sectors. -/
theorem slotsOf_sectors {c : Nat} (fs : v'.fs = v.fs)
    (same : SameSectors v.disk v'.disk (dirStart v.fs c) (dirStart v.fs c + dirSectors v.fs c)) :
    slotsOf v' c = slotsOf v c := by
  unfold slotsOf
  rw [fs]
  exact List.map_congr_left fun p member => dirSlot_sectors same (List.mem_range.mp member)

theorem findFreeSlots_sectors (fs : v'.fs = v.fs)
    (same : SameSectors v.disk v'.disk (dirStart v.fs v.fs.currentDirCluster)
      (dirStart v.fs v.fs.currentDirCluster + dirSectors v.fs v.fs.currentDirCluster)) (required : Nat) :
    findFreeSlots v' required = findFreeSlots v required := by
  unfold findFreeSlots
  rw [fs]
  refine firstRun_congr fun b _ below => ?_
  rw [dirSlot_sectors same (by unfold dirLength at below; omega)]

/-- Where a new entry goes, and what stays. -/
theorem addDirEntry_spec (placed : WellPlaced v) (dir : DirPlaced v v.fs.currentDirCluster)
    (added : addDirEntry v baseName attr cluster size = some v') :
    ∃ start, findFreeSlots v (nameEntries baseName attr cluster size).length = some start ∧
      v'.fs = v.fs ∧ v'.disk.total = v.disk.total ∧
      (∀ q < dirLength v.fs v.fs.currentDirCluster,
        dirSlot v'.disk (dirStart v.fs v.fs.currentDirCluster) q =
          if start ≤ q ∧ q < start + (nameEntries baseName attr cluster size).length then
            trim ((nameEntries baseName attr cluster size).getD (q - start) emptyBuf)
          else dirSlot v.disk (dirStart v.fs v.fs.currentDirCluster) q) ∧
      ∀ lo hi, hi ≤ 2 ^ 23 →
        dirStart v.fs v.fs.currentDirCluster + dirSectors v.fs v.fs.currentDirCluster ≤ lo ∨
          hi ≤ dirStart v.fs v.fs.currentDirCluster →
        SameSectors v.disk v'.disk lo hi := by
  unfold addDirEntry at added
  obtain ⟨start, found, rfl⟩ := Option.map_eq_some_iff.mp added
  have onDisk := dirRegion_onDisk placed dir
  have fits := (findFreeSlots_free found).1
  refine ⟨start, found, rfl, writeSlots_total _ _ _ _, fun q small => ?_, fun lo hi bound apart => ?_⟩
  · exact dirSlot_writeSlots onDisk fits small
  · exact writeSlots_sectors onDisk fits bound apart

/-- The fields of a short entry as it is written. -/
theorem shortEntry_fields (shortName : List UInt8) (attr : UInt8) (cluster size : Nat) :
    (∀ j < 11, shortEntry shortName attr cluster size j = shortName.getD j 0) ∧
      attributes (shortEntry shortName attr cluster size) = attr ∧
      clusterLow (shortEntry shortName attr cluster size) = cluster % 2 ^ 16 ∧
      fileSize (shortEntry shortName attr cluster size) = size % 2 ^ 32 := by
  refine ⟨fun j small => ?_, ?_, ?_, ?_⟩
  · have h1 : j ≠ 11 := by omega
    have h2 : j ≠ 26 := by omega
    have h3 : j ≠ 27 := by omega
    have h4 : j ≠ 28 := by omega
    have h5 : j ≠ 29 := by omega
    have h6 : j ≠ 30 := by omega
    have h7 : j ≠ 31 := by omega
    simp [shortEntry, writeWord, writeHalf, writeByte, small, h1, h2, h3, h4, h5, h6, h7]
  · simp [shortEntry, attributes, writeWord, writeHalf, writeByte]
  · unfold clusterLow shortEntry
    dsimp only
    have apart : ∀ m : Mem, readHalf (writeWord m 28 size) 26 = readHalf m 26 := by
      intro m
      simp [readHalf, writeWord]
    rw [apart, readHalf_writeHalf]
  · unfold fileSize shortEntry
    exact readWord_writeWord _ _ _

theorem fileName_shortEntry (shortName : List UInt8) (attr : UInt8) (cluster size : Nat)
    (whole : shortName.length = 11) : fileName (shortEntry shortName attr cluster size) = shortName := by
  have bytes := (shortEntry_fields shortName attr cluster size).1
  apply List.ext_getElem
  · simp [fileName, whole]
  · intro j small small'
    have below : j < 11 := by omega
    simp [fileName, bytes j below, small']

/-! ## Removing -/

/-- The entries that a removal marks lie in the directory, the long name first. -/
theorem visit_run (member : visit ∈ (visits 0 Scan.initial (slotsOf v cwd)).1) :
    visit.lfnStart.getD visit.position ≤ visit.position ∧ visit.position < dirLength v.fs cwd := by
  refine ⟨?_, (visit_live member).1.small⟩
  cases start : visit.lfnStart with
  | none => exact Nat.le_refl _
  | some s => exact (visits_start member start (by simp [Scan.initial])).1

/-- The marks change no sector outside the directory, and none of the table. -/
theorem marked_kept (placed : WellPlaced v) (dir : DirPlaced v v.fs.currentDirCluster)
    (member : visit ∈ (visits 0 Scan.initial (slotsOf v v.fs.currentDirCluster)).1)
    (marked : markEntriesDeleted v.disk (dirStart v.fs v.fs.currentDirCluster)
      (visit.lfnStart.getD visit.position) visit.position = d) :
    WellPlaced { v with disk := d } ∧ d.total = v.disk.total ∧
      (∀ lo hi, hi ≤ 2 ^ 23 →
        dirStart v.fs v.fs.currentDirCluster + dirSectors v.fs v.fs.currentDirCluster ≤ lo ∨
          hi ≤ dirStart v.fs v.fs.currentDirCluster → SameSectors v.disk d lo hi) ∧
      ∀ c, InTable v c → getFatEntry { v with disk := d } c = getFatEntry v c := by
  obtain ⟨order, fits⟩ := visit_run member
  have onDisk := dirRegion_onDisk placed dir
  have behind := dirRegion_behind placed dir
  have data := placed.data
  have root := placed.root
  have noWrap := placed.noWrap
  have total : d.total = v.disk.total := by
    rw [← marked]
    exact markEntriesDeleted_total _ _ _ _
  have apart : ∀ lo hi, hi ≤ 2 ^ 23 →
      dirStart v.fs v.fs.currentDirCluster + dirSectors v.fs v.fs.currentDirCluster ≤ lo ∨
        hi ≤ dirStart v.fs v.fs.currentDirCluster → SameSectors v.disk d lo hi := by
    intro lo hi bound outside
    rw [← marked]
    exact markEntriesDeleted_sectors onDisk order fits bound outside
  refine ⟨wellPlaced_of_eq placed rfl total, total, apart, fun c inTable => ?_⟩
  exact getFatEntry_sectors rfl (apart _ _ (by omega) (Or.inr (by omega))) inTable

theorem linksInTable_marked (links : LinksInTable v)
    (table : ∀ c, InTable v c → getFatEntry { v with disk := d } c = getFatEntry v c) :
    LinksInTable { v with disk := d } := by
  intro c inTable inChain
  have inTable : InTable v c := inTable
  rw [table c inTable] at inChain ⊢
  exact links c inTable inChain

/-- What is marked, and what stays. The table's links still stay inside it. -/
theorem removeEntry_spec (placed : WellPlaced v) (dir : DirPlaced v v.fs.currentDirCluster)
    (links : LinksInTable v)
    (member : visit ∈ (visits 0 Scan.initial (slotsOf v v.fs.currentDirCluster)).1)
    (start : InChain (clusterLow visit.slot) → InTable v (clusterLow visit.slot))
    (ran : removeEntry fuel v visit = some v') :
    v'.fs = v.fs ∧ v'.disk.total = v.disk.total ∧ LinksInTable v' ∧
      (∀ q < dirLength v.fs v.fs.currentDirCluster,
        dirSlot v'.disk (dirStart v.fs v.fs.currentDirCluster) q =
          if visit.lfnStart.getD visit.position ≤ q ∧ q ≤ visit.position then
            trim (writeByte (dirSlot v.disk (dirStart v.fs v.fs.currentDirCluster) q) 0 0xE5)
          else dirSlot v.disk (dirStart v.fs v.fs.currentDirCluster) q) ∧
      ∀ lo hi, v.fs.rootDirLba ≤ lo → hi ≤ 2 ^ 23 →
        dirStart v.fs v.fs.currentDirCluster + dirSectors v.fs v.fs.currentDirCluster ≤ lo ∨
          hi ≤ dirStart v.fs v.fs.currentDirCluster →
        SameSectors v.disk v'.disk lo hi := by
  obtain ⟨order, fits⟩ := visit_run member
  have onDisk := dirRegion_onDisk placed dir
  have behind := dirRegion_behind placed dir
  unfold removeEntry at ran
  generalize markedDisk : markEntriesDeleted v.disk (dirStart v.fs v.fs.currentDirCluster)
    (visit.lfnStart.getD visit.position) visit.position = d at ran
  obtain ⟨placed', total, apart, table⟩ := marked_kept placed dir member markedDisk
  obtain ⟨fs, total', links'', same⟩ := freeChain_frame placed' (linksInTable_marked links table) start ran
  refine ⟨fs, total'.trans total, links'', fun q small => ?_, fun lo hi above bound outside => ?_⟩
  · have kept : dirSlot v'.disk (dirStart v.fs v.fs.currentDirCluster) q =
        dirSlot d (dirStart v.fs v.fs.currentDirCluster) q :=
      dirSlot_sectors (same.narrow behind onDisk.2) small
    rw [kept, ← markedDisk]
    exact dirSlot_markEntriesDeleted onDisk order fits small
  · exact (apart lo hi bound outside).trans (same.narrow above bound)

end Entries

end MeowMeowOS.Fat16Entries

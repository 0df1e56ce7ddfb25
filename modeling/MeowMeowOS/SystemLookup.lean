import MeowMeowOS.SystemTree
import Mathlib.Data.List.TakeWhile

/-! Lookups, listings and reads below a directory depend on the clusters of its
tree only: on a disk that agrees with the old one there, they all come out the
same. -/
namespace MeowMeowOS.SystemLookup
open ByteMemory Fat16Disk Fat16Names Fat16Directory Fat16Paths Fat16Files
open Fat16Geometry Fat16Scan SystemTree

def withDisk (d : Disk) (v : Volume) : Volume := { v with disk := d }

def dotDot : CString := [0x2E, 0x2E]

section Same
variable {v : Volume} {d : Disk} {path : CString}

/-- The disk holds the same sectors and the same link for a cluster. -/
def Agree (v : Volume) (d : Disk) (x : Nat) : Prop :=
  SameSectors v.disk d (clusterLba v.fs x) (clusterLba v.fs x + v.fs.sectorsPerCluster) ∧
    getFatEntry (withDisk d v) x = getFatEntry v x

def SameTree (v : Volume) (d : Disk) (c : Nat) : Prop := ∀ x, Belongs v c x → Agree v d x

theorem slotsOf_same (child : c ≠ 0) (agree : Agree v d c) : slotsOf (withDisk d v) c = slotsOf v c := by
  apply List.map_congr_left
  intro k member
  have small : k < dirLength v.fs c := List.mem_range.mp member
  unfold dirLength at small
  refine dirSlot_sectors (n := dirSectors v.fs c) ?_ small
  simp only [dirStart, dirSectors, child, ↓reduceIte]
  exact agree.1

/-! ## Entries -/

theorem findInChain_same (child : c ≠ 0) (agree : Agree v d c) (single : ¬ InChain (getFatEntry v c)) :
    findInChain (enter (withDisk d v) cwd path) t fuel c scan = findInChain (enter v cwd path) t fuel c scan := by
  have slots : slotsOf (enter (withDisk d v) cwd path) c = slotsOf (enter v cwd path) c :=
    slotsOf_same child agree
  have link : getFatEntry (enter (withDisk d v) cwd path) c = getFatEntry (enter v cwd path) c := agree.2
  have ended : ¬ InChain (getFatEntry (enter v cwd path) c) := single
  cases fuel with
  | zero => rfl
  | succ fuel =>
    have last : ∀ w : Volume, ∀ scan, findInChain w t fuel (getFatEntry (enter v cwd path) c) scan =
        if fuel = 0 then none else some none := by
      intro w scan
      cases fuel with
      | zero => rfl
      | succ fuel => simp [findInChain, ended]
    simp only [findInChain, slots, link, last]

theorem listChain_same (child : c ≠ 0) (agree : Agree v d c) (single : ¬ InChain (getFatEntry v c)) :
    listChain (enter (withDisk d v) cwd path) fuel c scan = listChain (enter v cwd path) fuel c scan := by
  have slots : slotsOf (enter (withDisk d v) cwd path) c = slotsOf (enter v cwd path) c :=
    slotsOf_same child agree
  have link : getFatEntry (enter (withDisk d v) cwd path) c = getFatEntry (enter v cwd path) c := agree.2
  have ended : ¬ InChain (getFatEntry (enter v cwd path) c) := single
  cases fuel with
  | zero => rfl
  | succ fuel =>
    have last : ∀ w : Volume, ∀ scan, listChain w fuel (getFatEntry (enter v cwd path) c) scan =
        if fuel = 0 then none else some [] := by
      intro w scan
      cases fuel with
      | zero => rfl
      | succ fuel => simp [listChain, ended]
    simp only [listChain, slots, link, last]

theorem tree_single (tree : DirTree v c) : ¬ InChain (getFatEntry v c) := by
  cases tree with
  | node _ _ single => exact single

theorem tree_child (tree : DirTree v c) : c ≠ 0 := by
  rintro rfl
  exact absurd (dirTree_placed tree).1.1 (by decide)

theorem findEntry_same (tree : DirTree v c) (same : SameTree v d c) (t : CString) :
    findEntryInCurrentDir fuel (enter (withDisk d v) c path) t =
      findEntryInCurrentDir fuel (enter v c path) t := by
  have child := tree_child tree
  unfold findEntryInCurrentDir
  rw [if_neg (show (enter (withDisk d v) c path).fs.currentDirCluster ≠ 0 from child),
    if_neg (show (enter v c path).fs.currentDirCluster ≠ 0 from child)]
  exact findInChain_same child (same c Belongs.own) (tree_single tree)

theorem fat16List_same (tree : DirTree v c) (same : SameTree v d c) :
    fat16List fuel (enter (withDisk d v) c path) = fat16List fuel (enter v c path) := by
  have child := tree_child tree
  unfold fat16List
  rw [if_neg (show (enter (withDisk d v) c path).fs.currentDirCluster ≠ 0 from child),
    if_neg (show (enter v c path).fs.currentDirCluster ≠ 0 from child)]
  exact listChain_same child (same c Belongs.own) (tree_single tree)

/-- Only "." and ".." are formatted with a dot in front. -/
theorem formatFilename_dot (t : CString) (here : t ≠ [0x2E]) (up : t ≠ dotDot) :
    (formatFilenameToFat t).getD 0 0 ≠ 0x2E := by
  unfold formatFilenameToFat
  rw [if_neg here, if_neg (show ¬ t = [0x2E, 0x2E] from up)]
  dsimp only
  cases base : t.takeWhile (· ≠ 0x2E) with
  | nil => simp [padded]
  | cons c rest =>
    have plain : c ≠ 0x2E := by
      have member : c ∈ t.takeWhile (· ≠ 0x2E) := by rw [base]; exact List.mem_cons_self
      simpa using List.mem_takeWhile_imp member
    have upper : toUpper c ≠ 0x2E := by
      unfold toUpper
      split
      · rename_i letter
        intro same
        have := congrArg UInt8.toNat same
        have low := UInt8.le_iff_toNat_le.mp letter.1
        have high := UInt8.le_iff_toNat_le.mp letter.2
        simp only [UInt8.toNat_sub, UInt8.reduceToNat] at this low high
        omega
      · exact plain
    simp [padded, upper]

/-- A name other than "." and ".." finds an entry that is not the directory's
own or its parent's. -/
theorem findEntry_live (tree : DirTree v c) (here : t ≠ [0x2E]) (up : t ≠ dotDot)
    (found : findEntryInCurrentDir fuel (enter v c path) t = some (some e)) :
    ∃ k, Live v c k ∧ e = entryAt v c k ∧ isDotEntry e = false := by
  have child := tree_child tree
  have single := tree_single tree
  unfold findEntryInCurrentDir at found
  rw [if_neg (show (enter v c path).fs.currentDirCluster ≠ 0 from child)] at found
  cases fuel with
  | zero => cases found
  | succ fuel =>
    have inChain : InChain (enter v c path).fs.currentDirCluster := (dirTree_placed tree).1
    rw [findInChain, if_pos inChain] at found
    dsimp only at found
    split at found
    · rename_i visit target
      simp only [Option.some.injEq] at found
      have member : visit ∈ (visits 0 Scan.initial (slotsOf v c)).1 := List.mem_of_find?_eq_some target
      have matching := List.find?_some target
      obtain ⟨live, slot⟩ := visit_entry member
      refine ⟨visit.position, live, by rw [← slot, found], ?_⟩
      by_contra dot
      have dot : isDotEntry visit.slot = true := by
        rw [← found] at dot
        simpa using dot
      cases tree with
      | node _ _ _ dots =>
        have plain := dots visit member dot
        rw [Visit.matches, if_neg (by simp [plain])] at matching
        have first : fileName visit.slot = formatFilenameToFat t := by simpa using matching
        apply formatFilename_dot t here up
        rw [← first]
        have dotted : visit.slot 0 = 0x2E := by
          simp only [isDotEntry, decide_eq_true_eq] at dot
          exact dot.1
        simp [fileName, List.range_succ_eq_map, dotted]
    · split at found
      · cases found
      · cases fuel with
        | zero => cases found
        | succ fuel =>
          have ended : ¬ InChain (getFatEntry (enter v c path) (enter v c path).fs.currentDirCluster) := single
          rw [findInChain, if_neg ended] at found
          cases found

/-! ## Paths -/

theorem sameTree_child (same : SameTree v d c) (live : Live v c k)
    (named : isDotEntry (entryAt v c k) = false) (directory : isDirectory (entryAt v c k) = true) :
    SameTree v d (clusterLow (entryAt v c k)) :=
  fun x belongs => same x (Belongs.child live named directory belongs)

/-- A walk below the directory that never goes up ends in the same place. -/
theorem walkTokens_same (tree : DirTree v c) (same : SameTree v d c) (down : dotDot ∉ names) :
    (walkTokens fuel (withDisk d v) (enter (withDisk d v) c path) names =
      (walkTokens fuel v (enter v c path) names).map fun (code, u) => (code, withDisk d u)) ∧
    ∀ u, walkTokens fuel v (enter v c path) names = some (0, u) →
      ∃ c' path', u = enter v c' path' ∧ DirTree v c' ∧ SameTree v d c' := by
  induction names generalizing c path with
  | nil =>
    refine ⟨rfl, fun u ended => ⟨c, path, ?_, tree, same⟩⟩
    simp only [walkTokens, Option.some.injEq, Prod.mk.injEq, true_and] at ended
    exact ended.symm
  | cons t rest ih =>
    have up : t ≠ dotDot := fun is => down (is ▸ List.mem_cons_self)
    have down' : dotDot ∉ rest := fun member => down (List.mem_cons_of_mem _ member)
    simp only [walkTokens]
    by_cases here : t = [0x2E]
    · simp only [if_pos here]
      exact ih tree same down'
    · simp only [if_neg here, if_neg (show ¬ t = [0x2E, 0x2E] from up), findEntry_same tree same]
      cases found : findEntryInCurrentDir fuel (enter v c path) t with
      | none => exact ⟨rfl, fun u ended => by cases ended⟩
      | some entry =>
        cases entry with
        | none => exact ⟨rfl, fun u ended => by simp at ended⟩
        | some e =>
          obtain ⟨k, live, rfl, named⟩ := findEntry_live tree here up found
          have pathSame : (enter (withDisk d v) c path).fs.currentPath = (enter v c path).fs.currentPath := rfl
          simp only [pathSame]
          by_cases enters : isDirectory (entryAt v c k) = true ∧
              (enter v c path).fs.currentPath.length + t.length + 2 < 256
          · rw [if_pos enters, if_pos enters]
            cases tree with
            | node _ _ _ _ _ dirs =>
              exact ih (dirs k live named enters.1) (sameTree_child same live named enters.1) down'
          · rw [if_neg enters, if_neg enters]
            exact ⟨rfl, fun u ended => by simp at ended⟩

/-! ## Contents -/

theorem readSectors_same (same : SameSectors v.disk d lba (lba + n)) (within : s + remaining ≤ n) :
    readSectors (enter (withDisk d v) c path) lba want remaining s offset acc =
      readSectors (enter v c path) lba want remaining s offset acc := by
  induction remaining generalizing s offset acc with
  | zero => rfl
  | succ remaining ih =>
    have sector : kdiskReadSector (enter (withDisk d v) c path).disk (lba + s) =
        kdiskReadSector (enter v c path).disk (lba + s) := same _ (by omega) (by omega)
    simp only [readSectors, sector]
    rw [ih (by omega), ih (by omega)]

theorem readClusters_same (same : ∀ x, OnChain v x0 x → Agree v d x) :
    readClusters (enter (withDisk d v) c path) want fuel x0 offset acc =
      readClusters (enter v c path) want fuel x0 offset acc := by
  induction fuel generalizing x0 offset acc with
  | zero => rfl
  | succ fuel ih =>
    simp only [readClusters]
    by_cases inChain : InChain x0
    · have agree := same x0 (OnChain.here inChain)
      have link : getFatEntry (enter (withDisk d v) c path) x0 = getFatEntry (enter v c path) x0 := agree.2
      have lba : clusterLba (enter (withDisk d v) c path).fs x0 = clusterLba v.fs x0 := rfl
      have lba' : clusterLba (enter v c path).fs x0 = clusterLba v.fs x0 := rfl
      have wide : (enter (withDisk d v) c path).fs.sectorsPerCluster = v.fs.sectorsPerCluster := rfl
      have wide' : (enter v c path).fs.sectorsPerCluster = v.fs.sectorsPerCluster := rfl
      have further : ∀ offset acc,
          readClusters (enter (withDisk d v) c path) want fuel (getFatEntry (enter v c path) x0) offset acc =
            readClusters (enter v c path) want fuel (getFatEntry (enter v c path) x0) offset acc :=
        fun offset acc => ih fun x on => same x (OnChain.next inChain on)
      rw [lba, lba', wide, wide', readSectors_same agree.1 (by omega), link]
      simp only [further]
    · rw [if_neg fun both => inChain both.1, if_neg fun both => inChain both.1]

theorem skipClusters_same (same : ∀ x, OnChain v x0 x → Agree v d x) :
    skipClusters (enter (withDisk d v) c path) count x0 = skipClusters (enter v c path) count x0 ∧
      ∀ x, skipClusters (enter v c path) count x0 = some x →
        ∀ y, OnChain v x y → Agree v d y := by
  induction count generalizing x0 with
  | zero =>
    refine ⟨rfl, fun x reached => ?_⟩
    simp only [skipClusters, Option.some.injEq] at reached
    exact reached ▸ same
  | succ count ih =>
    simp only [skipClusters]
    by_cases inChain : InChain x0
    · have agree := same x0 (OnChain.here inChain)
      have link : getFatEntry (enter (withDisk d v) c path) x0 = getFatEntry (enter v c path) x0 := agree.2
      rw [if_pos inChain, if_pos inChain, link]
      exact ih fun x on => same x (OnChain.next inChain on)
    · rw [if_neg inChain, if_neg inChain]
      exact ⟨rfl, fun x reached => by cases reached⟩

theorem readEntry_same (same : ∀ x, OnChain v (clusterLow e) x → Agree v d x) (offset size : Nat) :
    readEntry fuel (enter (withDisk d v) c path) e offset size =
      readEntry fuel (enter v c path) e offset size := by
  have wide : (enter (withDisk d v) c path).fs.sectorsPerCluster = (enter v c path).fs.sectorsPerCluster := rfl
  unfold readEntry
  rw [wide]
  dsimp only
  rw [(skipClusters_same same).1]
  cases reached : skipClusters (enter v c path)
    (offset / ((enter v c path).fs.sectorsPerCluster * 512)) (clusterLow e) with
  | none => rfl
  | some x =>
    dsimp only
    rw [readClusters_same ((skipClusters_same same).2 x reached)]

end Same

end MeowMeowOS.SystemLookup

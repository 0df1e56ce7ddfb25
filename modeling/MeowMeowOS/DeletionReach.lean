import MeowMeowOS.WalkedEntries
import MeowMeowOS.MissingDirectories
import Mathlib.Data.Finset.Card

/-! Deleting what a lookup finds. The lookup follows the chain of the current
directory to its end; the two deletions look through the first cluster only. -/
namespace MeowMeowOS.DeletionReach
open ByteMemory Fat16Disk Fat16Names Fat16Directory Fat16Paths Fat16Files Fat16Geometry Fat16Scan
open Fat16Chains Fat16Entries MissingDirectories WalkedEntries

/-! ## Freeing a chain ends -/

section Free
variable {v : Volume} {c n : Nat}

instance (v : Volume) (c : Nat) : Decidable (InTable v c) := inferInstanceAs (Decidable (_ ∧ _))

/-- The clusters of the table that are not free. -/
def usedClusters (v : Volume) : Finset Nat :=
  (Finset.range (v.fs.sectorsPerFat * 256)).filter fun c => InTable v c ∧ getFatEntry v c ≠ 0

theorem mem_usedClusters : c ∈ usedClusters v ↔ InTable v c ∧ getFatEntry v c ≠ 0 := by
  unfold usedClusters
  rw [Finset.mem_filter, Finset.mem_range]
  constructor
  · exact fun member => member.2
  · rintro ⟨inTable, used⟩
    have sector := inTable.2
    exact ⟨by omega, inTable, used⟩

theorem usedClusters_clear (placed : WellPlaced v) (inTable : InTable v c) (used : getFatEntry v c ≠ 0) :
    (usedClusters (setFatEntry v c 0x0000)).card < (usedClusters v).card := by
  apply Finset.card_lt_card
  refine Finset.ssubset_iff_of_subset ?_ |>.mpr ⟨c, mem_usedClusters.mpr ⟨inTable, used⟩, fun member => ?_⟩
  · intro x member
    obtain ⟨inTable', still⟩ := mem_usedClusters.mp member
    have inTable' : InTable v x := inTable'
    rw [getFatEntry_setFatEntry placed inTable inTable'] at still
    refine mem_usedClusters.mpr ⟨inTable', ?_⟩
    by_cases same : x = c
    · rw [if_pos same] at still
      exact absurd rfl still
    · rwa [if_neg same] at still
  · have still := (mem_usedClusters.mp member).2
    rw [getFatEntry_setFatEntry placed inTable inTable, if_pos rfl] at still
    exact still rfl

/-- Freeing comes to an end whatever the links are, cycles included: every step
but the last frees a cluster. -/
theorem freeChain_returns (placed : WellPlaced v) (links : LinksInTable v) (start : InChain c → InTable v c)
    (few : (usedClusters v).card ≤ n) : ∃ v', freeChain (n + 2) v c = some v' := by
  have done : ∀ (fuel : Nat) (w : Volume) (d : Nat), ¬ InChain d → freeChain (fuel + 1) w d = some w := by
    intro fuel w d ended
    rw [freeChain, if_neg ended]
  induction n generalizing v c with
  | zero =>
    rw [freeChain]
    split
    · rename_i inChain
      have free : getFatEntry v c = 0 := by
        by_contra used
        have member := mem_usedClusters.mpr ⟨start inChain, used⟩
        exact absurd (Finset.card_pos.mpr ⟨c, member⟩) (by omega)
      rw [free]
      exact ⟨_, done 0 _ 0 (by decide)⟩
    · exact ⟨v, rfl⟩
  | succ n ih =>
    rw [freeChain]
    split
    · rename_i inChain
      have inTable := start inChain
      by_cases free : getFatEntry v c = 0
      · rw [free]
        exact ⟨_, done _ _ 0 (by decide)⟩
      · have fewer := usedClusters_clear placed inTable free
        apply ih (wellPlaced_setFatEntry placed c _) (linksInTable_clear placed links inTable)
        · exact fun further => (inTable_of_eq (setFatEntry_fs v c _)).mpr (links c inTable further)
        · omega
    · exact ⟨v, rfl⟩

theorem removeEntry_returns (regular : Regular v)
    (member : visit ∈ (visits 0 Scan.initial (slotsOf v v.fs.currentDirCluster)).1) :
    ∃ fuel v', removeEntry fuel v visit = some v' := by
  obtain ⟨placed, -, dir, links, entries⟩ := regular
  obtain ⟨live, slot⟩ := visit_live member
  unfold removeEntry
  generalize marked : markEntriesDeleted v.disk (dirStart v.fs v.fs.currentDirCluster)
    (visit.lfnStart.getD visit.position) visit.position = d
  obtain ⟨placed', -, -, table⟩ := marked_kept placed dir member marked
  obtain ⟨v', ran⟩ := freeChain_returns placed' (linksInTable_marked links table)
    (slot ▸ entries visit.position live) (Nat.le_refl _)
  exact ⟨_, v', ran⟩

end Free

/-! ## What is deleted -/

/-- `fat16_delete_dir` or `fat16_delete_file` -/
def deleteNamed (directory : Bool) : Nat → Volume → CString → Option Volume :=
  if directory then fat16DeleteDir else fat16DeleteFile

/-- The entry stands for a directory that has no entries but '.' and '..'. -/
structure EmptyDirectory (v : Volume) (e : Slot) : Prop where
  cluster : InChain (clusterLow e)
  dots : ∀ clusters, ∀ visit ∈ (visits 0 Scan.initial (chainSlots v clusters (clusterLow e))).1,
    isDotEntry visit.slot = true

/-- The call returns and leaves entry `k` of the walk marked as deleted. -/
def Removes (v : Volume) (directory : Bool) (name : CString) (k : Nat) : Prop :=
  ∃ fuel v', deleteNamed directory fuel v name = some v' ∧
    deleted (entryOf v'.disk v.fs (placeOf v k)) = true

section Delete
variable {v : Volume} {fuel : Nat} {name : CString}

theorem isDirEmptySlots_dots (dots : ∀ visit ∈ (visits p scan slots).1, isDotEntry visit.slot = true) :
    isDirEmptySlots slots = true := by
  induction slots generalizing p scan with
  | nil => rfl
  | cons e rest ih =>
    rw [isDirEmptySlots]
    by_cases used : neverUsed e = false
    · rw [if_neg (by simp [used])]
      by_cases kept : deleted e = false
      · by_cases short : isLongName e = false
        · rw [visits_inUse ⟨used, kept, short⟩] at dots
          obtain ⟨here, later⟩ := List.forall_mem_cons.mp dots
          have here : isDotEntry e = true := here
          rw [if_neg (by simp [kept, short]), if_pos here]
          exact ih later
        · have long : isLongName e = true := by simpa using short
          rw [visits_longName used kept long] at dots
          rw [if_pos (by simp [long])]
          exact ih dots
      · have gone : deleted e = true := by simpa using kept
        rw [visits_deleted used gone] at dots
        rw [if_pos (by simp [gone])]
        exact ih dots
    · rw [if_pos (by simpa using used)]

/-- An empty directory passes the test of its first sector. -/
theorem isDirEmpty_empty (wide : 0 < v.fs.sectorsPerCluster) (empty : EmptyDirectory v e) :
    isDirEmpty v (clusterLow e) = true := by
  have sub : clusterLow e ≠ 0 := by
    have := empty.cluster.1
    omega
  have slots : chainSlots v 1 (clusterLow e) = (List.range 16).map (dirSlot v.disk (clusterLba v.fs (clusterLow e))) ++
      ((List.range (16 * (v.fs.sectorsPerCluster - 1))).map fun k =>
        dirSlot v.disk (clusterLba v.fs (clusterLow e)) (16 + k)) := by
    have count : 16 * v.fs.sectorsPerCluster = 16 + 16 * (v.fs.sectorsPerCluster - 1) := by omega
    rw [chainSlots, if_pos empty.cluster, chainSlots, List.append_nil, slotsOf, dirLength, dirSectors, dirStart,
      if_neg sub, if_neg sub, count, List.range_add, List.map_append, List.map_map]
    rfl
  have dots := empty.dots 1
  rw [slots, visits_append] at dots
  unfold isDirEmpty
  refine @isDirEmptySlots_dots 0 Scan.initial _ fun visit member => ?_
  apply dots visit
  split
  · exact member
  · exact List.mem_append_left _ member

/-- The deletion goes for the entry that a lookup finds in the first cluster. -/
theorem findToDelete_hit (hit : (visits 0 Scan.initial (slotsOf v v.fs.currentDirCluster)).1.find?
    (·.matches name) = some visit) : findToDelete v name (isDirectory visit.slot) = some visit := by
  obtain ⟨answers, before, after, split, others⟩ := List.find?_eq_some_iff_append.mp hit
  unfold findToDelete
  rw [split, List.find?_append, List.find?_eq_none.mpr]
  · rw [Option.none_or, List.find?_cons_of_pos (by simp [answers])]
  · intro other earlier
    have fails := others other earlier
    simp_all

theorem findToDelete_missed (missed : (visits 0 Scan.initial (slotsOf v v.fs.currentDirCluster)).1.find?
    (·.matches name) = none) (directory : Bool) : findToDelete v name directory = none := by
  apply List.find?_eq_none.mpr
  intro visit member
  have fails := List.find?_eq_none.mp missed visit member
  simp [fails]

/-- A deletion by a plain name is the removal of what it goes for. -/
theorem deleteNamed_plain (plain : slash ∉ name) (named : name ≠ []) (directory : Bool) :
    deleteNamed directory fuel v name =
      deleteFound fuel v (if directory then dirToDelete v name else findToDelete v name false) := by
  cases directory
  · simp [deleteNamed, fat16DeleteFile, named, enterPath, leavePath, plain]
  · simp [deleteNamed, fat16DeleteDir, named, enterPath, leavePath, plain, dirToDelete]

/-- Whatever a lookup finds, be it a file or an empty directory, a deletion by
the same name removes exactly if the name is not empty and the entry lies in the
first cluster of the directory. -/
theorem deletes_found_iff (regular : Regular v) (wide : 0 < v.fs.sectorsPerCluster) (plain : slash ∉ name)
    (hit : (walked fuel v).find? (·.matches name) = some visit)
    (empty : isDirectory visit.slot = true → EmptyDirectory v visit.slot) :
    findEntryInCurrentDir fuel v name = some (some visit.slot) ∧
      (Removes v (isDirectory visit.slot) name visit.position ↔
        name ≠ [] ∧ visit.position < dirLength v.fs v.fs.currentDirCluster) := by
  have member : visit ∈ walked fuel v := List.mem_of_find?_eq_some hit
  obtain ⟨inUse, slot⟩ := walked_slot member
  have early := walked_first hit
  have untouched : deleted (entryOf v.disk v.fs (placeOf v visit.position)) ≠ true := by
    rw [← slot, inUse.2.1]
    decide
  refine ⟨findEntry_walked.mpr (by rw [hit]; rfl), ?_, ?_⟩
  · rintro ⟨steps, v', ran, gone⟩
    have named : name ≠ [] := by
      rintro rfl
      have same : v' = v := by
        cases kind : isDirectory visit.slot <;>
          simpa [deleteNamed, kind, fat16DeleteFile, fat16DeleteDir, eq_comm] using ran
      exact untouched (same ▸ gone)
    refine ⟨named, ?_⟩
    by_contra behind
    rw [if_neg behind] at early
    have nothing : (if isDirectory visit.slot then dirToDelete v name else findToDelete v name false) = none := by
      rw [dirToDelete, findToDelete_missed early, findToDelete_missed early]
      simp
    rw [deleteNamed_plain plain named, nothing] at ran
    cases ran
    exact untouched gone
  · rintro ⟨named, inside⟩
    rw [if_pos inside] at early
    have found := findToDelete_hit early
    have target : (if isDirectory visit.slot then dirToDelete v name else findToDelete v name false) = some visit := by
      cases kind : isDirectory visit.slot with
      | false =>
        rw [kind] at found
        exact found
      | true =>
        rw [kind] at found
        rw [if_pos rfl, dirToDelete, found, Option.filter_some, if_pos (isDirEmpty_empty wide (empty kind))]
    obtain ⟨steps, v', removed⟩ := removeEntry_returns regular (List.mem_of_find?_eq_some early)
    have marked := removeEntry_marks regular (List.mem_of_find?_eq_some early) removed
    refine ⟨steps, v', ?_, ?_⟩
    · rw [deleteNamed_plain plain named, target]
      exact removed
    · rw [placeOf, Nat.div_eq_of_lt inside, Nat.mod_eq_of_lt inside]
      exact marked

end Delete

theorem deletes_found_iff_twoEntries : Removes twoEntries false [0x41] 0 := by
  have lookup : ((walked 1 twoEntries).find? (·.matches [0x41])).map
      (fun visit => (visit.position, isDirectory visit.slot)) = some (0, false) := by decide +kernel
  obtain ⟨visit, hit, fields⟩ := Option.map_eq_some_iff.mp lookup
  obtain ⟨place, kind⟩ := Prod.mk.inj fields
  have removes := (deletes_found_iff twoEntries_regular (by decide) (by decide) hit
    (fun directory => by rw [kind] at directory; cases directory)).2
  rw [kind, place] at removes
  exact removes.mpr ⟨by decide, by decide⟩

/-! ## A directory of two clusters -/

/-- The current directory is at cluster 2, goes on at cluster 3 and has a file
`A` there; its first cluster is full of other files. -/
def longDirectory : Volume where
  fs := { twoEntries.fs with sectorsPerCluster := 1, currentDirCluster := 2 }
  disk :=
    { total := 418
      sectors := fun n o =>
        if n = 256 ∨ n = 257 then (if o = 4 then 3 else if o = 5 then 0 else twoEntriesTable o)
        else if n = 290 then (if o % 32 = 0 then 0x42 else 0x20)
        else if n = 291 ∧ o < 32 then shortEntry (shortNameFor [0x41]) 0x20 4 5 o
        else 0 }

/-- The lookup finds `A`, and deleting `A` changes nothing. -/
theorem second_cluster_kept :
    (findEntryInCurrentDir 2 longDirectory [0x41]).map (·.map fun e => (isDirectory e, clusterLow e)) =
      some (some (false, 4)) ∧
    ((walked 2 longDirectory).find? (·.matches [0x41])).map (·.position) = some 16 ∧
    ¬ Removes longDirectory false [0x41] 16 := by
  refine ⟨by decide +kernel, by decide +kernel, ?_⟩
  rintro ⟨steps, v', ran, gone⟩
  have missed : findToDelete longDirectory [0x41] false = none := by
    apply Option.isNone_iff_eq_none.mp
    decide +kernel
  rw [deleteNamed_plain (by decide) (by decide), if_neg (by decide), missed] at ran
  cases ran
  exact absurd gone (by decide +kernel)

end MeowMeowOS.DeletionReach

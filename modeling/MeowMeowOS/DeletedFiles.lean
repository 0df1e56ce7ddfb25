import MeowMeowOS.CreatedEntries
import MeowMeowOS.TableCopies

/-! Deleting a file frees its clusters and marks its own entries, those of its
long name included. The search for the file keeps track of where the long name
in front of an entry began. -/
namespace MeowMeowOS.DeletedFiles
open ByteMemory Fat16Disk Fat16Names Fat16Directory Fat16Paths Fat16Files Fat16Geometry Fat16Scan
open Fat16Chains Fat16Entries Fat16Formatted LongNames CreatedEntries TableCopies MissingDirectories

/-! ## Where a long name begins -/

/-- What the loop knows in front of entry `p`: no part of a long name came
right before it, or a run of parts did that began at `lfnStart`. -/
inductive Pending (all : List Slot) (p : Nat) (scan : Scan) : Prop where
  | none (start : scan.lfnStart = none) (front : ∀ k e, k + 1 = p → all[k]? = some e → ¬ LongEntry e) :
      Pending all p scan
  | run (s : Nat) (start : scan.lfnStart = some s) (before : s < p)
      (parts : ∀ j, s ≤ j → j < p → ∃ e, all[j]? = some e ∧ LongEntry e)
      (front : ∀ k e, k + 1 = s → all[k]? = some e → ¬ LongEntry e)
      (sum : ∀ k e, k + 1 = p → all[k]? = some e → scan.lfnChksum = e 13) : Pending all p scan

/-- The run in front of an entry: it begins at `first`, and no part of a long
name lies before it. -/
structure OwnRun (all : List Slot) (first position : Nat) : Prop where
  run : ∃ count, first + count = position ∧ LongRun all first count
  front : ∀ k e, k + 1 = first → all[k]? = some e → ¬ LongEntry e

section Runs
variable {all : List Slot} {p : Nat} {scan : Scan} {e : Slot}

theorem longEntry_notInUse (long : LongEntry e) (inUse : InUse e) : False := by
  have short := inUse.2.2
  rw [long.2.2] at short
  cases short

theorem pending_longName (pending : Pending all p scan) (here : all[p]? = some e) (long : LongEntry e) :
    Pending all (p + 1) (scan.longName p e) := by
  have sum : ∀ (k : Nat) (e' : Slot), k + 1 = p + 1 → all[k]? = some e' →
      (scan.longName p e).lfnChksum = e' 13 := by
    intro k e' last found
    obtain rfl : k = p := by omega
    rw [here, Option.some.injEq] at found
    rw [Scan.longName, found]
  cases pending with
  | none start front =>
    refine Pending.run p ?_ (Nat.lt_succ_self p) ?_ front sum
    · rw [Scan.longName, start]
      rfl
    · intro j above below
      obtain rfl : j = p := by omega
      exact ⟨e, here, long⟩
  | run s start before parts front _ =>
    refine Pending.run s ?_ (by omega) ?_ front sum
    · rw [Scan.longName, start]
      rfl
    · intro j above below
      by_cases last : j = p
      · exact ⟨e, last ▸ here, long⟩
      · exact parts j above (by omega)

theorem pending_cleared (here : all[p]? = some e) (short : ¬ LongEntry e) :
    Pending all (p + 1) scan.cleared := by
  refine Pending.none rfl fun k e' last found long => ?_
  obtain rfl : k = p := by omega
  rw [here, Option.some.injEq] at found
  exact short (found ▸ long)

/-- In a tidy directory the pending run is the one that belongs to the entry. -/
theorem ownRun_pending (tidy : Tidy all) (pending : Pending all p scan) (here : all[p]? = some e)
    (inUse : InUse e) :
    OwnRun all ((scan.checked e).lfnStart.getD p) p := by
  have alone : LongRun all p 0 :=
    ⟨fun i small => absurd small (Nat.not_lt_zero i), e, here, inUse,
      fun i small => absurd small (Nat.not_lt_zero i)⟩
  cases pending with
  | none start front =>
    have none : (scan.checked e).lfnStart = none := by
      unfold Scan.checked
      split
      · rfl
      · exact start
    rw [none]
    exact ⟨⟨0, rfl, alone⟩, front⟩
  | run s start before parts front sum =>
    obtain ⟨part, atStart, long⟩ := parts s (Nat.le_refl s) before
    obtain ⟨first, count, above, below, run⟩ := tidy.runs s part atStart long
    -- the run ends where the entries in use go on, and begins where `s` does
    have ends : first + count = p := by
      obtain ⟨short, found, shortUse, -⟩ := run.short
      rcases Nat.lt_trichotomy (first + count) p with less | same | more
      · obtain ⟨part', found', long'⟩ := parts (first + count) (by omega) less
        rw [found', Option.some.injEq] at found
        exact (longEntry_notInUse (found ▸ long') shortUse).elim
      · exact same
      · obtain ⟨part', found', long', -⟩ := run.parts (p - first) (by omega)
        rw [Nat.add_sub_of_le (by omega), here, Option.some.injEq] at found'
        exact (longEntry_notInUse (found' ▸ long') inUse).elim
    have begins : first = s := by
      apply Nat.le_antisymm above
      apply Nat.le_of_not_lt
      intro less
      obtain ⟨part', found', long', -⟩ := run.parts (s - 1 - first) (by omega)
      exact front (s - 1) part' (by omega) (by rw [← found']; congr 1; omega) long'
    subst begins
    have kept : scan.checked e = scan := by
      obtain ⟨short, found, -, sums⟩ := run.short
      rw [ends, here, Option.some.injEq] at found
      obtain ⟨part', found', -, -⟩ := run.parts (count - 1) (by omega)
      have same : scan.lfnChksum = lfnChecksum (fileName e) := by
        rw [found, ← sums (count - 1) (by omega) part' found']
        exact sum (first + (count - 1)) part' (by omega) found'
      rw [Scan.checked, if_neg]
      exact fun both => both.2 same
    rw [kept, start]
    exact ⟨⟨count, ends, run⟩, front⟩

/-- Every visit names the run that belongs to its entry. -/
theorem visits_ownRun (tidy : Tidy all) (suffix : ∀ i, slots[i]? = all[p + i]?)
    (pending : Pending all p scan) (member : visit ∈ (visits p scan slots).1) :
    OwnRun all (visit.lfnStart.getD visit.position) visit.position := by
  induction slots generalizing p scan with
  | nil => simp [visits] at member
  | cons e rest ih =>
    have here : all[p]? = some e := by
      have first := suffix 0
      rw [Nat.add_zero] at first
      rw [← first]
      rfl
    have later : ∀ i : Nat, rest[i]? = all[p + 1 + i]? := by
      intro i
      rw [show p + 1 + i = p + (i + 1) by omega, ← suffix (i + 1)]
      rfl
    by_cases used : neverUsed e = false
    · by_cases kept : deleted e = false
      · by_cases short : isLongName e = false
        · have notLong : ¬ LongEntry e := fun long => longEntry_notInUse long ⟨used, kept, short⟩
          rw [visits_inUse ⟨used, kept, short⟩] at member
          rcases List.mem_cons.mp member with rfl | member
          · exact ownRun_pending tidy pending here ⟨used, kept, short⟩
          · exact ih later (pending_cleared here notLong) member
        · have long : isLongName e = true := by simpa using short
          rw [visits_longName used kept long] at member
          exact ih later (pending_longName pending here ⟨used, kept, long⟩) member
      · have gone : deleted e = true := by simpa using kept
        rw [visits_deleted used gone] at member
        refine ih later (pending_cleared here fun long => ?_) member
        have again := long.2.1
        rw [gone] at again
        cases again
    · have never : neverUsed e = true := by simpa using used
      rw [visits_neverUsed never] at member
      cases member

end Runs

/-! ## Removing an entry -/

section Remove
variable {v : Volume} {fuel : Nat} {cs : List Nat}

/-- The marks lie behind the tables, so the chain that is freed is the entry's. -/
theorem removeEntry_frees (placed : WellPlaced v) (dir : DirPlaced v v.fs.currentDirCluster)
    (equal : TablesEqual v)
    (member : visit ∈ (visits 0 Scan.initial (slotsOf v v.fs.currentDirCluster)).1)
    (chain : ChainFrom v (clusterLow visit.slot) cs) (enough : cs.length < fuel) :
    ∃ v', removeEntry fuel v visit = some v' ∧ TablesEqual v' ∧
      ∀ x, InTable v x → getFatEntry v' x = if x ∈ cs then 0 else getFatEntry v x := by
  have behind := dirRegion_behind placed dir
  have region := placed.data
  have noWrap := placed.noWrap
  unfold removeEntry
  dsimp only
  generalize markedDisk : markEntriesDeleted v.disk (dirStart v.fs v.fs.currentDirCluster)
    (visit.lfnStart.getD visit.position) visit.position = d
  obtain ⟨placed', -, apart, entries⟩ := marked_kept placed dir member markedDisk
  have tables : SameSectors v.disk d v.fs.reservedSectors v.fs.rootDirLba :=
    apart _ _ (by omega) (Or.inr behind)
  have copies : TablesEqual { v with disk := d } := tablesEqual_same equal placed rfl tables
  have chain' : ChainFrom { v with disk := d } (clusterLow visit.slot) cs :=
    chainFrom_congr chain rfl fun x member => entries x (chainFrom_inTable chain member).2
  obtain ⟨v', ran, -, -, freed, kept, -⟩ := freeChain_frees placed' chain' enough
  refine ⟨v', ran, kept copies, fun x inTable => ?_⟩
  rw [freed x inTable, entries x inTable]

/-- The deleting search stops at the entry that a lookup finds, if it is a file. -/
theorem findToDelete_firstMatch (matched : firstMatch v name = some visit)
    (file : isDirectory visit.slot = false) : findToDelete v name false = some visit := by
  obtain ⟨answers, before, after, split, others⟩ := List.find?_eq_some_iff_append.mp matched
  unfold findToDelete
  rw [split, List.find?_append, List.find?_eq_none.mpr]
  · rw [Option.none_or, List.find?_cons_of_pos (by simp [answers, file])]
  · intro other earlier
    have fails := others other earlier
    simp_all

/-- Deleting a file clears its chain in both copies of the table, marks its
short entry and the parts of its long name, and changes nothing else. -/
theorem deleteFile_exact (placed : WellPlaced v) (one : OneCluster v)
    (tidy : Tidy (slotsOf v v.fs.currentDirCluster)) (links : LinksInTable v) (equal : TablesEqual v)
    (plain : slash ∉ name) (nonempty : name ≠ [])
    (found : findEntryInCurrentDir steps v name = some (some e)) (file : isDirectory e = false)
    (chain : ChainFrom v (clusterLow e) cs) (enough : cs.length < fuel) :
    ∃ v' first position, fat16DeleteFile fuel v name = some v' ∧
      (slotsOf v v.fs.currentDirCluster)[position]? = some e ∧
      OwnRun (slotsOf v v.fs.currentDirCluster) first position ∧
      (∀ x, InTable v x → getFatEntry v' x = (if x ∈ cs then 0 else getFatEntry v x) ∧
        secondEntry v' x = if x ∈ cs then 0 else secondEntry v x) ∧
      (∀ q < dirLength v.fs v.fs.currentDirCluster,
        dirSlot v'.disk (dirStart v.fs v.fs.currentDirCluster) q =
          if first ≤ q ∧ q ≤ position then
            trim (writeByte (dirSlot v.disk (dirStart v.fs v.fs.currentDirCluster) q) 0 0xE5)
          else dirSlot v.disk (dirStart v.fs v.fs.currentDirCluster) q) ∧
      ∀ b, v.fs.rootDirLba ≤ b → b < 2 ^ 23 →
        b < dirStart v.fs v.fs.currentDirCluster ∨
          dirStart v.fs v.fs.currentDirCluster + dirSectors v.fs v.fs.currentDirCluster ≤ b →
        kdiskReadSector v'.disk b = kdiskReadSector v.disk b := by
  have dir := oneCluster_placed one
  obtain ⟨visit, matched, rfl⟩ := Option.map_eq_some_iff.mp (findEntry_firstMatch one found).symm
  have member : visit ∈ (visits 0 Scan.initial (slotsOf v v.fs.currentDirCluster)).1 :=
    List.mem_of_find?_eq_some matched
  obtain ⟨v', removed, equal', freed⟩ := removeEntry_frees placed dir equal member chain enough
  have start : InChain (clusterLow visit.slot) → InTable v (clusterLow visit.slot) := by
    intro inChain
    cases chain with
    | stop ended => exact absurd inChain ended
    | link _ inTable _ => exact inTable
  obtain ⟨fs, -, -, slots, others⟩ := removeEntry_spec placed dir links member start removed
  obtain ⟨live, slot⟩ := visit_live member
  have ran : fat16DeleteFile fuel v name = some v' := by
    rw [fat16DeleteFile, if_neg nonempty, enterPath, if_neg plain]
    simp only [Option.bind_eq_bind, Option.bind_some, findToDelete_firstMatch matched file, deleteFound,
      removed, leavePath, if_neg plain]
  refine ⟨v', visit.lfnStart.getD visit.position, visit.position, ran, ?_, ?_, ?_, slots, ?_⟩
  · rw [slot]
    exact slotsOf_get live.small
  · apply visits_ownRun tidy (fun i => by rw [Nat.zero_add]) _ member
    exact Pending.none rfl fun k e last => absurd last (Nat.succ_ne_zero k)
  · intro x inTable
    rw [secondEntry_equal equal' ((inTable_of_eq fs).mpr inTable), secondEntry_equal equal inTable,
      freed x inTable]
    exact ⟨rfl, rfl⟩
  · intro b behind small outside
    exact others b (b + 1) behind (by omega) (by omega) b (Nat.le_refl b) (Nat.lt_succ_self b)

end Remove

/-! ## A file and a name that is empty -/

theorem twoEntries_equal : TablesEqual twoEntries := by
  intro s inside o _
  obtain rfl : s = 0 := Nat.lt_one_iff.mp inside
  rfl

theorem twoEntries_chain : ChainFrom twoEntries 2 [2] := by
  apply ChainFrom.link (by decide) ⟨by decide, by decide⟩
  apply ChainFrom.stop
  decide

theorem deleteFile_exact_twoEntries :
    ∃ v', fat16DeleteFile 2 twoEntries [0x41] = some v' ∧ getFatEntry v' 2 = 0 := by
  have lookup : (findEntryInCurrentDir 1 twoEntries [0x41]).map
      (·.map fun e => (isDirectory e, clusterLow e)) = some (some (false, 2)) := by decide +kernel
  obtain ⟨found, answers, isSome⟩ := Option.map_eq_some_iff.mp lookup
  obtain ⟨e, rfl, fields⟩ := Option.map_eq_some_iff.mp isSome
  simp only [Prod.mk.injEq] at fields
  obtain ⟨v', _, _, ran, -, -, entries, -⟩ := deleteFile_exact
    twoEntries_regular.placed (Or.inl rfl) twoEntries_tidy twoEntries_regular.links twoEntries_equal
    (by decide) (by decide) answers fields.1 (fields.2 ▸ twoEntries_chain) (show [2].length < 2 by decide)
  exact ⟨v', ran, (entries 2 ⟨by decide, by decide⟩).1⟩

/-- The root of a volume on which a file was stored under the name of one space. -/
def spaceRoot : Sector := fun o => if o < 32 then shortEntry (shortNameFor [0x20]) 0x20 2 5 o else 0

def spaceVolume : Volume :=
  { twoEntries with
    disk :=
      { twoEntries.disk with
        sectors := fun n => if n = 258 then spaceRoot else twoEntries.disk.sectors n } }

/-- A lookup of the empty name finds that file, yet deleting the empty name
does nothing. -/
theorem deleteFile_empty_name :
    WellPlaced spaceVolume ∧ OneCluster spaceVolume ∧ Tidy (slotsOf spaceVolume 0) ∧
    LinksInTable spaceVolume ∧ TablesEqual spaceVolume ∧ ChainFrom spaceVolume 2 [2] ∧
    (findEntryInCurrentDir 1 spaceVolume []).map (·.map fun e => (isDirectory e, clusterLow e)) =
      some (some (false, 2)) ∧
    fat16DeleteFile 2 spaceVolume [] = some spaceVolume ∧ getFatEntry spaceVolume 2 = 0xFFFF := by
  have ended : ∀ c, InTable spaceVolume c → ¬ InChain (getFatEntry spaceVolume c) := by
    have all : ∀ c < 256, ¬ InChain (getFatEntry spaceVolume c) := by decide +kernel
    intro c inTable
    apply all
    have sector := inTable.2
    change c / 256 < 1 at sector
    omega
  refine ⟨⟨rfl, rfl, by decide, by decide⟩, Or.inl rfl, ?_, ?_, ?_, ?_, by decide +kernel, rfl,
    by decide +kernel⟩
  · apply tidy_short 1
    · decide +kernel
    · decide +kernel
    · decide +kernel
  · exact fun c inTable inChain => absurd inChain (ended c inTable)
  · intro s inside o _
    obtain rfl : s = 0 := Nat.lt_one_iff.mp inside
    rfl
  · exact ChainFrom.link (by decide) ⟨by decide, by decide⟩ (ChainFrom.stop (ended 2 ⟨by decide, by decide⟩))

end MeowMeowOS.DeletedFiles

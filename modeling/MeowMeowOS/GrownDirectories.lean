import MeowMeowOS.CreatedEntries
import MeowMeowOS.FailedCreations
import MeowMeowOS.StoredChains
import MeowMeowOS.EmptyDirectories

/-! A new directory as entries are added to it. Only the first sector of its cluster is
cleared, so the mark that ends the listing moves on into what the cluster held before. -/
namespace MeowMeowOS.GrownDirectories
open ByteMemory RunSearch Fat16Disk Fat16Names Fat16Directory Fat16Paths Fat16Files Fat16Geometry Fat16Scan
open Fat16Walks Fat16Chains Fat16Entries VolumeRuns WrittenBytes StoredChains CreatedEntries LongNames FailedCreations
open MissingDirectories (storedData_taken)

/-! ## What a listing shows -/

/-- The entries that `fat16_list` hands to its visitor. -/
def shown (slots : List Slot) : List Slot :=
  (slots.takeWhile fun e => !neverUsed e).filter fun e => !deleted e && !isLongName e

/-- The search for free entries in a list. -/
def findRun (slots : List Slot) (required : Nat) : Option Nat :=
  firstRun (fun p => isFreeSlot (slots.getD p emptyBuf)) required slots.length 0 0 0

/-- The run of free entries that is found begins in front of the end mark and, where it
covers the mark, no entry in use lies between it and the next one. -/
def Sealed (slots : List Slot) (required : Nat) : Prop :=
  ∀ start, findRun slots required = some start → (∀ e ∈ slots.take start, neverUsed e = false) ∧
    ((∃ e ∈ (slots.drop start).take required, neverUsed e = true) → shown (slots.drop (start + required)) = [])

section Shown
variable {slots front run back : List Slot} {e : Slot} {scan : Scan} {p : Nat}

theorem visits_shown (slots : List Slot) (p : Nat) (scan : Scan) :
    (visits p scan slots).1.map (·.slot) = shown slots := by
  induction slots generalizing p scan with
  | nil => rfl
  | cons e rest ih =>
    unfold shown at ih ⊢
    cases used : neverUsed e with
    | true =>
      rw [visits_neverUsed used, List.takeWhile_cons_of_neg (by simp [used])]
      rfl
    | false =>
      rw [List.takeWhile_cons_of_pos (by simp [used])]
      cases gone : deleted e with
      | true =>
        rw [visits_deleted used gone, ih, List.filter_cons_of_neg (by simp [gone])]
      | false =>
        cases long : isLongName e with
        | true => rw [visits_longName used gone long, ih, List.filter_cons_of_neg (by simp [long])]
        | false =>
          rw [visits_inUse ⟨used, gone, long⟩, List.filter_cons_of_pos (by simp [gone, long])]
          exact congrArg (e :: ·) (ih _ _)

theorem shown_ended (ended : ∃ e ∈ front, neverUsed e = true) (back : List Slot) :
    shown (front ++ back) = shown front := by
  obtain ⟨e, member, never⟩ := ended
  unfold shown
  induction front with
  | nil => cases member
  | cons d rest ih =>
    rw [List.cons_append]
    cases used : neverUsed d with
    | true => rw [List.takeWhile_cons_of_neg (by simp [used]), List.takeWhile_cons_of_neg (by simp [used])]
    | false =>
      rw [List.takeWhile_cons_of_pos (by simp [used]), List.takeWhile_cons_of_pos (by simp [used])]
      have later : e ∈ rest := by
        rcases List.mem_cons.mp member with rfl | later
        · rw [never] at used
          cases used
        · exact later
      simp only [List.filter_cons, ih later]

theorem shown_append (used : ∀ e ∈ front, neverUsed e = false) (back : List Slot) :
    shown (front ++ back) = shown front ++ shown back := by
  have whole : front.takeWhile (fun e => !neverUsed e) = front :=
    List.takeWhile_eq_self_iff.mpr fun e member => by simp [used e member]
  unfold shown
  rw [List.takeWhile_append_of_pos fun e member => by simp [used e member], List.filter_append, whole]

/-- Free entries show nothing. -/
theorem shown_free (free : ∀ e ∈ run, isFreeSlot e = true) : shown run = [] := by
  unfold shown
  refine List.filter_eq_nil_iff.mpr fun e member => ?_
  have used := List.mem_takeWhile_imp member
  have unused := free e ((List.takeWhile_sublist _).subset member)
  unfold isFreeSlot at unused
  simp only [Bool.not_eq_true'] at used
  rw [used, Bool.false_or] at unused
  simp [unused]

/-- The entries of a name replace a run of free ones: the listing grows by the one that is
shown of them if and only if the directory was sealed behind the run. -/
theorem shown_replaced (front back : List Slot) {entries : List Slot}
    (free : ∀ e ∈ run, isFreeSlot e = true) (used : ∀ e ∈ entries, neverUsed e = false)
    (one : shown entries = [e]) : (shown (front ++ (entries ++ back))).Perm (shown (front ++ (run ++ back)) ++ [e]) ↔
      (∀ d ∈ front, neverUsed d = false) ∧ ((∃ d ∈ run, neverUsed d = true) → shown back = []) := by
  by_cases open' : ∀ d ∈ front, neverUsed d = false
  · rw [shown_append open', shown_append open', shown_append used, one]
    by_cases covers : ∃ d ∈ run, neverUsed d = true
    · rw [shown_ended covers, shown_free free, List.append_nil]
      constructor
      · intro same
        have length := same.length_eq
        rw [List.length_append, List.length_append, List.length_append] at length
        exact ⟨open', fun _ => List.length_eq_zero_iff.mp (by omega)⟩
      · rintro ⟨-, empty⟩
        rw [empty covers, List.append_nil]
    · have between : ∀ d ∈ run, neverUsed d = false := fun d member => by
        cases never : neverUsed d with
        | false => rfl
        | true => exact absurd ⟨d, member, never⟩ covers
      rw [shown_append between, shown_free free, List.nil_append]
      refine iff_of_true ?_ ⟨open', fun some => absurd some covers⟩
      rw [List.append_assoc]
      exact List.Perm.append_left _ List.perm_append_comm
  · have ended : ∃ d ∈ front, neverUsed d = true := by
      obtain ⟨d, rest⟩ := not_forall.mp open'
      obtain ⟨member, never⟩ := Classical.not_imp.mp rest
      exact ⟨d, member, by simpa using never⟩
    rw [shown_ended ended, shown_ended ended]
    refine iff_of_false (fun same => ?_) fun both => open' both.1
    have length := same.length_eq
    rw [List.length_append, List.length_singleton] at length
    omega

end Shown

/-! ## An entry is added -/

/-- The entry that a creation leaves in the directory. -/
def entryOf (base : CString) (attr : UInt8) (cluster size : Nat) : Slot :=
  trim (shortEntry (shortNameFor base) attr cluster size)

/-- The name does not begin like a free entry, and its entries can be numbered. -/
structure Visible (base : CString) : Prop where
  first : isFreeSlot (entryOf base 0 0 0) = false
  short : base.length ≤ 255

section Added
variable {v w : Volume} {base : CString} {attr : UInt8} {cluster size : Nat}

theorem entryOf_inUse (visible : Visible base) (kind : attr ≠ 0x0F) : InUse (entryOf base attr cluster size) := by
  have first : ∀ attr cluster size, entryOf base attr cluster size 0 = (shortNameFor base).getD 0 0 := by
    intro attr cluster size
    unfold entryOf
    rw [trim_lt _ 0 (by decide)]
    exact (shortEntry_fields _ _ _ _).1 0 (by decide)
  have same : isFreeSlot (entryOf base attr cluster size) = false := by
    have free := visible.first
    unfold isFreeSlot neverUsed deleted at free ⊢
    rw [first] at free ⊢
    exact free
  obtain ⟨used, kept⟩ := Bool.or_eq_false_iff.mp same
  refine ⟨used, kept, ?_⟩
  unfold entryOf
  rw [isLongName_trim]
  simpa [isLongName, (shortEntry_fields (shortNameFor base) attr cluster size).2.1] using kind

theorem nameEntries_shown (visible : Visible base) (kind : attr ≠ 0x0F) (cluster size : Nat) :
    (∀ e ∈ (nameEntries base attr cluster size).map trim, neverUsed e = false) ∧
      shown ((nameEntries base attr cluster size).map trim) = [entryOf base attr cluster size] := by
  have inUse : InUse (entryOf base attr cluster size) := entryOf_inUse visible kind
  unfold nameEntries
  dsimp only
  generalize partsIs : (List.range (if needLfn base then (base.length + 12) / 13 else 0)).map (fun i =>
    populateLfnEntry base ((if needLfn base then (base.length + 12) / 13 else 0) - i)
      (lfnChecksum (shortNameFor base)) (i = 0)) = parts
  have long : ∀ e ∈ parts.map trim, LongEntry e := by
    intro e member
    obtain ⟨part, inside, rfl⟩ := List.mem_map.mp member
    rw [← partsIs] at inside
    obtain ⟨i, below, rfl⟩ := List.mem_map.mp inside
    have small := List.mem_range.mp below
    have short := visible.short
    have few : (if needLfn base then (base.length + 12) / 13 else 0) < 32 := by
      split
      · omega
      · decide
    exact longEntry_populate base _ _ (by omega) (by omega)
  have used : ∀ e ∈ parts.map trim, neverUsed e = false := fun e member => (long e member).1
  have none : shown (parts.map trim) = [] := by
    unfold shown
    refine List.filter_eq_nil_iff.mpr fun e member => ?_
    simp [(long e ((List.takeWhile_sublist _).subset member)).2.2]
  rw [List.map_append, List.map_singleton]
  refine ⟨fun e member => ?_, ?_⟩
  · rcases List.mem_append.mp member with part | last
    · exact used e part
    · obtain rfl := List.mem_singleton.mp last
      exact inUse.1
  · rw [shown_append used, none, List.nil_append]
    unfold shown
    change ([entryOf base attr cluster size].takeWhile _).filter _ = _
    rw [List.takeWhile_cons_of_pos (by simp [inUse.1]), List.takeWhile_nil,
      List.filter_cons_of_pos (by simp [inUse.2.1, inUse.2.2]), List.filter_nil]

theorem findRun_slots (v : Volume) (required : Nat) :
    findFreeSlots v required = findRun (slotsOf v v.fs.currentDirCluster) required := by
  unfold findFreeSlots findRun
  have length : (slotsOf v v.fs.currentDirCluster).length = dirLength v.fs v.fs.currentDirCluster := by simp [slotsOf]
  rw [length]
  refine firstRun_congr fun b _ below => ?_
  rw [List.getD_eq_getElem?_getD, slotsOf_get (by omega), Option.getD_some]

/-- Adding an entry makes the directory show one more if and only if it was sealed. -/
theorem added_shown (placed : WellPlaced v) (dir : DirPlaced v v.fs.currentDirCluster)
    (visible : Visible base) (kind : attr ≠ 0x0F)
    (added : addDirEntry v base attr cluster size = some w) :
    (shown (slotsOf w v.fs.currentDirCluster)).Perm (shown (slotsOf v v.fs.currentDirCluster) ++
    [entryOf base attr cluster size]) ↔
      Sealed (slotsOf v v.fs.currentDirCluster) (entriesFor base) := by
  obtain ⟨start, found, fits, replaced⟩ := added_list placed dir added
  obtain ⟨_, _, fs, -⟩ := addDirEntry_spec placed dir added
  obtain ⟨used, one⟩ := nameEntries_shown visible kind cluster size
  have count := nameEntries_count base attr cluster size
  obtain ⟨-, free⟩ := findFreeSlots_free found
  rw [findRun_slots] at found
  rw [fs] at replaced
  have length : (slotsOf v v.fs.currentDirCluster).length = dirLength v.fs v.fs.currentDirCluster := by simp [slotsOf]
  have get : ∀ k < dirLength v.fs v.fs.currentDirCluster,
      (slotsOf v v.fs.currentDirCluster)[k]? =
        some (dirSlot v.disk (dirStart v.fs v.fs.currentDirCluster) k) := fun k small => slotsOf_get small
  rw [replaced]
  rw [count] at found fits free ⊢
  generalize slotsOf v v.fs.currentDirCluster = slots at found length get ⊢
  generalize (nameEntries base attr cluster size).map trim = entries at used one ⊢
  have whole : slots = slots.take start ++ ((slots.drop start).take (entriesFor base) ++
      slots.drop (start + entriesFor base)) := by
    rw [← List.drop_drop, List.take_append_drop, List.take_append_drop]
  have run : ∀ e ∈ (slots.drop start).take (entriesFor base), isFreeSlot e = true := by
    intro e member
    obtain ⟨j, small, rfl⟩ := List.mem_take_iff_getElem.mp member
    have place := get (start + j) (by omega)
    rw [List.getElem_drop, (List.getElem_eq_iff _).mpr place]
    exact free j (by omega)
  have grown := shown_replaced (slots.take start) (slots.drop (start + entriesFor base)) run used one
  rw [← whole] at grown
  rw [grown]
  constructor
  · intro both start' found'
    obtain rfl := Option.some.inj (found.symm.trans found')
    exact both
  · exact fun sealed => sealed start found

end Added

/-! ## Creations in one directory -/

/-- The directory at cluster `c` shows these entries. -/
structure Holding (c : Nat) (v : Volume) (entries : List Slot) : Prop where
  placed : WellPlaced v
  table : v.fs.sectorsPerFat ≤ 256
  clusters : 0 < v.fs.sectorsPerCluster
  inData : InData v c
  inTable : InTable v c
  ended : getFatEntry v c = 0xFFFF
  listed : (shown (slotsOf v c)).Perm entries

/-- A creation whose prologue leads to the directory at cluster `c`, with its name and the
entry it leaves. A file finds all the clusters that it needs. -/
inductive Creates (c : Nat) (v w : Volume) : CString → Slot → Prop
  | file {fuel size : Nat} {filename base : CString} {data : Mem} {entered : Volume}
      (prologue : enterPath fuel v filename = some (entered, base)) (here : entered.fs.currentDirCluster = c)
      (enough : clustersNeeded entered size ≤ (freeClusters entered).length)
      (room : findFreeSlots (storedData entered data size) (entriesFor base) ≠ none)
      (ran : fat16WriteFile fuel v filename data size = some w) :
      Creates c v w base (entryOf base 0x20 (findFreeCluster entered) size)
  | directory {fuel : Nat} {dirname : CString} {entered : Volume}
      (walked : fat16Chdir fuel v (orRoot (directoryOf (absolutePath v dirname))) = some (0, entered))
      (here : entered.fs.currentDirCluster = c) (ran : fat16CreateDir fuel v dirname = some (0, w)) :
      Creates c v w (baseOf (absolutePath v dirname))
      (entryOf (baseOf (absolutePath v dirname)) 0x10 (findFreeCluster entered) 0)

section Creations
variable {v w u : Volume} {c : Nat} {base : CString} {e : Slot} {entries : List Slot}

theorem holding_moved (holding : Holding c v entries) (moved : Moved v w) : Holding c w entries := by
  obtain ⟨d, p, rfl⟩ := moved
  exact ⟨⟨holding.placed.root, holding.placed.data, holding.placed.onDisk, holding.placed.noWrap⟩,
    holding.table, holding.clusters,
    holding.inData, holding.inTable, holding.ended, holding.listed⟩

/-- What leaves the directory's sectors and its link alone. -/
theorem holding_kept (holding : Holding c v entries) (fs : w.fs = v.fs) (total : w.disk.total = v.disk.total)
    (link : getFatEntry w c = getFatEntry v c)
    (same : SameSectors v.disk w.disk (dirStart v.fs c) (dirStart v.fs c + dirSectors v.fs c)) :
    Holding c w entries ∧ slotsOf w c = slotsOf v c := by
  obtain ⟨placed, table, clusters, inData, inTable, ended, listed⟩ := holding
  have slots := slotsOf_sectors fs same
  refine ⟨⟨wellPlaced_of_eq placed fs total, by rw [fs]; exact table, by rw [fs]; exact clusters, ?_,
    (inTable_of_eq fs).mpr inTable,
    link.trans ended, slots ▸ listed⟩, slots⟩
  unfold InData at inData ⊢
  rw [fs, total]
  exact inData

theorem holding_stored (holding : Holding c v entries) (data : Mem) {size : Nat} (room : findFreeCluster v ≠ 0xFFFF)
    (enough : clustersNeeded v size ≤ (freeClusters v).length) :
    Holding c (storedData v data size) entries ∧ slotsOf (storedData v data size) c = slotsOf v c := by
  have stored := storedData_stored data holding.placed holding.table room enough
  have taken : getFatEntry v c ≠ 0 := by rw [holding.ended]; decide
  have fresh : c ∉ takenClusters v size := fun again => taken_fresh taken rfl (taken_free again)
  exact holding_kept holding stored.fs stored.total (stored.others c holding.inTable fresh)
    (storedData_sectors data holding.placed holding.table room enough (Or.inr ⟨holding.inData, taken⟩))

theorem holding_storedDir (holding : Holding c v entries) (room : findFreeCluster v ≠ 0xFFFF) :
    Holding c (storedDir v) entries ∧ slotsOf (storedDir v) c = slotsOf v c := by
  have taken : getFatEntry v c ≠ 0 := by rw [holding.ended]; decide
  refine holding_kept holding (storedDir_fs v)
    ?_ ?_ (storedDir_sectors holding.placed holding.table holding.clusters room
    (Or.inr ⟨holding.inData, taken⟩))
  · unfold storedDir writeNewDir
    rw [kdiskWrite_total, setFatEntry_total]
  · have free := (storedDir_taken holding.placed holding.table holding.clusters room).2.1
    rw [storedDir_entry holding.placed holding.table holding.clusters room holding.inTable,
      if_neg fun same => taken (by rw [same, free])]

/-- The entry goes into the directory, and is shown if this was sealed. -/
theorem holding_added (holding : Holding c v entries) (here : v.fs.currentDirCluster = c) (visible : Visible base)
    (sealed : Sealed (slotsOf v c) (entriesFor base)) {attr : UInt8} {cluster size : Nat} (kind : attr ≠ 0x0F)
    (added : addDirEntry v base attr cluster size = some w) :
    Holding c w (entries ++ [entryOf base attr cluster size]) := by
  obtain ⟨placed, table, clusters, inData, inTable, ended, listed⟩ := holding
  have dir : DirPlaced v v.fs.currentDirCluster := Or.inr (here ▸ inData)
  have shows := (added_shown placed dir visible kind added).mpr (here ▸ sealed)
  obtain ⟨_, -, fs, total, -, apart⟩ := addDirEntry_spec placed dir added
  rw [here] at shows apart
  have behind := dirRegion_behind placed (Or.inr inData)
  have root := placed.root
  have region := placed.data
  have noWrap := placed.noWrap
  have tables := apart v.fs.reservedSectors (v.fs.reservedSectors + v.fs.sectorsPerFat) (by omega) (Or.inr (by omega))
  refine ⟨wellPlaced_of_eq placed fs total, by rw [fs]; exact table, by rw [fs]; exact clusters, ?_,
    (inTable_of_eq fs).mpr inTable,
    (getFatEntry_sectors fs tables inTable).trans ended, shows.trans (listed.append_right _)⟩
  unfold InData at inData ⊢
  rw [fs, total]
  exact inData

theorem slotsOf_moved (moved : Moved v w) : slotsOf w c = slotsOf v c := by
  obtain ⟨d, p, rfl⟩ := moved
  rfl

theorem creates_holding (holding : Holding c v entries) (visible : Visible base)
    (sealed : Sealed (slotsOf v c) (entriesFor base))
    (creates : Creates c v w base e) : Holding c w (entries ++ [e]) := by
  cases creates with
  | @file fuel size filename _ data entered prologue here enough room ran =>
    have moved := enterPath_moved prologue
    unfold fat16WriteFile at ran
    obtain ⟨⟨entered', base'⟩, prologue', ran⟩ := Option.bind_eq_some_iff.mp ran
    obtain ⟨rfl, rfl⟩ := Prod.mk.inj (Option.some.inj (prologue'.symm.trans prologue))
    obtain ⟨written, wrote, left⟩ := Option.bind_eq_some_iff.mp ran
    obtain ⟨notFull, result⟩ := writeNew_stages wrote
    obtain ⟨stored, slots⟩ := holding_stored (holding_moved holding moved) data notFull enough
    rw [slotsOf_moved moved] at slots
    have fs := storedData_fs entered' data size
    generalize storedData entered' data size = u at room result stored slots fs
    cases added : addDirEntry u base' 0x20 (findFreeCluster entered') size with
    | none => exact absurd ((addDirEntry_none _ _ _ _).mp added) room
    | some u' =>
      rw [added, Option.getD_some] at result
      rw [result] at left
      have here' : u.fs.currentDirCluster = c := by rw [fs, here]
      exact holding_moved (holding_added stored here' visible (slots.symm ▸ sealed) (by decide) added)
        (leavePath_moved left)
  | @directory fuel dirname entered walked here ran =>
    obtain ⟨parent, u, walked', -, room, added, back⟩ := createDir_succeeded ran
    obtain ⟨-, rfl⟩ := Prod.mk.inj (Option.some.inj (walked'.symm.trans walked))
    have moved := fat16Chdir_moved walked
    obtain ⟨stored, slots⟩ := holding_storedDir (holding_moved holding moved) room
    rw [slotsOf_moved moved] at slots
    have fs := storedDir_fs parent
    generalize storedDir parent = u0 at added stored slots fs
    have here' : u0.fs.currentDirCluster = c := by rw [fs, here]
    exact holding_moved (holding_added stored here' visible (slots.symm ▸ sealed) (by decide) added) back

/-- Listing the directory from wherever it is entered. -/
theorem holding_lists (holding : Holding c v entries) (inChain : InChain c) (fuel : Nat) (path : CString) :
    ∃ list, fat16List (fuel + 2) (enter v c path) = some list ∧ (list.map (·.slot)).Perm entries := by
  obtain ⟨-, -, -, inData, -, ended, listed⟩ := holding
  have away : (enter v c path).fs.currentDirCluster ≠ 0 := by
    have first := inData.1
    exact fun zero => by
      have same : c = 0 := zero
      omega
  have slots : slotsOf (enter v c path) c = slotsOf v c := rfl
  have link : getFatEntry (enter v c path) c = 0xFFFF := ended
  have stops : ¬ InChain 0xFFFF := by decide
  rw [← visits_shown (slotsOf v c) 0 Scan.initial] at listed
  unfold fat16List
  rw [if_neg away, show (enter v c path).fs.currentDirCluster = c from rfl, listChain, if_pos inChain, slots, link]
  dsimp only
  cases ending : (visits 0 Scan.initial (slotsOf v c)).2 with
  | none => exact ⟨_, rfl, listed⟩
  | some scan =>
    refine ⟨(visits 0 Scan.initial (slotsOf v c)).1 ++ [], ?_, by rw [List.append_nil]; exact listed⟩
    dsimp only
    rw [listChain, if_neg stops]
    rfl

end Creations

/-! ## From the new directory on -/

/-- The volumes from a `fat16_create_dir` on, and the entries created since in the new
directory, as long as each creation meets a condition on the volume before it. -/
inductive Grown (c parentCluster : Nat) (meets : Volume → CString → Prop) : Volume → List Slot → Prop
  | made {fuel : Nat} {v w parent : Volume} {dirname : CString} (wellFormed : WellFormed v)
      (walked : fat16Chdir fuel v (orRoot (directoryOf (absolutePath v dirname))) = some (0, parent))
      (ran : fat16CreateDir fuel v dirname = some (0, w)) (cluster : c = findFreeCluster parent) (inData : InData v c)
      (up : parentCluster = parent.fs.currentDirCluster) : Grown c parentCluster meets w []
  | created {v w : Volume} {base : CString} {e : Slot} {entries : List Slot}
      (grown : Grown c parentCluster meets v entries)
      (met : meets v base) (creates : Creates c v w base e) : Grown c parentCluster meets w (entries ++ [e])

/-- The entries "." and "..". -/
def dots (c parentCluster : Nat) : List Slot :=
  [trim (shortEntry dotName 0x10 c 0), trim (shortEntry dotDotName 0x10 parentCluster 0)]

section Grown
variable {v w : Volume} {c parentCluster : Nat} {entries : List Slot}

theorem trim_congr {e e' : Slot} (same : ∀ j < 32, e j = e' j) : trim e = trim e' := by
  funext j
  unfold trim
  split
  · exact same j ‹_›
  · rfl

theorem dot_inUse {name : List UInt8} {cluster : Nat} (first : name.getD 0 0 = 0x2E) :
    InUse (trim (shortEntry name 0x10 cluster 0)) := by
  obtain ⟨bytes, attr, -⟩ := shortEntry_fields name 0x10 cluster 0
  have byte := bytes 0 (by decide)
  rw [first] at byte
  refine ⟨?_, ?_, ?_⟩
  · rw [neverUsed_trim]
    simp [neverUsed, byte]
  · rw [deleted_trim]
    simp [deleted, byte]
  · rw [isLongName_trim]
    simp [isLongName, attr]

/-- The slots of a new directory's first sector: the two entries, and an end mark behind them. -/
theorem newDirSector_slots {c parentCluster : Nat} (slot : Nat → Slot)
    (slots : ∀ k < 16, slot k = trim fun j => newDirSector c parentCluster (k * 32 + j)) :
    slot 0 = trim (shortEntry dotName 0x10 c 0) ∧ slot 1 = trim (shortEntry dotDotName 0x10 parentCluster 0) ∧
      neverUsed (slot 2) = true := by
  refine ⟨?_, ?_, ?_⟩
  · rw [slots 0 (by decide)]
    refine trim_congr fun j inside => ?_
    unfold newDirSector
    rw [Nat.zero_mul, Nat.zero_add, if_pos inside]
  · rw [slots 1 (by decide)]
    refine trim_congr fun j inside => ?_
    unfold newDirSector
    rw [if_neg (by omega), if_pos (by omega), show 1 * 32 + j - 32 = j by omega]
  · rw [slots 2 (by decide), neverUsed_trim]
    simp [neverUsed, newDirSector]

theorem shown_dots {c parentCluster n : Nat} {slot : Nat → Slot} (slot0 : slot 0 = trim (shortEntry dotName 0x10 c 0))
    (slot1 : slot 1 = trim (shortEntry dotDotName 0x10 parentCluster 0)) (slot2 : neverUsed (slot 2) = true) :
    shown ((List.range (3 + n)).map slot) = dots c parentCluster := by
  have use0 : InUse (slot 0) := slot0 ▸ dot_inUse (by decide)
  have use1 : InUse (slot 1) := slot1 ▸ dot_inUse (by decide)
  have three : (List.range 3).map slot = [slot 0, slot 1, slot 2] := rfl
  rw [List.range_add, List.map_append, three,
    shown_ended ⟨_, List.mem_cons_of_mem _ (List.mem_cons_of_mem _ List.mem_cons_self), slot2⟩]
  unfold shown dots
  rw [List.takeWhile_cons_of_pos (by simp [use0.1]), List.takeWhile_cons_of_pos (by simp [use1.1]),
    List.takeWhile_cons_of_neg (by simp [slot2]), List.filter_cons_of_pos (by simp [use0.2.1, use0.2.2]),
    List.filter_cons_of_pos (by simp [use1.2.1, use1.2.2]), List.filter_nil, slot0, slot1]

/-- The first sector of a new directory ends behind the two entries, whatever lies in the
sectors behind it. -/
theorem newDir_shown (placed : WellPlaced v) (clusters : 0 < v.fs.sectorsPerCluster) (inData : InData v c) :
    shown (slotsOf (writeNewDir v c) c) = dots c v.fs.currentDirCluster := by
  obtain ⟨first, small, onDisk⟩ := inData
  have place := clusterLba_eq placed first small
  have bound := cluster_bound placed small
  have away : c ≠ 0 := by omega
  have fs : (writeNewDir v c).fs = v.fs := by
    unfold writeNewDir
    rfl
  have sector : kdiskReadSector (writeNewDir v c).disk (clusterLba v.fs c) = newDirSector c v.fs.currentDirCluster := by
    unfold writeNewDir
    exact read_write_same (by omega) (by omega)
  have length : dirLength v.fs c = 3 + (16 * v.fs.sectorsPerCluster - 3) := by
    unfold dirLength dirSectors
    rw [if_neg away]
    omega
  have start : dirStart v.fs c = clusterLba v.fs c := by
    unfold dirStart
    exact if_neg away
  unfold slotsOf
  rw [fs, length, start]
  clear place fs length start
  generalize clusterLba v.fs c = lba at sector
  generalize writeNewDir v c = u at sector
  obtain ⟨slot0, slot1, slot2⟩ := newDirSector_slots (dirSlot u.disk lba) fun k inside => by
    unfold dirSlot
    rw [Nat.div_eq_of_lt inside, Nat.add_zero, sector, Nat.mod_eq_of_lt inside]
  exact shown_dots slot0 slot1 slot2

theorem made_holding {base : CString} (placed : WellPlaced v) (table : v.fs.sectorsPerFat ≤ 256)
    (clusters : 0 < v.fs.sectorsPerCluster)
    (room : findFreeCluster v ≠ 0xFFFF) (cluster : c = findFreeCluster v) (inData : InData v c)
    (dir : v.fs.currentDirCluster = 0 ∨ InData v v.fs.currentDirCluster ∧
    getFatEntry v v.fs.currentDirCluster ≠ 0)
    (added : addDirEntry (storedDir v) base 0x10 (findFreeCluster v) 0 = some w) :
    Holding c w (dots c v.fs.currentDirCluster) := by
  obtain ⟨inTable, free, taken⟩ := storedDir_taken placed table clusters room
  have fs := storedDir_fs v
  have total : (storedDir v).disk.total = v.disk.total := by
    unfold storedDir writeNewDir
    rw [kdiskWrite_total, setFatEntry_total]
  have shows : shown (slotsOf (storedDir v) c) = dots c v.fs.currentDirCluster := by
    have placed' := wellPlaced_setFatEntry placed (findFreeCluster v) 0xFFFF
    have inData' : InData (setFatEntry v (findFreeCluster v) 0xFFFF) c := by
      unfold InData at inData ⊢
      rw [setFatEntry_total, setFatEntry_fs]
      exact inData
    unfold storedDir
    rw [← cluster]
    rw [← cluster] at placed' inData'
    exact newDir_shown placed' clusters inData'
  rw [← cluster] at inTable free taken added
  generalize storedDir v = u at added taken fs total shows
  have placed' : WellPlaced u := wellPlaced_of_eq placed fs total
  have inDataOf : ∀ x : Volume, x.fs = v.fs → x.disk.total = v.disk.total → ∀ d, InData v d → InData x d := by
    intro x same sameTotal d inside
    unfold InData at inside ⊢
    rw [same, sameTotal]
    exact inside
  have holding : Holding c u (dots c v.fs.currentDirCluster) :=
    ⟨placed', by rw [fs]; exact table, by rw [fs]; exact clusters, inDataOf u fs total c inData,
      (inTable_of_eq fs).mpr inTable, taken,
      by rw [shows]⟩
  have dir' : DirPlaced u u.fs.currentDirCluster := by
    rw [fs]
    exact dir.imp_right fun inside => inDataOf u fs total _ inside.1
  obtain ⟨_, -, fs', total', -, apart⟩ := addDirEntry_spec placed' dir' added
  have different : u.fs.currentDirCluster ≠ c := by
    rw [fs]
    rintro rfl
    rcases dir with zero | ⟨-, allocated⟩
    · have first := inData.1
      omega
    · exact allocated free
  have behind := dirRegion_behind placed' dir'
  have root := placed'.root
  have region := placed'.data
  have noWrap := placed'.noWrap
  have onDisk := (dirRegion_onDisk placed' (Or.inr holding.inData)).2
  have tables := apart u.fs.reservedSectors (u.fs.reservedSectors + u.fs.sectorsPerFat) (by omega) (Or.inr (by omega))
  have sectors := apart (dirStart u.fs c) (dirStart u.fs c + dirSectors u.fs c) onDisk
    (dirRegion_apart placed' dir' (Or.inr holding.inData) different)
  exact (holding_kept holding fs' total' (getFatEntry_sectors fs' tables holding.inTable) sectors).1

theorem grown_holding (grown : Grown c parentCluster (fun v base => Visible base ∧
    Sealed (slotsOf v c) (entriesFor base)) v entries) :
    Holding c v (dots c parentCluster ++ entries) := by
  induction grown with
  | @made fuel v w parent dirname wellFormed walked ran cluster inData up =>
    obtain ⟨parent', u, walked', -, room, added, back⟩ := createDir_succeeded ran
    obtain ⟨-, rfl⟩ := Prod.mk.inj (Option.some.inj (walked'.symm.trans walked))
    have dir := wellFormed.directories _ _ _ walked
    obtain ⟨d, p, rfl⟩ := fat16Chdir_moved walked
    rw [List.append_nil, up]
    have made := made_holding (v := enter v d p) ⟨wellFormed.placed.root, wellFormed.placed.data,
      wellFormed.placed.onDisk, wellFormed.placed.noWrap⟩
      wellFormed.table wellFormed.clusters room cluster inData dir added
    exact holding_moved made back
  | created grown met creates ih =>
    rw [← List.append_assoc]
    exact creates_holding ih met.1 met.2 creates

/-- When a listing of the new directory shows "." and ".." and what was created in it. -/
theorem grown_lists (inChain : InChain c)
    (grown : Grown c parentCluster (fun v base => Visible base ∧
    Sealed (slotsOf v c) (entriesFor base)) v entries) (fuel : Nat)
    (path : CString) : ∃ list, fat16List (fuel + 2) (enter v c path) = some list ∧
      (list.map (·.slot)).Perm (dots c parentCluster ++ entries) :=
  holding_lists (grown_holding grown) inChain fuel path

end Grown

/-! ## A recycled cluster -/

/-- Two sectors a cluster; the second of cluster 2 is full of `X`. -/
def recycledVolume : Volume where
  fs :=
    { isMounted := true, rootDirLba := 3, rootDirSectors := 1, dataRegionLba := 4, sectorsPerFat := 1,
      sectorsPerCluster := 2
      reservedSectors := 1, currentDirCluster := 0, currentPath := rootPath }
  disk := ⟨64, fun lba => if lba = 5 then fun _ => 0x58 else fun _ => 0⟩

/-- After `mkdir D`. -/
def madeVolume : Volume := ((fat16CreateDir 1 recycledVolume [0x44]).map (·.2)).getD recycledVolume

def inD (name : CString) : CString := 0x2F :: 0x44 :: 0x2F :: name

theorem recycled_made (meets : Volume → CString → Prop) : Grown 2 0 meets madeVolume [] := by
  have outcome : (fat16CreateDir 1 recycledVolume [0x44]).map (·.1) = some 0 := by decide
  obtain ⟨⟨_, w⟩, ran, rfl⟩ := Option.map_eq_some_iff.mp outcome
  have made : madeVolume = w := by
    unfold madeVolume
    rw [ran]
    rfl
  rw [made]
  have wellFormed : WellFormed recycledVolume :=
    wellFormed_files ⟨rfl, rfl, by decide, by decide⟩ (by decide) (by decide) rfl (by decide)
  have entered : fat16Chdir 1 recycledVolume (orRoot (directoryOf (absolutePath recycledVolume [0x44]))) =
      some (0, enter recycledVolume 0 rootPath) := rfl
  exact .made wellFormed entered ran (by decide) ⟨by decide, by decide, by decide⟩ rfl

/-- A file of one byte in the directory. -/
theorem made_creates {name : CString}
    (prologue : (enterPath 2 madeVolume (inD name)).map (fun r => (r.1.fs.currentDirCluster, r.2)) = some (2, name))
    (fits : (enterPath 2 madeVolume (inD name)).map (fun r => (findFreeCluster r.1,
      decide (clustersNeeded r.1 1 ≤ (freeClusters r.1).length),
      (findFreeSlots (storedData r.1 (fun _ => 0) 1) (entriesFor name)).isSome)) =
        some (3, true, true)) {w : Volume} (ran : fat16WriteFile 2 madeVolume (inD name) (fun _ => 0) 1 = some w) :
    Creates 2 madeVolume w name (entryOf name 0x20 3 1) := by
  obtain ⟨⟨entered, base⟩, walked, same⟩ := Option.map_eq_some_iff.mp prologue
  obtain ⟨here, rfl⟩ := Prod.mk.inj same
  rw [walked, Option.map_some] at fits
  obtain ⟨first, rest⟩ := Prod.mk.inj (Option.some.inj fits)
  obtain ⟨enough, room⟩ := Prod.mk.inj rest
  have creates := Creates.file walked here (of_decide_eq_true enough) (Option.isSome_iff_ne_none.mp room) ran
  rw [show findFreeCluster entered = 3 from first] at creates
  exact creates

theorem grown_lists_small : ∃ w, fat16WriteFile 2 madeVolume (inD [0x41]) (fun _ => 0) 1 = some w ∧
    ∃ list, fat16List 2 (enter w 2 rootPath) = some list ∧
    (list.map (·.slot)).Perm (dots 2 0 ++ ([] ++ [entryOf [0x41] 0x20 3 1])) := by
  have written : (fat16WriteFile 2 madeVolume (inD [0x41]) (fun _ => 0) 1).isSome = true := by decide
  obtain ⟨w, ran⟩ := Option.isSome_iff_exists.mp written
  have sealed : Sealed (slotsOf madeVolume 2) (entriesFor [0x41]) := by
    have second : findRun (slotsOf madeVolume 2) (entriesFor [0x41]) = some 2 := by decide
    intro start found
    obtain rfl := Option.some.inj (found.symm.trans second)
    exact ⟨by decide, fun _ => List.length_eq_zero_iff.mp (by decide)⟩
  refine ⟨w, ran, grown_lists (by decide) (.created (recycled_made _) ⟨⟨by decide, by decide⟩,
    sealed⟩ ?_) 0 rootPath⟩
  exact made_creates (by decide +kernel) (by decide +kernel) ran

/-- A name of 157 bytes takes the last fourteen entries of the first sector, and the second
sector is listed. -/
theorem recycled_bytes_listed : ∃ w entries, Grown 2 0 (fun _ _ => True) w entries ∧
    ∃ list, fat16List 2 (enter w 2 rootPath) = some list ∧ ¬ (list.map (·.slot)).Perm (dots 2 0 ++ entries) := by
  have outcome : (fat16WriteFile 2 madeVolume (inD (List.replicate 157 0x41)) (fun _ => 0) 1).map
      (fun w => (fat16List 2 (enter w 2 rootPath)).map (·.length)) = some (some 19) := by decide +kernel
  obtain ⟨w, ran, listed⟩ := Option.map_eq_some_iff.mp outcome
  obtain ⟨list, lists, length⟩ := Option.map_eq_some_iff.mp listed
  refine ⟨w, _, .created (recycled_made _) trivial (made_creates (by decide +kernel) (by decide +kernel) ran), list,
    lists, fun same => ?_⟩
  have three := same.length_eq
  rw [List.length_map, length] at three
  cases three

end MeowMeowOS.GrownDirectories

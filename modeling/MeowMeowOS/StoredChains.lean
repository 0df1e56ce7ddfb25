import MeowMeowOS.WrittenBytes
import MeowMeowOS.TableCopies

/-! The chain of a new file, as long as free clusters last: it takes them in their order,
links each to the next, and touches no sector but theirs and no other entry. -/
namespace MeowMeowOS.StoredChains
open ByteMemory Fat16Disk Fat16Names Fat16Directory Fat16Paths Fat16Files Fat16Geometry
open Fat16Chains VolumeRuns WrittenBytes

/-- The clusters `used` are linked in this order and end there; other entries and the
sectors of the root and of other clusters are kept. -/
structure Stored (v w : Volume) (used : List Nat) : Prop where
  fs : w.fs = v.fs
  total : w.disk.total = v.disk.total
  links : used.IsChain fun c next => getFatEntry w c = next
  ending : ∀ c ∈ used.getLast?, getFatEntry w c = 0xFFFF
  others : ∀ x, InTable v x → x ∉ used → getFatEntry w x = getFatEntry v x
  sectors : ∀ lo hi, v.fs.rootDirLba ≤ lo → hi ≤ 2 ^ 23 →
    (∀ c ∈ used, hi ≤ clusterLba v.fs c ∨ clusterLba v.fs c + v.fs.sectorsPerCluster ≤ lo) →
    SameSectors v.disk w.disk lo hi

section
variable {v w : Volume} {data : Mem} {size i c current next remaining : Nat} {rest clusters : List Nat}

/-! ## One cluster -/

theorem writeCluster_entry (placed : WellPlaced v) (first : 2 ≤ c) (small : c < 2 ^ 16) {x : Nat}
    (inTable : InTable v x) :
    getFatEntry (writeCluster v data size i c) x = getFatEntry v x := by
  have root := placed.root
  have region := placed.data
  have noWrap := placed.noWrap
  have behind : v.fs.dataRegionLba ≤ clusterLba v.fs c := by
    rw [clusterLba_eq placed first small]
    omega
  exact getFatEntry_sectors (writeCluster_fs v data size i c)
    (writeCluster_frame placed first small (by omega) (Or.inl (by omega))) inTable

theorem freeClusters_kept (table : v.fs.sectorsPerFat ≤ 256) (fs : w.fs = v.fs)
    (entries : ∀ x, InTable v x → getFatEntry w x = getFatEntry v x) : freeClusters w = freeClusters v := by
  unfold freeClusters
  rw [fs]
  apply List.filter_congr
  intro x member
  have inside := List.mem_range.mp member
  rw [entries x ⟨by omega, by omega⟩]

/-- What linking the next free cluster does. -/
structure Linked (v w : Volume) (current next : Nat) (rest : List Nat) : Prop where
  fs : w.fs = v.fs
  total : w.disk.total = v.disk.total
  table : InTable w next
  first : 2 ≤ next
  link : getFatEntry w current = next
  ending : getFatEntry w next = 0xFFFF
  free : freeClusters w = rest
  others : ∀ x, InTable v x → x ≠ current → x ≠ next → getFatEntry w x = getFatEntry v x
  sectors : ∀ lo hi, v.fs.rootDirLba ≤ lo → hi ≤ 2 ^ 23 → SameSectors v.disk w.disk lo hi

theorem linked_next (placed : WellPlaced v) (table : v.fs.sectorsPerFat ≤ 256) (inTable : InTable v current)
    (taken : getFatEntry v current ≠ 0) (free : freeClusters v = next :: rest) :
    Linked v (setFatEntry (setFatEntry v current next) next 0xFFFF) current next rest := by
  have member : next ∈ freeClusters v := free ▸ List.mem_cons_self
  obtain ⟨-, first, zero⟩ := mem_freeClusters.mp member
  have inTable' := freeClusters_inTable table member
  have other : current ≠ next := fun same => taken (same ▸ zero)
  have placed' := wellPlaced_setFatEntry placed current next
  have value : next % 2 ^ 16 = next := Nat.mod_eq_of_lt inTable'.1
  have entry : ∀ x, InTable v x → getFatEntry (setFatEntry (setFatEntry v current next) next 0xFFFF) x =
      if x = next then 0xFFFF else if x = current then next else getFatEntry v x := by
    intro x inside
    rw [getFatEntry_setEnd placed' inTable' inside, getFatEntry_setFatEntry placed inTable inside, value]
  exact {
    fs := rfl
    total := by rw [setFatEntry_total, setFatEntry_total]
    table := inTable'
    first := first
    link := by rw [entry current inTable, if_neg other, if_pos rfl]
    ending := by rw [entry next inTable', if_pos rfl]
    free := by
      have linked : freeClusters (setFatEntry v current next) = next :: rest :=
        (freeClusters_set_taken placed table inTable taken (by omega)).trans free
      exact freeClusters_set_first placed' table linked (by decide)
    others := fun x inside notCurrent notNext => by rw [entry x inside, if_neg notNext, if_neg notCurrent]
    sectors := fun lo hi behind bound =>
      (setFatEntry_sectors placed inTable bound behind).trans (setFatEntry_sectors placed' inTable' bound behind) }

/-- The volume once the loop has written one cluster and goes on with the next. -/
structure Continued (v u : Volume) (data : Mem) (size i current next : Nat) (rest : List Nat) : Prop where
  fs : u.fs = v.fs
  total : u.disk.total = v.disk.total
  table : InTable u next
  first : 2 ≤ next
  link : getFatEntry u current = next
  ending : getFatEntry u next = 0xFFFF
  free : freeClusters u = rest
  others : ∀ x, InTable v x → x ≠ current → x ≠ next → getFatEntry u x = getFatEntry v x
  sectors : ∀ lo hi, v.fs.rootDirLba ≤ lo → hi ≤ 2 ^ 23 →
    (hi ≤ clusterLba v.fs current ∨ clusterLba v.fs current + v.fs.sectorsPerCluster ≤ lo) →
    SameSectors v.disk u.disk lo hi
  content : InData v current → size < 2 ^ 32 → ∀ s < v.fs.sectorsPerCluster,
    i * (v.fs.sectorsPerCluster * 512) + s * 512 < size → kdiskReadSector u.disk (clusterLba v.fs current + s) =
      fun b => data (i * (v.fs.sectorsPerCluster * 512) + s * 512 + b)

theorem writeClusters_next (data : Mem) (size i : Nat) (placed : WellPlaced v)
    (table : v.fs.sectorsPerFat ≤ 256) (first : 2 ≤ current)
    (inTable : InTable v current) (taken : getFatEntry v current ≠ 0) (free : freeClusters v = next :: rest) :
    ∃ u, Continued v u data size i current next rest ∧ ∀ remaining,
      writeClusters data size (remaining + 1 + 1) i current v = writeClusters data size (remaining + 1)
      (i + 1) next u := by
  have fs := writeCluster_fs v data size i current
  have total := writeCluster_total v data size i current
  have entries : ∀ x, InTable v x → getFatEntry (writeCluster v data size i current) x = getFatEntry v x :=
    fun x inside => writeCluster_entry placed first inTable.1 inside
  have placed' := wellPlaced_of_eq placed fs total
  have free' := (freeClusters_kept table fs entries).trans free
  have taken' : getFatEntry (writeCluster v data size i current) current ≠ 0 := by
    rw [entries current inTable]
    exact taken
  have linked := linked_next placed' table inTable taken' free'
  refine ⟨setFatEntry (setFatEntry (writeCluster v data size i current) current next) next 0xFFFF, ?_,
    fun remaining => ?_⟩
  · exact {
      fs := linked.fs.trans fs
      total := linked.total.trans total
      table := linked.table
      first := linked.first
      link := linked.link
      ending := linked.ending
      free := linked.free
      others := fun x inside notCurrent notNext => (linked.others x inside notCurrent notNext).trans (entries x inside)
      sectors := fun lo hi behind bound apart =>
        (writeCluster_frame placed first inTable.1 bound apart).trans (linked.sectors lo hi behind bound)
      content := by
        intro inData small s below inside
        have root := placed.root
        have region := placed.data
        have bound := cluster_bound placed inData.2.1
        have place := clusterLba_eq placed inData.1 inData.2.1
        rw [linked.sectors (clusterLba v.fs current) (2 ^ 23) (by rw [fs]; omega) (Nat.le_refl _) _ (by omega)
          (by omega)]
        exact writeCluster_sector data size placed inData below inside small }
  · rw [writeClusters]
    dsimp only
    rw [if_neg (Nat.succ_ne_zero remaining),
      findFreeCluster_first (v := writeCluster v data size i current) table free']

/-! ## The chain -/

/-- Free clusters are none that is taken. -/
theorem taken_fresh (taken : getFatEntry v current ≠ 0) (free : freeClusters v = clusters) :
    current ∉ clusters := by
  intro again
  rw [← free] at again
  exact taken (mem_freeClusters.mp again).2.2

theorem writeClusters_stored (data : Mem) (size i : Nat) (placed : WellPlaced v) (table : v.fs.sectorsPerFat ≤ 256)
    (first : 2 ≤ current) (inTable : InTable v current) (ended : getFatEntry v current = 0xFFFF)
    (free : freeClusters v = clusters) (enough : remaining ≤ clusters.length) :
    Stored v (writeClusters data size (remaining + 1) i current v) (current :: clusters.take remaining) := by
  induction remaining generalizing i current v clusters with
  | zero =>
    rw [writeClusters, if_pos rfl, List.take_zero]
    exact {
      fs := writeCluster_fs v data size i current
      total := writeCluster_total v data size i current
      links := List.isChain_singleton _
      ending := by
        intro c last
        obtain rfl : current = c := by simpa using last
        exact (writeCluster_entry placed first inTable.1 inTable).trans ended
      others := fun x inside _ => writeCluster_entry placed first inTable.1 inside
      sectors := fun lo hi _ bound apart =>
        writeCluster_frame placed first inTable.1 bound (apart current List.mem_cons_self) }
  | succ remaining ih =>
    cases clusters with
    | nil => cases enough
    | cons next rest =>
      have taken : getFatEntry v current ≠ 0 := by rw [ended]; decide
      have fresh : current ∉ next :: rest.take remaining := fun again =>
        taken_fresh taken free ((List.take_sublist (remaining + 1) (next :: rest)).subset again)
      obtain ⟨u, continued, unfolded⟩ := writeClusters_next data size i placed table first inTable taken free
      rw [unfolded, List.take_succ_cons]
      have fsU := continued.fs
      have tableU : ∀ x, InTable u x ↔ InTable v x := fun x => inTable_of_eq fsU
      obtain ⟨fs, total, links, ending, others, sectors⟩ := ih (i + 1) (wellPlaced_of_eq placed fsU continued.total)
        (by rw [fsU]; exact table) continued.first continued.table continued.ending continued.free
        (Nat.le_of_succ_le_succ enough)
      exact {
        fs := fs.trans fsU
        total := total.trans continued.total
        links := List.isChain_cons_cons.mpr
          ⟨(others current ((tableU current).mpr inTable) fresh).trans continued.link, links⟩
        ending := fun c last => ending c (by simpa using last)
        others := by
          intro x inside outside
          obtain ⟨notCurrent, later⟩ := not_or.mp (mt List.mem_cons.mpr outside)
          obtain ⟨notNext, -⟩ := not_or.mp (mt List.mem_cons.mpr later)
          rw [others x ((tableU x).mpr inside) later, continued.others x inside notCurrent notNext]
        sectors := by
          intro lo hi behind bound apart
          refine (continued.sectors lo hi behind bound (apart current List.mem_cons_self)).trans
            (sectors lo hi (by rw [fsU]; exact behind) bound fun c member => ?_)
          rw [fsU]
          exact apart c (List.mem_cons_of_mem current member) }

/-- The sectors of the chain hold the data. -/
theorem writeClusters_content (data : Mem) (size i : Nat) (placed : WellPlaced v) (table : v.fs.sectorsPerFat ≤ 256)
    (inTable : InTable v current) (ended : getFatEntry v current = 0xFFFF)
    (free : freeClusters v = clusters) (enough : remaining ≤ clusters.length)
    (onDisk : ∀ c ∈ current :: clusters.take remaining, InData v c) (small : size < 2 ^ 32) {j s : Nat}
    (here : (current :: clusters.take remaining)[j]? = some c) (below : s < v.fs.sectorsPerCluster)
    (inside : (i + j) * (v.fs.sectorsPerCluster * 512) + s * 512 < size) :
    kdiskReadSector (writeClusters data size (remaining + 1) i current v).disk (clusterLba v.fs c + s) =
      fun b => data ((i + j) * (v.fs.sectorsPerCluster * 512) + s * 512 + b) := by
  induction remaining generalizing i current v clusters j with
  | zero =>
    obtain ⟨rfl, rfl⟩ : j = 0 ∧ current = c := by
      cases j with
      | zero => exact ⟨rfl, by simpa using here⟩
      | succ j => simp at here
    rw [writeClusters, if_pos rfl]
    exact writeCluster_sector data size placed (onDisk current List.mem_cons_self) below inside small
  | succ remaining ih =>
    cases clusters with
    | nil => cases enough
    | cons next rest =>
      have taken : getFatEntry v current ≠ 0 := by rw [ended]; decide
      have inData := onDisk current List.mem_cons_self
      obtain ⟨u, continued, unfolded⟩ := writeClusters_next data size i placed table inData.1 inTable taken free
      rw [List.take_succ_cons] at here onDisk
      rw [unfolded]
      have fsU := continued.fs
      have placedU := wellPlaced_of_eq placed fsU continued.total
      have enough' := Nat.le_of_succ_le_succ enough
      have tableU : u.fs.sectorsPerFat ≤ 256 := by rw [fsU]; exact table
      cases j with
      | zero =>
        obtain rfl : current = c := by simpa using here
        have fresh : current ∉ next :: rest.take remaining := fun again =>
          taken_fresh taken free ((List.take_sublist (remaining + 1) (next :: rest)).subset again)
        have later := writeClusters_stored data size (i +
          1) placedU tableU continued.first continued.table continued.ending
          continued.free enough'
        have root := placed.root
        have region := placed.data
        have bound := cluster_bound placed inData.2.1
        have place := clusterLba_eq placed inData.1 inData.2.1
        rw [later.sectors (clusterLba v.fs current) (clusterLba v.fs current +
          v.fs.sectorsPerCluster) (by rw [fsU]; omega) (by omega)
          (fun other member => ?_) _ (by omega) (by omega)]
        · exact continued.content inData small s below inside
        · have inData' := onDisk other (List.mem_cons_of_mem current member)
          have different : current ≠ other := by
            rintro rfl
            exact fresh member
          have apart := cluster_apart different inData.1 inData'.1 v.fs.sectorsPerCluster
          rw [fsU, place, clusterLba_eq placed inData'.1 inData'.2.1]
          omega
      | succ j =>
        have onDisk' : ∀ c ∈ next :: rest.take remaining, InData u c := by
          intro c member
          have there := onDisk c (List.mem_cons_of_mem current member)
          unfold InData at there ⊢
          rw [fsU, continued.total]
          exact there
        have further := ih (v := u) (j := j)
          (i + 1) placedU tableU continued.table continued.ending continued.free enough' onDisk'
          (by simpa using here) (by rw [fsU]; exact below) (by rw [fsU, Nat.add_assoc, Nat.add_comm 1]; exact inside)
        rw [fsU, Nat.add_assoc, Nat.add_comm 1] at further
        exact further

/-! ## A whole file -/

theorem free_some (table : v.fs.sectorsPerFat ≤ 256) (room : findFreeCluster v ≠ 0xFFFF) :
    ∃ rest, freeClusters v = findFreeCluster v :: rest := by
  rcases findFreeCluster_spec table with ⟨full, -⟩ | ⟨first, inTable, free, -⟩
  · exact absurd full room
  · have member : findFreeCluster v ∈ freeClusters v := by
      obtain ⟨small, sector⟩ := inTable
      exact mem_freeClusters.mpr ⟨by omega, first, free⟩
    cases list : freeClusters v with
    | nil =>
      rw [list] at member
      cases member
    | cons c rest => exact ⟨rest, by rw [findFreeCluster_first table list]⟩

/-- The clusters that a file of this size takes; an empty one takes one as well. -/
def takenClusters (v : Volume) (size : Nat) : List Nat := (freeClusters v).take (max 1 (clustersNeeded v size))

/-- A volume whose first cluster is claimed and not yet written. -/
structure Claimed (v u : Volume) (c : Nat) (rest : List Nat) : Prop where
  fs : u.fs = v.fs
  total : u.disk.total = v.disk.total
  first : 2 ≤ c
  table : InTable v c
  ended : getFatEntry u c = 0xFFFF
  free : freeClusters u = rest
  others : ∀ x, InTable v x → x ≠ c → getFatEntry u x = getFatEntry v x
  sectors : ∀ lo hi, v.fs.rootDirLba ≤ lo → hi ≤ 2 ^ 23 → SameSectors v.disk u.disk lo hi

theorem claimed_first (placed : WellPlaced v) (table : v.fs.sectorsPerFat ≤ 256) (free : freeClusters v = c :: rest) :
    Claimed v (setFatEntry v c 0xFFFF) c rest := by
  have inTable := freeClusters_inTable table (free ▸ List.mem_cons_self)
  have entry : ∀ x, InTable v x →
    getFatEntry (setFatEntry v c 0xFFFF) x = if x = c then 0xFFFF else getFatEntry v x :=
    fun x inside => getFatEntry_setEnd placed inTable inside
  exact {
    fs := rfl
    total := setFatEntry_total v c 0xFFFF
    first := (mem_freeClusters.mp (free ▸ List.mem_cons_self)).2.1
    table := inTable
    ended := by rw [entry c inTable, if_pos rfl]
    free := freeClusters_set_first placed table free (by decide)
    others := fun x inside other => by rw [entry x inside, if_neg other]
    sectors := fun lo hi behind bound => setFatEntry_sectors placed inTable bound behind }

theorem stored_claimed {u : Volume} (claimed : Claimed v u c rest) (stored : Stored u w (c :: clusters)) :
    Stored v w (c :: clusters) where
  fs := stored.fs.trans claimed.fs
  total := stored.total.trans claimed.total
  links := stored.links
  ending := stored.ending
  others := by
    intro x inside outside
    obtain ⟨other, -⟩ := not_or.mp (mt List.mem_cons.mpr outside)
    rw [stored.others x ((inTable_of_eq claimed.fs).mpr inside) outside, claimed.others x inside other]
  sectors := by
    intro lo hi behind bound apart
    refine (claimed.sectors lo hi behind bound).trans
      (stored.sectors lo hi (by rw [claimed.fs]; exact behind) bound fun x member => ?_)
    rw [claimed.fs]
    exact apart x member

theorem storedData_stored (data : Mem) (placed : WellPlaced v) (table : v.fs.sectorsPerFat ≤ 256)
    (room : findFreeCluster v ≠ 0xFFFF)
    (enough : clustersNeeded v size ≤ (freeClusters v).length) :
    Stored v (storedData v data size) (takenClusters v size) := by
  obtain ⟨rest, free⟩ := free_some table room
  have claimed := claimed_first placed table free
  unfold storedData takenClusters
  rw [free] at enough ⊢
  generalize setFatEntry v (findFreeCluster v) 0xFFFF = u at claimed
  have placed' := wellPlaced_of_eq placed claimed.fs claimed.total
  have inTable : InTable u (findFreeCluster v) := (inTable_of_eq claimed.fs).mpr claimed.table
  cases count : clustersNeeded v size with
  | zero =>
    refine stored_claimed claimed ?_
    exact {
      fs := rfl
      total := rfl
      links := List.isChain_singleton _
      ending := by
        intro x last
        obtain rfl : findFreeCluster v = x := by simpa using last
        exact claimed.ended
      others := fun _ _ _ => rfl
      sectors := fun lo hi _ _ _ => SameSectors.refl u.disk lo hi }
  | succ remaining =>
    rw [count] at enough
    rw [Nat.max_eq_right (by omega), List.take_succ_cons]
    exact stored_claimed claimed
      (writeClusters_stored data size 0 placed' (by rw [claimed.fs]; exact table) claimed.first inTable
      claimed.ended claimed.free (Nat.le_of_succ_le_succ enough))

/-- The taken clusters were free. -/
theorem taken_free (member : c ∈ takenClusters v size) : c ∈ freeClusters v := (List.take_sublist _ _).subset member

/-- They lie apart from the root and from clusters that are not free. -/
theorem taken_apart (placed : WellPlaced v) (table : v.fs.sectorsPerFat ≤ 256)
    (dir : c = 0 ∨ InData v c ∧ getFatEntry v c ≠ 0) {x : Nat} (member : x ∈ takenClusters v size) :
    dirStart v.fs c + dirSectors v.fs c ≤ clusterLba v.fs x ∨
      clusterLba v.fs x + v.fs.sectorsPerCluster ≤ dirStart v.fs c := by
  have free := taken_free member
  have first := (mem_freeClusters.mp free).2.1
  have small := (freeClusters_inTable table free).1
  have region := placed.data
  rw [dirStart, dirSectors, clusterLba_eq placed first small]
  by_cases root : c = 0
  · rw [if_pos root, if_pos root]
    omega
  · obtain ⟨⟨first', small', -⟩, taken⟩ := dir.resolve_left root
    have different : c ≠ x := by
      rintro rfl
      exact taken (mem_freeClusters.mp free).2.2
    have apart := cluster_apart different first' first v.fs.sectorsPerCluster
    rw [if_neg root, if_neg root, clusterLba_eq placed first' small']
    omega

/-- Sectors of clusters that are not free, and those of the root, are kept. -/
theorem storedData_sectors (data : Mem) (placed : WellPlaced v) (table : v.fs.sectorsPerFat ≤ 256)
    (room : findFreeCluster v ≠ 0xFFFF) (enough : clustersNeeded v size ≤ (freeClusters v).length)
    (dir : c = 0 ∨ InData v c ∧ getFatEntry v c ≠ 0) :
    SameSectors v.disk (storedData v data size).disk (dirStart v.fs c) (dirStart v.fs c + dirSectors v.fs c) := by
  have located : DirPlaced v c := dir.imp_right And.left
  exact (storedData_stored data placed table room enough).sectors _ _ (dirRegion_behind placed located)
    (dirRegion_onDisk placed located).2 fun x member => taken_apart placed table dir member

/-- The sectors of the file's clusters hold its data. -/
theorem storedData_content (data : Mem) (placed : WellPlaced v) (table : v.fs.sectorsPerFat ≤ 256)
    (room : findFreeCluster v ≠ 0xFFFF)
    (enough : clustersNeeded v size ≤ (freeClusters v).length)
    (onDisk : ∀ c ∈ takenClusters v size, InData v c) (small : size < 2 ^ 32)
    {j s : Nat} (short : j < clustersNeeded v size) (here : (takenClusters v size)[j]? = some c)
    (below : s < v.fs.sectorsPerCluster)
    (inside : j * (v.fs.sectorsPerCluster * 512) + s * 512 < size) :
    kdiskReadSector (storedData v data size).disk (clusterLba v.fs c + s) =
      fun b => data (j * (v.fs.sectorsPerCluster * 512) + s * 512 + b) := by
  obtain ⟨rest, free⟩ := free_some table room
  have claimed := claimed_first placed table free
  unfold takenClusters at onDisk here
  unfold storedData
  rw [free] at enough onDisk here
  generalize setFatEntry v (findFreeCluster v) 0xFFFF = u at claimed
  have placed' := wellPlaced_of_eq placed claimed.fs claimed.total
  have inTable : InTable u (findFreeCluster v) := (inTable_of_eq claimed.fs).mpr claimed.table
  obtain ⟨remaining, count⟩ := Nat.exists_eq_succ_of_ne_zero (Nat.ne_of_gt (Nat.zero_lt_of_lt short))
  rw [count] at enough here onDisk ⊢
  rw [Nat.max_eq_right (by omega), List.take_succ_cons] at here onDisk
  have onDisk' : ∀ c ∈ findFreeCluster v :: rest.take remaining, InData u c := by
    intro c member
    have there := onDisk c member
    unfold InData at there ⊢
    rw [claimed.fs, claimed.total]
    exact there
  have stored :=
    writeClusters_content data size 0 placed' (by rw [claimed.fs]; exact table) inTable claimed.ended claimed.free
    (Nat.le_of_succ_le_succ enough) onDisk' small here (by rw [claimed.fs]; exact below)
      (by rw [claimed.fs, Nat.zero_add]; exact inside)
  rw [claimed.fs, Nat.zero_add] at stored
  exact stored

end

end MeowMeowOS.StoredChains

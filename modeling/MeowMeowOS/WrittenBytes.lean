import MeowMeowOS.Fat16Alike
import MeowMeowOS.MissingDirectories
import Mathlib.Data.List.Perm.Subperm
import Mathlib.Tactic.Ring

/-! What of the caller's memory a file write stores. Sectors are written
whole, so the last one takes along what lies behind the data unless the size
is a multiple of 512. -/
namespace MeowMeowOS.WrittenBytes
open ByteMemory Fat16Disk Fat16Names Fat16Directory Fat16Paths Fat16Files Fat16Geometry Fat16Walks
open Fat16Chains Fat16Entries Fat16Alike MissingDirectories

/-! ## Whole sectors -/

section Whole
variable {v w : Volume} {data data' : Mem} {size : Nat}

/-- A sector that starts in the data ends in it, so both memories fill it alike. -/
theorem sector_same (whole : size % 512 = 0) (agree : AgreeOn data data' 0 size)
    (inside : (i * (spc * 512) + s * 512) % 2 ^ 32 < size) :
    ∀ o < 512, data' ((i * (spc * 512) + s * 512) % 2 ^ 32 + o) =
      data ((i * (spc * 512) + s * 512) % 2 ^ 32 + o) := by
  intro o small
  have aligned : (i * (spc * 512) + s * 512) % 2 ^ 32 % 512 = 0 := by
    rw [Nat.mod_mod_of_dvd _ (by decide), ← Nat.mul_assoc, ← Nat.add_mul]
    exact Nat.mul_mod_left _ _
  exact agree _ (Nat.zero_le _) (by omega)

theorem writeCluster_alike (alike : Alike v w) (whole : size % 512 = 0)
    (agree : AgreeOn data data' 0 size) (i c : Nat) :
    Alike (writeCluster v data size i c) (writeCluster w data' size i c) := by
  refine ⟨alike.fs, ?_⟩
  simp only [writeCluster, alike.fs]
  have disks := alike.disk
  generalize v.disk = d at disks
  generalize w.disk = e at disks
  induction List.range v.fs.sectorsPerCluster generalizing d e with
  | nil => exact disks
  | cons s rest ih =>
    rw [List.foldl_cons, List.foldl_cons]
    apply ih
    split
    · rename_i inside
      exact write_alike disks _ (sector_same whole agree inside)
    · exact disks

theorem writeClusters_alike (alike : Alike v w) (whole : size % 512 = 0)
    (agree : AgreeOn data data' 0 size) (remaining i c : Nat) :
    Alike (writeClusters data size remaining i c v) (writeClusters data' size remaining i c w) := by
  induction remaining generalizing i c v w with
  | zero => exact alike
  | succ remaining ih =>
    have written := writeCluster_alike alike whole agree i c
    simp only [writeClusters, findFreeCluster_alike written]
    split
    · exact written
    · apply ih
      exact setFatEntry_alike (setFatEntry_alike written _ _) _ _

theorem getD_alike (fallback : Alike v w) (outcomes : Option.Rel Alike a b) : Alike (a.getD v) (b.getD w) := by
  cases outcomes with
  | none => exact fallback
  | some alike => exact alike

theorem writeNew_alike (whole : size % 512 = 0) (agree : AgreeOn data data' 0 size) (v : Volume)
    (baseName : CString) :
    Option.Rel Alike (writeNew v baseName data size) (writeNew v baseName data' size) := by
  unfold writeNew
  dsimp only
  split
  · exact Option.Rel.none
  · have written := writeClusters_alike (alike_refl (setFatEntry v (findFreeCluster v) 0xFFFF)) whole agree
      (if 0 < size then (size + v.fs.sectorsPerCluster * 512 - 1) % 2 ^ 32 / (v.fs.sectorsPerCluster * 512)
        else 0) 0 (findFreeCluster v)
    have added := addDirEntry_alike written baseName 0x20 (findFreeCluster v) size
    exact Option.Rel.some (getD_alike written added)

theorem fat16WriteFile_alike (whole : size % 512 = 0) (agree : AgreeOn data data' 0 size)
    (fuel : Nat) (v : Volume) (filename : CString) :
    Option.Rel Alike (fat16WriteFile fuel v filename data size) (fat16WriteFile fuel v filename data' size) := by
  simp only [fat16WriteFile, Option.bind_eq_bind]
  cases enterPath fuel v filename with
  | none => exact Option.Rel.none
  | some entered =>
    have written := writeNew_alike whole agree entered.1 entered.2
    simp only [Option.bind_some]
    generalize writeNew entered.1 entered.2 data size = first at written
    generalize writeNew entered.1 entered.2 data' size = second at written
    cases written with
    | none => exact Option.Rel.none
    | some alike => exact leavePath_alike alike fuel filename _

end Whole

/-! ## The clusters a write takes -/

/-- The free clusters in the order in which they are handed out. -/
def freeClusters (v : Volume) : List Nat :=
  (List.range (v.fs.sectorsPerFat * 256)).filter fun c => 2 ≤ c ∧ getFatEntry v c = 0

section Taken
variable {v v' : Volume} {data : Mem} {size : Nat}

theorem mem_freeClusters : c ∈ freeClusters v ↔
    c < v.fs.sectorsPerFat * 256 ∧ 2 ≤ c ∧ getFatEntry v c = 0 := by
  simp [freeClusters]

theorem freeClusters_inTable (small : v.fs.sectorsPerFat ≤ 256) (member : c ∈ freeClusters v) :
    InTable v c := by
  have inside := (mem_freeClusters.mp member).1
  exact ⟨by omega, by omega⟩

theorem findFreeCluster_first (small : v.fs.sectorsPerFat ≤ 256) (free : freeClusters v = c :: rest) :
    findFreeCluster v = c := by
  have inTable := freeClusters_inTable small (free ▸ List.mem_cons_self)
  have found : (freeClusters v).head? = some c := by rw [free, List.head?_cons]
  rw [freeClusters, List.head?_filter] at found
  simp only [findFreeCluster, tableEntry_eq, found]
  exact Nat.mod_eq_of_lt inTable.1

/-- A cluster that gets a link is free no longer, the others are what they were. -/
theorem freeClusters_set (placed : WellPlaced v) (small : v.fs.sectorsPerFat ≤ 256) (inTable : InTable v c)
    (value : x % 2 ^ 16 ≠ 0) : freeClusters (setFatEntry v c x) = (freeClusters v).filter (· ≠ c) := by
  unfold freeClusters
  rw [List.filter_filter, setFatEntry_fs]
  apply List.filter_congr
  intro c' member
  have inside := List.mem_range.mp member
  rw [getFatEntry_setFatEntry placed inTable ⟨by omega, by omega⟩]
  by_cases same : c' = c
  · have kept : ¬ x % 65536 = 0 := value
    simp [same, kept]
  · simp [same]

theorem freeClusters_set_taken (placed : WellPlaced v) (small : v.fs.sectorsPerFat ≤ 256)
    (inTable : InTable v c) (taken : getFatEntry v c ≠ 0) (value : x % 2 ^ 16 ≠ 0) :
    freeClusters (setFatEntry v c x) = freeClusters v := by
  rw [freeClusters_set placed small inTable value]
  apply List.filter_eq_self.mpr
  intro c' member
  have free := (mem_freeClusters.mp member).2.2
  have : c' ≠ c := fun same => taken (same ▸ free)
  simp [this]

theorem freeClusters_set_first (placed : WellPlaced v) (small : v.fs.sectorsPerFat ≤ 256)
    (free : freeClusters v = c :: rest) (value : x % 2 ^ 16 ≠ 0) :
    freeClusters (setFatEntry v c x) = rest := by
  have distinct : (c :: rest).Nodup := free ▸ List.nodup_range.filter _
  rw [freeClusters_set placed small (freeClusters_inTable small (free ▸ List.mem_cons_self)) value, free,
    List.filter_cons_of_neg (by simp)]
  apply List.filter_eq_self.mpr
  intro c' member
  have : c' ≠ c := fun same => (List.nodup_cons.mp distinct).1 (same ▸ member)
  simp [this]

theorem freeClusters_writeCluster (placed : WellPlaced v) (inData : InData v c) :
    freeClusters (writeCluster v data size i c) = freeClusters v := by
  obtain ⟨first, small, -⟩ := inData
  have root := placed.root
  have region := placed.data
  have noWrap := placed.noWrap
  have behind : v.fs.dataRegionLba ≤ clusterLba v.fs c := by
    rw [clusterLba_eq placed first small]
    omega
  have same : SameSectors v.disk (writeCluster v data size i c).disk v.fs.reservedSectors
      (v.fs.reservedSectors + v.fs.sectorsPerFat) :=
    writeCluster_frame placed first small (by omega) (Or.inl (by omega))
  unfold freeClusters
  apply List.filter_congr
  intro c' member
  have inside := List.mem_range.mp member
  simp only [writeCluster_fs] at inside
  have entry : getFatEntry (writeCluster v data size i c) c' = getFatEntry v c' := by
    unfold getFatEntry
    rw [writeCluster_fs, same _ (by omega) (by omega)]
  rw [entry]

/-- A sector of the cluster holds what lies at its place in the data and behind. -/
theorem writeCluster_sector (data : Mem) (size : Nat) (placed : WellPlaced v) (inData : InData v c)
    (below : s < v.fs.sectorsPerCluster) (inside : i * (v.fs.sectorsPerCluster * 512) + s * 512 < size)
    (small : size < 2 ^ 32) :
    kdiskReadSector (writeCluster v data size i c).disk (clusterLba v.fs c + s) =
      fun j => data (i * (v.fs.sectorsPerCluster * 512) + s * 512 + j) := by
  obtain ⟨first, short, onDisk⟩ := inData
  have bound := cluster_bound placed short
  have lba := clusterLba_eq placed first short
  unfold writeCluster
  dsimp only
  generalize clusterLba v.fs c = start at lba ⊢
  -- the same holds after any number of the cluster's sectors
  suffices prefixes : ∀ n ≤ v.fs.sectorsPerCluster,
      let d := (List.range n).foldl (fun d s =>
        let offset := (i * (v.fs.sectorsPerCluster * 512) + s * 512) % 2 ^ 32
        if offset < size then kdiskWriteSector d (start + s) fun j => data (offset + j) else d) v.disk
      d.total = v.disk.total ∧ (s < n → kdiskReadSector d (start + s) =
        fun j => data (i * (v.fs.sectorsPerCluster * 512) + s * 512 + j)) from
    (prefixes _ (Nat.le_refl _)).2 below
  intro n
  induction n with
  | zero => exact fun _ => ⟨rfl, fun none => absurd none (Nat.not_lt_zero s)⟩
  | succ n ih =>
    intro le
    obtain ⟨total, written⟩ := ih (by omega)
    dsimp only at total written
    simp only [List.range_succ, List.foldl_append, List.foldl_cons, List.foldl_nil]
    by_cases last : s = n
    · subst last
      rw [Nat.mod_eq_of_lt (by omega), if_pos inside]
      exact ⟨(kdiskWrite_total _ _ _).trans total, fun _ => read_write_same (by omega) (by omega)⟩
    · split
      · refine ⟨(kdiskWrite_total _ _ _).trans total, fun less => ?_⟩
        rw [read_write_apart (by omega) (by omega) (by omega)]
        exact written (by omega)
      · exact ⟨total, fun less => written (by omega)⟩

/-- The last thing that is written is the last cluster, the one that follows
in the list of free ones. -/
theorem writeClusters_last (data : Mem) (size i : Nat) (placed : WellPlaced v)
    (small : v.fs.sectorsPerFat ≤ 256)
    (inData : InData v current) (inTable : InTable v current) (taken : getFatEntry v current ≠ 0)
    (free : freeClusters v = clusters) (enough : remaining ≤ clusters.length)
    (room : ∀ c ∈ clusters.take remaining, InData v c) :
    ∃ u, u.fs = v.fs ∧ u.disk.total = v.disk.total ∧
      writeClusters data size (remaining + 1) i current v =
        writeCluster u data size (i + remaining) ((current :: clusters).getD remaining 0) := by
  induction remaining generalizing i current v clusters with
  | zero => exact ⟨v, rfl, rfl, by simp [writeClusters]⟩
  | succ remaining ih =>
    cases clusters with
    | nil => cases enough
    | cons next rest =>
      rw [writeClusters]
      dsimp only
      rw [if_neg (Nat.succ_ne_zero remaining)]
      generalize written : writeCluster v data size i current = u
      have fs : u.fs = v.fs := written ▸ writeCluster_fs v data size i current
      have total : u.disk.total = v.disk.total := written ▸ writeCluster_total v data size i current
      have placed' : WellPlaced u := wellPlaced_of_eq placed fs total
      have same : freeClusters u = next :: rest :=
        written ▸ (freeClusters_writeCluster placed inData).trans free
      have small' : u.fs.sectorsPerFat ≤ 256 := fs ▸ small
      have inTable' : InTable u current := (inTable_of_eq fs).mpr inTable
      have taken' : getFatEntry u current ≠ 0 := by
        intro zero
        have member : current ∈ freeClusters u :=
          mem_freeClusters.mpr ⟨by have := inTable'.2; omega, inData.1, zero⟩
        rw [same, ← free] at member
        exact taken (mem_freeClusters.mp member).2.2
      have nextTable : InTable u next := freeClusters_inTable small' (same ▸ List.mem_cons_self)
      have nextData : InData v next := room next (by simp)
      have linked : next % 2 ^ 16 ≠ 0 := by
        rw [Nat.mod_eq_of_lt nextTable.1]
        have := nextData.1
        omega
      have placed'' := wellPlaced_setFatEntry placed' current next
      have afterLink : freeClusters (setFatEntry u current next) = next :: rest :=
        (freeClusters_set_taken placed' small' inTable' taken' linked).trans same
      have afterEnd : freeClusters (setFatEntry (setFatEntry u current next) next 0xFFFF) = rest :=
        freeClusters_set_first placed'' small' afterLink (by decide)
      have ended : getFatEntry (setFatEntry (setFatEntry u current next) next 0xFFFF) next ≠ 0 := by
        rw [getFatEntry_setFatEntry placed'' nextTable nextTable, if_pos rfl]
        decide
      rw [findFreeCluster_first small' same]
      have moved : ∀ c, InData v c → InData (setFatEntry (setFatEntry u current next) next 0xFFFF) c := by
        intro c inside
        unfold InData at *
        rw [setFatEntry_total, setFatEntry_total, setFatEntry_fs, setFatEntry_fs, fs, total]
        exact inside
      obtain ⟨u', fs', total', last⟩ := ih (i + 1) (wellPlaced_setFatEntry placed'' next 0xFFFF) small'
        (moved next nextData) nextTable ended afterEnd (Nat.le_of_succ_le_succ enough)
        (fun c member => moved c (room c (by simpa using Or.inr member)))
      refine ⟨u', fs'.trans fs, ?_, ?_⟩
      · rw [total', setFatEntry_total, setFatEntry_total, total]
      · rw [last, Nat.add_right_comm, Nat.add_assoc, List.getD_cons_succ]

/-- Clusters 0 and 1 are never handed out. -/
theorem freeClusters_length (small : v.fs.sectorsPerFat ≤ 256) (some : freeClusters v ≠ []) :
    (freeClusters v).length + 2 ≤ 65536 := by
  have distinct : (0 :: 1 :: freeClusters v).Nodup := by
    have rest : (freeClusters v).Nodup := List.nodup_range.filter _
    simp [rest, mem_freeClusters]
  have inside : (0 :: 1 :: freeClusters v) ⊆ List.range 65536 := by
    obtain ⟨c, member⟩ := List.exists_mem_of_ne_nil _ some
    intro c' member'
    simp only [List.mem_cons, mem_freeClusters] at member'
    rw [List.mem_range]
    omega
  have count := (List.subperm_of_subset distinct inside).length_le
  rw [List.length_cons, List.length_cons, List.length_range] at count
  omega

end Taken

/-! ## The last sector -/

/-- The clusters that hold `size` bytes, the last one in part. -/
def fileClusters (v : Volume) (size : Nat) : Nat :=
  (size + v.fs.sectorsPerCluster * 512 - 1) / (v.fs.sectorsPerCluster * 512)

/-- There are clusters for the file, all in the data area and none of them the
current directory. -/
structure Room (v : Volume) (size : Nat) : Prop where
  enough : fileClusters v size ≤ (freeClusters v).length
  clusters : ∀ c ∈ (freeClusters v).take (fileClusters v size), InData v c ∧ c ≠ v.fs.currentDirCluster

/-- Where the sector goes that the data fills in part. -/
def lastSector (v : Volume) (size : Nat) : Nat :=
  clusterLba v.fs ((freeClusters v).getD (size / 512 / v.fs.sectorsPerCluster) 0) +
    size / 512 % v.fs.sectorsPerCluster

section Last
variable {v v' : Volume} {data : Mem} {size : Nat}

theorem fileClusters_eq (wide : 0 < v.fs.sectorsPerCluster) (part : size % 512 ≠ 0) :
    fileClusters v size = size / 512 / v.fs.sectorsPerCluster + 1 := by
  have split := Nat.div_add_mod (size / 512) v.fs.sectorsPerCluster
  have below := Nat.mod_lt (size / 512) wide
  unfold fileClusters
  generalize size / 512 / v.fs.sectorsPerCluster = q at *
  generalize size / 512 % v.fs.sectorsPerCluster = s at *
  have whole : (q + 1) * (v.fs.sectorsPerCluster * 512) =
      512 * (v.fs.sectorsPerCluster * q) + v.fs.sectorsPerCluster * 512 := by ring
  have next : (q + 1 + 1) * (v.fs.sectorsPerCluster * 512) =
      512 * (v.fs.sectorsPerCluster * q) + 2 * (v.fs.sectorsPerCluster * 512) := by ring
  apply Nat.div_eq_of_lt_le
  · rw [whole]
    omega
  · rw [next]
    omega

/-- The driver's count does not wrap: the clusters would not fit on the disk. -/
theorem size_lt (placed : WellPlaced v) (small : v.fs.sectorsPerFat ≤ 256)
    (wide : 0 < v.fs.sectorsPerCluster) (part : size % 512 ≠ 0)
    (enough : fileClusters v size ≤ (freeClusters v).length) :
    size + v.fs.sectorsPerCluster * 512 - 1 < 2 ^ 32 := by
  have count := fileClusters_eq wide part
  have noWrap := placed.noWrap
  have some : freeClusters v ≠ [] := by
    intro none
    rw [none, count] at enough
    cases enough
  have few := freeClusters_length small some
  have fits : size + v.fs.sectorsPerCluster * 512 - 1 <
      (fileClusters v size + 1) * (v.fs.sectorsPerCluster * 512) := by
    rw [Nat.add_mul, Nat.one_mul, fileClusters]
    exact Nat.lt_div_mul_add (by omega)
  have bound : (fileClusters v size + 1) * (v.fs.sectorsPerCluster * 512) ≤
      65536 * (v.fs.sectorsPerCluster * 512) := Nat.mul_le_mul_right _ (by omega)
  omega

/-- What stands in the last sector, once the call is done. -/
theorem writeNew_lastSector (regular : Regular v) (room : Room v size) (part : size % 512 ≠ 0)
    (ran : writeNew v b data size = some v') :
    kdiskReadSector v'.disk (lastSector v size) = fun j => data (size / 512 * 512 + j) := by
  obtain ⟨placed, small, dir, -, -⟩ := regular
  obtain ⟨enough, clusters⟩ := room
  unfold writeNew at ran
  dsimp only at ran
  split at ran
  · cases ran
  · rename_i sized
    have wide : 0 < v.fs.sectorsPerCluster := by
      apply Nat.pos_of_ne_zero
      intro flat
      exact sized (Or.inr ⟨by omega, by rw [flat]⟩)
    have count := fileClusters_eq wide part
    have sizeBound := size_lt placed small wide part enough
    rw [if_pos (by omega), Nat.mod_eq_of_lt sizeBound, ← fileClusters, count] at ran
    cases free : freeClusters v with
    | nil =>
      rw [count, free] at enough
      cases enough
    | cons first rest =>
      rw [free] at enough clusters
      rw [count] at enough clusters
      have quotient : size / 512 / v.fs.sectorsPerCluster * (v.fs.sectorsPerCluster * 512) +
          size / 512 % v.fs.sectorsPerCluster * 512 = size / 512 * 512 := by
        rw [← Nat.mul_assoc, ← Nat.add_mul, Nat.div_add_mod']
      have below := Nat.mod_lt (size / 512) wide
      have firstTable : InTable v first := freeClusters_inTable small (free ▸ List.mem_cons_self)
      have firstData : InData v first := (clusters first (by simp)).1
      rw [findFreeCluster_first small free] at ran
      have reserved : getFatEntry (setFatEntry v first 0xFFFF) first ≠ 0 := by
        rw [getFatEntry_setFatEntry placed firstTable firstTable, if_pos rfl]
        decide
      have placed1 := wellPlaced_setFatEntry placed first 0xFFFF
      have moved : ∀ {u : Volume} c, u.fs = v.fs → u.disk.total = v.disk.total → InData v c → InData u c := by
        intro u c fs total inside
        unfold InData at *
        rw [fs, total]
        exact inside
      obtain ⟨u, fs, total, written⟩ := writeClusters_last data size 0 placed1 small
        (moved first rfl (setFatEntry_total v first _) firstData) firstTable reserved
        (freeClusters_set_first placed small free (by decide)) (Nat.le_of_succ_le_succ enough)
        (fun c member => moved c rfl (setFatEntry_total v first _)
          (clusters c (by simpa using Or.inr member)).1)
      generalize writtenIs : writeClusters data size (size / 512 / v.fs.sectorsPerCluster + 1) 0 first
        (setFatEntry v first 0xFFFF) = w at ran written
      generalize lastIs : (first :: rest).getD (size / 512 / v.fs.sectorsPerCluster) 0 = c at written
      have fsW : w.fs = v.fs := by
        rw [written, writeCluster_fs, fs, setFatEntry_fs]
      have totalW : w.disk.total = v.disk.total := by
        rw [written, writeCluster_total, total, setFatEntry_total]
      have member : c ∈ (first :: rest).take (size / 512 / v.fs.sectorsPerCluster + 1) := by
        rw [← lastIs, List.getD_eq_getElem?_getD, List.getElem?_eq_getElem (by omega), Option.getD_some]
        exact List.mem_take_iff_getElem.mpr ⟨_, by omega, rfl⟩
      obtain ⟨inData, notHere⟩ := clusters c member
      have bound := cluster_bound placed inData.2.1
      have place := clusterLba_eq placed inData.1 inData.2.1
      have stored : kdiskReadSector w.disk (lastSector v size) = fun j => data (size / 512 * 512 + j) := by
        have placedU : WellPlaced u := wellPlaced_of_eq placed1 fs total
        have fsU : u.fs = v.fs := fs
        have below' : size / 512 % v.fs.sectorsPerCluster < u.fs.sectorsPerCluster := by
          rw [fsU]
          exact below
        have sector := writeCluster_sector data size placedU
          (moved c fs (total.trans (setFatEntry_total v first _)) inData) below'
          (i := size / 512 / v.fs.sectorsPerCluster) (by rw [fsU, quotient]; omega)
          (by omega)
        rw [fsU, quotient] at sector
        rw [lastSector, free, lastIs, written, Nat.zero_add]
        exact sector
      cases added : addDirEntry w b 0x20 first size with
      | none =>
        rw [added, Option.getD_none, Option.some.injEq] at ran
        exact ran ▸ stored
      | some u2 =>
        rw [added, Option.getD_some, Option.some.injEq] at ran
        subst ran
        have placedW : WellPlaced w := wellPlaced_of_eq placed fsW totalW
        have dirW : DirPlaced w w.fs.currentDirCluster := by
          rw [fsW]
          exact dir.imp_right (moved _ fsW totalW)
        have apart := dirRegion_apart placed dir (Or.inr inData) (fun same => notHere same.symm)
        obtain ⟨-, -, -, -, -, kept⟩ := addDirEntry_spec placedW dirW added
        rw [fsW] at kept
        have start : dirStart v.fs c = clusterLba v.fs c := if_neg (by have := inData.1; omega)
        have wideDir : dirSectors v.fs c = v.fs.sectorsPerCluster := if_neg (by have := inData.1; omega)
        rw [start, wideDir] at apart
        rw [← stored]
        apply kept (clusterLba v.fs c) (clusterLba v.fs c + v.fs.sectorsPerCluster) (by omega) apart
        · rw [lastSector, free, lastIs]
          omega
        · rw [lastSector, free, lastIs]
          omega

end Last

/-! ## Two runs -/

/-- Memories that hold the same `size` bytes leave the same disk, or let the
call fail alike. -/
def StoresOnlyData (v : Volume) (filename : CString) (size : Nat) : Prop :=
  ∀ fuel data data', AgreeOn data data' 0 size →
    Option.Rel Alike (fat16WriteFile fuel v filename data size) (fat16WriteFile fuel v filename data' size)

section Runs
variable {v v' w : Volume} {fuel size : Nat} {filename base : CString} {data : Mem}

/-- The byte behind the data differs on the disk when it does in memory. -/
theorem slack_stored (entered : enterPath fuel v filename = some (w, base)) (regular : Regular w)
    (room : Room w size) (ran : fat16WriteFile fuel v filename data size = some v')
    (part : size % 512 ≠ 0) :
    kdiskReadSector v'.disk (lastSector w size) (size % 512) = data size := by
  simp only [fat16WriteFile, entered, Option.bind_eq_bind, Option.bind_some, Option.bind_eq_some_iff] at ran
  obtain ⟨written, wrote, left⟩ := ran
  rw [moved_disk (leavePath_moved left), writeNew_lastSector regular room part wrote]
  exact congrArg data (Nat.div_add_mod' size 512)

/-- A call stores only its data when the size is a number of whole sectors,
and not otherwise, if it returns and the last sector's cluster is there. -/
theorem stores_only_data_iff (v : Volume) (filename : CString) (size : Nat) :
    (size % 512 = 0 → StoresOnlyData v filename size) ∧
    ∀ fuel data v' w base, enterPath fuel v filename = some (w, base) → Regular w →
      Room w size → fat16WriteFile fuel v filename data size = some v' →
      (StoresOnlyData v filename size ↔ size % 512 = 0) := by
  have whole : size % 512 = 0 → StoresOnlyData v filename size :=
    fun aligned fuel data data' agree => fat16WriteFile_alike aligned agree fuel v filename
  refine ⟨whole, fun fuel data v' w base entered regular room ran => ⟨fun only => ?_, whole⟩⟩
  apply Decidable.byContradiction
  intro part
  have small : size % 512 < 512 := Nat.mod_lt _ (by decide)
  have agree : AgreeOn data (fun x => if x < size then data x else data x + 1) 0 size := by
    exact fun x _ below => if_pos below
  have outcomes := only fuel data _ agree
  rw [ran] at outcomes
  generalize second : fat16WriteFile fuel v filename
    (fun x => if x < size then data x else data x + 1) size = result at outcomes
  cases outcomes with
  | some alike =>
    have slack := slack_stored entered regular room ran part
    have slack' := slack_stored entered regular room second part
    rw [read_alike alike.disk _ small, slack, if_neg (Nat.lt_irrefl size)] at slack'
    exact absurd slack' (by simp)

end Runs

/-! ## Five bytes into an empty cluster -/

theorem twoEntries_room : Room twoEntries 5 := by
  have front : (freeClusters twoEntries).take 1 = [4] := by decide
  refine ⟨?_, fun c member => ?_⟩
  · show 1 ≤ (freeClusters twoEntries).length
    have length := congrArg List.length front
    rw [List.length_take] at length
    simp only [List.length_cons, List.length_nil] at length
    omega
  · obtain rfl : c = 4 := by
      have member' : c ∈ (freeClusters twoEntries).take 1 := member
      rw [front] at member'
      simpa using member'
    exact ⟨⟨by decide, by decide, by decide⟩, by decide⟩

theorem stores_only_data_iff_twoEntries : ¬ StoresOnlyData twoEntries [0x42] 5 := by
  have returns : (fat16WriteFile 1 twoEntries [0x42] emptyBuf 5).isSome = true := by decide
  obtain ⟨v', ran⟩ := Option.isSome_iff_exists.mp returns
  rw [(stores_only_data_iff twoEntries [0x42] 5).2 1 emptyBuf v' twoEntries [0x42] rfl twoEntries_regular
    twoEntries_room ran]
  decide

/-- Two memories that agree on five bytes: the sixth byte of the file's sector
is 0 after one call and 1 after the other. -/
theorem slack_differs :
    twoEntries.fs.isMounted = true ∧
    AgreeOn (fun _ => 0) (fun x => if x < 5 then 0 else 1) 0 5 ∧
    (fat16WriteFile 1 twoEntries [0x42] (fun _ => 0) 5).map (kdiskReadSector ·.disk 354 5) = some 0 ∧
    (fat16WriteFile 1 twoEntries [0x42] (fun x => if x < 5 then 0 else 1) 5).map
      (kdiskReadSector ·.disk 354 5) = some 1 := by
  refine ⟨rfl, fun x _ below => if_pos below, ?_, ?_⟩
  all_goals decide

end MeowMeowOS.WrittenBytes

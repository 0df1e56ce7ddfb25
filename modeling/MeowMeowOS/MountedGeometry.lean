import Mathlib.Order.Interval.Set.Defs
import MeowMeowOS.FormattedRuns

/-! What mounting lets through. Two fields of the parameter block are checked; the other
five feed every division and every sector number of the driver for as long as the volume
stays mounted. -/
namespace MeowMeowOS.MountedGeometry
open ByteMemory Fat16Disk Fat16Names Fat16Directory Fat16Paths Fat16Files Fat16Format
open VolumeRuns FormattedRuns

/-- The sector that `fat16_initialize` takes as it is. -/
def Accepted (b : Sector) : Prop := bytesPerSector b = 512 ∧ fatCount b = 2

/-- The divisions by a field of `fs_state` that the operations come to: of the offset in
`fat16_read_file`, of the size in `fat16_write_file`, of the sectors in
`fat16_format_drive`. -/
inductive Divides (v : Volume) : Nat → Prop
  | read {fuel offset : Nat} {name : CString} {entry : Slot}
      (found : findEntryInCurrentDir fuel v name = some (some entry))
      (inside : offset < fileSize entry) : Divides v (v.fs.sectorsPerCluster * 512)
  | write {size : Nat} (free : findFreeCluster v ≠ 0xFFFF) (some : 0 < size) :
      Divides v (v.fs.sectorsPerCluster * 512)
  | format {preserveSystem : Bool} {start : Nat} (found : systemCluster v preserveSystem = some start) :
      Divides v v.fs.sectorsPerCluster

/-- The volumes of a disk with this boot sector from its mount to the next. -/
inductive Later (b : Sector) : Volume → Prop
  | mounted {fuel : Nat} {junk : HeapJunk} {v w : Volume} (boot : kdiskReadSector v.disk 0 = b) (accepted : Accepted b)
      (ran : fat16Initialize fuel junk v = some w) : Later b w
  | call {fuel : Nat} {call : Call} {v w : Volume} (later : Later b v) (used : ∀ junk, call ≠ .mount junk)
      (ran : call.run fuel v = some w) : Later b w

/-- The sectors of the disk under `count` sector numbers. `kdisk_read` and `kdisk_write` take
the offset in bytes as a `uint32_t`, so sector numbers wrap. -/
def onDisk (first count : Nat) : Set Nat := {sector | ∃ i < count, sector = (first + i) % 2 ^ 23}

/-- The sectors of the clusters that a chain may have. -/
def dataSectors (fs : FsState) : Set Nat :=
  {sector | ∃ c i, InChain c ∧ i < fs.sectorsPerCluster ∧ sector = (clusterLba fs c + i) % 2 ^ 23}

/-- The parts of the volume: the boot sector, the two tables, the root directory and the
clusters. -/
def areas (fs : FsState) : List (Set Nat) :=
  [onDisk 0 1, onDisk fs.reservedSectors fs.sectorsPerFat,
    onDisk (fs.reservedSectors + fs.sectorsPerFat) fs.sectorsPerFat,
    onDisk fs.rootDirLba fs.rootDirSectors, dataSectors fs]

def NonemptyRange (area : Set Nat) : Prop := ∃ first behind, first < behind ∧ area = Set.Ico first behind

/-- The parts are ranges of sectors, and each lies behind the ones before it. -/
def InOrder (fs : FsState) : Prop :=
  (∀ area ∈ areas fs, NonemptyRange area) ∧
    (areas fs).Pairwise fun area behind => ∀ s ∈ area, ∀ t ∈ behind, s < t

def Usable (b : Sector) : Prop :=
  (∀ v, Later b v → ∀ divisor, Divides v divisor → divisor ≠ 0) ∧ InOrder (mountedFs b)

/-- What `fat16_initialize` does not check. The last cluster ends within the 4 GiB that an
offset of 32 bits reaches. -/
def Sound (b : Sector) : Prop :=
  0 < sectorsPerClusterOf b ∧ 0 < reservedSectorsOf b ∧ 0 < sectorsPerFatOf b ∧ 16 ≤ rootDirEntries b ∧
    (mountedFs b).dataRegionLba + (0xFFF8 - 2) * sectorsPerClusterOf b ≤ 2 ^ 23

instance (b : Sector) : Decidable (Sound b) := inferInstanceAs (Decidable (_ ∧ _))

section
variable {b : Sector} {v w : Volume} {fuel n : Nat} {junk : HeapJunk}

/-! ## The geometry stays -/

theorem addDirEntry_fs {base : CString} {attr : UInt8} {cluster size : Nat}
    (added : addDirEntry v base attr cluster size = some w) : w.fs = v.fs := by
  unfold addDirEntry at added
  obtain ⟨start, -, rfl⟩ := Option.map_eq_some_iff.mp added
  rfl

theorem addedOr_fs (v : Volume) (base : CString) (attr : UInt8) (cluster size : Nat) :
    ((addDirEntry v base attr cluster size).getD v).fs = v.fs := by
  cases added : addDirEntry v base attr cluster size with
  | none => rfl
  | some w => exact addDirEntry_fs added

theorem freeChain_fs {c : Nat} (ran : freeChain fuel v c = some w) : w.fs = v.fs := by
  induction fuel generalizing v c with
  | zero => cases ran
  | succ fuel ih =>
    rw [freeChain] at ran
    split at ran
    · exact (ih ran).trans (setFatEntry_fs v c 0)
    · rw [Option.some.inj ran]

theorem createNew_fs (v : Volume) (base : CString) : (createNew v base).2.fs = v.fs := by
  have stored := storedDir_fs v
  rw [createNew_stages]
  generalize storedDir v = u at stored
  split
  · rfl
  · cases added : addDirEntry u base 0x10 (findFreeCluster v) 0 with
    | none => exact stored
    | some w => exact (addDirEntry_fs added).trans stored

theorem format_fs {maxSectors : Nat} {preserveSystem : Bool}
    (ran : fat16FormatDrive fuel junk v maxSectors preserveSystem = some w) : w.fs = v.fs := by
  unfold fat16FormatDrive at ran
  dsimp only at ran
  split at ran
  · rw [← Option.some.inj ran]
  · split at ran
    · cases ran
    · obtain ⟨flags, -, same⟩ := Option.map_eq_some_iff.mp ran
      generalize writeEmpty _ _ _ = d at same
      rw [← same]
      split
      · exact addedOr_fs _ _ _ _ _
      · rfl

/-- Nothing that is done to a volume changes the size of its clusters. -/
theorem cluster_kept (n : Nat) : KeptByChanges fun v => v.fs.sectorsPerCluster = n where
  moves := ⟨fun _ same => same, fun _ _ _ same => same⟩
  writes := by
    intro v w base data size same ran
    rw [(writeNew_stages ran).2, addedOr_fs, storedData_fs, same]
  creates := by
    intro v base same
    rw [createNew_fs, same]
  removes := by
    intro fuel v w visit same _ ran
    rw [freeChain_fs ran, same]

theorem initialize_accepted (accepted : Accepted (kdiskReadSector v.disk 0)) :
    fat16Initialize fuel junk v = some { v with fs := mountedFs (kdiskReadSector v.disk 0) } := by
  unfold fat16Initialize
  dsimp only
  rw [if_neg (by simp [accepted.1, accepted.2])]

theorem later_cluster (later : Later b v) : v.fs.sectorsPerCluster = sectorsPerClusterOf b := by
  induction later with
  | mounted boot accepted ran =>
    rw [initialize_accepted (boot ▸ accepted), boot] at ran
    rw [← Option.some.inj ran]
    rfl
  | call later used ran same =>
    refine use_keeps (cluster_kept _) (fun fuel junk v w maxSectors preserveSystem same formatted => ?_) same _ used ran
    rw [format_fs formatted, same]

/-! ## The parts of the volume -/

theorem sectorsPerClusterOf_lt (b : Sector) : sectorsPerClusterOf b < 2 ^ 8 := (b 13).toNat_lt

theorem dataRegion_low (accepted : Accepted b) : (mountedFs b).dataRegionLba < 2 ^ 19 := by
  have reserved : reservedSectorsOf b < 2 ^ 16 := readHalf_lt _ _
  have table : sectorsPerFatOf b < 2 ^ 16 := readHalf_lt _ _
  have entries : rootDirEntries b < 2 ^ 16 := readHalf_lt _ _
  unfold mountedFs
  rw [accepted.2]
  dsimp only
  omega

/-- The clusters' sector numbers, one after the other. -/
theorem addressed_iff (accepted : Accepted b) (lba : Nat) :
    (∃ c s, InChain c ∧ s < sectorsPerClusterOf b ∧ lba = clusterLba (mountedFs b) c + s) ↔
      (mountedFs b).dataRegionLba ≤ lba ∧
      lba < (mountedFs b).dataRegionLba + (0xFFF8 - 2) * sectorsPerClusterOf b := by
  have small := sectorsPerClusterOf_lt b
  have low := dataRegion_low accepted
  have first : ∀ c, InChain c → clusterLba (mountedFs b) c = (mountedFs b).dataRegionLba +
      (c - 2) * sectorsPerClusterOf b := by
    intro c chain
    have within : (c - 2) * sectorsPerClusterOf b ≤ 0xFFF6 * 2 ^ 8 := Nat.mul_le_mul (by omega) (Nat.le_of_lt small)
    have size : (mountedFs b).sectorsPerCluster = sectorsPerClusterOf b := rfl
    unfold clusterLba
    rw [show c + 2 ^ 32 - 2 = c - 2 + 2 ^ 32 by omega, Nat.add_mul, size]
    generalize (c - 2) * sectorsPerClusterOf b = behind at within
    generalize sectorsPerClusterOf b = spc at small
    omega
  constructor
  · rintro ⟨c, s, chain, within, rfl⟩
    rw [first c chain]
    have last : (c - 2 + 1) * sectorsPerClusterOf b ≤ (0xFFF8 - 2) * sectorsPerClusterOf b :=
      Nat.mul_le_mul_right _ (by omega)
    rw [Nat.succ_mul] at last
    omega
  · rintro ⟨above, below⟩
    obtain ⟨offset, rfl⟩ := Nat.exists_eq_add_of_le above
    have inside : offset < sectorsPerClusterOf b * (0xFFF8 - 2) := by
      rw [Nat.mul_comm]
      omega
    have some : 0 < sectorsPerClusterOf b := Nat.pos_of_ne_zero fun zero => by simp [zero] at inside
    have cluster : offset / sectorsPerClusterOf b < 0xFFF8 - 2 := Nat.div_lt_of_lt_mul inside
    have chain : InChain (offset / sectorsPerClusterOf b + 2) :=
      ⟨Nat.le_add_left 2 _, Nat.add_lt_add_right cluster 2⟩
    refine ⟨offset / sectorsPerClusterOf b + 2, offset % sectorsPerClusterOf b, chain, Nat.mod_lt _ some, ?_⟩
    rw [first _ chain, Nat.add_sub_cancel, Nat.add_assoc, Nat.mul_comm, Nat.div_add_mod]

theorem dataSectors_eq (accepted : Accepted b) : dataSectors (mountedFs b) =
    onDisk (mountedFs b).dataRegionLba ((0xFFF8 - 2) * sectorsPerClusterOf b) := by
  ext sector
  constructor
  · rintro ⟨c, i, chain, within, rfl⟩
    obtain ⟨above, below⟩ := (addressed_iff accepted _).mp ⟨c, i, chain, within, rfl⟩
    exact ⟨_, Nat.sub_lt_left_of_lt_add above below, by rw [Nat.add_sub_cancel' above]⟩
  · rintro ⟨i, within, rfl⟩
    obtain ⟨c, offset, chain, inside, same⟩ := (addressed_iff accepted ((mountedFs b).dataRegionLba + i)).mpr
      ⟨Nat.le_add_right _ _, Nat.add_lt_add_left within _⟩
    exact ⟨c, offset, chain, inside, by rw [same]⟩

theorem onDisk_eq {first count : Nat} (below : first + count ≤ 2 ^ 23) :
    onDisk first count = Set.Ico first (first + count) := by
  ext sector
  constructor
  · rintro ⟨i, within, rfl⟩
    rw [Nat.mod_eq_of_lt (by omega)]
    exact ⟨Nat.le_add_right _ _, Nat.add_lt_add_left within _⟩
  · rintro ⟨above, behind⟩
    exact ⟨sector - first, by omega, by omega⟩

theorem range_onDisk {first count : Nat} (some : 0 < count) (below : first + count ≤ 2 ^ 23) :
    NonemptyRange (onDisk first count) := ⟨first, first + count, Nat.lt_add_of_pos_right some, onDisk_eq below⟩

theorem range_pos {first count : Nat} (range : NonemptyRange (onDisk first count)) : 0 < count := by
  obtain ⟨start, behind, some, same⟩ := range
  have member : start ∈ onDisk first count := same ▸ ⟨le_rfl, some⟩
  obtain ⟨i, within, -⟩ := member
  exact Nat.zero_lt_of_lt within

theorem onDisk_before {first count start behind : Nat} (apart : first + count ≤ start)
    (below : start + behind ≤ 2 ^ 23) :
    ∀ s ∈ onDisk first count, ∀ t ∈ onDisk start behind, s < t := by
  rw [onDisk_eq (by omega), onDisk_eq below]
  exact fun s member t member' => lt_of_lt_of_le member.2 (apart.trans member'.1)

/-- A part behind sector 0 begins behind it, and does not reach the end of the numbers, where
they begin again with 0. -/
theorem behind_boot {first count : Nat} (small : first < 2 ^ 23) (some : 0 < count)
    (behind : ∀ s ∈ onDisk 0 1, ∀ t ∈ onDisk first count, s < t) : 0 < first ∧ first + count ≤ 2 ^ 23 := by
  have boot : 0 ∈ onDisk 0 1 := ⟨0, Nat.one_pos, rfl⟩
  constructor
  · exact behind 0 boot first ⟨0, some, (Nat.mod_eq_of_lt small).symm⟩
  · by_contra far
    exact absurd (behind 0 boot 0 ⟨2 ^ 23 - first, by omega, by rw [Nat.add_sub_cancel' small.le, Nat.mod_self]⟩)
      (Nat.lt_irrefl 0)

theorem inOrder_iff (accepted : Accepted b) : InOrder (mountedFs b) ↔ Sound b := by
  have low := dataRegion_low accepted
  have root : (mountedFs b).rootDirLba = reservedSectorsOf b + 2 * sectorsPerFatOf b := by
    unfold mountedFs
    rw [accepted.2]
  have behind : (mountedFs b).dataRegionLba = (mountedFs b).rootDirLba + rootDirEntries b * 32 / 512 := rfl
  have parts : areas (mountedFs b) = [onDisk 0 1, onDisk (reservedSectorsOf b) (sectorsPerFatOf b),
      onDisk (reservedSectorsOf b + sectorsPerFatOf b) (sectorsPerFatOf b),
      onDisk (mountedFs b).rootDirLba (rootDirEntries b * 32 / 512),
      onDisk (mountedFs b).dataRegionLba ((0xFFF8 - 2) * sectorsPerClusterOf b)] := by
    unfold areas
    rw [dataSectors_eq accepted]
    rfl
  unfold InOrder Sound
  rw [parts]
  simp only [List.forall_mem_cons, List.pairwise_cons, List.not_mem_nil, IsEmpty.forall_iff, implies_true, and_true,
    List.Pairwise.nil]
  constructor
  · rintro ⟨⟨-, table, -, entries, clusters⟩, ⟨bootTable, -, -, bootClusters⟩, -⟩
    have table := range_pos table
    have entries := range_pos entries
    have clusters := range_pos clusters
    have reserved := (behind_boot (by omega) table bootTable).1
    have ends := (behind_boot (by omega) clusters bootClusters).2
    exact ⟨by omega, reserved, table, by omega, ends⟩
  · rintro ⟨clusters, reserved, table, entries, ends⟩
    have some : 0 < (0xFFF8 - 2) * sectorsPerClusterOf b := Nat.mul_pos (by decide) clusters
    refine ⟨⟨range_onDisk (by omega) (by omega), range_onDisk (by omega) (by omega),
      range_onDisk (by omega) (by omega),
      range_onDisk (by omega) (by omega), range_onDisk some ends⟩, ⟨?_, ?_, ?_, ?_⟩, ⟨?_, ?_, ?_⟩,
      ⟨?_, ?_⟩, ?_⟩
    all_goals exact onDisk_before (by omega) (by omega)

end

/-- One reserved sector, two tables of one sector, 16 entries for the root directory and
no sectors in a cluster. -/
def clusterlessBoot : Sector :=
  writeHalf (writeHalf (writeByte (writeHalf (writeHalf (fun _ => 0) 11 512) 14 1) 16 2) 17 16) 22 1

def clusterlessVolume : Volume :=
  ⟨mountedFs clusterlessBoot, ⟨64, Function.update (fun _ _ => 0) 0 clusterlessBoot⟩⟩

end MeowMeowOS.MountedGeometry

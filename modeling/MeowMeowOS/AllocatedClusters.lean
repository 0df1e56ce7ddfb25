import MeowMeowOS.FormattedRuns
import MeowMeowOS.EmptyDirectories

/-! Clusters that the search for a free one hands out. The table is rounded up to
whole sectors and counts the whole disk, so it goes on behind the last cluster
there is; the search does not know where the disk ends. -/
namespace MeowMeowOS.AllocatedClusters
open ByteMemory Fat16Disk Fat16Names Fat16Directory Fat16Paths Fat16Files Fat16Format
open VolumeRuns FormattedRuns

/-- All sectors of the cluster are below the number of sectors of the disk, and
its number is not one of the reserved ones. -/
structure OnDisk (v : Volume) (c : Nat) : Prop where
  usable : 2 ≤ c ∧ c < 0xFFF0
  sectors : ∀ s < v.fs.sectorsPerCluster, v.fs.dataRegionLba + (c - 2) * v.fs.sectorsPerCluster + s < v.disk.total

/-- Entry `c` of the table is free. -/
structure Free (v : Volume) (c : Nat) : Prop where
  inTable : 2 ≤ c ∧ c < v.fs.sectorsPerFat * 256
  free : getFatEntry v c = 0

/-- What the search returns is a free cluster of the disk, if it returns one. -/
def AllocatesOnDisk (v : Volume) : Prop :=
  findFreeCluster v ≠ 0xFFFF → Free v (findFreeCluster v) ∧ OnDisk v (findFreeCluster v)

/-- A cluster of the disk is free, or no entry of the table is, or the lowest
free one is that of a number that ends in 0xFFFF. -/
def HasRoom (v : Volume) : Prop :=
  (∃ c, Free v c ∧ OnDisk v c) ∨ (∀ c, ¬ Free v c) ∨
    ∃ c, Free v c ∧ (∀ d < c, ¬ Free v d) ∧ c % 2 ^ 16 = 0xFFFF

section Search
variable {v : Volume} {c d : Nat}

/-- The search finds the lowest free entry and returns 16 bits of its number. -/
theorem findFreeCluster_lowest (v : Volume) : (findFreeCluster v = 0xFFFF ∧ ∀ c, ¬ Free v c) ∨
    ∃ c, Free v c ∧ (∀ d < c, ¬ Free v d) ∧ findFreeCluster v = c % 2 ^ 16 := by
  unfold findFreeCluster
  cases found : (List.range (v.fs.sectorsPerFat * 256)).find? fun c => 2 ≤ c ∧ tableEntry v c = 0 with
  | none =>
    refine Or.inl ⟨rfl, fun c free => ?_⟩
    have none := List.find?_eq_none.mp found c (List.mem_range.mpr free.inTable.2)
    rw [tableEntry_eq] at none
    simp [free.inTable.1, free.free] at none
  | some c =>
    obtain ⟨inside, member, earlier⟩ := List.find?_range_eq_some.mp found
    simp only [decide_eq_true_eq, tableEntry_eq] at inside
    refine Or.inr ⟨c, ⟨⟨inside.1, List.mem_range.mp member⟩, inside.2⟩, fun d below free => ?_, rfl⟩
    have taken := earlier d below
    simp [tableEntry_eq, free.inTable.1, free.free] at taken

theorem onDisk_le (onDisk : OnDisk v d) (first : 2 ≤ c) (le : c ≤ d) : OnDisk v c := by
  refine ⟨⟨first, Nat.lt_of_le_of_lt le onDisk.usable.2⟩, fun s small => ?_⟩
  have sectors := onDisk.sectors s small
  have lower : (c - 2) * v.fs.sectorsPerCluster ≤ (d - 2) * v.fs.sectorsPerCluster :=
    Nat.mul_le_mul_right _ (Nat.sub_le_sub_right le 2)
  omega

/-- The search returns a cluster of the disk exactly if there is one to return,
or if it returns none. -/
theorem allocates_iff (v : Volume) : AllocatesOnDisk v ↔ HasRoom v := by
  rcases findFreeCluster_lowest v with ⟨full, none⟩ | ⟨c, free, lowest, result⟩
  · exact iff_of_true (fun notFull => absurd full notFull) (Or.inr (Or.inl none))
  · constructor
    · intro allocates
      by_cases full : findFreeCluster v = 0xFFFF
      · exact Or.inr (Or.inr ⟨c, free, lowest, result ▸ full⟩)
      · exact Or.inl ⟨_, allocates full⟩
    · rintro (⟨d, freeD, onDisk⟩ | none | ⟨d, freeD, lowestD, last⟩) notFull
      · have le : c ≤ d := by
          apply Nat.le_of_not_lt
          intro less
          exact lowest d less freeD
        have small : c < 2 ^ 16 := by
          have := onDisk.usable.2
          omega
        rw [result, Nat.mod_eq_of_lt small]
        exact ⟨free, onDisk_le onDisk free.inTable.1 le⟩
      · exact absurd free (none c)
      · have same : c = d := by
          rcases Nat.lt_trichotomy c d with less | same | more
          · exact absurd free (lowestD c less)
          · exact same
          · exact absurd freeD (lowest d more)
        rw [result, same, last] at notFull
        exact absurd rfl notFull

end Search

/-- In every state, and so in every state of every run on a disk that was
formatted and mounted; there the numbers are those of a disk of `n` sectors. -/
theorem allocated_on_disk_iff (v : Volume) : (AllocatesOnDisk v ↔ HasRoom v) ∧
    (Reached v → ∃ n ≤ v.disk.total, v.fs.sectorsPerFat = fatSectorsFor n ∧
      v.fs.dataRegionLba = 288 + 2 * fatSectorsFor n ∧ v.fs.sectorsPerCluster = 32) := by
  refine ⟨allocates_iff v, fun reached => ?_⟩
  obtain ⟨n, le, layout⟩ := (reached_laid reached).layout
  obtain ⟨spf, -, -, data, spc, -, -⟩ := laidFor_fields layout
  exact ⟨n, le, spf, data, spc⟩

/-! ## A disk of one cluster -/

/-- A blank disk of 322 sectors: the last 32 are its only cluster. -/
def oneCluster : Volume := { EmptyDirectories.blankDisk with disk := ⟨322, fun _ _ => 0⟩ }

def zeroJunk : HeapJunk := ⟨fun _ => false, fun _ => 0⟩

def formatted : Option Volume := (fat16FormatDrive 1 zeroJunk oneCluster 0 false).bind (fat16Initialize 1 zeroJunk)

def oneFile : Option Volume := formatted.bind fun v => Call.run 1 v (.writeFile [0x41] emptyBuf 1)

theorem formatted_reached (found : formatted = some v) : Reached v := by
  obtain ⟨w, format, mount⟩ := Option.bind_eq_some_iff.mp found
  exact Reached.mounted (by decide) rfl format mount

theorem allocated_on_disk_iff_formatted : ∃ v, Reached v ∧ (AllocatesOnDisk v ↔ HasRoom v) ∧
    ∃ n ≤ v.disk.total, v.fs.sectorsPerFat = fatSectorsFor n ∧ v.fs.dataRegionLba = 288 + 2 * fatSectorsFor n ∧
      v.fs.sectorsPerCluster = 32 := by
  have runs : formatted.isSome = true := by decide +kernel
  obtain ⟨v, found⟩ := Option.isSome_iff_exists.mp runs
  have reached := formatted_reached found
  exact ⟨v, reached, (allocated_on_disk_iff v).1, (allocated_on_disk_iff v).2 reached⟩

/-- Once a file has taken it, the search returns cluster 3, whose sectors begin
where the disk ends. -/
theorem cluster_behind_disk : ∃ v, Reached v ∧ v.disk.total = 322 ∧ findFreeCluster v = 3 ∧
    v.fs.dataRegionLba + (3 - 2) * v.fs.sectorsPerCluster = 322 ∧ ¬ AllocatesOnDisk v := by
  have runs : oneFile.map (fun v => (v.disk.total, findFreeCluster v, v.fs.dataRegionLba, v.fs.sectorsPerCluster)) =
      some (322, 3, 290, 32) := by decide +kernel
  obtain ⟨v, found, fields⟩ := Option.map_eq_some_iff.mp runs
  simp only [Prod.mk.injEq] at fields
  obtain ⟨total, cluster, data, spc⟩ := fields
  obtain ⟨w, format, write⟩ := Option.bind_eq_some_iff.mp found
  refine ⟨v, Reached.call (formatted_reached format) write, total, cluster, by rw [data, spc], fun allocates => ?_⟩
  rw [AllocatesOnDisk, cluster] at allocates
  have inside := (allocates (by decide)).2.sectors 0 (by rw [spc]; decide)
  rw [data, spc, total] at inside
  exact absurd inside (by decide)

end MeowMeowOS.AllocatedClusters

import MeowMeowOS.ReadBounds

/-! What a read returns. The bytes of a file are those of its chain, one cluster
after the other, and a read hands over its part of them. -/
namespace MeowMeowOS.ReadContents
open ByteMemory Fat16Disk Fat16Names Fat16Directory Fat16Paths Fat16Files Fat16Vfs WalkedEntries ReadBounds

/-- A byte of the sectors from `lba` on. -/
def sectorByte (v : Volume) (lba x : Nat) : UInt8 := kdiskReadSector v.disk (lba + x / 512) (x % 512)

def clusterSize (v : Volume) : Nat := v.fs.sectorsPerCluster * 512

/-- A byte of the chain that begins at a cluster. -/
def chainByte (v : Volume) (c x : Nat) : UInt8 :=
  sectorByte v (clusterLba v.fs (linked v c (x / clusterSize v))) (x % clusterSize v)

/-- The first `n` bytes of a chain. -/
def chainBytes (v : Volume) (c n : Nat) : List UInt8 := (List.range n).map (chainByte v c)

section
variable {v : Volume} {c fuel lba n offset remaining s size want : Nat} {acc : List UInt8} {entry : Slot}

theorem map_range_add (f g : Nat → UInt8) (a b : Nat) :
    (List.range a).map f ++ (List.range b).map g = (List.range (a + b)).map fun i =>
    if i < a then f i else g (i - a) := by
  rw [List.range_add, List.map_append, List.map_map]
  congr 1
  · refine List.map_congr_left fun i member => ?_
    rw [if_pos (List.mem_range.mp member)]
  · refine List.map_congr_left fun i _ => ?_
    dsimp only [Function.comp]
    rw [if_neg (by omega), Nat.add_sub_cancel_left]

theorem map_range_window (f : Nat → UInt8) (n a k : Nat) : (((List.range n).map f).drop a).take k =
    (List.range (min k (n - a))).map fun i => f (a + i) := by
  refine List.ext_getElem (by simp) fun i first second => ?_
  simp

/-- A cluster gives its bytes behind the offset. -/
theorem readSectors_content (le : acc.length ≤ want) : (readSectors v lba want remaining s offset acc).2 =
    acc ++ (List.range (min (want - acc.length) (remaining * 512 - offset))).map fun i =>
    sectorByte v (lba + s) (offset + i) := by
  induction remaining generalizing s offset acc with
  | zero =>
    rw [readSectors, Nat.zero_mul, Nat.zero_sub, Nat.min_zero, List.range_zero, List.map_nil, List.append_nil]
  | succ remaining ih =>
    rw [readSectors]
    by_cases enough : want ≤ acc.length
    · rw [if_pos enough, Nat.sub_eq_zero_of_le enough, Nat.zero_min, List.range_zero, List.map_nil, List.append_nil]
    · rw [if_neg enough]
      by_cases skipped : 512 ≤ offset
      · rw [if_pos skipped, ih le, show remaining * 512 - (offset - 512) = (remaining + 1) * 512 - offset by omega]
        congr 1
        refine List.map_congr_left fun i _ => ?_
        unfold sectorByte
        rw [show lba + (s + 1) + (offset - 512 + i) / 512 = lba + s + (offset + i) / 512 by omega,
          show (offset - 512 + i) % 512 = (offset + i) % 512 by omega]
      · rw [if_neg skipped]
        dsimp only
        rw [ih (by rw [List.length_append, List.length_map, List.length_range]; omega), List.length_append,
          List.length_map,
          List.length_range, List.append_assoc, map_range_add]
        congr 1
        rw [show min (512 - offset) (want - acc.length) +
          min (want - (acc.length + min (512 - offset) (want - acc.length))) (remaining * 512 - 0) =
          min (want - acc.length) ((remaining + 1) * 512 - offset) by omega]
        refine List.map_congr_left fun i member => ?_
        have small := List.mem_range.mp member
        unfold sectorByte
        split
        · rw [show lba + s + (offset + i) / 512 = lba + s by omega, show (offset + i) % 512 = offset + i by omega]
        · rw [show lba + (s + 1) + (0 + (i - min (512 - offset) (want - acc.length))) / 512 =
            lba + s + (offset + i) / 512 by omega,
            show (0 + (i - min (512 - offset) (want - acc.length))) % 512 = (offset + i) % 512 by omega]

theorem linked_zero (v : Volume) (c : Nat) : linked v c 0 = c := rfl

theorem linked_succ (v : Volume) (c k : Nat) : linked v c (k + 1) = linked v (getFatEntry v c) k := rfl

/-- Behind its first cluster a chain is that of the next. -/
theorem chainByte_next (positive : 0 < clusterSize v) (behind : clusterSize v ≤ n) :
    chainByte v c n = chainByte v (getFatEntry v c) (n - clusterSize v) := by
  obtain ⟨x, rfl⟩ := Nat.exists_eq_add_of_le behind
  unfold chainByte
  rw [Nat.add_sub_cancel_left, Nat.add_div_left _ positive, Nat.add_mod_left, linked_succ]

theorem chainByte_first (inside : n < clusterSize v) : chainByte v c n = sectorByte v (clusterLba v.fs c) n := by
  unfold chainByte
  rw [Nat.div_eq_of_lt inside, Nat.mod_eq_of_lt inside, linked_zero]

theorem readClusters_content (le : acc.length ≤ want) (inside : offset < clusterSize v)
    (chain : ∀ k, k * clusterSize v < offset + (want - acc.length) → InChain (linked v c k))
    (enough : offset + (want - acc.length) ≤ fuel * clusterSize v) : readClusters v want (fuel + 1) c offset acc =
      some (acc ++ (List.range (want - acc.length)).map fun i => chainByte v c (offset + i)) := by
  have done {fuel c offset : Nat} {acc : List UInt8} (stop : want ≤ acc.length) :
      readClusters v want (fuel + 1) c offset acc = some acc := by
    rw [readClusters, if_neg (by omega)]
  induction fuel generalizing c offset acc with
  | zero =>
    have stop : want ≤ acc.length := by omega
    rw [done stop, Nat.sub_eq_zero_of_le stop, List.range_zero, List.map_nil, List.append_nil]
  | succ fuel ih =>
    by_cases stop : want ≤ acc.length
    · rw [done stop, Nat.sub_eq_zero_of_le stop, List.range_zero, List.map_nil, List.append_nil]
    · have content := @readSectors_content v (clusterLba v.fs c) offset v.fs.sectorsPerCluster 0 want acc le
      have used := @readSectors_offset v want offset acc v.fs.sectorsPerCluster (clusterLba v.fs c) 0 inside
      have first := chain 0 (by omega)
      rw [readClusters, if_pos ⟨first, by omega⟩]
      dsimp only
      have shape : (readSectors v (clusterLba v.fs c) want v.fs.sectorsPerCluster 0 offset acc).2 =
          acc ++ (List.range (min (want - acc.length) (clusterSize v - offset))).map fun i =>
            chainByte v c (offset + i) := by
        rw [Nat.add_zero] at content
        refine content.trans (congrArg (acc ++ ·) (List.map_congr_left fun i member => ?_))
        have small := List.mem_range.mp member
        rw [chainByte_first (by unfold clusterSize at *; omega)]
      generalize readSectors v (clusterLba v.fs c) want v.fs.sectorsPerCluster 0 offset acc = read at used shape ⊢
      obtain ⟨offset', acc'⟩ := read
      dsimp only at used shape ⊢
      have length := congrArg List.length shape
      rw [List.length_append, List.length_map, List.length_range] at length
      by_cases last : want - acc.length ≤ clusterSize v - offset
      · rw [Nat.min_eq_left last] at shape length
        rw [done (by omega), shape]
      · rw [Nat.min_eq_right (by omega)] at shape length
        obtain rfl := used (by omega)
        have chain' (k : Nat) (short : k * clusterSize v < 0 + (want - acc'.length)) :
            InChain (linked v (getFatEntry v c) k) := by
          rw [← linked_succ]
          refine chain (k + 1) ?_
          rw [Nat.succ_mul]
          omega
        rw [Nat.succ_mul] at enough
        rw [ih (by omega) (by omega) chain' (by omega), shape, List.append_assoc, map_range_add]
        rw [show clusterSize v - offset +
          (want - (acc ++ List.map (fun i => chainByte v c (offset +
            i)) (List.range (clusterSize v - offset))).length) =
          want - acc.length by rw [← shape]; omega]
        refine congrArg (fun tail => some (acc ++ tail)) (List.map_congr_left fun i _ => ?_)
        split
        · rfl
        · rw [chainByte_next (by omega) (show clusterSize v ≤ offset + i by omega)]
          congr 1
          omega

theorem chainByte_linked (positive : 0 < clusterSize v) (k : Nat) :
    chainByte v (linked v c k) n = chainByte v c (k * clusterSize v + n) := by
  unfold chainByte
  rw [Nat.mul_add_mod_self_right, Nat.mul_comm, Nat.mul_add_div positive]
  unfold linked
  rw [Nat.add_comm k, Function.iterate_add_apply]

/-- An entry whose chain is as long as its file. -/
def Held (v : Volume) (entry : Slot) : Prop :=
  0 < clusterSize v ∧ ∀ k, k * clusterSize v < fileSize entry → InChain (linked v (clusterLow entry) k)

/-- A read returns what is left of the file, or as much as is asked for. -/
theorem readEntry_content (fuel size : Nat) (held : Held v entry)
    (words : offset < fileSize entry → offset + size < 2 ^ 32)
    (enough : fileSize entry < fuel * clusterSize v) :
    readEntry (fuel + 1) v entry offset size =
    some (((chainBytes v (clusterLow entry) (fileSize entry)).drop offset).take size) := by
  obtain ⟨positive, long⟩ := held
  unfold chainBytes
  rw [map_range_window]
  unfold readEntry
  by_cases behind : fileSize entry ≤ offset
  · rw [if_pos behind, Nat.sub_eq_zero_of_le behind, Nat.min_zero, List.range_zero, List.map_nil]
  · have place := Nat.div_add_mod' offset (clusterSize v)
    have inside := Nat.mod_lt offset positive
    have want : (if fileSize entry < (offset + size) % 2 ^ 32 then fileSize entry - offset else size) =
        min size (fileSize entry - offset) := by
      rw [Nat.mod_eq_of_lt (words (by omega))]
      split <;> omega
    have nonzero : ¬ v.fs.sectorsPerCluster * 512 = 0 := Nat.ne_of_gt positive
    rw [if_neg behind]
    dsimp only
    rw [want, if_neg nonzero]
    rcases skipClusters_linked v (offset / clusterSize v) (clusterLow entry) with
      ⟨k, small, -, ended⟩ | ⟨reached, -⟩
    · have steps := Nat.mul_le_mul_right (clusterSize v) (Nat.le_of_lt small)
      exact absurd (long k (by omega)) ended
    · have start : skipClusters v (offset / (v.fs.sectorsPerCluster * 512)) (clusterLow entry) = _ := reached
      rw [start]
      change readClusters v _ (fuel + 1) _ (offset % clusterSize v) [] = _
      rw [readClusters_content (Nat.zero_le _) inside ?_ ?_]
      · rw [List.nil_append, List.length_nil, Nat.sub_zero]
        refine congrArg some (List.map_congr_left fun i _ => ?_)
        rw [chainByte_linked positive, ← Nat.add_assoc, place]
      · intro k short
        rw [List.length_nil] at short
        unfold linked
        rw [← Function.iterate_add_apply]
        refine long (k + offset / clusterSize v) ?_
        rw [Nat.add_mul]
        omega
      · rw [List.length_nil]
        omega

/-- A read through a node in the current directory. -/
theorem fat16VfsRead_content {node : FileNode} (plain : slash ∉ node.name)
    (found : findEntryInCurrentDir (fuel + 1) v node.name = some (some entry)) (held : Held v entry)
    (words : offset < fileSize entry → offset + size < 2 ^ 32) (enough : fileSize entry < fuel * clusterSize v) :
    fat16VfsRead (fuel + 1) v node offset size =
      some (((chainBytes v (clusterLow entry) (fileSize entry)).drop offset).take size, v) := by
  have entered : enterPath (fuel + 1) v node.name = some (v, node.name) := if_neg plain
  have left : leavePath (fuel + 1) node.name v.fs.currentPath v = some v := if_neg plain
  have read : readFound (fuel + 1) v (some entry) offset size =
      some (((chainBytes v (clusterLow entry) (fileSize entry)).drop offset).take size) :=
        readEntry_content _ _ held words enough
  unfold fat16VfsRead fat16ReadFile
  simp only [Option.bind_eq_bind, Option.bind_eq_some_iff, Prod.exists]
  exact ⟨v, node.name, entered, some entry, found, _, read, v, left, rfl⟩

end

end MeowMeowOS.ReadContents

import MeowMeowOS.MissingDirectories
import MeowMeowOS.Fat16Vfs
import MeowMeowOS.WalkedEntries

/-! How many bytes a read returns. The request is cut at the end of the file only
when offset and size do not wrap together; otherwise the length of the chain is
all that ends it. -/
namespace MeowMeowOS.ReadBounds
open ByteMemory Fat16Disk Fat16Names Fat16Directory Fat16Paths Fat16Files Fat16Vfs MissingDirectories
open WalkedEntries

/-- The clusters of the chain hold at most `n` bytes. -/
def ChainWithin (v : Volume) (c n : Nat) : Prop :=
  ∃ k, k * (v.fs.sectorsPerCluster * 512) ≤ n ∧ ¬ InChain (linked v c k)

section Clusters
variable {v : Volume} {fuel want c offset : Nat} {acc bytes : List UInt8}

/-- A cluster gives all its bytes behind the offset, or as many as are wanted. -/
theorem readSectors_count (le : acc.length ≤ want) (inside : offset ≤ remaining * 512) :
    (readSectors v lba want remaining s offset acc).2.length =
      min want (acc.length + (remaining * 512 - offset)) := by
  induction remaining generalizing s offset acc with
  | zero =>
    rw [readSectors]
    dsimp only
    omega
  | succ remaining ih =>
    rw [readSectors]
    split
    · dsimp only
      omega
    · split
      · rw [ih le (by omega)]
        omega
      · rw [ih (by rw [List.length_append, List.length_map, List.length_range]; omega) (Nat.zero_le _),
          List.length_append, List.length_map, List.length_range]
        omega

/-- The offset is used up in the cluster, unless enough is read. -/
theorem readSectors_offset (inside : offset < remaining * 512)
    (short : (readSectors v lba want remaining s offset acc).2.length < want) :
    (readSectors v lba want remaining s offset acc).1 = 0 := by
  induction remaining generalizing s offset acc with
  | zero => omega
  | succ remaining ih =>
    rw [readSectors] at short ⊢
    by_cases enough : want ≤ acc.length
    · rw [if_pos enough] at short
      dsimp only at short
      omega
    · rw [if_neg enough] at short ⊢
      by_cases skipped : 512 ≤ offset
      · rw [if_pos skipped] at short ⊢
        exact ih (by omega) short
      · rw [if_neg skipped] at short ⊢
        cases remaining with
        | zero => rfl
        | succ more => exact ih (by omega) short

theorem readSectors_le (v : Volume) (lba want remaining s offset : Nat) (acc : List UInt8) :
    (readSectors v lba want remaining s offset acc).1 ≤ offset := by
  induction remaining generalizing s offset acc with
  | zero => exact Nat.le_refl _
  | succ remaining ih =>
    rw [readSectors]
    split
    · exact Nat.le_refl _
    · split
      · exact Nat.le_trans (ih _ _ _) (Nat.sub_le _ _)
      · exact Nat.le_trans (ih _ _ _) (Nat.zero_le _)

/-- No more is read than the chain holds. -/
theorem readClusters_within (le : acc.length ≤ want) (inside : offset < v.fs.sectorsPerCluster * 512)
    (ended : ¬ InChain (linked v c k)) (ran : readClusters v want fuel c offset acc = some bytes) :
    bytes.length ≤ acc.length + (k * (v.fs.sectorsPerCluster * 512) - offset) := by
  induction fuel generalizing c offset acc k with
  | zero => cases ran
  | succ fuel ih =>
    rw [readClusters] at ran
    split at ran
    · rename_i goesOn
      cases k with
      | zero => exact absurd goesOn.1 ended
      | succ k =>
        have count := @readSectors_count v _ _ _ _ (clusterLba v.fs c) 0 le (Nat.le_of_lt inside)
        have lower := readSectors_le v (clusterLba v.fs c) want v.fs.sectorsPerCluster 0 offset acc
        dsimp only at ran
        have read := ih (k := k) (by omega) (Nat.lt_of_le_of_lt lower inside) ended ran
        rw [Nat.succ_mul]
        omega
    · cases ran
      exact Nat.le_add_right _ _

/-- Less than is wanted is read only at the end of the chain. -/
theorem readClusters_ended (le : acc.length ≤ want) (inside : offset < v.fs.sectorsPerCluster * 512)
    (ran : readClusters v want fuel c offset acc = some bytes) (short : bytes.length < want) :
    ∃ k, ¬ InChain (linked v c k) ∧
    acc.length + (k * (v.fs.sectorsPerCluster * 512) - offset) ≤ bytes.length := by
  induction fuel generalizing c offset acc with
  | zero => cases ran
  | succ fuel ih =>
    rw [readClusters] at ran
    split at ran
    · have count := @readSectors_count v _ _ _ _ (clusterLba v.fs c) 0 le (Nat.le_of_lt inside)
      have grown := readClusters_grows ran
      have used := @readSectors_offset v want _ acc _ (clusterLba v.fs c) 0 inside (by omega)
      dsimp only at ran
      rw [used] at ran
      obtain ⟨k, ended, held⟩ := ih (by omega) (by omega) ran
      refine ⟨k + 1, ended, ?_⟩
      rw [Nat.succ_mul]
      omega
    · rename_i stopped
      cases ran
      exact ⟨0, fun inChain => stopped ⟨inChain, short⟩, by omega⟩

theorem skipClusters_linked (v : Volume) (count c : Nat) :
    (∃ k < count, skipClusters v count c = none ∧ ¬ InChain (linked v c k)) ∨
      (skipClusters v count c = some (linked v c count) ∧ ∀ k < count, InChain (linked v c k)) := by
  induction count generalizing c with
  | zero => exact Or.inr ⟨rfl, nofun⟩
  | succ count ih =>
    rw [skipClusters]
    by_cases inChain : InChain c
    · rw [if_pos inChain]
      rcases ih (getFatEntry v c) with ⟨k, small, none, ended⟩ | ⟨reached, before⟩
      · exact Or.inl ⟨k + 1, Nat.succ_lt_succ small, none, ended⟩
      · refine Or.inr ⟨reached, fun k small => ?_⟩
        cases k with
        | zero => exact inChain
        | succ k => exact before k (Nat.lt_of_succ_lt_succ small)
    · rw [if_neg inChain]
      exact Or.inl ⟨0, Nat.succ_pos count, rfl, inChain⟩

end Clusters

section Bounds
variable {v dir : Volume} {fuel offset size : Nat} {bytes : List UInt8}

/-- With a request that wraps, the chain alone bounds what is read. -/
theorem readEntry_wrapped (small : offset < 2 ^ 32 ∧ size < 2 ^ 32) (wraps : 2 ^ 32 ≤ offset + size)
    (before : offset < fileSize entry) (ran : readEntry fuel v entry offset size = some bytes) :
    bytes.length ≤ fileSize entry - offset ↔ ChainWithin v (clusterLow entry) (fileSize entry) := by
  have fileSmall : fileSize entry < 2 ^ 32 := readWord_lt _ _
  have wrapped : ¬ fileSize entry < (offset + size) % 2 ^ 32 := by
    rw [Nat.mod_eq_sub_mod wraps, Nat.mod_eq_of_lt (by omega)]
    omega
  unfold readEntry at ran
  rw [if_neg (by omega), if_neg wrapped] at ran
  dsimp only at ran
  unfold ChainWithin
  generalize bytesPer : v.fs.sectorsPerCluster * 512 = bpc at ran ⊢
  split at ran
  · cases ran
  · rename_i wide
    have inside := Nat.mod_lt offset (Nat.pos_of_ne_zero wide)
    have whole := Nat.div_add_mod' offset bpc
    rcases skipClusters_linked v (offset / bpc) (clusterLow entry) with
      ⟨k, early, none, ended⟩ | ⟨reached, front⟩
    · rw [none] at ran
      cases ran
      have upTo := Nat.mul_le_mul_right bpc (Nat.le_of_lt early)
      exact iff_of_true (Nat.zero_le _) ⟨k, by omega, ended⟩
    · rw [reached] at ran
      dsimp only at ran
      have shift (k : Nat) : linked v (linked v (clusterLow entry) (offset / bpc)) k =
          linked v (clusterLow entry) (k + offset / bpc) := (Function.iterate_add_apply _ _ _ _).symm
      constructor
      · intro fits
        obtain ⟨k, ended, held⟩ :=
          readClusters_ended (Nat.zero_le size) (by rw [bytesPer]; exact inside) ran (by omega)
        rw [shift] at ended
        rw [bytesPer, List.length_nil] at held
        refine ⟨k + offset / bpc, ?_, ended⟩
        rw [Nat.add_mul]
        omega
      · rintro ⟨k, upTo, ended⟩
        have behind : offset / bpc ≤ k := by
          apply Nat.le_of_not_lt
          intro less
          exact ended (front k less)
        obtain ⟨more, rfl⟩ := Nat.exists_eq_add_of_le' behind
        rw [← shift] at ended
        have read := readClusters_within (Nat.zero_le size) (by rw [bytesPer]; exact inside) ended ran
        rw [bytesPer, List.length_nil] at read
        rw [Nat.add_mul] at upTo
        omega

/-- A read stays inside the file exactly if offset and size do not wrap, the
offset is behind the file, or the chain ends with it. -/
theorem read_within_iff (small : offset < 2 ^ 32 ∧ size < 2 ^ 32)
    (entered : enterPath fuel v filename = some (dir, base))
    (found : findEntryInCurrentDir fuel dir base = some (some entry))
    (ran : fat16ReadFile fuel v filename offset size = some (bytes, left)) :
    bytes.length ≤ min size (fileSize entry - offset) ↔
      offset + size < 2 ^ 32 ∨ fileSize entry ≤ offset ∨
        ChainWithin dir (clusterLow entry) (fileSize entry) := by
  have read : readEntry fuel dir entry offset size = some bytes := by
    simp only [fat16ReadFile, Option.bind_eq_bind, Option.bind_eq_some_iff, Prod.exists] at ran
    obtain ⟨dir', base', prologue, answer, lookup, copied, copy, _, -, result⟩ := ran
    simp only [Option.pure_def, Option.some.injEq, Prod.mk.injEq] at result
    obtain ⟨rfl, -⟩ := result
    rw [entered, Option.some.injEq, Prod.mk.injEq] at prologue
    obtain ⟨rfl, rfl⟩ := prologue
    rw [found, Option.some.injEq] at lookup
    subst lookup
    exact copy
  have asked := readEntry_length read
  by_cases behind : fileSize entry ≤ offset
  · have nothing : bytes = [] := by
      rw [readEntry, if_pos behind] at read
      exact (Option.some.inj read).symm
    rw [nothing]
    exact iff_of_true (Nat.zero_le _) (Or.inr (Or.inl behind))
  · by_cases wraps : 2 ^ 32 ≤ offset + size
    · rw [Nat.le_min, readEntry_wrapped small wraps (by omega) read]
      constructor
      · exact fun both => Or.inr (Or.inr both.2)
      · rintro (fits | none | ended)
        · exact absurd fits (by omega)
        · exact absurd none behind
        · exact ⟨asked, ended⟩
    · have fits : offset + size < 2 ^ 32 := by omega
      refine iff_of_true ?_ (Or.inl fits)
      unfold readEntry at read
      rw [if_neg behind, Nat.mod_eq_of_lt fits] at read
      dsimp only at read
      have want : (if fileSize entry < offset + size then fileSize entry - offset else size) =
          min size (fileSize entry - offset) := by
        split <;> omega
      rw [want] at read
      split at read
      · cases read
      · split at read
        · cases read
          exact Nat.zero_le _
        · exact readClusters_length (Nat.zero_le _) read

end Bounds

/-! ## A file of 5 bytes in a cluster of 512 -/

def smallClusters : Volume := { twoEntries with fs := { twoEntries.fs with sectorsPerCluster := 1 } }

theorem smallClusters_file : ∃ entry, findEntryInCurrentDir 3 smallClusters [0x41] = some (some entry) ∧
    fileSize entry = 5 ∧ clusterLow entry = 2 := by
  have lookup : (findEntryInCurrentDir 3 smallClusters [0x41]).map
      (·.map fun e => (fileSize e, clusterLow e)) = some (some (5, 2)) := by decide +kernel
  obtain ⟨found, answer, isSome⟩ := Option.map_eq_some_iff.mp lookup
  obtain ⟨entry, rfl, fields⟩ := Option.map_eq_some_iff.mp isSome
  exact ⟨entry, answer, congrArg Prod.fst fields, congrArg Prod.snd fields⟩

theorem read_within_iff_smallClusters :
    ∃ bytes left, fat16ReadFile 3 smallClusters [0x41] 1 9 = some (bytes, left) ∧
    bytes.length ≤ 4 := by
  obtain ⟨entry, found, size, -⟩ := smallClusters_file
  have reads : (fat16ReadFile 3 smallClusters [0x41] 1 9).isSome = true := by decide +kernel
  obtain ⟨⟨bytes, left⟩, ran⟩ := Option.isSome_iff_exists.mp reads
  have within := (read_within_iff ⟨by decide, by decide⟩ rfl found ran).mpr (Or.inl (by decide))
  rw [size] at within
  exact ⟨bytes, left, ran, within⟩

/-- A request for 2^32 - 1 bytes at offset 1 returns the 511 bytes up to the end
of the cluster. -/
theorem read_past_end :
    (findEntryInCurrentDir 3 smallClusters [0x41]).map (·.map fileSize) = some (some 5) ∧
      (fat16ReadFile 3 smallClusters [0x41] 1 (2 ^ 32 - 1)).map (·.1.length) = some 511 ∧
      ¬ 511 ≤ min (2 ^ 32 - 1) (5 - 1) := by
  refine ⟨?_, ?_, ?_⟩
  all_goals decide +kernel

end MeowMeowOS.ReadBounds

import Mathlib.Algebra.Group.Int.Defs
import Mathlib.Algebra.Group.Nat.Defs
import Mathlib.Data.Nat.Notation
import Mathlib.Tactic.Common

/-! `SYS_LSEEK` on a regular file, after any writes and seeks. The position is
computed in 64 bits and stored in 32, and the end is the length that the node
had when the file was opened. -/
namespace MeowMeowOS.SeekPositions

/-- A descriptor with the length of its node. -/
structure OpenFile where
  currentOffset : UInt32
  fileSize : UInt32
  length : UInt32
  deriving DecidableEq

/-- The descriptor that `SYS_OPEN` fills in. -/
def openFile (length : UInt32) : OpenFile := ⟨0, length, length⟩

/-- `fat16_vfs_write`, as far as it concerns the length. `granted` is false when
the heap has no room for the copy; a copy that is too short for the bytes is no
defined step. -/
def vfsWrite (file : OpenFile) (size : UInt32) (granted : Bool) : Option (OpenFile × UInt32) :=
  let newSize := if file.length < file.currentOffset + size then file.currentOffset + size else file.length
  if granted = false then some (file, 0)
  else if newSize.toNat < file.currentOffset.toNat + size.toNat then none
  else some ({ file with length := newSize }, size)

/-- `accepted` is the answer of the tests of pointer and access. -/
def sysWrite (file : OpenFile) (size : UInt32) (accepted granted : Bool) : Option (OpenFile × UInt32) :=
  if accepted = false then some (file, -1)
  else (vfsWrite file size granted).map fun (file, written) =>
    ({ file with currentOffset := file.currentOffset + written }, written)

def seekSet : UInt32 := 0
def seekCur : UInt32 := 1
def seekEnd : UInt32 := 2

/-- The cast of an `int64_t` that is not negative to `uint32_t`. -/
def lowWord (n : Int) : UInt32 := UInt32.ofNat n.toNat

/-- The end of `SYS_LSEEK`. -/
def storeOffset (file : OpenFile) (newOff : Int) : OpenFile × UInt32 :=
  if newOff < 0 then (file, -1) else ({ file with currentOffset := lowWord newOff }, lowWord newOff)

/-- `ecx` holds the offset as an `int32_t`. -/
def sysLseek (file : OpenFile) (ecx : BitVec 32) (whence : UInt32) : OpenFile × UInt32 :=
  let offset := ecx.toInt
  if whence = seekSet then storeOffset file offset
  else if whence = seekCur then storeOffset file (file.currentOffset.toNat + offset)
  else if whence = seekEnd then storeOffset file (file.fileSize.toNat + offset)
  else (file, -1)

/-! ## Exact positions -/

/-- The call fails and leaves the position, or puts it at `target`. -/
def Lands (file : OpenFile) (reply : OpenFile × UInt32) (target : Int) : Prop :=
  (reply.2 = -1 ∧ reply.1.currentOffset = file.currentOffset) ∨
    0 ≤ target ∧ target < 2 ^ 32 - 1 ∧ reply.1.currentOffset.toNat = target ∧ reply.2.toNat = target

/-- The position counts from the beginning, from where it was, or from the end of
the file as it is now; from nowhere else. -/
def Exact (file : OpenFile) (ecx : BitVec 32) (whence : UInt32) : Prop :=
  if whence = seekSet then Lands file (sysLseek file ecx whence) ecx.toInt
  else if whence = seekCur then Lands file (sysLseek file ecx whence) (file.currentOffset.toNat + ecx.toInt)
  else if whence = seekEnd then Lands file (sysLseek file ecx whence) (file.length.toNat + ecx.toInt)
  else sysLseek file ecx whence = (file, -1)

/-- The sum is negative or stays below the largest value of 32 bits. That value
reads as a failure, which is right where it was the position before. -/
def Fits (file : OpenFile) (sum : Int) : Prop :=
  sum < 2 ^ 32 - 1 ∨ (sum = 2 ^ 32 - 1 ∧ file.currentOffset.toNat = 2 ^ 32 - 1)

/-- Sums from the position and from the end fit, and what counts as the end is
the end, unless the sum is negative or the largest value. -/
def Holds (file : OpenFile) (ecx : BitVec 32) (whence : UInt32) : Prop :=
  (whence = seekCur → Fits file (file.currentOffset.toNat + ecx.toInt)) ∧
    (whence = seekEnd → Fits file (file.fileSize.toNat + ecx.toInt) ∧
      (file.fileSize = file.length ∨ file.fileSize.toNat + ecx.toInt < 0 ∨
        file.fileSize.toNat + ecx.toInt = 2 ^ 32 - 1))

/-- The writes and seeks since the file was opened with such a length. -/
inductive History (opened : UInt32) : OpenFile → Prop
  | opens : History opened (openFile opened)
  | write (history : History opened file) (wrote : sysWrite file size accepted granted = some (after, eax)) :
      History opened after
  | seek (history : History opened file) (ecx : BitVec 32) (whence : UInt32) :
      History opened (sysLseek file ecx whence).1

section
variable {file after : OpenFile} {ecx : BitVec 32} {whence : UInt32}

theorem offset_bounds (ecx : BitVec 32) : -2 ^ 31 ≤ ecx.toInt ∧ ecx.toInt < 2 ^ 31 := by
  have low := BitVec.le_toInt ecx
  have high := BitVec.toInt_lt (x := ecx)
  exact ⟨low, high⟩

theorem lowWord_toNat (n : Int) : (lowWord n).toNat = n.toNat % 2 ^ 32 := UInt32.toNat_ofNat'

theorem lowWord_eq (n : Int) (word : UInt32) : lowWord n = word ↔ n.toNat % 2 ^ 32 = word.toNat := by
  rw [← UInt32.toNat_inj, lowWord_toNat]

/-- Where a sum leads that differs from the target by less than 2^32. -/
theorem storeOffset_lands (file : OpenFile) (sum target : Int) (small : sum < 2 ^ 32 + 2 ^ 31)
    (above : sum - target < 2 ^ 32) : Lands file (storeOffset file sum) target ↔
      sum < 0 ∨ (sum = 2 ^ 32 - 1 ∧ file.currentOffset.toNat = 2 ^ 32 - 1) ∨
      (sum = target ∧ sum < 2 ^ 32 - 1) := by
  have minusOne : (-1 : UInt32).toNat = 2 ^ 32 - 1 := by decide
  unfold Lands storeOffset
  by_cases negative : sum < 0
  · rw [if_pos negative]
    exact iff_of_true (Or.inl ⟨rfl, rfl⟩) (Or.inl negative)
  · rw [if_neg negative]
    dsimp only
    rw [lowWord_eq, lowWord_eq, lowWord_toNat, minusOne]
    constructor
    · rintro (⟨failure, same⟩ | ⟨positive, below, stored, -⟩)
      · exact Or.inr (Or.inl ⟨by omega, by omega⟩)
      · exact Or.inr (Or.inr ⟨by omega, by omega⟩)
    · rintro (absurdly | ⟨largest, same⟩ | ⟨rfl, below⟩)
      · exact absurd absurdly negative
      · exact Or.inl ⟨by omega, by omega⟩
      · exact Or.inr ⟨by omega, below, by omega, by omega⟩

/-- In every state of a descriptor. -/
theorem exact_iff (file : OpenFile) (ecx : BitVec 32) (whence : UInt32) :
    Exact file ecx whence ↔ Holds file ecx whence := by
  obtain ⟨low, high⟩ := offset_bounds ecx
  have offset := file.currentOffset.toNat_lt
  have size := file.fileSize.toNat_lt
  have length := file.length.toNat_lt
  unfold Exact Holds Fits sysLseek
  by_cases set : whence = seekSet
  · subst set
    rw [if_pos rfl, if_pos rfl, storeOffset_lands _ _ _ (by omega) (by omega)]
    refine iff_of_true ?_ ⟨nofun, nofun⟩
    omega
  · rw [if_neg set, if_neg set]
    by_cases cur : whence = seekCur
    · subst cur
      rw [if_pos rfl, if_pos rfl, storeOffset_lands _ _ _ (by omega) (by omega)]
      constructor
      · intro lands
        refine ⟨fun _ => ?_, nofun⟩
        omega
      · rintro ⟨fits, -⟩
        have fits := fits rfl
        omega
    · rw [if_neg cur, if_neg cur]
      by_cases fromEnd : whence = seekEnd
      · subst fromEnd
        rw [if_pos rfl, if_pos rfl, storeOffset_lands _ _ _ (by omega) (by omega),
          ← UInt32.toNat_inj (a := file.fileSize)]
        constructor
        · intro lands
          refine ⟨nofun, fun _ => ?_⟩
          omega
        · rintro ⟨-, fits⟩
          have fits := fits rfl
          omega
      · rw [if_neg fromEnd, if_neg fromEnd]
        exact iff_of_true rfl ⟨fun held => absurd held cur, fun held => absurd held fromEnd⟩

theorem sysLseek_kept (file : OpenFile) (ecx : BitVec 32) (whence : UInt32) :
    (sysLseek file ecx whence).1.fileSize = file.fileSize ∧ (sysLseek file ecx whence).1.length = file.length := by
  have stored : ∀ n, (storeOffset file n).1.fileSize = file.fileSize ∧
    (storeOffset file n).1.length = file.length := by
    intro n
    unfold storeOffset
    split <;> exact ⟨rfl, rfl⟩
  unfold sysLseek
  dsimp only
  split
  · exact stored _
  · split
    · exact stored _
    · split
      · exact stored _
      · exact ⟨rfl, rfl⟩

theorem sysWrite_kept (wrote : sysWrite file size accepted granted = some (after, eax)) :
    after.fileSize = file.fileSize ∧ file.length.toNat ≤ after.length.toNat := by
  unfold sysWrite at wrote
  split at wrote
  · cases wrote
    exact ⟨rfl, Nat.le_refl _⟩
  · obtain ⟨⟨next, written⟩, writes, same⟩ := Option.map_eq_some_iff.mp wrote
    cases same
    unfold vfsWrite at writes
    dsimp only at writes
    split at writes
    · cases writes
      exact ⟨rfl, Nat.le_refl _⟩
    · generalize stored : (if file.length < file.currentOffset + size then file.currentOffset + size
        else file.length) = newSize at writes
      split at writes
      · cases writes
      · cases writes
        refine ⟨rfl, ?_⟩
        dsimp only
        rw [← stored]
        split
        · rename_i longer
          exact Nat.le_of_lt (UInt32.lt_iff_toNat_lt.mp longer)
        · exact Nat.le_refl _

/-- What counts as the end stays where it was at first; the file only grows. -/
theorem history_kept (history : History opened file) :
    file.fileSize = opened ∧ opened.toNat ≤ file.length.toNat := by
  induction history with
  | opens => exact ⟨rfl, Nat.le_refl _⟩
  | write _ wrote ih =>
    obtain ⟨size, grows⟩ := sysWrite_kept wrote
    exact ⟨size.trans ih.1, Nat.le_trans ih.2 grows⟩
  | @seek before _ ecx whence ih =>
    obtain ⟨size, length⟩ := sysLseek_kept before ecx whence
    rw [size, length]
    exact ih

/-- A seek is exact after a history exactly if its sum fits, counted from the end
at which the file was opened, and that is still the end. -/
theorem lseek_exact_iff (history : History opened file) (ecx : BitVec 32) (whence : UInt32) :
    Exact file ecx whence ↔ (whence = seekCur → Fits file (file.currentOffset.toNat + ecx.toInt)) ∧
      (whence = seekEnd → Fits file (opened.toNat + ecx.toInt) ∧
        (file.length = opened ∨ opened.toNat + ecx.toInt < 0 ∨ opened.toNat + ecx.toInt = 2 ^ 32 - 1)) := by
  rw [exact_iff, Holds, (history_kept history).1, eq_comm (a := opened)]

end

/-- Two of five bytes are overwritten, one is skipped, and then the position is
counted from the end and from where it is. -/
theorem lseek_exact_iff_written : History 5 ⟨3, 5, 5⟩ ∧ Exact ⟨3, 5, 5⟩ (-2) seekEnd ∧
    Exact ⟨3, 5, 5⟩ 4 seekCur := by
  have wrote : sysWrite (openFile 5) 2 true true = some (⟨2, 5, 5⟩, 2) := by decide
  have history : History 5 ⟨3, 5, 5⟩ := .seek (.write .opens wrote) 1 seekCur
  refine ⟨history, ?_, ?_⟩
  · exact (lseek_exact_iff history (-2) seekEnd).mpr ⟨nofun, fun _ => ⟨Or.inl (by decide), Or.inl rfl⟩⟩
  · exact (lseek_exact_iff history 4 seekCur).mpr ⟨fun _ => Or.inl (by decide), nofun⟩

/-- A file of 5 bytes is overwritten with 10; its end is then still taken to be
at 5. -/
theorem end_is_stale : History 5 ⟨10, 5, 10⟩ ∧ sysLseek ⟨10, 5, 10⟩ 0 seekEnd = (⟨5, 5, 10⟩, 5) ∧
    ¬ Exact ⟨10, 5, 10⟩ 0 seekEnd := by
  have wrote : sysWrite (openFile 5) 10 true true = some (⟨10, 5, 10⟩, 10) := by decide
  refine ⟨.write .opens wrote, by decide, fun exact => ?_⟩
  rcases exact with ⟨failed, -⟩ | ⟨-, -, position, -⟩
  · exact absurd failed (by decide)
  · exact absurd position (by decide)

end MeowMeowOS.SeekPositions

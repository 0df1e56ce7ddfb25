import MeowMeowOS.ByteMemory
import MeowMeowOS.RunSearch
import Mathlib.Data.Nat.Bitwise

/-! The frame allocator of `pmm.c`. Its bitmap is an array of words in the
very memory it manages, one bit for each frame, set when the frame is taken.
Frame addresses are products in `uint32_t`, so a block number of 2^20 or more
names a frame below 4 GiB again. -/
namespace MeowMeowOS.PhysicalFrames
open ByteMemory RunSearch

def pageSize : Nat := 4096

/-- The file's static variables over physical memory. `pmmBitmap` is the
address of the bitmap, 0 before it is set up. -/
structure PmmState where
  mem : Mem
  pmmBitmap : Nat
  pmmMaxBlocks : Nat

def bitmapWord (s : PmmState) (i : Nat) : Nat := readWord s.mem (s.pmmBitmap + 4 * i)

def setBitmapWord (s : PmmState) (i v : Nat) : PmmState :=
  { s with mem := writeWord s.mem (s.pmmBitmap + 4 * i) v }

def pmmBlockIsValid (s : PmmState) (block : Nat) : Bool :=
  s.pmmBitmap ≠ 0 ∧ block < s.pmmMaxBlocks

def pmmAddrIsValid (s : PmmState) (addr : Nat) : Bool :=
  s.pmmBitmap ≠ 0 ∧ addr % pageSize = 0 ∧ addr / pageSize < s.pmmMaxBlocks

def bitmapSet (s : PmmState) (bit : Nat) : PmmState :=
  if pmmBlockIsValid s bit then
    setBitmapWord s (bit / 32) (bitmapWord s (bit / 32) ||| 2 ^ (bit % 32))
  else s

def bitmapUnset (s : PmmState) (bit : Nat) : PmmState :=
  if pmmBlockIsValid s bit then
    setBitmapWord s (bit / 32) (bitmapWord s (bit / 32) &&& ((2 ^ 32 - 1) ^^^ 2 ^ (bit % 32)))
  else s

def bitmapTest (s : PmmState) (bit : Nat) : Bool :=
  pmmBlockIsValid s bit && (bitmapWord s (bit / 32)).testBit (bit % 32)

def pmmMarkFree (s : PmmState) (addr : Nat) : PmmState :=
  if pmmAddrIsValid s addr then bitmapUnset s (addr / pageSize) else s

def pmmMarkUsed (s : PmmState) (addr : Nat) : PmmState :=
  if pmmAddrIsValid s addr then bitmapSet s (addr / pageSize) else s

/-- `for (addr = first; addr < first + count * PAGE_SIZE; addr += PAGE_SIZE)` -/
def pmmMarkUsedPages (s : PmmState) (first count : Nat) : PmmState :=
  (List.range count).foldl (fun s i => pmmMarkUsed s (first + i * pageSize)) s

def pmmInitialize (s : PmmState) (memSize bitmapAddr : Nat) : PmmState :=
  if memSize < pageSize ∨ bitmapAddr = 0 then s else
    let maxBlocks := memSize / pageSize % 2 ^ 32
    let bitmapWords := (maxBlocks + 31) % 2 ^ 32 / 32
    let s := { s with pmmMaxBlocks := maxBlocks, pmmBitmap := bitmapAddr }
    let s := (List.range bitmapWords).foldl (fun s i => setBitmapWord s i 0xFFFFFFFF) s
    let s := pmmMarkUsedPages s 0 (0x300000 / pageSize)
    pmmMarkUsedPages s bitmapAddr ((bitmapWords * 4 + (pageSize - 1)) / pageSize)

/-- `mmap_entry_t`, without the ACPI field that nothing reads. -/
structure MmapEntry where
  base : Nat
  length : Nat
  type : Nat

/-- What the boot loader leaves at 0x9000. -/
structure MemoryMap where
  entryCount : Nat
  entries : Nat → MmapEntry

def endOfRegion (e : MmapEntry) : Nat := (e.base + e.length) % 2 ^ 64

def highestUsableAddr (map : MemoryMap) : Nat :=
  (List.range map.entryCount).foldl (fun highest i =>
    if (map.entries i).type = 1 ∧ highest < endOfRegion (map.entries i) then
      endOfRegion (map.entries i) else highest) 0

/-- `while (addr < end)`: the 64-bit address loses its upper half when the
page is marked. -/
def markRegion : Nat → PmmState → Nat → Nat → Option PmmState
  | 0, _, _, _ => none
  | fuel + 1, s, addr, stop =>
    if addr < stop then
      let s := if 0x300000 ≤ addr then pmmMarkFree s (addr % 2 ^ 32) else s
      markRegion fuel s ((addr + pageSize) % 2 ^ 64) stop
    else some s

def markRegions (fuel : Nat) (map : MemoryMap) (s : PmmState) : Nat → Option PmmState
  | 0 => some s
  | n + 1 =>
    match markRegions fuel map s n with
    | none => none
    | some s =>
      if (map.entries n).type = 1 then
        markRegion fuel s (map.entries n).base (endOfRegion (map.entries n))
      else some s

/-- The mode without a usable map manages the first 32 MiB. -/
def pmmInitializeSafeMode (s : PmmState) : PmmState :=
  (List.range ((0x2000000 - 0x300000) / pageSize)).foldl
    (fun s i => pmmMarkFree s (0x300000 + i * pageSize)) (pmmInitialize s (32 * 1024 * 1024) 0x200000)

def pmmInitializeFromMap (fuel : Nat) (map : MemoryMap) (s : PmmState) : Option PmmState :=
  if map.entryCount = 0xFFFFFFFF ∨ map.entryCount = 0 then some (pmmInitializeSafeMode s)
  else markRegions fuel map (pmmInitialize s (highestUsableAddr map) 0x200000) map.entryCount

/-- The first clear bit of a word that stands for a frame. -/
def clearBitOfWord (s : PmmState) (i : Nat) : Option Nat :=
  if bitmapWord s i ≠ 0xFFFFFFFF then
    ((List.range 32).find? fun j =>
      !(bitmapWord s i).testBit j && pmmBlockIsValid s (i * 32 + j)).map (i * 32 + ·)
  else none

/-- The result is an address, 0 for `NULL`. -/
def pmmAllocBlock (s : PmmState) : Nat × PmmState :=
  if s.pmmBitmap = 0 ∨ s.pmmMaxBlocks = 0 then (0, s) else
    match (List.range (s.pmmMaxBlocks / 32)).findSome? (clearBitOfWord s) with
    | none => (0, s)
    | some blockIndex => (blockIndex * pageSize % 2 ^ 32, bitmapSet s blockIndex)

/-- The scan for `count` consecutive clear bits. -/
def contiguousSearch (s : PmmState) (count : Nat) : Option Nat :=
  firstRun (fun i => bitmapTest s i = false) count s.pmmMaxBlocks 0 0 0

def pmmAllocContiguousBlocks (s : PmmState) (count : Nat) : Nat × PmmState :=
  if s.pmmBitmap = 0 ∨ s.pmmMaxBlocks = 0 ∨ count = 0 then (0, s) else
    match contiguousSearch s count with
    | none => (0, s)
    | some startBit => (startBit * pageSize % 2 ^ 32,
        (List.range count).foldl (fun s j => bitmapSet s (startBit + j)) s)

def pmmFreeBlock (s : PmmState) (ptr : Nat) : PmmState :=
  if ptr = 0 then s
  else if pmmAddrIsValid s ptr then bitmapUnset s (ptr / pageSize)
  else s

/-! ## Bits after a store into the bitmap -/

/-- The two states manage the same frames. -/
def SameFrames (s s' : PmmState) : Prop :=
  s'.pmmBitmap = s.pmmBitmap ∧ s'.pmmMaxBlocks = s.pmmMaxBlocks

theorem sameFrames_valid (same : SameFrames s s') (b : Nat) :
    pmmBlockIsValid s' b = pmmBlockIsValid s b := by
  simp only [pmmBlockIsValid, same.1, same.2]

theorem bitmapWord_setBitmapWord (s : PmmState) (i j v : Nat) :
    bitmapWord (setBitmapWord s i v) j = if j = i then v % 2 ^ 32 else bitmapWord s j := by
  by_cases same : j = i
  · subst same
    simp [bitmapWord, setBitmapWord]
  · rw [if_neg same]
    exact readWord_writeWord_apart _ _ _ _ (by dsimp only [setBitmapWord]; omega)

theorem bitmapSet_same (s : PmmState) (bit : Nat) : SameFrames s (bitmapSet s bit) := by
  unfold bitmapSet
  split <;> exact ⟨rfl, rfl⟩

theorem bitmapUnset_same (s : PmmState) (bit : Nat) : SameFrames s (bitmapUnset s bit) := by
  unfold bitmapUnset
  split <;> exact ⟨rfl, rfl⟩

/-- A bit of a 32-bit word that fits the word survives the truncation. -/
theorem testBit_word (v b : Nat) : (v % 2 ^ 32).testBit (b % 32) = v.testBit (b % 32) := by
  rw [Nat.testBit_mod_two_pow]
  simp [Nat.mod_lt]

theorem bit_split (ne : b ≠ bit) (word : b / 32 = bit / 32) : bit % 32 ≠ b % 32 := by omega

theorem bitmapTest_bitmapSet (s : PmmState) (bit b : Nat) :
    bitmapTest (bitmapSet s bit) b = (bitmapTest s b || (decide (b = bit) && pmmBlockIsValid s bit)) := by
  unfold bitmapTest
  rw [sameFrames_valid (bitmapSet_same s bit)]
  unfold bitmapSet
  by_cases valid : pmmBlockIsValid s bit = true
  · simp only [valid, ↓reduceIte, bitmapWord_setBitmapWord, Bool.and_true]
    by_cases word : b / 32 = bit / 32
    · rw [if_pos word, testBit_word, Nat.testBit_or, Nat.testBit_two_pow, word]
      by_cases same : b = bit
      · simp [same, valid]
      · simp [same, bit_split same word]
    · have : b ≠ bit := fun same => word (by rw [same])
      simp [word, this]
  · simp [valid]

theorem bitmapTest_bitmapUnset (s : PmmState) (bit b : Nat) :
    bitmapTest (bitmapUnset s bit) b = (bitmapTest s b && !decide (b = bit)) := by
  unfold bitmapTest
  rw [sameFrames_valid (bitmapUnset_same s bit)]
  unfold bitmapUnset
  by_cases valid : pmmBlockIsValid s bit = true
  · simp only [valid, ↓reduceIte, bitmapWord_setBitmapWord]
    by_cases word : b / 32 = bit / 32
    · rw [if_pos word, testBit_word, Nat.testBit_and, Nat.testBit_xor, Nat.testBit_two_pow,
        Nat.testBit_two_pow_sub_one, word]
      have small : b % 32 < 32 := Nat.mod_lt _ (by decide)
      by_cases same : b = bit
      · simp [same, Nat.mod_lt]
      · simp [same, bit_split same word, small]
    · have : b ≠ bit := fun same => word (by rw [same])
      simp [word, this]
  · by_cases same : b = bit
    · simp [same, valid]
    · simp [same, valid]

/-! ## What a call hands out -/

theorem valid_of_clearBit (valid : pmmBlockIsValid s b = true) :
    bitmapTest s b = (bitmapWord s (b / 32)).testBit (b % 32) := by
  simp [bitmapTest, valid]

/-- A block the word scan finds is clear. -/
theorem clearBitOfWord_clear (found : clearBitOfWord s i = some b) :
    pmmBlockIsValid s b = true ∧ bitmapTest s b = false := by
  unfold clearBitOfWord at found
  split at found
  · obtain ⟨j, hit, rfl⟩ := Option.map_eq_some_iff.mp found
    have small := List.mem_range.mp (List.mem_of_find?_eq_some hit)
    have clear := List.find?_some hit
    simp only [Bool.and_eq_true, Bool.not_eq_true'] at clear
    refine ⟨clear.2, ?_⟩
    rw [valid_of_clearBit clear.2, show (i * 32 + j) / 32 = i by omega,
      show (i * 32 + j) % 32 = j by omega]
    exact clear.1
  · cases found

/-- A block that is handed out was clear and is set afterwards; no other bit
changes. -/
theorem pmmAllocBlock_block (s : PmmState) :
    pmmAllocBlock s = (0, s) ∨
      ∃ b, pmmAllocBlock s = (b * pageSize % 2 ^ 32, bitmapSet s b) ∧
        pmmBlockIsValid s b = true ∧ bitmapTest s b = false := by
  unfold pmmAllocBlock
  split
  · exact Or.inl rfl
  · split
    · exact Or.inl rfl
    · rename_i b found
      obtain ⟨i, -, hit⟩ := List.exists_of_findSome?_eq_some found
      exact Or.inr ⟨b, rfl, clearBitOfWord_clear hit⟩

/-- Setting a run of bits. -/
theorem bitmapTest_setRun (s : PmmState) (start count b : Nat) :
    SameFrames s ((List.range count).foldl (fun s j => bitmapSet s (start + j)) s) ∧
      bitmapTest ((List.range count).foldl (fun s j => bitmapSet s (start + j)) s) b =
        (bitmapTest s b || (decide (start ≤ b ∧ b < start + count) && pmmBlockIsValid s b)) := by
  induction count with
  | zero =>
    refine ⟨⟨rfl, rfl⟩, ?_⟩
    simp
  | succ count ih =>
    obtain ⟨same, bits⟩ := ih
    rw [List.range_succ, List.foldl_append]
    refine ⟨?_, ?_⟩
    · have := bitmapSet_same ((List.range count).foldl (fun s j => bitmapSet s (start + j)) s) (start + count)
      exact ⟨this.1.trans same.1, this.2.trans same.2⟩
    · simp only [List.foldl_cons, List.foldl_nil, bitmapTest_bitmapSet, bits, sameFrames_valid same]
      by_cases last : b = start + count
      · subst last
        simp
      · have : (start ≤ b ∧ b < start + (count + 1)) ↔ start ≤ b ∧ b < start + count := by omega
        simp [last, this]

theorem pmmAllocContiguousBlocks_blocks (s : PmmState) (count : Nat) :
    pmmAllocContiguousBlocks s count = (0, s) ∨
      ∃ start, pmmAllocContiguousBlocks s count = (start * pageSize % 2 ^ 32,
          (List.range count).foldl (fun s j => bitmapSet s (start + j)) s) ∧
        start + count ≤ s.pmmMaxBlocks ∧ ∀ j < count, bitmapTest s (start + j) = false := by
  unfold pmmAllocContiguousBlocks
  split
  · exact Or.inl rfl
  · split
    · exact Or.inl rfl
    · rename_i start found
      obtain ⟨fits, clear⟩ := firstRun_free (by omega) (by omega) found
      exact Or.inr ⟨start, rfl, by omega, fun j small => by simpa using clear j small⟩

/-- One clear block is found at the lowest clear bit. -/
theorem contiguousSearch_one (small : b < s.pmmMaxBlocks) (clear : bitmapTest s b = false) :
    ∃ d, contiguousSearch s 1 = some d ∧ d < s.pmmMaxBlocks ∧ bitmapTest s d = false ∧
      ∀ c < d, bitmapTest s c = true := by
  have ahead : ∃ c, 0 ≤ c ∧ c < 0 + s.pmmMaxBlocks ∧
      (fun i => decide (bitmapTest s i = false)) c = true :=
    ⟨b, Nat.zero_le b, by omega, by simpa using clear⟩
  obtain ⟨d, found, -, inRange, clearD, lowest⟩ := firstRun_one 0 ahead
  exact ⟨d, found, by omega, by simpa using clearD,
    fun c below => by simpa using lowest c (Nat.zero_le c) below⟩

end MeowMeowOS.PhysicalFrames

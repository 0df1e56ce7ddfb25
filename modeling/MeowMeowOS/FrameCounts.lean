import MeowMeowOS.FreeFrames
import Mathlib.Data.List.Count

/-! Three readers of one bitmap: the two allocators and `pmm_get_memory_info`.
The word scan of `pmm_alloc_block` and the count leave the last word out when
it is incomplete; the bit scan of `pmm_alloc_contiguous_blocks` does not. -/
namespace MeowMeowOS.FrameCounts
open ByteMemory PhysicalFrames BootFrames FreeFrames

/-! ## One block from either allocator -/

/-- A free block in the last, incomplete word is not the only one. -/
def ScanCovers (s : PmmState) : Prop :=
  ∀ b, pmmBlockIsValid s b = true → bitmapTest s b = false → ∃ c < s.pmmMaxBlocks / 32 * 32,
    bitmapTest s c = false

section
variable {s : PmmState} {b n : Nat} {rest : List Nat}

theorem contiguous_one (found : contiguousSearch s 1 = some b) (bitmap : s.pmmBitmap ≠ 0)
    (blocks : s.pmmMaxBlocks ≠ 0) :
    pmmAllocContiguousBlocks s 1 = (b * pageSize % 2 ^ 32, bitmapSet s b) := by
  have set : ¬ (s.pmmBitmap = 0 ∨ s.pmmMaxBlocks = 0 ∨ 1 = 0) := by omega
  unfold pmmAllocContiguousBlocks
  rw [if_neg set, found]
  rfl

/-- The allocators differ exactly where only the last word has a free block. -/
theorem allocators_agree_iff (s : PmmState) : pmmAllocContiguousBlocks s 1 = pmmAllocBlock s ↔ ScanCovers s := by
  by_cases set : s.pmmBitmap = 0 ∨ s.pmmMaxBlocks = 0
  · have either : s.pmmBitmap = 0 ∨ s.pmmMaxBlocks = 0 ∨ 1 = 0 := by omega
    have invalid (b : Nat) : ¬ pmmBlockIsValid s b = true := by
      simp only [pmmBlockIsValid, decide_eq_true_eq]
      omega
    unfold pmmAllocContiguousBlocks pmmAllocBlock
    rw [if_pos set, if_pos either]
    exact ⟨fun _ b valid => absurd valid (invalid b), fun _ => rfl⟩
  · obtain ⟨bitmap, blocks⟩ := not_or.mp set
    have managed (b : Nat) : pmmBlockIsValid s b = true ↔ b < s.pmmMaxBlocks := by
      simp only [pmmBlockIsValid, decide_eq_true_eq]
      exact ⟨fun valid => valid.2, fun small => ⟨bitmap, small⟩⟩
    by_cases some : ∃ b < s.pmmMaxBlocks, bitmapTest s b = false
    · obtain ⟨b, small, clear⟩ := some
      obtain ⟨d, found, inside, clearD, lowest⟩ := contiguousSearch_one small clear
      rw [contiguous_one found bitmap blocks]
      by_cases scanned : d < s.pmmMaxBlocks / 32 * 32
      · obtain ⟨e, le, handed, -, clearE⟩ := pmmAllocBlock_lowest clearD ((managed d).mpr inside) (by omega)
        have first : e = d := by
          by_contra ne
          rw [lowest e (by omega)] at clearE
          cases clearE
        rw [handed, first]
        exact ⟨fun _ _ _ _ => ⟨d, scanned, clearD⟩, fun _ => rfl⟩
      · have none : freeBlocks s = [] := by
          apply List.eq_nil_iff_forall_not_mem.mpr
          intro c free
          obtain ⟨smallC, clearC⟩ := mem_freeBlocks.mp free
          rw [lowest c (by omega)] at clearC
          cases clearC
        rw [pmmAllocBlock_none none]
        constructor
        · intro same
          have bits := bitmapTest_bitmapSet s d d
          rw [(Prod.mk.inj same).2, clearD, (managed d).mpr inside, decide_eq_true rfl] at bits
          cases bits
        · intro covers
          obtain ⟨c, smallC, clearC⟩ := covers d ((managed d).mpr inside) clearD
          rw [lowest c (by omega)] at clearC
          cases clearC
    · have taken (b : Nat) (small : b < s.pmmMaxBlocks) : bitmapTest s b = true := by
        by_contra clear
        exact some ⟨b, small, Bool.eq_false_iff.mpr clear⟩
      have single : pmmAllocContiguousBlocks s 1 = (0, s) := by
        refine (pmmAllocContiguousBlocks_blocks s 1).resolve_right ?_
        rintro ⟨start, -, fits, clear⟩
        have := clear 0 (by decide)
        rw [Nat.add_zero, taken start (by omega)] at this
        cases this
      have general : pmmAllocBlock s = (0, s) := by
        refine pmmAllocBlock_none (List.eq_nil_iff_forall_not_mem.mpr fun c free => ?_)
        obtain ⟨smallC, clearC⟩ := mem_freeBlocks.mp free
        rw [taken c (by omega)] at clearC
        cases clearC
      rw [single, general]
      refine ⟨fun _ b valid clear => ?_, fun _ => rfl⟩
      rw [taken b ((managed b).mp valid)] at clear
      cases clear

end

/-- Blocks 0 to 31 are taken, block 32 is free. -/
def lastBlockFree : PmmState := ⟨writeWord (fun _ => 0) 0x200000 0xFFFFFFFF, 0x200000, 33⟩

theorem lastBlockFree_differs : pmmAllocContiguousBlocks lastBlockFree 1 ≠ pmmAllocBlock lastBlockFree := by
  intro same
  exact absurd (congrArg Prod.fst same) (by decide)

/-! ## The statistics -/

/-- The bits of a word that are set, with the two shortcuts. -/
def countWord (usedBlocks word : Nat) : Nat :=
  if word = 0 then usedBlocks
  else if word = 0xFFFFFFFF then usedBlocks + 32
  else (List.range 32).foldl (fun used j => if word.testBit j then used + 1 else used) usedBlocks

/-- `*total`, `*used` and `*free`. -/
def pmmGetMemoryInfo (s : PmmState) : Nat × Nat × Nat :=
  if s.pmmBitmap = 0 ∨ s.pmmMaxBlocks = 0 then (0, 0, 0)
  else
    let usedBlocks := (List.range (s.pmmMaxBlocks / 32)).foldl (fun used i => countWord used (bitmapWord s i)) 0
    let total := s.pmmMaxBlocks * pageSize % 2 ^ 32
    let used := usedBlocks * pageSize % 2 ^ 32
    (total, used, (total + 2 ^ 32 - used) % 2 ^ 32)

/-- The bits below `n` that are set. -/
def setBelow (s : PmmState) (n : Nat) : Nat := (List.range n).countP (bitmapTest s)

/-- How many of the next `n` calls hand out a frame. -/
def servedCalls : Nat → PmmState → Nat
  | 0, _ => 0
  | n + 1, s =>
    let (phys, s) := pmmAllocBlock s
    (if phys = 0 then 0 else 1) + servedCalls n s

/-- The numbers are those of the bitmap, and the free frames are as many as the
allocator still hands out. -/
structure Truthful (s : PmmState) : Prop where
  total : (pmmGetMemoryInfo s).1 = 4096 * s.pmmMaxBlocks
  used : (pmmGetMemoryInfo s).2.1 = 4096 * setBelow s s.pmmMaxBlocks
  free : (pmmGetMemoryInfo s).2.2 = (pmmGetMemoryInfo s).1 - (pmmGetMemoryInfo s).2.1
  most : ∀ n, servedCalls n s ≤ (pmmGetMemoryInfo s).2.2 / 4096
  reached : ∃ n, servedCalls n s = (pmmGetMemoryInfo s).2.2 / 4096

section
variable {s : PmmState} {b j n : Nat} {rest : List Nat}

theorem foldl_count (p : Nat → Bool) (l : List Nat) (used : Nat) :
    l.foldl (fun used j => if p j then used + 1 else used) used = used + l.countP p := by
  induction l generalizing used with
  | nil => rfl
  | cons j l ih =>
    rw [List.foldl_cons, ih, List.countP_cons]
    split <;> omega

/-- The shortcuts give what the loop over the bits gives. -/
theorem countWord_bits (used word : Nat) : countWord used word = used + (List.range 32).countP word.testBit := by
  unfold countWord
  split
  · rename_i zero
    subst zero
    rw [List.countP_eq_zero.mpr fun j _ => by simp]
    rfl
  · split
    · rename_i full
      subst full
      rfl
    · exact foldl_count _ _ _

theorem bit_word (bitmap : s.pmmBitmap ≠ 0) (inside : (n + 1) * 32 ≤ s.pmmMaxBlocks) (small : j < 32) :
    bitmapTest s (n * 32 + j) = (bitmapWord s n).testBit j := by
  have valid : pmmBlockIsValid s (n * 32 + j) = true := by
    simp only [pmmBlockIsValid, decide_eq_true_eq]
    omega
  have word : (n * 32 + j) / 32 = n := by omega
  have bit : (n * 32 + j) % 32 = j := by omega
  rw [valid_of_clearBit valid, word, bit]

theorem setBelow_add (s : PmmState) (n k : Nat) :
    setBelow s (n + k) = setBelow s n + (List.range k).countP fun j => bitmapTest s (n + j) := by
  unfold setBelow
  rw [List.range_add, List.countP_append, List.countP_map]
  rfl

theorem setBelow_word (bitmap : s.pmmBitmap ≠ 0) (inside : (n + 1) * 32 ≤ s.pmmMaxBlocks) :
    setBelow s ((n + 1) * 32) = setBelow s (n * 32) + (List.range 32).countP (bitmapWord s n).testBit := by
  have word : (List.range 32).countP (fun j => bitmapTest s (n * 32 + j)) =
      (List.range 32).countP (bitmapWord s n).testBit := by
    apply List.countP_congr
    intro j member
    exact iff_of_eq (congrArg (· = true) (bit_word bitmap inside (List.mem_range.mp member)))
  rw [Nat.succ_mul, setBelow_add, word]

theorem usedBlocks_eq (bitmap : s.pmmBitmap ≠ 0) (inside : n * 32 ≤ s.pmmMaxBlocks) :
    (List.range n).foldl (fun used i => countWord used (bitmapWord s i)) 0 = setBelow s (n * 32) := by
  induction n with
  | zero => rfl
  | succ n ih =>
    rw [List.range_succ, List.foldl_append, ih (by omega), setBelow_word bitmap inside, List.foldl_cons, List.foldl_nil,
      countWord_bits]

/-- Each block of a whole word is set or free. -/
theorem setBelow_free (s : PmmState) :
    setBelow s (s.pmmMaxBlocks / 32 * 32) + (freeBlocks s).length = s.pmmMaxBlocks / 32 * 32 := by
  have split := List.length_eq_countP_add_countP (bitmapTest s) (l := List.range (s.pmmMaxBlocks / 32 * 32))
  rw [List.length_range] at split
  unfold setBelow freeBlocks
  rw [← List.countP_eq_length_filter]
  have same : (List.range (s.pmmMaxBlocks / 32 * 32)).countP (fun b => decide (bitmapTest s b = false)) =
      (List.range (s.pmmMaxBlocks / 32 * 32)).countP fun b => decide ¬ bitmapTest s b = true :=
    List.countP_congr fun b _ => by simp
  omega

theorem bytes_of_blocks (small : n < 2 ^ 20) : n * 4096 % 2 ^ 32 = 4096 * n := by omega

theorem bytes_left {used free : Nat} (small : n < 2 ^ 20) (whole : used + free = n / 32 * 32) :
    (4096 * n + 2 ^ 32 - 4096 * used) % 2 ^ 32 = 4096 * (n % 32 + free) := by omega

theorem memoryInfo_eq (bitmap : s.pmmBitmap ≠ 0) (small : s.pmmMaxBlocks < 2 ^ 20) : pmmGetMemoryInfo s =
    (4096 * s.pmmMaxBlocks, 4096 * setBelow s (s.pmmMaxBlocks / 32 * 32),
      4096 * (s.pmmMaxBlocks % 32 + (freeBlocks s).length)) := by
  have whole := setBelow_free s
  unfold pmmGetMemoryInfo
  by_cases none : s.pmmMaxBlocks = 0
  · have used : setBelow s (s.pmmMaxBlocks / 32 * 32) = 0 := by omega
    have free : s.pmmMaxBlocks % 32 + (freeBlocks s).length = 0 := by omega
    rw [if_pos (.inr none), used, free, none]
  · rw [if_neg (not_or.mpr ⟨bitmap, none⟩), usedBlocks_eq bitmap (Nat.div_mul_le_self _ _)]
    dsimp only
    unfold pageSize
    rw [bytes_of_blocks small, bytes_of_blocks (by omega), bytes_left small whole]

/-! ## Calls until none is served -/

theorem servedCalls_none (none : freeBlocks s = []) : servedCalls n s = 0 := by
  induction n with
  | zero => rfl
  | succ n ih =>
    unfold servedCalls
    rw [pmmAllocBlock_none none]
    dsimp only
    rw [if_pos rfl, ih]

/-- Each call takes a free block, as long as there is one; only block 0 comes out
as a null pointer. -/
theorem servedCalls_min (bitmap : s.pmmBitmap ≠ 0) (small : s.pmmMaxBlocks < 2 ^ 20)
    (blockZero : 0 ∉ freeBlocks s) (n : Nat) :
    servedCalls n s = min n (freeBlocks s).length := by
  induction n generalizing s with
  | zero => exact (Nat.zero_min _).symm
  | succ n ih =>
    cases shape : freeBlocks s with
    | nil =>
      rw [servedCalls_none shape]
      rfl
    | cons b rest =>
      have free : b ∈ freeBlocks s := by simp [shape]
      have bound := (mem_freeBlocks.mp free).1
      have positive : b ≠ 0 := fun zero => blockZero (zero ▸ free)
      have address : ¬ b * pageSize % 2 ^ 32 = 0 := by
        unfold pageSize
        omega
      have same := bitmapSet_same s b
      have later := freeBlocks_rest bitmap shape
      have blockZero' : 0 ∉ freeBlocks (bitmapSet s b) := by
        rw [later]
        exact fun member => blockZero (shape ▸ List.mem_cons_of_mem b member)
      unfold servedCalls
      rw [pmmAllocBlock_takes bitmap shape]
      dsimp only
      rw [if_neg address, ih (same.1.symm ▸ bitmap) (same.2.symm ▸ small) blockZero', later, List.length_cons]
      omega

/-- Block 0 is taken like any other, but its address is null. -/
theorem servedCalls_zero (bitmap : s.pmmBitmap ≠ 0) (small : s.pmmMaxBlocks < 2 ^ 20)
    (shape : freeBlocks s = 0 :: rest)
    (n : Nat) : servedCalls (n + 1) s = min n rest.length := by
  have same := bitmapSet_same s 0
  have later := freeBlocks_rest bitmap shape
  have sorted := (List.pairwise_cons.mp (shape ▸ freeBlocks_sorted s)).1
  have blockZero : 0 ∉ freeBlocks (bitmapSet s 0) := by
    rw [later]
    exact fun member => absurd (sorted 0 member) (Nat.lt_irrefl 0)
  unfold servedCalls
  rw [pmmAllocBlock_takes bitmap shape]
  dsimp only
  rw [if_pos (by rw [Nat.zero_mul, Nat.zero_mod]),
    servedCalls_min (same.1.symm ▸ bitmap) (same.2.symm ▸ small) blockZero, later, Nat.zero_add]

/-- Where block 0 is free, one call fails that takes a block. -/
theorem servedCalls_le (bitmap : s.pmmBitmap ≠ 0) (small : s.pmmMaxBlocks < 2 ^ 20)
    (blockZero : 0 ∈ freeBlocks s) (n : Nat) :
    servedCalls n s + 1 ≤ (freeBlocks s).length := by
  cases shape : freeBlocks s with
  | nil => simp [shape] at blockZero
  | cons b rest =>
    have first : b = 0 := by
      rw [shape] at blockZero
      rcases List.mem_cons.mp blockZero with same | later
      · exact same.symm
      · exact absurd ((List.pairwise_cons.mp (shape ▸ freeBlocks_sorted s)).1 0 later) (Nat.not_lt_zero b)
    subst first
    rw [List.length_cons]
    cases n with
    | zero => simp [servedCalls]
    | succ n =>
      rw [servedCalls_zero bitmap small shape n]
      omega

/-! ## When the statistics are right -/

/-- Every word of the bitmap is whole, and block 0 is not handed out. -/
def WholeWords (s : PmmState) : Prop := s.pmmMaxBlocks % 32 = 0 ∧ (s.pmmMaxBlocks = 0 ∨ bitmapTest s 0 = true)

theorem memoryInfo_truthful_iff (bitmap : s.pmmBitmap ≠ 0) (small : s.pmmMaxBlocks < 2 ^ 20) :
    Truthful s ↔ WholeWords s := by
  have info := memoryInfo_eq bitmap small
  have whole := setBelow_free s
  have zero : 0 ∈ freeBlocks s ↔ 0 < s.pmmMaxBlocks / 32 * 32 ∧ bitmapTest s 0 = false := mem_freeBlocks
  have served (blockZero : 0 ∉ freeBlocks s) := servedCalls_min bitmap small blockZero
  constructor
  · rintro ⟨-, -, -, -, n, reached⟩
    rw [info] at reached
    dsimp only at reached
    rw [Nat.mul_div_cancel_left _ (by decide)] at reached
    by_cases blockZero : 0 ∈ freeBlocks s
    · have := servedCalls_le bitmap small blockZero n
      omega
    · rw [served blockZero n] at reached
      refine ⟨by omega, ?_⟩
      by_contra wrong
      obtain ⟨some, clear⟩ := not_or.mp wrong
      exact blockZero (zero.mpr ⟨by omega, Bool.eq_false_iff.mpr clear⟩)
  · rintro ⟨words, taken⟩
    have blocks : s.pmmMaxBlocks / 32 * 32 = s.pmmMaxBlocks := by omega
    have blockZero : 0 ∉ freeBlocks s := by
      intro free
      obtain ⟨some, clear⟩ := zero.mp free
      rw [taken.resolve_left (by omega)] at clear
      cases clear
    have free : 4096 * (s.pmmMaxBlocks % 32 + (freeBlocks s).length) / 4096 = (freeBlocks s).length := by omega
    constructor
    · rw [info]
    · rw [info, blocks]
    · rw [info]
      dsimp only
      omega
    · intro n
      rw [info]
      dsimp only
      rw [free, served blockZero n]
      exact Nat.min_le_right _ _
    · refine ⟨(freeBlocks s).length, ?_⟩
      rw [info]
      dsimp only
      rw [free, served blockZero, Nat.min_self]

end

/-- A bitmap of two words of which block 0 is taken. -/
theorem memoryInfo_truthful_iff_twoWords :
    Truthful ⟨writeWord (fun _ => 0) 0x200000 1, 0x200000, 64⟩ ↔
    WholeWords ⟨writeWord (fun _ => 0) 0x200000 1, 0x200000, 64⟩ :=
  memoryInfo_truthful_iff (by decide) (by decide)

/-- The free block of the last word is counted and never handed out. -/
theorem lastBlockFree_miscounted : ¬ Truthful lastBlockFree := by
  rintro ⟨-, -, -, -, n, reached⟩
  have none : freeBlocks lastBlockFree = [] := by decide
  rw [servedCalls_none none, memoryInfo_eq (by decide) (by decide), none] at reached
  exact absurd reached (by decide)

end MeowMeowOS.FrameCounts

import MeowMeowOS.BootFrames

/-! Which frames any memory map frees, ranges above 4 GiB and ranges that end
inside a page included. The loop frees every page that begins inside a usable
range and cuts the address to 32 bits, so a free block need not be a page of
usable RAM. -/
namespace MeowMeowOS.UsableFrames
open ByteMemory PhysicalFrames BootFrames

/-! ## The loop over a range of any size -/

section Region
variable {s s' : PmmState} {addr stop fuel b : Nat}

/-- A range that reaches into the last page below 2^64 is never left: the
address wraps around in front of the end. -/
theorem markRegion_never (below : addr ≤ a) (inside : a < stop) (last : 2 ^ 64 ≤ a + pageSize)
    (word : a < 2 ^ 64) (step : a % pageSize = addr % pageSize) :
    markRegion fuel s addr stop = none := by
  unfold pageSize at last step
  induction fuel generalizing s addr with
  | zero => rfl
  | succ fuel ih =>
    rw [markRegion, if_pos (by omega)]
    unfold pageSize
    by_cases here : addr = a
    · exact ih (by omega) (by omega)
    · exact ih (by omega) (by omega)

/-- `a` is an address of the range, in steps of a page, that the loop does not
skip and that names a frame. -/
def Passed (addr stop a : Nat) : Prop :=
  addr ≤ a ∧ a < stop ∧ addr % pageSize = 0 ∧ a % pageSize = 0 ∧ 0x300000 ≤ a

/-- The block whose number is left of an address in 32 bits. -/
def blockOf (a : Nat) : Nat := a % 2 ^ 32 / pageSize

theorem passed_step (more : addr < stop) : Passed addr stop a ↔
    (0x300000 ≤ addr ∧ addr % pageSize = 0 ∧ a = addr) ∨ Passed (addr + pageSize) stop a := by
  unfold Passed pageSize
  omega

theorem markRegion_wide (ran : markRegion fuel s addr stop = some s') (word : stop < 2 ^ 64) :
    SameFrames s s' ∧ ∀ b, bitmapTest s' b = false ↔
      bitmapTest s b = false ∨ ∃ a, Passed addr stop a ∧ b = blockOf a := by
  induction fuel generalizing s addr with
  | zero => cases ran
  | succ fuel ih =>
    rw [markRegion] at ran
    by_cases more : addr < stop
    · rw [if_pos more] at ran
      by_cases wraps : 2 ^ 64 ≤ addr + pageSize
      · have stuck : ∀ s, markRegion fuel s ((addr + pageSize) % 2 ^ 64) stop = none := by
          intro s
          unfold pageSize at wraps ⊢
          exact markRegion_never (by omega) more wraps (by omega) (by unfold pageSize; omega)
        simp only [stuck] at ran
        cases ran
      · rw [Nat.mod_eq_of_lt (Nat.lt_of_not_le wraps)] at ran
        obtain ⟨rest, bits⟩ := ih ran
        have same : SameFrames s (if 0x300000 ≤ addr then pmmMarkFree s (addr % 2 ^ 32) else s) := by
          split
          · exact pmmMarkFree_same s _
          · exact ⟨rfl, rfl⟩
        refine ⟨sameFrames_trans same rest, fun b => ?_⟩
        have marked : bitmapTest (if 0x300000 ≤ addr then pmmMarkFree s (addr % 2 ^ 32) else s) b = false ↔
            bitmapTest s b = false ∨ (0x300000 ≤ addr ∧ addr % pageSize = 0 ∧ b = blockOf addr) := by
          have aligned : addr % 2 ^ 32 % pageSize = addr % pageSize := by
            unfold pageSize
            omega
          by_cases skipped : 0x300000 ≤ addr
          · rw [if_pos skipped, bitmapTest_pmmMarkFree, Bool.and_eq_false_iff, aligned]
            simp [skipped, blockOf]
          · rw [if_neg skipped]
            simp [skipped]
        rw [bits, marked, or_assoc]
        refine or_congr_right ⟨?_, ?_⟩
        · rintro (⟨above, aligned, rfl⟩ | ⟨a, passed, rfl⟩)
          · exact ⟨addr, (passed_step more).mpr (Or.inl ⟨above, aligned, rfl⟩), rfl⟩
          · exact ⟨a, (passed_step more).mpr (Or.inr passed), rfl⟩
        · rintro ⟨a, passed, rfl⟩
          rcases (passed_step more).mp passed with ⟨above, aligned, rfl⟩ | further
          · exact Or.inl ⟨above, aligned, rfl⟩
          · exact Or.inr ⟨a, further, rfl⟩
    · rw [if_neg more, Option.some.injEq] at ran
      subst ran
      refine ⟨⟨rfl, rfl⟩, fun b => ?_⟩
      have none : ¬ ∃ a, Passed addr stop a ∧ b = blockOf a := by
        rintro ⟨a, passed, -⟩
        exact more (Nat.lt_of_le_of_lt passed.1 passed.2.1)
      simp [none]

end Region

/-! ## The map -/

/-- No range of the map ends behind the 64-bit addresses. -/
def NoOverflow (map : MemoryMap) : Prop :=
  ∀ i < map.entryCount, (map.entries i).base + (map.entries i).length < 2 ^ 64

/-- One of the first `n` entries is a usable range that passes `a`. -/
def PassedBy (map : MemoryMap) (n a : Nat) : Prop :=
  ∃ i < n, (map.entries i).type = 1 ∧
    Passed (map.entries i).base ((map.entries i).base + (map.entries i).length) a

theorem passedBy_succ : PassedBy map (n + 1) a ↔ PassedBy map n a ∨ ((map.entries n).type = 1 ∧
    Passed (map.entries n).base ((map.entries n).base + (map.entries n).length) a) := by
  constructor
  · rintro ⟨i, small, usable, passed⟩
    by_cases last : i = n
    · exact Or.inr (last ▸ ⟨usable, passed⟩)
    · exact Or.inl ⟨i, by omega, usable, passed⟩
  · rintro (⟨i, small, freed⟩ | freed)
    · exact ⟨i, by omega, freed⟩
    · exact ⟨n, Nat.lt_succ_self n, freed⟩

theorem markRegions_wide (fits : NoOverflow map) (within : n ≤ map.entryCount)
    (ran : markRegions fuel map s n = some s') :
    SameFrames s s' ∧ ∀ b, bitmapTest s' b = false ↔
      bitmapTest s b = false ∨ ∃ a, PassedBy map n a ∧ b = blockOf a := by
  induction n generalizing s' with
  | zero =>
    obtain rfl : s = s' := Option.some.inj ran
    refine ⟨⟨rfl, rfl⟩, fun b => ?_⟩
    simp [PassedBy]
  | succ n ih =>
    rw [markRegions] at ran
    split at ran
    · cases ran
    · rename_i t before
      obtain ⟨sameT, bits⟩ := ih (by omega) before
      have bound := fits n (by omega)
      have stop : endOfRegion (map.entries n) = (map.entries n).base + (map.entries n).length :=
        Nat.mod_eq_of_lt bound
      split at ran
      · rename_i usable
        rw [stop] at ran
        obtain ⟨same, region⟩ := markRegion_wide ran bound
        refine ⟨sameFrames_trans sameT same, fun b => ?_⟩
        rw [region, bits, or_assoc]
        refine or_congr_right ⟨?_, ?_⟩
        · rintro (⟨a, passed, rfl⟩ | ⟨a, passed, rfl⟩)
          · exact ⟨a, passedBy_succ.mpr (Or.inl passed), rfl⟩
          · exact ⟨a, passedBy_succ.mpr (Or.inr ⟨usable, passed⟩), rfl⟩
        · rintro ⟨a, passed, rfl⟩
          rcases passedBy_succ.mp passed with earlier | ⟨-, last⟩
          · exact Or.inl ⟨a, earlier, rfl⟩
          · exact Or.inr ⟨a, last, rfl⟩
      · rename_i reserved
        obtain rfl : t = s' := Option.some.inj ran
        refine ⟨sameT, fun b => ?_⟩
        have same : (∃ a, PassedBy map (n + 1) a ∧ b = blockOf a) ↔ ∃ a, PassedBy map n a ∧
          b = blockOf a := by
          simp only [passedBy_succ, reserved, false_and, or_false]
        rw [bits, same]

/-! ## The bitmap before the map is read -/

/-- Marking the pages from address 0 takes the blocks from block 0. -/
theorem markUsed_front (s : PmmState) (n b : Nat) :
    bitmapTest (pmmMarkUsedPages s 0 n) b = (bitmapTest s b || (decide (b < n) && pmmBlockIsValid s b)) := by
  have step : ∀ s i, pmmMarkUsed s (0 + i * pageSize) = bitmapSet s (0 + i) := by
    intro s i
    have aligned : i * pageSize % pageSize = 0 := Nat.mul_mod_left _ _
    have block : i * pageSize / pageSize = i := Nat.mul_div_cancel _ (by decide)
    rw [Nat.zero_add, Nat.zero_add, pmmMarkUsed, block]
    by_cases valid : pmmBlockIsValid s i = true
    · rw [if_pos]
      simp only [pmmBlockIsValid, decide_eq_true_eq] at valid
      simp only [pmmAddrIsValid, aligned, block, decide_eq_true_eq]
      exact ⟨valid.1, trivial, valid.2⟩
    · have skipped : bitmapSet s i = s := by rw [bitmapSet, if_neg valid]
      rw [skipped, ite_self]
  unfold pmmMarkUsedPages
  simp only [step]
  rw [(bitmapTest_setRun s 0 n b).2]
  simp

/-- With a block count that the word count does not wrap for, every block is
taken; otherwise the bitmap is left as it was, but for the kernel's blocks. -/
theorem pmmInitialize_bits (m : Mem) (large : pageSize ≤ memSize) :
    let blocks := memSize / pageSize % 2 ^ 32
    let s := pmmInitialize ⟨m, 0, 0⟩ memSize 0x200000
    s.pmmBitmap = 0x200000 ∧ s.pmmMaxBlocks = blocks ∧ ∀ b < blocks,
      bitmapTest s b = false ↔ 2 ^ 32 ≤ blocks + 31 ∧ 768 ≤ b ∧
      bitmapTest ⟨m, 0x200000, blocks⟩ b = false := by
  have started : ¬ (memSize < pageSize ∨ 0x200000 = 0) := by omega
  unfold pmmInitialize
  rw [if_neg started]
  dsimp only
  have bound : memSize / pageSize % 2 ^ 32 < 2 ^ 32 := Nat.mod_lt _ (by decide)
  generalize memSize / pageSize % 2 ^ 32 = blocks at *
  generalize filledEq : (List.range ((blocks + 31) % 2 ^ 32 / 32)).foldl
    (fun s i => setBitmapWord s i 0xFFFFFFFF) (⟨m, 0x200000, blocks⟩ : PmmState) = filled
  have same : SameFrames ⟨m, 0x200000, blocks⟩ filled := by
    rw [← filledEq]
    exact foldl_same (fun s i => (⟨rfl, rfl⟩ : SameFrames s (setBitmapWord s i 0xFFFFFFFF))) _ _
  have kept : SameFrames filled (pmmMarkUsedPages filled 0 (0x300000 / pageSize)) :=
    pmmMarkUsedPages_same filled 0 _
  have keptAll := sameFrames_trans (sameFrames_trans same kept) (pmmMarkUsedPages_same
    (pmmMarkUsedPages filled 0 (0x300000 / pageSize)) 0x200000
    (((blocks + 31) % 2 ^ 32 / 32 * 4 + (pageSize - 1)) / pageSize))
  refine ⟨keptAll.1, keptAll.2, fun b small => ?_⟩
  by_cases wraps : 2 ^ 32 ≤ blocks + 31
  · -- no word is filled and no page marked for the bitmap
    have words : (blocks + 31) % 2 ^ 32 / 32 = 0 := by omega
    rw [words] at filledEq ⊢
    subst filledEq
    have none : ∀ t, pmmMarkUsedPages t 0x200000 ((0 * 4 + (pageSize - 1)) / pageSize) = t := fun t => rfl
    rw [none, markUsed_front]
    have valid : pmmBlockIsValid ⟨m, 0x200000, blocks⟩ b = true := by simp [pmmBlockIsValid, small]
    rw [show (List.range 0).foldl (fun s i => setBitmapWord s i 0xFFFFFFFF)
      (⟨m, 0x200000, blocks⟩ : PmmState) = ⟨m, 0x200000, blocks⟩ from rfl, valid, Bool.and_true,
      show 0x300000 / pageSize = 768 from rfl, Bool.or_eq_false_iff, decide_eq_false_iff_not]
    constructor
    · rintro ⟨clear, front⟩
      exact ⟨wraps, by omega, clear⟩
    · rintro ⟨-, above, clear⟩
      exact ⟨clear, by omega⟩
  · have word : bitmapWord filled (b / 32) = 0xFFFFFFFF := by
      rw [← filledEq]
      exact fillBitmap_words _ _ _ (by omega)
    have set : bitmapTest filled b = true := by
      have bit : (0xFFFFFFFF : Nat).testBit (b % 32) = true := by
        rw [show (0xFFFFFFFF : Nat) = 2 ^ 32 - 1 by decide, Nat.testBit_two_pow_sub_one]
        simp [Nat.mod_lt]
      rw [bitmapTest, sameFrames_valid same, word, bit]
      simp [pmmBlockIsValid, small]
    rw [pmmMarkUsedPages_keeps _ _ _ (pmmMarkUsedPages_keeps _ _ _ set)]
    exact iff_of_false (by simp) fun both => wraps both.1

/-! ## The blocks that are clear after boot -/

/-- The boot loader left no table to read. -/
def NoTable (map : MemoryMap) : Prop := map.entryCount = 0xFFFFFFFF ∨ map.entryCount = 0

instance : Decidable (NoTable map) := by
  unfold NoTable
  infer_instance

/-- `pmm_max_blocks` once the map has been read. -/
def managedBlocks (map : MemoryMap) : Nat :=
  if NoTable map then 8192
  else if highestUsableAddr map < pageSize then 0
  else highestUsableAddr map / pageSize % 2 ^ 32

/-- The address of a page the loops over the table mark free. -/
def Freed (map : MemoryMap) (a : Nat) : Prop :=
  if NoTable map then 0x300000 ≤ a ∧ a < 0x2000000 ∧ a % pageSize = 0
  else PassedBy map map.entryCount a

/-- The word count of the bitmap wraps to 0, and the memory it lies in had the
bit of `b` clear. -/
def UnfilledClear (m : Mem) (map : MemoryMap) (b : Nat) : Prop :=
  ¬ NoTable map ∧ 2 ^ 32 ≤ managedBlocks map + 31 ∧ 768 ≤ b ∧
    bitmapTest ⟨m, 0x200000, managedBlocks map⟩ b = false

/-- The allocator may hand out block `b`. -/
def IsFree (s : PmmState) (b : Nat) : Prop := pmmBlockIsValid s b = true ∧ bitmapTest s b = false

theorem markFree_all (s : PmmState) (n b : Nat) :
    SameFrames s ((List.range n).foldl (fun s i => pmmMarkFree s (0x300000 + i * pageSize)) s) ∧
      (bitmapTest ((List.range n).foldl (fun s i => pmmMarkFree s (0x300000 + i * pageSize)) s) b = false ↔
        bitmapTest s b = false ∨ (768 ≤ b ∧ b < 768 + n)) := by
  refine ⟨foldl_same (fun s i => pmmMarkFree_same s _) _ s, ?_⟩
  induction n with
  | zero =>
    have none : ¬ (768 ≤ b ∧ b < 768 + 0) := by omega
    simp [none]
  | succ n ih =>
    have page : (0x300000 + n * pageSize) % pageSize = 0 ∧ (0x300000 + n * pageSize) / pageSize = 768 + n := by
      unfold pageSize
      omega
    rw [List.range_succ, List.foldl_append, List.foldl_cons, List.foldl_nil, bitmapTest_pmmMarkFree,
      Bool.and_eq_false_iff, ih, page.1, page.2, or_assoc, Bool.not_eq_false', decide_eq_true_eq]
    refine or_congr_right ?_
    omega

/-- The clear blocks after boot, for every table none of whose ranges
overflows. -/
theorem pmmInitializeFromMap_free (fits : NoOverflow map)
    (ran : pmmInitializeFromMap fuel map ⟨m, 0, 0⟩ = some s) :
    s.pmmMaxBlocks = managedBlocks map ∧ ∀ b,
      IsFree s b ↔ b < managedBlocks map ∧ (UnfilledClear m map b ∨ ∃ a, Freed map a ∧ b = blockOf a) := by
  unfold pmmInitializeFromMap at ran
  by_cases table : NoTable map
  · have marker : map.entryCount = 0xFFFFFFFF ∨ map.entryCount = 0 := table
    rw [if_pos marker, Option.some.injEq] at ran
    subst ran
    have large : pageSize ≤ 32 * 1024 * 1024 := by decide
    obtain ⟨bitmap, blocks, bits⟩ := pmmInitialize_bits m large
    have managed : managedBlocks map = 8192 := if_pos table
    have number : 32 * 1024 * 1024 / pageSize % 2 ^ 32 = 8192 := by decide
    have last : 768 + (0x2000000 - 0x300000) / pageSize = 8192 := by decide
    rw [number] at blocks bits
    have marked := markFree_all (pmmInitialize ⟨m, 0, 0⟩ (32 * 1024 * 1024) 0x200000)
      ((0x2000000 - 0x300000) / pageSize)
    have same := (marked 0).1
    refine ⟨same.2.trans (blocks.trans managed.symm), fun b => ?_⟩
    have freed : (∃ a, Freed map a ∧ b = blockOf a) ↔ 768 ≤ b ∧ b < 8192 := by
      simp only [Freed, if_pos table, blockOf, pageSize]
      constructor
      · rintro ⟨a, passed, rfl⟩
        omega
      · intro inside
        exact ⟨b * 4096, by omega, by omega⟩
    have filled : ¬ UnfilledClear m map b := fun unfilled => unfilled.1 table
    rw [IsFree, pmmInitializeSafeMode, sameFrames_valid same, (marked b).2, managed, freed, pmmBlockIsValid,
      bitmap, blocks, last]
    by_cases small : b < 8192
    · have taken := bits b small
      simp [small, filled, taken]
    · simp [small]
  · have counted : ¬ (map.entryCount = 0xFFFFFFFF ∨ map.entryCount = 0) := table
    rw [if_neg counted] at ran
    obtain ⟨same, bits⟩ := markRegions_wide fits (Nat.le_refl _) ran
    have freed : ∀ a, Freed map a ↔ PassedBy map map.entryCount a := fun a => by rw [Freed, if_neg table]
    simp only [freed]
    by_cases large : pageSize ≤ highestUsableAddr map
    · obtain ⟨bitmap, blocks, taken⟩ := pmmInitialize_bits m large
      have managed : managedBlocks map = highestUsableAddr map / pageSize % 2 ^ 32 := by
        rw [managedBlocks, if_neg table, if_neg (Nat.not_lt.mpr large)]
      rw [← managed] at blocks taken
      refine ⟨same.2.trans blocks, fun b => ?_⟩
      rw [IsFree, sameFrames_valid same, bits, pmmBlockIsValid, bitmap, blocks]
      by_cases small : b < managedBlocks map
      · simp [small, taken b small, UnfilledClear, table]
      · simp [small]
    · have started : pmmInitialize ⟨m, 0, 0⟩ (highestUsableAddr map) 0x200000 = ⟨m, 0, 0⟩ := by
        rw [pmmInitialize, if_pos (Or.inl (Nat.lt_of_not_le large))]
      have managed : managedBlocks map = 0 := by
        rw [managedBlocks, if_neg table, if_pos (Nat.lt_of_not_le large)]
      rw [started] at same
      refine ⟨same.2.trans managed.symm, fun b => ?_⟩
      rw [IsFree, sameFrames_valid same, managed]
      simp [pmmBlockIsValid]

/-! ## Usable pages -/

/-- The page at `a` lies wholly inside a usable range of the table. -/
def Described (map : MemoryMap) (a : Nat) : Prop :=
  ∃ i < map.entryCount, (map.entries i).type = 1 ∧ (map.entries i).base ≤ a ∧
    a + pageSize ≤ (map.entries i).base + (map.entries i).length

/-- Where the words of a bitmap for `blocks` blocks end. -/
def bitmapEnd (blocks : Nat) : Nat := 0x200000 + (blocks + 31) / 32 * 4

/-- Block `b` is a page that lies wholly inside a usable range, from 0x300000
up, and holds no word of a bitmap for `blocks` blocks. -/
structure UsablePage (map : MemoryMap) (blocks b : Nat) : Prop where
  inside : Described map (b * pageSize)
  high : 0x300000 ≤ b * pageSize
  noBitmap : b * pageSize + pageSize ≤ 0x200000 ∨ bitmapEnd blocks ≤ b * pageSize

/-- `a` is the last page of a usable entry `i` that ends inside it, and has a
managed block. -/
structure PartialPage (map : MemoryMap) (i a : Nat) : Prop where
  usable : (map.entries i).type = 1
  aligned : (map.entries i).base % pageSize = 0
  last : a = ((map.entries i).base + (map.entries i).length) / pageSize * pageSize
  cut : ((map.entries i).base + (map.entries i).length) % pageSize ≠ 0
  high : 0x300000 ≤ a
  managed : a / pageSize < managedBlocks map

/-- What a table must say for the loops over it to free nothing but usable
pages. -/
structure FreesUsable (m : Mem) (map : MemoryMap) : Prop where
  safeMode : NoTable map → ∀ a, 0x300000 ≤ a → a < 0x2000000 → a % pageSize = 0 → Described map a
  partialPages : ¬ NoTable map → ∀ i < map.entryCount, ∀ a < 2 ^ 32, PartialPage map i a → Described map a
  /-- Behind 4 GiB the loops free the page at the address that 32 bits leave. -/
  wrapped : ¬ NoTable map → ∀ a, PassedBy map map.entryCount a → 2 ^ 32 ≤ a →
    blockOf a < managedBlocks map →
    0x300000 ≤ a % 2 ^ 32 ∧ bitmapEnd (managedBlocks map) ≤ a % 2 ^ 32 ∧ Described map (a % 2 ^ 32)
  bitmapPages : ¬ NoTable map → ∀ a < 2 ^ 32, PassedBy map map.entryCount a →
    a / pageSize < managedBlocks map →
    bitmapEnd (managedBlocks map) ≤ a
  unfilled : ∀ b < managedBlocks map, UnfilledClear m map b →
    bitmapEnd (managedBlocks map) ≤ b * pageSize ∧ Described map (b * pageSize)

theorem usablePage_iff (high : 0x300000 ≤ b * pageSize) :
    UsablePage map blocks b ↔ bitmapEnd blocks ≤ b * pageSize ∧ Described map (b * pageSize) := by
  constructor
  · rintro ⟨inside, -, bitmap⟩
    exact ⟨bitmap.resolve_left (by omega), inside⟩
  · rintro ⟨bitmap, inside⟩
    exact ⟨inside, high, Or.inr bitmap⟩

theorem blockOf_low (word : a < 2 ^ 32) (page : a % pageSize = 0) :
    blockOf a = a / pageSize ∧ blockOf a * pageSize = a := by
  unfold blockOf pageSize at *
  omega

theorem blockOf_wrapped (page : a % pageSize = 0) : blockOf a * pageSize = a % 2 ^ 32 := by
  unfold blockOf pageSize at *
  omega

theorem passedBy_page (passed : PassedBy map n a) : a % pageSize = 0 ∧ 0x300000 ≤ a := by
  obtain ⟨i, -, -, -, -, -, page, high⟩ := passed
  exact ⟨page, high⟩

/-- A freed page that its range does not fill is that range's last one. -/
theorem passed_whole_or_partial (usable : (map.entries i).type = 1)
    (passed : Passed (map.entries i).base ((map.entries i).base + (map.entries i).length) a)
    (managed : a / pageSize < managedBlocks map) :
    a + pageSize ≤ (map.entries i).base + (map.entries i).length ∨ PartialPage map i a := by
  obtain ⟨-, below, aligned, page, high⟩ := passed
  by_cases whole : a + pageSize ≤ (map.entries i).base + (map.entries i).length
  · exact Or.inl whole
  · have last : a = ((map.entries i).base + (map.entries i).length) / pageSize * pageSize := by
      unfold pageSize at *
      omega
    have cut : ((map.entries i).base + (map.entries i).length) % pageSize ≠ 0 := by
      unfold pageSize at *
      omega
    exact Or.inr ⟨usable, aligned, last, cut, high, managed⟩

theorem partial_passed (small : i < map.entryCount) (cut : PartialPage map i a) : PassedBy map map.entryCount a := by
  obtain ⟨usable, aligned, last, cut, high, -⟩ := cut
  refine ⟨i, small, usable, ?_, ?_, aligned, ?_, high⟩ <;>
  · unfold pageSize at *
    omega

theorem safeMode_usable (marked : NoTable map) (managed : managedBlocks map = 8192) :
    (∀ a, Freed map a → blockOf a < managedBlocks map → UsablePage map (managedBlocks map) (blockOf a)) ↔
      ∀ a, 0x300000 ≤ a → a < 0x2000000 → a % pageSize = 0 → Described map a := by
  have freed : ∀ a, Freed map a ↔ 0x300000 ≤ a ∧ a < 0x2000000 ∧ a % pageSize = 0 := fun a => by
    rw [Freed, if_pos marked]
  have behind : bitmapEnd 8192 ≤ 0x300000 := by decide
  simp only [freed, managed]
  refine forall_congr' fun a => ?_
  constructor
  · intro usable high below page
    obtain ⟨number, back⟩ := blockOf_low (by omega) page
    have block : blockOf a < 8192 := by
      unfold pageSize at number
      omega
    exact back ▸ (usable ⟨high, below, page⟩ block).inside
  · rintro described ⟨high, below, page⟩ -
    obtain ⟨-, back⟩ := blockOf_low (by omega) page
    refine (usablePage_iff (by omega)).mpr ?_
    rw [back]
    exact ⟨by omega, described high below page⟩

theorem unfilled_usable (clear : UnfilledClear m map b) : UsablePage map (managedBlocks map) b ↔
    bitmapEnd (managedBlocks map) ≤ b * pageSize ∧ Described map (b * pageSize) := by
  have above := clear.2.2.1
  exact usablePage_iff (by unfold pageSize; omega)

theorem frees_passed (frees : FreesUsable m map) (table : ¬ NoTable map) (passed : PassedBy map map.entryCount a)
    (small : blockOf a < managedBlocks map) : UsablePage map (managedBlocks map) (blockOf a) := by
  obtain ⟨page, high⟩ := passedBy_page passed
  by_cases word : a < 2 ^ 32
  · obtain ⟨number, back⟩ := blockOf_low word page
    rw [number] at small
    refine (usablePage_iff (by omega)).mpr ?_
    rw [back]
    refine ⟨frees.bitmapPages table a word passed small, ?_⟩
    obtain ⟨i, listed, usable, passed⟩ := passed
    rcases passed_whole_or_partial usable passed small with whole | cut
    · exact ⟨i, listed, usable, passed.1, whole⟩
    · exact frees.partialPages table i listed a word cut
  · obtain ⟨above, bitmap, described⟩ := frees.wrapped table a passed (by omega) small
    have back := blockOf_wrapped page
    rw [← back] at above bitmap described
    exact (usablePage_iff above).mpr ⟨bitmap, described⟩

theorem frees_of_passed (table : ¬ NoTable map)
    (usable : ∀ a, PassedBy map map.entryCount a → blockOf a < managedBlocks map →
      UsablePage map (managedBlocks map) (blockOf a))
    (clear : ∀ b < managedBlocks map, UnfilledClear m map b → UsablePage map (managedBlocks map) b) :
    FreesUsable m map := by
  have low : ∀ a < 2 ^ 32, PassedBy map map.entryCount a → a / pageSize < managedBlocks map →
      bitmapEnd (managedBlocks map) ≤ a ∧ Described map a := by
    intro a word passed small
    obtain ⟨page, high⟩ := passedBy_page passed
    obtain ⟨number, back⟩ := blockOf_low word page
    have both := (usablePage_iff (by omega)).mp (usable a passed (number ▸ small))
    rwa [back] at both
  refine ⟨fun none => absurd none table, ?_, ?_, ?_, fun b small unset => ?_⟩
  · intro _ i listed a word cut
    exact (low a word (partial_passed listed cut) cut.managed).2
  · intro _ a passed above small
    have back := blockOf_wrapped (passedBy_page passed).1
    have page := usable a passed small
    have high := page.high
    have both := (usablePage_iff high).mp page
    rw [back] at high both
    exact ⟨high, both.1, both.2⟩
  · intro _ a word passed small
    exact (low a word passed small).1
  · exact (unfilled_usable unset).mp (clear b small unset)

theorem freesUsable_iff : FreesUsable m map ↔
    (∀ a, Freed map a → blockOf a < managedBlocks map → UsablePage map (managedBlocks map) (blockOf a)) ∧
      ∀ b < managedBlocks map, UnfilledClear m map b → UsablePage map (managedBlocks map) b := by
  by_cases table : NoTable map
  · have safe := safeMode_usable table (if_pos table)
    constructor
    · intro frees
      exact ⟨safe.mpr (frees.safeMode table), fun b small clear => absurd table clear.1⟩
    · rintro ⟨freed, -⟩
      exact ⟨fun _ => safe.mp freed, fun counted => absurd table counted, fun counted => absurd table counted,
        fun counted => absurd table counted, fun b small clear => absurd table clear.1⟩
  · have freed : ∀ a, Freed map a ↔ PassedBy map map.entryCount a := fun a => by rw [Freed, if_neg table]
    simp only [freed]
    constructor
    · intro frees
      exact ⟨fun a => frees_passed frees table, fun b small clear =>
        (unfilled_usable clear).mpr (frees.unfilled b small clear)⟩
    · rintro ⟨usable, clear⟩
      exact frees_of_passed table usable clear

/-- Every block that is clear after boot is a usable page just when each partial
last page is completed by another range, each page behind 4 GiB wraps onto a
usable one, and no freed page is the bitmap's. -/
theorem pmmInitializeFromMap_usable_iff (fits : NoOverflow map)
    (ran : pmmInitializeFromMap fuel map ⟨m, 0, 0⟩ = some s) :
    (∀ b, IsFree s b → UsablePage map s.pmmMaxBlocks b) ↔ FreesUsable m map := by
  obtain ⟨blocks, free⟩ := pmmInitializeFromMap_free fits ran
  rw [blocks, freesUsable_iff]
  constructor
  · intro usable
    constructor
    · intro a freed small
      exact usable _ ((free _).mpr ⟨small, Or.inr ⟨a, freed, rfl⟩⟩)
    · intro b small unfilled
      exact usable b ((free b).mpr ⟨small, Or.inl unfilled⟩)
  · intro usable b isFree
    obtain ⟨small, unfilled | ⟨a, freed, rfl⟩⟩ := (free b).mp isFree
    · exact usable.2 b small unfilled
    · exact usable.1 a freed small

/-- Eight MiB of RAM and half a page, with the usable range from 1 MiB up. -/
def smallTable : MemoryMap := ⟨1, fun _ => ⟨0x100000, 0x700800, 1⟩⟩

theorem pmmInitializeFromMap_usable_smallTable :
    NoOverflow smallTable ∧ ∃ s, pmmInitializeFromMap (2 ^ 20 + 1) smallTable ⟨fun _ => 0, 0, 0⟩ = some s ∧
      ∀ b, IsFree s b → UsablePage smallTable s.pmmMaxBlocks b := by
  have low : Below4G smallTable := fun _ _ _ => (by decide : 0x100000 + 0x700800 ≤ 2 ^ 32)
  have fits : NoOverflow smallTable := fun _ _ => (by decide : 0x100000 + 0x700800 < 2 ^ 64)
  have managed : managedBlocks smallTable = 2048 := by decide
  obtain ⟨s, ran, -⟩ := pmmInitializeFromMap_bits low (by decide) (by decide) (by decide) fun _ => 0
  have passed : ∀ a, PassedBy smallTable smallTable.entryCount a → 0x300000 ≤ a ∧ a < 0x800800 := by
    rintro a ⟨i, -, -, -, below, -, -, high⟩
    simp only [smallTable] at below
    omega
  have bitmap : bitmapEnd 2048 ≤ 0x300000 := by decide
  refine ⟨fits, s, ran, (pmmInitializeFromMap_usable_iff fits ran).mpr ⟨?_, ?_, ?_, ?_, ?_⟩⟩
  · intro none
    exact absurd none (by decide)
  · intro _ i _ a _ cut
    -- the page the range ends in has no block
    have last := cut.last
    have small := cut.managed
    rw [managed] at small
    simp only [smallTable, pageSize] at last small
    omega
  · intro _ a freed above _
    have := (passed a freed).2
    omega
  · intro _ a _ freed _
    rw [managed]
    have := (passed a freed).1
    omega
  · intro b small unfilled
    have wraps := unfilled.2.1
    rw [managed] at wraps
    omega

/-- A usable range that ends in the middle of a page, below another one. -/
def brokenTable : MemoryMap :=
  ⟨2, fun i => if i = 0 then ⟨0x100000, 0x700800, 1⟩ else ⟨0x900000, 0x100000, 1⟩⟩

/-- The page at 0x800000 is freed although its upper half is no RAM. -/
theorem brokenTable_frees_partial_page :
    ¬ ∀ (fuel : Nat) (map : MemoryMap) (m : Mem) (s : PmmState), NoOverflow map →
      pmmInitializeFromMap fuel map ⟨m, 0, 0⟩ = some s → ∀ b, IsFree s b →
      UsablePage map s.pmmMaxBlocks b := by
  intro claim
  have entries : ∀ i, brokenTable.entries i = ⟨0x100000, 0x700800, 1⟩ ∨
      brokenTable.entries i = ⟨0x900000, 0x100000, 1⟩ := by
    intro i
    unfold brokenTable
    dsimp only
    split <;> simp
  have low : Below4G brokenTable := by
    intro i _ _
    rcases entries i with e | e <;> rw [e] <;> decide
  have fits : NoOverflow brokenTable := by
    intro i _
    rcases entries i with e | e <;> rw [e] <;> decide
  obtain ⟨s, ran, bitmap, blocks, bits⟩ :=
    pmmInitializeFromMap_bits low (by decide) (by decide) (by decide) fun _ => 0
  have number : s.pmmMaxBlocks = 2560 := blocks.trans (by decide)
  have free : IsFree s 0x800 := by
    constructor
    · simp [pmmBlockIsValid, bitmap, number]
    · exact (bits 0x800 (by omega)).mpr ⟨0, by decide, rfl, by decide⟩
  obtain ⟨i, -, -, above, inside⟩ := (claim _ _ _ s fits ran 0x800 free).inside
  rcases entries i with e | e
  · rw [e] at inside
    exact absurd inside (by decide)
  · rw [e] at above
    exact absurd above (by decide)

end MeowMeowOS.UsableFrames

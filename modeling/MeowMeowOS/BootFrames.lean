import MeowMeowOS.VirtualMemory

/-! Which frames are free once the machine has booted, for a memory map whose
usable ranges end at or below 4 GiB: the pages those ranges cover from
0x300000 up, less the three lowest, which `vmm_initialize` takes. -/
namespace MeowMeowOS.BootFrames
open ByteMemory PhysicalFrames VirtualMemory

theorem sameFrames_trans (first : SameFrames s t) (second : SameFrames t u) : SameFrames s u :=
  ⟨second.1.trans first.1, second.2.trans first.2⟩

theorem foldl_same {step : PmmState → Nat → PmmState} (same : ∀ s i, SameFrames s (step s i))
    (list : List Nat) (s : PmmState) : SameFrames s (list.foldl step s) := by
  induction list generalizing s with
  | nil => exact ⟨rfl, rfl⟩
  | cons i rest ih => exact sameFrames_trans (same s i) (ih (step s i))

theorem pmmMarkFree_same (s : PmmState) (addr : Nat) : SameFrames s (pmmMarkFree s addr) := by
  unfold pmmMarkFree
  split
  · exact bitmapUnset_same _ _
  · exact ⟨rfl, rfl⟩

theorem pmmMarkUsed_same (s : PmmState) (addr : Nat) : SameFrames s (pmmMarkUsed s addr) := by
  unfold pmmMarkUsed
  split
  · exact bitmapSet_same _ _
  · exact ⟨rfl, rfl⟩

theorem pmmAllocBlock_same (s : PmmState) : SameFrames s (pmmAllocBlock s).2 := by
  rcases pmmAllocBlock_block s with same | ⟨b, same, -, -⟩
  · rw [same]
    exact ⟨rfl, rfl⟩
  · rw [same]
    exact bitmapSet_same s b

/-! ## The bitmap before the map is read -/

theorem fillBitmap_words (s : PmmState) (n : Nat) :
    ∀ i < n, bitmapWord ((List.range n).foldl (fun s i => setBitmapWord s i 0xFFFFFFFF) s) i =
      0xFFFFFFFF := by
  induction n with
  | zero => intro i small; cases small
  | succ n ih =>
    intro i small
    rw [List.range_succ, List.foldl_append, List.foldl_cons, List.foldl_nil, bitmapWord_setBitmapWord]
    by_cases last : i = n
    · simp [last]
    · rw [if_neg last]
      exact ih i (by omega)

theorem foldl_keeps_set {step : PmmState → Nat → PmmState}
    (keeps : ∀ s i, bitmapTest s b = true → bitmapTest (step s i) b = true)
    (list : List Nat) (s : PmmState) (set : bitmapTest s b = true) :
    bitmapTest (list.foldl step s) b = true := by
  induction list generalizing s with
  | nil => exact set
  | cons i rest ih => exact ih (step s i) (keeps s i set)

theorem pmmMarkUsed_keeps (s : PmmState) (addr : Nat) (set : bitmapTest s b = true) :
    bitmapTest (pmmMarkUsed s addr) b = true := by
  unfold pmmMarkUsed
  split
  · simp [bitmapTest_bitmapSet, set]
  · exact set

theorem pmmMarkUsedPages_same (s : PmmState) (first count : Nat) :
    SameFrames s (pmmMarkUsedPages s first count) :=
  foldl_same (fun s i => pmmMarkUsed_same s (first + i * pageSize)) _ s

theorem pmmMarkUsedPages_keeps (s : PmmState) (first count : Nat) (set : bitmapTest s b = true) :
    bitmapTest (pmmMarkUsedPages s first count) b = true :=
  foldl_keeps_set (fun s i => pmmMarkUsed_keeps s (first + i * pageSize)) _ s set

/-- Every frame is taken until the map frees it. -/
theorem pmmInitialize_taken (s : PmmState) (large : pageSize ≤ memSize) (low : memSize ≤ 2 ^ 32)
    (bitmap : bitmapAddr ≠ 0) :
    (pmmInitialize s memSize bitmapAddr).pmmBitmap = bitmapAddr ∧
      (pmmInitialize s memSize bitmapAddr).pmmMaxBlocks = memSize / pageSize ∧
      ∀ b < memSize / pageSize, bitmapTest (pmmInitialize s memSize bitmapAddr) b = true := by
  have blocks : memSize / pageSize % 2 ^ 32 = memSize / pageSize := by
    unfold pageSize at *
    omega
  have started : ¬ (memSize < pageSize ∨ bitmapAddr = 0) := by omega
  unfold pmmInitialize
  rw [if_neg started, blocks]
  dsimp only
  generalize filledEq : (List.range ((memSize / pageSize + 31) % 2 ^ 32 / 32)).foldl
    (fun s i => setBitmapWord s i 0xFFFFFFFF)
    { s with pmmMaxBlocks := memSize / pageSize, pmmBitmap := bitmapAddr } = filled
  have same : SameFrames
      { s with pmmMaxBlocks := memSize / pageSize, pmmBitmap := bitmapAddr } filled := by
    rw [← filledEq]
    exact foldl_same (fun s i => (⟨rfl, rfl⟩ : SameFrames s (setBitmapWord s i 0xFFFFFFFF))) _ _
  have marked : ∀ first count more, SameFrames filled
      (pmmMarkUsedPages (pmmMarkUsedPages filled 0 first) more count) := fun first count more =>
    sameFrames_trans (pmmMarkUsedPages_same filled 0 first) (pmmMarkUsedPages_same _ more count)
  refine ⟨(marked _ _ _).1.trans same.1, (marked _ _ _).2.trans same.2, fun b small => ?_⟩
  have word : bitmapWord filled (b / 32) = 0xFFFFFFFF := by
    rw [← filledEq]
    exact fillBitmap_words _ _ _ (by unfold pageSize at *; omega)
  have set : bitmapTest filled b = true := by
    have bit : (0xFFFFFFFF : Nat).testBit (b % 32) = true := by
      rw [show (0xFFFFFFFF : Nat) = 2 ^ 32 - 1 by decide, Nat.testBit_two_pow_sub_one]
      simp [Nat.mod_lt]
    rw [bitmapTest, sameFrames_valid same, word, bit]
    simp [pmmBlockIsValid, bitmap, small]
  exact pmmMarkUsedPages_keeps _ _ _ (pmmMarkUsedPages_keeps _ _ _ set)

/-! ## The ranges of the map -/

/-- Block `b` is one of the pages that the loop over `[addr, stop)` visits and
does not skip. -/
def Visited (addr stop b : Nat) : Prop :=
  addr % pageSize = 0 ∧ addr ≤ b * pageSize ∧ b * pageSize < stop ∧ 0x300000 ≤ b * pageSize

instance (addr stop b : Nat) : Decidable (Visited addr stop b) := by
  unfold Visited
  infer_instance

theorem bitmapTest_pmmMarkFree (s : PmmState) (addr b : Nat) :
    bitmapTest (pmmMarkFree s addr) b =
      (bitmapTest s b && !decide (addr % pageSize = 0 ∧ b = addr / pageSize)) := by
  unfold pmmMarkFree
  by_cases valid : pmmAddrIsValid s addr = true
  · have aligned : addr % pageSize = 0 := by
      simp only [pmmAddrIsValid, decide_eq_true_eq] at valid
      exact valid.2.1
    rw [if_pos valid, bitmapTest_bitmapUnset]
    simp [aligned]
  · rw [if_neg valid]
    by_cases named : addr % pageSize = 0 ∧ b = addr / pageSize
    · -- an address that names no frame names no valid bit
      have : pmmBlockIsValid s b = false := by
        simp only [pmmAddrIsValid, decide_eq_true_eq] at valid
        simp only [pmmBlockIsValid, named.2, decide_eq_false_iff_not]
        exact fun held => valid ⟨held.1, named.1, held.2⟩
      simp [bitmapTest, this]
    · simp [named]

theorem markRegion_bits (low : stop ≤ 2 ^ 32) (enough : stop ≤ addr + fuel * pageSize) :
    ∃ s', markRegion (fuel + 1) s addr stop = some s' ∧ SameFrames s s' ∧
      ∀ b, bitmapTest s' b = (bitmapTest s b && !decide (Visited addr stop b)) := by
  induction fuel generalizing s addr with
  | zero =>
    have ended : ¬ addr < stop := by omega
    refine ⟨s, by simp [markRegion, ended], ⟨rfl, rfl⟩, fun b => ?_⟩
    have : ¬ Visited addr stop b := by
      unfold Visited
      omega
    simp [this]
  | succ fuel ih =>
    by_cases more : addr < stop
    · have next : (addr + pageSize) % 2 ^ 64 = addr + pageSize := by
        unfold pageSize
        omega
      have word : addr % 2 ^ 32 = addr := Nat.mod_eq_of_lt (by omega)
      generalize markedEq : (if 0x300000 ≤ addr then pmmMarkFree s addr else s) = marked
      have same : SameFrames s marked := by
        rw [← markedEq]
        split
        · exact pmmMarkFree_same s addr
        · exact ⟨rfl, rfl⟩
      obtain ⟨s', ran, rest, bits⟩ := ih (s := marked)
        (show stop ≤ addr + pageSize + fuel * pageSize by rw [Nat.add_mul, Nat.one_mul] at enough; omega)
      refine ⟨s', ?_, sameFrames_trans same rest, fun b => ?_⟩
      · rw [markRegion, if_pos more, next, word, markedEq]
        exact ran
      · have split : Visited addr stop b ↔
            (0x300000 ≤ addr ∧ addr % pageSize = 0 ∧ b = addr / pageSize) ∨
              Visited (addr + pageSize) stop b := by
          unfold Visited pageSize
          omega
        rw [bits, ← markedEq]
        by_cases skipped : 0x300000 ≤ addr
        · rw [if_pos skipped, bitmapTest_pmmMarkFree]
          simp only [split, skipped, true_and, Bool.decide_or, Bool.not_or, Bool.and_assoc]
        · rw [if_neg skipped]
          simp [split, skipped]
    · refine ⟨s, by rw [markRegion, if_neg more], ⟨rfl, rfl⟩, fun b => ?_⟩
      have : ¬ Visited addr stop b := by
        unfold Visited
        omega
      simp [this]

/-- The usable ranges lie below 4 GiB. -/
def Below4G (map : MemoryMap) : Prop :=
  ∀ i < map.entryCount, (map.entries i).type = 1 → (map.entries i).base + (map.entries i).length ≤ 2 ^ 32

/-- One of the first `n` entries is a usable range with the page of block `b`. -/
def FreedByMap (map : MemoryMap) (n b : Nat) : Prop :=
  ∃ i < n, (map.entries i).type = 1 ∧
    Visited (map.entries i).base ((map.entries i).base + (map.entries i).length) b

theorem freedByMap_succ : FreedByMap map (n + 1) b ↔ FreedByMap map n b ∨ ((map.entries n).type = 1 ∧
    Visited (map.entries n).base ((map.entries n).base + (map.entries n).length) b) := by
  constructor
  · rintro ⟨i, small, usable, visited⟩
    by_cases last : i = n
    · exact Or.inr (last ▸ ⟨usable, visited⟩)
    · exact Or.inl ⟨i, by omega, usable, visited⟩
  · rintro (⟨i, small, freed⟩ | freed)
    · exact ⟨i, by omega, freed⟩
    · exact ⟨n, Nat.lt_succ_self n, freed⟩

theorem endOfRegion_low (low : e.base + e.length ≤ 2 ^ 32) : endOfRegion e = e.base + e.length :=
  Nat.mod_eq_of_lt (by omega)

theorem markRegions_bits (low : Below4G map) (within : n ≤ map.entryCount) :
    ∃ s', markRegions (2 ^ 20 + 1) map s n = some s' ∧ SameFrames s s' ∧
      ∀ b, bitmapTest s' b = false ↔ bitmapTest s b = false ∨ FreedByMap map n b := by
  induction n with
  | zero => exact ⟨s, rfl, ⟨rfl, rfl⟩, fun b => by simp [FreedByMap]⟩
  | succ n ih =>
    obtain ⟨t, before, sameT, bits⟩ := ih (by omega)
    by_cases usable : (map.entries n).type = 1
    · have bound := low n (by omega) usable
      obtain ⟨s', ran, same, region⟩ := markRegion_bits (s := t) bound
        (show _ ≤ (map.entries n).base + 2 ^ 20 * pageSize by unfold pageSize; omega)
      refine ⟨s', ?_, sameFrames_trans sameT same, fun b => ?_⟩
      · rw [markRegions, before]
        simp only [usable, ↓reduceIte, endOfRegion_low bound]
        exact ran
      · rw [region, freedByMap_succ, Bool.and_eq_false_iff, bits]
        simp [usable, or_assoc]
    · refine ⟨t, by rw [markRegions, before]; simp only [usable, ↓reduceIte], sameT, fun b => ?_⟩
      rw [bits, freedByMap_succ]
      simp [usable]

theorem highestUsableAddr_le (low : Below4G map) : highestUsableAddr map ≤ 2 ^ 32 := by
  unfold highestUsableAddr
  suffices ∀ n ≤ map.entryCount, (List.range n).foldl (fun highest i =>
      if (map.entries i).type = 1 ∧ highest < endOfRegion (map.entries i) then
        endOfRegion (map.entries i) else highest) 0 ≤ 2 ^ 32 from this _ (Nat.le_refl _)
  intro n
  induction n with
  | zero => intro _; exact Nat.zero_le _
  | succ n ih =>
    intro within
    rw [List.range_succ, List.foldl_append, List.foldl_cons, List.foldl_nil]
    split
    · rename_i usable
      have bound := low n (by omega) usable.1
      rwa [endOfRegion_low bound]
    · exact ih (by omega)

/-- Once the map has been read, the clear bits are those of the pages it
frees. -/
theorem pmmInitializeFromMap_bits (low : Below4G map) (some : 0 < map.entryCount)
    (valid : map.entryCount < 0xFFFFFFFF) (ram : pageSize ≤ highestUsableAddr map) (m : Mem) :
    ∃ s, pmmInitializeFromMap (2 ^ 20 + 1) map ⟨m, 0, 0⟩ = Option.some s ∧ s.pmmBitmap = 0x200000 ∧
      s.pmmMaxBlocks = highestUsableAddr map / pageSize ∧
      ∀ b < s.pmmMaxBlocks, bitmapTest s b = false ↔ FreedByMap map map.entryCount b := by
  obtain ⟨bitmap, blocks, taken⟩ := pmmInitialize_taken ⟨m, 0, 0⟩ ram (highestUsableAddr_le low)
    (show 0x200000 ≠ 0 by decide)
  obtain ⟨s, ran, same, bits⟩ := markRegions_bits (n := map.entryCount)
    (s := pmmInitialize ⟨m, 0, 0⟩ (highestUsableAddr map) 0x200000) low (Nat.le_refl _)
  refine ⟨s, ?_, same.1.trans bitmap, same.2.trans blocks, fun b small => ?_⟩
  · rw [pmmInitializeFromMap, if_neg (by omega)]
    exact ran
  · rw [same.2, blocks] at small
    rw [bits, taken b small]
    simp

/-! ## The frames that `vmm_initialize` takes -/

theorem findSome_first {f : Nat → Option Nat} (hit : f i = some b) (small : i < n) :
    ∃ j ≤ i, ∃ d, (List.range n).findSome? f = some d ∧ f j = some d := by
  cases found : (List.range n).findSome? f with
  | none =>
    rw [List.findSome?_eq_none_iff] at found
    rw [found i (List.mem_range.mpr small)] at hit
    cases hit
  | some d =>
    obtain ⟨before, j, after, shape, hitJ, missed⟩ := List.findSome?_eq_some_iff.mp found
    refine ⟨j, ?_, d, rfl, hitJ⟩
    have sorted : (before ++ j :: after).Pairwise (· < ·) := shape ▸ List.pairwise_lt_range
    have member : i ∈ before ++ j :: after := shape ▸ List.mem_range.mpr small
    rcases List.mem_append.mp member with member | member
    · rw [missed i member] at hit
      cases hit
    · rcases List.mem_cons.mp member with rfl | member
      · exact Nat.le_refl _
      · exact Nat.le_of_lt ((List.pairwise_cons.mp (List.pairwise_append.mp sorted).2.1).1 i member)

/-- The block handed out lies no higher than any clear block that the word
scan covers. -/
theorem pmmAllocBlock_lowest (clear : bitmapTest s b = false) (valid : pmmBlockIsValid s b = true)
    (scanned : b / 32 < s.pmmMaxBlocks / 32) :
    ∃ d ≤ b, pmmAllocBlock s = (d * pageSize % 2 ^ 32, bitmapSet s d) ∧
      pmmBlockIsValid s d = true ∧ bitmapTest s d = false := by
  rw [valid_of_clearBit valid] at clear
  have notFull : bitmapWord s (b / 32) ≠ 0xFFFFFFFF := by
    intro full
    rw [full, show (0xFFFFFFFF : Nat) = 2 ^ 32 - 1 by decide, Nat.testBit_two_pow_sub_one] at clear
    simp [Nat.mod_lt] at clear
  have whole : b / 32 * 32 + b % 32 = b := by omega
  obtain ⟨e, hit⟩ : ∃ e, clearBitOfWord s (b / 32) = some e := by
    simp only [clearBitOfWord, notFull, ne_eq, not_false_eq_true, ↓reduceIte]
    cases found : (List.range 32).find? fun j =>
        !(bitmapWord s (b / 32)).testBit j && pmmBlockIsValid s (b / 32 * 32 + j) with
    | some j => exact ⟨_, rfl⟩
    | none =>
      have := List.find?_eq_none.mp found (b % 32) (List.mem_range.mpr (Nat.mod_lt _ (by decide)))
      simp [whole, clear, valid] at this
  obtain ⟨i, first, d, found, hitD⟩ := findSome_first hit scanned
  obtain ⟨validD, clearD⟩ := clearBitOfWord_clear hitD
  have set : s.pmmBitmap ≠ 0 ∧ s.pmmMaxBlocks ≠ 0 := by
    simp only [pmmBlockIsValid, decide_eq_true_eq] at valid
    omega
  refine ⟨d, ?_, by simp [pmmAllocBlock, set, found], validD, clearD⟩
  -- within its word, too, the scan stops at the first clear bit
  unfold clearBitOfWord at hitD
  split at hitD
  · obtain ⟨j, hitJ, rfl⟩ := Option.map_eq_some_iff.mp hitD
    obtain ⟨-, small, missed⟩ := List.find?_range_eq_some.mp hitJ
    have smallJ := List.mem_range.mp small
    by_cases same : i = b / 32
    · subst same
      by_contra beyond
      have := missed (b % 32) (by omega)
      simp [whole, clear, valid] at this
    · omega
  · cases hitD

/-- The bitmap of at most 1 MiB lies below every frame that is free. -/
structure BitmapBelow (s : PmmState) : Prop where
  bitmap : s.pmmBitmap = 0x200000
  blocks : s.pmmMaxBlocks ≤ 2 ^ 20
  free : ∀ b < s.pmmMaxBlocks, bitmapTest s b = false → 0x300 ≤ b

theorem bitmapTest_agree (below : BitmapBelow s) (same : AgreeOn s.mem m 0x200000 0x300000) (b : Nat) :
    bitmapTest { s with mem := m } b = bitmapTest s b := by
  by_cases valid : pmmBlockIsValid s b = true
  · have small : b < s.pmmMaxBlocks := by
      simp only [pmmBlockIsValid, decide_eq_true_eq] at valid
      exact valid.2
    have blocks := below.blocks
    have word : bitmapWord { s with mem := m } (b / 32) = bitmapWord s (b / 32) := by
      simp only [bitmapWord, below.bitmap]
      exact readWord_agree same (by omega) (by omega)
    have : pmmBlockIsValid { s with mem := m } b = true := valid
    rw [valid_of_clearBit this, valid_of_clearBit valid, word]
  · have : pmmBlockIsValid { s with mem := m } b = false := Bool.eq_false_iff.mpr valid
    simp [bitmapTest, this, valid]

theorem bitmapBelow_agree (below : BitmapBelow s) (same : AgreeOn s.mem m 0x200000 0x300000) :
    BitmapBelow { s with mem := m } where
  bitmap := below.bitmap
  blocks := below.blocks
  free b small clear := below.free b small (by rwa [bitmapTest_agree below same] at clear)

theorem bitmapBelow_set (below : BitmapBelow s) (d : Nat) : BitmapBelow (bitmapSet s d) where
  bitmap := (bitmapSet_same s d).1.trans below.bitmap
  blocks := by
    rw [(bitmapSet_same s d).2]
    exact below.blocks
  free b small clear := by
    rw [(bitmapSet_same s d).2] at small
    rw [bitmapTest_bitmapSet, Bool.or_eq_false_iff] at clear
    exact below.free b small clear.1

theorem pmmAllocBlock_above (below : BitmapBelow s) :
    BitmapBelow (pmmAllocBlock s).2 ∧ ((pmmAllocBlock s).1 = 0 ∨ 0x300000 ≤ (pmmAllocBlock s).1) := by
  rcases pmmAllocBlock_block s with same | ⟨d, same, valid, clear⟩
  · rw [same]
    exact ⟨below, Or.inl rfl⟩
  · rw [same]
    have small : d < s.pmmMaxBlocks := by
      simp only [pmmBlockIsValid, decide_eq_true_eq] at valid
      exact valid.2
    have high := below.free d small clear
    have blocks := below.blocks
    refine ⟨bitmapBelow_set below d, Or.inr ?_⟩
    unfold pageSize
    omega

theorem agreeOn_trans (first : AgreeOn m m' lo hi) (second : AgreeOn m' m'' lo hi) :
    AgreeOn m m'' lo hi :=
  fun x above below => (second x above below).trans (first x above below)

theorem memset_agree (above : hi ≤ a) : AgreeOn m (memset m a v n) lo hi := by
  intro x _ below
  have : ¬ (a ≤ x ∧ x < a + n) := by omega
  simp [memset, this]

theorem setEntry_agree (above : hi ≤ table) : AgreeOn m (setEntry m table i v) lo hi :=
  writeWord_agree _ _ _ _ _ (by omega)

theorem fillTable_agree (above : hi ≤ table) : AgreeOn m (fillTable m table n f) lo hi := by
  unfold fillTable
  induction n with
  | zero => exact fun _ _ _ => rfl
  | succ n ih =>
    rw [List.range_succ, List.foldl_append, List.foldl_cons, List.foldl_nil]
    exact agreeOn_trans ih (setEntry_agree above)

/-- The bits after `vmm_initialize` are those after its three calls of
`pmm_alloc_block`, or after the first when that fails. -/
theorem vmmInitialize_bits (below : BitmapBelow s) :
    ∃ t, BitmapBelow t ∧ SameFrames s t ∧
      (∀ b, bitmapTest t b = bitmapTest (pmmAllocBlock s).2 b) ∧
      BitmapBelow (vmmInitialize s).pmm ∧
      ((∀ b, bitmapTest (vmmInitialize s).pmm b = bitmapTest t b) ∨
        ∀ b, bitmapTest (vmmInitialize s).pmm b =
          bitmapTest (pmmAllocBlock (pmmAllocBlock t).2).2 b) := by
  have belowFirst := (pmmAllocBlock_above below).1
  have high := (pmmAllocBlock_above below).2
  have same := pmmAllocBlock_same s
  unfold vmmInitialize
  dsimp only
  generalize (pmmAllocBlock s).1 = directory at *
  generalize (pmmAllocBlock s).2 = first at *
  split
  · exact ⟨first, belowFirst, same, fun _ => rfl, belowFirst, Or.inl fun _ => rfl⟩
  · rename_i nonnull
    have agree : AgreeOn first.mem (memset first.mem directory 0 pageSize) 0x200000 0x300000 :=
      memset_agree (by omega)
    refine ⟨{ first with mem := memset first.mem directory 0 pageSize },
      bitmapBelow_agree belowFirst agree, same, fun b => bitmapTest_agree belowFirst agree b, ?_⟩
    have belowCleared := bitmapBelow_agree belowFirst agree
    generalize ({ first with mem := memset first.mem directory 0 pageSize } : PmmState) = cleared at *
    have belowSecond := (pmmAllocBlock_above belowCleared).1
    have belowThird := (pmmAllocBlock_above belowSecond).1
    have highSecond := (pmmAllocBlock_above belowCleared).2
    have highThird := (pmmAllocBlock_above belowSecond).2
    split
    · exact ⟨belowThird, Or.inr fun _ => rfl⟩
    · rename_i tables
      have agree : ∀ v0 v1 v2, AgreeOn (pmmAllocBlock (pmmAllocBlock cleared).2).2.mem
          (setEntry (setEntry (setEntry (fillTable (fillTable
            (pmmAllocBlock (pmmAllocBlock cleared).2).2.mem
            (pmmAllocBlock cleared).1 1024 (identityEntry 0))
            (pmmAllocBlock (pmmAllocBlock cleared).2).1 1024 (identityEntry 0x400000))
            directory 0 v0) directory 1 v1) directory 1023 v2) 0x200000 0x300000 := by
        intro v0 v1 v2
        refine agreeOn_trans ?_ (setEntry_agree (by omega))
        refine agreeOn_trans ?_ (setEntry_agree (by omega))
        refine agreeOn_trans ?_ (setEntry_agree (by omega))
        exact agreeOn_trans (fillTable_agree (by omega)) (fillTable_agree (by omega))
      exact ⟨bitmapBelow_agree belowThird (agree _ _ _),
        Or.inr fun b => bitmapTest_agree belowThird (agree _ _ _) b⟩

/-- A clear block with three clear blocks below it is none of those that
`vmm_initialize` takes. -/
theorem vmmInitialize_keeps_clear (below : BitmapBelow s) (set : b < s.pmmMaxBlocks)
    (scanned : b / 32 < s.pmmMaxBlocks / 32) (clear : bitmapTest s b = false)
    (lower : b1 < b2 ∧ b2 < b3 ∧ b3 < b) (clear1 : bitmapTest s b1 = false)
    (clear2 : bitmapTest s b2 = false) (clear3 : bitmapTest s b3 = false) :
    bitmapTest (vmmInitialize s).pmm b = false := by
  obtain ⟨t, belowT, same, bitsT, -, bits⟩ := vmmInitialize_bits below
  have valid : ∀ c < s.pmmMaxBlocks, pmmBlockIsValid s c = true := by
    intro c small
    simp [pmmBlockIsValid, below.bitmap, small]
  obtain ⟨d1, le1, first, -, -⟩ := pmmAllocBlock_lowest clear1 (valid b1 (by omega)) (by omega)
  simp only [first, bitmapTest_bitmapSet] at bitsT
  have validT : ∀ c < s.pmmMaxBlocks, pmmBlockIsValid t c = true := by
    intro c small
    rw [sameFrames_valid same, valid c small]
  have clearT : ∀ c, d1 < c → bitmapTest s c = false → bitmapTest t c = false := by
    intro c above clearC
    have : c ≠ d1 := by omega
    simp [bitsT, clearC, this]
  rcases bits with bits | bits
  · rw [bits]
    exact clearT b (by omega) clear
  · obtain ⟨d2, le2, second, -, -⟩ := pmmAllocBlock_lowest (clearT b2 (by omega) clear2)
      (validT b2 (by omega)) (by rw [same.2]; omega)
    rw [second] at bits
    have sameSet := bitmapSet_same t d2
    have clearSet : ∀ c, d2 < c → bitmapTest t c = false → bitmapTest (bitmapSet t d2) c = false := by
      intro c above clearC
      have : c ≠ d2 := by omega
      simp [bitmapTest_bitmapSet, clearC, this]
    obtain ⟨d3, le3, third, -, -⟩ := pmmAllocBlock_lowest
      (clearSet b3 (by omega) (clearT b3 (by omega) clear3))
      (by rw [sameFrames_valid sameSet, validT b3 (by omega)])
      (by rw [sameSet.2, same.2]; omega)
    have : b ≠ d3 := by omega
    rw [bits, third, bitmapTest_bitmapSet, clearSet b (by omega) (clearT b (by omega) clear)]
    simp [this]

theorem vmmInitialize_keeps_set (below : BitmapBelow s) (set : bitmapTest s b = true) :
    bitmapTest (vmmInitialize s).pmm b = true := by
  obtain ⟨t, belowT, same, bitsT, -, bits⟩ := vmmInitialize_bits below
  have keeps : ∀ t, bitmapTest t b = true → bitmapTest (pmmAllocBlock t).2 b = true := by
    intro t held
    rcases pmmAllocBlock_block t with handed | ⟨d, handed, -, -⟩
    · rwa [handed]
    · simp [handed, bitmapTest_bitmapSet, held]
  have setT : bitmapTest t b = true := (bitsT b).trans (keeps s set)
  rcases bits with bits | bits
  · exact (bits b).trans setT
  · exact (bits b).trans (keeps _ (keeps t setT))

end MeowMeowOS.BootFrames

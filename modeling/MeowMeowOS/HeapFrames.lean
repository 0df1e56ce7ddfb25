import MeowMeowOS.BootFrames
import MeowMeowOS.KernelHeap
import MeowMeowOS.GuardedRuns
import Mathlib.Data.Finset.Card
import Mathlib.Data.Finset.Range

/-! The kernel heap sits at a fixed physical address, and the frame allocator
is never told. Whether a run can hand out its frames depends only on the
bitmap that the boot sequence leaves: `pmm_alloc_contiguous_blocks` reaches
every clear bit, and nothing else clears one. -/
namespace MeowMeowOS.HeapFrames
open ByteMemory PhysicalFrames VirtualMemory BootFrames GuardedRuns

def heapStart : Nat := 0x600000

def heapSize : Nat := 0x100000

/-- `pmm_initialize_from_map`, `vmm_initialize` and `heap_initialize` in the
order of `kernel_bootstrap`, from cleared static variables. -/
def kernelBootstrap (fuel : Nat) (map : MemoryMap) (m : Mem) : Option PmmState :=
  match pmmInitializeFromMap fuel map ⟨m, 0, 0⟩ with
  | none => none
  | some s =>
    let s := (vmmInitialize s).pmm
    some { s with mem := (KernelHeap.heapInitialize s.mem heapStart heapSize).mem }

inductive FrameCall where
  | pmmAllocBlock
  | pmmAllocContiguousBlocks (count : Nat)
  | pmmFreeBlock (ptr : Nat)

/-- The returned address and the state after the call. -/
def call (s : PmmState) : FrameCall → Nat × PmmState
  | .pmmAllocBlock => pmmAllocBlock s
  | .pmmAllocContiguousBlocks count => pmmAllocContiguousBlocks s count
  | .pmmFreeBlock ptr => (0, pmmFreeBlock s ptr)

def framesAsked : FrameCall → Nat
  | .pmmAllocBlock => 1
  | .pmmAllocContiguousBlocks count => count
  | .pmmFreeBlock _ => 0

/-- The frame at `a` shares a byte with the kernel heap. -/
def OverlapsHeap (a : Nat) : Prop := a < heapStart + heapSize ∧ heapStart < a + pageSize

/-- One of the frames that a successful call returns is the heap's. -/
def ReturnsHeapFrame (s : PmmState) (c : FrameCall) : Prop :=
  (call s c).1 ≠ 0 ∧ ∃ j < framesAsked c, OverlapsHeap (((call s c).1 + j * pageSize) % 2 ^ 32)

inductive FrameStep : PmmState → FrameCall → PmmState → Prop where
  | step (c : FrameCall) : FrameStep s c (call s c).2

/-- Arguments are 32-bit words, and nobody frees a frame of the heap. -/
def LeavesHeap (_ : PmmState) : FrameCall → Prop
  | .pmmAllocBlock => True
  | .pmmAllocContiguousBlocks count => count < 2 ^ 32
  | .pmmFreeBlock ptr => ptr < 2 ^ 32 ∧ ¬ OverlapsHeap ptr

/-- Every block that names a frame of the heap is taken. -/
def HeapReserved (s : PmmState) : Prop :=
  ∀ b < s.pmmMaxBlocks, OverlapsHeap (b * pageSize % 2 ^ 32) → bitmapTest s b = true

/-! ## Boot leaves the allocator set up -/

/-- Without a bitmap there are no blocks. -/
def SetUp (s : PmmState) : Prop := s.pmmBitmap = 0 → s.pmmMaxBlocks = 0

theorem sameFrames_setUp (setUp : SetUp s) (same : SameFrames s s') : SetUp s' := by
  intro null
  rw [same.2]
  exact setUp (same.1 ▸ null)

theorem pmmInitialize_setUp (setUp : SetUp s) (bitmap : bitmapAddr ≠ 0) :
    SetUp (pmmInitialize s memSize bitmapAddr) := by
  unfold pmmInitialize
  split
  · exact setUp
  · refine sameFrames_setUp ?_ (foldl_same (fun s i => pmmMarkUsed_same s _) _ _)
    refine sameFrames_setUp ?_ (foldl_same (fun s i => pmmMarkUsed_same s _) _ _)
    refine sameFrames_setUp ?_ (foldl_same
      (fun s i => (⟨rfl, rfl⟩ : SameFrames s (setBitmapWord s i 0xFFFFFFFF))) _ _)
    exact fun null => absurd null bitmap

theorem markRegion_same (ran : markRegion fuel s addr stop = some s') : SameFrames s s' := by
  induction fuel generalizing s addr with
  | zero => cases ran
  | succ fuel ih =>
    simp only [markRegion] at ran
    split at ran
    · refine sameFrames_trans ?_ (ih ran)
      split
      · exact pmmMarkFree_same _ _
      · exact ⟨rfl, rfl⟩
    · cases ran
      exact ⟨rfl, rfl⟩

theorem markRegions_same (ran : markRegions fuel map s n = some s') : SameFrames s s' := by
  induction n generalizing s' with
  | zero =>
    cases ran
    exact ⟨rfl, rfl⟩
  | succ n ih =>
    simp only [markRegions] at ran
    split at ran
    · cases ran
    · rename_i t before
      split at ran
      · exact sameFrames_trans (ih before) (markRegion_same ran)
      · cases ran
        exact ih before

theorem vmmInitialize_same (s : PmmState) : SameFrames s (vmmInitialize s).pmm := by
  have first := pmmAllocBlock_same s
  unfold vmmInitialize
  dsimp only
  split
  · exact first
  · generalize cleared : ({ (pmmAllocBlock s).2 with
      mem := memset (pmmAllocBlock s).2.mem (pmmAllocBlock s).1 0 pageSize } : PmmState) = t
    have second : SameFrames s t := by
      rw [← cleared]
      exact first
    have last := sameFrames_trans (sameFrames_trans second (pmmAllocBlock_same t))
      (pmmAllocBlock_same (pmmAllocBlock t).2)
    split <;> exact last

theorem kernelBootstrap_setUp (boot : kernelBootstrap fuel map m = some s) : SetUp s := by
  unfold kernelBootstrap at boot
  split at boot
  · cases boot
  · rename_i t initialized
    cases boot
    have setUp : SetUp t := by
      unfold pmmInitializeFromMap at initialized
      split at initialized
      · rw [← Option.some.inj initialized, pmmInitializeSafeMode]
        have initial : SetUp (pmmInitialize ⟨m, 0, 0⟩ (32 * 1024 * 1024) 0x200000) :=
          pmmInitialize_setUp (fun _ => rfl) (by decide)
        exact sameFrames_setUp initial (foldl_same (fun s i => pmmMarkFree_same s _) _ _)
      · exact sameFrames_setUp (pmmInitialize_setUp (fun _ => rfl) (by decide))
          (markRegions_same initialized)
    exact sameFrames_setUp setUp (vmmInitialize_same t)

/-! ## Runs of the allocator -/

theorem call_same (s : PmmState) (c : FrameCall) : SameFrames s (call s c).2 := by
  cases c with
  | pmmAllocBlock => exact pmmAllocBlock_same s
  | pmmAllocContiguousBlocks count =>
    rcases pmmAllocContiguousBlocks_blocks s count with same | ⟨start, same, -, -⟩
    · rw [call, same]
      exact ⟨rfl, rfl⟩
    · rw [call, same]
      exact (bitmapTest_setRun s start count 0).1
  | pmmFreeBlock ptr =>
    simp only [call, pmmFreeBlock]
    split
    · exact ⟨rfl, rfl⟩
    · split
      · exact bitmapUnset_same _ _
      · exact ⟨rfl, rfl⟩

/-- Only a free clears a bit, and only the bit of the frame it names. -/
theorem call_keeps_set (set : bitmapTest s b = true)
    (spared : ∀ ptr, c = .pmmFreeBlock ptr → ptr / pageSize ≠ b) : bitmapTest (call s c).2 b = true := by
  cases c with
  | pmmAllocBlock =>
    rcases pmmAllocBlock_block s with same | ⟨b', same, -, -⟩
    · rwa [call, same]
    · rw [call, same]
      simp [bitmapTest_bitmapSet, set]
  | pmmAllocContiguousBlocks count =>
    rcases pmmAllocContiguousBlocks_blocks s count with same | ⟨start, same, -, -⟩
    · rwa [call, same]
    · rw [call, same]
      simp [(bitmapTest_setRun s start count b).2, set]
  | pmmFreeBlock ptr =>
    have other := spared ptr rfl
    simp only [call, pmmFreeBlock]
    split
    · exact set
    · split
      · simp [bitmapTest_bitmapUnset, set, Ne.symm other]
      · exact set

theorem step_reserved (reserved : HeapReserved s) (leaves : LeavesHeap s c)
    (moved : FrameStep s c s') : HeapReserved s' := by
  cases moved
  intro b small overlaps
  rw [(call_same s c).2] at small
  refine call_keeps_set (reserved b small overlaps) ?_
  rintro ptr rfl same
  -- a freed block below 4 GiB stands at its own address
  obtain ⟨word, outside⟩ := leaves
  unfold OverlapsHeap heapStart heapSize pageSize at *
  omega

theorem reserved_returns (reserved : HeapReserved s) : ¬ ReturnsHeapFrame s c := by
  rintro ⟨nonnull, j, small, overlaps⟩
  cases c with
  | pmmAllocBlock =>
    simp only [framesAsked, Nat.lt_one_iff] at small
    subst small
    rcases pmmAllocBlock_block s with same | ⟨b, same, valid, clear⟩
    · rw [call, same] at nonnull
      exact nonnull rfl
    · rw [call, same] at overlaps
      simp only [Nat.zero_mul, Nat.add_zero, Nat.mod_mod] at overlaps
      have inRange : b < s.pmmMaxBlocks := by simp_all [pmmBlockIsValid]
      rw [reserved b inRange overlaps] at clear
      cases clear
  | pmmAllocContiguousBlocks count =>
    rcases pmmAllocContiguousBlocks_blocks s count with same | ⟨start, same, fits, clear⟩
    · rw [call, same] at nonnull
      exact nonnull rfl
    · rw [call, same] at overlaps
      simp only [framesAsked] at small
      have frame : (start * pageSize % 2 ^ 32 + j * pageSize) % 2 ^ 32 =
          (start + j) * pageSize % 2 ^ 32 := by
        unfold pageSize
        omega
      rw [frame] at overlaps
      have taken := reserved (start + j) (by omega) overlaps
      rw [clear j small] at taken
      cases taken
  | pmmFreeBlock ptr => exact nonnull rfl

theorem one_block (setUp : SetUp s) (clear : bitmapTest s b = false) (small : b < s.pmmMaxBlocks) :
    ∃ d ≤ b, pmmAllocContiguousBlocks s 1 = (d * pageSize % 2 ^ 32, bitmapSet s d) ∧
      pmmBlockIsValid s d = true ∧ bitmapTest s d = false := by
  have null : s.pmmBitmap ≠ 0 := fun null => by
    have := setUp null
    omega
  obtain ⟨d, found, inRange, clearD, lowest⟩ := contiguousSearch_one small clear
  have le : d ≤ b := by
    by_contra beyond
    rw [lowest b (by omega)] at clear
    cases clear
  refine ⟨d, le, ?_, by simp [pmmBlockIsValid, null, inRange], clearD⟩
  have blocks : s.pmmMaxBlocks ≠ 0 := by omega
  simp [pmmAllocContiguousBlocks, null, blocks, found]

/-- Asking for one block at a time hands out every clear block, from the
lowest up. -/
theorem clear_block_handed_out (setUp : SetUp s) (clear : bitmapTest s b = false)
    (small : b < s.pmmMaxBlocks) :
    ∃ t, Run LeavesHeap FrameStep s t ∧
      (pmmAllocContiguousBlocks t 1).1 = b * pageSize % 2 ^ 32 := by
  generalize countEq : ((Finset.range b).filter fun d => bitmapTest s d = false).card = n
  induction n using Nat.strongRecOn generalizing s with
  | _ n ih =>
    obtain ⟨d, le, handed, valid, clearD⟩ := one_block setUp clear small
    by_cases same : d = b
    · exact ⟨s, Relation.ReflTransGen.refl, by rw [handed, same]⟩
    · -- the block taken first is no longer clear, so fewer lie below
      have fewer : ((Finset.range b).filter fun c => bitmapTest (bitmapSet s d) c = false).card < n := by
        rw [← countEq]
        refine Finset.card_lt_card (Finset.ssubset_iff_of_subset ?_ |>.mpr ⟨d, ?_, ?_⟩)
        · intro c member
          simp only [Finset.mem_filter, bitmapTest_bitmapSet, Bool.or_eq_false_iff] at member ⊢
          exact ⟨member.1, member.2.1⟩
        · simp only [Finset.mem_filter, Finset.mem_range]
          exact ⟨by omega, clearD⟩
        · simp [bitmapTest_bitmapSet, valid]
      have frames := bitmapSet_same s d
      obtain ⟨t, run, result⟩ := ih _ fewer (sameFrames_setUp setUp frames)
        (by simp [bitmapTest_bitmapSet, clear, Ne.symm same]) (by rw [frames.2]; exact small) rfl
      refine ⟨t, Relation.ReflTransGen.head ⟨.pmmAllocContiguousBlocks 1, by simp [LeavesHeap], ?_⟩ run, result⟩
      have := FrameStep.step (s := s) (.pmmAllocContiguousBlocks 1)
      rwa [call, handed] at this

/-- Runs after boot never hand out a frame of the heap exactly when boot has
left all of them marked as taken. -/
theorem heap_frames_spared_iff (boot : kernelBootstrap fuel map m = some s) :
    (∀ t c, Run LeavesHeap FrameStep s t → LeavesHeap t c → ¬ ReturnsHeapFrame t c) ↔
      HeapReserved s := by
  constructor
  · intro spared b small overlaps
    by_contra clear
    obtain ⟨t, run, result⟩ := clear_block_handed_out (kernelBootstrap_setUp boot)
      (by simpa using clear) small
    refine spared t (.pmmAllocContiguousBlocks 1) run (by simp [LeavesHeap]) ⟨?_, 0, by decide, ?_⟩
    · rw [call, result]
      unfold OverlapsHeap heapStart at overlaps
      unfold pageSize at *
      omega
    · rw [call, result]
      simpa using overlaps
  · intro reserved t c run _
    refine reserved_returns (run_invariant HeapReserved run reserved ?_)
    intro t c u held leaves moved
    exact step_reserved held leaves moved

/-! ## Maps below 4 GiB -/

section Maps
variable {map : MemoryMap}

theorem heapInitialize_agree (m : Mem) (above : hi ≤ start) :
    AgreeOn m (KernelHeap.heapInitialize m start size).mem lo hi := by
  unfold KernelHeap.heapInitialize KernelHeap.setMagic KernelHeap.setSize KernelHeap.setIsFree
    KernelHeap.setNext KernelHeap.setPrev
  refine agreeOn_trans ?_ (writeWord_agree _ _ _ _ _ (by omega))
  refine agreeOn_trans ?_ (writeWord_agree _ _ _ _ _ (by omega))
  refine agreeOn_trans ?_ (writeByte_agree _ _ _ _ _ (by omega))
  refine agreeOn_trans ?_ (writeWord_agree _ _ _ _ _ (by omega))
  exact writeWord_agree _ _ _ _ _ (by omega)

/-- The bits that boot leaves are those that `vmm_initialize` leaves, and the
map alone decides which are clear before it. -/
theorem kernelBootstrap_bits (low : Below4G map) (some : 0 < map.entryCount)
    (valid : map.entryCount < 0xFFFFFFFF) (ram : pageSize ≤ highestUsableAddr map) (m : Mem) :
    ∃ t s, BitmapBelow t ∧ t.pmmMaxBlocks = highestUsableAddr map / pageSize ∧
      (∀ b < t.pmmMaxBlocks, bitmapTest t b = false ↔ FreedByMap map map.entryCount b) ∧
      kernelBootstrap (2 ^ 20 + 1) map m = Option.some s ∧ s.pmmMaxBlocks = t.pmmMaxBlocks ∧
      ∀ b, bitmapTest s b = bitmapTest (vmmInitialize t).pmm b := by
  obtain ⟨t, ran, bitmap, blocks, bits⟩ := pmmInitializeFromMap_bits low some valid ram m
  have below : BitmapBelow t := by
    have bound := highestUsableAddr_le low
    refine ⟨bitmap, by rw [blocks]; unfold pageSize; omega, fun b small clear => ?_⟩
    obtain ⟨i, -, -, -, -, -, high⟩ := (bits b small).mp clear
    unfold pageSize at high
    omega
  obtain ⟨-, -, -, -, belowVmm, -⟩ := vmmInitialize_bits below
  refine ⟨t, { (vmmInitialize t).pmm with
      mem := (KernelHeap.heapInitialize (vmmInitialize t).pmm.mem heapStart heapSize).mem },
    below, blocks, bits, by rw [kernelBootstrap, ran], (vmmInitialize_same t).2, fun b => ?_⟩
  exact bitmapTest_agree belowVmm (heapInitialize_agree _ (by decide)) b

/-- A page of the heap's that the map frees is still free after boot when the
map frees three pages below it. -/
theorem kernelBootstrap_clear (low : Below4G map) (some : 0 < map.entryCount)
    (valid : map.entryCount < 0xFFFFFFFF) (scanned : b / 32 < highestUsableAddr map / pageSize / 32)
    (freed : FreedByMap map map.entryCount b) (lower : b1 < b2 ∧ b2 < b3 ∧ b3 < b)
    (freed1 : FreedByMap map map.entryCount b1) (freed2 : FreedByMap map map.entryCount b2)
    (freed3 : FreedByMap map map.entryCount b3) (m : Mem) :
    ∃ s, kernelBootstrap (2 ^ 20 + 1) map m = Option.some s ∧ b < s.pmmMaxBlocks ∧
      bitmapTest s b = false := by
  obtain ⟨t, s, below, blocks, bits, boot, same, kept⟩ :=
    kernelBootstrap_bits low some valid (by unfold pageSize at *; omega) m
  have small : b < t.pmmMaxBlocks := by omega
  refine ⟨s, boot, by omega, ?_⟩
  rw [kept]
  exact vmmInitialize_keeps_clear below small (by omega) ((bits b small).mpr freed) lower
    ((bits b1 (by omega)).mpr freed1) ((bits b2 (by omega)).mpr freed2)
    ((bits b3 (by omega)).mpr freed3)

/-- A map that frees no page of the heap's leaves the heap reserved. -/
theorem kernelBootstrap_reserved (low : Below4G map) (some : 0 < map.entryCount)
    (valid : map.entryCount < 0xFFFFFFFF) (ram : pageSize ≤ highestUsableAddr map)
    (spared : ∀ b, OverlapsHeap (b * pageSize) → ¬ FreedByMap map map.entryCount b) (m : Mem) :
    ∃ s, kernelBootstrap (2 ^ 20 + 1) map m = Option.some s ∧ HeapReserved s := by
  obtain ⟨t, s, below, blocks, bits, boot, same, kept⟩ := kernelBootstrap_bits low some valid ram m
  refine ⟨s, boot, fun b small overlaps => ?_⟩
  rw [same] at small
  have word : b * pageSize % 2 ^ 32 = b * pageSize := by
    have := below.blocks
    unfold pageSize
    omega
  rw [word] at overlaps
  have set : bitmapTest t b = true := by
    by_contra clear
    exact spared b overlaps ((bits b small).mp (by simpa using clear))
  rw [kept]
  exact vmmInitialize_keeps_set below set

end Maps

/-- A machine with RAM from 1 MiB up to 128 MiB. -/
def ram128 : MemoryMap := ⟨1, fun _ => ⟨0x100000, 0x7F00000, 1⟩⟩

theorem ram128_freed (above : 0x300 ≤ b) (small : b < 0x8000) : FreedByMap ram128 1 b := by
  have visited : Visited 0x100000 (0x100000 + 0x7F00000) b := by
    unfold Visited pageSize
    omega
  exact ⟨0, by decide, rfl, visited⟩

theorem ram128_below : Below4G ram128 := by
  intro i _ _
  change 0x100000 + 0x7F00000 ≤ 2 ^ 32
  omega

theorem ram128_highest : highestUsableAddr ram128 = 0x8000000 := by
  simp [highestUsableAddr, ram128, endOfRegion]

theorem ram128_booted : ∃ s, kernelBootstrap (2 ^ 20 + 1) ram128 (fun _ => 0) = some s ∧
    0x600 < s.pmmMaxBlocks ∧ bitmapTest s 0x600 = false := by
  have scanned : 0x600 / 32 < highestUsableAddr ram128 / pageSize / 32 := by
    simp [ram128_highest, pageSize]
  have freed : ∀ b, 0x300 ≤ b → b < 0x8000 → FreedByMap ram128 ram128.entryCount b :=
    fun b above small => ram128_freed above small
  have lower : 0x300 < 0x301 ∧ 0x301 < 0x302 ∧ 0x302 < 0x600 := by omega
  exact kernelBootstrap_clear ram128_below Nat.one_pos (by simp [ram128]) scanned
    (freed 0x600 (by omega) (by omega)) lower
    (freed 0x300 (by omega) (by omega)) (freed 0x301 (by omega) (by omega))
    (freed 0x302 (by omega) (by omega)) _

/-- On such a machine the allocator hands out the first frame of the heap. -/
theorem ram128_heap_frame_handed_out : ∃ s t,
    kernelBootstrap (2 ^ 20 + 1) ram128 (fun _ => 0) = some s ∧ Run LeavesHeap FrameStep s t ∧
      LeavesHeap t (.pmmAllocContiguousBlocks 1) ∧ ReturnsHeapFrame t (.pmmAllocContiguousBlocks 1) := by
  obtain ⟨s, boot, small, clear⟩ := ram128_booted
  obtain ⟨t, run, result⟩ := clear_block_handed_out (kernelBootstrap_setUp boot) clear small
  refine ⟨s, t, boot, run, by simp [LeavesHeap], ?_, 0, by decide, ?_⟩
  · simp [call, result, pageSize]
  · simp [call, result, pageSize, OverlapsHeap, heapStart, heapSize]

theorem heap_frames_spared_iff_ram128 :
    ∃ s, kernelBootstrap (2 ^ 20 + 1) ram128 (fun _ => 0) = some s ∧
      ((∀ t c, Run LeavesHeap FrameStep s t → LeavesHeap t c → ¬ ReturnsHeapFrame t c) ↔
        HeapReserved s) := by
  obtain ⟨s, boot, -, -⟩ := ram128_booted
  exact ⟨s, boot, heap_frames_spared_iff boot⟩

end MeowMeowOS.HeapFrames

import MeowMeowOS.HeapFrames
import MeowMeowOS.MappedPages

/-! The kernel's directory as boot leaves it: two tables that map the first
8 MiB to themselves, and nothing else. -/
namespace MeowMeowOS.BootDirectories
open ByteMemory PhysicalFrames VirtualMemory BootFrames FreeFrames AddressSpaces DirectoryLayout MappedPages HeapFrames

/-- The machine when the kernel heap has its first size. -/
def bootMachine (pmm : PmmState) (kernelDirectory : Nat) : Machine :=
  ⟨pmm, kernelDirectory, kernelDirectory, heapStart + heapSize, [kernelDirectory]⟩

/-- The machine when `kernel_bootstrap` has initialised the heap, before it maps
a VBE framebuffer. -/
def bootedMachine (fuel : Nat) (map : MemoryMap) (m : Mem) : Option Machine :=
  match pmmInitializeFromMap fuel map ⟨m, 0, 0⟩ with
  | none => none
  | some s =>
    let vmm := vmmInitialize s
    some (bootMachine { vmm.pmm with mem := (KernelHeap.heapInitialize vmm.pmm.mem heapStart heapSize).mem }
      vmm.kernelDirectory)

/-- What `vmm_initialize` leaves when its three frames are `b0`, `b1` and `b2`. -/
structure Booted (pmm : PmmState) (b0 b1 b2 : Nat) : Prop where
  below : BitmapBelow pmm
  taken : bitmapTest pmm b0 = true ∧ bitmapTest pmm b1 = true ∧ bitmapTest pmm b2 = true
  order : 0x300 ≤ b0 ∧ b0 < b1 ∧ b1 < b2 ∧ b2 < 0x600
  first : Names (entry pmm.mem (b0 * pageSize) 0) (b1 * pageSize) ∧
    Names (entry pmm.mem (b0 * pageSize) 1) (b2 * pageSize)
  absent : ∀ i, 2 ≤ i → i < 1023 → isPresent (entry pmm.mem (b0 * pageSize) i) = false
  identity0 : ∀ i < 1024, Names (entry pmm.mem (b1 * pageSize) i) (i * pageSize)
  identity1 : ∀ i < 1024, Names (entry pmm.mem (b2 * pageSize) i) (0x400000 + i * pageSize)

section
variable {s pmm : PmmState} {m : Mem} {b b0 b1 b2 : Nat} {rest : List Nat}

theorem fillTable_entries (m : Mem) (table n : Nat) (f : Nat → Nat) :
    (∀ i < n, entry (fillTable m table n f) table i = f i % 2 ^ 32) ∧
      (n ≤ 1024 → ∀ lo hi, hi ≤ table ∨ table + pageSize ≤ lo →
      AgreeOn m (fillTable m table n f) lo hi) := by
  induction n with
  | zero => exact ⟨fun i less => absurd less (Nat.not_lt_zero i), fun _ _ _ _ _ _ _ => rfl⟩
  | succ n ih =>
    have last : fillTable m table (n + 1) f = setEntry (fillTable m table n f) table n (f n) := by
      unfold fillTable
      rw [List.range_succ, List.foldl_append, List.foldl_cons, List.foldl_nil]
    rw [last]
    refine ⟨fun i less => ?_, fun small lo hi apart => ?_⟩
    · by_cases same : i = n
      · subst same
        exact entry_setEntry _ _ _ _
      · rw [entry_setEntry_ne (Ne.symm same)]
        exact ih.1 i (by omega)
    · exact agreeOn_trans (ih.2 (by omega) lo hi apart) (setEntry_outside (by omega) apart)

theorem names_identity (base : Nat) (small : base < 2 ^ 19) (i : Nat) (inside : i < 1024) :
    Names (identityEntry (base * pageSize) i % 2 ^ 32) (base * pageSize + i * pageSize) := by
  have shape : identityEntry (base * pageSize) i = (base + i) * pageSize + 3 := by
    unfold identityEntry pagePresent pageWrite
    rw [← Nat.add_mul, Nat.or_assoc, or_low (by decide)]
    rfl
  obtain ⟨word, present, named⟩ := entry_present (b := base + i) (v := 3) (by omega) (by decide) (by decide)
  rw [shape, word, ← Nat.add_mul]
  exact ⟨present, named⟩

theorem names_table (b : Nat) (small : b < 2 ^ 20) :
    Names ((b * pageSize ||| pagePresent ||| pageWrite) % 2 ^ 32) (b * pageSize) := by
  have shape : b * pageSize ||| pagePresent ||| pageWrite = b * pageSize + 3 := by
    unfold pagePresent pageWrite
    rw [Nat.or_assoc, or_low (by decide)]
    rfl
  obtain ⟨word, present, named⟩ := entry_present (b := b) (v := 3) small (by decide) (by decide)
  rw [shape, word]
  exact ⟨present, named⟩

/-- One more frame is taken, and its page filled. -/
theorem take_next (below : BitmapBelow s) (shape : freeBlocks s = b :: rest) :
    pmmAllocBlock s = (b * pageSize, bitmapSet s b) ∧ BitmapBelow (bitmapSet s b) ∧
    freeBlocks (bitmapSet s b) = rest ∧
      bitmapTest (bitmapSet s b) b = true ∧ (∀ c, bitmapTest s c = true → bitmapTest (bitmapSet s b) c = true) ∧
      ∀ hi, AgreeOn s.mem (bitmapSet s b).mem 0x300000 hi := by
  have free : b ∈ freeBlocks s := by simp [shape]
  have inside := (mem_freeBlocks.mp free).1
  have valid : pmmBlockIsValid s b = true := by
    simp only [pmmBlockIsValid, below.bitmap, decide_eq_true_eq]
    omega
  refine ⟨?_, bitmapBelow_set below b, freeBlocks_set below shape, ?_, fun c set => ?_, fun hi => ?_⟩
  · rcases pmmAllocBlock_pops below with ⟨none, -⟩ | ⟨c, rest', shape', handed, -⟩
    · rw [shape] at none
      cases none
    · obtain ⟨rfl, -⟩ := List.cons.inj (shape.symm.trans shape')
      exact handed
  · simp [bitmapTest_bitmapSet, valid]
  · rw [bitmapTest_bitmapSet, set]
    rfl
  · exact bitmapSet_agree (s := bootMachine s 0) below free

theorem pages_apart (ne : b ≠ c) :
    b * pageSize + pageSize ≤ c * pageSize ∨ c * pageSize + pageSize ≤ b * pageSize := by
  unfold pageSize
  omega

theorem vmmInitialize_booted (below : BitmapBelow s) (shape : freeBlocks s = b0 :: b1 :: b2 :: rest)
    (low : b2 < 0x600) :
    Booted (vmmInitialize s).pmm b0 b1 b2 ∧ (vmmInitialize s).kernelDirectory = b0 * pageSize ∧
      freeBlocks (vmmInitialize s).pmm = rest ∧
      entry (vmmInitialize s).pmm.mem (b0 * pageSize) 0 = (b1 * pageSize ||| pagePresent ||| pageWrite) % 2 ^ 32 ∧
      entry (vmmInitialize s).pmm.mem (b0 * pageSize) 1 = (b2 * pageSize ||| pagePresent ||| pageWrite) % 2 ^ 32 := by
  have sorted := freeBlocks_sorted s
  rw [shape] at sorted
  have less01 : b0 < b1 := (List.pairwise_cons.mp sorted).1 b1 List.mem_cons_self
  have less12 : b1 < b2 := (List.pairwise_cons.mp (List.pairwise_cons.mp sorted).2).1 b2 List.mem_cons_self
  have high0 := (freeBlocks_high below (show b0 ∈ freeBlocks s by simp [shape])).1
  have reach (b : Nat) (high : 0x300 ≤ b) : 0x300000 ≤ b * pageSize := by
    unfold pageSize
    omega
  -- the directory is taken and cleared
  obtain ⟨ran0, below0, free0, set0, -, -⟩ := take_next below shape
  generalize clearedEq : memset (bitmapSet s b0).mem (b0 * pageSize) 0 pageSize = cleared
  have bitmap0 : AgreeOn (bitmapSet s b0).mem cleared 0x200000 0x300000 := by
    rw [← clearedEq]
    exact memset_agree (reach b0 high0)
  have below1 := bitmapBelow_agree below0 bitmap0
  have shape1 : freeBlocks { bitmapSet s b0 with mem := cleared } = b1 :: b2 :: rest :=
    (freeBlocks_agree below0 bitmap0).trans free0
  have set1 := (bitmapTest_agree below0 bitmap0 b0).trans set0
  -- the two tables
  obtain ⟨ran1, below2, free1, own1, kept1, agree1⟩ := take_next below1 shape1
  obtain ⟨ran2, below3, free2, own2, kept2, agree2⟩ := take_next below2 free1
  generalize lastEq : bitmapSet (bitmapSet { bitmapSet s b0 with mem := cleared } b1) b2 =
    p3 at ran2 below3 free2 own2 kept2 agree2
  have zero : ∀ i < 1024, entry p3.mem (b0 * pageSize) i = 0 := by
    intro i small
    have same : AgreeOn cleared p3.mem (b0 * pageSize) (b0 * pageSize + pageSize) := fun x above under => by
      have high := Nat.le_trans (reach b0 high0) above
      rw [agree2 (b0 * pageSize + pageSize) x high under, agree1 (b0 * pageSize + pageSize) x high under]
    rw [entry_agree same small, ← clearedEq]
    exact entry_cleared _ _ small
  obtain ⟨entries1, outside1⟩ := fillTable_entries p3.mem (b1 * pageSize) 1024 (identityEntry 0)
  generalize filled1Eq : fillTable p3.mem (b1 * pageSize) 1024 (identityEntry 0) = filled1 at entries1 outside1
  obtain ⟨entries2, outside2⟩ := fillTable_entries filled1 (b2 * pageSize) 1024 (identityEntry 0x400000)
  generalize filled2Eq : fillTable filled1 (b2 * pageSize) 1024 (identityEntry 0x400000) = filled2 at entries2 outside2
  generalize memEq :
    setEntry (setEntry (setEntry filled2 (b0 * pageSize) 0 (b1 * pageSize ||| pagePresent ||| pageWrite))
    (b0 * pageSize) 1 (b2 * pageSize ||| pagePresent ||| pageWrite)) (b0 * pageSize) 1023
    (b0 * pageSize ||| pagePresent ||| pageWrite) = m
  have stored (lo hi : Nat) (apart : hi ≤ b0 * pageSize ∨ b0 * pageSize + pageSize ≤ lo) :
    AgreeOn filled2 m lo hi := by
    rw [← memEq]
    exact agreeOn_trans (agreeOn_trans (setEntry_outside (by decide) apart) (setEntry_outside (by decide) apart))
      (setEntry_outside (by decide) apart)
  have bitmap : AgreeOn p3.mem m 0x200000 0x300000 :=
    agreeOn_trans (agreeOn_trans (outside1 (by decide) _ _ (.inl (reach b1 (by omega))))
      (outside2 (by decide) _ _ (.inl (reach b2 (by omega))))) (stored _ _ (.inl (reach b0 high0)))
  have result : vmmInitialize s = ⟨{ p3 with mem := m }, b0 * pageSize⟩ := by
    have nonzero (b : Nat) (high : 0x300 ≤ b) : ¬ b * pageSize = 0 := by
      have := reach b high
      omega
    unfold vmmInitialize
    rw [ran0]
    dsimp only
    rw [if_neg (nonzero b0 high0), clearedEq, ran1]
    dsimp only
    rw [ran2]
    dsimp only
    rw [if_neg (not_or.mpr ⟨nonzero b1 (by omega), nonzero b2 (by omega)⟩), filled1Eq, filled2Eq, memEq]
  have directory (i : Nat) (small : i < 1024) : entry filled2 (b0 * pageSize) i = 0 := by
    rw [entry_agree (outside2 (by decide) _ _ (pages_apart (by omega))) small,
      entry_agree (outside1 (by decide) _ _ (pages_apart (by omega))) small, zero i small]
  have first : entry m (b0 * pageSize) 0 = (b1 * pageSize ||| pagePresent ||| pageWrite) % 2 ^ 32 := by
    rw [← memEq, entry_setEntry_ne (by decide), entry_setEntry_ne (by decide), entry_setEntry]
  have second : entry m (b0 * pageSize) 1 = (b2 * pageSize ||| pagePresent ||| pageWrite) % 2 ^ 32 := by
    rw [← memEq, entry_setEntry_ne (by decide), entry_setEntry]
  rw [result]
  refine ⟨⟨bitmapBelow_agree below3 bitmap, ?_, ⟨high0, less01, less12, low⟩, ⟨?_, ?_⟩, ?_, ?_, ?_⟩, rfl,
    (freeBlocks_agree below3 bitmap).trans free2, first, second⟩
  · have tests (c : Nat) : bitmapTest { p3 with mem := m } c = bitmapTest p3 c := bitmapTest_agree below3 bitmap c
    rw [tests, tests, tests]
    exact ⟨kept2 b0 (kept1 b0 set1), kept2 b1 own1, own2⟩
  · exact first.symm ▸ names_table b1 (by omega)
  · exact second.symm ▸ names_table b2 (by omega)
  · intro i lower upper
    rw [← memEq, entry_setEntry_ne (by omega), entry_setEntry_ne (by omega), entry_setEntry_ne (by omega),
      directory i (by omega)]
    rfl
  · intro i small
    have names := names_identity 0 (by decide) i small
    rw [Nat.zero_mul, Nat.zero_add] at names
    dsimp only
    rw [entry_agree (stored _ _ (pages_apart (by omega))) small,
      entry_agree (outside2 (by decide) _ _ (pages_apart (by omega))) small, entries1 i small]
    exact names
  · intro i small
    have names := names_identity 0x400 (by decide) i small
    dsimp only
    rw [entry_agree (stored _ _ (pages_apart (by omega))) small, entries2 i small]
    exact names

/-! ## The machine after boot -/

/-- The first block of the heap changes neither the bitmap nor the three frames. -/
theorem booted_agree (booted : Booted pmm b0 b1 b2) (same : ∀ lo hi, hi ≤ 0x600000 → AgreeOn pmm.mem m lo hi) :
    Booted { pmm with mem := m } b0 b1 b2 := by
  have bitmap := same 0x200000 0x300000 (by decide)
  obtain ⟨high, less01, less12, low⟩ := booted.order
  have entries (b : Nat) (small : b < 0x600) (i : Nat) (inside : i < 1024) :
      entry m (b * pageSize) i = entry pmm.mem (b * pageSize) i :=
    entry_agree (same _ _ (by unfold pageSize; omega)) inside
  have tests (b : Nat) : bitmapTest { pmm with mem := m } b = bitmapTest pmm b := bitmapTest_agree booted.below bitmap b
  refine ⟨bitmapBelow_agree booted.below bitmap, ?_, booted.order, ?_, fun i lower upper => ?_, fun i small => ?_,
    fun i small => ?_⟩
  · rw [tests, tests, tests]
    exact booted.taken
  · rw [entries b0 (by omega) 0 (by decide), entries b0 (by omega) 1 (by decide)]
    exact booted.first
  · rw [entries b0 (by omega) i (by omega)]
    exact booted.absent i lower upper
  · rw [entries b1 (by omega) i small]
    exact booted.identity0 i small
  · rw [entries b2 low i small]
    exact booted.identity1 i small

theorem present_first (booted : Booted pmm b0 b1 b2) (small : i < 1023)
    (present : isPresent (entry pmm.mem (b0 * pageSize) i) = true) :
    (i = 0 ∧ frameOf (entry pmm.mem (b0 * pageSize) i) = b1 * pageSize) ∨
      (i = 1 ∧ frameOf (entry pmm.mem (b0 * pageSize) i) = b2 * pageSize) := by
  rcases Nat.lt_or_ge i 2 with low | high
  · rcases Nat.lt_or_ge i 1 with zero | one
    · obtain rfl : i = 0 := by omega
      exact .inl ⟨rfl, booted.first.1.2⟩
    · obtain rfl : i = 1 := by omega
      exact .inr ⟨rfl, booted.first.2.2⟩
  · rw [booted.absent i high small] at present
    cases present

theorem booted_spaces (booted : Booted pmm b0 b1 b2) :
    Spaces (bootMachine pmm (b0 * pageSize)) (b1 * pageSize) (b2 * pageSize) := by
  obtain ⟨high, less01, less12, low⟩ := booted.order
  obtain ⟨taken0, taken1, taken2⟩ := booted.taken
  have held (b : Nat) (taken : bitmapTest pmm b = true) (above : 0x300 ≤ b) (under : b < 0x600) :
      HeldFrame (bootMachine pmm (b0 * pageSize)) (b * pageSize) := ⟨b, rfl, taken, above, by omega, .inl under⟩
  have apart (b c : Nat) (ne : b ≠ c) : b * pageSize ≠ c * pageSize := fun same =>
    ne (Nat.eq_of_mul_eq_mul_right (by decide) same)
  refine ⟨booted.below, List.mem_cons_self, List.mem_cons_self,
    ⟨Nat.le_refl 0x700000, show (heapStart + heapSize) % pageSize = 0 by decide⟩, ?_,
    ⟨held b1 taken1 (by omega) (by omega), held b2 taken2 (by omega) low, apart b1 b2 (by omega), ?_, ?_⟩, ?_, ?_,
    booted.identity0, fun i small _ => booted.identity1 i small⟩
  · intro d member
    obtain rfl := List.mem_singleton.mp member
    exact held b0 taken0 high (by omega)
  · exact fun member => apart b1 b0 (by omega) (List.mem_singleton.mp member)
  · exact fun member => apart b2 b0 (by omega) (List.mem_singleton.mp member)
  · intro d member
    obtain rfl := List.mem_singleton.mp member
    exact booted.first
  · intro d member i lower upper present
    obtain rfl := List.mem_singleton.mp member
    change isPresent (entry pmm.mem (b0 * pageSize) i) = true at present
    rw [booted.absent i lower upper] at present
    cases present

theorem booted_walkable (booted : Booted pmm b0 b1 b2) :
    Walkable (bootMachine pmm (b0 * pageSize)) (b0 * pageSize) := by
  obtain ⟨high, less01, less12, low⟩ := booted.order
  obtain ⟨taken0, taken1, taken2⟩ := booted.taken
  have apart (b c : Nat) (ne : b ≠ c) : b * pageSize ≠ c * pageSize := fun same =>
    ne (Nat.eq_of_mul_eq_mul_right (by decide) same)
  refine ⟨booted.below, ⟨b0, rfl, taken0, high, by omega⟩, ?_, ?_⟩
  · rintro f ⟨i, small, present, named⟩
    rcases present_first booted small present with ⟨-, first⟩ | ⟨-, second⟩
    · obtain rfl := first.symm.trans named
      exact ⟨⟨b1, rfl, taken1, by omega, by omega⟩, apart b1 b0 (by omega)⟩
    · obtain rfl := second.symm.trans named
      exact ⟨⟨b2, rfl, taken2, by omega, by omega⟩, apart b2 b0 (by omega)⟩
  · intro i smallI j smallJ presentI presentJ same
    change frameOf (entry pmm.mem (b0 * pageSize) i) = frameOf (entry pmm.mem (b0 * pageSize) j) at same
    rcases present_first booted smallI presentI with ⟨rfl, first⟩ | ⟨rfl, second⟩ <;>
      rcases present_first booted smallJ presentJ with ⟨rfl, first'⟩ | ⟨rfl, second'⟩
    · rfl
    · exact absurd (first.symm.trans (same.trans second')) (apart b1 b2 (by omega))
    · exact absurd (first'.symm.trans (same.symm.trans second)) (apart b1 b2 (by omega))
    · rfl

end

/-! ## 128 MiB -/

theorem ram128_frames (below : BitmapBelow s) (blocks : s.pmmMaxBlocks = 0x8000)
    (bits : ∀ b < s.pmmMaxBlocks, bitmapTest s b = false ↔ FreedByMap ram128 1 b) :
    freeBlocks s = List.range' 0x300 0x7D00 := by
  have clear (b : Nat) (small : b < 0x8000) : bitmapTest s b = false ↔ 0x300 ≤ b := by
    constructor
    · exact below.free b (blocks ▸ small)
    · exact fun above => (bits b (blocks ▸ small)).mpr (ram128_freed above small)
  unfold freeBlocks
  rw [blocks, List.range_eq_range', show 0x8000 / 32 * 32 = 0x300 + 0x7D00 from rfl, ← List.range'_append_1,
    List.filter_append]
  have low : (List.range' 0 0x300).filter (fun b => bitmapTest s b = false) = [] := by
    apply List.filter_eq_nil_iff.mpr
    intro b member
    have bound := (List.mem_range'_1.mp member).2
    rw [decide_eq_true_eq, clear b (by omega)]
    omega
  have rest : (List.range' (0 + 0x300) 0x7D00).filter (fun b => bitmapTest s b = false) = List.range' 0x300 0x7D00 := by
    apply List.filter_eq_self.mpr
    intro b member
    have bound := List.mem_range'_1.mp member
    rw [decide_eq_true_eq, clear b (by omega)]
    omega
  rw [low, rest, List.nil_append]

theorem isUser_table (b : Nat) : isUser ((b * pageSize ||| pagePresent ||| pageWrite) % 2 ^ 32) = false := by
  have shape : b * pageSize ||| pagePresent ||| pageWrite = b * pageSize + 3 := by
    unfold pagePresent pageWrite
    rw [Nat.or_assoc, or_low (by decide)]
    rfl
  rw [shape, isUser, Nat.testBit_mod_two_pow, Nat.testBit_eq_decide_div_mod_eq]
  have zero : (b * pageSize + 3) / 2 ^ 2 % 2 = 0 := by
    unfold pageSize
    omega
  rw [zero]
  rfl

/-- What 128 MiB of memory leave: the kernel's directory serves no program. -/
theorem ram128_kernel : ∃ pmm b0 b1 b2, bootedMachine (2 ^ 20 + 1) ram128 (fun _ => 0) =
      some (bootMachine pmm (b0 * pageSize)) ∧ Booted pmm b0 b1 b2 ∧ freeBlocks pmm = List.range' 0x303 0x7CFD ∧
    ∀ i < 2, isUser (entry pmm.mem (b0 * pageSize) i) = false := by
  obtain ⟨s, ran, bitmap, blocks, bits⟩ := pmmInitializeFromMap_bits ram128_below Nat.one_pos (by decide)
    (by rw [ram128_highest]; decide) fun _ => 0
  rw [ram128_highest] at blocks
  have below : BitmapBelow s := by
    refine ⟨bitmap, by rw [blocks]; decide, fun b small clear => ?_⟩
    obtain ⟨i, -, -, -, -, -, high⟩ := (bits b small).mp clear
    unfold pageSize at high
    omega
  have shape : freeBlocks s = 0x300 :: 0x301 :: 0x302 :: List.range' 0x303 0x7CFD := ram128_frames below blocks bits
  obtain ⟨booted, directory, free, first, second⟩ := vmmInitialize_booted below shape (by decide)
  have same (lo hi : Nat) (above : hi ≤ 0x600000) : AgreeOn (vmmInitialize s).pmm.mem
      (KernelHeap.heapInitialize (vmmInitialize s).pmm.mem heapStart heapSize).mem lo hi := heapInitialize_agree _ above
  refine ⟨_, _, _, _, ?_, booted_agree booted same,
    (freeBlocks_agree booted.below (same _ _ (by decide))).trans free, ?_⟩
  · rw [bootedMachine, ran]
    dsimp only
    rw [directory]
  · intro i small
    rw [entry_agree (same _ _ (by decide)) (by omega)]
    rcases Nat.lt_or_ge i 1 with zero | one
    · obtain rfl : i = 0 := by omega
      rw [first]
      exact isUser_table _
    · obtain rfl : i = 1 := by omega
      rw [second]
      exact isUser_table _

/-- With 128 MiB of memory the frames from 0x303 on are free after boot. -/
theorem ram128_machine : ∃ s t0 t1, bootedMachine (2 ^ 20 + 1) ram128 (fun _ => 0) = some s ∧ Spaces s t0 t1 ∧
    Walkable s s.kernelDirectory ∧ s.heapCurrentEnd = 0x700000 ∧ freeBlocks s.pmm = List.range' 0x303 0x7CFD := by
  obtain ⟨pmm, b0, b1, b2, ran, booted, free, -⟩ := ram128_kernel
  exact ⟨_, _, _, ran, booted_spaces booted, booted_walkable booted, rfl, free⟩

end MeowMeowOS.BootDirectories

import MeowMeowOS.AddressSpaces

/-! What holds of the page directories as long as each directory and each table
is taken from frames that are still mapped to themselves: below the kernel heap,
or between the end of the heap and 8 MiB. -/
namespace MeowMeowOS.DirectoryLayout
open ByteMemory PhysicalFrames VirtualMemory BootFrames FreeFrames AddressSpaces

/-- The blocks whose pages still map to themselves and that are not the heap's. -/
def InWindow (heapEnd b : Nat) : Prop := 0x300 ≤ b ∧ b < 0x800 ∧ (b < 0x600 ∨ heapEnd ≤ b * pageSize)

instance (heapEnd b : Nat) : Decidable (InWindow heapEnd b) := inferInstanceAs (Decidable (_ ∧ _))

/-- The entry is present and names the frame. -/
def Names (value frame : Nat) : Prop := isPresent value = true ∧ frameOf value = frame

/-- The frame is taken and lies in the window. -/
def HeldFrame (s : Machine) (frame : Nat) : Prop :=
  ∃ b, frame = b * pageSize ∧ bitmapTest s.pmm b = true ∧ InWindow s.heapCurrentEnd b

/-- The frame of a table other than the two of `vmm_initialize`. -/
structure TableFrame (s : Machine) (t0 t1 frame : Nat) : Prop where
  held : HeldFrame s frame
  apart : frame ∉ s.directories ∧ frame ≠ t0 ∧ frame ≠ t1

structure Spaces (s : Machine) (t0 t1 : Nat) : Prop where
  below : BitmapBelow s.pmm
  kernel : s.kernelDirectory ∈ s.directories
  active : s.cr3 ∈ s.directories
  heap : 0x700000 ≤ s.heapCurrentEnd ∧ s.heapCurrentEnd % pageSize = 0
  directories : ∀ d ∈ s.directories, HeldFrame s d
  tables : HeldFrame s t0 ∧ HeldFrame s t1 ∧ t0 ≠ t1 ∧ t0 ∉ s.directories ∧ t1 ∉ s.directories
  first : ∀ d ∈ s.directories, Names (entry s.pmm.mem d 0) t0 ∧ Names (entry s.pmm.mem d 1) t1
  others : ∀ d ∈ s.directories, ∀ i, 2 ≤ i → i < 1023 → isPresent (entry s.pmm.mem d i) = true →
    TableFrame s t0 t1 (frameOf (entry s.pmm.mem d i))
  identity0 : ∀ i < 1024, Names (entry s.pmm.mem t0 i) (i * pageSize)
  identity1 : ∀ i < 1024, 0x400000 + i * pageSize < 0x700000 ∨ s.heapCurrentEnd ≤ 0x400000 + i * pageSize →
    Names (entry s.pmm.mem t1 i) (0x400000 + i * pageSize)

section
variable {s : Machine} {m : Mem} {t0 t1 b frame : Nat}

theorem names_present (small : b < 2 ^ 20) (flags : Nat) :
    Names (presentEntry (b * pageSize) flags % 2 ^ 32) (b * pageSize) := by
  obtain ⟨low, within, odd, shape⟩ := presentEntry_frame b flags
  obtain ⟨word, present, named⟩ := entry_present small within odd
  rw [shape, word]
  exact ⟨present, named⟩

theorem translate_names (pde : Names (entry m d (pdIndex virt)) table)
    (pte : Names (entry m table (ptIndex virt)) frame) :
    translate m d virt = some (frame + virt % pageSize) := by
  unfold AddressSpaces.translate
  rw [if_pos pde.1, pde.2]
  dsimp only
  rw [if_pos pte.1, pte.2]

/-- A frame of the window is mapped to itself in every directory. -/
theorem window_identity (spaces : Spaces s t0 t1) (member : d ∈ s.directories)
    (window : InWindow s.heapCurrentEnd b) :
    translate s.pmm.mem d (b * pageSize) = some (b * pageSize) := by
  obtain ⟨high, low, reach⟩ := window
  obtain ⟨first, second⟩ := spaces.first d member
  have offset : b * pageSize % pageSize = 0 := Nat.mul_mod_left b pageSize
  by_cases half : b < 1024
  · have pd : pdIndex (b * pageSize) = 0 := by
      unfold pdIndex pageSize
      omega
    have pt : ptIndex (b * pageSize) = b := by
      unfold ptIndex pageSize
      omega
    have page := spaces.identity0 b half
    rw [← pd] at first
    rw [← pt] at page
    rw [translate_names first page, offset, pt, Nat.add_zero]
  · have pd : pdIndex (b * pageSize) = 1 := by
      unfold pdIndex pageSize
      omega
    have pt : ptIndex (b * pageSize) = b - 1024 := by
      unfold ptIndex pageSize
      omega
    have page := spaces.identity1 (b - 1024) (by omega) (by unfold pageSize at *; omega)
    have same : 0x400000 + (b - 1024) * pageSize = b * pageSize := by
      unfold pageSize
      omega
    rw [same] at page
    rw [← pd] at second
    rw [← pt] at page
    rw [translate_names second page, offset, Nat.add_zero]

theorem identity_of_window (spaces : Spaces s t0 t1) (window : InWindow s.heapCurrentEnd b) :
    Identity s (b * pageSize) := window_identity spaces spaces.active window

theorem identity_of_held (spaces : Spaces s t0 t1) (held : HeldFrame s frame) : Identity s frame := by
  obtain ⟨b, rfl, -, window⟩ := held
  exact identity_of_window spaces window

/-- Two different frames share no byte. -/
theorem frames_apart (left : frame % pageSize = 0) (right : other % pageSize = 0) (ne : frame ≠ other) :
    frame + pageSize ≤ other ∨ other + pageSize ≤ frame := by
  unfold pageSize at *
  omega

theorem held_aligned (held : HeldFrame s frame) : frame % pageSize = 0 ∧ 0x300000 ≤ frame ∧ frame < 0x800000 := by
  obtain ⟨b, rfl, -, high, low, -⟩ := held
  unfold pageSize
  omega

/-- The directories and the two first tables are all that the layout reads. -/
theorem spaces_congr (spaces : Spaces s t0 t1) (bitmap : AgreeOn s.pmm.mem m 0x200000 0x300000)
    (same : ∀ f, f ∈ s.directories ∨ f = t0 ∨ f = t1 → AgreeOn s.pmm.mem m f (f + pageSize)) :
    Spaces (s.store m) t0 t1 := by
  have held : ∀ f, HeldFrame s f → HeldFrame (s.store m) f := by
    rintro f ⟨b, rfl, taken, window⟩
    exact ⟨b, rfl, (bitmapTest_agree spaces.below bitmap b).trans taken, window⟩
  have entries : ∀ f, f ∈ s.directories ∨ f = t0 ∨ f = t1 → ∀ i < 1024, entry m f i = entry s.pmm.mem f i :=
    fun f known i small => entry_agree (same f known) small
  obtain ⟨held0, held1, apart⟩ := spaces.tables
  refine ⟨bitmapBelow_agree spaces.below bitmap, spaces.kernel, spaces.active, spaces.heap,
    fun d member => held d (spaces.directories d member), ⟨held _ held0, held _ held1, apart⟩, ?_, ?_, ?_, ?_⟩
  · intro d member
    change Names (entry m d 0) t0 ∧ Names (entry m d 1) t1
    rw [entries d (Or.inl member) 0 (by decide), entries d (Or.inl member) 1 (by decide)]
    exact spaces.first d member
  · intro d member i lower upper present
    change isPresent (entry m d i) = true at present
    change TableFrame (s.store m) t0 t1 (frameOf (entry m d i))
    rw [entries d (Or.inl member) i (by omega)] at present ⊢
    obtain ⟨heldI, apartI⟩ := spaces.others d member i lower upper present
    exact ⟨held _ heldI, apartI⟩
  · intro i small
    change Names (entry m t0 i) (i * pageSize)
    rw [entries t0 (Or.inr (Or.inl rfl)) i small]
    exact spaces.identity0 i small
  · intro i small page
    change Names (entry m t1 i) (0x400000 + i * pageSize)
    rw [entries t1 (Or.inr (Or.inr rfl)) i small]
    exact spaces.identity1 i small page

/-- Stores into a frame that is neither a directory nor one of the two tables. -/
theorem spaces_outside (spaces : Spaces s t0 t1) (aligned : frame % pageSize = 0) (high : 0x300000 ≤ frame)
    (apart : frame ∉ s.directories ∧ frame ≠ t0 ∧ frame ≠ t1)
    (outside : ∀ lo hi, hi ≤ frame ∨ frame + pageSize ≤ lo → AgreeOn s.pmm.mem m lo hi) :
    Spaces (s.store m) t0 t1 := by
  refine spaces_congr spaces (outside _ _ (Or.inl high)) fun f known => outside _ _ ?_
  have held : HeldFrame s f := by
    rcases known with member | rfl | rfl
    · exact spaces.directories f member
    · exact spaces.tables.1
    · exact spaces.tables.2.1
  have ne : f ≠ frame := by
    rintro rfl
    rcases known with member | rfl | rfl
    · exact apart.1 member
    · exact apart.2.1 rfl
    · exact apart.2.2 rfl
  exact frames_apart (held_aligned held).1 aligned ne

/-! ## Taking a frame -/

theorem bitmapSet_agree (below : BitmapBelow s.pmm) (free : b ∈ freeBlocks s.pmm) :
    AgreeOn s.pmm.mem (bitmapSet s.pmm b).mem 0x300000 hi := by
  unfold bitmapSet
  split
  · have high := freeBlocks_high below free
    refine writeWord_agree _ _ _ _ _ (Or.inl ?_)
    rw [below.bitmap]
    omega
  · exact fun _ _ _ => rfl

/-- A free block is no frame of the layout. -/
theorem free_apart (free : b ∈ freeBlocks s.pmm) (held : HeldFrame s frame) :
    b * pageSize ≠ frame := by
  obtain ⟨c, rfl, taken, -⟩ := held
  have clear := (mem_freeBlocks.mp free).2
  intro same
  have : b = c := Nat.eq_of_mul_eq_mul_right (by decide) same
  rw [this, taken] at clear
  cases clear

/-- Taking a frame changes nothing but its bit. -/
theorem spaces_taken (spaces : Spaces s t0 t1) (free : b ∈ freeBlocks s.pmm) :
    Spaces { s with pmm := bitmapSet s.pmm b } t0 t1 := by
  have agree : ∀ hi, AgreeOn s.pmm.mem (bitmapSet s.pmm b).mem 0x300000 hi :=
    fun hi => bitmapSet_agree spaces.below free
  have held : ∀ f, HeldFrame s f → HeldFrame { s with pmm := bitmapSet s.pmm b } f := by
    rintro f ⟨c, rfl, taken, window⟩
    refine ⟨c, rfl, ?_, window⟩
    rw [bitmapTest_bitmapSet, taken]
    rfl
  have entries : ∀ f, HeldFrame s f → ∀ i < 1024, entry (bitmapSet s.pmm b).mem f i = entry s.pmm.mem f i := by
    intro f heldF i small
    have high := (held_aligned heldF).2.1
    exact entry_agree (fun x above below => agree (f + pageSize) x (Nat.le_trans high above) below) small
  obtain ⟨held0, held1, apart⟩ := spaces.tables
  refine ⟨bitmapBelow_set spaces.below b, spaces.kernel, spaces.active, spaces.heap,
    fun d member => held d (spaces.directories d member), ⟨held _ held0, held _ held1, apart⟩, ?_, ?_, ?_, ?_⟩
  · intro d member
    have known := spaces.directories d member
    dsimp only
    rw [entries d known 0 (by decide), entries d known 1 (by decide)]
    exact spaces.first d member
  · intro d member i lower upper present
    dsimp only at present ⊢
    rw [entries d (spaces.directories d member) i (by omega)] at present ⊢
    obtain ⟨heldI, apartI⟩ := spaces.others d member i lower upper present
    exact ⟨held _ heldI, apartI⟩
  · intro i small
    dsimp only
    rw [entries t0 held0 i small]
    exact spaces.identity0 i small
  · intro i small page
    dsimp only
    rw [entries t1 held1 i small]
    exact spaces.identity1 i small page

theorem taken_after (spaces : Spaces s t0 t1) (free : b ∈ freeBlocks s.pmm) :
    bitmapTest (bitmapSet s.pmm b) b = true := by
  have small := (mem_freeBlocks.mp free).1
  have valid : pmmBlockIsValid s.pmm b = true := by
    simp only [pmmBlockIsValid, spaces.below.bitmap, decide_eq_true_eq]
    omega
  simp [bitmapTest_bitmapSet, valid]

/-! ## A new directory -/

theorem copyTable_entries (apart : dest + pageSize ≤ src ∨ src + pageSize ≤ dest) (n : Nat) (small : n ≤ 1024) :
    (∀ i < n, entry (copyTable m dest src n) dest i = entry m src i) ∧
      (∀ i < 1024, entry (copyTable m dest src n) src i = entry m src i) ∧
      ∀ lo hi, hi ≤ dest ∨ dest + pageSize ≤ lo → AgreeOn m (copyTable m dest src n) lo hi := by
  induction n with
  | zero => exact ⟨fun i lt => absurd lt (Nat.not_lt_zero i), fun _ _ => rfl, fun _ _ _ _ _ _ => rfl⟩
  | succ n ih =>
    obtain ⟨copied, source, others⟩ := ih (by omega)
    have shape : copyTable m dest src (n + 1) =
        setEntry (copyTable m dest src n) dest n (entry (copyTable m dest src n) src n) := by
      unfold copyTable
      rw [List.range_succ, List.foldl_append, List.foldl_cons, List.foldl_nil]
    have outside : ∀ lo hi, hi ≤ dest ∨ dest + pageSize ≤ lo →
      AgreeOn m (copyTable m dest src (n + 1)) lo hi := by
      intro lo hi clear
      rw [shape]
      exact agreeOn_trans (others lo hi clear) (setEntry_outside (by omega) clear)
    refine ⟨fun i lt => ?_, fun i lt => ?_, outside⟩
    · rw [shape]
      by_cases last : i = n
      · subst last
        rw [entry_setEntry, Nat.mod_eq_of_lt (entry_lt _ _ _), source i (by omega)]
      · rw [entry_setEntry_ne (Ne.symm last)]
        exact copied i (by omega)
    · exact entry_agree (outside _ _ apart.symm) lt

/-- What `vmm_create_directory` leaves when its frame lies in the window. -/
structure Created (s t : Machine) (t0 t1 b : Nat) (rest : List Nat) : Prop where
  spaces : Spaces t t0 t1
  free : freeBlocks t.pmm = rest
  directories : t.directories = b * pageSize :: s.directories
  same : t.kernelDirectory = s.kernelDirectory ∧ t.cr3 = s.cr3 ∧ t.heapCurrentEnd = s.heapCurrentEnd
  entries : ∀ i < 1023, entry t.pmm.mem (b * pageSize) i = entry s.pmm.mem s.kernelDirectory i
  taken : ∀ c, bitmapTest s.pmm c = true → bitmapTest t.pmm c = true
  others : ∀ lo hi, 0x300000 ≤ lo → hi ≤ b * pageSize ∨ b * pageSize + pageSize ≤ lo →
    AgreeOn s.pmm.mem t.pmm.mem lo hi

/-- A cleared frame of the window with the kernel's entries becomes a directory. -/
theorem spaces_directory (spaces : Spaces s t0 t1) (held : HeldFrame s frame)
    (apart : frame ∉ s.directories ∧ frame ≠ t0 ∧ frame ≠ t1)
    (fresh : ∀ d ∈ s.directories, ∀ i, 2 ≤ i → i < 1023 → isPresent (entry s.pmm.mem d i) = true →
      frameOf (entry s.pmm.mem d i) ≠ frame)
    (entries : ∀ i < 1023, entry s.pmm.mem frame i = entry s.pmm.mem s.kernelDirectory i) :
    Spaces { s with directories := frame :: s.directories } t0 t1 := by
  obtain ⟨held0, held1, ne, apart0, apart1⟩ := spaces.tables
  refine ⟨spaces.below, List.mem_cons_of_mem _ spaces.kernel, List.mem_cons_of_mem _ spaces.active, spaces.heap, ?_,
    ⟨held0, held1, ne, ?_, ?_⟩, ?_, ?_, spaces.identity0, spaces.identity1⟩
  · intro d member
    rcases List.mem_cons.mp member with rfl | member
    · exact held
    · exact spaces.directories d member
  · exact List.not_mem_cons_of_ne_of_not_mem (Ne.symm apart.2.1) apart0
  · exact List.not_mem_cons_of_ne_of_not_mem (Ne.symm apart.2.2) apart1
  · intro d member
    rcases List.mem_cons.mp member with rfl | member
    · dsimp only
      rw [entries 0 (by decide), entries 1 (by decide)]
      exact spaces.first _ spaces.kernel
    · exact spaces.first d member
  · have table : ∀ d ∈ s.directories, ∀ i, 2 ≤ i → i < 1023 → isPresent (entry s.pmm.mem d i) = true →
        TableFrame { s with directories := frame :: s.directories } t0 t1 (frameOf (entry s.pmm.mem d i)) := by
      intro d member i lower upper present
      obtain ⟨heldI, apartD, apartT⟩ := spaces.others d member i lower upper present
      exact ⟨heldI, List.not_mem_cons_of_ne_of_not_mem (fresh d member i lower upper present) apartD, apartT⟩
    intro d member i lower upper present
    rcases List.mem_cons.mp member with rfl | member
    · dsimp only at present ⊢
      rw [entries i upper] at present ⊢
      exact table _ spaces.kernel i lower upper present
    · exact table d member i lower upper present

/-- A frame that was free is apart from the layout, also once it is taken. -/
theorem taken_apart (spaces : Spaces s t0 t1) (free : b ∈ freeBlocks s.pmm) :
    (b * pageSize ∉ s.directories ∧ b * pageSize ≠ t0 ∧ b * pageSize ≠ t1) ∧
      ∀ d ∈ s.directories, ∀ i, 2 ≤ i → i < 1023 → isPresent (entry s.pmm.mem d i) = true →
        frameOf (entry s.pmm.mem d i) ≠ b * pageSize := by
  refine ⟨⟨fun member => ?_, ?_, ?_⟩, fun d member i lower upper present => ?_⟩
  · exact free_apart free (spaces.directories _ member) rfl
  · exact free_apart free spaces.tables.1
  · exact free_apart free spaces.tables.2.1
  · exact Ne.symm (free_apart free (spaces.others d member i lower upper present).held)

theorem pmmAllocBlock_first (spaces : Spaces s t0 t1) (shape : freeBlocks s.pmm = b :: rest) :
    pmmAllocBlock s.pmm = (b * pageSize, bitmapSet s.pmm b) := by
  rcases pmmAllocBlock_pops spaces.below with ⟨none, -⟩ | ⟨c, rest', shape', handed, -⟩
  · simp [shape] at none
  · obtain ⟨rfl, -⟩ := List.cons.inj (shape.symm.trans shape')
    exact handed

theorem vmmCreateDirectory_created (spaces : Spaces s t0 t1) (shape : freeBlocks s.pmm = b :: rest)
    (window : InWindow s.heapCurrentEnd b) :
    ∃ t, vmmCreateDirectory s = .ok (b * pageSize, t) ∧ Created s t t0 t1 b rest := by
  have free : b ∈ freeBlocks s.pmm := by simp [shape]
  have high : 0x300000 ≤ b * pageSize := by
    have := window.1
    unfold pageSize
    omega
  have taken := spaces_taken spaces free
  obtain ⟨apart, fresh⟩ := taken_apart spaces free
  have held : HeldFrame { s with pmm := bitmapSet s.pmm b } (b * pageSize) :=
    ⟨b, rfl, taken_after spaces free, window⟩
  have bits : ∀ hi, AgreeOn s.pmm.mem (bitmapSet s.pmm b).mem 0x300000 hi :=
    fun hi => bitmapSet_agree spaces.below free
  have known : ∀ d ∈ s.directories, ∀ i < 1024, entry (bitmapSet s.pmm b).mem d i = entry s.pmm.mem d i := by
    intro d member i small
    have highD := (held_aligned (spaces.directories d member)).2.1
    exact entry_agree (fun x above below => bits _ x (Nat.le_trans highD above) below) small
  have alignedK := (held_aligned (spaces.directories _ spaces.kernel)).1
  have aligned : b * pageSize % pageSize = 0 := Nat.mul_mod_left b pageSize
  have neK : b * pageSize ≠ s.kernelDirectory := fun same => apart.1 (same ▸ spaces.kernel)
  have apartK := frames_apart aligned alignedK neK
  -- the memory with the new directory filled in
  generalize m1Eq : memset (bitmapSet s.pmm b).mem (b * pageSize) 0 pageSize = m1
  have cleared : ∀ lo hi, hi ≤ b * pageSize ∨ b * pageSize + pageSize ≤ lo →
      AgreeOn (bitmapSet s.pmm b).mem m1 lo hi := by
    intro lo hi clear
    rw [← m1Eq]
    exact memset_outside clear
  obtain ⟨copied, -, copiedOutside⟩ := copyTable_entries (m := m1) apartK 1023 (by decide)
  generalize m2Eq : copyTable m1 (b * pageSize) s.kernelDirectory 1023 = m2 at copied copiedOutside
  generalize m3Eq : setEntry m2 (b * pageSize) 1023 (b * pageSize ||| pagePresent ||| pageWrite) = m3
  have outside : ∀ lo hi, hi ≤ b * pageSize ∨ b * pageSize + pageSize ≤ lo →
      AgreeOn (bitmapSet s.pmm b).mem m3 lo hi := by
    intro lo hi clear
    rw [← m3Eq]
    exact agreeOn_trans (agreeOn_trans (cleared lo hi clear) (copiedOutside lo hi clear))
      (setEntry_outside (by decide) clear)
  have entries : ∀ i < 1023, entry m3 (b * pageSize) i = entry s.pmm.mem s.kernelDirectory i := by
    intro i small
    have ne : 1023 ≠ i := by omega
    rw [← m3Eq, entry_setEntry_ne ne, copied i small, entry_agree (cleared _ _ apartK.symm) (by omega),
      known _ spaces.kernel i (by omega)]
  have stored := spaces_outside (m := m3) taken aligned high apart outside
  have bitmap : AgreeOn (bitmapSet s.pmm b).mem m3 0x200000 0x300000 := outside _ _ (Or.inl high)
  have belowSet := bitmapBelow_set spaces.below b
  have tests : ∀ c, bitmapTest { bitmapSet s.pmm b with mem := m3 } c = bitmapTest (bitmapSet s.pmm b) c :=
    bitmapTest_agree belowSet bitmap
  have heldStored : HeldFrame (Machine.store { s with pmm := bitmapSet s.pmm b } m3) (b * pageSize) :=
    ⟨b, rfl, (tests b).trans (taken_after spaces free), window⟩
  have freshStored : ∀ d ∈ s.directories, ∀ i < 1024, entry m3 d i = entry s.pmm.mem d i := by
    intro d member i small
    have alignedD := (held_aligned (spaces.directories d member)).1
    have ne : d ≠ b * pageSize := fun same => apart.1 (same ▸ member)
    rw [entry_agree (outside _ _ (frames_apart alignedD aligned ne)) small, known d member i small]
  have layout := spaces_directory stored heldStored apart
    (fun d member i lower upper => by
      change isPresent (entry m3 d i) = true → frameOf (entry m3 d i) ≠ b * pageSize
      rw [freshStored d member i (by omega)]
      exact fresh d member i lower upper)
    (fun i small => by
      change entry m3 (b * pageSize) i = entry m3 s.kernelDirectory i
      rw [entries i small, freshStored _ spaces.kernel i (by omega)])
  refine ⟨_, ?_, layout, ?_, rfl, ⟨rfl, rfl, rfl⟩, entries, ?_, ?_⟩
  · have nonnull : b * pageSize ≠ 0 := by omega
    have identityF := identity_of_window taken window
    have identityK := identity_of_held taken (taken.directories _ taken.kernel)
    unfold vmmCreateDirectory
    rw [pmmAllocBlock_first spaces shape]
    dsimp only
    rw [if_neg nonnull, if_neg (not_not.mpr identityF), if_neg (not_not.mpr identityK), m1Eq, m2Eq, m3Eq]
    rfl
  · exact (freeBlocks_agree belowSet bitmap).trans (freeBlocks_set spaces.below shape)
  · intro c held
    refine (tests c).trans ?_
    rw [bitmapTest_bitmapSet, held]
    rfl
  · intro lo hi above clear x lower upper
    exact (outside lo hi clear x lower upper).trans (bits hi x (Nat.le_trans above lower) upper)

end

end MeowMeowOS.DirectoryLayout

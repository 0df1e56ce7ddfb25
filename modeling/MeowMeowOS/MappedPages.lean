import MeowMeowOS.DirectoryLayout

/-! One directory and the frames that hang from it. All of them are taken, so a
frame that the allocator hands out is apart from them, and what is stored there
changes no translation. -/
namespace MeowMeowOS.MappedPages
open ByteMemory PhysicalFrames VirtualMemory BootFrames FreeFrames AddressSpaces DirectoryLayout

/-- The frame is in use, above the memory of the kernel and of the bitmap. -/
def Taken (s : PmmState) (frame : Nat) : Prop :=
  ∃ b, frame = b * pageSize ∧ bitmapTest s b = true ∧ 0x300 ≤ b ∧ b < 2 ^ 20

/-- The allocator never hands the frame out: it is in use, or the bitmap does not
know it. -/
def Occupied (s : PmmState) (frame : Nat) : Prop :=
  ∃ b, frame = b * pageSize ∧ (b < s.pmmMaxBlocks → bitmapTest s b = true) ∧ 0x300 ≤ b ∧ b < 2 ^ 20

/-- The frame is a table of the directory. -/
def IsTable (m : Mem) (d frame : Nat) : Prop :=
  ∃ i < 1023, isPresent (entry m d i) = true ∧ frameOf (entry m d i) = frame

structure Walkable (s : Machine) (d : Nat) : Prop where
  below : BitmapBelow s.pmm
  taken : Taken s.pmm d
  tables : ∀ f, IsTable s.pmm.mem d f → Taken s.pmm f ∧ f ≠ d
  apart : ∀ i < 1023, ∀ j < 1023, isPresent (entry s.pmm.mem d i) = true →
    isPresent (entry s.pmm.mem d j) = true →
    frameOf (entry s.pmm.mem d i) = frameOf (entry s.pmm.mem d j) → i = j

/-- What leads from `s` to `t` touched frames that were free, and the directory
`d` with its tables, where the translation of the pages `changed` may differ. -/
structure Grown (s t : Machine) (d : Nat) (changed : Nat → Prop) : Prop where
  walkable : Walkable t d
  bits : ∀ c, bitmapTest s.pmm c = true → bitmapTest t.pmm c = true
  free : freeBlocks t.pmm <:+ freeBlocks s.pmm
  same : t.kernelDirectory = s.kernelDirectory ∧ t.cr3 = s.cr3 ∧ t.heapCurrentEnd = s.heapCurrentEnd ∧
    t.directories = s.directories
  memory : ∀ f, Taken s.pmm f → f ≠ d → ¬ IsTable s.pmm.mem d f →
    AgreeOn s.pmm.mem t.pmm.mem f (f + pageSize)
  tables : ∀ f, IsTable t.pmm.mem d f → IsTable s.pmm.mem d f ∨ ¬ Occupied s.pmm f
  walks : ∀ w, pdIndex w < 1023 → ¬ changed (w / pageSize) → translate t.pmm.mem d w = translate s.pmm.mem d w
  frames : SameFrames s.pmm t.pmm

section
variable {s t u : Machine} {m : Mem} {d f w phys virt b p flags : Nat} {rest : List Nat} {changed also : Nat → Prop}

theorem taken_aligned {s : PmmState} (taken : Taken s f) : f % pageSize = 0 ∧ 0x300000 ≤ f := by
  obtain ⟨b, rfl, -, high, -⟩ := taken
  unfold pageSize
  omega

theorem taken_mono {s t : PmmState} (bits : ∀ c, bitmapTest s c = true → bitmapTest t c = true)
    (taken : Taken s f) :
    Taken t f := by
  obtain ⟨b, rfl, held, high⟩ := taken
  exact ⟨b, rfl, bits b held, high⟩

theorem taken_occupied {s : PmmState} (taken : Taken s f) : Occupied s f := by
  obtain ⟨b, rfl, held, bounds⟩ := taken
  exact ⟨b, rfl, fun _ => held, bounds⟩

theorem occupied_mono {s t : PmmState} (same : SameFrames s t)
    (bits : ∀ c, bitmapTest s c = true → bitmapTest t c = true) (occupied : Occupied s f) : Occupied t f := by
  obtain ⟨b, rfl, held, bounds⟩ := occupied
  exact ⟨b, rfl, fun small => bits b (held (same.2 ▸ small)), bounds⟩

theorem occupied_agree {s : PmmState} (below : BitmapBelow s) (bitmap : AgreeOn s.mem m 0x200000 0x300000)
    (occupied : Occupied s f) : Occupied { s with mem := m } f := by
  have same : SameFrames s { s with mem := m } := ⟨rfl, rfl⟩
  exact occupied_mono same (fun c set => (bitmapTest_agree below bitmap c).trans set) occupied

theorem free_not_occupied (free : b ∈ freeBlocks s.pmm) : ¬ Occupied s.pmm (b * pageSize) := by
  rintro ⟨c, same, held, -⟩
  obtain rfl : b = c := Nat.eq_of_mul_eq_mul_right (by decide) same
  obtain ⟨small, clear⟩ := mem_freeBlocks.mp free
  rw [held (by omega)] at clear
  cases clear

theorem free_not_taken (free : b ∈ freeBlocks s.pmm) : ¬ Taken s.pmm (b * pageSize) :=
  fun taken => free_not_occupied free (taken_occupied taken)

/-- The walk reads the directory and its tables, and nothing else. -/
theorem translate_agree (small : pdIndex w < 1023) (directory : AgreeOn m m' d (d + pageSize))
    (tables : ∀ f, IsTable m d f → AgreeOn m m' f (f + pageSize)) : translate m' d w = translate m d w := by
  have pde : entry m' d (pdIndex w) = entry m d (pdIndex w) := entry_agree directory (by omega)
  unfold AddressSpaces.translate
  rw [pde]
  by_cases present : isPresent (entry m d (pdIndex w)) = true
  · have table := tables _ ⟨pdIndex w, small, present, rfl⟩
    have pte : entry m' (frameOf (entry m d (pdIndex w))) (ptIndex w) =
        entry m (frameOf (entry m d (pdIndex w))) (ptIndex w) := entry_agree table (Nat.mod_lt _ (by decide))
    rw [if_pos present, if_pos present]
    dsimp only
    rw [pte]
  · rw [if_neg present, if_neg present]

theorem isTable_agree (directory : AgreeOn m m' d (d + pageSize)) : IsTable m' d f ↔ IsTable m d f := by
  have same (i : Nat) (small : i < 1023) : entry m' d i = entry m d i := entry_agree directory (by omega)
  constructor
  · rintro ⟨i, small, found⟩
    exact ⟨i, small, same i small ▸ found⟩
  · rintro ⟨i, small, found⟩
    exact ⟨i, small, (same i small).symm ▸ found⟩

theorem walkable_agree (walkable : Walkable s d) (bitmap : AgreeOn s.pmm.mem m 0x200000 0x300000)
    (directory : AgreeOn s.pmm.mem m d (d + pageSize)) : Walkable (s.store m) d := by
  have taken (f : Nat) (held : Taken s.pmm f) : Taken (s.store m).pmm f :=
    taken_mono (fun c set => (bitmapTest_agree walkable.below bitmap c).trans set) held
  have same (i : Nat) (small : i < 1023) : entry m d i = entry s.pmm.mem d i := entry_agree directory (by omega)
  refine ⟨bitmapBelow_agree walkable.below bitmap, taken d walkable.taken, ?_, ?_⟩
  · intro f table
    obtain ⟨held, ne⟩ := walkable.tables f ((isTable_agree directory).mp table)
    exact ⟨taken f held, ne⟩
  · intro i smallI j smallJ
    change isPresent (entry m d i) = true → isPresent (entry m d j) = true →
      frameOf (entry m d i) = frameOf (entry m d j) → i = j
    rw [same i smallI, same j smallJ]
    exact walkable.apart i smallI j smallJ

theorem grown_refl (walkable : Walkable s d) : Grown s s d changed :=
  ⟨walkable, fun _ set => set, List.suffix_rfl, ⟨rfl, rfl, rfl, rfl⟩, fun _ _ _ _ _ _ _ => rfl,
    fun _ table => .inl table, fun _ _ _ => rfl, ⟨rfl, rfl⟩⟩

theorem grown_trans (first : Grown s t d changed) (second : Grown t u d changed) : Grown s u d changed := by
  refine ⟨second.walkable, fun c set => second.bits c (first.bits c set), second.free.trans first.free, ?_, ?_, ?_,
    ?_,
    sameFrames_trans first.frames second.frames⟩
  · obtain ⟨kernel, active, heap, listed⟩ := first.same
    obtain ⟨kernel', active', heap', listed'⟩ := second.same
    exact ⟨kernel'.trans kernel, active'.trans active, heap'.trans heap, listed'.trans listed⟩
  · intro f taken ne plain
    have later : ¬ IsTable t.pmm.mem d f := fun table => (first.tables f table).elim plain fun absent =>
      absent (taken_occupied taken)
    intro x above below
    rw [second.memory f (taken_mono first.bits taken) ne later x above below,
      first.memory f taken ne plain x above below]
  · intro f table
    rcases second.tables f table with table | absent
    · exact first.tables f table
    · exact .inr fun occupied => absent (occupied_mono first.frames first.bits occupied)
  · intro w small kept
    rw [second.walks w small kept, first.walks w small kept]

theorem grown_weaken (grown : Grown s t d changed) (weaker : ∀ v, changed v → also v) : Grown s t d also :=
  ⟨grown.walkable, grown.bits, grown.free, grown.same, grown.memory, grown.tables,
    fun w small kept => grown.walks w small fun moved => kept (weaker _ moved), grown.frames⟩

/-! ## A frame that was free -/

/-- Stores into a frame that was free in `s` and is neither the directory nor a
table of it. -/
theorem grown_store (grown : Grown s t d changed) (free : b ∈ freeBlocks s.pmm) (high : 0x300 ≤ b)
    (ne : b * pageSize ≠ d) (plain : ¬ IsTable t.pmm.mem d (b * pageSize))
    (outside : ∀ lo hi, hi ≤ b * pageSize ∨ b * pageSize + pageSize ≤ lo → AgreeOn t.pmm.mem m lo hi) :
    Grown s (t.store m) d changed := by
  have aligned : b * pageSize % pageSize = 0 := Nat.mul_mod_left b pageSize
  have bitmap : AgreeOn t.pmm.mem m 0x200000 0x300000 := outside _ _ (.inl (by unfold pageSize; omega))
  have page (f : Nat) (taken : Taken t.pmm f) (apart : f ≠ b * pageSize) : AgreeOn t.pmm.mem m f (f + pageSize) :=
    outside _ _ (frames_apart (taken_aligned taken).1 aligned apart)
  have directory := page d grown.walkable.taken (Ne.symm ne)
  have tables (f : Nat) (table : IsTable t.pmm.mem d f) : AgreeOn t.pmm.mem m f (f + pageSize) :=
    page f (grown.walkable.tables f table).1 fun same => plain (same ▸ table)
  refine ⟨walkable_agree grown.walkable bitmap directory, ?_, ?_, grown.same, ?_, ?_, ?_, grown.frames⟩
  · intro c set
    exact (bitmapTest_agree grown.walkable.below bitmap c).trans (grown.bits c set)
  · change freeBlocks { t.pmm with mem := m } <:+ _
    rw [freeBlocks_agree grown.walkable.below bitmap]
    exact grown.free
  · intro f taken neD plainF x above below
    have apart : f ≠ b * pageSize := fun same => free_not_taken free (same ▸ taken)
    rw [show (t.store m).pmm.mem x = m x from rfl, page f (taken_mono grown.bits taken) apart x above below]
    exact grown.memory f taken neD plainF x above below
  · intro f table
    exact grown.tables f ((isTable_agree directory).mp table)
  · intro w small kept
    rw [← grown.walks w small kept]
    exact translate_agree small directory tables

theorem grown_taken (walkable : Walkable s d) (shape : freeBlocks s.pmm = b :: rest) :
    Grown s { s with pmm := bitmapSet s.pmm b } d changed := by
  have free : b ∈ freeBlocks s.pmm := by simp [shape]
  have agree (hi : Nat) : AgreeOn s.pmm.mem (bitmapSet s.pmm b).mem 0x300000 hi := bitmapSet_agree walkable.below free
  have page (f : Nat) (taken : Taken s.pmm f) : AgreeOn s.pmm.mem (bitmapSet s.pmm b).mem f (f + pageSize) :=
    fun x above below => agree (f + pageSize) x (Nat.le_trans (taken_aligned taken).2 above) below
  have bits (c : Nat) (set : bitmapTest s.pmm c = true) : bitmapTest (bitmapSet s.pmm b) c = true := by
    rw [bitmapTest_bitmapSet, set]
    rfl
  have directory := page d walkable.taken
  have same (i : Nat) (small : i < 1023) : entry (bitmapSet s.pmm b).mem d i = entry s.pmm.mem d i :=
    entry_agree directory (by omega)
  refine ⟨⟨bitmapBelow_set walkable.below b, taken_mono bits walkable.taken, ?_, ?_⟩, bits, ?_,
    ⟨rfl, rfl, rfl, rfl⟩,
    fun f taken _ _ => page f taken, ?_, ?_, bitmapSet_same s.pmm b⟩
  · intro f table
    obtain ⟨held, ne⟩ := walkable.tables f ((isTable_agree directory).mp table)
    exact ⟨taken_mono bits held, ne⟩
  · intro i smallI j smallJ
    dsimp only
    rw [same i smallI, same j smallJ]
    exact walkable.apart i smallI j smallJ
  · dsimp only
    rw [freeBlocks_set walkable.below shape, shape]
    exact List.suffix_cons b rest
  · intro f table
    exact .inl ((isTable_agree directory).mp table)
  · intro w small _
    exact translate_agree small directory fun f table => page f (walkable.tables f table).1

/-! ## Mapping one page -/

theorem page_indices (same : pdIndex w = pdIndex virt) (ne : w / pageSize ≠ virt / pageSize) :
    ptIndex virt ≠ ptIndex w := by
  unfold pdIndex ptIndex pageSize at *
  omega

theorem ptIndex_lt (virt : Nat) : ptIndex virt < 1024 := Nat.mod_lt _ (by decide)

/-- Into a table that is there already. -/
theorem grown_setPage (walkable : Walkable s d) (small : pdIndex virt < 1023) (aligned : virt % pageSize = 0)
    (present : isPresent (entry s.pmm.mem d (pdIndex virt)) = true) (bound : p < 2 ^ 20)
    (ran : setPage s d (p * pageSize) virt flags = .ok t) :
    Grown s t d (· = virt / pageSize) ∧ translate t.pmm.mem d virt = some (p * pageSize) := by
  have isTable : IsTable s.pmm.mem d (frameOf (entry s.pmm.mem d (pdIndex virt))) := ⟨_, small, present, rfl⟩
  obtain ⟨taken, ne⟩ := walkable.tables _ isTable
  obtain ⟨alignedT, high⟩ := taken_aligned taken
  unfold setPage at ran
  dsimp only at ran
  generalize tableEq : frameOf (entry s.pmm.mem d (pdIndex virt)) = table at ran isTable taken ne alignedT high
  rw [if_neg (by omega)] at ran
  split at ran
  · cases ran
  · cases ran
    generalize memEq : setEntry s.pmm.mem table (ptIndex virt) (presentEntry (p * pageSize) flags) = m
    have outside (lo hi : Nat) (clear : hi ≤ table ∨ table + pageSize ≤ lo) : AgreeOn s.pmm.mem m lo hi := by
      rw [← memEq]
      exact setEntry_outside (ptIndex_lt virt) clear
    have page (f : Nat) (held : Taken s.pmm f) (apart : f ≠ table) : AgreeOn s.pmm.mem m f (f + pageSize) :=
      outside _ _ (frames_apart (taken_aligned held).1 alignedT apart)
    have directory := page d walkable.taken (Ne.symm ne)
    have bitmap := outside 0x200000 0x300000 (.inl high)
    have pde (i : Nat) (bound : i < 1023) : entry m d i = entry s.pmm.mem d i := entry_agree directory (by omega)
    refine ⟨⟨walkable_agree walkable bitmap directory, ?_, ?_, ⟨rfl, rfl, rfl, rfl⟩, ?_, ?_, ?_,
      ⟨rfl, rfl⟩⟩, ?_⟩
    · intro c set
      exact (bitmapTest_agree walkable.below bitmap c).trans set
    · change freeBlocks { s.pmm with mem := m } <:+ _
      rewrite [freeBlocks_agree walkable.below bitmap]
      exact List.suffix_rfl
    · intro f held _ plain
      exact page f held fun same => plain (same ▸ isTable)
    · intro f found
      exact .inl ((isTable_agree directory).mp found)
    · intro w smallW other
      change translate m d w = _
      unfold AddressSpaces.translate
      rw [pde _ smallW]
      by_cases presentW : isPresent (entry s.pmm.mem d (pdIndex w)) = true
      · rw [if_pos presentW, if_pos presentW]
        have pte : entry m (frameOf (entry s.pmm.mem d (pdIndex w))) (ptIndex w) =
            entry s.pmm.mem (frameOf (entry s.pmm.mem d (pdIndex w))) (ptIndex w) := by
          by_cases own : frameOf (entry s.pmm.mem d (pdIndex w)) = table
          · have same := walkable.apart _ smallW _ small presentW present (own.trans tableEq.symm)
            rw [own, ← memEq, entry_setEntry_ne (page_indices same other)]
          · have held := (walkable.tables _ ⟨_, smallW, presentW, rfl⟩).1
            exact entry_agree (page _ held own) (ptIndex_lt w)
        dsimp only
        rw [pte]
      · rw [if_neg presentW, if_neg presentW]
    · have names : Names (entry m (frameOf (entry s.pmm.mem d (pdIndex virt))) (ptIndex virt)) (p * pageSize) := by
        rw [tableEq, ← memEq, entry_setEntry]
        exact names_present bound flags
      rw [show (s.store m).pmm.mem = m from rfl, translate_names ⟨(pde _ small).symm ▸ present,
        congrArg frameOf (pde _ small)⟩ names,
        aligned, Nat.add_zero]

theorem entry_cleared (m : Mem) (frame : Nat) (small : i < 1024) : entry (memset m frame 0 pageSize) frame i = 0 := by
  unfold entry readWord memset pageSize
  rw [if_pos (by omega), if_pos (by omega), if_pos (by omega), if_pos (by omega)]
  rfl

/-- A frame that was free becomes an empty table. -/
theorem grown_newTable (flags : Nat) (changed : Nat → Prop) (walkable : Walkable s d)
    (shape : freeBlocks s.pmm = b :: rest)
    (small : k < 1023) (absent : ¬ isPresent (entry s.pmm.mem d k) = true) :
    Grown s (Machine.store { s with pmm := bitmapSet s.pmm b }
      (memset (setEntry (bitmapSet s.pmm b).mem d k (presentEntry (b * pageSize) flags)) (b * pageSize) 0 pageSize)) d
      changed ∧
    isPresent (entry (memset (setEntry (bitmapSet s.pmm b).mem d k (presentEntry (b * pageSize) flags)) (b * pageSize) 0
      pageSize) d k) = true := by
  have free : b ∈ freeBlocks s.pmm := by simp [shape]
  obtain ⟨highB, smallB⟩ := freeBlocks_high walkable.below free
  obtain ⟨alignedD, highD⟩ := taken_aligned walkable.taken
  have taken : Grown s { s with pmm := bitmapSet s.pmm b } d changed := grown_taken walkable shape
  have alignedB : b * pageSize % pageSize = 0 := Nat.mul_mod_left b pageSize
  have fresh (f : Nat) (held : Taken s.pmm f) : f ≠ b * pageSize := fun same => free_not_taken free (same ▸ held)
  have neD := fresh d walkable.taken
  generalize memEq : memset (setEntry (bitmapSet s.pmm b).mem d k (presentEntry (b * pageSize) flags)) (b * pageSize) 0
    pageSize = m
  have outside (lo hi : Nat) (clearD : hi ≤ d ∨ d + pageSize ≤ lo)
      (clearB : hi ≤ b * pageSize ∨ b * pageSize + pageSize ≤ lo) : AgreeOn (bitmapSet s.pmm b).mem m lo hi := by
    rw [← memEq]
    exact agreeOn_trans (setEntry_outside (by omega) clearD) (memset_outside clearB)
  have bits (hi : Nat) : AgreeOn s.pmm.mem (bitmapSet s.pmm b).mem 0x300000 hi := bitmapSet_agree walkable.below free
  have page (f : Nat) (held : Taken s.pmm f) (ne : f ≠ d) : AgreeOn s.pmm.mem m f (f + pageSize) := by
    have aligned := (taken_aligned held).1
    have later := outside f (f + pageSize) (frames_apart aligned alignedD ne)
      (frames_apart aligned alignedB (fresh f held))
    exact agreeOn_trans (fun x above below => bits _ x (Nat.le_trans (taken_aligned held).2 above) below) later
  have pde (j : Nat) (bound : j < 1023) (ne : j ≠ k) : entry m d j = entry s.pmm.mem d j := by
    have cleared : entry m d j = entry (setEntry (bitmapSet s.pmm b).mem d k (presentEntry (b * pageSize) flags))
      d j := by
      rw [← memEq]
      exact entry_agree (memset_outside (frames_apart alignedD alignedB neD)) (by omega)
    rw [cleared, entry_setEntry_ne (Ne.symm ne)]
    exact entry_agree (fun x above below => bits _ x (Nat.le_trans highD above) below) (by omega)
  have named : Names (entry m d k) (b * pageSize) := by
    have cleared : entry m d k = entry (setEntry (bitmapSet s.pmm b).mem d k (presentEntry (b * pageSize) flags))
      d k := by
      rw [← memEq]
      exact entry_agree (memset_outside (frames_apart alignedD alignedB neD)) (by omega)
    rw [cleared, entry_setEntry]
    exact names_present smallB flags
  have bitmap : AgreeOn (bitmapSet s.pmm b).mem m 0x200000 0x300000 :=
    outside _ _ (.inl highD) (.inl (by unfold pageSize; omega))
  have belowSet := bitmapBelow_set walkable.below b
  have tests (c : Nat) : bitmapTest { bitmapSet s.pmm b with mem := m } c = bitmapTest (bitmapSet s.pmm b) c :=
    bitmapTest_agree belowSet bitmap c
  have mono (c : Nat) (set : bitmapTest s.pmm c = true) : bitmapTest { bitmapSet s.pmm b with mem := m } c = true :=
    (tests c).trans (taken.bits c set)
  have own : Taken { bitmapSet s.pmm b with mem := m } (b * pageSize) := by
    have inside := (mem_freeBlocks.mp free).1
    have valid : pmmBlockIsValid s.pmm b = true := by
      simp only [pmmBlockIsValid, walkable.below.bitmap, decide_eq_true_eq]
      omega
    refine ⟨b, rfl, (tests b).trans ?_, highB, smallB⟩
    simp [bitmapTest_bitmapSet, valid]
  have isTable (f : Nat) (found : IsTable m d f) : IsTable s.pmm.mem d f ∨ f = b * pageSize := by
    obtain ⟨j, bound, present, rfl⟩ := found
    by_cases same : j = k
    · exact .inr (same ▸ named.2)
    · rw [pde j bound same] at present ⊢
      exact .inl ⟨j, bound, present, rfl⟩
  refine ⟨⟨⟨bitmapBelow_agree belowSet bitmap, taken_mono mono walkable.taken, ?_, ?_⟩, mono, ?_,
    ⟨rfl, rfl, rfl, rfl⟩,
    fun f held ne _ => page f held ne, ?_, ?_, bitmapSet_same s.pmm b⟩, named.1⟩
  · intro f found
    rcases isTable f found with found | rfl
    · obtain ⟨held, ne⟩ := walkable.tables f found
      exact ⟨taken_mono mono held, ne⟩
    · exact ⟨own, Ne.symm neD⟩
  · have distinct (j : Nat) (bound : j < 1023) (ne : j ≠ k) (present : isPresent (entry m d j) = true) :
        frameOf (entry m d j) ≠ b * pageSize := by
      rw [pde j bound ne] at present ⊢
      exact fresh _ (walkable.tables _ ⟨j, bound, present, rfl⟩).1
    intro i boundI j boundJ presentI presentJ same
    change frameOf (entry m d i) = frameOf (entry m d j) at same
    by_cases first : i = k
    · by_cases second : j = k
      · rw [first, second]
      · exact absurd (same.symm.trans (first ▸ named.2)) (distinct j boundJ second presentJ)
    · by_cases second : j = k
      · exact absurd (same.trans (second ▸ named.2)) (distinct i boundI first presentI)
      · change isPresent (entry m d i) = true at presentI
        change isPresent (entry m d j) = true at presentJ
        rw [pde i boundI first] at presentI same
        rw [pde j boundJ second] at presentJ same
        exact walkable.apart i boundI j boundJ presentI presentJ same
  · change freeBlocks { bitmapSet s.pmm b with mem := m } <:+ _
    rw [freeBlocks_agree belowSet bitmap]
    exact taken.free
  · intro f found
    rcases isTable f found with found | rfl
    · exact .inl found
    · exact .inr (free_not_occupied free)
  · intro w smallW _
    change translate m d w = _
    unfold AddressSpaces.translate
    by_cases same : pdIndex w = k
    · rw [same, if_pos named.1, if_neg absent, named.2]
      dsimp only
      rw [← memEq, entry_cleared _ _ (ptIndex_lt w)]
      rfl
    · rw [pde _ smallW same]
      by_cases presentW : isPresent (entry s.pmm.mem d (pdIndex w)) = true
      · obtain ⟨held, ne⟩ := walkable.tables _ ⟨_, smallW, presentW, rfl⟩
        have pte : entry m (frameOf (entry s.pmm.mem d (pdIndex w))) (ptIndex w) =
            entry s.pmm.mem (frameOf (entry s.pmm.mem d (pdIndex w))) (ptIndex w) :=
          entry_agree (page _ held ne) (ptIndex_lt w)
        rw [if_pos presentW, if_pos presentW]
        dsimp only
        rw [pte]
      · rw [if_neg presentW, if_neg presentW]

/-- What the code asks of a mapping request. -/
def Accepted (d phys virt : Nat) : Prop :=
  (d ≠ 0 ∧ d % pageSize = 0) ∧ (phys ≠ 0 ∧ virt ≠ 0) ∧ phys % pageSize = 0 ∧ virt % pageSize = 0

/-- A call that returns has refused the request, or stored the entry into the table
that was there or into a new one, or there was no frame for one. -/
theorem mapPage_steps (walkable : Walkable s d) (ran : vmmMapPageInDirectory s d phys virt flags = .ok t) :
    (¬ Accepted d phys virt ∧ t = s) ∨
      (¬ isPresent (entry s.pmm.mem d (pdIndex virt)) = true ∧ freeBlocks s.pmm = [] ∧ t = s) ∨
      (isPresent (entry s.pmm.mem d (pdIndex virt)) = true ∧ setPage s d phys virt flags = .ok t) ∨
      (¬ isPresent (entry s.pmm.mem d (pdIndex virt)) = true ∧ ∃ b rest, freeBlocks s.pmm = b :: rest ∧
        setPage (Machine.store { s with pmm := bitmapSet s.pmm b }
          (memset (setEntry (bitmapSet s.pmm b).mem d (pdIndex virt) (presentEntry (b * pageSize) flags))
          (b * pageSize) 0
            pageSize)) d phys virt flags = .ok t) := by
  unfold vmmMapPageInDirectory at ran
  unfold Accepted
  split at ran
  · cases ran
    exact .inl ⟨by omega, rfl⟩
  · split at ran
    · cases ran
      exact .inl ⟨by omega, rfl⟩
    · split at ran
      · cases ran
        exact .inl ⟨by omega, rfl⟩
      · split at ran
        · cases ran
        · split at ran
          · rename_i present
            exact .inr (.inr (.inl ⟨present, ran⟩))
          · rename_i absent
            rcases pmmAllocBlock_pops walkable.below with ⟨none, failed⟩ | ⟨b, rest, shape, handed, -⟩
            · rw [failed] at ran
              dsimp only at ran
              rw [if_pos rfl] at ran
              cases ran
              exact .inr (.inl ⟨absent, none, rfl⟩)
            · have high := (freeBlocks_high walkable.below (show b ∈ freeBlocks s.pmm by simp [shape])).1
              have nonzero : ¬ b * pageSize = 0 := by
                unfold pageSize
                omega
              rw [handed] at ran
              dsimp only at ran
              rw [if_neg nonzero] at ran
              split at ran
              · cases ran
              · exact .inr (.inr (.inr ⟨absent, b, rest, shape, ran⟩))

/-- A call that succeeds has mapped the page, or there was no frame for its table. -/
theorem mapPage_cases (walkable : Walkable s d) (small : pdIndex virt < 1023) (aligned : virt % pageSize = 0)
    (nonnull : virt ≠ 0) (positive : 0 < p) (bound : p < 2 ^ 20)
    (ran : vmmMapPageInDirectory s d (p * pageSize) virt flags = .ok t) :
    (t = s ∧ freeBlocks s.pmm = []) ∨
      (Grown s t d (· = virt / pageSize) ∧ translate t.pmm.mem d virt = some (p * pageSize)) := by
  obtain ⟨alignedD, highD⟩ := taken_aligned walkable.taken
  have accepted : Accepted d (p * pageSize) virt := by
    refine ⟨⟨by omega, alignedD⟩, ⟨?_, nonnull⟩, Nat.mul_mod_left p pageSize, aligned⟩
    unfold pageSize
    omega
  rcases mapPage_steps walkable ran with ⟨refused, -⟩ | ⟨-, none, same⟩ | ⟨present, stored⟩ | ⟨absent, b,
    rest, shape, stored⟩
  · exact absurd accepted refused
  · exact .inl ⟨same, none⟩
  · exact .inr (grown_setPage walkable small aligned present bound stored)
  · obtain ⟨grown, present⟩ := grown_newTable flags (· = virt / pageSize) walkable shape small absent
    obtain ⟨mapped, page⟩ := grown_setPage grown.walkable small aligned present bound stored
    exact .inr ⟨grown_trans grown mapped, page⟩

/-! ## A new page and its frame -/

/-- The page at `virt` has the frame `b`, which was free before. -/
structure Fresh (s t : Machine) (d b virt : Nat) : Prop where
  grown : Grown s t d (· = virt / pageSize)
  page : translate t.pmm.mem d virt = some (b * pageSize)
  free : b ∈ freeBlocks s.pmm
  taken : Taken t.pmm (b * pageSize)
  apart : b * pageSize ≠ d ∧ ¬ IsTable t.pmm.mem d (b * pageSize)

/-- The frame is taken and filled before it is mapped. -/
structure Prepared (s u : Machine) (d b : Nat) : Prop where
  grown : Grown s u d fun _ => False
  free : b ∈ freeBlocks s.pmm
  taken : Taken u.pmm (b * pageSize)
  apart : b * pageSize ≠ d ∧ ¬ IsTable u.pmm.mem d (b * pageSize)

theorem prepared_taken (walkable : Walkable s d) (shape : freeBlocks s.pmm = b :: rest) :
    Prepared s { s with pmm := bitmapSet s.pmm b } d b := by
  have free : b ∈ freeBlocks s.pmm := by simp [shape]
  have grown : Grown s { s with pmm := bitmapSet s.pmm b } d fun _ => False := grown_taken walkable shape
  obtain ⟨high, small⟩ := freeBlocks_high walkable.below free
  have inside := (mem_freeBlocks.mp free).1
  have valid : pmmBlockIsValid s.pmm b = true := by
    simp only [pmmBlockIsValid, walkable.below.bitmap, decide_eq_true_eq]
    omega
  refine ⟨grown, free, ⟨b, rfl, ?_, high, small⟩, fun same => ?_, fun table => ?_⟩
  · simp [bitmapTest_bitmapSet, valid]
  · exact free_not_taken free (same ▸ walkable.taken)
  · have directory : AgreeOn s.pmm.mem (bitmapSet s.pmm b).mem d (d + pageSize) := fun x above below =>
      bitmapSet_agree walkable.below free x (Nat.le_trans (taken_aligned walkable.taken).2 above) below
    exact free_not_taken free (walkable.tables _ ((isTable_agree directory).mp table)).1

theorem stored_taken (walkable : Walkable t d) (taken : Taken t.pmm f) (high : 0x300 ≤ b)
    (outside : ∀ lo hi, hi ≤ b * pageSize ∨ b * pageSize + pageSize ≤ lo → AgreeOn t.pmm.mem m lo hi) :
    Taken (t.store m).pmm f := by
  have bitmap : AgreeOn t.pmm.mem m 0x200000 0x300000 := outside _ _ (.inl (by unfold pageSize; omega))
  exact taken_mono (fun c set => (bitmapTest_agree walkable.below bitmap c).trans set) taken

theorem stored_plain (walkable : Walkable t d) (apart : b * pageSize ≠ d ∧ ¬ IsTable t.pmm.mem d (b * pageSize))
    (outside : ∀ lo hi, hi ≤ b * pageSize ∨ b * pageSize + pageSize ≤ lo → AgreeOn t.pmm.mem m lo hi) :
    b * pageSize ≠ d ∧ ¬ IsTable (t.store m).pmm.mem d (b * pageSize) := by
  have clear := frames_apart (taken_aligned walkable.taken).1 (Nat.mul_mod_left b pageSize) (Ne.symm apart.1)
  exact ⟨apart.1, fun table => apart.2 ((isTable_agree (outside _ _ clear)).mp table)⟩

theorem prepared_store (prepared : Prepared s u d b) (high : 0x300 ≤ b)
    (outside : ∀ lo hi, hi ≤ b * pageSize ∨ b * pageSize + pageSize ≤ lo → AgreeOn u.pmm.mem m lo hi) :
    Prepared s (u.store m) d b :=
  ⟨grown_store prepared.grown prepared.free high prepared.apart.1 prepared.apart.2 outside, prepared.free,
    stored_taken prepared.grown.walkable prepared.taken high outside,
    stored_plain prepared.grown.walkable prepared.apart outside⟩

theorem fresh_store (fresh : Fresh s t d b virt) (small : pdIndex virt < 1023) (high : 0x300 ≤ b)
    (outside : ∀ lo hi, hi ≤ b * pageSize ∨ b * pageSize + pageSize ≤ lo → AgreeOn t.pmm.mem m lo hi) :
    Fresh s (t.store m) d b virt := by
  have walkable := fresh.grown.walkable
  have page (f : Nat) (taken : Taken t.pmm f) (ne : f ≠ b * pageSize) : AgreeOn t.pmm.mem m f (f + pageSize) :=
    outside _ _ (frames_apart (taken_aligned taken).1 (Nat.mul_mod_left b pageSize) ne)
  refine ⟨grown_store fresh.grown fresh.free high fresh.apart.1 fresh.apart.2 outside, ?_, fresh.free,
    stored_taken walkable fresh.taken high outside, stored_plain walkable fresh.apart outside⟩
  rw [← fresh.page]
  refine translate_agree small (page d walkable.taken (Ne.symm fresh.apart.1)) fun f table => ?_
  exact page f (walkable.tables f table).1 fun same => fresh.apart.2 (same ▸ table)

/-- The prepared frame is mapped, or no frame is left for its table. The frame
keeps what it holds. -/
theorem fresh_map (prepared : Prepared s u d b) (small : pdIndex virt < 1023) (aligned : virt % pageSize = 0)
    (nonnull : virt ≠ 0) (ran : vmmMapPageInDirectory u d (b * pageSize) virt flags = .ok t) :
    (t = u ∧ freeBlocks u.pmm = []) ∨
      (Fresh s t d b virt ∧ AgreeOn u.pmm.mem t.pmm.mem (b * pageSize) (b * pageSize + pageSize)) := by
  obtain ⟨c, same, -, high, bound⟩ := prepared.taken
  obtain rfl : b = c := Nat.eq_of_mul_eq_mul_right (by decide) same
  rcases mapPage_cases prepared.grown.walkable small aligned nonnull (by omega) bound ran with
    stuck | ⟨mapped, page⟩
  · exact .inl stuck
  · have kept := mapped.memory _ prepared.taken prepared.apart.1 prepared.apart.2
    have grown := grown_trans (grown_weaken prepared.grown fun _ => False.elim) mapped
    refine .inr ⟨⟨grown, page, prepared.free, taken_mono mapped.bits prepared.taken, prepared.apart.1, ?_⟩,
      kept⟩
    intro table
    exact (mapped.tables _ table).elim prepared.apart.2 fun absent => absent (taken_occupied prepared.taken)

/-! ## A new directory -/

theorem copied_entries (walkable : Walkable s d) (prepared : Prepared s u d b) (i : Nat) (small : i < 1023)
    (directory : AgreeOn s.pmm.mem u.pmm.mem d (d + pageSize)) :
    entry (setEntry (copyTable (memset u.pmm.mem (b * pageSize) 0 pageSize) (b * pageSize) d 1023)
    (b * pageSize) 1023 v)
      (b * pageSize) i = entry s.pmm.mem d i := by
  have clear := frames_apart (Nat.mul_mod_left b pageSize) (taken_aligned walkable.taken).1 prepared.apart.1
  obtain ⟨copied, -⟩ := copyTable_entries (m := memset u.pmm.mem (b * pageSize) 0 pageSize) clear 1023 (by decide)
  rw [entry_setEntry_ne (by omega), copied i small, entry_agree (memset_outside clear.symm) (by omega),
    entry_agree directory (by omega)]

/-- A new directory in a frame that was free, with the entries of the kernel's. -/
structure Copied (s t : Machine) (d : Nat) : Prop where
  walkable : Walkable t d
  entries : ∀ i < 1023, entry t.pmm.mem d i = entry s.pmm.mem s.kernelDirectory i
  fresh : ¬ Occupied s.pmm d
  bits : ∀ c, bitmapTest s.pmm c = true → bitmapTest t.pmm c = true
  memory : ∀ f, Taken s.pmm f → AgreeOn s.pmm.mem t.pmm.mem f (f + pageSize)
  frames : SameFrames s.pmm t.pmm

/-- A call that returns has found no frame, or made a directory of the first free one. -/
theorem createDirectory_cases (walkable : Walkable s s.kernelDirectory) (ran : vmmCreateDirectory s = .ok (d, t)) :
    (freeBlocks s.pmm = [] ∧ t = s) ∨ ∃ b rest, freeBlocks s.pmm = b :: rest ∧ d = b * pageSize ∧
      (t.directories = d :: s.directories ∧ t.kernelDirectory = s.kernelDirectory ∧ t.cr3 = s.cr3 ∧
        t.heapCurrentEnd = s.heapCurrentEnd) ∧ Copied s t d := by
  unfold vmmCreateDirectory at ran
  rcases pmmAllocBlock_pops walkable.below with ⟨none, failed⟩ | ⟨b, rest, shape, handed, -⟩
  · rw [failed] at ran
    dsimp only at ran
    rw [if_pos rfl] at ran
    cases ran
    exact .inl ⟨none, rfl⟩
  · have prepared := prepared_taken walkable shape
    obtain ⟨high, bound⟩ := freeBlocks_high walkable.below prepared.free
    have nonzero : ¬ b * pageSize = 0 := by
      unfold pageSize
      omega
    have highK := (taken_aligned walkable.taken).2
    have directory : AgreeOn s.pmm.mem (bitmapSet s.pmm b).mem s.kernelDirectory (s.kernelDirectory + pageSize) :=
      fun x above below => bitmapSet_agree walkable.below prepared.free x (Nat.le_trans highK above) below
    have entries := copied_entries (v := b * pageSize ||| pagePresent ||| pageWrite) walkable prepared
    have clear := frames_apart (Nat.mul_mod_left b pageSize) (taken_aligned walkable.taken).1 prepared.apart.1
    obtain ⟨-, -, copiedOutside⟩ :=
      copyTable_entries (m := memset (bitmapSet s.pmm b).mem (b * pageSize) 0 pageSize)
      clear 1023 (by decide)
    rw [handed] at ran
    dsimp only at ran
    rw [if_neg nonzero] at ran
    split at ran
    · cases ran
    · split at ran
      · cases ran
      · cases ran
        generalize memEq : setEntry (copyTable (memset (bitmapSet s.pmm b).mem (b * pageSize) 0 pageSize) (b * pageSize)
          s.kernelDirectory 1023) (b * pageSize) 1023 (b * pageSize ||| pagePresent ||| pageWrite) = m
        have outside (lo hi : Nat) (apart : hi ≤ b * pageSize ∨ b * pageSize + pageSize ≤ lo) :
            AgreeOn (bitmapSet s.pmm b).mem m lo hi := by
          rw [← memEq]
          exact agreeOn_trans (agreeOn_trans (memset_outside apart) (copiedOutside lo hi apart))
            (setEntry_outside (by decide) apart)
        have same (i : Nat) (small : i < 1023) : entry m (b * pageSize) i = entry s.pmm.mem s.kernelDirectory i := by
          rw [← memEq]
          exact entries i small directory
        have grown := prepared.grown
        have bitmap : AgreeOn (bitmapSet s.pmm b).mem m 0x200000 0x300000 :=
          outside _ _ (.inl (by unfold pageSize; omega))
        have bits (c : Nat) (set : bitmapTest s.pmm c = true) :
            bitmapTest { bitmapSet s.pmm b with mem := m } c = true :=
          (bitmapTest_agree grown.walkable.below bitmap c).trans (grown.bits c set)
        have memory (f : Nat) (held : Taken s.pmm f) : AgreeOn s.pmm.mem m f (f + pageSize) := by
          obtain ⟨aligned, highF⟩ := taken_aligned held
          have apart := frames_apart aligned (Nat.mul_mod_left b pageSize) fun same =>
            free_not_taken prepared.free (same ▸ held)
          exact agreeOn_trans (fun x above below =>
            bitmapSet_agree walkable.below prepared.free x (Nat.le_trans highF above) below)
            (outside _ _ apart)
        refine .inr ⟨b, rest, shape, rfl, ⟨rfl, rfl, rfl, rfl⟩, ⟨bitmapBelow_agree grown.walkable.below bitmap,
          stored_taken grown.walkable prepared.taken high outside, ?_, ?_⟩, same,
            free_not_occupied prepared.free, bits, memory, grown.frames⟩
        · rintro f ⟨i, small, present, named⟩
          change isPresent (entry m (b * pageSize) i) = true at present
          change frameOf (entry m (b * pageSize) i) = f at named
          rw [same i small] at present named
          have held := (walkable.tables f ⟨i, small, present, named⟩).1
          exact ⟨taken_mono bits held, fun equal => free_not_taken prepared.free (equal ▸ held)⟩
        · intro i smallI j smallJ
          change isPresent (entry m (b * pageSize) i) = true → isPresent (entry m (b * pageSize) j) = true →
            frameOf (entry m (b * pageSize) i) = frameOf (entry m (b * pageSize) j) → i = j
          rw [same i smallI, same j smallJ]
          exact walkable.apart i smallI j smallJ

theorem createDirectory_copied (walkable : Walkable s s.kernelDirectory) (ran : vmmCreateDirectory s = .ok (d, t)) :
    (freeBlocks t.pmm = [] ∧ BitmapBelow t.pmm) ∨ Copied s t d := by
  rcases createDirectory_cases walkable ran with ⟨none, rfl⟩ | ⟨b, rest, -, -, -, copied⟩
  · exact .inl ⟨none, walkable.below⟩
  · exact .inr copied

theorem createDirectory_walkable (walkable : Walkable s s.kernelDirectory) (ran : vmmCreateDirectory s = .ok (d, t)) :
    (freeBlocks t.pmm = [] ∧ BitmapBelow t.pmm) ∨ Walkable t d :=
  (createDirectory_copied walkable ran).imp_right Copied.walkable

/-! ## What the pages of a directory hold -/

/-- `pages` says what the pages of the directory hold, as far as it says
anything. -/
structure Image (s : Machine) (d : Nat) (pages : Nat → Option (Nat → UInt8)) : Prop where
  walkable : Walkable s d
  page : ∀ v content, pages v = some content → ∃ f, translate s.pmm.mem d (v * pageSize) = some f ∧
    Taken s.pmm f ∧
    f ≠ d ∧ ¬ IsTable s.pmm.mem d f ∧ pdIndex (v * pageSize) < 1023 ∧
    ∀ o < pageSize, s.pmm.mem (f + o) = content o

theorem image_grown (image : Image s d pages) (grown : Grown s t d changed)
    (kept : ∀ v content, pages v = some content → ¬ changed v) : Image t d pages := by
  refine ⟨grown.walkable, fun v content holds => ?_⟩
  obtain ⟨f, walk, taken, ne, plain, small, bytes⟩ := image.page v content holds
  have same : v * pageSize / pageSize = v := Nat.mul_div_cancel v (by decide)
  refine ⟨f, ?_, taken_mono grown.bits taken, ne, ?_, small, ?_⟩
  · rw [grown.walks _ small (same.symm ▸ kept v content holds), walk]
  · intro table
    exact (grown.tables f table).elim plain fun absent => absent (taken_occupied taken)
  · intro o inside
    rw [grown.memory f taken ne plain (f + o) (Nat.le_add_right f o) (by omega), bytes o inside]

theorem image_fresh (image : Image s d pages) (fresh : Fresh s t d b (v * pageSize))
    (small : pdIndex (v * pageSize) < 1023) (content : Nat → UInt8)
    (bytes : ∀ o < pageSize, t.pmm.mem (b * pageSize + o) = content o) :
    Image t d (Function.update pages v (some content)) := by
  have same : v * pageSize / pageSize = v := Nat.mul_div_cancel v (by decide)
  refine ⟨fresh.grown.walkable, fun w held holds => ?_⟩
  by_cases new : w = v
  · subst new
    rw [Function.update_self] at holds
    cases holds
    exact ⟨_, fresh.page, fresh.taken, fresh.apart.1, fresh.apart.2, small, bytes⟩
  · rw [Function.update_of_ne new] at holds
    have others : Image t d fun u => if u = v then none else pages u := by
      have rest : Image s d fun u => if u = v then none else pages u := by
        refine ⟨image.walkable, fun u found member => image.page u found ?_⟩
        split at member
        · cases member
        · exact member
      refine image_grown rest fresh.grown fun u found member moved => ?_
      rw [if_pos (moved.trans same)] at member
      cases member
    exact others.page w held (by rw [if_neg new]; exact holds)

end

end MeowMeowOS.MappedPages

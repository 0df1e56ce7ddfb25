import MeowMeowOS.BootDirectories
import MeowMeowOS.MappedRegions
import MeowMeowOS.PageEntries
import MeowMeowOS.PageMapping

/-! The kernel heap in every directory. A directory takes the kernel's entries once,
so heap pages that need a new table afterwards are missing in the directories that are
there; the tables they share serve them all. -/
namespace MeowMeowOS.SharedHeap
open ByteMemory PhysicalFrames VirtualMemory BootFrames FreeFrames AddressSpaces DirectoryLayout MappedPages
  BootDirectories HeapFrames

/-- `heap_expand` maps its pages one by one and then stores into the heap. -/
inductive Action where
  | create
  | switch (directory : Nat)
  | page
  | store (virt : Nat) (value : UInt8)

def step (s : Machine) : Action → Except Nat Machine
  | .create => (vmmCreateDirectory s).map Prod.snd
  | .switch directory => .ok (if directory ∈ s.directories then { s with cr3 := directory } else s)
  | .page => heapExpandPage s
  | .store virt value =>
    if heapStart ≤ virt ∧ virt < s.heapCurrentEnd then
      match AddressSpaces.translate s.pmm.mem s.cr3 virt with
      | none => .error virt
      | some a => .ok (s.store (writeByte s.pmm.mem a value))
    else .ok s

def run (s : Machine) : List Action → Except Nat Machine
  | [] => .ok s
  | a :: rest =>
    match step s a with
    | .error frame => .error frame
    | .ok t => run t rest

/-- Each page of the heap has one frame in all directories. -/
def HeapShared (s : Machine) : Prop :=
  ∀ p, heapStart ≤ p * pageSize → p * pageSize < s.heapCurrentEnd →
    ∃ frame, ∀ d, d = s.kernelDirectory ∨ d ∈ s.directories →
    AddressSpaces.translate s.pmm.mem d (p * pageSize) = some frame

/-- A block of the first megabyte of the heap, which the allocator may hand out. -/
def HeapBlock (b : Nat) : Prop := 0x600 ≤ b ∧ b < 0x700

instance (b : Nat) : Decidable (HeapBlock b) := inferInstanceAs (Decidable (_ ∧ _))

/-- The next frame does not lie in the heap; a new page finds a table, or there is
one directory to take a new one. -/
def Room (s : Machine) : Action → Prop
  | .create => ∀ b ∈ (freeBlocks s.pmm).head?, ¬ HeapBlock b
  | .page => s.heapCurrentEnd < 0xFFC00000 ∧ ∃ b rest, freeBlocks s.pmm = b :: rest ∧
      (isPresent (entry s.pmm.mem s.cr3 (pdIndex s.heapCurrentEnd)) = true ∨
        (s.directories = [s.cr3] ∧ ∃ c ∈ rest.head?, ¬ HeapBlock c))
  | _ => True

/-- Every action of the run finds room. -/
def Roomy : Machine → List Action → Prop
  | _, [] => True
  | s, a :: rest => Room s a ∧ ∀ t, step s a = .ok t → Roomy t rest

/-! ## The invariant -/

/-- The frame of a heap page: no directory and no table, and never one later. -/
structure Backing (s : Machine) (f : Nat) : Prop where
  aligned : f % pageSize = 0 ∧ 0x300000 ≤ f
  owned : Taken s.pmm f ∨ ∃ b, f = b * pageSize ∧ HeapBlock b
  apart : f ∉ s.directories ∧ ¬ IsTable s.pmm.mem s.kernelDirectory f

structure Shared (s : Machine) : Prop where
  kernel : s.kernelDirectory ∈ s.directories
  active : s.cr3 ∈ s.directories
  walkable : ∀ d ∈ s.directories, Walkable s d
  entries : ∀ d ∈ s.directories, ∀ i < 1023, entry s.pmm.mem d i = entry s.pmm.mem s.kernelDirectory i
  heap : 0x700000 ≤ s.heapCurrentEnd ∧ s.heapCurrentEnd % pageSize = 0 ∧ s.heapCurrentEnd ≤ 0xFFC00000
  pages : ∀ p, heapStart ≤ p * pageSize → p * pageSize < s.heapCurrentEnd →
    ∃ f, AddressSpaces.translate s.pmm.mem s.kernelDirectory (p * pageSize) = some f ∧ Backing s f

section
variable {s t u : Machine} {m : Mem} {d e f b c p w virt flags : Nat} {rest : List Nat}

theorem translate_entry (same : entry m d (pdIndex w) = entry m e (pdIndex w)) :
    AddressSpaces.translate m d w = AddressSpaces.translate m e w := by
  unfold AddressSpaces.translate
  rw [same]

theorem heap_page (shared : Shared s) (inside : w < s.heapCurrentEnd) : pdIndex w < 1023 := by
  have top := shared.heap.2.2
  unfold pdIndex
  omega

theorem shared_heap (shared : Shared s) : HeapShared s := by
  intro p above inside
  obtain ⟨f, walk, -⟩ := shared.pages p above inside
  refine ⟨f, fun d known => ?_⟩
  have member : d ∈ s.directories := known.elim (fun same => same ▸ shared.kernel) id
  rw [← walk]
  exact translate_entry (shared.entries d member _ (heap_page shared inside))

/-- What leaves the directories and their tables alone. -/
structure Quiet (s t : Machine) : Prop where
  same : t.kernelDirectory = s.kernelDirectory ∧ t.heapCurrentEnd = s.heapCurrentEnd
  below : BitmapBelow t.pmm
  bits : ∀ c, bitmapTest s.pmm c = true → bitmapTest t.pmm c = true
  memory : ∀ f, f ∈ s.directories ∨ IsTable s.pmm.mem s.kernelDirectory f →
    AgreeOn s.pmm.mem t.pmm.mem f (f + pageSize)

theorem walkable_quiet (shared : Shared s) (quiet : Quiet s t) (member : d ∈ s.directories) : Walkable t d := by
  obtain ⟨-, taken, tables, apart⟩ := shared.walkable d member
  have directory := quiet.memory d (.inl member)
  have same (i : Nat) (small : i < 1023) : entry t.pmm.mem d i = entry s.pmm.mem d i :=
    entry_agree directory (by omega)
  refine ⟨quiet.below, taken_mono quiet.bits taken, fun f table => ?_, fun i smallI j smallJ => ?_⟩
  · obtain ⟨held, ne⟩ := tables f ((isTable_agree directory).mp table)
    exact ⟨taken_mono quiet.bits held, ne⟩
  · rw [same i smallI, same j smallJ]
    exact apart i smallI j smallJ

theorem shared_quiet (shared : Shared s) (quiet : Quiet s t) (listed : t.directories = s.directories)
    (active : t.cr3 ∈ s.directories) : Shared t := by
  obtain ⟨kernel, heapEnd⟩ := quiet.same
  have same (d : Nat) (member : d ∈ s.directories) (i : Nat) (small : i < 1023) :
      entry t.pmm.mem d i = entry s.pmm.mem d i := entry_agree (quiet.memory d (.inl member)) (by omega)
  refine ⟨?_, ?_, ?_, ?_, ?_, ?_⟩
  · rw [kernel, listed]
    exact shared.kernel
  · rw [listed]
    exact active
  · rw [listed]
    exact fun d member => walkable_quiet shared quiet member
  · rw [listed, kernel]
    intro d member i small
    rw [same d member i small, same _ shared.kernel i small]
    exact shared.entries d member i small
  · rw [heapEnd]
    exact shared.heap
  · intro p above inside
    rw [heapEnd] at inside
    obtain ⟨f, walk, aligned, owned, plain, apart⟩ := shared.pages p above inside
    refine ⟨f, ?_, aligned, owned.imp_left (taken_mono quiet.bits), listed ▸ plain, fun table => apart ?_⟩
    · rw [kernel, ← walk]
      exact translate_agree (heap_page shared inside) (quiet.memory _ (.inl shared.kernel)) fun f table =>
        quiet.memory f (.inr table)
    · rw [kernel] at table
      exact (isTable_agree (quiet.memory _ (.inl shared.kernel))).mp table

/-- The frames that the directories are made of lie above the bitmap. -/
theorem frame_taken (shared : Shared s) (known : f ∈ s.directories ∨ IsTable s.pmm.mem s.kernelDirectory f) :
    Taken s.pmm f := by
  rcases known with member | table
  · exact (shared.walkable f member).taken
  · exact ((shared.walkable _ shared.kernel).tables f table).1

/-! ## Stores into the heap -/

theorem quiet_store (shared : Shared s) (backing : Backing s f)
    (outside : ∀ lo hi, hi ≤ f ∨ f + pageSize ≤ lo → AgreeOn s.pmm.mem m lo hi) : Quiet s (s.store m) := by
  have below := (shared.walkable _ shared.kernel).below
  have bitmap := outside 0x200000 0x300000 (.inl backing.aligned.2)
  refine ⟨⟨rfl, rfl⟩, bitmapBelow_agree below bitmap, fun c set => (bitmapTest_agree below bitmap c).trans set,
    fun g known => outside _ _ (frames_apart (taken_aligned (frame_taken shared known)).1 backing.aligned.1 ?_)⟩
  rintro rfl
  exact known.elim backing.apart.1 backing.apart.2

theorem store_shared (shared : Shared s) {value : UInt8} (ran : step s (.store virt value) = .ok t) : Shared t := by
  unfold step at ran
  dsimp only at ran
  by_cases inside : heapStart ≤ virt ∧ virt < s.heapCurrentEnd
  · rw [if_pos inside] at ran
    obtain ⟨aligned, above, within⟩ : virt / pageSize * pageSize + virt % pageSize = virt ∧
        heapStart ≤ virt / pageSize * pageSize ∧ virt / pageSize * pageSize < s.heapCurrentEnd := by
      unfold heapStart pageSize at *
      omega
    have offset : virt % pageSize < pageSize := Nat.mod_lt _ (by decide)
    obtain ⟨f, walk, backing⟩ := shared.pages _ above within
    have active : AddressSpaces.translate s.pmm.mem s.cr3 virt = some (f + virt % pageSize) := by
      rw [translate_entry (shared.entries _ shared.active _ (heap_page shared inside.2))]
      conv => lhs; rw [← aligned]
      rw [MappedRegions.translate_offset offset, walk]
      rfl
    rw [active] at ran
    cases ran
    exact shared_quiet shared (quiet_store shared backing fun lo hi clear =>
      writeByte_agree _ _ _ _ _ (by omega)) rfl shared.active
  · rw [if_neg inside] at ran
    cases ran
    exact shared

/-! ## A frame is taken -/

theorem quiet_taken (shared : Shared s) (shape : freeBlocks s.pmm = b :: rest) :
    Quiet s { s with pmm := bitmapSet s.pmm b } := by
  have below := (shared.walkable _ shared.kernel).below
  have free : b ∈ freeBlocks s.pmm := by simp [shape]
  refine ⟨⟨rfl, rfl⟩, bitmapBelow_set below b, fun c set => ?_, fun f known x above under => ?_⟩
  · rw [bitmapTest_bitmapSet, set]
    rfl
  · have high := (taken_aligned (frame_taken shared known)).2
    exact bitmapSet_agree below free x (Nat.le_trans high above) under

/-- The frame that the allocator hands out is free of the directories. -/
theorem free_plain (shared : Shared s) (free : b ∈ freeBlocks s.pmm) :
    b * pageSize ∉ s.directories ∧ ¬ IsTable s.pmm.mem s.kernelDirectory (b * pageSize) :=
  ⟨fun member => free_not_taken free (frame_taken shared (.inl member)),
    fun table => free_not_taken free (frame_taken shared (.inr table))⟩

/-- A heap page's frame is not handed out for a directory or a table. -/
theorem backing_ne (backing : Backing s f) (free : b ∈ freeBlocks s.pmm) (plain : ¬ HeapBlock b) :
    f ≠ b * pageSize := by
  rintro rfl
  rcases backing.owned with taken | ⟨c, same, inside⟩
  · exact free_not_taken free taken
  · obtain rfl : b = c := Nat.eq_of_mul_eq_mul_right (by decide) same
    exact plain inside

/-! ## A new directory -/

theorem shared_directory (shared : Shared s) (walkable : Walkable s d)
    (entries : ∀ i < 1023, entry s.pmm.mem d i = entry s.pmm.mem s.kernelDirectory i)
    (apart : ∀ p, heapStart ≤ p * pageSize → p * pageSize < s.heapCurrentEnd →
      AddressSpaces.translate s.pmm.mem s.kernelDirectory (p * pageSize) ≠ some d) : Shared { s with directories :=
      d :: s.directories } := by
  refine ⟨List.mem_cons_of_mem d shared.kernel, List.mem_cons_of_mem d shared.active, ?_, ?_, shared.heap,
    fun p above inside => ?_⟩
  · intro e member
    obtain ⟨below, taken, tables, separate⟩ : Walkable s e :=
      (List.mem_cons.mp member).elim (fun same => same ▸ walkable) (shared.walkable e)
    exact ⟨below, taken, tables, separate⟩
  · intro e member
    exact (List.mem_cons.mp member).elim (fun same => same ▸ entries) (shared.entries e)
  · obtain ⟨f, walk, backing⟩ := shared.pages p above inside
    refine ⟨f, walk, backing.aligned, backing.owned, fun member => ?_, backing.apart.2⟩
    exact (List.mem_cons.mp member).elim (fun same => apart p above inside (same ▸ walk)) backing.apart.1

theorem create_shared (shared : Shared s) (room : Room s .create) (ran : step s .create = .ok t) : Shared t := by
  have walkable := shared.walkable _ shared.kernel
  unfold step at ran
  dsimp only at ran
  cases created : vmmCreateDirectory s with
  | error frame =>
    rw [created] at ran
    cases ran
  | ok result =>
    obtain ⟨d, t'⟩ := result
    rw [created] at ran
    obtain rfl : t' = t := Except.ok.inj ran
    rcases createDirectory_cases walkable created with
      ⟨-, rfl⟩ | ⟨b, rest, shape, rfl, ⟨listed, kernel, active, heapEnd⟩, copied⟩
    · exact shared
    · have free : b ∈ freeBlocks s.pmm := by simp [shape]
      have plain : ¬ HeapBlock b := room b (by rw [shape]; rfl)
      have quiet : Quiet s { t' with directories := s.directories } := ⟨⟨kernel, heapEnd⟩, copied.walkable.below,
        copied.bits, fun f known => copied.memory f (frame_taken shared known)⟩
      have old := shared_quiet shared quiet rfl (active ▸ shared.active)
      have kept (i : Nat) (small : i < 1023) : entry t'.pmm.mem s.kernelDirectory i =
          entry s.pmm.mem s.kernelDirectory i :=
        entry_agree (quiet.memory _ (.inl shared.kernel)) (by omega)
      obtain ⟨below, taken, tables, apart⟩ := copied.walkable
      have added : Shared { t' with directories := b * pageSize :: s.directories } := by
        refine shared_directory old ⟨below, taken, tables, apart⟩ (fun i small => ?_)
          fun p above inside held => ?_
        · change entry t'.pmm.mem (b * pageSize) i = entry t'.pmm.mem t'.kernelDirectory i
          rw [copied.entries i small, kernel, kept i small]
        · change AddressSpaces.translate t'.pmm.mem t'.kernelDirectory (p * pageSize) = some (b * pageSize) at held
          change p * pageSize < t'.heapCurrentEnd at inside
          rw [heapEnd] at inside
          obtain ⟨f, walk, backing⟩ := shared.pages p above inside
          have same : AddressSpaces.translate t'.pmm.mem s.kernelDirectory (p * pageSize) = some f :=
            (translate_agree (heap_page shared inside) (quiet.memory _ (.inl shared.kernel))
              fun f table => quiet.memory f (.inr table)).trans walk
          rw [kernel, same] at held
          exact backing_ne backing free plain (Option.some.inj held)
      rw [← listed] at added
      exact added

/-! ## A new page of the heap -/

/-- The frame is in use and apart from the directories. -/
def Plain (s : Machine) (b : Nat) : Prop :=
  Taken s.pmm (b * pageSize) ∧ b * pageSize ∉ s.directories ∧
    ¬ IsTable s.pmm.mem s.kernelDirectory (b * pageSize)

/-- The page is there in the table that all directories name. -/
theorem setPage_shared (shared : Shared s) (plain : Plain s b) (room : s.heapCurrentEnd < 0xFFC00000)
    (present : isPresent (entry s.pmm.mem s.cr3 (pdIndex s.heapCurrentEnd)) = true)
    (ran : setPage s s.cr3 (b * pageSize) s.heapCurrentEnd flags = .ok t) :
    t.heapCurrentEnd = s.heapCurrentEnd ∧ Shared { t with heapCurrentEnd := s.heapCurrentEnd + pageSize } := by
  obtain ⟨above, aligned, -⟩ := shared.heap
  obtain ⟨⟨c, sameC, held, highC, bound⟩, listed, apart⟩ := plain
  obtain rfl : b = c := Nat.eq_of_mul_eq_mul_right (by decide) sameC
  have small : pdIndex s.heapCurrentEnd < 1023 := by
    unfold pdIndex
    omega
  have same (d : Nat) (member : d ∈ s.directories) :
      entry s.pmm.mem d (pdIndex s.heapCurrentEnd) = entry s.pmm.mem s.cr3 (pdIndex s.heapCurrentEnd) :=
    (shared.entries d member _ small).trans (shared.entries _ shared.active _ small).symm
  have grown (d : Nat) (member : d ∈ s.directories) : Grown s t d (· = s.heapCurrentEnd / pageSize) ∧
      AddressSpaces.translate t.pmm.mem d s.heapCurrentEnd = some (b * pageSize) := by
    have stored : setPage s d (b * pageSize) s.heapCurrentEnd flags = .ok t := by
      unfold setPage at ran ⊢
      rwa [same d member]
    exact grown_setPage (shared.walkable d member) small aligned ((same d member).symm ▸ present) bound stored
  obtain ⟨kernelGrown, page⟩ := grown _ shared.kernel
  obtain ⟨kernel, active, heapEnd, directories⟩ := kernelGrown.same
  -- the table is none of the directories
  have directory (d : Nat) (member : d ∈ s.directories) : AgreeOn s.pmm.mem t.pmm.mem d (d + pageSize) := by
    obtain ⟨taken, -⟩ := (shared.walkable _ shared.active).tables _ ⟨_, small, present, rfl⟩
    obtain ⟨alignedT, highT⟩ := taken_aligned taken
    have ne := ((shared.walkable d member).tables _ ⟨_, small, (same d member).symm ▸ present, rfl⟩).2
    rw [same d member] at ne
    unfold setPage at ran
    dsimp only at ran
    rw [if_neg (by omega)] at ran
    split at ran
    · cases ran
    · cases ran
      exact setEntry_outside (ptIndex_lt _)
        (frames_apart (taken_aligned (shared.walkable d member).taken).1 alignedT (Ne.symm ne))
  have entries (d : Nat) (member : d ∈ s.directories) (i : Nat) (less : i < 1023) :
      entry t.pmm.mem d i = entry s.pmm.mem d i := entry_agree (directory d member) (by omega)
  have tables (f : Nat) : IsTable t.pmm.mem s.kernelDirectory f ↔ IsTable s.pmm.mem s.kernelDirectory f :=
    isTable_agree (directory _ shared.kernel)
  refine ⟨heapEnd, ?_, ?_, ?_, ?_, ⟨?_, ?_, ?_⟩, ?_⟩
  · exact kernel ▸ directories ▸ shared.kernel
  · exact active ▸ directories ▸ shared.active
  · intro d member
    obtain ⟨below, taken, named, separate⟩ := (grown d (directories ▸ member)).1.walkable
    exact ⟨below, taken, named, separate⟩
  · intro d member i less
    dsimp only at member ⊢
    rw [directories] at member
    rw [kernel, entries d member i less, entries _ shared.kernel i less]
    exact shared.entries d member i less
  · exact Nat.le_trans above (Nat.le_add_right _ _)
  · dsimp only
    rw [Nat.add_mod_right, aligned]
  · dsimp only
    unfold pageSize at *
    omega
  · intro p start inside
    dsimp only at inside ⊢
    rw [kernel]
    by_cases last : p * pageSize = s.heapCurrentEnd
    · have high : 0x300000 ≤ b * pageSize := by
        unfold pageSize
        omega
      refine ⟨b * pageSize, ?_, ⟨Nat.mul_mod_left b pageSize, high⟩, .inl ?_, ?_, ?_⟩
      · rw [last]
        exact page
      · exact taken_mono kernelGrown.bits ⟨b, rfl, held, highC, bound⟩
      · exact directories ▸ listed
      · exact fun table => apart ((tables _).mp (kernel ▸ table))
    · have older : p * pageSize < s.heapCurrentEnd := by
        unfold pageSize at *
        omega
      obtain ⟨f, walk, alignedF, owned, listedF, apartF⟩ := shared.pages p start older
      refine ⟨f, ?_, alignedF, owned.imp_left (taken_mono kernelGrown.bits), directories ▸ listedF, ?_⟩
      · rw [kernelGrown.walks _ (heap_page shared older) (by unfold pageSize at *; omega), walk]
      · exact fun table => apartF ((tables f).mp (kernel ▸ table))

/-- The only directory gets a table for the page. -/
theorem newTable_shared (flags : Nat) (shared : Shared s) (only : s.directories = [s.cr3])
    (shape : freeBlocks s.pmm = c :: rest)
    (unowned : ¬ HeapBlock c) (small : pdIndex virt < 1023)
    (absent : ¬ isPresent (entry s.pmm.mem s.cr3 (pdIndex virt)) = true) (plain : Plain s b) :
    Shared (Machine.store { s with pmm := bitmapSet s.pmm c }
        (memset (setEntry (bitmapSet s.pmm c).mem s.cr3 (pdIndex virt) (presentEntry (c * pageSize) flags))
        (c * pageSize) 0
          pageSize)) ∧
      Plain (Machine.store { s with pmm := bitmapSet s.pmm c }
        (memset (setEntry (bitmapSet s.pmm c).mem s.cr3 (pdIndex virt) (presentEntry (c * pageSize) flags))
        (c * pageSize) 0
          pageSize)) b ∧
      isPresent (entry
      (memset (setEntry (bitmapSet s.pmm c).mem s.cr3 (pdIndex virt) (presentEntry (c * pageSize) flags))
        (c * pageSize) 0 pageSize) s.cr3 (pdIndex virt)) = true := by
  have walkable := shared.walkable _ shared.active
  have free : c ∈ freeBlocks s.pmm := by simp [shape]
  have single (d : Nat) (member : d ∈ s.directories) : d = s.cr3 := by
    rw [only] at member
    exact List.mem_singleton.mp member
  have kernel := single _ shared.kernel
  obtain ⟨grown, present⟩ := grown_newTable flags (fun _ => False) walkable shape small absent
  generalize memEq : memset (setEntry (bitmapSet s.pmm c).mem s.cr3 (pdIndex virt) (presentEntry (c * pageSize) flags))
    (c * pageSize) 0 pageSize = m at grown present ⊢
  obtain ⟨named, others, -⟩ := PageEntries.newTable_entries walkable shape small flags memEq
  have bound := (freeBlocks_high walkable.below free).2
  have tables (f : Nat) (table : IsTable m s.cr3 f) : IsTable s.pmm.mem s.cr3 f ∨ f = c * pageSize := by
    obtain ⟨i, less, held, rfl⟩ := table
    by_cases same : i = pdIndex virt
    · right
      rw [same, named]
      exact (names_present bound flags).2
    · rw [others i (by omega) same] at held ⊢
      exact .inl ⟨i, less, held, rfl⟩
  refine ⟨⟨shared.kernel, shared.active, fun d member => ?_, fun d member i _ => ?_, shared.heap,
    fun p start inside => ?_⟩, ?_, present⟩
  · exact single d member ▸ grown.walkable
  · change entry m d i = entry m s.kernelDirectory i
    rw [single d member, kernel]
  · obtain ⟨f, walk, backing⟩ := shared.pages p start inside
    refine ⟨f, ?_, backing.aligned, backing.owned.imp_left (taken_mono grown.bits), backing.apart.1,
      fun table => ?_⟩
    · change AddressSpaces.translate m s.kernelDirectory (p * pageSize) = some f
      rw [kernel] at walk ⊢
      exact (grown.walks _ (heap_page shared inside) id).trans walk
    · change IsTable m s.kernelDirectory f at table
      rw [kernel] at table
      rcases tables f table with table | same
      · exact backing.apart.2 (kernel.symm ▸ table)
      · exact backing_ne backing free unowned same
  · obtain ⟨taken, listed, apart⟩ := plain
    refine ⟨taken_mono grown.bits taken, listed, fun table => ?_⟩
    change IsTable m s.kernelDirectory (b * pageSize) at table
    rw [kernel] at table apart
    rcases tables _ table with table | same
    · exact apart table
    · exact free_not_taken free (same ▸ taken)

theorem mapPage_shared (shared : Shared s) (plain : Plain s b) (under : s.heapCurrentEnd < 0xFFC00000)
    (table : isPresent (entry s.pmm.mem s.cr3 (pdIndex s.heapCurrentEnd)) = true ∨
      (s.directories = [s.cr3] ∧ ∃ c ∈ (freeBlocks s.pmm).head?, ¬ HeapBlock c))
    (ran : vmmMapPage s (b * pageSize) s.heapCurrentEnd flags = .ok t) :
    t.heapCurrentEnd = s.heapCurrentEnd ∧ Shared { t with heapCurrentEnd := s.heapCurrentEnd + pageSize } := by
  obtain ⟨above, aligned, -⟩ := shared.heap
  have small : pdIndex s.heapCurrentEnd < 1023 := by
    unfold pdIndex
    omega
  rcases mapPage_steps (shared.walkable _ shared.active) ran with ⟨refused, -⟩ | ⟨absent, empty, -⟩ |
    ⟨present, stored⟩ | ⟨absent, c, rest, shape, stored⟩
  · obtain ⟨alignedD, highD⟩ := taken_aligned (shared.walkable _ shared.active).taken
    have highB := (taken_aligned plain.1).2
    exact absurd ⟨⟨by omega, alignedD⟩, ⟨by omega, by omega⟩, Nat.mul_mod_left b pageSize, aligned⟩ refused
  · rcases table with present | ⟨-, c, first, -⟩
    · exact absurd present absent
    · simp [empty] at first
  · exact setPage_shared shared plain under present stored
  · rcases table with present | ⟨only, c', first, unowned⟩
    · exact absurd present absent
    · obtain rfl : c = c' := by simpa [shape] using first
      obtain ⟨grown, still, present⟩ := newTable_shared flags shared only shape unowned small absent plain
      have done := setPage_shared grown still under present stored
      exact done

theorem page_shared (shared : Shared s) (room : Room s .page) (ran : step s .page = .ok t) : Shared t := by
  obtain ⟨under, b, rest, shape, table⟩ := room
  have walkable := shared.walkable _ shared.active
  have quiet := quiet_taken shared shape
  have plain : Plain { s with pmm := bitmapSet s.pmm b } b := by
    obtain ⟨listed, apart⟩ := free_plain shared (show b ∈ freeBlocks s.pmm by simp [shape])
    exact ⟨(prepared_taken walkable shape).taken, listed, fun found =>
      apart ((isTable_agree (quiet.memory _ (.inl shared.kernel))).mp found)⟩
  have kept : entry (bitmapSet s.pmm b).mem s.cr3 (pdIndex s.heapCurrentEnd) =
      entry s.pmm.mem s.cr3 (pdIndex s.heapCurrentEnd) := by
    have small : pdIndex s.heapCurrentEnd < 1024 := by
      unfold pdIndex
      omega
    exact entry_agree (quiet.memory _ (.inl shared.active)) small
  have next : freeBlocks (bitmapSet s.pmm b) = rest := freeBlocks_set walkable.below shape
  change heapExpandPage s = .ok t at ran
  unfold heapExpandPage at ran
  rcases pmmAllocBlock_pops walkable.below with ⟨none, -⟩ | ⟨c, rest', shape', handed, -⟩
  · rw [shape] at none
    cases none
  · obtain ⟨rfl, rfl⟩ := List.cons.inj (shape.symm.trans shape')
    rw [handed] at ran
    dsimp only at ran
    cases mapped : vmmMapPage { s with pmm := bitmapSet s.pmm b } (b * pageSize) s.heapCurrentEnd
        (pagePresent ||| pageWrite) with
    | error frame =>
      rw [mapped] at ran
      cases ran
    | ok u =>
      rw [mapped] at ran
      cases ran
      have before : Shared { s with pmm := bitmapSet s.pmm b } := shared_quiet shared quiet rfl shared.active
      obtain ⟨heapEnd, grown⟩ := mapPage_shared before plain under (by rw [kept, next]; exact table) mapped
      have word : (u.heapCurrentEnd + pageSize) % 2 ^ 32 = s.heapCurrentEnd + pageSize := by
        rw [heapEnd]
        unfold pageSize
        dsimp only
        omega
      rw [word]
      exact grown

/-! ## Runs -/

theorem step_shared {a : Action} (shared : Shared s) (room : Room s a) (ran : step s a = .ok t) : Shared t := by
  cases a with
  | create => exact create_shared shared room ran
  | switch d =>
    cases ran
    by_cases member : d ∈ s.directories
    · rw [if_pos member]
      have quiet : Quiet s { s with cr3 := d } :=
        ⟨⟨rfl, rfl⟩, (shared.walkable _ shared.kernel).below, fun _ set => set, fun _ _ _ _ _ => rfl⟩
      exact shared_quiet shared quiet rfl member
    · rw [if_neg member]
      exact shared
  | page => exact page_shared shared room ran
  | store virt value => exact store_shared shared ran

theorem run_shared {actions : List Action} (shared : Shared s) (roomy : Roomy s actions)
    (ran : run s actions = .ok t) : Shared t := by
  induction actions generalizing s with
  | nil =>
    cases ran
    exact shared
  | cons a rest ih =>
    unfold run at ran
    cases stepped : step s a with
    | error frame =>
      rw [stepped] at ran
      cases ran
    | ok u =>
      rw [stepped] at ran
      exact ih (step_shared shared roomy.1 stepped) (roomy.2 u stepped) ran

/-- `heap_expand` maps its pages one after the other. -/
theorem heapExpandPages_run (n : Nat) (s : Machine) : heapExpandPages n s = run s (List.replicate n .page) := by
  induction n generalizing s with
  | zero => rfl
  | succ n ih =>
    rw [List.replicate_succ]
    unfold heapExpandPages run
    cases stepped : step s .page with
    | error frame =>
      rw [show heapExpandPage s = .error frame from stepped]
    | ok t =>
      rw [show heapExpandPage s = .ok t from stepped]
      exact ih t

/-! ## Boot -/

/-- The first pages of the heap have their own addresses. -/
theorem booted_shared {pmm : PmmState} {b0 b1 b2 : Nat} (booted : Booted pmm b0 b1 b2) :
    Shared (bootMachine pmm (b0 * pageSize)) := by
  obtain ⟨high, less01, less12, low⟩ := booted.order
  refine ⟨List.mem_singleton_self _, List.mem_singleton_self _, fun d member => ?_, fun d member i _ => ?_,
    ⟨Nat.le_refl 0x700000, show (heapStart + heapSize) % pageSize = 0 by decide,
      show heapStart + heapSize ≤ 0xFFC00000 by decide⟩, fun p start inside => ?_⟩
  · exact List.mem_singleton.mp member ▸ booted_walkable booted
  · rw [List.mem_singleton.mp member]
    rfl
  · change p * pageSize < 0x700000 at inside
    have block : HeapBlock p := by
      unfold HeapBlock heapStart pageSize at *
      omega
    have apart (b : Nat) (less : b < 0x600) : p * pageSize ≠ b * pageSize := by
      unfold HeapBlock pageSize at *
      omega
    refine ⟨p * pageSize, ?_, ⟨Nat.mul_mod_left p pageSize, ?_⟩, .inr ⟨p, rfl, block⟩, fun member => ?_, ?_⟩
    · have directory : pdIndex (p * pageSize) = 1 := by
        unfold pdIndex HeapBlock pageSize at *
        omega
      have table : 0x400000 + ptIndex (p * pageSize) * pageSize = p * pageSize := by
        unfold ptIndex HeapBlock pageSize at *
        omega
      have names := booted.identity1 _ (ptIndex_lt (p * pageSize))
      rw [table] at names
      have walk := translate_names (directory.symm ▸ booted.first.2) names
      rwa [Nat.mul_mod_left, Nat.add_zero] at walk
    · unfold HeapBlock pageSize at *
      omega
    · exact apart b0 (by omega) (List.mem_singleton.mp member)
    · rintro ⟨i, small, present, named⟩
      rcases present_first booted small present with ⟨-, first⟩ | ⟨-, second⟩
      · exact apart b1 (by omega) (named.symm.trans first)
      · exact apart b2 low (named.symm.trans second)

theorem tail_member {l : List Nat} {x y : Nat} (sorted : (x :: l).Pairwise (· < ·)) (member : y ∈ x :: l)
    (other : z ∈ x :: l)
    (less : y < z) : z ∈ l ∧ x ≤ y := by
  have above := (List.pairwise_cons.mp sorted).1
  have least : x ≤ y := (List.mem_cons.mp member).elim (fun same => same ▸ Nat.le_refl _) fun later =>
    Nat.le_of_lt (above y later)
  exact ⟨(List.mem_cons.mp other).resolve_left (by omega), least⟩

/-- The third of a sorted queue is below any that has two before it. -/
theorem first_three {l : List Nat} {c0 c1 c2 : Nat} (sorted : l.Pairwise (· < ·)) (member0 : c0 ∈ l)
    (member1 : c1 ∈ l)
    (member2 : c2 ∈ l) (less01 : c0 < c1) (less12 : c1 < c2) :
    ∃ b0 b1 b2 rest, l = b0 :: b1 :: b2 :: rest ∧ b2 ≤ c2 := by
  rcases l with - | ⟨b0, l⟩
  · cases member0
  · obtain ⟨second, -⟩ := tail_member sorted member0 member1 less01
    obtain ⟨third, -⟩ := tail_member sorted member1 member2 less12
    have sorted' := (List.pairwise_cons.mp sorted).2
    rcases l with - | ⟨b1, l⟩
    · cases second
    · obtain ⟨last, -⟩ := tail_member sorted' second third less12
      rcases l with - | ⟨b2, l⟩
      · cases last
      · refine ⟨b0, b1, b2, l, rfl, ?_⟩
        exact (List.mem_cons.mp last).elim (fun same => same ▸ Nat.le_refl _) fun later =>
          Nat.le_of_lt ((List.pairwise_cons.mp (List.pairwise_cons.mp sorted').2).1 c2 later)

/-- The map frees three pages below the heap, in words that the allocator scans. -/
def EarlyPages (map : MemoryMap) : Prop :=
  ∃ c0 c1 c2, c0 < c1 ∧ c1 < c2 ∧ c2 < 0x600 ∧ c2 < highestUsableAddr map / pageSize / 32 * 32 ∧
    FreedByMap map map.entryCount c0 ∧ FreedByMap map map.entryCount c1 ∧ FreedByMap map map.entryCount c2

theorem bootedMachine_shared {map : MemoryMap} (low : Below4G map) (some : 0 < map.entryCount)
    (valid : map.entryCount < 0xFFFFFFFF) (ram : pageSize ≤ highestUsableAddr map) (early : EarlyPages map)
    (boot : bootedMachine (2 ^ 20 + 1) map m = Option.some s) : Shared s := by
  obtain ⟨t, ran, bitmap, blocks, bits⟩ := pmmInitializeFromMap_bits low some valid ram m
  have below : BitmapBelow t := by
    have bound := highestUsableAddr_le low
    refine ⟨bitmap, by rw [blocks]; unfold pageSize; omega, fun b small clear => ?_⟩
    obtain ⟨i, -, -, -, -, -, high⟩ := (bits b small).mp clear
    unfold pageSize at high
    omega
  obtain ⟨c0, c1, c2, less01, less12, early, scanned, freed0, freed1, freed2⟩ := early
  have free (c : Nat) (less : c ≤ c2) (freed : FreedByMap map map.entryCount c) : c ∈ freeBlocks t := by
    rw [mem_freeBlocks, blocks]
    exact ⟨by omega, (bits c (by rw [blocks]; omega)).mpr freed⟩
  obtain ⟨b0, b1, b2, rest, shape, last⟩ := first_three (freeBlocks_sorted t) (free c0 (by omega) freed0)
    (free c1 (by omega) freed1) (free c2 (Nat.le_refl _) freed2) less01 less12
  obtain ⟨booted, directory, -⟩ := vmmInitialize_booted below shape (by omega)
  unfold bootedMachine at boot
  rw [ran] at boot
  cases boot
  rw [directory]
  exact booted_shared (booted_agree booted fun lo hi under => heapInitialize_agree _ under)

/-- A directory and then a page of the heap, where the window has a frame. -/
theorem created_page {t0 t1 b0 b1 : Nat} (spaces : Spaces s t0 t1) (shape : freeBlocks s.pmm = b0 :: b1 :: rest)
    (window : InWindow s.heapCurrentEnd b0) (inside : s.heapCurrentEnd < 0x800000) :
    ∃ t u, step s .create = .ok t ∧ step t .page = .ok u ∧ freeBlocks t.pmm = b1 :: rest ∧
      t.heapCurrentEnd = s.heapCurrentEnd ∧ isPresent (entry t.pmm.mem t.cr3 (pdIndex t.heapCurrentEnd)) = true := by
  obtain ⟨t, made, created⟩ := vmmCreateDirectory_created spaces shape window
  obtain ⟨spaces', free, -, ⟨-, -, heapEnd⟩, -, -, -⟩ := created
  have above := spaces'.heap
  have index : pdIndex t.heapCurrentEnd = 1 := by
    rw [heapEnd] at above ⊢
    unfold pdIndex
    omega
  have present : isPresent (entry t.pmm.mem t.cr3 (pdIndex t.heapCurrentEnd)) = true :=
    index ▸ (spaces'.first _ spaces'.active).2.1
  have taken := spaces_taken spaces' (show b1 ∈ freeBlocks t.pmm by simp [free])
  have positive : 0 < b1 := by
    have := (freeBlocks_high spaces'.below (show b1 ∈ freeBlocks t.pmm by simp [free])).1
    omega
  have kept : isPresent (entry (bitmapSet t.pmm b1).mem t.cr3 (pdIndex t.heapCurrentEnd)) = true :=
    index ▸ (taken.first _ taken.active).2.1
  have mapped := PageMapping.mapRequest taken taken.active above.2 (by omega) positive (pagePresent ||| pageWrite)
  rw [if_pos kept, PageMapping.setPage_stores taken taken.active (by rw [index]; decide) kept] at mapped
  have paged : ∃ u, heapExpandPage t = .ok u := by
    unfold heapExpandPage vmmMapPage
    rw [pmmAllocBlock_first spaces' free]
    dsimp only
    rw [mapped]
    exact ⟨_, rfl⟩
  obtain ⟨u, grown⟩ := paged
  refine ⟨t, u, ?_, grown, free, heapEnd, present⟩
  unfold step
  rw [made]
  rfl

end

theorem ram128_early : EarlyPages ram128 := by
  refine ⟨0x300, 0x301, 0x302, by decide, by decide, by decide, ?_, ?_, ?_, ?_⟩
  · rw [ram128_highest]
    decide
  · exact ram128_freed (by decide) (by decide)
  · exact ram128_freed (by decide) (by decide)
  · exact ram128_freed (by decide) (by decide)

end MeowMeowOS.SharedHeap

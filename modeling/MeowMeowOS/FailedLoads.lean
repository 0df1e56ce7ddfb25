import MeowMeowOS.LoadExits
import MeowMeowOS.BitmapReach
import MeowMeowOS.LoadedFiles
import MeowMeowOS.LoadedTasks
import MeowMeowOS.HeapSafety

/-! What a load that fails has cost. The loader gives back the node and the
program headers, and no frame. -/
namespace MeowMeowOS.FailedLoads
open ByteMemory PhysicalFrames VirtualMemory BootFrames FreeFrames AddressSpaces DirectoryLayout MappedPages ElfLoading
open LoadedImage LoadedTasks LoadExits BitmapReach BootDirectories LoadedFiles
open KernelHeap (HeapState block formedSize add32 takeBlock block_congr heapInitialize)
open HeapSafety (memAlloc_at_cursor takeBlock_split)

section
variable {s t : Machine} {file : List UInt8} {ph : Elf32Phdr} {d b p phys virt remaining : Nat}

/-! ## The frames of a load -/

/-- No frame is left, or the directory is in order. -/
def Held (s : Machine) (d : Nat) : Prop := Exhausted s ∨ AboveBitmap s d 1024

theorem held_below (held : Held s d) : BitmapBelow s.pmm := held.elim Exhausted.below AboveBitmap.below

/-- A call for a frame fails only where none is left. -/
theorem afterAlloc_none (below : BitmapBelow s.pmm) (failed : (pmmAllocBlock s.pmm).1 = 0) :
    freeBlocks (afterAlloc s).pmm = [] := by
  unfold afterAlloc
  rcases pmmAllocBlock_pops below with ⟨none, same⟩ | ⟨b, rest, shape, handed, -⟩
  · rw [same]
    exact none
  · have high := (freeBlocks_high below (show b ∈ freeBlocks s.pmm by simp [shape])).1
    rw [handed] at failed
    unfold pageSize at failed
    dsimp only at failed
    omega

/-- A new directory leads where the kernel's leads, and to itself. -/
theorem createDirectory_held (above : AboveBitmap s s.kernelDirectory 1023)
    (ran : vmmCreateDirectory s = .ok (d, t)) : Held t d := by
  unfold vmmCreateDirectory at ran
  rcases pmmAllocBlock_pops above.below with ⟨none, failed⟩ | ⟨b, rest, shape, handed, -⟩
  · rw [failed] at ran
    dsimp only at ran
    rw [if_pos rfl] at ran
    cases ran
    exact .inl ⟨above.below, none⟩
  · have free : b ∈ freeBlocks s.pmm := by simp [shape]
    have frame := freeBlocks_high above.below free
    have high : 0x300000 ≤ b * pageSize := by
      unfold pageSize
      omega
    obtain ⟨-, below, -, set, -, -⟩ := take_next above.below shape
    have kernel := above_taken above free (by decide)
    have other : b * pageSize ≠ s.kernelDirectory := fun same => free_not_taken free (same ▸ above.taken)
    have clear := frames_apart (Nat.mul_mod_left b pageSize) (taken_aligned above.taken).1 other
    obtain ⟨copied, -, copiedOutside⟩ :=
      copyTable_entries (m := memset (bitmapSet s.pmm b).mem (b * pageSize) 0 pageSize) clear 1023 (by decide)
    rw [handed] at ran
    dsimp only at ran
    rw [if_neg (by omega)] at ran
    split at ran
    · cases ran
    · split at ran
      · cases ran
      · cases ran
        generalize copyTable (memset (bitmapSet s.pmm b).mem (b * pageSize) 0 pageSize)
          (b * pageSize) s.kernelDirectory 1023 = copy at copied copiedOutside
        generalize memEq : setEntry copy (b * pageSize) 1023 (b * pageSize ||| pagePresent ||| pageWrite) = m
        have outside (lo hi : Nat) (apart : hi ≤ b * pageSize ∨ b * pageSize + pageSize ≤ lo) :
            AgreeOn (bitmapSet s.pmm b).mem m lo hi := by
          rw [← memEq]
          exact agreeOn_trans (agreeOn_trans (memset_outside apart) (copiedOutside lo hi apart))
            (setEntry_outside (by decide) apart)
        have bitmap := outside 0x200000 0x300000 (.inl high)
        refine .inr ⟨bitmapBelow_agree below bitmap, ⟨b, rfl, (bitmapTest_agree below bitmap b).trans set,
          frame.1, frame.2⟩, fun i small present => ?_⟩
        change isPresent (entry m (b * pageSize) i) = true at present
        change 0x300000 ≤ frameOf (entry m (b * pageSize) i)
        by_cases last : i = 1023
        · subst last
          rw [← memEq, entry_setEntry, (names_table b frame.2).2]
          exact high
        · have same : entry m (b * pageSize) i = entry (bitmapSet s.pmm b).mem s.kernelDirectory i := by
            rw [← memEq, entry_setEntry_ne (by omega), copied i (by omega)]
            exact entry_agree (memset_outside clear.symm) (by omega)
          rw [same] at present ⊢
          exact kernel.tables i (by omega) present

theorem loadPage_held (above : AboveBitmap s d 1024) (ran : loadPage s d ph file p = .ok t) : AboveBitmap t d 1024 := by
  unfold loadPage at ran
  rcases pmmAllocBlock_pops above.below with ⟨-, failed⟩ | ⟨b, rest, shape, handed, -⟩
  · rw [failed] at ran
    dsimp only at ran
    rw [if_pos rfl] at ran
    cases ran
  · have free : b ∈ freeBlocks s.pmm := by simp [shape]
    have frame := freeBlocks_high above.below free
    have high : 0x300000 ≤ b * pageSize := by
      unfold pageSize
      omega
    have other : b * pageSize ≠ d := fun same => free_not_taken free (same ▸ above.taken)
    have aligned := Nat.mul_mod_left b pageSize
    rw [handed] at ran
    dsimp only at ran
    rw [if_neg (by omega)] at ran
    split at ran
    · cases ran
    · have zeroed (lo hi : Nat) (apart : hi ≤ b * pageSize ∨ b * pageSize + pageSize ≤ lo) :
          AgreeOn (bitmapSet s.pmm b).mem (memset (bitmapSet s.pmm b).mem (b * pageSize) 0 pageSize) lo hi :=
          memset_outside apart
      have cleared := above_store (above_taken above free (Nat.le_refl _)) (Nat.le_refl _) aligned high other zeroed
      split at ran
      · cases ran
      · rename_i u mapped
        obtain ⟨aboveU, -⟩ := above_map cleared (Nat.le_refl _) cleared (Nat.mod_lt _ (by decide)) frame mapped
        obtain ⟨m, rfl, outside⟩ := readPage_stays ran
        exact above_store aboveU (Nat.le_refl _) aligned high other outside

theorem readPage_takesNone (s : Machine) (phys : Nat) (ph : Elf32Phdr) (file : List UInt8) (virt : Nat) :
    readPage s phys ph file virt ≠ .error .outOfMemory := by
  unfold readPage
  dsimp only
  generalize (if virt < ph.pVaddr then ph.pVaddr - virt else 0) = dest
  generalize (if virt < ph.pVaddr then 0 else virt - ph.pVaddr) = seg
  generalize (if seg < ph.pFilesz then min (ph.pFilesz - seg) ((pageSize + 2 ^ 32 - dest) % 2 ^ 32) else 0) = len
  intro ran
  split at ran
  · cases ran
  · split at ran
    · cases ran
    · split at ran <;> cases ran

/-- The only call of a round whose failure ends the load is its first. -/
theorem loadPage_failed (ran : loadPage s d ph file p = .error .outOfMemory) : (pmmAllocBlock s.pmm).1 = 0 := by
  unfold loadPage at ran
  dsimp only at ran
  split at ran
  · assumption
  · split at ran
    · cases ran
    · split at ran
      · cases ran
      · exact (readPage_takesNone _ _ _ _ _ ran).elim

theorem loadPages_held (held : Held s d) (ran : loadPages d ph file remaining p s = .ok t) : Held t d := by
  rcases held with exhausted | above
  · exact .inl (loadPages_exhausted exhausted ran)
  · right
    induction remaining generalizing p s with
    | zero =>
      cases ran
      exact above
    | succ remaining ih =>
      unfold loadPages at ran
      split at ran
      · cases ran
      · rename_i u page
        exact ih ran (loadPage_held above page)

theorem endOfPages_none (held : Held s d) (ran : loadPages d ph file remaining p s = .error .outOfMemory) :
    freeBlocks (endOfPages d ph file remaining p s).pmm = [] := by
  induction remaining generalizing p s with
  | zero => cases ran
  | succ remaining ih =>
    unfold loadPages at ran
    unfold endOfPages
    cases page : loadPage s d ph file p with
    | error stop =>
      rw [page] at ran
      cases ran
      exact afterAlloc_none (held_below held) (loadPage_failed page)
    | ok u =>
      rw [page] at ran
      refine ih ?_ ran
      rcases held with exhausted | above
      · unfold loadPage at page
        rw [exhausted_alloc exhausted] at page
        dsimp only at page
        rw [if_pos rfl] at page
        cases page
      · exact .inr (loadPage_held above page)

theorem loadSegment_held (held : Held s d) (ran : loadSegment s d ph file = .ok t) : Held t d := by
  unfold loadSegment at ran
  split at ran
  · exact loadPages_held held ran
  · cases ran
    exact held

theorem loadSegments_held (phdrs : List Elf32Phdr) (held : Held s d)
    (ran : loadSegments d file phdrs s = .ok t) : Held t d := by
  induction phdrs generalizing s with
  | nil =>
    cases ran
    exact held
  | cons ph phdrs ih =>
    unfold loadSegments at ran
    split at ran
    · cases ran
    · rename_i u segment
      exact ih (loadSegment_held held segment) ran

theorem endOfSegments_none (phdrs : List Elf32Phdr) (held : Held s d)
    (ran : loadSegments d file phdrs s = .error .outOfMemory) :
    freeBlocks (endOfSegments d file phdrs s).pmm = [] := by
  induction phdrs generalizing s with
  | nil => cases ran
  | cons ph phdrs ih =>
    unfold loadSegments at ran
    unfold endOfSegments
    cases segment : loadSegment s d ph file with
    | error stop =>
      rw [segment] at ran
      cases ran
      unfold loadSegment at segment
      split at segment
      · exact endOfPages_none held segment
      · cases segment
    | ok u =>
      rw [segment] at ran
      exact ih (loadSegment_held held segment) ran

theorem addPage_failed (ran : addPage s d virt = .error .outOfMemory) : (pmmAllocBlock s.pmm).1 = 0 := by
  unfold addPage at ran
  dsimp only at ran
  split at ran
  · assumption
  · split at ran
    · cases ran
    · split at ran <;> cases ran

theorem addPage_held (held : Held s d) (small : virt < 2 ^ 32) (ran : addPage s d virt = .ok (phys, t)) :
    AboveBitmap t d 1024 := by
  rcases held with exhausted | above
  · rw [addPage_exhausted exhausted] at ran
    cases ran
  · unfold addPage at ran
    rcases pmmAllocBlock_pops above.below with ⟨-, failed⟩ | ⟨b, rest, shape, handed, -⟩
    · rw [failed] at ran
      dsimp only at ran
      rw [if_pos rfl] at ran
      cases ran
    · have free : b ∈ freeBlocks s.pmm := by simp [shape]
      have frame := freeBlocks_high above.below free
      have high : 0x300000 ≤ b * pageSize := by
        unfold pageSize
        omega
      have other : b * pageSize ≠ d := fun same => free_not_taken free (same ▸ above.taken)
      have taken := above_taken above free (Nat.le_refl _)
      rw [handed] at ran
      dsimp only at ran
      rw [if_neg (by omega)] at ran
      split at ran
      · cases ran
      · rename_i u mapped
        obtain ⟨aboveU, -⟩ := above_map taken (Nat.le_refl _) taken small frame mapped
        split at ran
        · cases ran
        · cases ran
          exact above_store aboveU (Nat.le_refl _)
            (Nat.mul_mod_left b pageSize) high other fun lo hi apart => memset_outside apart

theorem endOfStack_none {argv : List (List UInt8)} {unset : Nat → Nat} (held : Held s d)
    (ran : loadStack s d argv unset = .error .outOfMemory) : freeBlocks (endOfStack s d).pmm = [] := by
  unfold loadStack at ran
  unfold endOfStack
  cases stack : addPage s d userStackPage with
  | error stop =>
    rw [stack] at ran
    cases ran
    exact afterAlloc_none (held_below held) (addPage_failed stack)
  | ok made =>
    obtain ⟨phys, u⟩ := made
    rw [stack] at ran
    dsimp only at ran ⊢
    have above := addPage_held held (by decide) stack
    cases tls : addPage u d userTlsPage with
    | error stop =>
      rw [tls] at ran
      cases ran
      exact afterAlloc_none above.below (addPage_failed tls)
    | ok last =>
      rw [tls] at ran
      dsimp only at ran
      split at ran <;> cases ran

/-- Where the load ends for want of a frame, none is left. -/
theorem outOfFrames_none {beyond : Mem} {argv : List (List UInt8)} {unset : Nat → Nat}
    (above : AboveBitmap s s.kernelDirectory 1023)
    (ran : elfLoad s file true beyond argv unset = .error .outOfMemory) :
    freeBlocks (outOfFrames s file beyond).pmm = [] := by
  unfold elfLoad at ran
  unfold outOfFrames
  dsimp only at ran
  split at ran
  · cases ran
  · rw [if_neg (by decide)] at ran
    cases created : vmmCreateDirectory s with
    | error frame =>
      rw [created] at ran
      cases ran
    | ok made =>
      obtain ⟨d, u⟩ := made
      have held := createDirectory_held above created
      rw [created] at ran
      dsimp only [ofFault] at ran ⊢
      cases segments : loadSegments d file (programHeaders file beyond) u with
      | error stop =>
        rw [segments] at ran
        cases ran
        exact endOfSegments_none _ held segments
      | ok filled =>
        rw [segments] at ran
        dsimp only at ran ⊢
        have heldFilled := loadSegments_held _ held segments
        split at ran
        · rename_i stop stack
          cases ran
          exact endOfStack_none heldFilled stack
        · cases ran

end

/-! ## The heap blocks of a load -/

/-- The heap has taken frames, and nothing else has. -/
def Expanded (w w' : World) : Prop := ∃ pages, heapExpandPages pages w.machine = .ok w'.machine

/-- A failed load has cost nothing: no heap block is left over, and the free
frames are those that the heap has left. -/
def CostsNothing (w expanded w' : World) : Prop :=
  w'.live = w.live ∧ freeBlocks w'.machine.pmm = freeBlocks expanded.machine.pmm

section
variable {w w' w'' : World} {s t u : Machine} {fuel size ptr : Nat} {mounted : Bool}
    {file : Option (List UInt8)} {given : Option (Nat × Nat)}

theorem heapExpandPages_add {first second : Nat} (ran : heapExpandPages first s = .ok t)
    (next : heapExpandPages second t = .ok u) :
    heapExpandPages (first + second) s = .ok u := by
  induction first generalizing s with
  | zero =>
    cases ran
    rwa [Nat.zero_add]
  | succ first ih =>
    rw [Nat.succ_add]
    unfold heapExpandPages at ran ⊢
    cases page : heapExpandPage s with
    | error frame =>
      rw [page] at ran
      cases ran
    | ok v =>
      rw [page] at ran
      exact ih ran

theorem expanded_refl (w : World) : Expanded w w := ⟨0, rfl⟩

theorem expanded_trans (first : Expanded w w') (second : Expanded w' w'') : Expanded w w'' := by
  obtain ⟨pages, ran⟩ := first
  obtain ⟨more, next⟩ := second
  exact ⟨pages + more, heapExpandPages_add ran next⟩

theorem kmemZalloc_spec (ran : kmemZalloc fuel w size = some (ptr, w')) :
    Expanded w w' ∧ w'.live = if ptr = 0 then w.live else ptr :: w.live := by
  unfold kmemZalloc at ran
  split at ran
  · cases ran
  · split at ran
    · cases ran
    · rename_i machine grown
      by_cases null : ptr = 0
      · split at ran
        · cases ran
          exact ⟨⟨_, grown⟩, (if_pos rfl).symm⟩
        · cases ran
          exact absurd null ‹_›
      · split at ran
        · cases ran
          exact absurd rfl null
        · cases ran
          exact ⟨⟨_, grown⟩, (if_neg null).symm⟩

theorem fat16VfsOpen_spec (ran : fat16VfsOpen fuel w file = some (ptr, w')) :
    Expanded w w' ∧ w'.live = if ptr = 0 then w.live else ptr :: w.live := by
  unfold fat16VfsOpen at ran
  split at ran
  · cases ran
    exact ⟨expanded_refl _, rfl⟩
  · split at ran
    · cases ran
      exact ⟨expanded_refl _, rfl⟩
    · exact kmemZalloc_spec ran

theorem openNode_spec (ran : openNode fuel w mounted file = some (ptr, w')) :
    Expanded w w' ∧ w'.live = if ptr = 0 then w.live else ptr :: w.live := by
  unfold openNode at ran
  split at ran
  · cases ran
  · rename_i node v opened
    have first : Expanded w v ∧ v.live = if node = 0 then w.live else node :: w.live := by
      split at opened
      · exact fat16VfsOpen_spec opened
      · cases opened
        exact ⟨expanded_refl _, rfl⟩
    split at ran
    · rename_i null
      obtain ⟨grown, live⟩ := fat16VfsOpen_spec ran
      rw [if_pos null] at first
      rw [first.2] at live
      exact ⟨expanded_trans first.1 grown, live⟩
    · cases ran
      exact first

/-- What the loader holds when it comes to its directory, and what it has kept
when it does not. -/
theorem readHeaders_spec (ran : readHeaders fuel w mounted file = some (given, w')) : Expanded w w' ∧
    w'.live = match given with
      | none => w.live
      | some (node, phdrs) => phdrs :: node :: w.live := by
  unfold readHeaders at ran
  split at ran
  · cases ran
  · rename_i node v opened
    obtain ⟨grown, live⟩ := openNode_spec opened
    dsimp only at ran
    split at ran
    · rename_i null
      cases ran
      exact ⟨grown, live.trans (if_pos null)⟩
    · rename_i open'
      rw [if_neg open'] at live
      have closed (x : World) (same : x.live = v.live) : (kmemFree x node).live = w.live := by
        unfold kmemFree
        dsimp only
        rw [same, live, List.erase_cons_head]
      split at ran
      · cases ran
        exact ⟨grown, closed v rfl⟩
      · split at ran
        · cases ran
        · rename_i phdrs x allocated
          obtain ⟨grownX, liveX⟩ := kmemZalloc_spec allocated
          have both := expanded_trans grown grownX
          split at ran
          · rename_i null
            cases ran
            exact ⟨both, closed x (liveX.trans (if_pos null))⟩
          · rename_i some
            cases ran
            exact ⟨both, by rw [liveX, if_neg some, live]⟩

/-- A file that is no program is refused before the loader takes a frame. -/
theorem refused_given (refused : ¬ Accepts (file.getD []))
    (ran : readHeaders fuel w mounted file = some (given, w')) : given = none := by
  unfold readHeaders at ran
  split at ran
  · cases ran
  · dsimp only at ran
    split at ran
    · cases ran
      rfl
    · cases ran
      rfl

/-- Behind the program headers a load fails only for want of a frame. -/
theorem failed_exhausted {expanded : World} {node phdrs : Nat} {beyond : Mem} {argv : List (List UInt8)}
    {unset : Nat → Nat}
    (reachable : Reachable w.machine) (small : w.machine.heapCurrentEnd < 2 ^ 32)
    (read : readHeaders fuel w mounted file = some (some (node, phdrs), expanded))
    (ran : elfLoadAndSpawn fuel w mounted file beyond argv unset = some (none, w')) :
    w'.live = w.live ∧ freeBlocks w'.machine.pmm = [] := by
  obtain ⟨⟨pages, expansion⟩, live⟩ := readHeaders_spec read
  unfold elfLoadAndSpawn at ran
  rw [read] at ran
  dsimp only at ran live
  split at ran
  · rename_i failed
    cases ran
    have kernel := (heapExpandPages_reachable pages reachable small expansion).1.kernel
    refine ⟨?_, outOfFrames_none kernel failed⟩
    unfold kmemFree
    dsimp only
    rw [live, List.erase_cons_head, List.erase_cons_head]
  · cases ran
  · cases ran

/-- A load that fails has cost nothing exactly where it gave up before its
directory, or where no frame was left for that. -/
theorem costs_nothing_iff {expanded : World} {beyond : Mem} {argv : List (List UInt8)} {unset : Nat → Nat}
    (reachable : Reachable w.machine)
    (small : w.machine.heapCurrentEnd < 2 ^ 32) (read : readHeaders fuel w mounted file = some (given, expanded))
    (ran : elfLoadAndSpawn fuel w mounted file beyond argv unset = some (none, w')) : Expanded w expanded ∧
      (CostsNothing w expanded w' ↔ given = none ∨ freeBlocks expanded.machine.pmm = []) := by
  obtain ⟨grown, live⟩ := readHeaders_spec read
  refine ⟨grown, ?_⟩
  cases given with
  | none =>
    unfold elfLoadAndSpawn at ran
    rw [read] at ran
    cases ran
    exact iff_of_true ⟨live, rfl⟩ (.inl rfl)
  | some held =>
    obtain ⟨kept, none⟩ := failed_exhausted reachable small read ran
    unfold CostsNothing
    rw [none]
    constructor
    · exact fun same => .inr same.2.symm
    · rintro (early | empty)
      · cases early
      · exact ⟨kept, empty.symm⟩

end

section
variable {s : Machine}

/-! ## A load with one frame -/

/-- The search starts at a free block at the end of the heap. -/
structure FreeTail (h : HeapState) (c room : Nat) : Prop where
  cursor : h.lastAlloc = c
  free : (block h.mem c).isFree = true
  size : (block h.mem c).size = room
  last : (block h.mem c).next = 0
  place : c ≠ 0 ∧ c + 20 + room < 2 ^ 32

theorem kmemZalloc_tail {h : HeapState} {c room : Nat} (n : Nat) (live : List Nat)
    (tail : FreeTail h c room) (machine : Machine)
    (words : n % 4 = 0) (fits : n + 24 < room) : ∃ h', FreeTail h' (c + 20 + n) (room - n - 20) ∧
      kmemZalloc 2 ⟨machine, h, live⟩ n = some (c + 20, ⟨machine, h', (c + 20) :: live⟩) := by
  obtain ⟨cursor, free, size, last, place⟩ := tail
  have formed : formedSize n = n := by
    unfold formedSize add32
    omega
  have ran := memAlloc_at_cursor (s := h) (n := n) (by rw [cursor]; exact place.1) (by rw [cursor]; omega)
    (by rw [cursor]; exact free)
    (by rw [cursor, size, formed]; omega)
  rw [cursor, formed] at ran
  obtain ⟨-, atNew, cursor'⟩ := takeBlock_split (s := h) c n (by omega) (by omega) last
  have ends : (takeBlock h c n).heapCurrentEnd = h.heapCurrentEnd := rfl
  generalize takeBlock h c n = taken at ran atNew cursor' ends
  have same : block (memset taken.mem (c + 20) 0 n) (c + 20 + n) = block taken.mem (c + 20 + n) :=
    block_congr _ _ (memset_outside (.inr (Nat.le_refl _)))
  refine ⟨{ taken with mem := memset taken.mem (c + 20) 0 n }, ⟨cursor', ?_, ?_, ?_, ?_⟩, ?_⟩
  · rw [same, atNew]
  · rw [same, atNew, ← size]
  · rw [same, atNew]
  · omega
  · unfold kmemZalloc
    rw [ran]
    dsimp only
    rw [ends, Nat.sub_self, Nat.zero_div]
    dsimp only [heapExpandPages]
    rw [if_neg (by omega)]

theorem spaces_above {t0 t1 d : Nat} (spaces : Spaces s t0 t1) (member : d ∈ s.directories) :
    AboveBitmap s d 1023 := by
  have taken (f : Nat) (held : HeldFrame s f) : Taken s.pmm f := by
    obtain ⟨b, rfl, set, high, low, -⟩ := held
    exact ⟨b, rfl, set, high, by omega⟩
  obtain ⟨held0, held1, -⟩ := spaces.tables
  obtain ⟨first, second⟩ := spaces.first d member
  refine ⟨spaces.below, taken d (spaces.directories d member), fun i inside present => ?_⟩
  obtain rfl | rfl | others : i = 0 ∨ i = 1 ∨ 2 ≤ i := by omega
  · rw [first.2]
    exact (taken_aligned (taken _ held0)).2
  · rw [second.2]
    exact (taken_aligned (taken _ held1)).2
  · exact (taken_aligned (taken _ (spaces.others d member i others inside present).held)).2

/-- The other frames may all be in use. -/
theorem one_left {t0 t1 b : Nat} {rest : List Nat} (spaces : Spaces s t0 t1) (above : AboveBitmap s s.cr3 1024)
    (shape : freeBlocks s.pmm = b :: rest) :
    ∃ v, Spaces v t0 t1 ∧ AboveBitmap v v.cr3 1024 ∧ freeBlocks v.pmm = [b] ∧
      v.heapCurrentEnd = s.heapCurrentEnd := by
  induction rest generalizing s with
  | nil => exact ⟨s, spaces, above, shape, rfl⟩
  | cons c rest ih =>
    have free : c ∈ freeBlocks s.pmm := by simp [shape]
    have sorted := freeBlocks_sorted s.pmm
    rw [shape] at sorted
    obtain ⟨first, others⟩ := List.pairwise_cons.mp sorted
    have less := first c List.mem_cons_self
    have shape' : freeBlocks (bitmapSet s.pmm c) = b :: rest := by
      rw [freeBlocks_without (by rw [spaces.below.bitmap]; decide) free, shape,
        List.filter_cons_of_pos (by simp; omega),
        List.filter_cons_of_neg (by simp), List.filter_eq_self.mpr]
      intro x member
      have := (List.pairwise_cons.mp others).1 x member
      simp only [ne_eq, decide_eq_true_eq]
      omega
    exact ih (s := { s with pmm := bitmapSet s.pmm c }) (spaces_taken spaces free)
      (above_taken above free (Nat.le_refl _)) shape'

/-- The one frame goes to the directory, and none is left for the first page. -/
theorem one_frame_fails {t0 t1 b : Nat} {bytes : List UInt8} {beyond : Mem} {ph : Elf32Phdr} {phdrs : List Elf32Phdr}
    (spaces : Spaces s t0 t1) (shape : freeBlocks s.pmm = [b]) (window : InWindow s.heapCurrentEnd b)
    (accepts : Accepts bytes)
    (headers : programHeaders bytes beyond = ph :: phdrs) (load : ph.pType = ptLoad) (pages : pageCount ph = 1)
    (argv : List (List UInt8)) (unset : Nat → Nat) :
    elfLoad s bytes true beyond argv unset = .error .outOfMemory := by
  obtain ⟨t, created, after⟩ := vmmCreateDirectory_created spaces shape window
  have segments : loadSegments (b * pageSize) bytes (ph :: phdrs) t = .error .outOfMemory := by
    unfold loadSegments loadSegment
    rw [if_pos load, pages]
    unfold loadPages loadPage
    rw [pmmAllocBlock_none after.free]
    rfl
  unfold elfLoad
  dsimp only
  rw [if_neg (not_not.mpr accepts), if_neg (by decide), created]
  dsimp only [ofFault]
  rw [headers, segments]

theorem spaces_active {t0 t1 d : Nat} (spaces : Spaces s t0 t1) (member : d ∈ s.directories) :
    Spaces { s with cr3 := d } t0 t1 :=
  ⟨spaces.below, spaces.kernel, member, spaces.heap, spaces.directories, spaces.tables, spaces.first,
    fun e other i lower upper present => ⟨(spaces.others e other i lower upper present).held,
      (spaces.others e other i lower upper present).apart⟩,
    spaces.identity0, spaces.identity1⟩

/-- A task runs in a directory of its own, and one frame is left. -/
theorem one_frame_machine : ∃ s t0 t1, Spaces s t0 t1 ∧ Reachable s ∧ s.heapCurrentEnd = 0x700000 ∧
    freeBlocks s.pmm = [0x304] := by
  obtain ⟨pmm, b0, b1, b2, -, booted, free, -⟩ := ram128_kernel
  have spaces := booted_spaces booted
  have shape : freeBlocks (bootMachine pmm (b0 * pageSize)).pmm = 0x303 :: 0x304 :: List.range' 0x305 0x7CFB := free
  obtain ⟨t, created, made⟩ := vmmCreateDirectory_created spaces shape ⟨by decide, by decide, .inl (by decide)⟩
  have member : 0x303 * pageSize ∈ t.directories := by
    rw [made.directories]
    exact List.mem_cons_self
  have above : AboveBitmap t (0x303 * pageSize) 1024 := by
    rcases createDirectory_held (spaces_above spaces spaces.kernel) created with exhausted | above
    · have none := exhausted.free
      rw [made.free] at none
      cases none
    · exact above
  obtain ⟨v, spacesV, aboveV, one, same⟩ :=
    one_left (spaces_active made.spaces member) (above_congr above rfl) made.free
  exact ⟨v, _, _, spacesV, ⟨spaces_above spacesV spacesV.kernel, aboveV⟩, same.trans made.same.2.2, one⟩

/-- A task calls the loader when one frame is left. -/
theorem one_frame_world : ∃ w expanded w', Reachable w.machine ∧ w.machine.heapCurrentEnd < 2 ^ 32 ∧
    readHeaders 2 w true (some (smallFile 0x801000)) = some (some (0x600014, 0x600168), expanded) ∧
    freeBlocks expanded.machine.pmm = [0x304] ∧
    elfLoadAndSpawn 2 w true (some (smallFile 0x801000)) (fun _ => 0) [] (fun _ => 0) = some (none, w') := by
  obtain ⟨s, t0, t1, spaces, reachable, ends, free⟩ := one_frame_machine
  have accepts : Accepts (smallFile 0x801000) := by decide +kernel
  have headers : programHeaders (smallFile 0x801000) (fun _ => 0) = [firstSegment, secondSegment 0x801000] := by
    decide +kernel
  have header : block (heapInitialize (fun _ => 0) 0x600000 0x100000).mem 0x600000 =
      ⟨KernelHeap.heapMagic, 1048556, true, 0, 0⟩ := by
    simp [heapInitialize, KernelHeap.sub32, KernelHeap.sizeofHeapBlock, KernelHeap.heapMagic]
  have tail : FreeTail (heapInitialize (fun _ => 0) 0x600000 0x100000) 0x600000 1048556 :=
    ⟨rfl, by rw [header], by rw [header], by rw [header], by decide⟩
  obtain ⟨heap, tail', node⟩ := kmemZalloc_tail 320 [] tail s (by decide) (by decide)
  obtain ⟨heap', -, phdrs⟩ := kmemZalloc_tail 64 [0x600014] tail' s (by decide) (by decide)
  have window : InWindow s.heapCurrentEnd 0x304 := ⟨by decide, by decide, .inl (by decide)⟩
  have failed := one_frame_fails spaces free window accepts headers rfl (by decide) [] fun _ => 0
  have nonempty : ¬ (smallFile 0x801000).length = 0 := by decide +kernel
  have size : readHalf (fun x => (smallFile 0x801000).getD x 0) 0x2C * readHalf (fun x =>
      (smallFile 0x801000).getD x 0) 0x2A % 2 ^ 32 = 64 := by
    decide +kernel
  have read : readHeaders 2 ⟨s, heapInitialize (fun _ => 0) 0x600000 0x100000,
    []⟩ true (some (smallFile 0x801000)) =
      some (some (0x600014, 0x600168), ⟨s, heap', [0x600168, 0x600014]⟩) := by
    have opened :
      openNode 2 ⟨s, heapInitialize (fun _ => 0) 0x600000 0x100000, []⟩ true (some (smallFile 0x801000)) =
        some (0x600014, ⟨s, heap, [0x600014]⟩) := by
      unfold openNode fat16VfsOpen sizeofVfsNode
      dsimp only
      rw [if_neg nonempty, if_pos rfl, node]
      rfl
    unfold readHeaders
    rw [opened]
    dsimp only [Option.getD_some]
    rw [if_neg (by decide), if_neg (not_not.mpr accepts), size, phdrs]
    rfl
  have ran : elfLoadAndSpawn 2 ⟨s, heapInitialize (fun _ => 0) 0x600000 0x100000,
      []⟩ true (some (smallFile 0x801000)) (fun _ => 0) []
      (fun _ => 0) = some (none, kmemFree (kmemFree ⟨outOfFrames s (smallFile 0x801000) fun _ => 0, heap',
        [0x600168, 0x600014]⟩ 0x600168)
        0x600014) := by
    unfold elfLoadAndSpawn
    rw [read]
    dsimp only [Option.getD_some]
    rw [failed]
  exact ⟨_, _, _, reachable, show s.heapCurrentEnd < 2 ^ 32 by rw [ends]; decide, read, free, ran⟩

/-- The program headers and the node are given back, and the frame is not. -/
theorem costs_nothing_iff_one_frame : ∃ w expanded w', readHeaders 2 w true (some (smallFile 0x801000)) =
      some (some (0x600014, 0x600168), expanded) ∧ freeBlocks expanded.machine.pmm = [0x304] ∧
    elfLoadAndSpawn 2 w true (some (smallFile 0x801000)) (fun _ => 0) [] (fun _ => 0) = some (none, w') ∧
    Expanded w expanded ∧
    (CostsNothing w expanded w' ↔ some (0x600014, 0x600168) = none ∨ freeBlocks expanded.machine.pmm = []) := by
  obtain ⟨w, expanded, w', reachable, small, read, free, ran⟩ := one_frame_world
  exact ⟨w, expanded, w', read, free, ran, costs_nothing_iff reachable small read ran⟩

/-- The directory's frame stays taken when the first page gets none. -/
theorem directory_stays : ∃ w expanded w', Reachable w.machine ∧
    readHeaders 2 w true (some (smallFile 0x801000)) = some (some (0x600014, 0x600168), expanded) ∧
    elfLoadAndSpawn 2 w true (some (smallFile 0x801000)) (fun _ => 0) [] (fun _ => 0) = some (none, w') ∧
    freeBlocks expanded.machine.pmm = [0x304] ∧ freeBlocks w'.machine.pmm = [] ∧ ¬ CostsNothing w expanded w' := by
  obtain ⟨w, expanded, w', reachable, small, read, free, ran⟩ := one_frame_world
  have none := (failed_exhausted reachable small read ran).2
  refine ⟨w, expanded, w', reachable, read, ran, free, none, fun nothing => ?_⟩
  have same := nothing.2
  rw [none, free] at same
  cases same

end

end MeowMeowOS.FailedLoads

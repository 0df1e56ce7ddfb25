import MeowMeowOS.LoadedImage
import MeowMeowOS.PageMapping

/-! With enough free frames that are mapped to themselves, the loader takes
every file that it accepts. -/
namespace MeowMeowOS.LoadRoom
open ByteMemory PhysicalFrames VirtualMemory BootFrames FreeFrames AddressSpaces DirectoryLayout PageMapping ElfLoading
open LoadedImage

/-- How many of the next free frames lie in the window. -/
def room (s : Machine) : Nat := ((freeBlocks s.pmm).takeWhile (InWindow s.heapCurrentEnd ·)).length

structure Ready (s : Machine) (t0 t1 d n : Nat) : Prop where
  spaces : Spaces s t0 t1
  member : d ∈ s.directories
  enough : n ≤ room s

section
variable {s t : Machine} {file : List UInt8} {ph : Elf32Phdr} {t0 t1 d b n p virt : Nat} {rest : List Nat}

theorem room_cons (some : n + 1 ≤ room s) :
    ∃ b rest, freeBlocks s.pmm = b :: rest ∧ InWindow s.heapCurrentEnd b ∧
    n ≤ (rest.takeWhile (InWindow s.heapCurrentEnd ·)).length := by
  unfold room at some
  cases shape : freeBlocks s.pmm with
  | nil =>
    rw [shape] at some
    exact absurd some (Nat.not_succ_le_zero n)
  | cons b rest =>
    rw [shape, List.takeWhile_cons] at some
    split at some
    · rename_i window
      rw [List.length_cons] at some
      exact ⟨b, rest, rfl, of_decide_eq_true window, by omega⟩
    · exact absurd some (Nat.not_succ_le_zero n)

/-- The next frame stays apart from the directories, whatever is stored in it. -/
theorem spaces_filled (before : Spaces s t0 t1) (shape : freeBlocks s.pmm = b :: rest)
    (high : 0x300000 ≤ b * pageSize)
    (spaces : Spaces t t0 t1) (same : t.directories = s.directories)
    (outside : ∀ lo hi, hi ≤ b * pageSize ∨ b * pageSize + pageSize ≤ lo → AgreeOn t.pmm.mem m lo hi) :
    Spaces (t.store m) t0 t1 := by
  obtain ⟨apart, -⟩ := taken_apart before (show b ∈ freeBlocks s.pmm by simp [shape])
  exact spaces_outside spaces (Nat.mul_mod_left b pageSize) high (same ▸ apart) outside

theorem room_store (spaces : Spaces t t0 t1) (high : 0x300000 ≤ b * pageSize)
    (outside : ∀ lo hi, hi ≤ b * pageSize ∨ b * pageSize + pageSize ≤ lo → AgreeOn t.pmm.mem m lo hi) :
    freeBlocks (t.store m).pmm = freeBlocks t.pmm :=
  freeBlocks_agree spaces.below (outside _ _ (.inl high))

theorem readPage_outside (file : List UInt8) (first : ph.pVaddr / pageSize ≤ v) (identity : Identity s phys) :
    ∃ m, readPage s phys ph file (v * pageSize) = .ok (s.store m) ∧
      ∀ lo hi, hi ≤ phys ∨ phys + pageSize ≤ lo → AgreeOn s.pmm.mem m lo hi := by
  rw [readPage_eq s phys file first]
  dsimp only
  generalize destEq : (if v * pageSize < ph.pVaddr then ph.pVaddr - v * pageSize else 0) = dest
  generalize (if v * pageSize < ph.pVaddr then 0 else v * pageSize - ph.pVaddr) = seg
  generalize sizeEq : (if seg < ph.pFilesz then min (ph.pFilesz - seg) (pageSize - dest) else 0) = len
  have inside : dest + len ≤ pageSize := by
    have corner : dest < pageSize := by
      unfold pageSize at *
      split at destEq <;> omega
    split at sizeEq <;> omega
  by_cases nothing : len = 0
  · rw [if_pos nothing]
    exact ⟨s.pmm.mem, rfl, fun _ _ _ _ _ _ => rfl⟩
  · rw [if_neg nothing, if_neg (not_not.mpr identity)]
    refine ⟨_, rfl, fun lo hi apart => memcpy_outside ?_⟩
    have bound : (vfsRead file ((ph.pOffset + seg) % 2 ^ 32) len).length ≤ len := List.length_take_le _ _
    omega

theorem loadPage_ready (ready : Ready s t0 t1 d (n + 2)) (fits : Fits file ph) (touched : Touches ph v)
    (place : (startPage ph + p * pageSize) % 2 ^ 32 = v * pageSize) :
    ∃ t, loadPage s d ph file p = .ok t ∧ Ready t t0 t1 d n := by
  obtain ⟨spaces, member, enough⟩ := ready
  obtain ⟨b, rest, shape, window, more⟩ := room_cons enough
  have high : 0x300000 ≤ b * pageSize := by
    have := window.1
    unfold pageSize
    omega
  have free : b ∈ freeBlocks s.pmm := by simp [shape]
  have taken := spaces_taken spaces free
  have cleared (lo hi : Nat) (clear : hi ≤ b * pageSize ∨ b * pageSize + pageSize ≤ lo) :
      AgreeOn (bitmapSet s.pmm b).mem (memset (bitmapSet s.pmm b).mem (b * pageSize) 0 pageSize) lo hi :=
    memset_outside clear
  have filled : Spaces (Machine.store { s with pmm := bitmapSet s.pmm b }
      (memset (bitmapSet s.pmm b).mem (b * pageSize) 0 pageSize)) t0 t1 :=
      spaces_filled spaces shape high taken rfl cleared
  have left : freeBlocks (Machine.store { s with pmm := bitmapSet s.pmm b }
      (memset (bitmapSet s.pmm b).mem (b * pageSize) 0 pageSize)).pmm = rest :=
    (room_store taken high cleared).trans (freeBlocks_set spaces.below shape)
  obtain ⟨c, rest', shape', window', more'⟩ :=
    room_cons (n := n) (s := Machine.store { s with pmm := bitmapSet s.pmm b }
      (memset (bitmapSet s.pmm b).mem (b * pageSize) 0 pageSize)) (by unfold room; rw [left]; exact more)
  have low := fits.low
  have top := fits.high
  obtain ⟨first, last⟩ := touched
  have index : 2 ≤ pdIndex (v * pageSize) ∧ pdIndex (v * pageSize) < 1023 := by
    unfold pdIndex pageSize at *
    omega
  have positive : 0 < b := by
    have := window.1
    omega
  obtain ⟨mapped, ranMap, spacesMapped, dirs, heap, queue⟩ := mapPage_ok filled member index.1 index.2
    (Nat.mul_mod_left v pageSize) positive shape' window' userPage
  obtain ⟨m, ranRead, outside⟩ := readPage_outside file first
    (identity_of_window spacesMapped (heap.symm ▸ window))
  refine ⟨mapped.store m, ?_, ?_, ?_, ?_⟩
  · have nonzero : ¬ b * pageSize = 0 := by omega
    unfold loadPage
    rw [pmmAllocBlock_first spaces shape, place]
    dsimp only
    rw [if_neg nonzero, if_neg (not_not.mpr (identity_of_window taken window)), ranMap]
    exact ranRead
  · exact spaces_filled spaces shape high spacesMapped dirs outside
  · exact dirs.symm ▸ member
  · unfold room
    rw [room_store spacesMapped high outside]
    change n ≤ ((freeBlocks mapped.pmm).takeWhile (InWindow mapped.heapCurrentEnd ·)).length
    rw [heap]
    rcases queue with all | queue
    · rw [all, left]
      exact Nat.le_of_succ_le more
    · rw [queue]
      exact more'

theorem loadPages_ready (fits : Fits file ph) (within : ∀ q < remaining, Touches ph (ph.pVaddr / pageSize + (p + q)))
    (ready : Ready s t0 t1 d (2 * remaining + n)) :
    ∃ t, loadPages d ph file remaining p s = .ok t ∧ Ready t t0 t1 d n := by
  have low := fits.low
  have high := fits.high
  induction remaining generalizing p s with
  | zero => exact ⟨s, rfl, by rwa [Nat.mul_zero, Nat.zero_add] at ready⟩
  | succ remaining ih =>
    have touched := within 0 (Nat.succ_pos _)
    rw [Nat.add_zero] at touched
    have place : (startPage ph + p * pageSize) % 2 ^ 32 = (ph.pVaddr / pageSize + p) * pageSize := by
      have last := touched.2
      unfold startPage frameOf pageSize at *
      omega
    rw [show 2 * (remaining + 1) + n = 2 * remaining + n + 2 by omega] at ready
    obtain ⟨t, ran, ready⟩ := loadPage_ready ready fits touched place
    unfold loadPages
    rw [ran]
    refine ih (fun q less => ?_) ready
    rw [show p + 1 + q = p + (q + 1) by omega]
    exact within (q + 1) (by omega)

theorem loadSegment_ready (fits : ph.pType = ptLoad → Fits file ph) (ready : Ready s t0 t1 d (2 * pageCount ph + n)) :
    ∃ t, loadSegment s d ph file = .ok t ∧ Ready t t0 t1 d n := by
  unfold loadSegment
  by_cases load : ph.pType = ptLoad
  · rw [if_pos load]
    have count := pageCount_eq (fits load)
    refine loadPages_ready (fits load) (fun q less => ?_) ready
    unfold Touches
    omega
  · rw [if_neg load]
    exact ⟨s, rfl, ready.spaces, ready.member, Nat.le_trans (Nat.le_add_left _ _) ready.enough⟩

def pagesOf (phdrs : List Elf32Phdr) : Nat := (phdrs.map pageCount).sum

theorem loadSegments_ready (phdrs : List Elf32Phdr) (fits : ∀ ph ∈ loads phdrs, Fits file ph)
    (ready : Ready s t0 t1 d (2 * pagesOf phdrs + n)) :
    ∃ t, loadSegments d file phdrs s = .ok t ∧ Ready t t0 t1 d n := by
  induction phdrs generalizing s with
  | nil => exact ⟨s, rfl, by rwa [pagesOf, List.map_nil, List.sum_nil, Nat.mul_zero, Nat.zero_add] at ready⟩
  | cons ph others ih =>
    rw [pagesOf, List.map_cons, List.sum_cons, Nat.mul_add, Nat.add_assoc] at ready
    have own (load : ph.pType = ptLoad) : Fits file ph :=
      fits ph (List.mem_filter.mpr ⟨List.mem_cons_self, by simpa using load⟩)
    obtain ⟨t, ran, ready⟩ := loadSegment_ready own ready
    unfold loadSegments
    rw [ran]
    refine ih (fun other member => ?_) ready
    obtain ⟨member, load⟩ := List.mem_filter.mp member
    exact fits other (List.mem_filter.mpr ⟨List.mem_cons_of_mem _ member, load⟩)

theorem addPage_ready (virt : Nat) (ready : Ready s t0 t1 d (n + 2))
    (index : 2 ≤ pdIndex virt ∧ pdIndex virt < 1023)
    (aligned : virt % pageSize = 0) : ∃ b rest t, freeBlocks s.pmm = b :: rest ∧ InWindow s.heapCurrentEnd b ∧
      addPage s d virt = .ok (b * pageSize, t) ∧ Ready t t0 t1 d n ∧ t.directories = s.directories ∧
      t.heapCurrentEnd = s.heapCurrentEnd := by
  obtain ⟨spaces, member, enough⟩ := ready
  obtain ⟨b, rest, shape, window, more⟩ := room_cons enough
  have high : 0x300000 ≤ b * pageSize := by
    have := window.1
    unfold pageSize
    omega
  have positive : 0 < b := by
    have := window.1
    omega
  have taken := spaces_taken spaces (show b ∈ freeBlocks s.pmm by simp [shape])
  have left := freeBlocks_set spaces.below shape
  obtain ⟨c, rest', shape', window', more'⟩ := room_cons (n := n) (s := { s with pmm := bitmapSet s.pmm b })
    (by unfold room; rw [left]; exact more)
  obtain ⟨mapped, ranMap, spacesMapped, dirs, heap, queue⟩ :=
    mapPage_ok taken member index.1 index.2 aligned positive shape' window' userPage
  have outside (lo hi : Nat) (clear : hi ≤ b * pageSize ∨ b * pageSize + pageSize ≤ lo) :
      AgreeOn mapped.pmm.mem (memset mapped.pmm.mem (b * pageSize) 0 pageSize) lo hi := memset_outside clear
  refine ⟨b, rest, mapped.store (memset mapped.pmm.mem (b * pageSize) 0 pageSize), shape, window, ?_,
    ⟨?_, ?_, ?_⟩, dirs, heap⟩
  · have nonzero : ¬ b * pageSize = 0 := by omega
    unfold addPage
    rw [pmmAllocBlock_first spaces shape]
    dsimp only
    rw [if_neg nonzero, ranMap]
    exact if_neg (not_not.mpr (identity_of_window spacesMapped (heap.symm ▸ window)))
  · exact spaces_filled spaces shape high spacesMapped dirs outside
  · exact dirs.symm ▸ member
  · unfold room
    rw [room_store spacesMapped high outside]
    change n ≤ ((freeBlocks mapped.pmm).takeWhile (InWindow mapped.heapCurrentEnd ·)).length
    rw [heap]
    rcases queue with all | queue
    · rw [all, left]
      exact Nat.le_of_succ_le more
    · rw [queue]
      exact more'

theorem loadStack_ready (ready : Ready s t0 t1 d (n + 4)) (argv : List (List UInt8)) (unset : Nat → Nat) :
    ∃ t, loadStack s d argv unset = .ok t ∧ Ready t t0 t1 d n := by
  obtain ⟨b, rest, first, shape, window, ranStack, readyStack, dirs, heap⟩ :=
    addPage_ready userStackPage ready (by decide) (by decide)
  obtain ⟨_, _, second, -, -, ranTls, readyTls, dirs', heap'⟩ :=
    addPage_ready userTlsPage readyStack (by decide) (by decide)
  have identity : Identity second (b * pageSize) :=
    identity_of_window readyTls.spaces (by rw [heap', heap]; exact window)
  have high : 0x300000 ≤ b * pageSize := by
    have := window.1
    unfold pageSize
    omega
  have outside (lo hi : Nat) (clear : hi ≤ b * pageSize ∨ b * pageSize + pageSize ≤ lo) :=
    placeArguments_outside second.pmm.mem (b * pageSize) argv unset clear
  refine ⟨_, ?_, spaces_filled ready.spaces shape high readyTls.spaces (dirs'.trans dirs) outside, readyTls.member,
    ?_⟩
  · unfold loadStack
    rw [ranStack]
    dsimp only
    rw [ranTls]
    dsimp only
    rw [if_neg (not_not.mpr identity)]
  · unfold room
    rw [room_store readyTls.spaces high outside]
    exact readyTls.enough

/-- Two frames for each page of a segment, and five more, are enough. -/
theorem elfLoad_ready (spaces : Spaces s t0 t1) (accepts : Accepts file)
    (fits : ∀ ph ∈ loads (programHeaders file beyond), Fits file ph)
    (enough : 2 * pagesOf (programHeaders file beyond) + 5 + n ≤ room s) (argv : List (List UInt8))
    (unset : Nat → Nat) :
    ∃ r, elfLoad s file true beyond argv unset = .ok r ∧ Ready r.machine t0 t1 r.directory n := by
  obtain ⟨b, rest, shape, window, more⟩ :=
    room_cons (s := s) (n := 2 * pagesOf (programHeaders file beyond) + 4 + n) (by omega)
  obtain ⟨made, ranCreate, created⟩ := vmmCreateDirectory_created spaces shape window
  have ready : Ready made t0 t1 (b * pageSize) (2 * pagesOf (programHeaders file beyond) + (n + 4)) := by
    refine ⟨created.spaces, ?_, ?_⟩
    · rw [created.directories]
      exact List.mem_cons_self
    · unfold room
      rw [created.free, created.same.2.2]
      exact Nat.le_trans (by omega) more
  obtain ⟨filled, ranSegments, ready⟩ := loadSegments_ready _ fits ready
  obtain ⟨done, ranStack, ready⟩ := loadStack_ready ready argv unset
  refine ⟨⟨done, b * pageSize, readWord (fun x => file.getD x 0) 0x18,
    maxVaddrOf (programHeaders file beyond)⟩, ?_, ready⟩
  unfold elfLoad
  dsimp only
  rw [if_neg (not_not.mpr accepts), if_neg (by decide), ranCreate]
  dsimp only [ofFault]
  rw [ranSegments]
  dsimp only
  rw [ranStack]

end

end MeowMeowOS.LoadRoom

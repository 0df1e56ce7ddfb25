import MeowMeowOS.DirectoryLayout

/-! What mapping one page does to the directories, and what one page of heap
growth does. -/
namespace MeowMeowOS.PageMapping
open ByteMemory PhysicalFrames VirtualMemory BootFrames FreeFrames AddressSpaces DirectoryLayout

/-- The frame holds a directory, or a table that one of them names. -/
def InUse (s : Machine) (frame : Nat) : Prop :=
  frame ∈ s.directories ∨ ∃ d ∈ s.directories, ∃ i < 1023,
    isPresent (entry s.pmm.mem d i) = true ∧ frameOf (entry s.pmm.mem d i) = frame

instance (s : Machine) (frame : Nat) : Decidable (InUse s frame) :=
  inferInstanceAs (Decidable (_ ∨ _))

/-- The frame of the table that a directory has for an address. -/
def tableOf (m : Mem) (d virt : Nat) : Nat := frameOf (entry m d (pdIndex virt))

section
variable {s t : Machine} {m : Mem} {t0 t1 d virt phys p b : Nat}

theorem ptIndex_small (virt : Nat) : ptIndex virt < 1024 := Nat.mod_lt _ (by decide)

/-- Every table of a directory lies in a taken frame of the window that is no
directory. -/
theorem table_held (spaces : Spaces s t0 t1) (member : d ∈ s.directories) (upper : i < 1023)
    (present : isPresent (entry s.pmm.mem d i) = true) :
    HeldFrame s (frameOf (entry s.pmm.mem d i)) ∧ frameOf (entry s.pmm.mem d i) ∉ s.directories := by
  obtain ⟨held0, held1, -, apart0, apart1⟩ := spaces.tables
  obtain ⟨first, second⟩ := spaces.first d member
  rcases Nat.lt_or_ge i 2 with low | high
  · rcases Nat.lt_or_ge i 1 with zero | one
    · obtain rfl : i = 0 := by omega
      rw [first.2]
      exact ⟨held0, apart0⟩
    · obtain rfl : i = 1 := by omega
      rw [second.2]
      exact ⟨held1, apart1⟩
  · obtain ⟨held, apart, -⟩ := spaces.others d member i high upper present
    exact ⟨held, apart⟩

/-! ## Into a table that is there already -/

theorem setPage_stores (spaces : Spaces s t0 t1) (member : d ∈ s.directories) (upper : pdIndex virt < 1023)
    (present : isPresent (entry s.pmm.mem d (pdIndex virt)) = true) (phys flags : Nat) :
    setPage s d phys virt flags =
      .ok (s.store (setEntry s.pmm.mem (tableOf s.pmm.mem d virt) (ptIndex virt) (presentEntry phys flags))) := by
  have held := (table_held spaces member upper present).1
  have nonnull : frameOf (entry s.pmm.mem d (pdIndex virt)) ≠ 0 := by
    have := (held_aligned held).2.1
    omega
  unfold setPage
  dsimp only
  rw [if_neg nonnull, if_neg (not_not.mpr (identity_of_held spaces held))]
  rfl

theorem setPage_spaces (spaces : Spaces s t0 t1) (member : d ∈ s.directories) (lower : 2 ≤ pdIndex virt)
    (upper : pdIndex virt < 1023) (present : isPresent (entry s.pmm.mem d (pdIndex virt)) = true) (v : Nat) :
    Spaces (s.store (setEntry s.pmm.mem (tableOf s.pmm.mem d virt) (ptIndex virt) v)) t0 t1 := by
  obtain ⟨held, apart⟩ := spaces.others d member _ lower upper present
  obtain ⟨aligned, high, -⟩ := held_aligned held
  exact spaces_outside spaces aligned high apart fun lo hi clear => setEntry_outside (ptIndex_small virt) clear

/-! ## Into a table that the call takes for it -/

/-- A directory entry above the first two is set to a frame of the window. -/
theorem spaces_entry (spaces : Spaces s t0 t1) (member : d ∈ s.directories) (lower : 2 ≤ i) (upper : i < 1023)
    (table : TableFrame s t0 t1 (b * pageSize)) (flags : Nat) :
    Spaces (s.store (setEntry s.pmm.mem d i (presentEntry (b * pageSize) flags))) t0 t1 := by
  obtain ⟨aligned, high, -⟩ := held_aligned (spaces.directories d member)
  have outside : ∀ lo hi, hi ≤ d ∨ d + pageSize ≤ lo → AgreeOn s.pmm.mem
      (setEntry s.pmm.mem d i (presentEntry (b * pageSize) flags)) lo hi :=
    fun lo hi clear => setEntry_outside (by omega) clear
  have bitmap := outside 0x200000 0x300000 (Or.inl high)
  have held : ∀ f, HeldFrame s f →
      HeldFrame (s.store (setEntry s.pmm.mem d i (presentEntry (b * pageSize) flags))) f := by
    rintro f ⟨c, rfl, taken, window⟩
    exact ⟨c, rfl, (bitmapTest_agree spaces.below bitmap c).trans taken, window⟩
  have others : ∀ f, HeldFrame s f → f ≠ d → ∀ j < 1024,
      entry (setEntry s.pmm.mem d i (presentEntry (b * pageSize) flags)) f j = entry s.pmm.mem f j :=
    fun f heldF ne j lt => entry_agree (outside _ _ (frames_apart (held_aligned heldF).1 aligned ne)) lt
  have elsewhere : ∀ d' ∈ s.directories, ∀ j < 1024, d' ≠ d ∨ j ≠ i →
      entry (setEntry s.pmm.mem d i (presentEntry (b * pageSize) flags)) d' j = entry s.pmm.mem d' j := by
    intro d' member' j lt ne
    by_cases same : d' = d
    · subst same
      exact entry_setEntry_ne (Ne.symm (ne.resolve_left (not_not.mpr rfl)))
    · exact others d' (spaces.directories d' member') same j lt
  obtain ⟨held0, held1, ne, apart0, apart1⟩ := spaces.tables
  have small : b < 2 ^ 20 := by
    obtain ⟨c, same, -, -, low, -⟩ := table.held
    have : b = c := Nat.eq_of_mul_eq_mul_right (by decide) same
    omega
  refine ⟨bitmapBelow_agree spaces.below bitmap, spaces.kernel, spaces.active, spaces.heap,
    fun f listed => held f (spaces.directories f listed), ⟨held _ held0, held _ held1, ne, apart0, apart1⟩,
      ?_, ?_, ?_, ?_⟩
  · intro d' member'
    change Names (entry (setEntry s.pmm.mem d i _) d' 0) t0 ∧ Names (entry (setEntry s.pmm.mem d i _) d' 1) t1
    rw [elsewhere d' member' 0 (by decide) (Or.inr (by omega)), elsewhere d' member' 1 (by decide) (Or.inr (by omega))]
    exact spaces.first d' member'
  · intro d' member' j lowerJ upperJ present
    change isPresent (entry (setEntry s.pmm.mem d i _) d' j) = true at present
    change TableFrame _ t0 t1 (frameOf (entry (setEntry s.pmm.mem d i _) d' j))
    by_cases same : d' = d ∧ j = i
    · obtain ⟨rfl, rfl⟩ := same
      rw [entry_setEntry, (names_present small flags).2]
      exact ⟨held _ table.held, table.apart⟩
    · have ne : d' ≠ d ∨ j ≠ i := by
        by_cases d' = d <;> simp_all
      rw [elsewhere d' member' j (by omega) ne] at present ⊢
      obtain ⟨heldJ, apartJ⟩ := spaces.others d' member' j lowerJ upperJ present
      exact ⟨held _ heldJ, apartJ⟩
  · intro j lt
    change Names (entry (setEntry s.pmm.mem d i _) t0 j) _
    rw [others t0 held0 (fun same => apart0 (same ▸ member)) j lt]
    exact spaces.identity0 j lt
  · intro j lt page
    change Names (entry (setEntry s.pmm.mem d i _) t1 j) _
    rw [others t1 held1 (fun same => apart1 (same ▸ member)) j lt]
    exact spaces.identity1 j lt page

theorem mapRequest (spaces : Spaces s t0 t1) (member : d ∈ s.directories) (aligned : virt % pageSize = 0)
    (nonnull : virt ≠ 0) (positive : 0 < p) (flags : Nat) :
    vmmMapPageInDirectory s d (p * pageSize) virt flags =
      if isPresent (entry s.pmm.mem d (pdIndex virt)) = true then setPage s d (p * pageSize) virt flags
      else
        let (newTable, pmm) := pmmAllocBlock s.pmm
        let s := { s with pmm := pmm }
        if newTable = 0 then .ok s
        else
          let s := s.store (setEntry s.pmm.mem d (pdIndex virt) (presentEntry newTable flags))
          if ¬ Identity s newTable then .error newTable
          else setPage (s.store (memset s.pmm.mem newTable 0 pageSize)) d (p * pageSize) virt flags := by
  obtain ⟨alignedD, high, -⟩ := held_aligned (spaces.directories d member)
  have validD : ¬ (d = 0 ∨ d % pageSize ≠ 0) := by omega
  have validP : ¬ (p * pageSize = 0 ∨ virt = 0) := by
    unfold pageSize
    omega
  have alignedP : ¬ (p * pageSize % pageSize ≠ 0 ∨ virt % pageSize ≠ 0) := by
    rw [Nat.mul_mod_left, aligned]
    decide
  unfold vmmMapPageInDirectory
  rw [if_neg validD, if_neg validP, if_neg alignedP,
    if_neg (not_not.mpr (identity_of_held spaces (spaces.directories d member)))]

/-- A free frame of the window, cleared, is an empty table in the directory. -/
theorem newTable_spaces (spaces : Spaces s t0 t1) (member : d ∈ s.directories) (lower : 2 ≤ i) (upper : i < 1023)
    (shape : freeBlocks s.pmm = b :: rest) (window : InWindow s.heapCurrentEnd b) (flags : Nat) :
    Spaces (Machine.store { s with pmm := bitmapSet s.pmm b }
      (setEntry (bitmapSet s.pmm b).mem d i (presentEntry (b * pageSize) flags))) t0 t1 ∧
    Spaces (Machine.store { s with pmm := bitmapSet s.pmm b }
      (memset (setEntry (bitmapSet s.pmm b).mem d i (presentEntry (b * pageSize) flags)) (b * pageSize) 0 pageSize))
      t0 t1 ∧
    isPresent (entry (memset (setEntry (bitmapSet s.pmm b).mem d i (presentEntry (b * pageSize) flags)) (b * pageSize) 0
      pageSize) d i) = true := by
  have free : b ∈ freeBlocks s.pmm := by simp [shape]
  have smallB := (freeBlocks_high spaces.below free).2
  have alignedD := (held_aligned (spaces.directories d member)).1
  have alignedB : b * pageSize % pageSize = 0 := Nat.mul_mod_left b pageSize
  have highB : 0x300000 ≤ b * pageSize := by
    have := window.1
    unfold pageSize
    omega
  obtain ⟨apart, -⟩ := taken_apart spaces free
  have neD : d ≠ b * pageSize := fun same => apart.1 (same ▸ member)
  have taken := spaces_taken spaces free
  have table : TableFrame { s with pmm := bitmapSet s.pmm b } t0 t1 (b * pageSize) :=
    ⟨⟨b, rfl, taken_after spaces free, window⟩, apart⟩
  have named := spaces_entry taken member lower upper table flags
  have outside (lo hi : Nat) (clear : hi ≤ b * pageSize ∨ b * pageSize + pageSize ≤ lo) :
      AgreeOn (setEntry (bitmapSet s.pmm b).mem d i (presentEntry (b * pageSize) flags))
        (memset (setEntry (bitmapSet s.pmm b).mem d i (presentEntry (b * pageSize) flags)) (b * pageSize) 0 pageSize)
        lo hi :=
    memset_outside clear
  have cleared := spaces_outside named alignedB highB apart outside
  refine ⟨named, cleared, ?_⟩
  rw [entry_agree (outside _ _ (frames_apart alignedD alignedB neD)) (by omega), entry_setEntry]
  exact (names_present smallB flags).1

/-- Mapping a page above 8 MiB succeeds when there is a table for it or the next
free frame lies in the window. -/
theorem mapPage_ok (spaces : Spaces s t0 t1) (member : d ∈ s.directories) (lower : 2 ≤ pdIndex virt)
    (upper : pdIndex virt < 1023) (aligned : virt % pageSize = 0) (positive : 0 < p)
    (shape : freeBlocks s.pmm = b :: rest) (window : InWindow s.heapCurrentEnd b) (flags : Nat) :
    ∃ t, vmmMapPageInDirectory s d (p * pageSize) virt flags = .ok t ∧ Spaces t t0 t1 ∧
      t.directories = s.directories ∧ t.heapCurrentEnd = s.heapCurrentEnd ∧
      (freeBlocks t.pmm = freeBlocks s.pmm ∨ freeBlocks t.pmm = rest) := by
  have nonnull : virt ≠ 0 := by
    unfold pdIndex at lower
    omega
  rw [mapRequest spaces member aligned nonnull positive]
  by_cases present : isPresent (entry s.pmm.mem d (pdIndex virt)) = true
  · have held := (table_held spaces member upper present).1
    have outside : AgreeOn s.pmm.mem (setEntry s.pmm.mem (tableOf s.pmm.mem d virt) (ptIndex virt)
        (presentEntry (p * pageSize) flags)) 0x200000 0x300000 :=
      setEntry_outside (ptIndex_small virt) (.inl (held_aligned held).2.1)
    rw [if_pos present, setPage_stores spaces member upper present]
    exact ⟨_, rfl, setPage_spaces spaces member lower upper present _, rfl, rfl,
      .inl (freeBlocks_agree spaces.below outside)⟩
  · obtain ⟨named, cleared, present'⟩ := newTable_spaces spaces member lower upper shape window flags
    have nonzero : ¬ b * pageSize = 0 := by
      have := window.1
      unfold pageSize
      omega
    have identity := identity_of_window named window
    rw [if_neg present, pmmAllocBlock_first spaces shape]
    dsimp only
    rw [if_neg nonzero, if_neg (not_not.mpr identity)]
    have stored := setPage_stores cleared member upper present' (p * pageSize) flags
    dsimp only [Machine.store] at stored ⊢
    rw [stored]
    refine ⟨_, rfl, setPage_spaces cleared member lower upper present' _, rfl, rfl, .inr ?_⟩
    have highD := (held_aligned (spaces.directories d member)).2.1
    have highT := (held_aligned (table_held cleared member upper present').1).2.1
    have highB : 0x300000 ≤ b * pageSize := by
      have := window.1
      unfold pageSize
      omega
    refine (freeBlocks_agree (bitmapBelow_set spaces.below b) ?_).trans (freeBlocks_set spaces.below shape)
    exact agreeOn_trans (agreeOn_trans (setEntry_outside (by omega) (.inl highD)) (memset_outside (.inl highB)))
      (setEntry_outside (ptIndex_small virt) (.inl highT))

end

end MeowMeowOS.PageMapping

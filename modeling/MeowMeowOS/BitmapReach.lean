import MeowMeowOS.BootDirectories
import MeowMeowOS.MappedPages

/-! The bitmap of the frames stays out of the reach of what is mapped: a
directory whose tables lie above it still has them there after every page that
is mapped in any directory. -/
namespace MeowMeowOS.BitmapReach
open ByteMemory PhysicalFrames VirtualMemory BootFrames FreeFrames AddressSpaces DirectoryLayout MappedPages
  BootDirectories

/-- What the first `n` entries of the directory lead to lies above the bitmap. -/
structure AboveBitmap (s : Machine) (d n : Nat) : Prop where
  below : BitmapBelow s.pmm
  taken : Taken s.pmm d
  tables : ∀ i < n, isPresent (entry s.pmm.mem d i) = true → 0x300000 ≤ frameOf (entry s.pmm.mem d i)

section
variable {s t : Machine} {m : Mem} {d e b f i n virt flags : Nat} {rest : List Nat}

/-! ## One directory -/

theorem above_taken (above : AboveBitmap s d n) (free : b ∈ freeBlocks s.pmm) (entries : n ≤ 1024) :
    AboveBitmap { s with pmm := bitmapSet s.pmm b } d n := by
  have high := (taken_aligned above.taken).2
  have kept (c : Nat) (set : bitmapTest s.pmm c = true) : bitmapTest (bitmapSet s.pmm b) c = true := by
    rw [bitmapTest_bitmapSet, set]
    rfl
  refine ⟨bitmapBelow_set above.below b, taken_mono kept above.taken, fun i inside present => ?_⟩
  have same : entry (bitmapSet s.pmm b).mem d i = entry s.pmm.mem d i :=
    entry_agree (fun x from' under => bitmapSet_agree above.below free x (Nat.le_trans high from') under) (by omega)
  dsimp only at present ⊢
  rw [same] at present ⊢
  exact above.tables i inside present

/-- Another frame may hold anything. -/
theorem above_store (above : AboveBitmap s d n) (entries : n ≤ 1024) (aligned : f % pageSize = 0)
    (high : 0x300000 ≤ f) (other : f ≠ d)
    (outside : ∀ lo hi, hi ≤ f ∨ f + pageSize ≤ lo → AgreeOn s.pmm.mem m lo hi) :
    AboveBitmap (s.store m) d n := by
  have bitmap := outside 0x200000 0x300000 (.inl high)
  have directory := outside d (d + pageSize) (frames_apart (taken_aligned above.taken).1 aligned (Ne.symm other))
  refine ⟨bitmapBelow_agree above.below bitmap, ?_, fun i inside present => ?_⟩
  · exact taken_mono (fun c set => (bitmapTest_agree above.below bitmap c).trans set) above.taken
  · change isPresent (entry m d i) = true at present
    change 0x300000 ≤ frameOf (entry m d i)
    rw [entry_agree directory (by omega)] at present ⊢
    exact above.tables i inside present

/-- An entry for a frame above the bitmap may be stored anywhere. -/
theorem above_entry (flags : Nat) (above : AboveBitmap s d n) (entries : n ≤ 1024)
    (aligned : f % pageSize = 0) (high : 0x300000 ≤ f) (small : i < 1024)
    (frame : 0x300 ≤ b ∧ b < 2 ^ 20) :
    AboveBitmap (s.store (setEntry s.pmm.mem f i (presentEntry (b * pageSize) flags))) d n := by
  by_cases other : f = d
  · subst other
    have bitmap : AgreeOn s.pmm.mem (setEntry s.pmm.mem f i (presentEntry (b * pageSize) flags)) 0x200000 0x300000 :=
      setEntry_outside small (.inl high)
    refine ⟨bitmapBelow_agree above.below bitmap, ?_, fun j inside present => ?_⟩
    · exact taken_mono (fun c set => (bitmapTest_agree above.below bitmap c).trans set) above.taken
    · change isPresent (entry (setEntry s.pmm.mem f i (presentEntry (b * pageSize) flags)) f j) = true at present
      change 0x300000 ≤ frameOf (entry (setEntry s.pmm.mem f i (presentEntry (b * pageSize) flags)) f j)
      by_cases same : i = j
      · subst same
        rw [entry_setEntry, (names_present frame.2 flags).2]
        unfold pageSize
        omega
      · rw [entry_setEntry_ne same] at present ⊢
        exact above.tables j inside present
  · exact above_store above entries aligned high other fun lo hi apart => setEntry_outside small apart

theorem above_setPage (above : AboveBitmap s e n) (entries : n ≤ 1024)
    (table : 0x300000 ≤ frameOf (entry s.pmm.mem d (pdIndex virt)))
    (frame : 0x300 ≤ b ∧ b < 2 ^ 20) (ran : setPage s d (b * pageSize) virt flags = .ok t) :
    AboveBitmap t e n ∧ t.kernelDirectory = s.kernelDirectory ∧ t.cr3 = s.cr3 := by
  unfold setPage at ran
  dsimp only at ran
  rw [if_neg (by omega)] at ran
  split at ran
  · cases ran
  · cases ran
    have aligned (value : Nat) : frameOf value % pageSize = 0 := Nat.mul_mod_left _ _
    exact ⟨above_entry flags above entries (aligned _) table (ptIndex_lt virt) frame, rfl, rfl⟩

/-- A new table is cleared once it has its entry. -/
theorem above_newTable (above : AboveBitmap s e n) (entries : n ≤ 1024) (mapped : AboveBitmap s d 1024)
    (shape : freeBlocks s.pmm = b :: rest) (small : i < 1024)
    (made : m = setEntry (bitmapSet s.pmm b).mem d i (presentEntry (b * pageSize) flags)) :
    AboveBitmap ((Machine.store { s with pmm := bitmapSet s.pmm b } m).store (memset m (b * pageSize) 0 pageSize))
    e n ∧
      0x300000 ≤ frameOf (entry (memset m (b * pageSize) 0 pageSize) d i) := by
  have free : b ∈ freeBlocks s.pmm := by simp [shape]
  have frame := freeBlocks_high mapped.below free
  have high : 0x300000 ≤ b * pageSize := by
    unfold pageSize
    omega
  obtain ⟨alignedD, highD⟩ := taken_aligned mapped.taken
  have other : b * pageSize ≠ e := fun same => free_not_taken free (same ▸ above.taken)
  have otherD : b * pageSize ≠ d := fun same => free_not_taken free (same ▸ mapped.taken)
  have stored := above_entry flags (above_taken above free entries) entries alignedD highD small frame
  have outside (lo hi : Nat) (apart : hi ≤ b * pageSize ∨ b * pageSize + pageSize ≤ lo) :
      AgreeOn m (memset m (b * pageSize) 0 pageSize) lo hi := memset_outside apart
  subst made
  refine ⟨above_store stored entries (Nat.mul_mod_left b pageSize) high other outside, ?_⟩
  have apart := frames_apart alignedD (Nat.mul_mod_left b pageSize) (Ne.symm otherD)
  rw [entry_agree (outside d (d + pageSize) apart) small, entry_setEntry, (names_present frame.2 flags).2]
  exact high

/-- Mapping a page leaves the directories above the bitmap. -/
theorem above_map (above : AboveBitmap s e n) (entries : n ≤ 1024) (mapped : AboveBitmap s d 1024)
    (small : virt < 2 ^ 32)
    (frame : 0x300 ≤ b ∧ b < 2 ^ 20) (ran : vmmMapPageInDirectory s d (b * pageSize) virt flags = .ok t) :
    AboveBitmap t e n ∧ t.kernelDirectory = s.kernelDirectory ∧ t.cr3 = s.cr3 := by
  have index : pdIndex virt < 1024 := by
    unfold pdIndex
    omega
  unfold vmmMapPageInDirectory at ran
  split at ran
  · cases ran
    exact ⟨above, rfl, rfl⟩
  · split at ran
    · cases ran
      exact ⟨above, rfl, rfl⟩
    · split at ran
      · cases ran
        exact ⟨above, rfl, rfl⟩
      · split at ran
        · cases ran
        · split at ran
          · rename_i present
            exact above_setPage above entries (mapped.tables _ index present) frame ran
          · rcases pmmAllocBlock_pops mapped.below with ⟨-, failed⟩ | ⟨c, rest, shape, handed, -⟩
            · rw [failed] at ran
              dsimp only at ran
              rw [if_pos rfl] at ran
              cases ran
              exact ⟨above, rfl, rfl⟩
            · rw [handed] at ran
              dsimp only at ran
              split at ran
              · cases ran
                exact ⟨above_taken above (by simp [shape]) entries, rfl, rfl⟩
              · split at ran
                · cases ran
                · obtain ⟨cleared, table⟩ := above_newTable above entries mapped shape index rfl
                  obtain ⟨kept, kernel, active⟩ := above_setPage cleared entries table frame ran
                  exact ⟨kept, kernel, active⟩

/-! ## The heap -/

/-- The directories that the loader and the heap work with. -/
structure Reachable (s : Machine) : Prop where
  kernel : AboveBitmap s s.kernelDirectory 1023
  active : AboveBitmap s s.cr3 1024

theorem above_congr (above : AboveBitmap s d n) (same : t.pmm = s.pmm) : AboveBitmap t d n := by
  obtain ⟨below, taken, tables⟩ := above
  rw [← same] at below taken tables
  exact ⟨below, taken, tables⟩

theorem reachable_moved (reachable : Reachable s) (heapEnd : Nat) : Reachable { s with heapCurrentEnd := heapEnd } :=
  ⟨above_congr reachable.kernel rfl, above_congr reachable.active rfl⟩

theorem map_null (s : Machine) (d virt flags : Nat) : vmmMapPageInDirectory s d 0 virt flags = .ok s := by
  unfold vmmMapPageInDirectory
  split
  · rfl
  · rw [if_pos (Or.inl rfl)]

theorem heapExpandPage_reachable (reachable : Reachable s) (small : s.heapCurrentEnd < 2 ^ 32)
    (ran : heapExpandPage s = .ok t) :
    Reachable t ∧ t.heapCurrentEnd < 2 ^ 32 := by
  have bound (value : Nat) : (value + pageSize) % 2 ^ 32 < 2 ^ 32 := Nat.mod_lt _ (by decide)
  unfold heapExpandPage vmmMapPage at ran
  rcases pmmAllocBlock_pops reachable.kernel.below with ⟨-, failed⟩ | ⟨b, rest, shape, handed, -⟩
  · rw [failed] at ran
    dsimp only at ran
    rw [map_null] at ran
    cases ran
    exact ⟨reachable_moved reachable _, bound _⟩
  · have free : b ∈ freeBlocks s.pmm := by simp [shape]
    have frame := freeBlocks_high reachable.kernel.below free
    have kernel := above_taken reachable.kernel free (by decide)
    have active := above_taken reachable.active free (Nat.le_refl _)
    rw [handed] at ran
    dsimp only at ran
    split at ran
    · cases ran
    · rename_i u mapped
      obtain ⟨kernelU, sameKernel, sameActive⟩ := above_map kernel (by decide) active small frame mapped
      obtain ⟨activeU, -⟩ := above_map active (Nat.le_refl _) active small frame mapped
      cases ran
      rw [← sameKernel] at kernelU
      rw [← sameActive] at activeU
      exact ⟨reachable_moved ⟨kernelU, activeU⟩ _, bound _⟩

theorem heapExpandPages_reachable (pages : Nat) (reachable : Reachable s) (small : s.heapCurrentEnd < 2 ^ 32)
    (ran : heapExpandPages pages s = .ok t) : Reachable t ∧ t.heapCurrentEnd < 2 ^ 32 := by
  induction pages generalizing s with
  | zero =>
    cases ran
    exact ⟨reachable, small⟩
  | succ pages ih =>
    unfold heapExpandPages at ran
    split at ran
    · cases ran
    · rename_i u page
      obtain ⟨reachableU, smallU⟩ := heapExpandPage_reachable reachable small page
      exact ih reachableU smallU ran

end

end MeowMeowOS.BitmapReach

import MeowMeowOS.OwnedPages
import MeowMeowOS.PageMapping
import MeowMeowOS.BootDirectories

/-! One page is mapped or unmapped in a directory, and no other page of it
below the window of the last entry, which maps the directory itself. -/
namespace MeowMeowOS.SinglePages
open ByteMemory PhysicalFrames VirtualMemory BootFrames FreeFrames AddressSpaces DirectoryLayout MappedPages
open BootDirectories PageEntries OwnedPages PageMapping
open HeapFrames (ram128)

/-- The addresses of the last entry of a directory start here. -/
def directoryWindow : Nat := 0xFFC00000

def vmmUnmapPageInDirectory (s : Machine) (pageDir virt : Nat) : Except Nat Machine :=
  if (pageDir = 0 ∨ pageDir % pageSize ≠ 0) ∨ virt = 0 then .ok s
  else if virt % pageSize ≠ 0 then .ok s
  else if ¬ Identity s pageDir then .error pageDir
  else if ¬ isPresent (entry s.pmm.mem pageDir (pdIndex virt)) = true then .ok s
  else
    let table := frameOf (entry s.pmm.mem pageDir (pdIndex virt))
    if ¬ Identity s table then .error table
    else
      let pte := entry s.pmm.mem table (ptIndex virt)
      if ¬ isPresent pte = true then .ok s
      else
        let s := s.store (setEntry s.pmm.mem table (ptIndex virt) 0)
        .ok { s with pmm := pmmFreeBlock s.pmm (frameOf pte) }

/-- The other pages have the entries and the translations that they had. -/
def OthersKept (s t : Machine) (d virt : Nat) : Prop :=
  ∀ w < directoryWindow, w / pageSize ≠ virt / pageSize →
    leaf t.pmm.mem d w = leaf s.pmm.mem d w ∧ translate t.pmm.mem d w = translate s.pmm.mem d w

/-- The page has the frame and the flags, or there was no frame for its table. -/
structure MapsOne (s t : Machine) (d phys virt flags : Nat) : Prop where
  page : (leaf t.pmm.mem d virt = phys ||| flags % 4096 ||| pagePresent ∧ translate t.pmm.mem d virt = some phys) ∨
    (¬ isPresent (entry s.pmm.mem d (pdIndex virt)) = true ∧ freeBlocks s.pmm = [] ∧ t = s)
  others : OthersKept s t d virt

/-- The page is gone, and of the frames its own is free, unless that is frame 0. -/
structure UnmapsOne (s t : Machine) (d virt : Nat) : Prop where
  page : translate t.pmm.mem d virt = none
  others : OthersKept s t d virt
  frames : ∀ c, bitmapTest t.pmm c =
    (bitmapTest s.pmm c && !decide (c ≠ 0 ∧ translate s.pmm.mem d virt = some (c * pageSize)))

section
variable {s t : Machine} {d b f w phys virt flags : Nat} {rest : List Nat}

theorem window_index (below : w < directoryWindow) : pdIndex w < 1023 := by
  unfold pdIndex directoryWindow at *
  omega

theorem translate_of_leaf (same : leaf m' d w = leaf m d w) : translate m' d w = translate m d w := by
  rw [translate_leaf, translate_leaf, same]

theorem othersKept_refl (s : Machine) (d virt : Nat) : OthersKept s s d virt := fun _ _ _ => ⟨rfl, rfl⟩

theorem othersKept_leaves (leaves : ∀ w, pdIndex w < 1023 → w / pageSize ≠ virt / pageSize →
    leaf t.pmm.mem d w = leaf s.pmm.mem d w) : OthersKept s t d virt := fun w below other =>
  ⟨leaves w (window_index below) other, translate_of_leaf (leaves w (window_index below) other)⟩

/-- The entry that is written for a frame and flags. -/
theorem presentEntry_eq (flags : Nat) (aligned : phys % pageSize = 0) (bound : phys < 2 ^ 32) :
    presentEntry phys flags % 2 ^ 32 = phys ||| flags % 4096 ||| pagePresent ∧
      isPresent (phys ||| flags % 4096 ||| pagePresent) = true ∧
      frameOf (phys ||| flags % 4096 ||| pagePresent) = phys := by
  obtain ⟨b, rfl⟩ : ∃ b, phys = b * pageSize :=
    ⟨phys / pageSize, (Nat.div_mul_cancel (Nat.dvd_of_mod_eq_zero aligned)).symm⟩
  have small : b < 2 ^ 20 := by
    unfold pageSize at bound
    omega
  have shape : presentEntry (b * pageSize) flags = b * pageSize ||| flags % 4096 ||| pagePresent := by
    rw [presentEntry, frameOf_frame]
  obtain ⟨low, lowBound, odd, sum⟩ := presentEntry_frame b flags
  obtain ⟨word, present, frame⟩ := entry_present small lowBound odd
  rw [← shape, sum]
  exact ⟨word, present, frame⟩

theorem setPage_leaves (walkable : Walkable s d) (small : pdIndex virt < 1023)
    (present : isPresent (entry s.pmm.mem d (pdIndex virt)) = true) (ran : setPage s d phys virt flags = .ok t) :
    leaf t.pmm.mem d virt = presentEntry phys flags % 2 ^ 32 ∧
      ∀ w, pdIndex w < 1023 → w / pageSize ≠ virt / pageSize → leaf t.pmm.mem d w = leaf s.pmm.mem d w := by
  have high := (taken_aligned (walkable.tables _ ⟨_, small, present, rfl⟩).1).2
  obtain ⟨kept, own⟩ := kept_setEntry walkable small present (presentEntry phys flags)
  unfold setPage at ran
  dsimp only at ran
  rw [if_neg (by omega)] at ran
  split at ran
  · cases ran
  · cases ran
    exact ⟨own, kept.leaves⟩

theorem mapsOne_of_leaf (aligned : phys % pageSize = 0 ∧ virt % pageSize = 0) (bound : phys < 2 ^ 32)
    (own : leaf t.pmm.mem d virt = presentEntry phys flags % 2 ^ 32)
    (leaves : ∀ w, pdIndex w < 1023 → w / pageSize ≠ virt / pageSize →
    leaf t.pmm.mem d w = leaf s.pmm.mem d w) :
    MapsOne s t d phys virt flags := by
  obtain ⟨word, present, frame⟩ := presentEntry_eq flags aligned.1 bound
  rw [word] at own
  refine ⟨.inl ⟨own, ?_⟩, othersKept_leaves leaves⟩
  rw [translate_leaf, own, if_pos present, frame, aligned.2, Nat.add_zero]

theorem mapPage_one (walkable : Walkable s d) (nonnull : phys ≠ 0 ∧ virt ≠ 0)
    (aligned : phys % pageSize = 0 ∧ virt % pageSize = 0) (bound : phys < 2 ^ 32) (below : virt < directoryWindow)
    (ran : vmmMapPageInDirectory s d phys virt flags = .ok t) : MapsOne s t d phys virt flags := by
  obtain ⟨alignedD, highD⟩ := taken_aligned walkable.taken
  have small := window_index below
  rcases mapPage_steps walkable ran with ⟨refused, -⟩ | ⟨absent, none, rfl⟩ | ⟨present, stored⟩ | ⟨absent,
    b, rest, shape, stored⟩
  · exact absurd ⟨⟨by omega, alignedD⟩, nonnull, aligned⟩ refused
  · exact ⟨.inr ⟨absent, none, rfl⟩, othersKept_refl _ _ _⟩
  · obtain ⟨own, leaves⟩ := setPage_leaves walkable small present stored
    exact mapsOne_of_leaf aligned bound own leaves
  · obtain ⟨grown, present⟩ := grown_newTable flags (fun _ => False) walkable shape small absent
    obtain ⟨own, leaves⟩ := setPage_leaves grown.walkable small present stored
    refine mapsOne_of_leaf aligned bound own fun w smallW other => ?_
    rw [leaves w smallW other]
    exact leaf_newTable walkable shape small absent flags smallW

theorem pmmFreeBlock_frame (s : PmmState) (b c : Nat) :
    bitmapTest (pmmFreeBlock s (b * pageSize)) c = (bitmapTest s c && !decide (c ≠ 0 ∧ c = b)) := by
  by_cases zero : b = 0
  · subst zero
    have none : ¬ (c ≠ 0 ∧ c = 0) := by omega
    rw [decide_eq_false none, Bool.not_false, Bool.and_true, pmmFreeBlock, if_pos (Nat.zero_mul _)]
  · rw [pmmFreeBlock_bits s (Nat.pos_of_ne_zero zero)]
    by_cases same : c = b
    · subst same
      simp [zero]
    · simp [same]

theorem free_same (set : Bool) (pte c : Nat) : (set && !decide (c ≠ 0 ∧ c = pte / 4096)) =
    (set && !decide (c ≠ 0 ∧ some (frameOf pte) = some (c * pageSize))) := by
  have same : c = pte / 4096 ↔ some (frameOf pte) = some (c * pageSize) := by
    rw [Option.some.injEq]
    unfold frameOf pageSize
    omega
  rw [decide_eq_decide.mpr (and_congr_right fun _ => same)]

theorem unmapPage_returns (virt : Nat) (directory : Identity s d)
    (table : isPresent (entry s.pmm.mem d (pdIndex virt)) = true →
    Identity s (frameOf (entry s.pmm.mem d (pdIndex virt)))) : ∃ t, vmmUnmapPageInDirectory s d virt = .ok t := by
  unfold vmmUnmapPageInDirectory
  dsimp only
  split_ifs
  all_goals first
    | exact ⟨_, rfl⟩
    | exact absurd directory ‹_›
    | exact absurd (table ‹_›) ‹_›

theorem unmapPage_one (walkable : Walkable s d) (nonnull : virt ≠ 0) (aligned : virt % pageSize = 0)
    (below : virt < directoryWindow) (ran : vmmUnmapPageInDirectory s d virt = .ok t) : UnmapsOne s t d virt := by
  obtain ⟨alignedD, highD⟩ := taken_aligned walkable.taken
  have small := window_index below
  have idle (unmapped : translate s.pmm.mem d virt = none) : UnmapsOne s s d virt := by
    refine ⟨unmapped, othersKept_refl _ _ _, fun c => ?_⟩
    rw [unmapped]
    simp
  unfold vmmUnmapPageInDirectory at ran
  rw [if_neg (by omega), if_neg (by omega)] at ran
  split at ran
  · cases ran
  · split at ran
    · rename_i absent
      cases ran
      apply idle
      rw [translate_leaf, leaf_absent absent]
      rfl
    · rename_i present
      have present := not_not.mp present
      dsimp only at ran
      split at ran
      · cases ran
      · split at ran
        · rename_i absent
          cases ran
          apply idle
          rw [translate_leaf, leaf_present present, if_neg absent]
        · rename_i mapped
          have mapped := not_not.mp mapped
          obtain ⟨taken, ne⟩ := walkable.tables _ ⟨_, small, present, rfl⟩
          obtain ⟨kept, own⟩ := kept_setEntry walkable small present 0
          have was : translate s.pmm.mem d virt =
              some (frameOf (entry s.pmm.mem (frameOf (entry s.pmm.mem d (pdIndex virt))) (ptIndex virt))) := by
            rw [translate_leaf, leaf_present present, if_pos mapped, aligned, Nat.add_zero]
          generalize frameOf (entry s.pmm.mem d (pdIndex virt)) = table at *
          obtain ⟨alignedT, highT⟩ := taken_aligned taken
          have outside (lo hi : Nat) (clear : hi ≤ table ∨ table + pageSize ≤ lo) :
              AgreeOn s.pmm.mem (setEntry s.pmm.mem table (ptIndex virt) 0) lo hi :=
                setEntry_outside (ptIndex_lt virt) clear
          have bitmap := outside 0x200000 0x300000 (.inl highT)
          have stored := walkable_agree walkable bitmap
            (outside _ _ (frames_apart alignedD alignedT (Ne.symm ne)))
          have cleared : leaf (s.store (setEntry s.pmm.mem table (ptIndex virt) 0)).pmm.mem d virt = 0 := own
          have bits (c : Nat) : bitmapTest (s.store (setEntry s.pmm.mem table (ptIndex virt) 0)).pmm c =
              bitmapTest s.pmm c :=
            bitmapTest_agree walkable.below bitmap c
          cases ran
          refine ⟨?_, othersKept_leaves fun w smallW other => ?_, fun c => ?_⟩
          · refine (translate_of_leaf (freed_leaf stored small _)).trans ?_
            rw [translate_leaf, cleared]
            rfl
          · exact (freed_leaf stored smallW _).trans (kept.leaves w smallW other)
          · refine (pmmFreeBlock_frame _ _ c).trans ?_
            rw [bits, was]
            exact free_same _ _ _

end

/-! ## Both calls -/

/-- The machine with frame 0 at the second page. -/
def nullPage (s : Machine) : Machine :=
  s.store (setEntry s.pmm.mem (frameOf (entry s.pmm.mem s.kernelDirectory (pdIndex 0x1000)))
    (ptIndex 0x1000) pagePresent)

end MeowMeowOS.SinglePages

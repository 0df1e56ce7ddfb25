import MeowMeowOS.HeapGrowth

/-! From 8 MiB on each page of a directory has a frame of its own, which the
allocator never hands out. Whatever maps a new page or unmaps one keeps this. -/
namespace MeowMeowOS.OwnedPages
open ByteMemory PhysicalFrames VirtualMemory BootFrames FreeFrames AddressSpaces DirectoryLayout MappedPages ElfLoading
open TaskMemory PageEntries HeapGrowth

/-- Above the pages that the kernel maps to themselves. -/
def Beyond (w : Nat) : Prop := 2 ≤ pdIndex w ∧ pdIndex w < 1023

structure Owned (s : Machine) (d : Nat) : Prop where
  walkable : Walkable s d
  occupied : ∀ w, Beyond w → isPresent (leaf s.pmm.mem d w) = true →
    Occupied s.pmm (frameOf (leaf s.pmm.mem d w)) ∧
    frameOf (leaf s.pmm.mem d w) ≠ d ∧ ¬ IsTable s.pmm.mem d (frameOf (leaf s.pmm.mem d w))
  apart : ∀ w v, Beyond w → Beyond v → isPresent (leaf s.pmm.mem d w) = true →
    isPresent (leaf s.pmm.mem d v) = true →
    frameOf (leaf s.pmm.mem d w) = frameOf (leaf s.pmm.mem d v) → w / pageSize = v / pageSize

section
variable {s t u : Machine} {m : Mem} {d b p w v virt : Nat} {rest : List Nat}

/-- The entry is that of the page. -/
theorem leaf_page (m : Mem) (d : Nat) (same : w / pageSize = v / pageSize) : leaf m d w = leaf m d v := by
  have directory : pdIndex w = pdIndex v := by
    unfold pdIndex pageSize at *
    omega
  have table : ptIndex w = ptIndex v := by
    unfold ptIndex pageSize at *
    omega
  unfold leaf
  rw [directory, table]

/-- The pages stay as they are, and frames are at most taken. -/
theorem owned_kept (owned : Owned s d) (grown : Grown s t d changed)
    (kept : Kept s.pmm.mem t.pmm.mem d fun _ => False) :
    Owned t d := by
  have same (w : Nat) (beyond : Beyond w) : leaf t.pmm.mem d w = leaf s.pmm.mem d w := kept.leaves w beyond.2 id
  refine ⟨grown.walkable, fun w beyond present => ?_, fun w v beyondW beyondV => ?_⟩
  · rw [same w beyond] at present ⊢
    obtain ⟨occupied, ne, plain⟩ := owned.occupied w beyond present
    exact ⟨occupied_mono grown.frames grown.bits occupied, ne, fun table =>
      (grown.tables _ table).elim plain fun absent => absent occupied⟩
  · rw [same w beyondW, same v beyondV]
    exact owned.apart w v beyondW beyondV

/-- The page of `virt` gets a frame that was free. -/
theorem owned_fresh (owned : Owned s d) (fresh : Fresh s t d b virt) (aligned : virt % pageSize = 0)
    (kept : Kept s.pmm.mem t.pmm.mem d (· = virt / pageSize)) : Owned t d := by
  have grown := fresh.grown
  have own (w : Nat) (same : w / pageSize = virt / pageSize) : frameOf (leaf t.pmm.mem d w) = b * pageSize := by
    have walk := fresh.page
    rw [translate_leaf, aligned, Nat.add_zero] at walk
    rw [leaf_page _ _ same]
    split at walk
    · exact Option.some.inj walk
    · cases walk
  have before (w : Nat) (beyond : Beyond w) (other : w / pageSize ≠ virt / pageSize)
      (present : isPresent (leaf t.pmm.mem d w) = true) : isPresent (leaf s.pmm.mem d w) = true ∧
        frameOf (leaf t.pmm.mem d w) = frameOf (leaf s.pmm.mem d w) ∧
        frameOf (leaf s.pmm.mem d w) ≠ b * pageSize := by
    have same := kept.leaves w beyond.2 other
    rw [same] at present ⊢
    exact ⟨present, rfl, fun equal =>
      free_not_occupied fresh.free (equal ▸ (owned.occupied w beyond present).1)⟩
  refine ⟨grown.walkable, fun w beyond present => ?_, fun w v beyondW beyondV presentW presentV equal => ?_⟩
  · by_cases same : w / pageSize = virt / pageSize
    · rw [own w same]
      exact ⟨taken_occupied fresh.taken, fresh.apart⟩
    · obtain ⟨presentS, frame, -⟩ := before w beyond same present
      obtain ⟨occupied, ne, plain⟩ := owned.occupied w beyond presentS
      rw [frame]
      exact ⟨occupied_mono grown.frames grown.bits occupied, ne, fun table =>
        (grown.tables _ table).elim plain fun absent => absent occupied⟩
  · by_cases first : w / pageSize = virt / pageSize
    · by_cases second : v / pageSize = virt / pageSize
      · rw [first, second]
      · obtain ⟨-, frame, ne⟩ := before v beyondV second presentV
        exact absurd (frame.symm.trans (equal.symm.trans (own w first))) ne
    · obtain ⟨presentS, frame, ne⟩ := before w beyondW first presentW
      by_cases second : v / pageSize = virt / pageSize
      · exact absurd (frame.symm.trans (equal.trans (own v second))) ne
      · obtain ⟨presentS', frame', -⟩ := before v beyondV second presentV
        exact owned.apart w v beyondW beyondV presentS presentS' (frame.symm.trans (equal.trans frame'))

/-- A frame that was free is mapped at page `p`, or nothing is. -/
theorem owned_map (owned : Owned s d) (prepared : Prepared s u d b) (kept : Kept s.pmm.mem u.pmm.mem d fun _ => False)
    (positive : 0 < p) (top : p < 0xFFC00)
    (ran : vmmMapPageInDirectory u d (b * pageSize) (p * pageSize) userPage = .ok t) :
    Owned t d ∧ Kept s.pmm.mem t.pmm.mem d (· = p) ∧ Taken t.pmm (b * pageSize) ∧ b * pageSize ≠ d ∧
      ¬ IsTable t.pmm.mem d (b * pageSize) := by
  obtain ⟨index, number, aligned⟩ := page_index p
  have mapped := kept_mapPage prepared.grown.walkable (by omega) ran
  have all := kept_trans (kept_weaken kept fun _ => False.elim) mapped
  rcases fresh_map prepared (by omega) aligned (by unfold pageSize; omega) ran with ⟨rfl, -⟩ | ⟨fresh, -⟩
  · exact ⟨owned_kept owned prepared.grown kept, kept_weaken kept fun _ => False.elim, prepared.taken,
      prepared.apart⟩
  · exact ⟨owned_fresh owned fresh aligned all, number ▸ all, fresh.taken, fresh.apart⟩

/-- Stores into a page's frame. -/
theorem owned_store (owned : Owned t d) (high : 0x300 ≤ b)
    (apart : b * pageSize ≠ d ∧ ¬ IsTable t.pmm.mem d (b * pageSize))
    (outside : ∀ lo hi, hi ≤ b * pageSize ∨ b * pageSize + pageSize ≤ lo → AgreeOn t.pmm.mem m lo hi) :
    Owned (t.store m) d ∧ Kept t.pmm.mem m d fun _ => False := by
  have walkable := owned.walkable
  have kept : Kept t.pmm.mem m d fun _ => False := kept_outside walkable apart outside
  have bitmap : AgreeOn t.pmm.mem m 0x200000 0x300000 := outside _ _ (.inl (by unfold pageSize; omega))
  have directory :=
    outside _ _ (frames_apart (taken_aligned walkable.taken).1 (Nat.mul_mod_left b pageSize) (Ne.symm apart.1))
  have same (w : Nat) (beyond : Beyond w) : leaf m d w = leaf t.pmm.mem d w := kept.leaves w beyond.2 id
  refine ⟨⟨walkable_agree walkable bitmap directory, fun w beyond present => ?_, fun w v beyondW beyondV => ?_⟩,
    kept⟩
  · change isPresent (leaf m d w) = true at present
    change Occupied _ (frameOf (leaf m d w)) ∧ frameOf (leaf m d w) ≠ d ∧ ¬ IsTable m d (frameOf (leaf m d w))
    rw [same w beyond] at present ⊢
    obtain ⟨occupied, ne, plain⟩ := owned.occupied w beyond present
    exact ⟨occupied_agree walkable.below bitmap occupied, ne,
      fun table => plain ((isTable_agree directory).mp table)⟩
  · change isPresent (leaf m d w) = true → isPresent (leaf m d v) = true →
      frameOf (leaf m d w) = frameOf (leaf m d v) → _
    rw [same w beyondW, same v beyondV]
    exact owned.apart w v beyondW beyondV

/-! ## Giving a page back -/

theorem pmmFreeBlock_bits (s : PmmState) (positive : 0 < b) (c : Nat) :
    bitmapTest (pmmFreeBlock s (b * pageSize)) c = (bitmapTest s c && !decide (c = b)) := by
  have frame : b * pageSize / pageSize = b := Nat.mul_div_cancel b (by decide)
  have nonzero : ¬ b * pageSize = 0 := by
    unfold pageSize
    omega
  unfold pmmFreeBlock
  rw [if_neg nonzero]
  by_cases valid : pmmAddrIsValid s (b * pageSize) = true
  · rw [if_pos valid, bitmapTest_bitmapUnset, frame]
  · rw [if_neg valid]
    by_cases same : c = b
    · subst same
      have unmanaged : pmmBlockIsValid s c = false := by
        rw [← Bool.not_eq_true]
        intro managed
        simp only [pmmBlockIsValid, decide_eq_true_eq] at managed
        apply valid
        simp [pmmAddrIsValid, frame, managed]
      rw [bitmapTest, unmanaged, Bool.false_and, Bool.false_and]
    · simp [same]

theorem pmmFreeBlock_agree {s : PmmState} (below : BitmapBelow s) (frame hi : Nat) :
    AgreeOn s.mem (pmmFreeBlock s frame).mem 0x300000 hi := by
  unfold pmmFreeBlock
  split
  · exact fun _ _ _ => rfl
  · split
    · rename_i valid
      unfold bitmapUnset
      split
      · rename_i managed
        simp only [pmmBlockIsValid, decide_eq_true_eq] at managed
        have blocks := below.blocks
        refine writeWord_agree _ _ _ _ _ (Or.inl ?_)
        rw [below.bitmap]
        omega
      · exact fun _ _ _ => rfl
    · exact fun _ _ _ => rfl

theorem pmmFreeBlock_same (s : PmmState) (frame : Nat) : SameFrames s (pmmFreeBlock s frame) := by
  unfold pmmFreeBlock
  split
  · exact ⟨rfl, rfl⟩
  · split
    · exact bitmapUnset_same _ _
    · exact ⟨rfl, rfl⟩

theorem pmmFreeBlock_below {s : PmmState} (below : BitmapBelow s) (high : 0x300 ≤ b) :
    BitmapBelow (pmmFreeBlock s (b * pageSize)) := by
  obtain ⟨bitmap, blocks⟩ := pmmFreeBlock_same s (b * pageSize)
  refine ⟨bitmap.trans below.bitmap, blocks.symm ▸ below.blocks, fun c small clear => ?_⟩
  rw [pmmFreeBlock_bits s (by omega)] at clear
  by_cases same : c = b
  · exact same ▸ high
  · rw [decide_eq_false same, Bool.not_false, Bool.and_true] at clear
    exact below.free c (blocks ▸ small) clear

/-- A taken frame other than the one that is freed stays taken. -/
theorem taken_freed {s : PmmState} (taken : Taken s f) (ne : f ≠ b * pageSize) (positive : 0 < b) :
    Taken (pmmFreeBlock s (b * pageSize)) f := by
  obtain ⟨c, rfl, held, bounds⟩ := taken
  refine ⟨c, rfl, ?_, bounds⟩
  have other : c ≠ b := fun same => ne (same ▸ rfl)
  rw [pmmFreeBlock_bits s positive, held, decide_eq_false other]
  rfl

theorem occupied_freed {s : PmmState} (occupied : Occupied s f) (ne : f ≠ b * pageSize) (positive : 0 < b) :
    Occupied (pmmFreeBlock s (b * pageSize)) f := by
  obtain ⟨c, rfl, held, bounds⟩ := occupied
  refine ⟨c, rfl, fun small => ?_, bounds⟩
  have other : c ≠ b := fun same => ne (same ▸ rfl)
  rw [(pmmFreeBlock_same s _).2] at small
  rw [pmmFreeBlock_bits s positive, held small, decide_eq_false other]
  rfl

/-- The frame of a page is free. -/
def freed (s : Machine) (frame : Nat) : Machine := { s with pmm := pmmFreeBlock s.pmm frame }

theorem freed_entry (walkable : Walkable s d) (frame : Nat) (table : Nat) (held : Taken s.pmm table)
    (small : i < 1024) :
    entry (freed s frame).pmm.mem table i = entry s.pmm.mem table i := by
  have agree : AgreeOn s.pmm.mem (freed s frame).pmm.mem table (table + pageSize) := fun x above below =>
    pmmFreeBlock_agree walkable.below frame _ x (Nat.le_trans (taken_aligned held).2 above) below
  exact entry_agree agree small

theorem freed_walkable (owned : Owned s d) (positive : 0x300 ≤ b) (ne : b * pageSize ≠ d)
    (plain : ¬ IsTable s.pmm.mem d (b * pageSize)) : Walkable (freed s (b * pageSize)) d := by
  obtain ⟨below, takenD, tables, apart⟩ := owned.walkable
  have same (i : Nat) (small : i < 1023) : entry (freed s (b * pageSize)).pmm.mem d i = entry s.pmm.mem d i :=
    freed_entry owned.walkable _ d takenD (by omega)
  refine ⟨pmmFreeBlock_below below positive, taken_freed takenD (Ne.symm ne) (by omega), fun f table => ?_, ?_⟩
  · obtain ⟨i, small, found⟩ := table
    rw [same i small] at found
    obtain ⟨held, neD⟩ := tables f ⟨i, small, found⟩
    exact ⟨taken_freed held (fun equal => plain (equal ▸ ⟨i, small, found⟩)) (by omega), neD⟩
  · intro i smallI j smallJ
    rw [same i smallI, same j smallJ]
    exact apart i smallI j smallJ

theorem freed_leaf (walkable : Walkable s d) (small : pdIndex w < 1023) (frame : Nat) :
    leaf (freed s frame).pmm.mem d w = leaf s.pmm.mem d w := by
  have agree (f : Nat) (held : Taken s.pmm f) : AgreeOn s.pmm.mem (freed s frame).pmm.mem f (f + pageSize) :=
    fun x above below => pmmFreeBlock_agree walkable.below frame _ x (Nat.le_trans (taken_aligned held).2 above) below
  exact leaf_agree small (agree d walkable.taken) fun f table => agree f (walkable.tables f table).1

/-- A frame that no page has is given back. -/
theorem returned_owned (owned : Owned s d) (high : 0x300 ≤ b)
    (apart : b * pageSize ≠ d ∧ ¬ IsTable s.pmm.mem d (b * pageSize))
    (unused : ∀ w, Beyond w → isPresent (leaf s.pmm.mem d w) = true →
    frameOf (leaf s.pmm.mem d w) ≠ b * pageSize) :
    Owned (freed s (b * pageSize)) d := by
  refine ⟨freed_walkable owned high apart.1 apart.2, fun w beyond present => ?_, fun w v beyondW beyondV => ?_⟩
  · rw [freed_leaf owned.walkable beyond.2] at present ⊢
    obtain ⟨occupied, ne, plain⟩ := owned.occupied w beyond present
    refine ⟨occupied_freed occupied (unused w beyond present) (by omega), ne, fun table => plain ?_⟩
    obtain ⟨i, small, found⟩ := table
    rw [freed_entry owned.walkable _ d owned.walkable.taken (by omega)] at found
    exact ⟨i, small, found⟩
  · rw [freed_leaf owned.walkable beyondW.2, freed_leaf owned.walkable beyondV.2]
    exact owned.apart w v beyondW beyondV

/-- The entry of the page whose frame was freed is cleared. -/
theorem unmapped_owned (owned : Owned s d) (beyond : Beyond virt) (mapped : isPresent (leaf s.pmm.mem d virt) = true)
    (frame : frameOf (leaf s.pmm.mem d virt) = b * pageSize) (high : 0x300 ≤ b)
    (held : Taken s.pmm f ∧ f ≠ d) (walkable : Walkable (freed s (b * pageSize)) d)
    (cleared : leaf m d virt = 0) (kept : ∀ w, pdIndex w < 1023 → w / pageSize ≠ virt / pageSize →
      leaf m d w = leaf s.pmm.mem d w)
    (outside : ∀ lo hi, hi ≤ f ∨ f + pageSize ≤ lo → AgreeOn (freed s (b * pageSize)).pmm.mem m lo hi) :
    Owned ((freed s (b * pageSize)).store m) d := by
  obtain ⟨aligned, highF⟩ := taken_aligned held.1
  have bitmap := outside 0x200000 0x300000 (.inl highF)
  have directory := outside _ _ (frames_apart (taken_aligned owned.walkable.taken).1 aligned (Ne.symm held.2))
  have before (w : Nat) (beyondW : Beyond w) (present : isPresent (leaf m d w) = true) :
      w / pageSize ≠ virt / pageSize ∧ leaf m d w = leaf s.pmm.mem d w := by
    have other : w / pageSize ≠ virt / pageSize := fun same => by
      rw [leaf_page m d same, cleared] at present
      cases present
    exact ⟨other, kept w beyondW.2 other⟩
  refine ⟨walkable_agree walkable bitmap directory, fun w beyondW present => ?_,
    fun w v beyondW beyondV presentW presentV equal => ?_⟩
  · change isPresent (leaf m d w) = true at present
    change Occupied _ (frameOf (leaf m d w)) ∧ frameOf (leaf m d w) ≠ d ∧ ¬ IsTable m d (frameOf (leaf m d w))
    obtain ⟨other, same⟩ := before w beyondW present
    rw [same] at present ⊢
    obtain ⟨occupied, ne, plain⟩ := owned.occupied w beyondW present
    have own : frameOf (leaf s.pmm.mem d w) ≠ b * pageSize := fun equal =>
      other (owned.apart w virt beyondW beyond present mapped (equal.trans frame.symm))
    refine ⟨occupied_agree walkable.below bitmap (occupied_freed occupied own (by omega)), ne,
      fun isTable => plain ?_⟩
    obtain ⟨i, small, found⟩ := (isTable_agree directory).mp isTable
    rw [freed_entry owned.walkable _ d owned.walkable.taken (by omega)] at found
    exact ⟨i, small, found⟩
  · change isPresent (leaf m d w) = true at presentW
    change isPresent (leaf m d v) = true at presentV
    change frameOf (leaf m d w) = frameOf (leaf m d v) at equal
    have sameW := (before w beyondW presentW).2
    have sameV := (before v beyondV presentV).2
    rw [sameW] at presentW equal
    rw [sameV] at presentV equal
    exact owned.apart w v beyondW beyondV presentW presentV equal

/-- `SYS_FREE_PAGE` on a page from 8 MiB on. -/
theorem sysFreePage_owned (owned : Owned s task.pageDirectory) (high : 0x800000 ≤ virt)
    (ran : sysFreePage s task virt = .ok (eax, t)) :
    (t = s ∧ eax = minusOne) ∨
    (eax = 0 ∧ Owned t task.pageDirectory ∧ leaf t.pmm.mem task.pageDirectory virt = 0 ∧
      ∀ w, pdIndex w < 1023 → w / pageSize ≠ virt / pageSize →
        leaf t.pmm.mem task.pageDirectory w = leaf s.pmm.mem task.pageDirectory w) := by
  unfold sysFreePage at ran
  generalize task.pageDirectory = d at *
  split at ran
  · cases ran
    exact .inl ⟨rfl, rfl⟩
  · rename_i checked
    have beyond : Beyond virt := by
      unfold Beyond pdIndex kernelVirtStart userVirtMin at *
      omega
    split at ran
    · cases ran
    · dsimp only at ran
      split at ran
      · cases ran
        exact .inl ⟨rfl, rfl⟩
      · rename_i absent
        have present : isPresent (entry s.pmm.mem d (pdIndex virt)) = true := by simpa using absent
        split at ran
        · cases ran
        · split at ran
          · cases ran
            exact .inl ⟨rfl, rfl⟩
          · rename_i unmapped
            rw [← leaf_present present] at unmapped ran
            have mapped : isPresent (leaf s.pmm.mem d virt) = true := by simpa using unmapped
            obtain ⟨occupied, ne, plain⟩ := owned.occupied virt beyond mapped
            obtain ⟨b, frame, -, highB, -⟩ := occupied
            rw [frame] at ran ne plain
            have walkable := freed_walkable owned highB ne plain
            have same := freed_entry owned.walkable (b * pageSize) d owned.walkable.taken (i := pdIndex virt)
              (Nat.lt_of_lt_of_le beyond.2 (by decide))
            have presentF : isPresent (entry (freed s (b * pageSize)).pmm.mem d (pdIndex virt)) = true := by
              rw [same]
              exact present
            obtain ⟨kept, cleared⟩ := kept_setEntry walkable beyond.2 presentF 0
            have held := (owned.walkable.tables _ ⟨_, beyond.2, present, rfl⟩)
            rw [same] at kept cleared
            cases ran
            refine .inr ⟨rfl, ?_, cleared, fun w small other => ?_⟩
            · exact unmapped_owned owned beyond mapped frame highB held walkable cleared
                (fun w small other => (kept.leaves w small other).trans (freed_leaf owned.walkable small _))
                fun lo hi clear => setEntry_outside (ptIndex_lt virt) clear
            · exact (kept.leaves w small other).trans (freed_leaf owned.walkable small _)

end

end MeowMeowOS.OwnedPages

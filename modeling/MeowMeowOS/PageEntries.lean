import MeowMeowOS.MappedPages
import MeowMeowOS.TaskMemory

/-! The entry that a directory has for a page, and what mapping one page leaves
of the entries that were there. -/
namespace MeowMeowOS.PageEntries
open ByteMemory PhysicalFrames VirtualMemory BootFrames FreeFrames AddressSpaces DirectoryLayout MappedPages ElfLoading

/-- The entry of a page, 0 where there is no table for it. -/
def leaf (m : Mem) (d virt : Nat) : Nat :=
  if isPresent (entry m d (pdIndex virt)) then entry m (frameOf (entry m d (pdIndex virt))) (ptIndex virt) else 0

/-- The entry lets a program read and write. -/
def grantsUser (value : Nat) : Bool := isPresent value && value.testBit 1 && isUser value

/-- A program may read and write at the address. -/
def UserWritable (m : Mem) (d virt : Nat) : Prop :=
  grantsUser (entry m d (pdIndex virt)) = true ∧ grantsUser (leaf m d virt) = true

instance (m : Mem) (d virt : Nat) : Decidable (UserWritable m d virt) := inferInstanceAs (Decidable (_ ∧ _))

/-- The directory `d` keeps its entries; those that it gets are a program's, and
so are the entries of pages other than `changed` kept. -/
structure Kept (m m' : Mem) (d : Nat) (changed : Nat → Prop) : Prop where
  old : ∀ i < 1023, isPresent (entry m d i) = true → entry m' d i = entry m d i
  new : ∀ i < 1023, isPresent (entry m d i) = false → isPresent (entry m' d i) = true →
    grantsUser (entry m' d i) = true
  leaves : ∀ w, pdIndex w < 1023 → ¬ changed (w / pageSize) → leaf m' d w = leaf m d w

section
variable {s t u : Machine} {m m' m'' : Mem} {d w v virt b p : Nat} {rest : List Nat} {changed also : Nat → Prop}

theorem translate_leaf (m : Mem) (d virt : Nat) : translate m d virt =
    if isPresent (leaf m d virt) then some (frameOf (leaf m d virt) + virt % pageSize) else none := by
  unfold AddressSpaces.translate leaf
  by_cases present : isPresent (entry m d (pdIndex virt)) = true
  · rw [if_pos present, if_pos present]
  · rw [if_neg present, if_neg present]
    rfl

theorem leaf_absent (absent : ¬ isPresent (entry m d (pdIndex virt)) = true) : leaf m d virt = 0 := if_neg absent

theorem leaf_present (present : isPresent (entry m d (pdIndex virt)) = true) :
    leaf m d virt = entry m (frameOf (entry m d (pdIndex virt))) (ptIndex virt) := if_pos present

theorem grantsUser_present (grants : grantsUser v = true) : isPresent v = true := by
  unfold grantsUser at grants
  rw [Bool.and_eq_true, Bool.and_eq_true] at grants
  exact grants.1.1

theorem grantsUser_entry (frame : Nat) : grantsUser (presentEntry frame userPage % 2 ^ 32) = true := by
  have bits (i : Nat) (low : i < 3) : (presentEntry frame userPage % 2 ^ 32).testBit i = true := by
    have user : (userPage % 4096).testBit i = true := (by decide : ∀ j < 3, (userPage % 4096).testBit j = true) i low
    rw [Nat.testBit_mod_two_pow, presentEntry, Nat.testBit_or, Nat.testBit_or, user]
    have : i < 32 := by omega
    simp [this]
  unfold grantsUser isPresent isUser
  rw [bits 0 (by decide), bits 1 (by decide), bits 2 (by decide)]
  rfl

theorem leaf_agree (small : pdIndex w < 1023) (directory : AgreeOn m m' d (d + pageSize))
    (tables : ∀ f, IsTable m d f → AgreeOn m m' f (f + pageSize)) : leaf m' d w = leaf m d w := by
  have pde : entry m' d (pdIndex w) = entry m d (pdIndex w) := entry_agree directory (by omega)
  unfold leaf
  rw [pde]
  by_cases present : isPresent (entry m d (pdIndex w)) = true
  · have table := tables _ ⟨pdIndex w, small, present, rfl⟩
    rw [if_pos present, if_pos present, entry_agree table (ptIndex_lt w)]
  · rw [if_neg present, if_neg present]

theorem kept_agree (directory : AgreeOn m m' d (d + pageSize))
    (tables : ∀ f, IsTable m d f → AgreeOn m m' f (f + pageSize)) : Kept m m' d changed := by
  have same (i : Nat) (small : i < 1023) : entry m' d i = entry m d i := entry_agree directory (by omega)
  refine ⟨fun i small _ => same i small, fun i small absent present => ?_, fun w small _ =>
    leaf_agree small directory tables⟩
  rw [same i small, absent] at present
  cases present

theorem kept_trans (first : Kept m m' d changed) (second : Kept m' m'' d changed) : Kept m m'' d changed := by
  refine ⟨fun i small present => ?_, fun i small absent present => ?_, fun w small other => ?_⟩
  · have same := first.old i small present
    rw [second.old i small (same.symm ▸ present), same]
  · by_cases between : isPresent (entry m' d i) = true
    · rw [second.old i small between]
      exact first.new i small absent between
    · exact second.new i small (Bool.eq_false_iff.mpr between) present
  · rw [second.leaves w small other, first.leaves w small other]

theorem kept_weaken (kept : Kept m m' d changed) (weaker : ∀ v, changed v → also v) : Kept m m' d also :=
  ⟨kept.old, kept.new, fun w small other => kept.leaves w small fun moved => other (weaker _ moved)⟩

/-- Where no table is there before and none after, or the entry is as before. -/
theorem userWritable_kept (kept : Kept m m' d changed) (small : pdIndex w < 1023) (other : ¬ changed (w / pageSize)) :
    UserWritable m' d w ↔ UserWritable m d w := by
  unfold UserWritable
  rw [kept.leaves w small other]
  constructor
  · rintro ⟨directory, page⟩
    refine ⟨?_, page⟩
    by_cases present : isPresent (entry m d (pdIndex w)) = true
    · rwa [kept.old _ small present] at directory
    · rw [leaf_absent present] at page
      cases page
  · rintro ⟨directory, page⟩
    refine ⟨?_, page⟩
    rwa [kept.old _ small (grantsUser_present directory)]

/-! ## Mapping one page -/

theorem kept_taken (walkable : Walkable s d) (free : b ∈ freeBlocks s.pmm) :
    Kept s.pmm.mem (bitmapSet s.pmm b).mem d changed := by
  have page (f : Nat) (taken : Taken s.pmm f) : AgreeOn s.pmm.mem (bitmapSet s.pmm b).mem f (f + pageSize) :=
    fun x above below => bitmapSet_agree walkable.below free x (Nat.le_trans (taken_aligned taken).2 above) below
  exact kept_agree (page d walkable.taken) fun f table => page f (walkable.tables f table).1

theorem kept_outside (walkable : Walkable t d) (apart : b * pageSize ≠ d ∧ ¬ IsTable t.pmm.mem d (b * pageSize))
    (outside : ∀ lo hi, hi ≤ b * pageSize ∨ b * pageSize + pageSize ≤ lo → AgreeOn t.pmm.mem m lo hi) :
    Kept t.pmm.mem m d changed := by
  have page (f : Nat) (taken : Taken t.pmm f) (ne : f ≠ b * pageSize) : AgreeOn t.pmm.mem m f (f + pageSize) :=
    outside _ _ (frames_apart (taken_aligned taken).1 (Nat.mul_mod_left b pageSize) ne)
  refine kept_agree (page d walkable.taken (Ne.symm apart.1)) fun f table => ?_
  exact page f (walkable.tables f table).1 fun same => apart.2 (same ▸ table)

/-- Into a table that is there already. -/
theorem kept_setEntry (walkable : Walkable s d) (small : pdIndex virt < 1023)
    (present : isPresent (entry s.pmm.mem d (pdIndex virt)) = true) (v : Nat) :
    Kept s.pmm.mem (setEntry s.pmm.mem (frameOf (entry s.pmm.mem d (pdIndex virt))) (ptIndex virt) v) d
        (· = virt / pageSize) ∧
      leaf (setEntry s.pmm.mem (frameOf (entry s.pmm.mem d (pdIndex virt))) (ptIndex virt) v) d virt = v % 2 ^ 32 := by
  obtain ⟨taken, ne⟩ := walkable.tables _ ⟨_, small, present, rfl⟩
  have aligned := (taken_aligned taken).1
  generalize tableEq : frameOf (entry s.pmm.mem d (pdIndex virt)) = table at taken ne aligned
  generalize memEq : setEntry s.pmm.mem table (ptIndex virt) v = m
  have page (f : Nat) (held : Taken s.pmm f) (apart : f ≠ table) : AgreeOn s.pmm.mem m f (f + pageSize) := by
    rw [← memEq]
    exact setEntry_outside (ptIndex_lt virt) (frames_apart (taken_aligned held).1 aligned apart)
  have pde (i : Nat) (bound : i < 1023) : entry m d i = entry s.pmm.mem d i :=
    entry_agree (page d walkable.taken (Ne.symm ne)) (by omega)
  refine ⟨⟨fun i bound _ => pde i bound, fun i bound absent found => ?_, fun w smallW other => ?_⟩, ?_⟩
  · rw [pde i bound, absent] at found
    cases found
  · unfold leaf
    rw [pde _ smallW]
    by_cases presentW : isPresent (entry s.pmm.mem d (pdIndex w)) = true
    · rw [if_pos presentW, if_pos presentW]
      by_cases own : frameOf (entry s.pmm.mem d (pdIndex w)) = table
      · have same := walkable.apart _ smallW _ small presentW present (own.trans tableEq.symm)
        rw [own, ← memEq, entry_setEntry_ne (page_indices same other)]
      · exact entry_agree (page _ (walkable.tables _ ⟨_, smallW, presentW, rfl⟩).1 own) (ptIndex_lt w)
    · rw [if_neg presentW, if_neg presentW]
  · unfold leaf
    rw [pde _ small, if_pos present, tableEq, ← memEq, entry_setEntry]

theorem kept_refl (m : Mem) (d : Nat) (changed : Nat → Prop) : Kept m m d changed :=
  kept_agree (fun _ _ _ => rfl) fun _ _ _ _ _ => rfl

theorem kept_setPage (walkable : Walkable s d) (small : pdIndex virt < 1023)
    (present : isPresent (entry s.pmm.mem d (pdIndex virt)) = true) (ran : setPage s d phys virt flags = .ok t) :
    Kept s.pmm.mem t.pmm.mem d (· = virt / pageSize) := by
  unfold setPage at ran
  dsimp only at ran
  split at ran
  · cases ran
    exact kept_refl _ _ _
  · split at ran
    · cases ran
    · cases ran
      exact (kept_setEntry walkable small present _).1

/-- What is in memory once a frame that was free is an empty table. -/
theorem newTable_entries (walkable : Walkable s d) (shape : freeBlocks s.pmm = b :: rest) (small : k < 1023)
    (flags : Nat)
    (shapeM : memset (setEntry (bitmapSet s.pmm b).mem d k (presentEntry (b * pageSize) flags))
    (b * pageSize) 0 pageSize = m) :
    entry m d k = presentEntry (b * pageSize) flags % 2 ^ 32 ∧
      (∀ j < 1024, j ≠ k → entry m d j = entry s.pmm.mem d j) ∧
      ∀ f, Taken s.pmm f → f ≠ d → AgreeOn s.pmm.mem m f (f + pageSize) := by
  have free : b ∈ freeBlocks s.pmm := by simp [shape]
  obtain ⟨alignedD, highD⟩ := taken_aligned walkable.taken
  have alignedB : b * pageSize % pageSize = 0 := Nat.mul_mod_left b pageSize
  have fresh (f : Nat) (held : Taken s.pmm f) : f ≠ b * pageSize := fun same => free_not_taken free (same ▸ held)
  have apartD := frames_apart alignedD alignedB (fresh d walkable.taken)
  have bits (hi : Nat) : AgreeOn s.pmm.mem (bitmapSet s.pmm b).mem 0x300000 hi := bitmapSet_agree walkable.below free
  have cleared (lo hi : Nat) (clear : hi ≤ b * pageSize ∨ b * pageSize + pageSize ≤ lo) :
      AgreeOn (setEntry (bitmapSet s.pmm b).mem d k (presentEntry (b * pageSize) flags)) m lo hi := by
    rw [← shapeM]
    exact memset_outside clear
  refine ⟨?_, fun j bound ne => ?_, fun f held ne => ?_⟩
  · rw [entry_agree (cleared _ _ apartD) (by omega), entry_setEntry]
  · rw [entry_agree (cleared _ _ apartD) (by omega), entry_setEntry_ne (Ne.symm ne)]
    exact entry_agree (fun x above below => bits _ x (Nat.le_trans highD above) below) bound
  · obtain ⟨aligned, high⟩ := taken_aligned held
    have stored : AgreeOn (bitmapSet s.pmm b).mem m f (f + pageSize) :=
      agreeOn_trans (setEntry_outside (by omega) (frames_apart aligned alignedD ne))
        (cleared _ _ (frames_apart aligned alignedB (fresh f held)))
    exact agreeOn_trans (fun x above below => bits _ x (Nat.le_trans high above) below) stored

/-- An empty table changes the entry of no page. -/
theorem leaf_newTable (walkable : Walkable s d) (shape : freeBlocks s.pmm = b :: rest) (small : k < 1023)
    (absent : ¬ isPresent (entry s.pmm.mem d k) = true) (flags : Nat) (smallW : pdIndex w < 1023) :
    leaf (memset (setEntry (bitmapSet s.pmm b).mem d k (presentEntry (b * pageSize) flags)) (b * pageSize) 0 pageSize)
    d w =
      leaf s.pmm.mem d w := by
  have smallB := (freeBlocks_high walkable.below (show b ∈ freeBlocks s.pmm by simp [shape])).2
  obtain ⟨named, pde, page⟩ := newTable_entries walkable shape small flags rfl
  generalize memEq : memset (setEntry (bitmapSet s.pmm b).mem d k (presentEntry (b * pageSize) flags)) (b * pageSize) 0
    pageSize = m at named pde page
  unfold leaf
  by_cases same : pdIndex w = k
  · have names := names_present smallB flags
    rw [same, named, if_pos names.1, if_neg absent, names.2, ← memEq, entry_cleared _ _ (ptIndex_lt w)]
  · rw [pde _ (Nat.lt_succ_of_lt smallW) same]
    by_cases presentW : isPresent (entry s.pmm.mem d (pdIndex w)) = true
    · obtain ⟨held, ne⟩ := walkable.tables _ ⟨_, smallW, presentW, rfl⟩
      rw [if_pos presentW, if_pos presentW, entry_agree (page _ held ne) (ptIndex_lt w)]
    · rw [if_neg presentW, if_neg presentW]

theorem kept_newTable (changed : Nat → Prop) (walkable : Walkable s d) (shape : freeBlocks s.pmm = b :: rest)
    (small : k < 1023) (absent : ¬ isPresent (entry s.pmm.mem d k) = true) :
    Kept s.pmm.mem
      (memset (setEntry (bitmapSet s.pmm b).mem d k (presentEntry (b * pageSize) userPage)) (b * pageSize) 0 pageSize) d
      changed := by
  obtain ⟨named, pde, -⟩ := newTable_entries walkable shape small userPage rfl
  refine ⟨fun i bound present => ?_, fun i bound missing present => ?_, fun w smallW _ => ?_⟩
  · exact pde i (Nat.lt_succ_of_lt bound) fun same => absent (same ▸ present)
  · by_cases same : i = k
    · rw [same, named]
      exact grantsUser_entry _
    · rw [pde i (Nat.lt_succ_of_lt bound) same, missing] at present
      cases present
  · exact leaf_newTable walkable shape small absent userPage smallW

/-- Whatever a call that succeeds does, it keeps the entries of the other pages. -/
theorem kept_mapPage (walkable : Walkable s d) (small : pdIndex virt < 1023)
    (ran : vmmMapPageInDirectory s d phys virt userPage = .ok t) :
    Kept s.pmm.mem t.pmm.mem d (· = virt / pageSize) := by
  rcases mapPage_steps walkable ran with ⟨-, rfl⟩ | ⟨-, -, rfl⟩ | ⟨present, stored⟩ | ⟨absent, b, rest,
    shape, stored⟩
  · exact kept_refl _ _ _
  · exact kept_refl _ _ _
  · exact kept_setPage walkable small present stored
  · obtain ⟨grown, present⟩ := grown_newTable userPage (fun _ => False) walkable shape small absent
    have entered := kept_newTable (· = virt / pageSize) walkable shape small absent
    exact kept_trans entered (kept_setPage grown.walkable small present stored)

end

end MeowMeowOS.PageEntries

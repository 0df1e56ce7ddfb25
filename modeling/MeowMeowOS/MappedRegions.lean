import MeowMeowOS.SinglePages
import MeowMeowOS.HeapGrowth

/-! `vmm_map_region`. The start of a region is rounded down to a page and its size
is rounded up, the one without regard to the other, so that a region that crosses
one more page boundary than its size suggests has a last page that is not mapped. -/
namespace MeowMeowOS.MappedRegions
open ByteMemory PhysicalFrames VirtualMemory BootFrames FreeFrames AddressSpaces DirectoryLayout MappedPages
open BootDirectories PageEntries PageMapping HeapGrowth SinglePages
open HeapFrames (ram128)

/-- The rounds of the loop that are left, from `offset` on. -/
def mapRegionFrom (alignedPhys alignedVirt flags : Nat) : Nat → Nat → Machine → Except Nat Machine
  | 0, _, s => .ok s
  | n + 1, offset, s =>
    match vmmMapPage s ((alignedPhys + offset) % 2 ^ 32) ((alignedVirt + offset) % 2 ^ 32) flags with
    | .error frame => .error frame
    | .ok s => mapRegionFrom alignedPhys alignedVirt flags n (offset + pageSize) s

def alignedSize (size : Nat) : Nat := frameOf ((size + pageSize - 1) % 2 ^ 32)

def vmmMapRegion (s : Machine) (physStart virtStart size flags : Nat) : Except Nat Machine :=
  mapRegionFrom (frameOf physStart) (frameOf virtStart) flags (alignedSize size / pageSize) 0 s

/-- Every byte of the region has its translation. -/
def Covers (t : Machine) (phys virt size : Nat) : Prop :=
  ∀ i < size, translate t.pmm.mem t.cr3 (virt + i) = some (phys + i)

/-- The first and the last byte lie in as many pages as the size is rounded up to,
or the page after them had its frame already. -/
def LastCovered (s : Machine) (phys virt size : Nat) : Prop :=
  size = 0 ∨ virt % pageSize + size ≤ alignedSize size ∨
    translate s.pmm.mem s.cr3 (virt + (size - 1)) = some (phys + (size - 1))

instance (s : Machine) (phys virt size : Nat) : Decidable (LastCovered s phys virt size) :=
  inferInstanceAs (Decidable (_ ∨ _ ∨ _))

/-- The region ends before the page of the window that holds the directory's entry
for its first page. -/
def EntriesApart (virt size : Nat) : Prop :=
  directoryWindow ≤ virt ∨ virt + size ≤ directoryWindow + pdIndex virt * pageSize

instance (virt size : Nat) : Decidable (EntriesApart virt size) := inferInstanceAs (Decidable (_ ∨ _))

/-- How many of the pages lie below the window. -/
def pagesBelow (virt size : Nat) : Nat := min (alignedSize size / pageSize) (1023 * 1024 - virt / pageSize)

/-- The page `p` of the directory has the frame `b`. -/
structure PageAt (s t : Machine) (d p b : Nat) : Prop where
  grown : Grown s t d (· = p)
  page : translate t.pmm.mem d (p * pageSize) = some (b * pageSize)
  entries : ∀ i < 1024, i ≠ p / 1024 → entry t.pmm.mem d i = entry s.pmm.mem d i
  tables : ∀ n, p + n < 1023 * 1024 → (freeBlocks s.pmm).length + missing t.pmm.mem d (p + 1) n =
    (freeBlocks t.pmm).length + missing s.pmm.mem d p (n + 1)

/-- The pages from `p` on have the frames from `b` on. -/
structure PagesAt (s t : Machine) (d p b n : Nat) : Prop where
  grown : Grown s t d fun v => p ≤ v ∧ v < p + n
  pages : ∀ j < n, translate t.pmm.mem d ((p + j) * pageSize) = some ((b + j) * pageSize)
  entries : ∀ i < 1024, (∀ v, p ≤ v → v < p + n → i ≠ v / 1024) →
    entry t.pmm.mem d i = entry s.pmm.mem d i

section
variable {s t u : Machine} {m : Mem} {d b c f k p n v w o phys virt size flags offset ab av : Nat} {rest : List Nat}

/-! ## The loop -/

theorem mapRegionFrom_append (ran : mapRegionFrom ab av flags (n + k) offset s = .ok t) :
    ∃ u, mapRegionFrom ab av flags n offset s = .ok u ∧
    mapRegionFrom ab av flags k (offset + n * pageSize) u = .ok t := by
  induction n generalizing s offset with
  | zero =>
    rw [Nat.zero_add] at ran
    exact ⟨s, rfl, by rwa [Nat.zero_mul, Nat.add_zero]⟩
  | succ n ih =>
    rw [Nat.add_right_comm] at ran
    rw [mapRegionFrom] at ran ⊢
    split at ran
    · cases ran
    · obtain ⟨u, first, later⟩ := ih ran
      refine ⟨u, first, ?_⟩
      rwa [Nat.succ_mul, Nat.add_comm (n * pageSize), ← Nat.add_assoc]

/-! ## One page below the window -/

theorem setPage_directory (walkable : Walkable s d) (small : pdIndex virt < 1023)
    (present : isPresent (entry s.pmm.mem d (pdIndex virt)) = true) (ran : setPage s d phys virt flags = .ok t) :
    (∀ i < 1024, entry t.pmm.mem d i = entry s.pmm.mem d i) ∧ freeBlocks t.pmm = freeBlocks s.pmm := by
  obtain ⟨taken, ne⟩ := walkable.tables _ ⟨_, small, present, rfl⟩
  obtain ⟨aligned, high⟩ := taken_aligned taken
  unfold setPage at ran
  dsimp only at ran
  split at ran
  · cases ran
    exact ⟨fun _ _ => rfl, rfl⟩
  · split at ran
    · cases ran
    · cases ran
      have outside (lo hi : Nat) (clear : hi ≤ frameOf (entry s.pmm.mem d (pdIndex virt)) ∨
          frameOf (entry s.pmm.mem d (pdIndex virt)) + pageSize ≤ lo) :
          AgreeOn s.pmm.mem (setEntry s.pmm.mem (frameOf (entry s.pmm.mem d (pdIndex virt))) (ptIndex virt)
            (presentEntry phys flags)) lo hi := setEntry_outside (ptIndex_lt virt) clear
      constructor
      · exact fun i bound =>
          entry_agree (outside _ _ (frames_apart (taken_aligned walkable.taken).1 aligned (Ne.symm ne))) bound
      · exact freeBlocks_agree walkable.below (outside _ _ (.inl high))

/-- A call that returns maps the page, or there was no frame for its table. -/
theorem mapPage_at (walkable : Walkable s d) (positive : 0 < p ∧ 0 < b) (top : p < 1023 * 1024) (bound : b < 2 ^ 20)
    (ran : vmmMapPageInDirectory s d (b * pageSize) (p * pageSize) flags = .ok t) :
    (isPresent (entry s.pmm.mem d (p / 1024)) = false ∧ freeBlocks s.pmm = []) ∨ PageAt s t d p b := by
  obtain ⟨alignedD, highD⟩ := taken_aligned walkable.taken
  obtain ⟨index, number, aligned⟩ := page_index p
  have small : pdIndex (p * pageSize) < 1023 := by omega
  have accepted : Accepted d (b * pageSize) (p * pageSize) := by
    refine ⟨⟨by omega, alignedD⟩, ?_, Nat.mul_mod_left b pageSize, aligned⟩
    unfold pageSize
    omega
  rcases mapPage_steps walkable ran with ⟨refused, -⟩ | ⟨absent, none, -⟩ | ⟨present, stored⟩ |
    ⟨absent, c, rest, shape, stored⟩
  · exact absurd accepted refused
  · rw [index] at absent
    exact .inl ⟨Bool.eq_false_iff.mpr absent, none⟩
  · right
    obtain ⟨grown, page⟩ := grown_setPage walkable small aligned present bound stored
    obtain ⟨same, free⟩ := setPage_directory walkable small present stored
    rw [index] at present
    rw [number] at grown
    refine ⟨grown, page, fun i upper _ => same i upper, fun n last => ?_⟩
    rw [free, missing_succ_present last present fun i upper => by rw [same i (Nat.lt_succ_of_lt upper)]]
  · right
    obtain ⟨grown, present⟩ := grown_newTable flags (· = p) walkable shape small absent
    obtain ⟨mapped, page⟩ := grown_setPage grown.walkable small aligned present bound stored
    obtain ⟨same, free⟩ := setPage_directory grown.walkable small present stored
    obtain ⟨-, others, -⟩ := newTable_entries walkable shape small flags rfl
    have count := newTable_free walkable shape small flags
    rw [number] at mapped
    rw [index] at absent present others free same count
    have entered : isPresent (entry t.pmm.mem d (p / 1024)) = true := by
      rw [same _ (by omega)]
      exact present
    refine ⟨grown_trans grown mapped, page, fun i upper ne => (same i upper).trans (others i upper ne),
      fun n last => ?_⟩
    rw [free, count, shape, List.length_cons,
      missing_succ_absent last (Bool.eq_false_iff.mpr absent) entered fun i upper ne => by
      rw [same i (Nat.lt_succ_of_lt upper)]
      exact iff_of_eq (congrArg (isPresent · = false) (others i (Nat.lt_succ_of_lt upper) ne))]
    omega

theorem wrap_page (start : ab + offset = b * pageSize) (bound : b < 2 ^ 20) :
    (ab + offset) % 2 ^ 32 = b * pageSize := by
  unfold pageSize at *
  omega

/-- The rounds below the window, with a frame for every table that there is not. -/
theorem region_below (walkable : Walkable s d) (active : s.cr3 = d) (positive : 0 < p ∧ 0 < b)
    (top : p + n ≤ 1023 * 1024)
    (bound : b + n ≤ 2 ^ 20) (page : av + offset = p * pageSize) (frame : ab + offset = b * pageSize)
    (enough : missing s.pmm.mem d p n ≤ (freeBlocks s.pmm).length)
    (ran : mapRegionFrom ab av flags n offset s = .ok t) :
    PagesAt s t d p b n := by
  induction n generalizing s p b offset with
  | zero =>
    cases ran
    exact ⟨grown_refl walkable, nofun, fun _ _ _ => rfl⟩
  | succ n ih =>
    rw [mapRegionFrom, wrap_page frame (by omega), wrap_page page (by omega), vmmMapPage, active] at ran
    split at ran
    · cases ran
    · rename_i u stored
      rcases mapPage_at walkable positive (by omega) (by omega) stored with ⟨absent, none⟩ | first
      · have := missing_pos absent n
        rw [none, List.length_nil] at enough
        omega
      · have balance := first.tables n (by omega)
        have later := ih first.grown.walkable (first.grown.same.2.1.trans active) (p := p + 1) (b := b + 1)
          (by omega) (by omega) (by omega)
          (by unfold pageSize at *; omega) (by unfold pageSize at *; omega) (by omega) ran
        refine ⟨grown_trans (grown_weaken first.grown ?_) (grown_weaken later.grown ?_), fun j small => ?_,
          fun i upper apart => ?_⟩
        · intro v same
          omega
        · intro v inside
          omega
        · rcases j with - | j
          · obtain ⟨index, number, -⟩ := page_index p
            rw [Nat.add_zero, Nat.add_zero, later.grown.walks _ (by omega) (by omega), first.page]
          · rw [Nat.add_comm j, ← Nat.add_assoc, ← Nat.add_assoc]
            exact later.pages j (by omega)
        · rw [later.entries i upper fun v above below => apart v (by omega) (by omega)]
          exact first.entries i upper (apart p (Nat.le_refl p) (by omega))

/-! ## Pages of the window -/

/-- The directory's own entries from `k` on are those of the frames from `b` on. -/
structure Overwritten (s t : Machine) (d k b n flags : Nat) : Prop where
  active : t.cr3 = s.cr3
  pages : ∀ j < n, entry t.pmm.mem d (k + j) = presentEntry ((b + j) * pageSize) flags % 2 ^ 32
  entries : ∀ i < 1024, ¬ (k ≤ i ∧ i < k + n) → entry t.pmm.mem d i = entry s.pmm.mem d i
  outside : ∀ lo hi, hi ≤ d ∨ d + pageSize ≤ lo → AgreeOn s.pmm.mem t.pmm.mem lo hi

theorem window_page (small : k < 1024) : pdIndex ((1023 * 1024 + k) * pageSize) = 1023 ∧
    ptIndex ((1023 * 1024 + k) * pageSize) = k := by
  unfold pdIndex ptIndex pageSize
  omega

theorem mapPage_window (self : Names (entry s.pmm.mem d 1023) d) (aligned : d % pageSize = 0) (nonnull : d ≠ 0)
    (small : k < 1024) (positive : 0 < b)
    (ran : vmmMapPageInDirectory s d (b * pageSize) ((1023 * 1024 + k) * pageSize) flags = .ok t) :
    t = s.store (setEntry s.pmm.mem d k (presentEntry (b * pageSize) flags)) := by
  obtain ⟨directory, table⟩ := window_page small
  have some : ¬ (b * pageSize = 0 ∨ (1023 * 1024 + k) * pageSize = 0) := by
    unfold pageSize
    omega
  have multiples : ¬ (b * pageSize % pageSize ≠ 0 ∨ (1023 * 1024 + k) * pageSize % pageSize ≠ 0) := by
    rw [Nat.mul_mod_left, Nat.mul_mod_left]
    omega
  unfold vmmMapPageInDirectory at ran
  rw [if_neg (by omega), if_neg some, if_neg multiples] at ran
  split at ran
  · cases ran
  · unfold setPage at ran
    rw [directory, if_pos self.1] at ran
    dsimp only at ran
    rw [self.2, if_neg nonnull, table] at ran
    split at ran
    · cases ran
    · cases ran
      rfl

/-- The rounds in the window. -/
theorem region_window (self : Names (entry s.pmm.mem d 1023) d) (active : s.cr3 = d) (aligned : d % pageSize = 0)
    (nonnull : d ≠ 0) (top : k + n ≤ 1023) (positive : 0 < b) (bound : b + n ≤ 2 ^ 20)
    (page : av + offset = (1023 * 1024 + k) * pageSize) (frame : ab + offset = b * pageSize)
    (ran : mapRegionFrom ab av flags n offset s = .ok t) : Overwritten s t d k b n flags := by
  induction n generalizing s k b offset with
  | zero =>
    cases ran
    exact ⟨rfl, nofun, fun _ _ _ => rfl, fun _ _ _ _ _ _ => rfl⟩
  | succ n ih =>
    rw [mapRegionFrom, wrap_page frame (by omega), wrap_page page (by omega), vmmMapPage, active] at ran
    split at ran
    · cases ran
    · rename_i u stored
      have same := mapPage_window self aligned nonnull (by omega) positive stored
      have others (i : Nat) (ne : k ≠ i) : entry u.pmm.mem d i = entry s.pmm.mem d i := by
        rw [same]
        exact entry_setEntry_ne ne
      have own : entry u.pmm.mem d k = presentEntry (b * pageSize) flags % 2 ^ 32 := by
        rw [same]
        exact entry_setEntry _ _ _ _
      have later := ih (s := u) (k := k + 1) (b := b + 1) (by rwa [others 1023 (by omega)])
        (by rw [same]; exact active) (by omega)
        (by omega) (by omega) (by unfold pageSize at *; omega) (by unfold pageSize at *; omega) ran
      refine ⟨later.active.trans (by rw [same]; rfl), fun j small => ?_, fun i upper apart => ?_,
        fun lo hi clear => ?_⟩
      · rcases j with - | j
        · rw [Nat.add_zero, Nat.add_zero, later.entries k (by omega) (by omega), own]
        · rw [Nat.add_comm j, ← Nat.add_assoc, ← Nat.add_assoc]
          exact later.pages j (by omega)
      · rw [later.entries i upper (by omega), others i (by omega)]
      · refine agreeOn_trans ?_ (later.outside lo hi clear)
        rw [same]
        exact setEntry_outside (by omega) clear

theorem overwritten_leaf (walkable : Walkable s d) (rewritten : Overwritten s t d k b n flags)
    (small : pdIndex w < 1023)
    (apart : ¬ (k ≤ pdIndex w ∧ pdIndex w < k + n)) : leaf t.pmm.mem d w = leaf s.pmm.mem d w := by
  have same := rewritten.entries (pdIndex w) (by omega) apart
  by_cases present : isPresent (entry s.pmm.mem d (pdIndex w)) = true
  · obtain ⟨taken, ne⟩ := walkable.tables _ ⟨_, small, present, rfl⟩
    have table := rewritten.outside _ _ (frames_apart (taken_aligned taken).1 (taken_aligned walkable.taken).1 ne)
    rw [leaf_present present, leaf_present (same ▸ present), same, entry_agree table (ptIndex_lt w)]
  · rw [leaf_absent present, leaf_absent (same ▸ present)]

/-- A page of the window has the directory's entry as its own. -/
theorem translate_window (self : Names (entry m d 1023) d) (window : pdIndex w = 1023 ∧ ptIndex w = k)
    (aligned : w % pageSize = 0) :
    translate m d w = if isPresent (entry m d k) then some (frameOf (entry m d k)) else none := by
  have own : leaf m d w = entry m d k := by
    unfold leaf
    rw [window.1, window.2, if_pos self.1, self.2]
  rw [translate_leaf, own, aligned, Nat.add_zero]

/-! ## The whole region -/

/-- The bytes of a page are in its frame. -/
theorem translate_offset (small : o < pageSize) (m : Mem) (d v : Nat) :
    translate m d (v * pageSize + o) = (translate m d (v * pageSize)).map (· + o) := by
  have directory : pdIndex (v * pageSize + o) = pdIndex (v * pageSize) := by
    unfold pdIndex pageSize at *
    omega
  have table : ptIndex (v * pageSize + o) = ptIndex (v * pageSize) := by
    unfold ptIndex pageSize at *
    omega
  have offset : (v * pageSize + o) % pageSize = o := by
    unfold pageSize at *
    omega
  have same : leaf m d (v * pageSize + o) = leaf m d (v * pageSize) := by
    unfold leaf
    rw [directory, table]
  rw [translate_leaf, translate_leaf, same, offset, Nat.mul_mod_left, Nat.add_zero]
  split
  · rw [Option.map_some]
  · rw [Option.map_none]

/-- How the pages of a region lie: `n` of them below the window, and then those
whose entries are the directory's from `k` on. -/
structure Split (virt size n k r : Nat) : Prop where
  count : n + r = alignedSize size / pageSize
  below : n = 0 ∨ virt / pageSize + n ≤ 1023 * 1024
  above : r = 0 ∨
    (virt / pageSize + n = 1023 * 1024 + k ∧ k + r ≤ 1023 ∧ (n = 0 ∨ (k = 0 ∧ r ≤ virt / pageSize / 1024)))

theorem alignedSize_pages (bound : virt + size ≤ 2 ^ 32 - pageSize) :
    alignedSize size = alignedSize size / pageSize * pageSize ∧
    alignedSize size / pageSize = (size + 4095) / 4096 := by
  unfold alignedSize frameOf pageSize at *
  omega

theorem region_split (bound : virt + size ≤ 2 ^ 32 - pageSize) (apart : EntriesApart virt size) :
    ∃ k r, Split virt size (pagesBelow virt size) k r := by
  obtain ⟨-, pages⟩ := alignedSize_pages bound
  refine ⟨virt / pageSize + pagesBelow virt size - 1023 * 1024,
    alignedSize size / pageSize - pagesBelow virt size, ?_, ?_, ?_⟩
  · unfold pagesBelow
    omega
  · unfold pagesBelow
    omega
  · unfold pagesBelow
    rw [pages]
    unfold EntriesApart directoryWindow pdIndex pageSize at *
    omega

/-- What the loop leaves of the pages of a region. -/
structure Filled (s t : Machine) (phys virt size : Nat) : Prop where
  active : t.cr3 = s.cr3
  pages : ∀ v, virt / pageSize ≤ v → v < virt / pageSize + alignedSize size / pageSize →
    translate t.pmm.mem s.cr3 (v * pageSize) = some ((phys / pageSize + (v - virt / pageSize)) * pageSize)
  rest : ∀ v, virt / pageSize + alignedSize size / pageSize ≤ v → v * pageSize < virt + size →
    translate t.pmm.mem s.cr3 (v * pageSize) = translate s.pmm.mem s.cr3 (v * pageSize)

theorem window_indices (window : 1023 * 1024 ≤ w) (top : w < 2 ^ 20) :
    pdIndex (w * pageSize) = 1023 ∧ ptIndex (w * pageSize) = w - 1023 * 1024 := by
  unfold pdIndex ptIndex pageSize
  omega

theorem page_reached (last : virt + size ≤ 2 ^ 32 - pageSize)
    (inside : v < virt / pageSize + alignedSize size / pageSize) : v * pageSize < virt + size := by
  rw [(alignedSize_pages last).2] at inside
  unfold pageSize at *
  omega

theorem reached_below (last : virt + size ≤ 2 ^ 32 - pageSize) (inside : v * pageSize < virt + size) :
    v < 2 ^ 20 - 1 := by
  unfold pageSize at *
  omega

theorem filled_of_split (split : Split virt size n k f) (below : PagesAt s u s.cr3 (virt / pageSize)
    (phys / pageSize) n) (rewritten : Overwritten u t s.cr3 k (phys / pageSize + n) f flags)
    (bound : phys / pageSize + alignedSize size / pageSize ≤ 2 ^ 20) (last : virt + size ≤ 2 ^ 32 - pageSize)
    (apart : EntriesApart virt size)
    (self : directoryWindow < virt + size → Names (entry s.pmm.mem s.cr3 1023) s.cr3) :
    Filled s t phys virt size := by
  obtain ⟨count, low, high⟩ := split
  have kept : entry t.pmm.mem s.cr3 1023 = entry s.pmm.mem s.cr3 1023 := by
    rw [rewritten.entries 1023 (by omega) (by omega)]
    exact below.entries 1023 (by omega) (by omega)
  have window {v : Nat} (above : 1023 * 1024 ≤ v) (inside : v * pageSize < virt + size) :
      directoryWindow < virt + size := by
    unfold directoryWindow pageSize at *
    omega
  refine ⟨rewritten.active.trans below.grown.same.2.1, fun v first inside => ?_, fun v beyond inside => ?_⟩
  · obtain ⟨index, number, aligned⟩ := page_index v
    by_cases under : v < virt / pageSize + n
    · have leaves := overwritten_leaf below.grown.walkable rewritten (w := v * pageSize) (by omega) (by omega)
      have page := below.pages (v - virt / pageSize) (by omega)
      rw [Nat.add_sub_cancel' first] at page
      rw [translate_of_leaf leaves, page]
    · have stored := rewritten.pages (v - (virt / pageSize + n)) (by omega)
      have names := names_present (b := phys / pageSize + n + (v - (virt / pageSize + n))) (by omega) flags
      have index : k + (v - (virt / pageSize + n)) = v - 1023 * 1024 := by omega
      have frame : phys / pageSize + n + (v - (virt / pageSize + n)) =
          phys / pageSize + (v - virt / pageSize) := by omega
      rw [index] at stored
      rw [translate_window (kept.symm ▸ self (window (by omega) (page_reached last inside)))
        (window_indices (by omega) (by omega)) aligned, stored, if_pos names.1, names.2, frame]
  · obtain ⟨index, number, aligned⟩ := page_index v
    have top := reached_below last inside
    by_cases under : v < 1023 * 1024
    · have leaves := overwritten_leaf below.grown.walkable rewritten (w := v * pageSize) (by omega) (by omega)
      rw [translate_of_leaf leaves, below.grown.walks _ (by omega) (by omega)]
    · have names := self (window (by omega) inside)
      have indices := window_indices (w := v) (by omega) (by omega)
      have first : n = 0 ∨ v - 1023 * 1024 < virt / pageSize / 1024 := by
        unfold EntriesApart directoryWindow pdIndex pageSize at *
        omega
      have same : entry t.pmm.mem s.cr3 (v - 1023 * 1024) = entry s.pmm.mem s.cr3 (v - 1023 * 1024) := by
        rw [rewritten.entries _ (by omega) (by omega)]
        exact below.entries _ (by omega) fun q above low => by omega
      rw [translate_window (kept.symm ▸ names) indices aligned, translate_window names indices aligned, same]

theorem region_filled (walkable : Walkable s s.cr3) (nonnull : pageSize ≤ phys ∧ pageSize ≤ virt)
    (bound : phys + size ≤ 2 ^ 32 - pageSize ∧ virt + size ≤ 2 ^ 32 - pageSize)
    (self : directoryWindow < virt + size → Names (entry s.pmm.mem s.cr3 1023) s.cr3) (apart : EntriesApart virt size)
    (enough : missing s.pmm.mem s.cr3 (virt / pageSize) (pagesBelow virt size) ≤ (freeBlocks s.pmm).length)
    (ran : vmmMapRegion s phys virt size flags = .ok t) : Filled s t phys virt size := by
  obtain ⟨alignedD, highD⟩ := taken_aligned walkable.taken
  obtain ⟨k, f, split⟩ := region_split bound.2 apart
  have pages := (alignedSize_pages bound.1).2
  have frames : phys / pageSize + alignedSize size / pageSize ≤ 2 ^ 20 := by
    unfold pageSize at *
    omega
  have positive : 0 < virt / pageSize ∧ 0 < phys / pageSize := by
    unfold pageSize at *
    omega
  have start (a : Nat) : frameOf a + 0 = a / pageSize * pageSize := Nat.add_zero (frameOf a)
  unfold vmmMapRegion at ran
  rw [← split.count] at ran
  obtain ⟨u, lower, upper⟩ := mapRegionFrom_append ran
  have below : PagesAt s u s.cr3 (virt / pageSize) (phys / pageSize) (pagesBelow virt size) := by
    rcases Nat.eq_zero_or_pos (pagesBelow virt size) with none | some
    · rw [none] at lower ⊢
      cases lower
      exact ⟨grown_refl walkable, nofun, fun _ _ _ => rfl⟩
    · have top := split.below.resolve_left (Nat.pos_iff_ne_zero.mp some)
      have := split.count
      exact region_below walkable rfl positive top (by omega) (start virt) (start phys) enough lower
  have rewritten : Overwritten u t s.cr3 k (phys / pageSize + pagesBelow virt size) f flags := by
    rcases Nat.eq_zero_or_pos f with none | some
    · rw [none] at upper ⊢
      cases upper
      exact ⟨rfl, nofun, fun _ _ _ => rfl, fun _ _ _ _ _ _ => rfl⟩
    · obtain ⟨first, top, -⟩ := split.above.resolve_left (Nat.pos_iff_ne_zero.mp some)
      have reached : directoryWindow < virt + size := by
        have := page_reached (v := 1023 * 1024 + k) bound.2 (by have := split.count; omega)
        unfold directoryWindow pageSize at *
        omega
      refine region_window ?_ below.grown.same.2.1 alignedD (by omega) top (by omega)
        (by have := split.count; omega) ?_ ?_ upper
      · rw [below.entries 1023 (by omega) fun v above low => by have := split.below; omega]
        exact self reached
      · rw [← first, Nat.add_mul, ← start virt, Nat.zero_add, Nat.add_zero]
      · rw [Nat.add_mul, ← start phys, Nat.zero_add, Nat.add_zero]
  exact filled_of_split split below rewritten frames bound.2 apart self

end

/-! ## Which regions are covered -/

section
variable {s t : Machine} {phys virt size flags : Nat}

/-- A byte has its translation if its page has. -/
theorem byte_translates (congruent : phys % pageSize = virt % pageSize) (m : Mem) (d i : Nat) :
    translate m d (virt + i) = some (phys + i) ↔ translate m d ((virt + i) / pageSize * pageSize) =
      some ((phys / pageSize + ((virt + i) / pageSize - virt / pageSize)) * pageSize) := by
  have small : (virt + i) % pageSize < pageSize := Nat.mod_lt _ (by decide)
  have byte : phys + i = (phys / pageSize + ((virt + i) / pageSize - virt / pageSize)) * pageSize +
      (virt + i) % pageSize := by
    unfold pageSize at *
    omega
  have walk := translate_offset small m d ((virt + i) / pageSize)
  rw [Nat.div_add_mod'] at walk
  rw [walk, byte]
  cases translate m d ((virt + i) / pageSize * pageSize) with
  | none => simp
  | some frame => rw [Option.map_some, Option.some.injEq, Option.some.injEq, Nat.add_right_cancel_iff]

end

/-- The call for one page returns where the directory has the table. -/
theorem mapRegion_page {s : Machine} {t0 t1 : Nat} (phys virt size flags : Nat) (spaces : Spaces s t0 t1)
    (pages : alignedSize size / pageSize = 1) (positive : 0 < phys / pageSize ∧ 0 < virt / pageSize)
    (bound : phys < 2 ^ 32 ∧ virt < directoryWindow)
    (present : isPresent (entry s.pmm.mem s.cr3 (pdIndex (virt / pageSize * pageSize))) = true) :
    ∃ t, vmmMapRegion s phys virt size flags = .ok t := by
  have small : pdIndex (virt / pageSize * pageSize) < 1023 := by
    unfold pdIndex directoryWindow pageSize at *
    omega
  have nonnull : virt / pageSize * pageSize ≠ 0 := by
    unfold pageSize at *
    omega
  unfold vmmMapRegion
  rw [pages, mapRegionFrom, wrap_page (b := phys / pageSize) (Nat.add_zero (frameOf phys)) (by unfold pageSize; omega),
    wrap_page (b := virt / pageSize) (Nat.add_zero (frameOf virt))
      (by unfold directoryWindow pageSize at *; omega), vmmMapPage,
    mapRequest spaces spaces.active (Nat.mul_mod_left _ _) nonnull positive.1, if_pos present,
    setPage_stores spaces spaces.active small present]
  exact ⟨_, rfl⟩

theorem missing_page {m : Mem} {d p : Nat} (top : p < 1023 * 1024) (present : isPresent (entry m d (p / 1024)) = true) :
    missing m d p 1 = 0 := by
  rw [missing_succ_present (r := m) (n := 0) top present fun _ _ => Iff.rfl]
  rfl

end MeowMeowOS.MappedRegions

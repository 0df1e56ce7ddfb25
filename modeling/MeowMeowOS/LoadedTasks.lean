import MeowMeowOS.LoadedImage
import MeowMeowOS.OwnedPages

/-! A task that has just been loaded: from 8 MiB on each of its pages has a
frame of its own. -/
namespace MeowMeowOS.LoadedTasks
open ByteMemory PhysicalFrames VirtualMemory FreeFrames AddressSpaces DirectoryLayout MappedPages ElfLoading LoadedImage
open PageEntries HeapGrowth OwnedPages

/-- The segment lies in user space. -/
structure InUserSpace (ph : Elf32Phdr) : Prop where
  low : userVirtMin ≤ ph.pVaddr
  high : ph.pVaddr + ph.pMemsz ≤ kernelVirtStart

section
variable {s t : Machine} {file : List UInt8} {ph : Elf32Phdr} {d b v w p remaining : Nat} {beyond : Mem}
  {granted : Bool}
  {argv : List (List UInt8)} {unset : Nat → Nat} {r : Loaded}

/-- What is read stays on the page. -/
theorem readPage_stays (ran : readPage s phys ph file virt = .ok t) :
    ∃ m, t = s.store m ∧ ∀ lo hi, hi ≤ phys ∨ phys + pageSize ≤ lo → AgreeOn s.pmm.mem m lo hi := by
  unfold readPage at ran
  dsimp only at ran
  generalize (if virt < ph.pVaddr then ph.pVaddr - virt else 0) = dest at ran
  generalize (if virt < ph.pVaddr then 0 else virt - ph.pVaddr) = seg at ran
  generalize (if seg < ph.pFilesz then min (ph.pFilesz - seg) ((pageSize + 2 ^ 32 - dest) % 2 ^ 32) else 0) = len at ran
  split at ran
  · cases ran
    exact ⟨s.pmm.mem, rfl, fun _ _ _ _ _ _ => rfl⟩
  · split at ran
    · cases ran
    · split at ran
      · cases ran
      · cases ran
        refine ⟨_, rfl, fun lo hi apart => memcpy_outside ?_⟩
        have bound : (vfsRead file ((ph.pOffset + seg) % 2 ^ 32) len).length ≤ len := List.length_take_le _ _
        omega

theorem loadPage_owned (owned : Owned s d) (positive : 0 < v) (top : v < 0xFFC00)
    (place : (startPage ph + p * pageSize) % 2 ^ 32 = v * pageSize) (ran : loadPage s d ph file p = .ok t) :
    Owned t d ∧ Kept s.pmm.mem t.pmm.mem d (· = v) := by
  have walkable := owned.walkable
  unfold loadPage at ran
  rcases pmmAllocBlock_pops walkable.below with ⟨-, failed⟩ | ⟨b, rest, shape, handed, -⟩
  · rw [failed] at ran
    dsimp only at ran
    rw [if_pos rfl] at ran
    cases ran
  · have high := (freeBlocks_high walkable.below (show b ∈ freeBlocks s.pmm by simp [shape])).1
    have nonzero : ¬ b * pageSize = 0 := by
      unfold pageSize
      omega
    obtain ⟨prepared, kept⟩ := cleared_prepared (fun _ => False) walkable shape
    rw [handed, place] at ran
    dsimp only at ran
    rw [if_neg nonzero] at ran
    split at ran
    · cases ran
    · split at ran
      · cases ran
      · rename_i mapped ranMap
        obtain ⟨ownedU, keptU, taken, apart⟩ := owned_map owned prepared kept positive top ranMap
        obtain ⟨m, rfl, outside⟩ := readPage_stays ran
        obtain ⟨ownedT, keptT⟩ := owned_store ownedU high apart outside
        exact ⟨ownedT, kept_trans keptU (kept_weaken keptT fun _ => False.elim)⟩

theorem loadPages_owned (owned : Owned s d) (user : InUserSpace ph)
    (within : p + remaining ≤ (ph.pVaddr + ph.pMemsz + 0xFFF) / pageSize - ph.pVaddr / pageSize)
    (ran : loadPages d ph file remaining p s = .ok t) : Owned t d ∧ Kept s.pmm.mem t.pmm.mem d (Touches ph) := by
  obtain ⟨low, high⟩ := user
  induction remaining generalizing p s with
  | zero =>
    cases ran
    exact ⟨owned, kept_refl _ _ _⟩
  | succ remaining ih =>
    unfold loadPages at ran
    split at ran
    · cases ran
    · rename_i u ranPage
      have place : (startPage ph + p * pageSize) % 2 ^ 32 = (ph.pVaddr / pageSize + p) * pageSize := by
        unfold startPage frameOf kernelVirtStart pageSize at *
        omega
      have bounds : 0 < ph.pVaddr / pageSize + p ∧ ph.pVaddr / pageSize + p < 0xFFC00 := by
        unfold kernelVirtStart userVirtMin pageSize at *
        omega
      obtain ⟨ownedU, keptU⟩ := loadPage_owned owned bounds.1 bounds.2 place ranPage
      obtain ⟨ownedT, keptT⟩ := ih ownedU (by omega) ran
      refine ⟨ownedT, kept_trans (kept_weaken keptU fun v same => ?_) keptT⟩
      unfold Touches
      omega

theorem pageCount_user (user : InUserSpace ph) :
    pageCount ph = (ph.pVaddr + ph.pMemsz + 0xFFF) / pageSize - ph.pVaddr / pageSize := by
  obtain ⟨low, high⟩ := user
  unfold kernelVirtStart at high
  unfold pageCount endPage startPage frameOf pageSize
  omega

theorem loads_cons {others : List Elf32Phdr} (user : ∀ other ∈ loads (ph :: others), InUserSpace other) :
    (ph.pType = ptLoad → InUserSpace ph) ∧ ∀ other ∈ loads others, InUserSpace other := by
  constructor
  · exact fun load => user ph (List.mem_filter.mpr ⟨List.mem_cons_self, by simpa using load⟩)
  · intro other member
    obtain ⟨member, load⟩ := List.mem_filter.mp member
    exact user other (List.mem_filter.mpr ⟨List.mem_cons_of_mem _ member, load⟩)

theorem loadSegments_exhausted (phdrs : List Elf32Phdr) (exhausted : Exhausted s)
    (ran : loadSegments d file phdrs s = .ok t) : Exhausted t := by
  induction phdrs generalizing s with
  | nil =>
    cases ran
    exact exhausted
  | cons ph others ih =>
    unfold loadSegments loadSegment at ran
    split at ran
    · cases ran
    · rename_i u ranSegment
      split at ranSegment
      · exact ih (loadPages_exhausted exhausted ranSegment) ran
      · cases ranSegment
        exact ih exhausted ran

theorem loadSegment_owned (owned : Owned s d) (user : ph.pType = ptLoad → InUserSpace ph)
    (ran : loadSegment s d ph file = .ok t) :
    Owned t d ∧ Kept s.pmm.mem t.pmm.mem d fun v => ph.pType = ptLoad ∧ Touches ph v := by
  unfold loadSegment at ran
  split at ran
  · rename_i load
    have count := pageCount_user (user load)
    obtain ⟨ownedT, kept⟩ := loadPages_owned owned (user load) (by omega) ran
    exact ⟨ownedT, kept_weaken kept fun v touched => ⟨load, touched⟩⟩
  · cases ran
    exact ⟨owned, kept_refl _ _ _⟩

theorem loadSegments_owned (phdrs : List Elf32Phdr) (user : ∀ ph ∈ loads phdrs, InUserSpace ph) (owned : Owned s d)
    (ran : loadSegments d file phdrs s = .ok t) :
    Owned t d ∧ Kept s.pmm.mem t.pmm.mem d fun v => ∃ ph ∈ loads phdrs, Touches ph v := by
  induction phdrs generalizing s with
  | nil =>
    cases ran
    exact ⟨owned, kept_refl _ _ _⟩
  | cons ph others ih =>
    unfold loadSegments at ran
    split at ran
    · cases ran
    · rename_i u ranSegment
      obtain ⟨own, rest⟩ := loads_cons user
      obtain ⟨ownedU, keptU⟩ := loadSegment_owned owned own ranSegment
      obtain ⟨ownedT, keptT⟩ := ih rest ownedU ran
      refine ⟨ownedT, kept_trans (kept_weaken keptU ?_) (kept_weaken keptT ?_)⟩
      · rintro v ⟨load, touched⟩
        exact ⟨ph, List.mem_filter.mpr ⟨List.mem_cons_self, by simpa using load⟩, touched⟩
      · rintro v ⟨other, member, touched⟩
        obtain ⟨member, load⟩ := List.mem_filter.mp member
        exact ⟨other, List.mem_filter.mpr ⟨List.mem_cons_of_mem _ member, load⟩, touched⟩

theorem addPage_owned (owned : Owned s d) (positive : 0 < v) (top : v < 0xFFC00)
    (ran : addPage s d (v * pageSize) = .ok (phys, t)) :
    Owned t d ∧ Kept s.pmm.mem t.pmm.mem d (· = v) ∧ ∃ b, phys = b * pageSize ∧ 0x300 ≤ b ∧
      Taken t.pmm phys ∧ phys ≠ d ∧ ¬ IsTable t.pmm.mem d phys := by
  have walkable := owned.walkable
  unfold addPage at ran
  rcases pmmAllocBlock_pops walkable.below with ⟨-, failed⟩ | ⟨b, rest, shape, handed, -⟩
  · rw [failed] at ran
    dsimp only at ran
    rw [if_pos rfl] at ran
    cases ran
  · have free : b ∈ freeBlocks s.pmm := by simp [shape]
    have high := (freeBlocks_high walkable.below free).1
    have nonzero : ¬ b * pageSize = 0 := by
      unfold pageSize
      omega
    rw [handed] at ran
    dsimp only at ran
    rw [if_neg nonzero] at ran
    split at ran
    · cases ran
    · rename_i mapped ranMap
      split at ran
      · cases ran
      · cases ran
        obtain ⟨ownedU, keptU, taken, apart⟩ :=
          owned_map owned (prepared_taken walkable shape) (kept_taken walkable free) positive top ranMap
        have outside (lo hi : Nat) (clear : hi ≤ b * pageSize ∨ b * pageSize + pageSize ≤ lo) :
            AgreeOn mapped.pmm.mem (memset mapped.pmm.mem (b * pageSize) 0 pageSize) lo hi := memset_outside clear
        obtain ⟨ownedT, keptT⟩ := owned_store ownedU high apart outside
        refine ⟨ownedT, kept_trans keptU (kept_weaken keptT fun _ => False.elim), b, rfl, high, ?_⟩
        exact ⟨stored_taken ownedU.walkable taken high outside, stored_plain ownedU.walkable apart outside⟩

theorem loadStack_exhausted (exhausted : Exhausted s) : loadStack s d argv unset ≠ .ok t := by
  intro ran
  unfold loadStack at ran
  rw [addPage_exhausted exhausted] at ran
  cases ran

/-- The page of the stack or the TLS page. -/
def StackPage (v : Nat) : Prop := v * pageSize = userStackPage ∨ v * pageSize = userTlsPage

theorem loadStack_owned (owned : Owned s d) (ran : loadStack s d argv unset = .ok t) :
    Owned t d ∧ Kept s.pmm.mem t.pmm.mem d StackPage := by
  unfold loadStack at ran
  split at ran
  · cases ran
  · rename_i stackPhys first ranStack
    split at ran
    · cases ran
    · rename_i tlsPhys second ranTls
      split at ran
      · cases ran
      · cases ran
        obtain ⟨ownedStack, keptStack, b, rfl, high, taken, ne, plain⟩ :=
          addPage_owned (v := 0xBFFFF) owned (by decide) (by decide) ranStack
        obtain ⟨ownedTls, keptTls, -⟩ := addPage_owned (v := 0xBFFFE) ownedStack (by decide) (by decide) ranTls
        obtain ⟨-, -, -, -, grown, -⟩ :=
          addPage_grown ownedStack.walkable (by decide) (by decide) (by decide) ranTls
        have later : ¬ IsTable second.pmm.mem d (b * pageSize) := fun table =>
          (grown.tables _ table).elim plain fun absent => absent (taken_occupied taken)
        obtain ⟨ownedT, keptT⟩ := owned_store ownedTls high ⟨ne, later⟩ fun lo hi clear =>
          placeArguments_outside second.pmm.mem (b * pageSize) argv unset clear
        have stack : Kept s.pmm.mem first.pmm.mem d StackPage := kept_weaken keptStack fun v same => .inl (same ▸ rfl)
        have tls : Kept first.pmm.mem second.pmm.mem d StackPage :=
          kept_weaken keptTls fun v same => .inr (same ▸ rfl)
        exact ⟨ownedT, kept_trans stack (kept_trans tls (kept_weaken keptT fun _ => False.elim))⟩

/-- The new directory has the kernel's pages. -/
theorem copied_leaf (walkable : Walkable s s.kernelDirectory) (copied : Copied s t d) (small : pdIndex w < 1023) :
    leaf t.pmm.mem d w = leaf s.pmm.mem s.kernelDirectory w := by
  unfold leaf
  rw [copied.entries _ small]
  by_cases present : isPresent (entry s.pmm.mem s.kernelDirectory (pdIndex w)) = true
  · have held := (walkable.tables _ ⟨_, small, present, rfl⟩).1
    rw [if_pos present, if_pos present, entry_agree (copied.memory _ held) (ptIndex_lt w)]
  · rw [if_neg present, if_neg present]

theorem copied_owned (owned : Owned s s.kernelDirectory) (copied : Copied s t d) : Owned t d := by
  have same (w : Nat) (small : pdIndex w < 1023) := copied_leaf owned.walkable copied small
  refine ⟨copied.walkable, fun w beyond present => ?_, fun w v beyondW beyondV => ?_⟩
  · rw [same w beyond.2] at present ⊢
    obtain ⟨occupied, -, plain⟩ := owned.occupied w beyond present
    refine ⟨occupied_mono copied.frames copied.bits occupied, fun equal => copied.fresh (equal ▸ occupied),
      fun table => plain ?_⟩
    obtain ⟨i, small, found⟩ := table
    rw [copied.entries i small] at found
    exact ⟨i, small, found⟩
  · rw [same w beyondW.2, same v beyondV.2]
    exact owned.apart w v beyondW beyondV

/-- The stages of a call that loads its program. -/
structure Stages (s : Machine) (file : List UInt8) (beyond : Mem) (argv : List (List UInt8)) (unset : Nat → Nat)
    (r : Loaded) (next filled : Machine) : Prop where
  created : vmmCreateDirectory s = .ok (r.directory, next)
  segments : loadSegments r.directory file (programHeaders file beyond) next = .ok filled
  stack : loadStack filled r.directory argv unset = .ok r.machine
  highest : r.maxVaddr = maxVaddrOf (programHeaders file beyond)

theorem elfLoad_stages (ran : elfLoad s file granted beyond argv unset = .ok r) :
    ∃ next filled, Stages s file beyond argv unset r next filled := by
  unfold elfLoad at ran
  dsimp only at ran
  split at ran
  · cases ran
  · split at ran
    · cases ran
    · cases created : vmmCreateDirectory s with
      | error frame =>
        rw [created] at ran
        cases ran
      | ok made =>
        obtain ⟨directory, next⟩ := made
        rw [created] at ran
        dsimp only [ofFault] at ran
        split at ran
        · cases ran
        · rename_i filled ranSegments
          split at ran
          · cases ran
          · rename_i done ranStack
            cases ran
            exact ⟨next, filled, created, ranSegments, ranStack, rfl⟩

/-- What the loader hands to the new task. Its directory has the kernel's entries,
and new pages only for the segments and the stack. -/
structure Prepares (s : Machine) (phdrs : List Elf32Phdr) (r : Loaded) : Prop where
  owned : Owned r.machine r.directory
  entries : ∀ i < 1023, isPresent (entry s.pmm.mem s.kernelDirectory i) = true →
    entry r.machine.pmm.mem r.directory i = entry s.pmm.mem s.kernelDirectory i
  pages : ∀ w, pdIndex w < 1023 → (∀ ph ∈ loads phdrs, ¬ Touches ph (w / pageSize)) →
    ¬ StackPage (w / pageSize) →
    leaf r.machine.pmm.mem r.directory w = leaf s.pmm.mem s.kernelDirectory w

theorem elfLoad_owned (owned : Owned s s.kernelDirectory) (user : ∀ ph ∈ loads (programHeaders file beyond),
    InUserSpace ph) (ran : elfLoad s file granted beyond argv unset = .ok r) :
    Prepares s (programHeaders file beyond) r := by
  obtain ⟨next, filled, stages⟩ := elfLoad_stages ran
  rcases createDirectory_copied owned.walkable stages.created with ⟨free, below⟩ | copied
  · exact (loadStack_exhausted (loadSegments_exhausted _ ⟨below, free⟩ stages.segments) stages.stack).elim
  · obtain ⟨ownedFilled, keptFilled⟩ := loadSegments_owned _ user (copied_owned owned copied) stages.segments
    obtain ⟨ownedT, keptT⟩ := loadStack_owned ownedFilled stages.stack
    refine ⟨ownedT, fun i small present => ?_, fun w small untouched other => ?_⟩
    · have same := copied.entries i small
      rw [← same] at present ⊢
      rw [keptT.old i small ((keptFilled.old i small present).symm ▸ present), keptFilled.old i small present]
    · have apart : ¬ ∃ ph ∈ loads (programHeaders file beyond), Touches ph (w / pageSize) :=
        fun ⟨ph, member, touched⟩ => untouched ph member touched
      rw [keptT.leaves w small other, keptFilled.leaves w small apart, copied_leaf owned.walkable copied small]

end

end MeowMeowOS.LoadedTasks

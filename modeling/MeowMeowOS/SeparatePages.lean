import MeowMeowOS.LoadedFiles
import MeowMeowOS.LoadedTasks
import MeowMeowOS.MappedRegions
import MeowMeowOS.SbrkCalls

/-! A task that asks for memory and returns it, from the moment it is loaded: no
call maps a page that is mapped already, as long as none asks for a page that
the loader or an earlier call has given out and that was not given back. -/
namespace MeowMeowOS.SeparatePages
open ByteMemory PhysicalFrames VirtualMemory BootFrames FreeFrames AddressSpaces DirectoryLayout MappedPages ElfLoading
open LoadedImage LoadRoom BootDirectories TaskMemory PageEntries HeapGrowth SbrkCalls OwnedPages LoadedTasks
open MappedRegions (mapRegionFrom alignedSize vmmMapRegion)
open PageMapping (mapPage_ok)
open LoadedFiles (smallFile firstSegment secondSegment smallFile_ready smallFile_fits)
open HeapFrames (ram128)

inductive Call where
  | sbrk (ebx : Nat)
  | allocPage
  | freePage (virt : Nat)

/-- The pages that the loop of `SYS_SBRK` goes over. -/
def loopPages (task : Task) (ebx : Nat) : List Nat :=
  let oldBreak := (withBreak task).heapBreak
  let newBreak := (oldBreak + ebx) % 2 ^ 32
  if ebx = 0 ∨ 2 ^ 31 ≤ ebx ∨ sbrkLimit ≤ newBreak ∨ newBreak < oldBreak then []
  else List.range' (pageAbove oldBreak) (addedPages oldBreak newBreak)

/-- A task with the pages that are in its hands. -/
structure Situation where
  machine : Machine
  task : Task
  held : Nat → Prop

def perform (x : Situation) : Call → Except Nat Situation
  | .sbrk ebx =>
    match sysSbrk x.machine x.task ebx with
    | .error frame => .error frame
    | .ok (_, s, task) => .ok ⟨s, task, fun v => x.held v ∨ v ∈ loopPages x.task ebx⟩
  | .allocPage =>
    match sysAllocPage x.machine x.task with
    | .error frame => .error frame
    | .ok (eax, s, task) => .ok ⟨s, task, fun v => x.held v ∨ (eax ≠ 0 ∧ v = eax / pageSize)⟩
  | .freePage virt =>
    match sysFreePage x.machine x.task virt with
    | .error frame => .error frame
    | .ok (eax, s) => .ok ⟨s, x.task, fun v => x.held v ∧ ¬ (eax = 0 ∧ v = virt / pageSize)⟩

/-- The call asks for no page that is in the task's hands, and gives back none of
the pages below 8 MiB, which are the kernel's. -/
def Allowed (x : Situation) : Call → Prop
  | .sbrk ebx => ∀ v ∈ loopPages x.task ebx, ¬ x.held v
  | .allocPage => x.task.nextUserVaddr < userStackTop → ¬ x.held (x.task.nextUserVaddr / pageSize)
  | .freePage virt => userVirtMin ≤ virt → 0x800000 ≤ virt

/-- Each time the loop maps a page, the page is not mapped. -/
def LoopFresh (directory : Nat) : Nat → Nat → Machine → Prop
  | 0, _, _ => True
  | n + 1, page, s =>
    let (physBlock, pmm) := pmmAllocBlock s.pmm
    let s := { s with pmm := pmm }
    if physBlock = 0 ∨ ¬ Identity s physBlock then True
    else
      let s := s.store (memset s.pmm.mem physBlock 0 pageSize)
      translate s.pmm.mem directory page = none ∧
        match vmmMapPageInDirectory s directory physBlock page userPage with
        | .error _ => True
        | .ok s => LoopFresh directory n (page + pageSize) s

/-- Each page that the call maps is not mapped at that moment. -/
def MapsFresh (s : Machine) (task : Task) : Call → Prop
  | .sbrk ebx => LoopFresh task.pageDirectory (loopPages task ebx).length (pageUp (withBreak task).heapBreak) s
  | .allocPage =>
    let (phys, pmm) := pmmAllocBlock s.pmm
    phys = 0 ∨ task.nextUserVaddr < userVirtMin ∨ userStackTop ≤ task.nextUserVaddr ∨
      translate pmm.mem task.pageDirectory task.nextUserVaddr = none
  | .freePage _ => True

/-- The address is on the page that the call gives back. -/
def Returns (w : Nat) : Call → Prop
  | .freePage virt => w / pageSize = virt / pageSize
  | _ => False

/-- The call maps over no page, and no page that stays loses its frame. -/
structure Separate (x : Situation) (call : Call) : Prop where
  fresh : MapsFresh x.machine x.task call
  kept : ∀ y, perform x call = .ok y → ∀ w f, pdIndex w < 1023 → ¬ Returns w call →
    translate x.machine.pmm.mem x.task.pageDirectory w = some f →
    translate y.machine.pmm.mem y.task.pageDirectory w = some f

/-- The task that `elf_load_and_spawn` leaves, once it runs. -/
def started (r : Loaded) : Situation where
  machine := { r.machine with cr3 := r.directory }
  task := ⟨r.directory, 0x10000000, r.maxVaddr, r.maxVaddr⟩
  held := fun v => translate r.machine.pmm.mem r.directory (v * pageSize) ≠ none

/-- Calls that are all allowed lead there. -/
inductive Reached (start : Situation) : Situation → Prop where
  | start : Reached start start
  | step {x y : Situation} {call : Call} : Reached start x → Allowed x call → perform x call = .ok y →
      Reached start y

/-- Where `next_user_vaddr` can be. -/
def Cursor (virt : Nat) : Prop := virt % pageSize = 0 ∧ 0x10000000 ≤ virt ∧ virt ≤ userStackTop

/-- What the calls keep. -/
structure Sorted (x : Situation) : Prop where
  owned : Owned x.machine x.task.pageDirectory
  cursor : Cursor x.task.nextUserVaddr
  held : ∀ v < 0xFFC00, translate x.machine.pmm.mem x.task.pageDirectory (v * pageSize) ≠ none → x.held v

section
variable {s t : Machine} {task after : Task} {x y : Situation} {call : Call} {d n p ebx eax virt : Nat}

theorem translate_none : translate m d virt = none ↔ ¬ isPresent (leaf m d virt) = true := by
  rw [translate_leaf]
  split
  · simp [*]
  · simp [*]

theorem translate_kept (same : leaf m' d virt = leaf m d virt) : translate m' d virt = translate m d virt := by
  rw [translate_leaf, translate_leaf, same]

theorem translate_some_page (mapped : translate m d virt = some f) :
    translate m d (virt / pageSize * pageSize) ≠ none := by
  intro unmapped
  have page : leaf m d (virt / pageSize * pageSize) = leaf m d virt :=
    leaf_page m d (Nat.mul_div_cancel _ (by decide))
  rw [translate_none, page] at unmapped
  rw [translate_none.mpr unmapped] at mapped
  cases mapped

/-! ## SYS_SBRK -/

theorem loop_separate (owned : Owned s d) (positive : 0 < p) (top : p + n ≤ 0xFFC00)
    (unmapped : ∀ v, p ≤ v → v < p + n → translate s.pmm.mem d (v * pageSize) = none) :
    LoopFresh d n (p * pageSize) s ∧ ∀ failed t, sbrkPages d n (p * pageSize) s = .ok (failed, t) →
    Owned t d := by
  induction n generalizing s p with
  | zero =>
    refine ⟨trivial, fun failed t ran => ?_⟩
    cases ran
    exact owned
  | succ n ih =>
    have walkable := owned.walkable
    cases shape : freeBlocks s.pmm with
    | nil =>
      refine ⟨?_, fun failed t ran => ?_⟩
      · rw [LoopFresh, alloc_none walkable shape]
        exact (if_pos (.inl rfl)).mpr trivial
      · rw [sbrkPages_none walkable shape] at ran
        cases ran
        exact owned
    | cons b rest =>
      obtain ⟨handed, nonzero⟩ := alloc_first walkable shape
      by_cases reached : Identity { s with pmm := bitmapSet s.pmm b } (b * pageSize)
      · obtain ⟨prepared, kept⟩ := cleared_prepared (fun _ => False) walkable shape
        obtain ⟨index, number, -⟩ := page_index p
        have fresh : translate (cleared s b).pmm.mem d (p * pageSize) = none :=
          (translate_kept (kept.leaves _ (by omega) id)).trans (unmapped p (Nat.le_refl p) (by omega))
        have later (u : Machine)
          (mapped : vmmMapPageInDirectory (cleared s b) d (b * pageSize) (p * pageSize) userPage = .ok u) :
            LoopFresh d n ((p + 1) * pageSize) u ∧
              ∀ failed t, sbrkPages d n ((p + 1) * pageSize) u = .ok (failed, t) → Owned t d := by
          obtain ⟨ownedU, keptU, -⟩ := owned_map owned prepared kept positive (by omega) mapped
          refine ih ownedU (Nat.succ_pos p) (by omega) fun v lower upper => ?_
          obtain ⟨indexV, numberV, -⟩ := page_index v
          exact (translate_kept (keptU.leaves _ (by omega) (by omega))).trans (unmapped v (by omega) (by omega))
        rw [Nat.succ_mul] at later
        refine ⟨?_, fun failed t ran => ?_⟩
        · rw [LoopFresh, handed]
          refine (if_neg ?_).mpr ⟨fresh, ?_⟩
          · exact not_or.mpr ⟨nonzero, not_not.mpr reached⟩
          · split
            · trivial
            · rename_i u mapped
              exact (later u mapped).1
        · rw [sbrkPages_succ walkable shape _ reached] at ran
          split at ran
          · cases ran
          · rename_i u mapped
            exact (later u mapped).2 failed t ran
      · refine ⟨?_, fun failed t ran => ?_⟩
        · rw [LoopFresh, handed]
          exact (if_pos (.inr reached)).mpr trivial
        · rw [sbrkPages_stuck walkable shape _ reached] at ran
          cases ran

theorem withBreak_pos (task : Task) : 0 < (withBreak task).heapBreak := by
  unfold withBreak
  split
  · dsimp only
    split <;> omega
  · omega

/-- The pages of the loop lie in user space. -/
theorem loopPages_range (task : Task) (ebx : Nat) : ∃ first n, loopPages task ebx = List.range' first n ∧
    pageUp (withBreak task).heapBreak = first * pageSize ∧ (n = 0 ∨ (0 < first ∧ first + n ≤ 0xB0000)) := by
  have idle : pageUp (withBreak task).heapBreak = pageAbove (withBreak task).heapBreak * pageSize := by
    unfold pageAbove pageUp frameOf pageSize
    omega
  unfold loopPages
  dsimp only
  split
  · exact ⟨_, 0, rfl, idle, .inl rfl⟩
  · rename_i looping
    refine ⟨_, _, rfl, idle, ?_⟩
    by_cases none : addedPages (withBreak task).heapBreak (((withBreak task).heapBreak + ebx) % 2 ^ 32) = 0
    · exact .inl none
    · have range := addedPages_range (by omega) (by omega) (withBreak_pos task) none
      exact .inr ⟨range.positive, range.top⟩

/-- The whole loop over pages that are not mapped. -/
theorem loop_run (owned : Owned s d) (range : n = 0 ∨ (0 < p ∧ p + n ≤ 0xB0000))
    (unmapped : ∀ v, p ≤ v → v < p + n → translate s.pmm.mem d (v * pageSize) = none) :
    LoopFresh d n (p * pageSize) s ∧ ∀ failed t, sbrkPages d n (p * pageSize) s = .ok (failed, t) → Owned t d ∧
      ∀ w, pdIndex w < 1023 → ¬ (p ≤ w / pageSize ∧ w / pageSize < p + n) →
        translate t.pmm.mem d w = translate s.pmm.mem d w := by
  rcases range with rfl | ⟨positive, top⟩
  · refine ⟨trivial, fun failed t ran => ?_⟩
    cases ran
    exact ⟨owned, fun _ _ _ => rfl⟩
  · obtain ⟨fresh, later⟩ := loop_separate owned positive (by omega) unmapped
    refine ⟨fresh, fun failed t ran => ⟨later failed t ran, fun w small outside => ?_⟩⟩
    obtain ⟨-, kept, -⟩ := sbrkPages_kept owned.walkable positive (by omega) ran
    exact translate_kept (kept.leaves w small outside)

/-- What a call of `SYS_SBRK` does to the memory is what its loop does. -/
theorem sysSbrk_loop (ran : sysSbrk s task ebx = .ok (eax, t, after)) :
    after.pageDirectory = task.pageDirectory ∧ after.nextUserVaddr = task.nextUserVaddr ∧
      ∃ failed, sbrkPages task.pageDirectory (loopPages task ebx).length (pageUp (withBreak task).heapBreak) s =
        .ok (failed, t) := by
  have same : (withBreak task).pageDirectory = task.pageDirectory ∧ (withBreak task).nextUserVaddr =
      task.nextUserVaddr := by
    unfold withBreak
    split <;> exact ⟨rfl, rfl⟩
  unfold sysSbrk at ran
  unfold loopPages
  dsimp only at ran ⊢
  split at ran
  · rename_i zero
    cases ran
    rw [if_pos (.inl zero)]
    exact ⟨same.1, same.2, false, rfl⟩
  · rename_i nonzero
    split at ran
    · rename_i negative
      rw [if_pos (.inr (.inl negative))]
      split at ran
      · cases ran
        exact ⟨same.1, same.2, false, rfl⟩
      · cases ran
        exact ⟨same.1, same.2, false, rfl⟩
    · rename_i positive
      split at ran
      · rename_i refused
        cases ran
        rw [if_pos (.inr (.inr refused))]
        exact ⟨same.1, same.2, false, rfl⟩
      · rename_i growing
        rw [if_neg (by omega), List.length_range', ← same.1]
        split at ran
        · cases ran
        · rename_i failed
          cases ran
          exact ⟨rfl, same.2, true, failed⟩
        · rename_i done
          cases ran
          exact ⟨rfl, same.2, false, done⟩

theorem sbrk_separate (sorted : Sorted x) (allowed : Allowed x (.sbrk ebx)) :
    Separate x (.sbrk ebx) ∧ ∀ y, perform x (.sbrk ebx) = .ok y → Sorted y := by
  obtain ⟨owned, cursor, held⟩ := sorted
  have performed (y : Situation) (ran : perform x (.sbrk ebx) = .ok y) : ∃ eax, sysSbrk x.machine x.task ebx =
      .ok (eax, y.machine, y.task) ∧ y.held = fun v => x.held v ∨ v ∈ loopPages x.task ebx := by
    unfold perform at ran
    dsimp only at ran
    split at ran
    · cases ran
    · rename_i eax s task result
      cases ran
      exact ⟨eax, result, rfl⟩
  obtain ⟨first, n, pages, start, range⟩ := loopPages_range x.task ebx
  have member (v : Nat) (lower : first ≤ v) (upper : v < first + n) : v ∈ loopPages x.task ebx := by
    rw [pages]
    exact List.mem_range'_1.mpr ⟨lower, upper⟩
  have unmapped (v : Nat) (lower : first ≤ v) (upper : v < first + n) :
      translate x.machine.pmm.mem x.task.pageDirectory (v * pageSize) = none := by
    by_contra mapped
    exact allowed v (member v lower upper) (held v (by omega) mapped)
  obtain ⟨fresh, later⟩ := loop_run owned range unmapped
  refine ⟨⟨?_, fun y ran w f small _ mapped => ?_⟩, fun y ran => ?_⟩
  · change LoopFresh _ (loopPages x.task ebx).length (pageUp (withBreak x.task).heapBreak) _
    rw [pages, List.length_range', start]
    exact fresh
  · obtain ⟨eax, ran, -⟩ := performed y ran
    obtain ⟨directory, -, failed, loop⟩ := sysSbrk_loop ran
    rw [pages, List.length_range', start] at loop
    rw [directory, (later failed _ loop).2 w small fun inside => ?_]
    · exact mapped
    · exact translate_some_page mapped (unmapped _ inside.1 inside.2)
  · obtain ⟨eax, ran, shape⟩ := performed y ran
    obtain ⟨directory, next, failed, loop⟩ := sysSbrk_loop ran
    rw [pages, List.length_range', start] at loop
    obtain ⟨ownedY, same⟩ := later failed _ loop
    refine ⟨directory.symm ▸ ownedY, next.symm ▸ cursor, fun v small mapped => ?_⟩
    rw [shape]
    by_cases inside : first ≤ v ∧ v < first + n
    · exact .inr (member v inside.1 inside.2)
    · obtain ⟨index, number, -⟩ := page_index v
      rw [directory, same _ (by omega) (by rwa [number])] at mapped
      exact .inl (held v small mapped)

/-! ## SYS_ALLOC_PAGE and SYS_FREE_PAGE -/

theorem sysAllocPage_owned (owned : Owned s task.pageDirectory) (cursor : Cursor task.nextUserVaddr)
    (ran : sysAllocPage s task = .ok (eax, t, after)) :
    Owned t task.pageDirectory ∧ after.pageDirectory = task.pageDirectory ∧ Cursor after.nextUserVaddr ∧
      ((eax = 0 ∧ ∀ w, pdIndex w < 1023 → translate t.pmm.mem task.pageDirectory w =
      translate s.pmm.mem task.pageDirectory w) ∨
        (eax = task.nextUserVaddr ∧ task.nextUserVaddr < userStackTop ∧ ∀ w, pdIndex w < 1023 →
          w / pageSize ≠ task.nextUserVaddr / pageSize →
          translate t.pmm.mem task.pageDirectory w = translate s.pmm.mem task.pageDirectory w)) := by
  have walkable := owned.walkable
  unfold sysAllocPage at ran
  cases shape : freeBlocks s.pmm with
  | nil =>
    rw [alloc_none walkable shape] at ran
    dsimp only at ran
    rw [if_pos rfl] at ran
    cases ran
    exact ⟨owned, rfl, cursor, .inl ⟨rfl, fun _ _ => rfl⟩⟩
  | cons b rest =>
    obtain ⟨handed, nonzero⟩ := alloc_first walkable shape
    have free : b ∈ freeBlocks s.pmm := by simp [shape]
    have prepared := prepared_taken walkable shape
    have kept : Kept s.pmm.mem (bitmapSet s.pmm b).mem task.pageDirectory fun _ => False := kept_taken walkable free
    rw [handed] at ran
    dsimp only at ran
    rw [if_neg nonzero] at ran
    split at ran
    · have taken : Owned { s with pmm := bitmapSet s.pmm b } task.pageDirectory := owned_kept owned prepared.grown kept
      cases ran
      refine ⟨?_, rfl, cursor, .inl ⟨rfl, fun w small => ?_⟩⟩
      · refine returned_owned taken (freeBlocks_high walkable.below free).1 prepared.apart
          fun w beyond present equal => ?_
        rw [kept.leaves w beyond.2 id] at present equal
        exact free_not_occupied free (equal ▸ (owned.occupied w beyond present).1)
      · exact (translate_kept (freed_leaf taken.walkable small _)).trans (translate_kept (kept.leaves w small id))
    · rename_i inside
      split at ran
      · cases ran
      · rename_i u mapped
        cases ran
        obtain ⟨aligned, low, high⟩ := cursor
        have page : task.nextUserVaddr / pageSize * pageSize = task.nextUserVaddr := by
          unfold pageSize at *
          omega
        rw [← page] at mapped
        have bounds : 0 < task.nextUserVaddr / pageSize ∧ task.nextUserVaddr / pageSize < 0xFFC00 := by
          unfold userStackTop pageSize at *
          omega
        obtain ⟨ownedU, all, -⟩ := owned_map owned prepared kept bounds.1 bounds.2 mapped
        refine ⟨ownedU, rfl, ?_,
          .inr ⟨rfl, by omega, fun w small other => translate_kept (all.leaves w small other)⟩⟩
        unfold Cursor
        dsimp only
        unfold userStackTop pageSize at *
        split <;> omega

/-- Where the page can be mapped, the call hands it out. -/
theorem sysAllocPage_maps (walkable : Walkable s d) (shape : freeBlocks s.pmm = b :: rest)
    (inside : ¬ (task.nextUserVaddr < userVirtMin ∨ userStackTop ≤ task.nextUserVaddr))
    (mapped : vmmMapPageInDirectory { s with pmm := bitmapSet s.pmm b } task.pageDirectory (b * pageSize)
      task.nextUserVaddr userPage = .ok t) :
    sysAllocPage s task = .ok (task.nextUserVaddr, t, { task with nextUserVaddr :=
      if userStackTop ≤ (task.nextUserVaddr + pageSize) % 2 ^ 32 then userStackTop
      else (task.nextUserVaddr + pageSize) % 2 ^ 32 }) := by
  obtain ⟨handed, nonzero⟩ := alloc_first walkable shape
  unfold sysAllocPage
  rw [handed]
  dsimp only
  rw [if_neg nonzero, if_neg inside, mapped]

theorem cursor_next : (if userStackTop ≤ (0x10000000 + pageSize) % 2 ^ 32 then userStackTop
    else (0x10000000 + pageSize) % 2 ^ 32) = 0x10001000 := by decide

theorem allocPage_separate (sorted : Sorted x) (allowed : Allowed x .allocPage) :
    Separate x .allocPage ∧ ∀ y, perform x .allocPage = .ok y → Sorted y := by
  obtain ⟨owned, cursor, held⟩ := sorted
  have bound (small : x.task.nextUserVaddr ≤ userStackTop) : x.task.nextUserVaddr / pageSize < 0xFFC00 := by
    unfold userStackTop pageSize at *
    omega
  have page : x.task.nextUserVaddr / pageSize * pageSize = x.task.nextUserVaddr :=
    Nat.div_mul_cancel (Nat.dvd_of_mod_eq_zero cursor.1)
  have unmapped (small : x.task.nextUserVaddr < userStackTop) :
      translate x.machine.pmm.mem x.task.pageDirectory x.task.nextUserVaddr = none := by
    by_contra mapped
    exact allowed small (held _ (bound cursor.2.2) (page.symm ▸ mapped))
  have performed (y : Situation) (ran : perform x .allocPage = .ok y) : ∃ eax, sysAllocPage x.machine x.task =
      .ok (eax, y.machine, y.task) ∧ y.held = fun v => x.held v ∨ (eax ≠ 0 ∧ v = eax / pageSize) := by
    unfold perform at ran
    dsimp only at ran
    split at ran
    · cases ran
    · rename_i eax s task result
      cases ran
      exact ⟨eax, result, rfl⟩
  refine ⟨⟨?_, fun y ran w f small _ mapped => ?_⟩, fun y ran => ?_⟩
  · unfold MapsFresh
    by_cases top : userStackTop ≤ x.task.nextUserVaddr
    · exact .inr (.inr (.inl top))
    · cases shape : freeBlocks x.machine.pmm with
      | nil =>
        rw [alloc_none owned.walkable shape]
        exact .inl rfl
      | cons b rest =>
        have index : pdIndex x.task.nextUserVaddr < 1023 := by
          unfold pdIndex userStackTop at *
          omega
        have kept : Kept x.machine.pmm.mem (bitmapSet x.machine.pmm b).mem x.task.pageDirectory fun _ => False :=
          kept_taken owned.walkable (show b ∈ freeBlocks x.machine.pmm by simp [shape])
        rw [(alloc_first owned.walkable shape).1]
        refine .inr (.inr (.inr ?_))
        exact (translate_kept (kept.leaves _ index id)).trans (unmapped (by omega))
  · obtain ⟨eax, ran, -⟩ := performed y ran
    obtain ⟨-, directory, -, ⟨-, same⟩ | ⟨-, top, same⟩⟩ := sysAllocPage_owned owned cursor ran
    · rw [directory, same w small, mapped]
    · rw [directory, same w small fun equal => ?_, mapped]
      have other := translate_some_page mapped
      rw [equal, page] at other
      exact other (unmapped top)
  · obtain ⟨eax, ran, shape⟩ := performed y ran
    obtain ⟨ownedY, directory, next, effect⟩ := sysAllocPage_owned owned cursor ran
    refine ⟨directory.symm ▸ ownedY, next, fun v small mapped => ?_⟩
    obtain ⟨index, number, -⟩ := page_index v
    rw [directory] at mapped
    rw [shape]
    rcases effect with ⟨-, same⟩ | ⟨rfl, top, same⟩
    · rw [same _ (by omega)] at mapped
      exact .inl (held v small mapped)
    · have low := cursor.2.1
      by_cases own : v = x.task.nextUserVaddr / pageSize
      · exact .inr ⟨by omega, own⟩
      · rw [same _ (by omega) (by rwa [number])] at mapped
        exact .inl (held v small mapped)

theorem freePage_separate (sorted : Sorted x) (allowed : Allowed x (.freePage virt)) :
    Separate x (.freePage virt) ∧ ∀ y, perform x (.freePage virt) = .ok y → Sorted y := by
  obtain ⟨owned, cursor, held⟩ := sorted
  have performed (y : Situation) (ran : perform x (.freePage virt) = .ok y) : ∃ eax,
    sysFreePage x.machine x.task virt =
      .ok (eax, y.machine) ∧ y.task = x.task ∧ y.held = fun v => x.held v ∧
      ¬ (eax = 0 ∧ v = virt / pageSize) := by
    unfold perform at ran
    dsimp only at ran
    split at ran
    · cases ran
    · rename_i eax s result
      cases ran
      exact ⟨eax, result, rfl, rfl⟩
  have effect (eax : Nat) (t : Machine) (ran : sysFreePage x.machine x.task virt = .ok (eax, t)) :
      (t = x.machine ∧ eax = minusOne) ∨ (eax = 0 ∧ Owned t x.task.pageDirectory ∧
        translate t.pmm.mem x.task.pageDirectory virt = none ∧ ∀ w, pdIndex w < 1023 →
        w / pageSize ≠ virt / pageSize →
          translate t.pmm.mem x.task.pageDirectory w = translate x.machine.pmm.mem x.task.pageDirectory w) := by
    by_cases low : virt < userVirtMin
    · unfold sysFreePage at ran
      rw [if_pos (.inr (.inl low))] at ran
      cases ran
      exact .inl ⟨rfl, rfl⟩
    · rcases sysFreePage_owned owned (allowed (by omega)) ran with idle | ⟨zero, ownedT, cleared, same⟩
      · exact .inl idle
      · refine .inr ⟨zero, ownedT, translate_none.mpr ?_, fun w small other => translate_kept (same w small other)⟩
        rw [cleared]
        decide
  refine ⟨⟨trivial, fun y ran w f small stays mapped => ?_⟩, fun y ran => ?_⟩
  · obtain ⟨eax, ran, task, -⟩ := performed y ran
    rw [task]
    rcases effect eax _ ran with ⟨machine, -⟩ | ⟨-, -, -, same⟩
    · rw [machine, mapped]
    · rw [same w small stays, mapped]
  · obtain ⟨eax, ran, task, shape⟩ := performed y ran
    rcases effect eax _ ran with ⟨machine, failed⟩ | ⟨zero, ownedY, cleared, same⟩
    · refine ⟨by rw [machine, task]; exact owned, task.symm ▸ cursor, fun v small mapped => ?_⟩
      rw [machine, task] at mapped
      rw [shape, failed]
      exact ⟨held v small mapped, fun done => absurd done.1 (by decide)⟩
    · refine ⟨task.symm ▸ ownedY, task.symm ▸ cursor, fun v small mapped => ?_⟩
      obtain ⟨index, number, -⟩ := page_index v
      rw [task] at mapped
      rw [shape]
      have other : v ≠ virt / pageSize := fun own => by
        have page : leaf y.machine.pmm.mem x.task.pageDirectory (v * pageSize) =
            leaf y.machine.pmm.mem x.task.pageDirectory virt :=
          leaf_page _ _ (number.trans own)
        exact mapped (translate_none.mpr (page ▸ translate_none.mp cleared))
      rw [same _ (by omega) (by rwa [number])] at mapped
      exact ⟨held v small mapped, fun done => other done.2⟩

/-! ## Runs -/

theorem call_separate (sorted : Sorted x) (allowed : Allowed x call) :
    Separate x call ∧ ∀ y, perform x call = .ok y → Sorted y := by
  cases call with
  | sbrk ebx => exact sbrk_separate sorted allowed
  | allocPage => exact allocPage_separate sorted allowed
  | freePage virt => exact freePage_separate sorted allowed

theorem reached_sorted {start : Situation} (sorted : Sorted start) (reached : Reached start x) : Sorted x := by
  induction reached with
  | start => exact sorted
  | step _ allowed ran ih => exact (call_separate ih allowed).2 _ ran

theorem started_sorted (owned : Owned r.machine r.directory) : Sorted (started r) := by
  refine ⟨⟨?_, owned.occupied, owned.apart⟩, (⟨by decide, by decide, by decide⟩ : Cursor 0x10000000),
    fun v _ mapped => mapped⟩
  exact ⟨owned.walkable.below, owned.walkable.taken, owned.walkable.tables, owned.walkable.apart⟩

end

/-! ## After boot -/

/-- From 8 MiB on the directory has only pages that are mapped to themselves and
that the bitmap does not know. -/
structure Unmanaged (s : Machine) (d : Nat) : Prop where
  walkable : Walkable s d
  itself : ∀ w, Beyond w → isPresent (leaf s.pmm.mem d w) = true →
    s.pmm.pmmMaxBlocks ≤ w / pageSize ∧ frameOf (leaf s.pmm.mem d w) = w / pageSize * pageSize

section
variable {s t : Machine} {d b p n k phys size flags : Nat}

theorem taken_managed {s : PmmState} (taken : Taken s (b * pageSize)) : b < s.pmmMaxBlocks := by
  obtain ⟨c, same, held, -⟩ := taken
  obtain rfl : b = c := Nat.eq_of_mul_eq_mul_right (by decide) same
  rw [bitmapTest, Bool.and_eq_true] at held
  simp only [pmmBlockIsValid, decide_eq_true_eq] at held
  exact held.1.2

theorem unmanaged_owned (unmanaged : Unmanaged s d) : Owned s d := by
  obtain ⟨walkable, itself⟩ := unmanaged
  refine ⟨walkable, fun w beyond present => ?_, fun w v beyondW beyondV presentW presentV equal => ?_⟩
  · obtain ⟨unknown, frame⟩ := itself w beyond present
    have apart (taken : Taken s.pmm (w / pageSize * pageSize)) : False :=
      absurd (taken_managed taken) (Nat.not_lt.mpr unknown)
    rw [frame]
    refine ⟨⟨w / pageSize, rfl, fun small => absurd small (Nat.not_lt.mpr unknown), ?_⟩, ?_, ?_⟩
    · unfold Beyond pdIndex pageSize at *
      omega
    · exact fun same => apart (same ▸ walkable.taken)
    · exact fun table => apart (walkable.tables _ table).1
  · rw [(itself w beyondW presentW).2, (itself v beyondV presentV).2] at equal
    exact Nat.eq_of_mul_eq_mul_right (by decide) equal

/-- One page of the region. -/
theorem unmanaged_page (unmanaged : Unmanaged s d) (unknown : s.pmm.pmmMaxBlocks ≤ p) (high : 0x800 ≤ p)
    (top : p < 1023 * 1024) (ran : vmmMapPageInDirectory s d (p * pageSize) (p * pageSize) flags = .ok t) :
    Unmanaged t d ∧ SameFrames s.pmm t.pmm ∧ t.cr3 = s.cr3 := by
  obtain ⟨walkable, itself⟩ := unmanaged
  obtain ⟨index, number, aligned⟩ := page_index p
  have small : pdIndex (p * pageSize) < 1023 := by omega
  rcases mapPage_cases walkable small aligned (by unfold pageSize; omega) (by omega) (by omega) ran with
    ⟨rfl, -⟩ | ⟨grown, page⟩
  · exact ⟨⟨walkable, itself⟩, ⟨rfl, rfl⟩, rfl⟩
  · refine ⟨⟨grown.walkable, fun w beyond present => ?_⟩, grown.frames, grown.same.2.1⟩
    rw [grown.frames.2]
    by_cases own : w / pageSize = p
    · have same : leaf t.pmm.mem d w = leaf t.pmm.mem d (p * pageSize) := leaf_page _ _ (own.trans number.symm)
      rw [translate_leaf, ← same, if_pos present, aligned, Nat.add_zero, Option.some.injEq] at page
      rw [own]
      exact ⟨unknown, page⟩
    · have walk := grown.walks w beyond.2 (number.symm ▸ own)
      rw [translate_leaf, translate_leaf, if_pos present] at walk
      split at walk
      · rename_i before
        have same := Nat.add_right_cancel (Option.some.inj walk)
        rw [same]
        exact itself w beyond before
      · cases walk

theorem unmanaged_region (unmanaged : Unmanaged s s.cr3) (unknown : s.pmm.pmmMaxBlocks ≤ p + k)
    (high : 0x800 ≤ p + k)
    (top : p + k + n ≤ 1023 * 1024)
    (ran : mapRegionFrom (p * pageSize) (p * pageSize) flags n (k * pageSize) s = .ok t) :
    Unmanaged t t.cr3 ∧ t.cr3 = s.cr3 := by
  induction n generalizing s k with
  | zero =>
    cases ran
    exact ⟨unmanaged, rfl⟩
  | succ n ih =>
    have place : (p * pageSize + k * pageSize) % 2 ^ 32 = (p + k) * pageSize := by
      unfold pageSize
      omega
    rw [mapRegionFrom, place, ← Nat.succ_mul] at ran
    split at ran
    · cases ran
    · rename_i u mapped
      obtain ⟨unmanagedU, frames, active⟩ := unmanaged_page unmanaged unknown high (by omega) mapped
      rw [← active] at unmanagedU
      obtain ⟨unmanagedT, activeT⟩ := ih unmanagedU (by rw [frames.2]; omega) (by omega) (by omega) ran
      exact ⟨unmanagedT, activeT.trans active⟩

/-- After boot the kernel's directory has no page from 8 MiB on. -/
theorem booted_unmanaged (booted : Booted pmm b0 b1 b2) :
    Unmanaged (bootMachine pmm (b0 * pageSize)) (b0 * pageSize) := by
  refine ⟨booted_walkable booted, fun w beyond present => ?_⟩
  have absent : leaf pmm.mem (b0 * pageSize) w = 0 :=
    leaf_absent (by rw [booted.absent _ beyond.1 beyond.2]; decide)
  change isPresent (leaf pmm.mem (b0 * pageSize) w) = true at present
  rw [absent] at present
  cases present

theorem booted_owned (booted : Booted pmm b0 b1 b2) : Owned (bootMachine pmm (b0 * pageSize)) (b0 * pageSize) :=
  unmanaged_owned (booted_unmanaged booted)

/-- The framebuffer lies above the memory. Once `kernel_bootstrap` has mapped it
to itself, each page still has a frame of its own. -/
theorem framebuffer_owned (booted : Booted pmm b0 b1 b2) (above : pmm.pmmMaxBlocks ≤ phys / pageSize)
    (high : 0x800000 ≤ phys) (top : phys / pageSize + alignedSize size / pageSize ≤ 1023 * 1024)
    (ran : vmmMapRegion (bootMachine pmm (b0 * pageSize)) phys phys size (pagePresent ||| pageWrite) = .ok t) :
    Owned t (b0 * pageSize) := by
  have start : frameOf phys = phys / pageSize * pageSize := rfl
  unfold vmmMapRegion at ran
  rw [start] at ran
  have first : 0x800 ≤ phys / pageSize + 0 := (Nat.le_div_iff_mul_le (by decide)).mpr high
  obtain ⟨unmanaged, active⟩ := unmanaged_region (k := 0) (booted_unmanaged booted) above first top
    (by rwa [Nat.zero_mul])
  have same : t.cr3 = b0 * pageSize := active
  rw [same] at unmanaged
  exact unmanaged_owned unmanaged

end

/-! ## A small file -/

theorem smallFile_user (second : Nat) (low : 0x800000 ≤ second) (high : second + 4 ≤ 0xB0000000)
    (headers : programHeaders (smallFile second) (fun _ => 0) = [firstSegment, secondSegment second]) :
    ∀ ph ∈ loads (programHeaders (smallFile second) fun _ => 0), InUserSpace ph := by
  intro ph member
  rw [headers] at member
  have fits := smallFile_fits second low high ph (List.mem_of_mem_filter member)
  have := fits.low
  have := fits.high
  constructor
  · unfold userVirtMin
    omega
  · unfold kernelVirtStart
    omega

/-- What no segment and no stack needs is not mapped. -/
theorem loaded_absent (booted : Booted pmm b0 b1 b2) (prepares : Prepares (bootMachine pmm (b0 * pageSize)) phdrs r)
    (beyond : Beyond w) (untouched : ∀ ph ∈ loads phdrs, ¬ Touches ph (w / pageSize))
    (other : ¬ StackPage (w / pageSize)) :
    translate r.machine.pmm.mem r.directory w = none := by
  have absent : leaf pmm.mem (b0 * pageSize) w = 0 :=
    leaf_absent (by rw [booted.absent _ beyond.1 beyond.2]; decide)
  have same : leaf r.machine.pmm.mem r.directory w = leaf pmm.mem (b0 * pageSize) w :=
    prepares.pages w beyond.2 untouched other
  rw [translate_none, same, absent]
  decide

/-- The task after its first page. -/
def afterPage (r : Loaded) (t : Machine) : Situation where
  machine := t
  task := ⟨r.directory, 0x10001000, r.maxVaddr, r.maxVaddr⟩
  held := fun v => (started r).held v ∨ (0x10000000 ≠ 0 ∧ v = 0x10000000 / pageSize)

/-- With two frames in the window the first page is handed out. -/
theorem started_allocPage (owned : Owned r.machine r.directory) (ready : Ready r.machine t0 t1 r.directory 2) :
    ∃ t, perform (started r) .allocPage = .ok (afterPage r t) ∧
    translate t.pmm.mem r.directory 0x10000000 ≠ none := by
  obtain ⟨spaces, member, enough⟩ := ready
  obtain ⟨b, rest, shape, window, more⟩ := room_cons enough
  change freeBlocks (started r).machine.pmm = b :: rest at shape
  have walkable := (started_sorted owned).owned.walkable
  have switched : Spaces (started r).machine t0 t1 :=
    ⟨spaces.below, spaces.kernel, member, spaces.heap, spaces.directories, spaces.tables, spaces.first,
      fun d listed i lower upper present => ⟨(spaces.others d listed i lower upper present).held,
        (spaces.others d listed i lower upper present).apart⟩, spaces.identity0, spaces.identity1⟩
  have taken := spaces_taken switched (show b ∈ freeBlocks (started r).machine.pmm by simp [shape])
  have left : freeBlocks (bitmapSet r.machine.pmm b) = rest := freeBlocks_set spaces.below shape
  have fewer : 0 + 1 ≤ room { (started r).machine with pmm := bitmapSet r.machine.pmm b } := by
    unfold room
    rw [left]
    exact more
  obtain ⟨c, rest', shape', window', -⟩ := room_cons fewer
  have positive : 0 < b := by
    have := window.1
    omega
  have aligned : 0x10000000 % pageSize = 0 := by decide
  obtain ⟨t, mapped, -⟩ := mapPage_ok taken member (by decide) (by decide) aligned positive shape' window' userPage
  have inside :
    ¬ ((started r).task.nextUserVaddr < userVirtMin ∨ userStackTop ≤ (started r).task.nextUserVaddr) := by
    change ¬ (0x10000000 < userVirtMin ∨ userStackTop ≤ 0x10000000)
    decide
  have ran := sysAllocPage_maps walkable shape inside mapped
  have performed : perform (started r) .allocPage = .ok (afterPage r t) := by
    unfold perform
    dsimp only
    rw [ran]
    unfold afterPage started
    dsimp only
    rw [cursor_next]
  refine ⟨t, performed, ?_⟩
  rcases fresh_map (prepared_taken walkable shape) (by decide) (by decide) (by decide) mapped with
    ⟨-, none⟩ | ⟨fresh, -⟩
  · cases shape'.symm.trans none
  · exact fun unmapped => Option.some_ne_none _ (fresh.page.symm.trans unmapped)

end MeowMeowOS.SeparatePages

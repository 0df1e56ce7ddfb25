import MeowMeowOS.TwinLoads
import MeowMeowOS.SeparatePages

/-! What a task reads in its memory does not depend on what the free frames
held, as long as it gets no page that the kernel maps without clearing it: the
pages of `SYS_ALLOC_PAGE` and those of the stack below its first page. -/
namespace MeowMeowOS.HiddenBytes
open ByteMemory PhysicalFrames VirtualMemory BootFrames FreeFrames AddressSpaces DirectoryLayout MappedPages ElfLoading
open LoadedImage BootDirectories TaskMemory PageEntries HeapGrowth SbrkCalls OwnedPages LoadedTasks SeparatePages
open TwinMachines TwinLoads
open HeapFrames (ram128)

inductive Request where
  | allocPage
  | sbrk (ebx : Nat)
  | stackFault (faultAddr : Nat)

/-- A running task. -/
structure Process where
  machine : Machine
  task : Task

def serve (x : Process) : Request → Except Nat (Nat × Process)
  | .allocPage =>
    match sysAllocPage x.machine x.task with
    | .error frame => .error frame
    | .ok (eax, s, task) => .ok (eax, ⟨s, task⟩)
  | .sbrk ebx =>
    match sysSbrk x.machine x.task ebx with
    | .error frame => .error frame
    | .ok (eax, s, task) => .ok (eax, ⟨s, task⟩)
  | .stackFault faultAddr =>
    match vmmHandleUserPageFault x.machine faultAddr with
    | .error frame => .error frame
    | .ok (handled, s) => .ok (handled.toNat, ⟨s, x.task⟩)

/-- The program may read at the address. -/
def Readable (m : Mem) (d a : Nat) : Prop :=
  (isPresent (entry m d (pdIndex a)) = true ∧ isUser (entry m d (pdIndex a)) = true) ∧
    isPresent (leaf m d a) = true ∧ isUser (leaf m d a) = true

instance (m : Mem) (d a : Nat) : Decidable (Readable m d a) := inferInstanceAs (Decidable (_ ∧ _))

/-- The first 8 MiB are the kernel's. -/
def Supervisor (m : Mem) (d : Nat) : Prop := ∀ i < 2, isPresent (entry m d i) = true ∧ isUser (entry m d i) = false

/-- The task that `elf_load_and_spawn` leaves, once it runs. -/
def loadedProcess (r : Loaded) : Process := ⟨(started r).machine, (started r).task⟩

/-- A task on two machines that differ only in what their free frames hold: it
runs already, or it is loaded from the same file. -/
inductive Begins : Process → Process → Prop where
  | running {s s' : Machine} {task : Task} : Alike s s' → Owned s task.pageDirectory →
      s.cr3 = task.pageDirectory →
      Supervisor s.pmm.mem task.pageDirectory → Cursor task.nextUserVaddr → Begins ⟨s, task⟩ ⟨s', task⟩
  | loaded {s s' : Machine} {file : List UInt8} {granted : Bool} {beyond : Mem} {argv : List (List UInt8)}
      {unset : Nat → Nat} {r r' : Loaded} : Alike s s' → Owned s s.kernelDirectory →
      Supervisor s.pmm.mem s.kernelDirectory → (∀ ph ∈ loads (programHeaders file beyond), InUserSpace ph) →
      elfLoad s file granted beyond argv unset = .ok r → elfLoad s' file granted beyond argv unset = .ok r' →
      Begins (loadedProcess r) (loadedProcess r')

/-- The request maps no page that is not cleared, unless the next free frame
holds the same in both. -/
def Covered (x x' : Process) : Request → Prop
  | .allocPage => x.task.nextUserVaddr < userStackTop → SameNext x.machine x'.machine
  | .sbrk _ => True
  | .stackFault faultAddr => userStackGuardMin ≤ frameOf faultAddr ∧ frameOf faultAddr < userStackTop →
      SameNext x.machine x'.machine

/-- The task makes the same requests on both machines. -/
inductive Lockstep : Process → Process → Prop where
  | begins {x x' : Process} : Begins x x' → Lockstep x x'
  | step {x x' y y' : Process} {request : Request} {eax eax' : Nat} : Lockstep x x' → Covered x x' request →
      serve x request = .ok (eax, y) → serve x' request = .ok (eax', y') → Lockstep y y'

/-- The task reads the same on both. -/
def SameBytes (x x' : Process) : Prop :=
  x'.task = x.task ∧ ∀ a < kernelVirtStart,
    (Readable x'.machine.pmm.mem x.task.pageDirectory a ↔ Readable x.machine.pmm.mem x.task.pageDirectory a) ∧
    (Readable x.machine.pmm.mem x.task.pageDirectory a →
      byteIn x'.machine.pmm.mem x.task.pageDirectory a = byteIn x.machine.pmm.mem x.task.pageDirectory a)

/-- What the requests keep. -/
structure Hidden (x x' : Process) : Prop where
  task : x'.task = x.task
  alike : Alike x.machine x'.machine
  owned : Owned x.machine x.task.pageDirectory
  active : x.machine.cr3 = x.task.pageDirectory
  supervisor : Supervisor x.machine.pmm.mem x.task.pageDirectory
  cursor : Cursor x.task.nextUserVaddr

section
variable {s s' t t' : Machine} {x x' y y' : Process} {task after after' : Task}
    {d a b c p w phys flags ebx eax eax' faultAddr : Nat} {rest : List Nat}
  {request : Request}

theorem supervisor_kept (supervisor : Supervisor s.pmm.mem d) (kept : KeptEntries s t d) : Supervisor t.pmm.mem d := by
  intro i small
  have before := supervisor i small
  rwa [kept.old i (by omega) before.1]

/-! ## What the task reads -/

theorem readable_beyond (supervisor : Supervisor s.pmm.mem d) (user : a < kernelVirtStart)
    (readable : Readable s.pmm.mem d a) :
    Beyond a := by
  constructor
  · by_contra low
    have serves := readable.1.2
    rw [(supervisor _ (Nat.not_le.mp low)).2] at serves
    cases serves
  · unfold pdIndex kernelVirtStart at *
    omega

theorem hidden_bytes (hidden : Hidden x x') : SameBytes x x' := by
  obtain ⟨same, alike, owned, -, supervisor, -⟩ := hidden
  have walkable := owned.walkable
  refine ⟨same, fun a user => ?_⟩
  have index : pdIndex a < 1023 := by
    unfold pdIndex kernelVirtStart at *
    omega
  have directory := twins_entry alike walkable apart_none (Nat.lt_of_lt_of_le index (by decide))
  have page := twins_leaf alike walkable apart_none index
  refine ⟨by unfold Readable; rw [directory, page], fun readable => ?_⟩
  have occupied := (owned.occupied a (readable_beyond supervisor user readable) readable.2.1).1
  have bytes :=
    twins_occupied alike occupied id (frameOf (leaf x.machine.pmm.mem x.task.pageDirectory a) + a % pageSize)
    (Nat.le_add_right _ _) (Nat.add_lt_add_left (Nat.mod_lt _ (by decide)) _)
  unfold byteIn
  rw [translate_leaf, translate_leaf, page, if_pos readable.2.1, Option.map_some, Option.map_some, bytes]

/-! ## The requests -/

theorem withBreak_same (task : Task) : (withBreak task).pageDirectory = task.pageDirectory ∧
    (withBreak task).nextUserVaddr = task.nextUserVaddr := by
  unfold withBreak
  split <;> exact ⟨rfl, rfl⟩

theorem twins_sysSbrk (alike : Alike s s') (owned : Owned s task.pageDirectory)
    (ran : sysSbrk s task ebx = .ok (eax, t, after))
    (ran' : sysSbrk s' task ebx = .ok (eax', t', after')) :
    after' = after ∧ Alike t t' ∧ Owned t task.pageDirectory ∧ KeptEntries s t task.pageDirectory := by
  obtain ⟨-, -, failed, loop⟩ := sysSbrk_loop ran
  obtain ⟨-, -, failed', loop'⟩ := sysSbrk_loop ran'
  obtain ⟨first, n, pages, start, range⟩ := loopPages_range task ebx
  rw [pages, List.length_range', start] at loop loop'
  have both : failed' = failed ∧ Alike t t' ∧ Owned t task.pageDirectory ∧
    KeptEntries s t task.pageDirectory := by
    rcases range with rfl | ⟨positive, top⟩
    · cases loop
      cases loop'
      exact ⟨rfl, alike, owned, kept_refl _ _ _⟩
    · exact twins_sbrkPages alike owned positive (by omega) loop loop'
  obtain ⟨same, result⟩ := both
  refine ⟨?_, result⟩
  unfold sysSbrk at ran ran'
  dsimp only at ran ran'
  split at ran
  · rename_i zero
    rw [if_pos zero] at ran'
    cases ran
    cases ran'
    rfl
  · rename_i nonzero
    rw [if_neg nonzero] at ran'
    split at ran
    · rename_i negative
      rw [if_pos negative] at ran'
      split at ran
      · rename_i below
        rw [if_pos below] at ran'
        cases ran
        cases ran'
        rfl
      · rename_i above
        rw [if_neg above] at ran'
        cases ran
        cases ran'
        rfl
    · rename_i positive
      rw [if_neg positive] at ran'
      split at ran
      · rename_i refused
        rw [if_pos refused] at ran'
        cases ran
        cases ran'
        rfl
      · rename_i growing
        have count := congrArg List.length pages
        unfold loopPages at count
        dsimp only at count
        rw [if_neg (by omega), List.length_range', List.length_range', addedPages] at count
        rw [if_neg growing, (withBreak_same task).1, count, start, loop'] at ran'
        rw [(withBreak_same task).1, count, start, loop] at ran
        rw [same] at ran'
        cases failed with
        | true =>
          cases ran
          cases ran'
          rfl
        | false =>
          cases ran
          cases ran'
          rfl

theorem kept_freed (walkable : Walkable s d) (frame : Nat) : KeptEntries s (freed s frame) d := by
  have page (f : Nat) (held : Taken s.pmm f) : AgreeOn s.pmm.mem (freed s frame).pmm.mem f (f + pageSize) :=
    fun x above below => pmmFreeBlock_agree walkable.below frame _ x (Nat.le_trans (taken_aligned held).2 above) below
  exact kept_agree (page d walkable.taken) fun f table => page f (walkable.tables f table).1

/-- `SYS_ALLOC_PAGE` maps the next free frame as it is. -/
theorem twins_sysAllocPage (alike : Alike s s') (owned : Owned s task.pageDirectory)
    (covered : task.nextUserVaddr < userStackTop → SameNext s s') (ran : sysAllocPage s task = .ok (eax, t, after))
    (ran' : sysAllocPage s' task = .ok (eax', t', after')) :
    after' = after ∧ Alike t t' ∧ KeptEntries s t task.pageDirectory := by
  unfold sysAllocPage at ran ran'
  rcases twins_alloc alike with ⟨-, failed, failed'⟩ | ⟨b, rest, shape, high, nonzero, handed, handed', taken⟩
  · rw [failed] at ran
    rw [failed'] at ran'
    dsimp only at ran ran'
    rw [if_pos rfl] at ran ran'
    cases ran
    cases ran'
    exact ⟨rfl, alike, kept_refl _ _ _⟩
  · have free : b ∈ freeBlocks s.pmm := by simp [shape]
    obtain ⟨grown, -, -⟩ := prepared_taken owned.walkable shape
    have kept : Kept s.pmm.mem (bitmapSet s.pmm b).mem task.pageDirectory fun _ => True :=
      kept_taken owned.walkable free
    rw [handed] at ran
    rw [handed'] at ran'
    dsimp only at ran ran'
    rw [if_neg nonzero] at ran ran'
    split at ran
    · rename_i outside
      rw [if_pos outside] at ran'
      cases ran
      cases ran'
      exact ⟨rfl, twins_freed taken high, kept_trans kept (kept_freed grown.walkable _)⟩
    · rename_i inside
      rw [if_neg inside] at ran'
      have alikeU := twins_next alike shape (covered (by omega))
      have index : pdIndex task.nextUserVaddr < 1023 := by
        unfold pdIndex userStackTop at *
        omega
      split at ran
      · cases ran
      · rename_i u mapped
        split at ran'
        · cases ran'
        · rename_i u' mapped'
          cases ran
          cases ran'
          have made := kept_mapPage grown.walkable index mapped
          exact ⟨rfl, twins_map alikeU grown.walkable apart_none index mapped mapped',
            kept_trans kept (kept_weaken made fun _ _ => trivial)⟩

theorem twins_mapPage (alike : Alike s s') (walkable : Walkable s s.cr3) (small : pdIndex w < 1023)
    (ran : vmmMapPage s phys w flags = .ok t) (ran' : vmmMapPage s' phys w flags = .ok t') : Alike t t' := by
  unfold vmmMapPage at ran ran'
  rw [alike.same.2.1] at ran'
  exact twins_map alike walkable apart_none small ran ran'

/-- So does a fault in the range of the stack. -/
theorem twins_stackFault (alike : Alike s s') (owned : Owned s s.cr3)
    (covered : userStackGuardMin ≤ frameOf faultAddr ∧ frameOf faultAddr < userStackTop → SameNext s s')
    (ran : vmmHandleUserPageFault s faultAddr = .ok (handled, t))
    (ran' : vmmHandleUserPageFault s' faultAddr = .ok (handled', t')) :
    Alike t t' ∧ Owned t s.cr3 ∧ KeptEntries s t s.cr3 := by
  unfold vmmHandleUserPageFault at ran ran'
  split at ran
  · rename_i outside
    rw [if_pos outside] at ran'
    cases ran
    cases ran'
    exact ⟨alike, owned, kept_refl _ _ _⟩
  · rename_i inside
    rw [if_neg inside] at ran'
    dsimp only at ran ran'
    split at ran
    · rename_i guarded
      rw [if_pos guarded] at ran'
      rcases twins_alloc alike with ⟨-, failed, failed'⟩ | ⟨b, rest, shape, high, nonzero, handed, handed',
        taken⟩
      · rw [failed] at ran
        rw [failed'] at ran'
        dsimp only at ran ran'
        rw [if_pos rfl] at ran ran'
        cases ran
        cases ran'
        exact ⟨alike, owned, kept_refl _ _ _⟩
      · have free : b ∈ freeBlocks s.pmm := by simp [shape]
        have prepared := prepared_taken owned.walkable shape
        have page : frameOf faultAddr = faultAddr / pageSize * pageSize := rfl
        have bounds : 0 < faultAddr / pageSize ∧ faultAddr / pageSize < 0xFFC00 := by
          unfold frameOf userStackGuardMin userStackTop pageSize at *
          omega
        have index : pdIndex (faultAddr / pageSize * pageSize) < 1023 := by
          have := (page_index (faultAddr / pageSize)).1
          omega
        have alikeU := twins_next alike shape (covered guarded)
        rw [handed] at ran
        rw [handed'] at ran'
        dsimp only at ran ran'
        rw [if_neg nonzero] at ran ran'
        split at ran
        · cases ran
        · rename_i u mapped
          split at ran'
          · cases ran'
          · rename_i u' mapped'
            cases ran
            cases ran'
            obtain ⟨ownedU, keptU, -⟩ :=
              owned_map owned prepared (kept_taken owned.walkable free) bounds.1 bounds.2 mapped
            exact ⟨twins_mapPage alikeU prepared.grown.walkable index mapped mapped', ownedU,
              kept_weaken keptU fun _ _ => trivial⟩
    · rename_i elsewhere
      rw [if_neg elsewhere] at ran'
      cases ran
      cases ran'
      exact ⟨alike, owned, kept_refl _ _ _⟩

/-! ## The active directory -/

theorem setPage_active (ran : setPage s d phys w flags = .ok t) : t.cr3 = s.cr3 := by
  unfold setPage at ran
  dsimp only at ran
  split at ran
  · cases ran
    rfl
  · split at ran
    · cases ran
    · cases ran
      rfl

theorem mapPage_active (ran : vmmMapPageInDirectory s d phys w flags = .ok t) : t.cr3 = s.cr3 := by
  unfold vmmMapPageInDirectory at ran
  split at ran
  · cases ran
    rfl
  · split at ran
    · cases ran
      rfl
    · split at ran
      · cases ran
        rfl
      · split at ran
        · cases ran
        · split at ran
          · exact setPage_active ran
          · dsimp only at ran
            split at ran
            · cases ran
              rfl
            · split at ran
              · cases ran
              · exact (setPage_active ran).trans rfl

theorem sbrkPages_active (ran : sbrkPages d n page s = .ok (failed, t)) : t.cr3 = s.cr3 := by
  induction n generalizing s page with
  | zero =>
    cases ran
    rfl
  | succ n ih =>
    unfold sbrkPages at ran
    dsimp only at ran
    split at ran
    · cases ran
      rfl
    · split at ran
      · cases ran
      · split at ran
        · cases ran
        · rename_i u mapped
          have same := mapPage_active mapped
          exact (ih ran).trans same

theorem sysAllocPage_active (ran : sysAllocPage s task = .ok (eax, t, after)) : t.cr3 = s.cr3 := by
  unfold sysAllocPage at ran
  dsimp only at ran
  split at ran
  · cases ran
    rfl
  · split at ran
    · cases ran
      rfl
    · split at ran
      · cases ran
      · rename_i u mapped
        have same := mapPage_active mapped
        cases ran
        exact same

theorem stackFault_active (ran : vmmHandleUserPageFault s faultAddr = .ok (handled, t)) : t.cr3 = s.cr3 := by
  unfold vmmHandleUserPageFault at ran
  dsimp only at ran
  split at ran
  · cases ran
    rfl
  · split at ran
    · split at ran
      · cases ran
        rfl
      · split at ran
        · cases ran
        · rename_i u mapped
          unfold vmmMapPage at mapped
          have same := mapPage_active mapped
          cases ran
          exact same
    · cases ran
      rfl

/-! ## Runs -/

theorem serve_hidden (hidden : Hidden x x') (covered : Covered x x' request) (ran : serve x request = .ok (eax, y))
    (ran' : serve x' request = .ok (eax', y')) : Hidden y y' := by
  obtain ⟨same, alike, owned, active, supervisor, cursor⟩ := hidden
  unfold serve at ran ran'
  rw [same] at ran'
  cases request with
  | allocPage =>
    dsimp only at ran ran'
    split at ran
    · cases ran
    · rename_i served
      split at ran'
      · cases ran'
      · rename_i served'
        cases ran
        cases ran'
        obtain ⟨rfl, alikeY, kept⟩ := twins_sysAllocPage alike owned covered served served'
        obtain ⟨ownedY, directory, next, -⟩ := sysAllocPage_owned owned cursor served
        exact ⟨rfl, alikeY, directory.symm ▸ ownedY,
          (sysAllocPage_active served).trans (active.trans directory.symm),
          directory.symm ▸ supervisor_kept supervisor kept, next⟩
  | sbrk ebx =>
    dsimp only at ran ran'
    split at ran
    · cases ran
    · rename_i served
      split at ran'
      · cases ran'
      · rename_i served'
        cases ran
        cases ran'
        obtain ⟨rfl, alikeY, ownedY, kept⟩ := twins_sysSbrk alike owned served served'
        obtain ⟨directory, next, failed, loop⟩ := sysSbrk_loop served
        exact ⟨rfl, alikeY, directory.symm ▸ ownedY, (sbrkPages_active loop).trans (active.trans directory.symm),
          directory.symm ▸ supervisor_kept supervisor kept, next.symm ▸ cursor⟩
  | stackFault faultAddr =>
    dsimp only at ran ran'
    split at ran
    · cases ran
    · rename_i served
      split at ran'
      · cases ran'
      · rename_i served'
        cases ran
        cases ran'
        rw [← active] at owned supervisor
        obtain ⟨alikeY, ownedY, kept⟩ := twins_stackFault alike owned covered served served'
        rw [active] at ownedY kept supervisor
        exact ⟨rfl, alikeY, ownedY, (stackFault_active served).trans active, supervisor_kept supervisor kept,
          cursor⟩

theorem begins_hidden (begins : Begins x x') : Hidden x x' := by
  cases begins with
  | running alike owned active supervisor cursor => exact ⟨rfl, alike, owned, active, supervisor, cursor⟩
  | loaded alike owned supervisor user ran ran' =>
    rename_i s s' file granted beyond argv unset r r'
    obtain ⟨directory, highest, made⟩ := twins_elfLoad alike owned user ran ran'
    obtain ⟨ownedR, entries, -⟩ := elfLoad_owned owned user ran
    have sorted := started_sorted ownedR
    refine ⟨?_, ?_, sorted.owned, rfl, fun i small => ?_, sorted.cursor⟩
    · unfold loadedProcess started
      rw [directory, highest]
    · refine ⟨made.below, made.held, made.frames, ⟨made.same.1, directory, made.same.2.2⟩, made.memory⟩
    · have before := supervisor i small
      have kept := entries i (by omega) before.1
      exact (congrArg (fun pde => isPresent pde = true ∧ isUser pde = false) kept).mpr before

theorem lockstep_hidden (run : Lockstep x x') : Hidden x x' := by
  induction run with
  | begins begins => exact begins_hidden begins
  | step _ covered ran ran' ih => exact serve_hidden ih covered ran ran'

theorem placed_readable (placed : Placed s t d p b) (top : p < 0xFFC00)
    (absent : ¬ isPresent (entry s.pmm.mem d (p / 1024)) = true) : Readable t.pmm.mem d (p * pageSize) := by
  constructor
  · have grants := placed.kept.new _ (by omega) (Bool.eq_false_iff.mpr absent) placed.table
    unfold grantsUser at grants
    rw [Bool.and_eq_true, Bool.and_eq_true] at grants
    rw [(page_index p).1]
    exact ⟨grants.1.1, grants.2⟩
  · have grants := grantsUser_entry (b * pageSize)
    unfold grantsUser at grants
    rw [Bool.and_eq_true, Bool.and_eq_true] at grants
    rw [placed.page]
    exact ⟨grants.1.1, grants.2⟩

/-- What the frame held is there to read. -/
theorem mapped_bytes (sound : Sound s d) (high : 0x800 ≤ p) (top : p < 0xFFC00)
    (shape : freeBlocks s.pmm = b :: c :: rest)
    (reached : Identity s (c * pageSize)) (absent : ¬ isPresent (entry s.pmm.mem d (p / 1024)) = true) :
    ∃ t, vmmMapPageInDirectory { s with pmm := bitmapSet s.pmm b } d (b * pageSize) (p * pageSize) userPage =
    .ok t ∧
      Readable t.pmm.mem d (p * pageSize) ∧ byteIn t.pmm.mem d (p * pageSize) = some (s.pmm.mem (b * pageSize)) := by
  have walkable := sound.walkable
  have free : b ∈ freeBlocks s.pmm := by simp [shape]
  obtain ⟨highB, smallB⟩ := freeBlocks_high walkable.below free
  obtain ⟨index, number, aligned⟩ := page_index p
  have prepared := prepared_taken walkable shape
  have later : freeBlocks (bitmapSet s.pmm b) = c :: rest := freeBlocks_set walkable.below shape
  have same (i : Nat) (small : i < 1023) : entry (bitmapSet s.pmm b).mem d i = entry s.pmm.mem d i :=
    entry_agree (fun x above below => bitmapSet_agree walkable.below free x
      (Nat.le_trans (taken_aligned walkable.taken).2 above) below) (by omega)
  have soundU : Sound { s with pmm := bitmapSet s.pmm b } d := by
    refine sound_grown sound prepared.grown (fun _ => False.elim) (fun _ _ => False.elim) fun f table => .inl ?_
    obtain ⟨i, small, found⟩ := table
    dsimp only at found
    rw [same i small] at found
    exact ⟨i, small, found⟩
  have reachedU : Identity { s with pmm := bitmapSet s.pmm b } (c * pageSize) :=
    (identity_free sound prepared.grown (fun _ => False.elim) (fun _ _ => False.elim)
      (show c ∈ freeBlocks (bitmapSet s.pmm b) by simp [later])).mpr reached
  have absentU : ¬ isPresent (entry (bitmapSet s.pmm b).mem d (p / 1024)) = true := by rwa [same _ (by omega)]
  obtain ⟨t, ran, placed, -⟩ := place_absent soundU high top prepared.taken absentU later reachedU
  refine ⟨t, ran, placed_readable placed top absentU, ?_⟩
  rcases fresh_map prepared (by omega) aligned (by unfold pageSize; omega) ran with ⟨-, none⟩ | ⟨fresh, content⟩
  · rw [later] at none
    cases none
  · have page : 0 < pageSize := by decide
    unfold byteIn
    rw [fresh.page, Option.map_some, content _ (Nat.le_refl _) (Nat.lt_add_of_pos_right page)]
    have frame : AgreeOn s.pmm.mem (bitmapSet s.pmm b).mem 0x300000 (b * pageSize + 1) :=
      bitmapSet_agree walkable.below free
    exact congrArg some (frame _ (by unfold pageSize; omega) (Nat.lt_succ_self _))

/-- A page of the heap is cleared. -/
theorem sbrk_cleared (sound : Sound s d) (high : 0x800 ≤ p) (top : p < 0xFFC00)
    (shape : freeBlocks s.pmm = b :: c :: rest) (reached : Identity s (b * pageSize))
    (reached' : Identity s (c * pageSize)) (absent : ¬ isPresent (entry s.pmm.mem d (p / 1024)) = true) :
    ∃ t, sbrkPages d 1 (p * pageSize) s = .ok (false, t) ∧ Readable t.pmm.mem d (p * pageSize) ∧
      byteIn t.pmm.mem d (p * pageSize) = some 0 := by
  have walkable := sound.walkable
  obtain ⟨index, number, aligned⟩ := page_index p
  obtain ⟨prepared, -⟩ := cleared_prepared (fun _ => False) walkable shape
  have later : freeBlocks (cleared s b).pmm = c :: rest := cleared_free walkable shape
  have table : Identity (cleared s b) (c * pageSize) :=
    (identity_free sound prepared.grown (fun _ => False.elim) (fun _ _ => False.elim) (by simp [later])).mpr reached'
  have absent' : ¬ isPresent (entry (cleared s b).pmm.mem d (p / 1024)) = true := by
    rwa [cleared_entry walkable shape (by omega)]
  obtain ⟨t, ran, placed, -⟩ := place_absent (cleared_sound sound shape) high top prepared.taken absent' later table
  refine ⟨t, ?_, placed_readable placed top absent', ?_⟩
  · rw [sbrkPages_succ walkable shape _ ((identity_taken sound shape).mpr reached), ran]
    rfl
  · rcases fresh_map prepared (by omega) aligned (by unfold pageSize; omega) ran with
      ⟨-, none⟩ | ⟨fresh, content⟩
    · rw [later] at none
      cases none
    · have page : 0 < pageSize := by decide
      unfold byteIn
      rw [fresh.page, Option.map_some, content _ (Nat.le_refl _) (Nat.lt_add_of_pos_right page)]
      exact congrArg some (if_pos ⟨Nat.le_refl _, Nat.lt_add_of_pos_right page⟩)

/-- The machine with another byte at the start of a frame. -/
def altered (s : Machine) (b : Nat) : Machine :=
  s.store fun x => if x = b * pageSize then s.pmm.mem x + 1 else s.pmm.mem x

theorem altered_outside (s : Machine) (b lo hi : Nat) (apart : hi ≤ b * pageSize ∨ b * pageSize + pageSize ≤ lo) :
    AgreeOn s.pmm.mem (altered s b).pmm.mem lo hi := by
  intro x above below
  unfold pageSize at apart
  exact if_neg (by unfold pageSize; omega)

theorem altered_alike (below : BitmapBelow s.pmm) (free : b ∈ freeBlocks s.pmm) : Alike s (altered s b) := by
  refine ⟨below, nofun, ⟨rfl, rfl⟩, ⟨rfl, rfl, rfl, rfl⟩, fun x held _ => if_neg ?_⟩
  rintro rfl
  rw [Nat.mul_div_cancel b (by decide)] at held
  obtain ⟨inside, clear⟩ := mem_freeBlocks.mp free
  exact held ⟨by omega, clear⟩

theorem altered_grown (walkable : Walkable s d) (free : b ∈ freeBlocks s.pmm) :
    Grown s (altered s b) d (fun _ => False) ∧ ∀ f, IsTable (altered s b).pmm.mem d f →
    IsTable s.pmm.mem d f := by
  have ne (f : Nat) (taken : Taken s.pmm f) : f ≠ b * pageSize := fun same => free_not_taken free (same ▸ taken)
  have plain : ¬ IsTable s.pmm.mem d (b * pageSize) := fun table => ne _ (walkable.tables _ table).1 rfl
  have clear := frames_apart (taken_aligned walkable.taken).1 (Nat.mul_mod_left b pageSize) (ne d walkable.taken)
  constructor
  · exact grown_store (grown_refl walkable) free (freeBlocks_high walkable.below free).1
      (Ne.symm (ne d walkable.taken)) plain
      (altered_outside s b)
  · exact fun f table => (isTable_agree (altered_outside s b _ _ clear)).mp table

theorem altered_sound (sound : Sound s d) (free : b ∈ freeBlocks s.pmm) : Sound (altered s b) d := by
  obtain ⟨grown, tables⟩ := altered_grown sound.walkable free
  exact sound_grown sound grown (fun _ => False.elim) (fun _ _ => False.elim) fun f table => .inl (tables f table)

/-- A page that shows the first free frame differs when the frame does. -/
theorem altered_differs (sound : Sound s d) (high : 0x800 ≤ p) (top : p < 0xC0000)
    (shape : freeBlocks s.pmm = b :: c :: rest)
    (reached : Identity s (c * pageSize)) (absent : ¬ isPresent (entry s.pmm.mem d (p / 1024)) = true) :
    ∃ t t', vmmMapPageInDirectory { s with pmm := bitmapSet s.pmm b } d (b * pageSize) (p * pageSize) userPage =
    .ok t ∧
      vmmMapPageInDirectory { altered s b with pmm := bitmapSet (altered s b).pmm b } d (b * pageSize) (p * pageSize)
        userPage = .ok t' ∧ ∀ task, task.pageDirectory = d → ¬ SameBytes ⟨t, task⟩ ⟨t', task⟩ := by
  have free : b ∈ freeBlocks s.pmm := by simp [shape]
  have alike := altered_alike sound.walkable.below free
  have index := (page_index p).1
  have absent' : ¬ isPresent (entry (altered s b).pmm.mem d (p / 1024)) = true := by
    rwa [twins_entry alike sound.walkable apart_none (show p / 1024 < 1024 by omega)]
  have reached' : Identity (altered s b) (c * pageSize) :=
    (identity_free sound (altered_grown sound.walkable free).1 (fun _ => False.elim) (fun _ _ => False.elim)
      (by rw [twins_free alike, shape]; simp)).mpr reached
  obtain ⟨t, ran, readable, shown⟩ := mapped_bytes sound high (by omega) shape reached absent
  obtain ⟨t', ran', -, shown'⟩ := mapped_bytes (altered_sound sound free) high (by omega)
    ((twins_free alike).trans shape) reached' absent'
  refine ⟨t, t', ran, ran', fun task directory same => ?_⟩
  subst directory
  have equal := (same.2 (p * pageSize) (by unfold kernelVirtStart pageSize; omega)).2 readable
  dsimp only at equal
  rw [shown, shown', Option.some.injEq] at equal
  have changed : (altered s b).pmm.mem (b * pageSize) = s.pmm.mem (b * pageSize) + 1 := if_pos rfl
  rw [changed] at equal
  exact absurd equal (by simp)

/-! ## After boot -/

/-- A task in the kernel's directory. -/
def firstTask (s : Machine) : Task := ⟨s.kernelDirectory, 0x10000000, 0x10000000, 0x10000000⟩

/-- The first two free frames after boot, and a task on the machine with either
content of the first. -/
theorem booted_begins : ∃ s, bootedMachine (2 ^ 20 + 1) ram128 (fun _ => 0) = some s ∧ Sound s s.kernelDirectory ∧
    Begins ⟨s, firstTask s⟩ ⟨altered s 0x303, firstTask s⟩ ∧
    (∃ rest, freeBlocks s.pmm = 0x303 :: 0x304 :: rest) ∧
    (∀ b, 0x300 ≤ b → b < 0x600 → Identity s (b * pageSize)) ∧ ∀ i, 2 ≤ i → i < 1023 →
    isPresent (entry s.pmm.mem s.kernelDirectory i) = false := by
  obtain ⟨pmm, b0, b1, b2, ran, booted, free, supervisor⟩ := ram128_kernel
  have sound : Sound (bootMachine pmm (b0 * pageSize)) (b0 * pageSize) := booted_sound booted fun b member => by
    rw [free] at member
    have := List.mem_range'_1.mp member
    omega
  have shape : freeBlocks pmm = 0x303 :: 0x304 :: List.range' 0x305 0x7CFB := free
  refine ⟨_, ran, sound, ?_, ⟨_, shape⟩, ?_, booted.absent⟩
  · refine .running (altered_alike booted.below (by simp [bootMachine,
      shape])) (booted_owned booted) rfl (fun i small => ?_)
      (⟨by decide, by decide, by decide⟩ : Cursor 0x10000000)
    refine ⟨?_, supervisor i small⟩
    rcases Nat.lt_or_ge i 1 with zero | one
    · obtain rfl : i = 0 := by omega
      exact booted.first.1.1
    · obtain rfl : i = 1 := by omega
      exact booted.first.2.1
  · exact fun b low high => identity_of_window (booted_spaces booted) ⟨low, by omega, .inl high⟩

/-- The task after its first page. -/
def nextTask (s : Machine) : Task := { firstTask s with nextUserVaddr := 0x10001000 }

theorem firstTask_allocPage (walkable : Walkable s s.kernelDirectory) (shape : freeBlocks s.pmm = b :: rest)
    (mapped : vmmMapPageInDirectory { s with pmm := bitmapSet s.pmm b } s.kernelDirectory (b * pageSize) 0x10000000
      userPage = .ok t) : serve ⟨s, firstTask s⟩ .allocPage = .ok (0x10000000, ⟨t, nextTask s⟩) := by
  have inside : ¬ ((firstTask s).nextUserVaddr < userVirtMin ∨ userStackTop ≤ (firstTask s).nextUserVaddr) := by
    change ¬ (0x10000000 < userVirtMin ∨ userStackTop ≤ 0x10000000)
    decide
  unfold serve
  dsimp only
  rw [sysAllocPage_maps walkable shape inside mapped]
  unfold nextTask firstTask
  dsimp only
  rw [cursor_next]

/-- The task after the first page of its heap. -/
def heapTask (s : Machine) : Task := { firstTask s with heapBreak := 0x10001000 }

theorem firstTask_sbrk (ran : sbrkPages s.kernelDirectory 1 0x10000000 t = .ok (false, u)) :
    serve ⟨t, firstTask s⟩ (.sbrk 0x1000) = .ok (0x10000000, ⟨u, heapTask s⟩) := by
  have set : withBreak (firstTask s) = firstTask s := if_neg (show ¬ 0x10000000 = 0 by decide)
  have last : (firstTask s).heapBreak = 0x10000000 := rfl
  have inside : ¬ (sbrkLimit ≤ (0x10000000 + 0x1000) % 2 ^ 32 ∨ (0x10000000 + 0x1000) % 2 ^ 32 < 0x10000000) := by
    decide
  have start : pageUp 0x10000000 = 0x10000000 := by decide
  have count : (pageUp ((0x10000000 + 0x1000) % 2 ^ 32) - 0x10000000) / pageSize = 1 := by decide
  unfold serve sysSbrk
  dsimp only
  rw [set, last, if_neg (by decide), if_neg (by decide), if_neg inside, start, count]
  rw [show sbrkPages (firstTask s).pageDirectory 1 0x10000000 t = .ok (false, u) from ran]
  rfl

end

end MeowMeowOS.HiddenBytes

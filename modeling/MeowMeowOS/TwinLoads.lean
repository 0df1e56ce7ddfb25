import MeowMeowOS.TwinMachines

/-! A program loaded on two machines that differ only in what their free frames
hold. Every page that the loader maps is cleared, so the machines stay so. -/
namespace MeowMeowOS.TwinLoads
open ByteMemory PhysicalFrames VirtualMemory BootFrames FreeFrames AddressSpaces DirectoryLayout MappedPages ElfLoading
open LoadedImage TaskMemory PageEntries HeapGrowth OwnedPages LoadedTasks TwinMachines

section
variable {s s' t t' : Machine} {m m' : Mem} {b d v p x remaining : Nat} {rest : List Nat}
    {file : List UInt8} {ph : Elf32Phdr} {beyond : Mem}
  {granted : Bool} {argv : List (List UInt8)} {unset : Nat → Nat} {r r' : Loaded}

/-! ## Stores -/

theorem memcpy_at (dest : Nat) (bytes : List UInt8) (same : m' x = m x) :
    memcpy m' dest bytes x = memcpy m dest bytes x := by
  unfold memcpy
  rw [same]

theorem setEntry_at (table i v : Nat) (same : m' x = m x) : setEntry m' table i v x = setEntry m table i v x :=
  writeWord_at _ _ _ same

/-- What is copied is the same, so where the memories agree they still do. -/
theorem copyTable_at {dest src : Nat} (apart : dest + pageSize ≤ src ∨ src + pageSize ≤ dest)
    (source : AgreeOn m m' src (src + pageSize)) (same : m' x = m x) {n : Nat} (small : n ≤ 1024) :
    copyTable m' dest src n x = copyTable m dest src n x := by
  induction n with
  | zero => exact same
  | succ n ih =>
    have entries (m : Mem) : entry (copyTable m dest src n) src n = entry m src n :=
      (copyTable_entries apart n (by omega)).2.1 n (by omega)
    have step (m : Mem) : copyTable m dest src (n + 1) = setEntry (copyTable m dest src n) dest n (entry m src n) := by
      rw [← entries m]
      unfold copyTable
      rw [List.range_succ, List.foldl_append]
      rfl
    rw [step m', step m, entry_agree source (by omega)]
    exact setEntry_at _ _ _ (ih (by omega))

/-- The copied arguments do not depend on what the page held. -/
structure SameStrings (x : Nat) (strings strings' : Strings) : Prop where
  mem : strings'.mem x = strings.mem x
  strPos : strings'.strPos = strings.strPos
  argvPtrs : strings'.argvPtrs = strings.argvPtrs
  done : strings'.done = strings.done

theorem copyArgument_same (same : SameStrings x strings strings') (physBase i : Nat) (argument : List UInt8) :
    SameStrings x (copyArgument physBase strings i argument) (copyArgument physBase strings' i argument) := by
  obtain ⟨mem, strPos, argvPtrs, done⟩ := same
  unfold copyArgument
  rw [strPos, argvPtrs, done]
  dsimp only
  split
  · exact ⟨mem, rfl, rfl, rfl⟩
  · exact ⟨memcpy_at _ _ mem, rfl, rfl, rfl⟩

theorem copyArguments_same (same : SameStrings x strings strings') (physBase : Nat) (argv : List (List UInt8)) :
    SameStrings x (copyArguments physBase strings argv) (copyArguments physBase strings' argv) := by
  unfold copyArguments
  generalize argv.zipIdx = arguments
  induction arguments generalizing strings strings' with
  | nil => exact same
  | cons argument rest ih => exact ih (copyArgument_same same _ _ _)

theorem foldl_setEntry_at (base : Nat) (f : Nat → Nat) (l : List Nat) (same : m' x = m x) :
    l.foldl (fun m i => setEntry m base i (f i)) m' x = l.foldl (fun m i => setEntry m base i (f i)) m x := by
  induction l generalizing m m' with
  | nil => exact same
  | cons i l ih => exact ih (setEntry_at _ _ _ same)

theorem placeArguments_at (physBase : Nat) (argv : List (List UInt8)) (unset : Nat → Nat) (same : m' x = m x) :
    placeArguments m' physBase argv unset x = placeArguments m physBase argv unset x := by
  have start : SameStrings x ⟨m, pageSize - 256, unset, false⟩ ⟨m', pageSize - 256, unset, false⟩ :=
    ⟨same, rfl, rfl, rfl⟩
  obtain ⟨mem, strPos, argvPtrs, -⟩ := copyArguments_same start physBase (argv.take 63)
  unfold placeArguments
  dsimp only
  rw [strPos, argvPtrs]
  apply setEntry_at
  apply setEntry_at
  exact foldl_setEntry_at _ _ _ mem

/-! ## Segments -/

theorem twins_readPage (alike : Alike s s') (high : 0x300000 ≤ phys) (ran : readPage s phys ph file virt = .ok t)
    (ran' : readPage s' phys ph file virt = .ok t') : Alike t t' := by
  unfold readPage at ran ran'
  dsimp only at ran ran'
  generalize (if virt < ph.pVaddr then ph.pVaddr - virt else 0) = dest at ran ran'
  generalize (if virt < ph.pVaddr then 0 else virt - ph.pVaddr) = seg at ran ran'
  generalize (if seg < ph.pFilesz then min (ph.pFilesz - seg) ((pageSize +
    2 ^ 32 - dest) % 2 ^ 32) else 0) = len at ran ran'
  split at ran
  · rename_i none
    rw [if_pos none] at ran'
    cases ran
    cases ran'
    exact alike
  · rename_i some
    rw [if_neg some] at ran'
    by_cases leaves : pageSize < dest + len
    · rw [if_pos leaves] at ran
      cases ran
    · rw [if_neg leaves] at ran ran'
      split at ran
      · cases ran
      · split at ran'
        · cases ran'
        · cases ran
          cases ran'
          refine twins_store alike nofun (memcpy_outside (.inl (by omega))) fun x free other => ?_
          exact memcpy_at _ _ (alike.memory x free other)

theorem twins_loadPage (alike : Alike s s') (owned : Owned s d) (top : v < 0xFFC00)
    (place : (startPage ph + p * pageSize) % 2 ^ 32 = v * pageSize) (ran : loadPage s d ph file p = .ok t)
    (ran' : loadPage s' d ph file p = .ok t') : Alike t t' := by
  have walkable := owned.walkable
  unfold loadPage at ran ran'
  rw [place] at ran ran'
  rcases twins_alloc alike with ⟨-, failed, -⟩ | ⟨b, rest, shape, high, nonzero, handed, handed', -⟩
  · rw [failed] at ran
    dsimp only at ran
    rw [if_pos rfl] at ran
    cases ran
  · rw [handed] at ran
    rw [handed'] at ran'
    dsimp only at ran ran'
    rw [if_neg nonzero] at ran ran'
    split at ran
    · cases ran
    · split at ran'
      · cases ran'
      · split at ran
        · cases ran
        · rename_i u mapped
          split at ran'
          · cases ran'
          · rename_i u' mapped'
            obtain ⟨index, -, -⟩ := page_index v
            have prepared := (cleared_prepared (fun _ => False) walkable shape).1
            have cleared := twins_cleared alike (show b ∈ freeBlocks s.pmm by simp [shape])
            have alikeU : Alike u u' := twins_map cleared prepared.grown.walkable apart_none (by omega) mapped mapped'
            refine twins_readPage alikeU ?_ ran ran'
            unfold pageSize
            omega

theorem twins_loadPages (alike : Alike s s') (owned : Owned s d) (user : InUserSpace ph)
    (within : p + remaining ≤ (ph.pVaddr + ph.pMemsz + 0xFFF) / pageSize - ph.pVaddr / pageSize)
    (ran : loadPages d ph file remaining p s = .ok t) (ran' : loadPages d ph file remaining p s' = .ok t') :
    Alike t t' := by
  obtain ⟨low, high⟩ := user
  induction remaining generalizing p s s' with
  | zero =>
    cases ran
    cases ran'
    exact alike
  | succ remaining ih =>
    unfold loadPages at ran ran'
    split at ran
    · cases ran
    · rename_i u ranPage
      split at ran'
      · cases ran'
      · rename_i u' ranPage'
        have place : (startPage ph + p * pageSize) % 2 ^ 32 = (ph.pVaddr / pageSize + p) * pageSize := by
          unfold startPage frameOf kernelVirtStart pageSize at *
          omega
        have bounds : 0 < ph.pVaddr / pageSize + p ∧ ph.pVaddr / pageSize + p < 0xFFC00 := by
          unfold kernelVirtStart userVirtMin pageSize at *
          omega
        obtain ⟨ownedU, -⟩ := loadPage_owned owned bounds.1 bounds.2 place ranPage
        exact ih (twins_loadPage alike owned bounds.2 place ranPage ranPage') ownedU (by omega) ran ran'

theorem twins_loadSegments (phdrs : List Elf32Phdr) (user : ∀ ph ∈ loads phdrs, InUserSpace ph) (alike : Alike s s')
    (owned : Owned s d) (ran : loadSegments d file phdrs s = .ok t) (ran' : loadSegments d file phdrs s' = .ok t') :
    Alike t t' := by
  induction phdrs generalizing s s' with
  | nil =>
    cases ran
    cases ran'
    exact alike
  | cons ph others ih =>
    unfold loadSegments at ran ran'
    split at ran
    · cases ran
    · rename_i u ranSegment
      split at ran'
      · cases ran'
      · rename_i u' ranSegment'
        obtain ⟨own, rest⟩ := loads_cons user
        obtain ⟨ownedU, -⟩ := loadSegment_owned owned own ranSegment
        refine ih rest ?_ ownedU ran ran'
        unfold loadSegment at ranSegment ranSegment'
        split at ranSegment
        · rename_i load
          have count := pageCount_user (own load)
          rw [if_pos load] at ranSegment'
          exact twins_loadPages alike owned (own load) (by omega) ranSegment ranSegment'
        · rename_i other
          rw [if_neg other] at ranSegment'
          cases ranSegment
          cases ranSegment'
          exact alike

/-! ## Stack and arguments -/

theorem twins_addPage (alike : Alike s s') (walkable : Walkable s d) (small : pdIndex virt < 1023)
    (ran : addPage s d virt = .ok (phys, t)) (ran' : addPage s' d virt = .ok (phys', t')) :
    phys' = phys ∧ 0x300000 ≤ phys ∧ Alike t t' := by
  unfold addPage at ran ran'
  rcases twins_alloc alike with ⟨-, failed, -⟩ | ⟨b, rest, shape, high, nonzero, handed, handed', taken⟩
  · rw [failed] at ran
    dsimp only at ran
    rw [if_pos rfl] at ran
    cases ran
  · rw [handed] at ran
    rw [handed'] at ran'
    dsimp only at ran ran'
    rw [if_neg nonzero] at ran ran'
    split at ran
    · cases ran
    · rename_i u mapped
      split at ran'
      · cases ran'
      · rename_i u' mapped'
        split at ran
        · cases ran
        · split at ran'
          · cases ran'
          · obtain ⟨grown, -, -, ne, plain⟩ := prepared_taken walkable shape
            have whole (c : Nat) (was : False ∨ c = b) : c * pageSize = b * pageSize := by rw [was.resolve_left id]
            have apart : Apart (fun c => False ∨ c = b) { s with pmm := bitmapSet s.pmm b } d := by
              refine ⟨fun was => ne ?_, fun f table was => plain ?_⟩
              · rw [← whole _ was]
                exact Nat.div_mul_cancel (Nat.dvd_of_mod_eq_zero (taken_aligned walkable.taken).1)
              · rw [← whole _ was,
                  Nat.div_mul_cancel (Nat.dvd_of_mod_eq_zero (taken_aligned (grown.walkable.tables f table).1).1)]
                exact table
            have alikeU := twins_map taken grown.walkable apart small mapped mapped'
            cases ran
            cases ran'
            refine ⟨rfl, by unfold pageSize; omega, ?_⟩
            exact twins_clear alikeU high (fun c was ne => was.elim id fun same => ne same) nofun

theorem twins_loadStack (alike : Alike s s') (owned : Owned s d) (ran : loadStack s d argv unset = .ok t)
    (ran' : loadStack s' d argv unset = .ok t') : Alike t t' := by
  unfold loadStack at ran ran'
  split at ran
  · cases ran
  · rename_i stackPhys first ranStack
    split at ran'
    · cases ran'
    · rename_i stackPhys' first' ranStack'
      obtain ⟨rfl, high, alikeFirst⟩ := twins_addPage alike owned.walkable (by decide) ranStack ranStack'
      obtain ⟨ownedFirst, -⟩ := addPage_owned (v := 0xBFFFF) owned (by decide) (by decide) ranStack
      split at ran
      · cases ran
      · rename_i tlsPhys second ranTls
        split at ran'
        · cases ran'
        · rename_i tlsPhys' second' ranTls'
          obtain ⟨-, -, alikeSecond⟩ := twins_addPage alikeFirst ownedFirst.walkable (by decide) ranTls ranTls'
          split at ran
          · cases ran
          · split at ran'
            · cases ran'
            · cases ran
              cases ran'
              refine twins_store alikeSecond nofun (placeArguments_outside _ _ _ _ (.inl high)) fun x free other => ?_
              exact placeArguments_at _ _ _ (alikeSecond.memory x free other)

/-! ## The new directory -/

/-- A cleared frame with the entries of the directory `src`. -/
def directoryOf (m : Mem) (frame src : Nat) : Mem :=
  setEntry (copyTable m frame src 1023) frame 1023 (frame ||| pagePresent ||| pageWrite)

theorem twins_directory (alike : Alike s s') (walkable : Walkable s d)
    (shape : freeBlocks s.pmm = b :: rest) (same : d' = d) :
    Alike ((cleared s b).store (directoryOf (cleared s b).pmm.mem (b * pageSize) d))
      ((cleared s' b).store (directoryOf (cleared s' b).pmm.mem (b * pageSize) d')) := by
  subst same
  have emptied := twins_cleared alike (show b ∈ freeBlocks s.pmm by simp [shape])
  have prepared := (cleared_prepared (fun _ => False) walkable shape).1
  have apart := frames_apart (Nat.mul_mod_left b pageSize) (taken_aligned walkable.taken).1 prepared.apart.1
  have source := twins_page emptied prepared.grown.walkable.taken id
  have low := (taken_aligned prepared.taken).2
  refine twins_store emptied nofun ?_ fun x free other => ?_
  · have outside := (copyTable_entries (m := (cleared s b).pmm.mem) apart 1023 (by decide)).2.2
    exact agreeOn_trans (outside _ _ (.inl low)) (setEntry_outside (by decide) (.inl low))
  · exact setEntry_at _ _ _ (copyTable_at apart source (emptied.memory x free other) (by decide))

theorem twins_listed {l l' : List Nat} (alike : Alike s s') (same : l' = l) :
    Alike { s with directories := l } { s' with directories := l' } :=
  ⟨alike.below, alike.held, alike.frames, ⟨alike.same.1, alike.same.2.1, alike.same.2.2.1, same⟩, alike.memory⟩

theorem twins_create (alike : Alike s s') (walkable : Walkable s s.kernelDirectory)
    (ran : vmmCreateDirectory s = .ok (d, t))
    (ran' : vmmCreateDirectory s' = .ok (d', t')) : d' = d ∧ Alike t t' := by
  unfold vmmCreateDirectory at ran ran'
  rcases twins_alloc alike with ⟨-, failed, failed'⟩ | ⟨b, rest, shape, high, nonzero, handed, handed', -⟩
  · rw [failed] at ran
    rw [failed'] at ran'
    dsimp only at ran ran'
    rw [if_pos rfl] at ran ran'
    cases ran
    cases ran'
    exact ⟨rfl, alike⟩
  · rw [handed] at ran
    rw [handed'] at ran'
    dsimp only at ran ran'
    rw [if_neg nonzero] at ran ran'
    split at ran
    · cases ran
    · split at ran'
      · cases ran'
      · split at ran
        · cases ran
        · split at ran'
          · cases ran'
          · have made := twins_directory alike walkable shape alike.same.1
            have listed := twins_listed made (congrArg (b * pageSize :: ·) alike.same.2.2.2)
            cases ran
            cases ran'
            exact ⟨rfl, listed⟩

/-! ## The call -/

/-- What loads on both gives the same task on machines that are alike. -/
theorem twins_elfLoad (alike : Alike s s') (owned : Owned s s.kernelDirectory)
    (user : ∀ ph ∈ loads (programHeaders file beyond), InUserSpace ph)
    (ran : elfLoad s file granted beyond argv unset = .ok r)
    (ran' : elfLoad s' file granted beyond argv unset = .ok r') :
    r'.directory = r.directory ∧ r'.maxVaddr = r.maxVaddr ∧ Alike r.machine r'.machine := by
  obtain ⟨next, filled, stages⟩ := elfLoad_stages ran
  obtain ⟨next', filled', stages'⟩ := elfLoad_stages ran'
  obtain ⟨same, alikeNext⟩ := twins_create alike owned.walkable stages.created stages'.created
  refine ⟨same, stages'.highest.trans stages.highest.symm, ?_⟩
  have segments' := stages'.segments
  have stack' := stages'.stack
  rw [same] at segments' stack'
  rcases createDirectory_copied owned.walkable stages.created with ⟨free, below⟩ | copied
  · exact (loadStack_exhausted (loadSegments_exhausted _ ⟨below, free⟩ stages.segments) stages.stack).elim
  · have ownedNext := copied_owned owned copied
    have alikeFilled := twins_loadSegments _ user alikeNext ownedNext stages.segments segments'
    obtain ⟨ownedFilled, -⟩ := loadSegments_owned _ user ownedNext stages.segments
    exact twins_loadStack alikeFilled ownedFilled stages.stack stack'

end

end MeowMeowOS.TwinLoads

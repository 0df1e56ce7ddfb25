import MeowMeowOS.LoadedFiles
import MeowMeowOS.LoadedTasks

/-! The arguments on a new program's stack page. They are put below the stack pointer that the
program starts with, where its first pushes go. -/
namespace MeowMeowOS.ProgramArguments
open ByteMemory PhysicalFrames VirtualMemory AddressSpaces DirectoryLayout ElfLoading LoadedTasks LoadedFiles
  BootDirectories
open BootFrames (agreeOn_trans)
open HeapFrames (ram128)

/-- The initial stack pointer, on the page. -/
def userEsp : Nat := pageSize - 16

/-- Two ranges of the page. -/
def Apart (a n b m : Nat) : Prop := a + n ≤ b ∨ b + m ≤ a

/-- The page holds the arguments: the array of pointers is at `array`, the copies are at
`strings`. -/
structure Placed (page : Mem) (argv : List (List UInt8)) (array : Nat) (strings : Nat → Nat) : Prop where
  count : readWord page userEsp = argv.length
  address : readWord page (userEsp + 4) = userStackPage + array
  pointers : ∀ i < argv.length, readWord page (array + 4 * i) = userStackPage + strings i
  last : readWord page (array + 4 * argv.length) = 0
  copies : ∀ i (inside : i < argv.length), ∀ j ≤ argv[i].length, page (strings i + j) = (argv[i] ++ [0]).getD j 0
  arrayInside : array + 4 * (argv.length + 1) ≤ pageSize
  stringsInside : ∀ i (inside : i < argv.length), strings i + argv[i].length < pageSize
  arrayApart : Apart userEsp 8 array (4 * (argv.length + 1))
  stringsApart : ∀ i (inside : i < argv.length), Apart userEsp 8 (strings i) (argv[i].length + 1) ∧
    Apart array (4 * (argv.length + 1)) (strings i) (argv[i].length + 1) ∧
    ∀ j (inside' : j < argv.length), i ≠ j →
    Apart (strings i) (argv[i].length + 1) (strings j) (argv[j].length + 1)

/-- They are there, and out of the way of the program's stack. -/
structure Delivered (page : Mem) (argv : List (List UInt8)) (array : Nat) (strings : Nat → Nat) : Prop
    extends Placed page argv array strings where
  arrayAbove : userEsp ≤ array
  stringsAbove : ∀ i < argv.length, userEsp ≤ strings i

/-- The bytes of the arguments with their zeros. -/
def total (argv : List (List UInt8)) : Nat := (argv.map fun argument => argument.length + 1).sum

/-- Where an argument is copied to. -/
def stringAt (argv : List (List UInt8)) (i : Nat) : Nat := pageSize - 256 + total (argv.take i)

section
variable {m : Mem} {physBase : Nat} {argv : List (List UInt8)} {unset : Nat → Nat}

/-! ## Strings -/

theorem total_take_succ {i : Nat} (inside : i < argv.length) :
    total (argv.take (i + 1)) = total (argv.take i) + (argv[i].length + 1) := by
  unfold total
  rw [List.take_succ_eq_append_getElem inside, List.map_append, List.sum_append, List.map_singleton, List.sum_singleton]

theorem total_append (front back : List (List UInt8)) : total (front ++ back) = total front + total back := by
  unfold total
  rw [List.map_append, List.sum_append]

theorem total_take_le (argv : List (List UInt8)) {i j : Nat} (le : i ≤ j) :
    total (argv.take i) ≤ total (argv.take j) := by
  obtain ⟨k, rfl⟩ := Nat.exists_eq_add_of_le le
  rw [List.take_add, total_append]
  exact Nat.le_add_right _ _

theorem total_take_total (argv : List (List UInt8)) (i : Nat) : total (argv.take i) ≤ total argv := by
  have whole := total_take_le argv (Nat.le_max_left i argv.length)
  rwa [List.take_of_length_le (Nat.le_max_right i argv.length)] at whole

/-- What the loop over the arguments has done where all of them fit. -/
structure Copied (physBase : Nat) (before after : Strings) (argv : List (List UInt8)) (first : Nat) : Prop where
  done : after.done = false
  strPos : after.strPos = before.strPos + total argv
  pointers : ∀ i < argv.length, after.argvPtrs (first + i) = userStackPage + (before.strPos + total (argv.take i))
  others : ∀ j < first, after.argvPtrs j = before.argvPtrs j
  copies : ∀ i (inside : i < argv.length), ∀ j ≤ argv[i].length,
    after.mem (physBase + (before.strPos + total (argv.take i) + j)) = (argv[i] ++ [0]).getD j 0
  front : ∀ x < physBase + before.strPos, after.mem x = before.mem x

theorem copyArguments_copied (physBase : Nat) (argv : List (List UInt8)) (before : Strings) (first : Nat)
    (going : before.done = false)
    (fits : before.strPos + total argv ≤ userEsp) : Copied physBase before
      ((argv.zipIdx first).foldl (fun strings argument => copyArgument physBase strings argument.2 argument.1) before)
      argv first := by
  induction argv generalizing before first with
  | nil => exact ⟨going, rfl, nofun, fun _ _ => rfl, nofun, fun _ _ => rfl⟩
  | cons argument rest ih =>
    have sum : total (argument :: rest) = argument.length + 1 + total rest := List.sum_cons
    rw [sum] at fits
    rw [List.zipIdx_cons, List.foldl_cons]
    have step : copyArgument physBase before first argument =
        ⟨memcpy before.mem (physBase + before.strPos) (argument ++ [0]),
        before.strPos + (argument.length + 1), fun j =>
          if j = first then userStackPage + before.strPos else before.argvPtrs j, false⟩ := by
      unfold copyArgument
      dsimp only
      rw [if_neg]
      rw [going]
      unfold userEsp at fits
      rintro (stopped | long)
      · cases stopped
      · omega
    rw [step]
    obtain ⟨done, strPos, pointers, others, copies, front⟩ :=
      ih ⟨memcpy before.mem (physBase + before.strPos) (argument ++ [0]),
      before.strPos + (argument.length + 1), fun j =>
        if j = first then userStackPage + before.strPos else before.argvPtrs j, false⟩
      (first + 1) rfl (by dsimp only; omega)
    dsimp only at strPos pointers others copies front
    refine ⟨done, by rw [strPos, sum]; omega, fun i inside => ?_, fun j earlier => ?_,
      fun i inside j small => ?_, fun x before' => ?_⟩
    · cases i with
      | zero =>
        have here := others first (Nat.lt_succ_self first)
        rw [if_pos rfl] at here
        exact here
      | succ i =>
        have later := pointers i (Nat.lt_of_succ_lt_succ inside)
        have part : total ((argument :: rest).take (i + 1)) = argument.length + 1 + total (rest.take i) := List.sum_cons
        rw [show first + (i + 1) = first + 1 + i by omega, later, part]
        omega
    · rw [others j (by omega), if_neg (by omega)]
    · cases i with
      | zero =>
        change j ≤ argument.length at small
        have length : (argument ++ [(0 : UInt8)]).length = argument.length + 1 := List.length_append
        have place : physBase + (before.strPos + total ((argument :: rest).take 0) + j) =
            physBase + before.strPos + j :=
          (Nat.add_assoc _ _ _).symm
        rw [place, front _ (by omega), LoadedImage.getD_memcpy, if_pos (by omega)]
        rfl
      | succ i =>
        have part : total ((argument :: rest).take (i + 1)) = argument.length + 1 + total (rest.take i) := List.sum_cons
        have later := copies i (Nat.lt_of_succ_lt_succ inside) j small
        rw [part]
        rw [show before.strPos + (argument.length + 1) + total (rest.take i) + j =
          before.strPos + (argument.length + 1 + total (rest.take i)) + j by omega] at later
        exact later
    · rw [front x (by omega)]
      unfold memcpy
      rw [if_neg (by omega)]

/-! ## The array -/

theorem setEntries_entry (m : Mem) (table n : Nat) (f : Nat → Nat) :
    (∀ i < n, readWord ((List.range n).foldl (fun m i => setEntry m table i (f i)) m) (table + 4 * i) =
    f i % 2 ^ 32) ∧
      ∀ lo hi, hi ≤ table ∨ table + 4 * n ≤ lo →
      AgreeOn m ((List.range n).foldl (fun m i => setEntry m table i (f i)) m) lo hi := by
  induction n with
  | zero => exact ⟨nofun, fun _ _ _ _ _ _ => rfl⟩
  | succ n ih =>
    rw [List.range_succ, List.foldl_append, List.foldl_cons, List.foldl_nil]
    refine ⟨fun i small => ?_, fun lo hi apart => ?_⟩
    · by_cases last : i = n
      · subst last
        exact entry_setEntry _ _ _ _
      · exact (entry_setEntry_ne (Ne.symm last)).trans (ih.1 i (by omega))
    · exact agreeOn_trans (ih.2 lo hi (by omega)) (writeWord_agree _ _ _ _ _ (by omega))

/-- The arguments and the array take the 240 bytes below the stack pointer at most. -/
def Fit (argv : List (List UInt8)) : Prop :=
  argv.length ≤ 63 ∧ (total argv + 3) / 4 * 4 + 4 * (argv.length + 1) ≤ 240

theorem readWord_moved (m : Mem) (base a : Nat) : readWord (fun x => m (base + x)) a = readWord m (base + a) := rfl

/-- The last stores of the loader: the array, and the two words that the program finds at its stack
pointer. -/
theorem words_stored (m : Mem) (physBase offset argc : Nat) (f : Nat → Nat)
    (below : offset + 4 * (argc + 1) ≤ userEsp) (few : argc ≤ 63)
    {w : Mem} (stored : w = setEntry (setEntry ((List.range (argc +
    1)).foldl (fun m i => setEntry m (physBase + offset) i (f i)) m)
      (physBase + (pageSize - 16)) 0 argc) (physBase + (pageSize - 16)) 1 (userStackPage + offset)) :
    readWord w (physBase + userEsp) = argc ∧ readWord w (physBase + (userEsp + 4)) = userStackPage + offset ∧
      (∀ i ≤ argc, readWord w (physBase + (offset + 4 * i)) = f i % 2 ^ 32) ∧ AgreeOn m w 0
      (physBase + offset) := by
  obtain ⟨entries, outside⟩ := setEntries_entry m (physBase + offset) (argc + 1) f
  subst stored
  generalize (List.range (argc + 1)).foldl (fun m i => setEntry m (physBase + offset) i (f i)) m =
    a at entries outside ⊢
  have page : userEsp = pageSize - 16 := rfl
  rw [← page]
  have first : readWord (setEntry (setEntry a (physBase + userEsp) 0 argc) (physBase +
      userEsp) 1 (userStackPage + offset))
      (physBase + userEsp + 4 * 0) = argc % 2 ^ 32 := (entry_setEntry_ne (by decide)).trans (entry_setEntry _ _ _ _)
  have second : readWord (setEntry (setEntry a (physBase + userEsp) 0 argc) (physBase +
      userEsp) 1 (userStackPage + offset))
      (physBase + userEsp + 4 * 1) = (userStackPage + offset) % 2 ^ 32 := entry_setEntry _ _ _ _
  have kept : AgreeOn a (setEntry (setEntry a (physBase + userEsp) 0 argc) (physBase +
      userEsp) 1 (userStackPage + offset)) 0
      (physBase + userEsp) :=
    agreeOn_trans (writeWord_agree _ _ _ _ _ (Or.inr (Nat.le_refl _)))
      (writeWord_agree _ _ _ _ _ (Or.inr (Nat.le_add_right _ _)))
  generalize setEntry (setEntry a (physBase + userEsp) 0 argc) (physBase + userEsp) 1 (userStackPage +
    offset) = w at first second kept ⊢
  refine ⟨?_, ?_, fun i small => ?_,
    agreeOn_trans (outside _ _ (Or.inl (Nat.le_refl _))) fun x above under => kept x above (by omega)⟩
  · rw [Nat.mul_zero, Nat.add_zero] at first
    omega
  · rw [← Nat.add_assoc, ← Nat.mul_one 4, second]
    unfold userEsp userStackPage pageSize at *
    omega
  · rw [readWord_agree kept (Nat.zero_le _) (by omega), ← Nat.add_assoc]
    exact entries i (by omega)

/-- Arguments that fit are on the page when the program starts. -/
theorem placed_fit (m : Mem) (physBase : Nat) (argv : List (List UInt8)) (unset : Nat → Nat) (fit : Fit argv) : Placed
    (fun x => placeArguments m physBase argv unset (physBase + x)) argv (pageSize - 256 +
    (total argv + 3) / 4 * 4) (stringAt argv) := by
  obtain ⟨few, room⟩ := fit
  have copied := copyArguments_copied physBase argv ⟨m, pageSize - 256, unset, false⟩ 0 rfl
    (by unfold userEsp pageSize; dsimp only; omega)
  have upTo : ∀ i (inside : i < argv.length), total (argv.take i) + (argv[i].length + 1) ≤ total argv :=
    fun i inside => by
    rw [← total_take_succ inside]
    exact total_take_total argv (i + 1)
  generalize wordsEq : placeArguments m physBase argv unset = w
  unfold placeArguments copyArguments at wordsEq
  rw [List.take_of_length_le few] at wordsEq
  dsimp only at wordsEq
  generalize argv.zipIdx.foldl (fun strings argument => copyArgument physBase strings argument.2 argument.1)
    (⟨m, pageSize - 256, unset, false⟩ : Strings) = strings at copied wordsEq
  obtain ⟨-, strPos, pointers, -, copies, -⟩ := copied
  dsimp only at strPos pointers copies
  have aligned : (strings.strPos + 3) / 4 * 4 = pageSize - 256 + (total argv + 3) / 4 * 4 := by
    rw [strPos]
    unfold pageSize
    omega
  rw [aligned, if_neg (by unfold pageSize; omega)] at wordsEq
  obtain ⟨count, address, array, front⟩ :=
    words_stored _ physBase _ argv.length _ (by unfold userEsp pageSize; omega) few wordsEq.symm
  refine ⟨?_, ?_, fun i inside => ?_, ?_, fun i inside j small => ?_, ?_, fun i inside => ?_, ?_,
    fun i inside => ⟨?_, ?_, fun j inside' other => ?_⟩⟩
  · rw [readWord_moved, count]
  · rw [readWord_moved, address]
  · have stored := array i (Nat.le_of_lt inside)
    have pointer := pointers i inside
    have end' := upTo i inside
    rw [Nat.zero_add] at pointer
    rw [readWord_moved, stored, if_neg (Nat.ne_of_lt inside), pointer]
    unfold stringAt userStackPage pageSize
    omega
  · rw [readWord_moved, array _ (Nat.le_refl _), if_pos rfl, Nat.zero_mod]
  · have end' := upTo i inside
    rw [front _ (Nat.zero_le _) (by unfold stringAt pageSize; omega)]
    exact copies i inside j small
  · unfold pageSize
    omega
  · have end' := upTo i inside
    unfold stringAt pageSize
    omega
  · unfold Apart userEsp pageSize
    omega
  · have end' := upTo i inside
    unfold Apart userEsp stringAt pageSize
    omega
  · have end' := upTo i inside
    unfold Apart stringAt pageSize
    omega
  · unfold Apart stringAt
    obtain earlier | later := Nat.lt_or_gt_of_ne other
    · have next := total_take_le argv (Nat.succ_le_of_lt earlier)
      rw [Nat.succ_eq_add_one, total_take_succ inside] at next
      omega
    · have next := total_take_le argv (Nat.succ_le_of_lt later)
      rw [Nat.succ_eq_add_one, total_take_succ inside'] at next
      omega

/-- The array is stored in front of the stack pointer. -/
theorem placed_below (m : Mem) (physBase : Nat) (argv : List (List UInt8)) (unset : Nat → Nat) :
    ∃ array, array + 4 ≤ userEsp ∧ readWord (placeArguments m physBase argv unset)
    (physBase + userEsp + 4) = userStackPage + array := by
  have short : (argv.take 63).length ≤ 63 := List.length_take_le _ _
  unfold placeArguments
  dsimp only
  generalize copyArguments physBase ⟨m, pageSize - 256, unset, false⟩ (argv.take 63) = strings
  generalize (argv.take 63).length = argc at short ⊢
  generalize offsetEq : (if pageSize - 16 < (strings.strPos + 3) / 4 * 4 +
    (argc + 1) * 4 then pageSize - 16 - (argc + 1) * 4
    else (strings.strPos + 3) / 4 * 4) = offset
  have room : offset + 4 ≤ userEsp := by
    unfold userEsp pageSize at *
    split at offsetEq <;> omega
  refine ⟨offset, room, ?_⟩
  have stored := entry_setEntry (setEntry ((List.range (argc + 1)).foldl (fun m i => setEntry m (physBase + offset) i
    (if i = argc then 0 else strings.argvPtrs i)) strings.mem) (physBase +
      (pageSize - 16)) 0 argc) (physBase + (pageSize - 16)) 1
      (userStackPage + offset)
  unfold entry at stored
  unfold userEsp at room ⊢
  rw [Nat.mul_one] at stored
  rw [stored]
  unfold userStackPage pageSize at *
  omega

end

/-! ## Every program -/

/-- The frame of the stack page, which the loader takes once the segments are loaded. -/
def stackFrame (filled : Machine) (directory : Nat) : Option Nat :=
  match addPage filled directory userStackPage with
  | .error _ => none
  | .ok (phys, _) => some phys

theorem loadStack_places {s t : Machine} {d : Nat} {argv : List (List UInt8)} {unset : Nat → Nat}
    (ran : loadStack s d argv unset = .ok t) :
    ∃ phys m, stackFrame s d = some phys ∧ t.pmm.mem = placeArguments m phys argv unset := by
  unfold loadStack at ran
  unfold stackFrame
  cases stack : addPage s d userStackPage with
  | error stop =>
    rw [stack] at ran
    cases ran
  | ok made =>
    obtain ⟨phys, u⟩ := made
    rw [stack] at ran
    dsimp only at ran
    split at ran
    · cases ran
    · split at ran
      · cases ran
      · cases ran
        exact ⟨phys, _, rfl, rfl⟩

theorem loadStack_anyArguments {s t : Machine} {d : Nat} {argv : List (List UInt8)} {unset : Nat → Nat}
    (ran : loadStack s d argv unset = .ok t) (argv' : List (List UInt8)) (unset' : Nat → Nat) :
    ∃ t', loadStack s d argv' unset' = .ok t' := by
  unfold loadStack at ran ⊢
  cases stack : addPage s d userStackPage with
  | error stop =>
    rw [stack] at ran
    cases ran
  | ok first =>
    rw [stack] at ran
    dsimp only at ran ⊢
    cases tls : addPage first.2 d userTlsPage with
    | error stop =>
      rw [tls] at ran
      cases ran
    | ok second =>
      rw [tls] at ran
      dsimp only at ran ⊢
      by_cases stopped : ¬ Identity second.2 first.1
      · rw [if_pos stopped] at ran
        cases ran
      · rw [if_neg stopped]
        exact ⟨_, rfl⟩

/-- Whether a program is loaded does not depend on its arguments. -/
theorem elfLoad_anyArguments {s : Machine} {file : List UInt8} {granted : Bool} {beyond : Mem}
    {argv : List (List UInt8)}
    {unset : Nat → Nat} {r : Loaded} (ran : elfLoad s file granted beyond argv unset = .ok r)
    (argv' : List (List UInt8))
    (unset' : Nat → Nat) : ∃ r', elfLoad s file granted beyond argv' unset' = .ok r' := by
  obtain ⟨next, filled, stages⟩ := elfLoad_stages ran
  obtain ⟨t, stack⟩ := loadStack_anyArguments stages.stack argv' unset'
  unfold elfLoad at ran ⊢
  dsimp only at ran ⊢
  by_cases accepts : ¬ Accepts file
  · rw [if_pos accepts] at ran
    cases ran
  · rw [if_neg accepts] at ran ⊢
    by_cases refused : granted = false
    · rw [if_pos refused] at ran
      cases ran
    · rw [if_neg refused, stages.created]
      dsimp only [ofFault]
      rw [stages.segments]
      dsimp only
      rw [stack]
      exact ⟨_, rfl⟩

theorem not_delivered (m : Mem) (phys : Nat) (argv : List (List UInt8)) (unset : Nat → Nat) (array : Nat)
    (strings : Nat → Nat) :
    ¬ Delivered (fun x => placeArguments m phys argv unset (phys + x)) argv array strings := by
  intro delivered
  obtain ⟨place, below, stored⟩ := placed_below m phys argv unset
  have address := delivered.address
  have above := delivered.arrayAbove
  rw [readWord_moved, ← Nat.add_assoc, stored] at address
  omega

/-- No program that is loaded finds its arguments at or above its stack pointer. -/
theorem arguments_below {s : Machine} {file : List UInt8} {granted : Bool} {beyond : Mem} {argv : List (List UInt8)}
    {unset : Nat → Nat} {r : Loaded} (ran : elfLoad s file granted beyond argv unset = .ok r) :
    ∃ next filled phys, Stages s file beyond argv unset r next filled ∧
    stackFrame filled r.directory = some phys ∧
      ∀ array strings, ¬ Delivered (fun x => r.machine.pmm.mem (phys + x)) argv array strings := by
  obtain ⟨next, filled, stages⟩ := elfLoad_stages ran
  obtain ⟨phys, m, frame, placed⟩ := loadStack_places stages.stack
  refine ⟨next, filled, phys, stages, frame, ?_⟩
  rw [placed]
  exact not_delivered m phys argv unset

/-- A program with one argument. -/
theorem arguments_below_one : ∃ s r next filled phys, bootedMachine (2 ^ 20 + 1) ram128 (fun _ => 0) = some s ∧
    elfLoad s (smallFile 0x801000) true (fun _ => 0) [[0x6C, 0x73]] (fun _ => 0) = .ok r ∧
    Stages s (smallFile 0x801000) (fun _ => 0) [[0x6C, 0x73]] (fun _ => 0) r next filled ∧
    stackFrame filled r.directory = some phys ∧
    ∀ array strings, ¬ Delivered (fun x => r.machine.pmm.mem (phys + x)) [[0x6C, 0x73]] array strings := by
  have headers : programHeaders (smallFile 0x801000) (fun _ => 0) = [firstSegment, secondSegment 0x801000] := by
    decide +kernel
  obtain ⟨s, r, booted, -, ran⟩ := smallFile_loads 0x801000 (by decide) (by decide) (by decide +kernel) headers
  obtain ⟨r', ran'⟩ := elfLoad_anyArguments ran [[0x6C, 0x73]] fun _ => 0
  obtain ⟨next, filled, phys, stages, frame, below⟩ := arguments_below ran'
  exact ⟨s, r', next, filled, phys, booted, ran', stages, frame, below⟩

/-- The one argument is where the first pushes go, though there is room for it on the page. -/
theorem one_argument_below : ∃ s r next filled phys, bootedMachine (2 ^ 20 + 1) ram128 (fun _ => 0) = some s ∧
    elfLoad s (smallFile 0x801000) true (fun _ => 0) [[0x6C, 0x73]] (fun _ => 0) = .ok r ∧
    Stages s (smallFile 0x801000) (fun _ => 0) [[0x6C, 0x73]] (fun _ => 0) r next filled ∧
    stackFrame filled r.directory = some phys ∧
    Placed (fun x => r.machine.pmm.mem (phys + x)) [[0x6C, 0x73]] 3844 (stringAt [[0x6C, 0x73]]) ∧
    ∀ array strings, ¬ Delivered (fun x => r.machine.pmm.mem (phys + x)) [[0x6C, 0x73]] array strings := by
  have headers : programHeaders (smallFile 0x801000) (fun _ => 0) = [firstSegment, secondSegment 0x801000] := by
    decide +kernel
  obtain ⟨s, r, booted, -, ran⟩ := smallFile_loads 0x801000 (by decide) (by decide) (by decide +kernel) headers
  obtain ⟨r', ran'⟩ := elfLoad_anyArguments ran [[0x6C, 0x73]] fun _ => 0
  obtain ⟨next, filled, stages⟩ := elfLoad_stages ran'
  obtain ⟨phys, m, frame, placed⟩ := loadStack_places stages.stack
  have there := placed_fit m phys [[0x6C, 0x73]] (fun _ => 0) ⟨by decide, by decide⟩
  refine ⟨s, r', next, filled, phys, booted, ran', stages, frame, ?_, ?_⟩
  · rw [placed]
    exact there
  · rw [placed]
    exact not_delivered m phys _ _

end MeowMeowOS.ProgramArguments

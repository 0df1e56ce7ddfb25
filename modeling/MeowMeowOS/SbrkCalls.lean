import MeowMeowOS.HeapGrowth
import MeowMeowOS.PageMapping
import MeowMeowOS.BootDirectories

/-! `SYS_SBRK` as a whole: a call that does all of its work or none. -/
namespace MeowMeowOS.SbrkCalls
open ByteMemory PhysicalFrames VirtualMemory BootFrames FreeFrames AddressSpaces MappedPages ElfLoading
open DirectoryLayout PageMapping BootDirectories TaskMemory PageEntries HeapGrowth
open HeapFrames (ram128)

/-- The increment as the code reads it. -/
def increment (ebx : Nat) : Int := if ebx < 2 ^ 31 then ebx else ebx - 2 ^ 32

/-- Every address from `lo` up to `hi` is in a page that the program may use. -/
def MappedFrom (m : Mem) (d lo hi : Nat) : Prop := ∀ a, lo ≤ a → a < hi → UserWritable m d a

def SameTables (m m' : Mem) (d : Nat) : Prop :=
  ∀ i < 1024, entry m' d i = entry m d i ∧ (isPresent (entry m d i) = true →
    ∀ j < 1024, entry m' (frameOf (entry m d i)) j = entry m (frameOf (entry m d i)) j)

/-- The heap reaches up to the break that was asked for. -/
structure Grows (task : Task) (ebx : Nat) (t : Machine) (after : Task) : Prop where
  sum : (after.heapBreak : Int) = (withBreak task).heapBreak + increment ebx
  start : after.heapStart ≤ after.heapBreak
  limit : after.heapBreak < sbrkLimit
  mapped : MappedFrom t.pmm.mem task.pageDirectory after.heapStart after.heapBreak

structure Unchanged (s : Machine) (task : Task) (t : Machine) (after : Task) : Prop where
  heapBreak : after.heapBreak = task.heapBreak
  tables : SameTables s.pmm.mem t.pmm.mem task.pageDirectory
  frames : ∀ b, bitmapTest t.pmm b = bitmapTest s.pmm b

/-- All of the work is done, or none. -/
def AllOrNothing (s : Machine) (task : Task) (ebx : Nat) : Except Nat (Nat × Machine × Task) → Prop
  | .error _ => False
  | .ok (eax, t, after) => (eax = (withBreak task).heapBreak ∧ Grows task ebx t after) ∨
      (eax = minusOne ∧ Unchanged s task t after)

/-- A task between two of its instructions. -/
structure Runs (s : Machine) (task : Task) : Prop where
  sound : Sound s task.pageDirectory
  kernel : ∀ i < 2, isPresent (entry s.pmm.mem task.pageDirectory i) = true ∧
    isUser (entry s.pmm.mem task.pageDirectory i) = false
  breaks : task.heapStart ≤ task.heapBreak ∧ task.heapBreak < 2 ^ 32

/-- The number of the first page above an address. -/
def pageAbove (value : Nat) : Nat := pageUp value / pageSize

/-- The pages that the call adds. -/
def addedPages (oldBreak newBreak : Nat) : Nat := (pageUp newBreak - pageUp oldBreak) / pageSize

/-- The pages that the loop maps have tables that serve a program, or none yet,
and there are frames for all of them. -/
def Room (s : Machine) (d first n : Nat) : Prop :=
  (∀ v, first ≤ v → v < first + n → isPresent (entry s.pmm.mem d (v / 1024)) = true →
    grantsUser (entry s.pmm.mem d (v / 1024)) = true) ∧
  n + missing s.pmm.mem d first n ≤ (reachable s).length

/-- The calls that are served in full or refused without a trace. -/
def Served (s : Machine) (task : Task) (ebx : Nat) : Prop :=
  let d := task.pageDirectory
  let heapStart := (withBreak task).heapStart
  let oldBreak := (withBreak task).heapBreak
  let newBreak := (oldBreak + ebx) % 2 ^ 32
  if ebx = 0 then oldBreak = minusOne ∨ (oldBreak < sbrkLimit ∧ MappedFrom s.pmm.mem d heapStart oldBreak)
  else if 2 ^ 31 ≤ ebx then
    if newBreak < heapStart then task.heapBreak ≠ 0
    else 2 ^ 32 ≤ oldBreak + ebx ∧ newBreak < sbrkLimit ∧ MappedFrom s.pmm.mem d heapStart newBreak
  else if sbrkLimit ≤ newBreak ∨ newBreak < oldBreak then task.heapBreak ≠ 0
  else if addedPages oldBreak newBreak = 0 then MappedFrom s.pmm.mem d heapStart newBreak
  else if freeBlocks s.pmm = [] then task.heapBreak ≠ 0
  else MappedFrom s.pmm.mem d heapStart (pageUp oldBreak) ∧
    Room s d (pageAbove oldBreak) (addedPages oldBreak newBreak)

section
variable {s t : Machine} {task after : Task} {ebx d n : Nat}

theorem withBreak_directory (task : Task) : (withBreak task).pageDirectory = task.pageDirectory := by
  unfold withBreak
  split <;> rfl

theorem withBreak_breaks (runs : Runs s task) :
    (withBreak task).heapStart ≤ (withBreak task).heapBreak ∧ (withBreak task).heapBreak < 2 ^ 32 ∧
      (task.heapBreak ≠ 0 → (withBreak task).heapBreak = task.heapBreak) ∧
      (task.heapBreak = 0 → (withBreak task).heapBreak = 0x10000000) := by
  obtain ⟨order, word⟩ := runs.breaks
  by_cases unset : task.heapBreak = 0
  · have zero : task.heapStart = 0 := by omega
    have shape : withBreak task = { task with heapStart := 0x10000000, heapBreak := 0x10000000 } := by
      simp [withBreak, unset, zero]
    rw [shape]
    exact ⟨Nat.le_refl _, (by decide : 0x10000000 < 2 ^ 32), fun set => absurd unset set, fun _ => rfl⟩
  · have shape : withBreak task = task := if_neg unset
    rw [shape]
    exact ⟨order, word, fun _ => rfl, fun zero => absurd zero unset⟩

theorem sameTables_refl (m : Mem) (d : Nat) : SameTables m m d := fun _ _ => ⟨rfl, fun _ _ _ => rfl⟩

/-- A refused call that touched nothing is clean when the task had a break. -/
theorem refused_iff (runs : Runs s task) (nonzero : increment ebx ≠ 0) :
    AllOrNothing s task ebx (.ok (minusOne, s, withBreak task)) ↔ task.heapBreak ≠ 0 := by
  obtain ⟨-, word, set, unset⟩ := withBreak_breaks runs
  constructor
  · rintro (⟨-, grows⟩ | ⟨-, same⟩)
    · have := grows.sum
      omega
    · intro zero
      have := same.heapBreak
      have := unset zero
      omega
  · intro given
    exact .inr ⟨rfl, set given, sameTables_refl _ _, fun _ => rfl⟩

/-- A call that moves the break without touching the memory. -/
theorem moved_iff (runs : Runs s task) (nonzero : increment ebx ≠ 0) (word : ebx < 2 ^ 32)
    (start : (withBreak task).heapStart ≤ newBreak) (shape : newBreak = ((withBreak task).heapBreak + ebx) % 2 ^ 32) :
    AllOrNothing s task ebx (.ok ((withBreak task).heapBreak, s, { withBreak task with heapBreak := newBreak })) ↔
      (newBreak : Int) = (withBreak task).heapBreak + increment ebx ∧ newBreak < sbrkLimit ∧
        MappedFrom s.pmm.mem task.pageDirectory (withBreak task).heapStart newBreak := by
  obtain ⟨-, small, set, unset⟩ := withBreak_breaks runs
  have different : ebx ≠ 0 := by
    rintro rfl
    exact nonzero rfl
  constructor
  · rintro (⟨-, grows⟩ | ⟨top, same⟩)
    · exact ⟨grows.sum, grows.limit, grows.mapped⟩
    · have kept : newBreak = task.heapBreak := same.heapBreak
      have given : task.heapBreak ≠ 0 := fun zero => by
        have := (unset zero).symm.trans top
        cases this
      have := set given
      omega
  · rintro ⟨sum, limit, mapped⟩
    exact .inl ⟨rfl, sum, start, limit, mapped⟩

theorem zero_iff (runs : Runs s task) :
    AllOrNothing s task 0 (.ok ((withBreak task).heapBreak, s, withBreak task)) ↔
      (withBreak task).heapBreak = minusOne ∨ ((withBreak task).heapBreak < sbrkLimit ∧
        MappedFrom s.pmm.mem task.pageDirectory (withBreak task).heapStart (withBreak task).heapBreak) := by
  obtain ⟨order, -, set, unset⟩ := withBreak_breaks runs
  have same : ((withBreak task).heapBreak : Int) = (withBreak task).heapBreak + increment 0 := (Int.add_zero _).symm
  constructor
  · rintro (⟨-, grows⟩ | ⟨top, -⟩)
    · exact .inr ⟨grows.limit, grows.mapped⟩
    · exact .inl top
  · rintro (top | ⟨limit, mapped⟩)
    · refine .inr ⟨top, set fun zero => ?_, sameTables_refl _ _, fun _ => rfl⟩
      have := (unset zero).symm.trans top
      cases this
    · exact .inl ⟨rfl, same, order, limit, mapped⟩

/-! ## The pages of a request that grows -/

theorem pageUp_eq (small : value < sbrkLimit) : pageUp value = (value + 0xFFF) / pageSize * pageSize := by
  unfold sbrkLimit at small
  unfold pageUp frameOf
  rw [Nat.mod_eq_of_lt (by omega)]
  rfl

/-- An address is as usable as the start of its page. -/
theorem userWritable_page (m : Mem) (d a : Nat) :
    UserWritable m d a ↔ UserWritable m d (a / pageSize * pageSize) := by
  have directory : pdIndex (a / pageSize * pageSize) = pdIndex a := by
    unfold pdIndex pageSize
    omega
  have table : ptIndex (a / pageSize * pageSize) = ptIndex a := by
    unfold ptIndex pageSize
    omega
  unfold UserWritable leaf
  rw [directory, table]

/-- Where the pages of the loop lie. -/
structure Range (oldBreak newBreak first n : Nat) : Prop where
  start : pageUp oldBreak = first * pageSize
  positive : 0 < first
  count : 0 < n
  top : first + n ≤ 0xB0000
  above : oldBreak ≤ first * pageSize
  before : first * pageSize < newBreak
  within : ∀ v, v < first + n → v * pageSize < newBreak
  covers : newBreak ≤ (first + n) * pageSize

theorem addedPages_range (small : newBreak < sbrkLimit) (order : oldBreak ≤ newBreak) (positive : 0 < oldBreak)
    (some : addedPages oldBreak newBreak ≠ 0) :
    Range oldBreak newBreak (pageAbove oldBreak) (addedPages oldBreak newBreak) := by
  have new := pageUp_eq small
  have old : pageUp oldBreak = (oldBreak + 0xFFF) / pageSize * pageSize := pageUp_eq (by omega)
  unfold addedPages pageAbove at *
  rw [new, old] at some ⊢
  unfold sbrkLimit pageSize at *
  constructor
  · rw [old]
    unfold pageSize
    omega
  any_goals unfold pageSize
  all_goals omega

theorem kernel_page (runs : Runs s task) (low : v < 0x800) :
    ¬ (isPresent (entry s.pmm.mem task.pageDirectory (v / 1024)) = true →
      grantsUser (entry s.pmm.mem task.pageDirectory (v / 1024)) = true) := by
  intro grants
  obtain ⟨present, supervisor⟩ := runs.kernel (v / 1024) (by omega)
  have user := grants present
  rw [grantsUser, supervisor, Bool.and_false] at user
  cases user

/-- The loop maps all pages that are missing below the new break, or it does not
do what was asked for. -/
theorem grown_iff (runs : Runs s task) (range : Range oldBreak newBreak first n) (limit : newBreak < sbrkLimit)
    (start : heapStart ≤ oldBreak) (ran : sbrkPages task.pageDirectory n (first * pageSize) s = .ok (false, t)) :
    MappedFrom t.pmm.mem task.pageDirectory heapStart newBreak ↔
      MappedFrom s.pmm.mem task.pageDirectory heapStart (first * pageSize) ∧ Room s task.pageDirectory first n := by
  obtain ⟨-, positive, count, top, above, before, within, covers⟩ := range
  obtain ⟨-, kept, -, -⟩ := sbrkPages_kept runs.sound.walkable positive (by omega) ran
  have index (a : Nat) (below : a < newBreak) : pdIndex a < 1023 := by
    unfold pdIndex sbrkLimit at *
    omega
  have outside (a : Nat) (below : a < first * pageSize) :
      UserWritable t.pmm.mem task.pageDirectory a ↔ UserWritable s.pmm.mem task.pageDirectory a :=
    userWritable_kept kept (index a (by omega)) fun inside => by
      unfold pageSize at *
      omega
  constructor
  · intro mapped
    have page (v : Nat) (lower : first ≤ v) (upper : v < first + n) :
        UserWritable t.pmm.mem task.pageDirectory (v * pageSize) := by
      have := Nat.mul_le_mul_right pageSize lower
      exact mapped _ (by omega) (within v upper)
    have grants (v : Nat) (lower : first ≤ v) (upper : v < first + n)
        (present : isPresent (entry s.pmm.mem task.pageDirectory (v / 1024)) = true) :
        grantsUser (entry s.pmm.mem task.pageDirectory (v / 1024)) = true := by
      have served := (page v lower upper).1
      rwa [(page_index v).1, kept.old _ (by omega) present] at served
    refine ⟨fun a lower upper => (outside a upper).mp (mapped a lower (by omega)), grants, ?_⟩
    by_contra short
    have high : 0x800 ≤ first := by
      by_contra low
      exact kernel_page runs (by omega) (grants first (Nat.le_refl _) (by omega))
    obtain ⟨v, lower, upper, unmapped⟩ := sbrkPages_short runs.sound high (by omega) (by omega) ran
    have served := (page v lower upper).2
    rw [unmapped] at served
    cases served
  · rintro ⟨mapped, grants, enough⟩ a lower upper
    have high : 0x800 ≤ first := by
      by_contra low
      exact kernel_page runs (by omega) (grants first (Nat.le_refl _) (by omega))
    by_cases old : a < first * pageSize
    · exact (outside a old).mpr (mapped a lower old)
    · obtain ⟨u, ran', -, pages⟩ := sbrkPages_enough runs.sound high (by omega) enough
      cases ran.symm.trans ran'
      have inside : first ≤ a / pageSize ∧ a / pageSize < first + n := by
        unfold pageSize at *
        omega
      obtain ⟨present, leaf⟩ := pages _ inside.1 inside.2
      rw [userWritable_page]
      refine ⟨?_, leaf⟩
      rw [(page_index _).1]
      by_cases already : isPresent (entry s.pmm.mem task.pageDirectory (a / pageSize / 1024)) = true
      · rw [kept.old _ (by omega) already]
        exact grants _ inside.1 inside.2 already
      · exact kept.new _ (by omega) (Bool.eq_false_iff.mpr already) present

theorem room_ends (runs : Runs s task) (room : Room s task.pageDirectory first n) (count : 0 < n)
    (top : first + n ≤ 0xB0000) :
    ∃ t, sbrkPages task.pageDirectory n (first * pageSize) s = .ok (false, t) := by
  have high : 0x800 ≤ first := by
    by_contra low
    exact kernel_page runs (by omega) (room.1 first (Nat.le_refl _) (by omega))
  obtain ⟨t, ran, -⟩ := sbrkPages_enough runs.sound high (by omega) room.2
  exact ⟨t, ran⟩

/-- A loop that took a frame and failed leaves its trace. -/
theorem failed_traced (runs : Runs s task) (nonzero : increment ebx ≠ 0) (range : Range oldBreak newBreak first n)
    (free : freeBlocks s.pmm ≠ []) (ran : sbrkPages task.pageDirectory n (first * pageSize) s = .ok (true, t)) :
    ¬ AllOrNothing s task ebx (.ok (minusOne, t, withBreak task)) := by
  obtain ⟨b, rest, shape⟩ := List.exists_cons_of_ne_nil free
  have top := range.top
  obtain ⟨-, -, -, first⟩ := sbrkPages_kept runs.sound.walkable range.positive (by omega) ran
  have set := first range.count b rest shape
  have clear := (mem_freeBlocks.mp (show b ∈ freeBlocks s.pmm by simp [shape])).2
  rintro (⟨-, grows⟩ | ⟨-, same⟩)
  · have := grows.sum
    omega
  · rw [same.frames b, clear] at set
    cases set

/-- A request that needs pages, with a frame to start with. -/
theorem growing_iff (runs : Runs s task) (nonzero : increment ebx ≠ 0) (limit : newBreak < sbrkLimit)
    (range : Range (withBreak task).heapBreak newBreak first n) (free : freeBlocks s.pmm ≠ [])
    (sum : (newBreak : Int) = (withBreak task).heapBreak + increment ebx) :
    AllOrNothing s task ebx (match sbrkPages task.pageDirectory n (first * pageSize) s with
        | .error frame => .error frame
        | .ok (true, s) => .ok (minusOne, s, withBreak task)
        | .ok (false, s) => .ok ((withBreak task).heapBreak, s, { withBreak task with heapBreak := newBreak })) ↔
      MappedFrom s.pmm.mem task.pageDirectory (withBreak task).heapStart (first * pageSize) ∧
        Room s task.pageDirectory first n := by
  obtain ⟨order, -, -, -⟩ := withBreak_breaks runs
  have after := range.before
  have above := range.above
  have stuck (other : ∀ t, sbrkPages task.pageDirectory n (first * pageSize) s ≠ .ok (false, t)) :
      ¬ (MappedFrom s.pmm.mem task.pageDirectory (withBreak task).heapStart (first * pageSize) ∧
        Room s task.pageDirectory first n) := by
    rintro ⟨-, room⟩
    obtain ⟨t, ran⟩ := room_ends runs room range.count range.top
    exact other t ran
  cases ran : sbrkPages task.pageDirectory n (first * pageSize) s with
  | error frame => exact iff_of_false id (stuck fun t => by rw [ran]; nofun)
  | ok result =>
    obtain ⟨failed, t⟩ := result
    cases failed with
    | true => exact iff_of_false (failed_traced runs nonzero range free ran) (stuck fun t => by rw [ran]; nofun)
    | false =>
      rw [← grown_iff runs range limit order ran]
      constructor
      · rintro (⟨-, grows⟩ | ⟨top, -⟩)
        · exact grows.mapped
        · unfold minusOne sbrkLimit at *
          omega
      · intro mapped
        have start : (withBreak task).heapStart ≤ newBreak := by omega
        exact .inl ⟨rfl, sum, start, limit, mapped⟩

end

/-! ## After boot -/

theorem booted_sound (booted : Booted pmm b0 b1 b2) (memory : ∀ b ∈ freeBlocks pmm, b < 0xFFC00) :
    Sound (bootMachine pmm (b0 * pageSize)) (b0 * pageSize) := by
  have spaces := booted_spaces booted
  have member : b0 * pageSize ∈ (bootMachine pmm (b0 * pageSize)).directories := List.mem_cons_self
  refine ⟨booted_walkable booted, rfl, fun f held => ?_, fun b free large => ⟨memory b free, fun reached => ?_⟩⟩
  · have frame : HeldFrame (bootMachine pmm (b0 * pageSize)) f := by
      rcases held with rfl | ⟨i, small, present, rfl⟩
      · exact spaces.directories _ member
      · exact (table_held spaces member small present).1
    exact ⟨(held_aligned frame).2.2, identity_of_held spaces frame⟩
  · have top := memory b free
    have absent := booted.absent (b / 1024) (by omega) (by omega)
    have walk : translate pmm.mem (b0 * pageSize) (b * pageSize) = some (b * pageSize) := reached
    rw [translate_leaf, leaf_absent (by rw [(page_index b).1, absent]; decide)] at walk
    cases walk

/-- After boot a task may run in the kernel's directory. -/
theorem ram128_runs (first last : Nat) (breaks : first ≤ last ∧ last < 2 ^ 32) :
    ∃ s, bootedMachine (2 ^ 20 + 1) ram128 (fun _ => 0) = some s ∧
      Runs s ⟨s.kernelDirectory, 0x10000000, first, last⟩ := by
  obtain ⟨pmm, b0, b1, b2, ran, booted, free, supervisor⟩ := ram128_kernel
  refine ⟨_, ran, booted_sound booted fun b member => ?_, fun i small => ⟨?_, supervisor i small⟩, breaks⟩
  · rw [free] at member
    have := List.mem_range'_1.mp member
    omega
  · rcases Nat.lt_or_ge i 1 with zero | one
    · obtain rfl : i = 0 := by omega
      exact booted.first.1.1
    · obtain rfl : i = 1 := by omega
      exact booted.first.2.1

end MeowMeowOS.SbrkCalls

import MeowMeowOS.GuardedRuns
import MeowMeowOS.Keyboard

/-! The tasks inside `keyboard_read_keycode` and the interrupt that wakes them.
The test of the ring, the store of the pid and the block are three steps, with
anything else between them. -/
namespace MeowMeowOS.KeyboardReaders
open GuardedRuns Keyboard

/-- Where a task is in `keyboard_read_keycode`. -/
inductive Place where
  | outside
  | testing
  | failed
  | registered
  | blocked
  | prefixed
  deriving DecidableEq

structure Readers where
  driver : Driver
  place : Nat → Place

inductive Event where
  | call (pid : Nat)
  | test (pid : Nat)
  | store (pid : Nat)
  | block (pid : Nat)
  | readSecond (pid : Nat)
  | interrupt (foregroundPid : Nat) (scancode : UInt8)

/-- `task_unblock`, and what a signal does to a task that is blocked: it goes
back to the test. -/
def wake (place : Nat → Place) (pid : Nat) : Nat → Place :=
  if place pid = .blocked then Function.update place pid .testing else place

def move (r : Readers) (pid : Nat) (place : Place) : Readers := { r with place := Function.update r.place pid place }

def test (r : Readers) (pid : Nat) : Readers :=
  match keyboardBufferRead r.driver with
  | none => move r pid .failed
  | some (scancode, k) => move { r with driver := k } pid (if scancode = 0xE0 then .prefixed else .outside)

def readSecond (r : Readers) (pid : Nat) : Readers :=
  match keyboardBufferRead r.driver with
  | none => r
  | some (_, k) => move { r with driver := k } pid .outside

def interrupt (r : Readers) (foregroundPid : Nat) (scancode : UInt8) : Readers :=
  let served := keyboardIsr foregroundPid r.driver scancode
  ⟨served.driver, wake (wake r.place served.signalled) served.unblocked⟩

def Step (r : Readers) : Event → Readers → Prop
  | .call pid, r' => r.place pid = .outside ∧ r' = move r pid .testing
  | .test pid, r' => r.place pid = .testing ∧ r' = test r pid
  | .store pid, r' => r.place pid = .failed ∧
      r' = move { r with driver := { r.driver with keyboardWaitingTask := pid } } pid .registered
  | .block pid, r' => r.place pid = .registered ∧ r' = move r pid .blocked
  | .readSecond pid, r' => r.place pid = .prefixed ∧ r' = readSecond r pid
  | .interrupt foregroundPid scancode, r' => r' = interrupt r foregroundPid scancode

/-- The interrupt gets past its two early returns. -/
def Accepted (k : Driver) (scancode : UInt8) : Prop :=
  scancode ≠ 0xE0 ∧
    ¬ Intercepted (updateModifierState k.modifiers (getMakeCode scancode) (!isBreakCode scancode)) scancode

/-- No accepted scancode comes while a task is registered and not yet blocked,
a task registers only when no other one is registered or blocked, and the ring
is still empty when it blocks. -/
def Guard (r : Readers) : Event → Prop
  | .interrupt _ scancode => Accepted r.driver scancode → ∀ pid, r.place pid ≠ .registered
  | .store pid =>
    pid ≠ 0 ∧ ∀ other, other ≠ pid → r.place other ≠ .registered ∧ r.place other ≠ .blocked
  | .block _ => keyboardIsBufferEmpty r.driver
  | _ => True

def start : Readers := ⟨keyboardInitialize, fun _ => .outside⟩

/-- A task that is registered or blocked is the one that the driver knows of,
and a blocked one has nothing to read. -/
structure Waiting (r : Readers) : Prop where
  registered : ∀ pid, r.place pid = .registered ∨ r.place pid = .blocked → r.driver.keyboardWaitingTask = pid ∧
    pid ≠ 0
  blocked : ∀ pid, r.place pid = .blocked → keyboardIsBufferEmpty r.driver

section
variable {r r' s : Readers} {k k' : Driver} {pid other : Nat} {place : Nat → Place} {next target : Place}
    {event : Event}

theorem wake_place (place : Nat → Place) (pid other : Nat) :
    wake place pid other = if other = pid ∧ place pid = .blocked then .testing else place other := by
  unfold wake
  by_cases blocked : place pid = .blocked
  · rw [if_pos blocked, Function.update_apply]
    simp [blocked]
  · rw [if_neg blocked, if_neg (fun held => blocked held.2)]

/-- A wake-up registers no task and blocks none. -/
theorem wake_back (found : wake place pid other = next) (resting : next ≠ .testing) : place other = next := by
  rw [wake_place] at found
  split at found
  · exact absurd found.symm resting
  · exact found

theorem wake_other (woken : wake place pid other = .blocked) : other ≠ pid := by
  rintro rfl
  rw [wake_place] at woken
  split at woken
  · cases woken
  · rename_i awake
    exact awake ⟨rfl, woken⟩

theorem read_driver (read : keyboardBufferRead k = some (scancode, k')) :
    k'.keyboardWaitingTask = k.keyboardWaitingTask ∧ ¬ keyboardIsBufferEmpty k := by
  unfold keyboardBufferRead at read
  split at read
  · cases read
  · rename_i filled
    cases read
    exact ⟨rfl, filled⟩

theorem move_back (moved : (move r pid next).place other = target) (ne : next ≠ target) :
    r.place other = target ∧ other ≠ pid := by
  unfold move at moved
  dsimp only at moved
  rw [Function.update_apply] at moved
  split at moved
  · exact absurd moved ne
  · rename_i apart
    exact ⟨moved, apart⟩

/-- A task goes on to a place at which it neither is registered nor blocked. -/
theorem waiting_move (waiting : Waiting r) (notRegistered : next ≠ .registered) (notBlocked : next ≠ .blocked) :
    Waiting (move r pid next) := by
  refine ⟨fun other held => waiting.registered other ?_, fun other held =>
    waiting.blocked other (move_back held notBlocked).1⟩
  rcases held with registered | blocked
  · exact Or.inl (move_back registered notRegistered).1
  · exact Or.inr (move_back blocked notBlocked).1

/-- A byte is read only when no task is blocked. -/
theorem waiting_read (waiting : Waiting r) (read : keyboardBufferRead r.driver = some (scancode, k)) :
    Waiting { r with driver := k } := by
  obtain ⟨same, filled⟩ := read_driver read
  refine ⟨fun pid held => ?_, fun pid held => absurd (waiting.blocked pid held) filled⟩
  rw [same]
  exact waiting.registered pid held

theorem isr_refused (foregroundPid : Nat) {scancode : UInt8} (refused : ¬ Accepted k scancode) :
    (keyboardIsr foregroundPid k scancode).driver.keyboardWaitingTask = k.keyboardWaitingTask ∧
      (keyboardIsBufferEmpty k → keyboardIsBufferEmpty (keyboardIsr foregroundPid k scancode).driver) := by
  unfold keyboardIsr
  split
  · exact ⟨rfl, id⟩
  · rename_i plain
    dsimp only
    rw [if_pos (by_contra fun held => refused ⟨plain, held⟩)]
    exact ⟨rfl, id⟩

theorem isr_accepted {foregroundPid : Nat} {scancode : UInt8} (accepted : Accepted k scancode) :
    (keyboardIsr foregroundPid k scancode).unblocked = k.keyboardWaitingTask := by
  unfold keyboardIsr
  rw [if_neg accepted.1]
  dsimp only
  rw [if_neg accepted.2]
  exact store_waiting

theorem interrupt_back {foregroundPid : Nat} {scancode : UInt8}
    (found : (interrupt r foregroundPid scancode).place other = next) (resting : next ≠ .testing) :
    r.place other = next := wake_back (wake_back found resting) resting

theorem waiting_refused (waiting : Waiting r) {foregroundPid : Nat} {scancode : UInt8}
    (refused : ¬ Accepted r.driver scancode) : Waiting (interrupt r foregroundPid scancode) := by
  obtain ⟨same, empty⟩ := isr_refused foregroundPid refused
  refine ⟨fun pid held => ?_, fun pid blocked => empty (waiting.blocked pid (interrupt_back blocked nofun))⟩
  unfold interrupt
  rw [same]
  exact waiting.registered pid (held.imp (interrupt_back · nofun) (interrupt_back · nofun))

/-- The interrupt unblocks the one task that was blocked. -/
theorem accepted_wakes (waiting : Waiting r) {foregroundPid : Nat} {scancode : UInt8}
    (accepted : Accepted r.driver scancode) (pid : Nat) :
    (interrupt r foregroundPid scancode).place pid ≠ .blocked := by
  intro blocked
  have before := interrupt_back blocked nofun
  have known := (waiting.registered pid (Or.inr before)).1
  have other := wake_other blocked
  rw [isr_accepted accepted] at other
  exact other known.symm

theorem waiting_accepted (waiting : Waiting r) {foregroundPid : Nat} {scancode : UInt8}
    (accepted : Accepted r.driver scancode) (spared : ∀ pid, r.place pid ≠ .registered) :
    Waiting (interrupt r foregroundPid scancode) := by
  refine ⟨fun pid held => ?_, fun pid blocked => absurd blocked (accepted_wakes waiting accepted pid)⟩
  rcases held with registered | blocked
  · exact absurd (interrupt_back registered nofun) (spared pid)
  · exact absurd blocked (accepted_wakes waiting accepted pid)

theorem waiting_step (waiting : Waiting r) (guard : Guard r event) (step : Step r event r') : Waiting r' := by
  cases event with
  | call pid =>
    obtain ⟨-, rfl⟩ := step
    exact waiting_move waiting nofun nofun
  | test pid =>
    obtain ⟨-, rfl⟩ := step
    unfold test
    split
    · exact waiting_move waiting nofun nofun
    · rename_i scancode k read
      have waitingRead := waiting_read waiting read
      split
      · exact waiting_move waitingRead nofun nofun
      · exact waiting_move waitingRead nofun nofun
  | store pid =>
    obtain ⟨-, rfl⟩ := step
    obtain ⟨nonzero, alone⟩ := guard
    have only : ∀ other, (move r pid .registered).place other = .registered ∨
        (move r pid .registered).place other = .blocked → other = pid := by
      intro other held
      by_contra apart
      have same : (move r pid .registered).place other = r.place other := Function.update_of_ne apart _ _
      rw [same] at held
      rcases held with registered | blocked
      · exact (alone other apart).1 registered
      · exact (alone other apart).2 blocked
    refine ⟨fun other held => ?_, fun other blocked => ?_⟩
    · obtain rfl := only other held
      exact ⟨rfl, nonzero⟩
    · obtain rfl := only other (Or.inr blocked)
      simp [move] at blocked
  | block pid =>
    obtain ⟨registered, rfl⟩ := step
    have known := waiting.registered pid (Or.inl registered)
    refine ⟨fun other held => ?_, fun _ _ => guard⟩
    by_cases same : other = pid
    · exact same ▸ known
    · refine waiting.registered other ?_
      unfold move at held
      dsimp only at held
      rwa [Function.update_of_ne same] at held
  | readSecond pid =>
    obtain ⟨-, rfl⟩ := step
    unfold readSecond
    split
    · exact waiting
    · rename_i scancode k read
      exact waiting_move (waiting_read waiting read) nofun nofun
  | interrupt foregroundPid scancode =>
    obtain rfl := step
    by_cases accepted : Accepted r.driver scancode
    · exact waiting_accepted waiting accepted (guard accepted)
    · exact waiting_refused waiting accepted

theorem run_waiting (run : Run Guard Step start r) : Waiting r := by
  refine run_invariant Waiting run ⟨fun pid held => ?_, nofun⟩ fun _ _ _ waiting guard step =>
    waiting_step waiting guard step
  rcases held with registered | blocked
  · cases registered
  · cases blocked

/-- A task is blocked only while there is nothing to read, and the next scancode
that is accepted wakes it. -/
theorem no_lost_wakeup (run : Run Guard Step start r) (blocked : r.place pid = .blocked) :
    keyboardIsBufferEmpty r.driver ∧ r.driver.keyboardWaitingTask = pid ∧
      ∀ foregroundPid scancode, Accepted r.driver scancode →
        (interrupt r foregroundPid scancode).place pid ≠ .blocked :=
  ⟨(run_waiting run).blocked pid blocked, ((run_waiting run).registered pid (Or.inr blocked)).1,
    fun _ _ accepted => accepted_wakes (run_waiting run) accepted pid⟩

/-- Task 1 finds the ring empty and registers. -/
def registered : Readers :=
  move { (move (move start 1 .testing) 1 .failed) with
    driver := { keyboardInitialize with keyboardWaitingTask := 1 } } 1 .registered

theorem registered_run {guard : Readers → Event → Prop} (call : guard start (.call 1))
    (test : guard (move start 1 .testing) (.test 1))
    (store : guard (move (move start 1 .testing) 1 .failed) (.store 1)) : Run guard Step start registered := by
  have called : Step start (.call 1) (move start 1 .testing) := ⟨rfl, rfl⟩
  have tested : Step (move start 1 .testing) (.test 1) (move (move start 1 .testing) 1 .failed) := ⟨rfl, rfl⟩
  have stored : Step (move (move start 1 .testing) 1 .failed) (.store 1) registered := ⟨rfl, rfl⟩
  exact run_then (run_then (run_then .refl call called) test tested) store stored

theorem no_lost_wakeup_one : keyboardIsBufferEmpty (move registered 1 .blocked).driver := by
  have alone : Guard (move (move start 1 .testing) 1 .failed) (.store 1) := by
    refine ⟨by decide, fun other apart => ?_⟩
    simp [move, apart, start]
  have blocks : Step registered (.block 1) (move registered 1 .blocked) := ⟨rfl, rfl⟩
  have empty : Guard registered (.block 1) := rfl
  have inside : (move registered 1 .blocked).place 1 = .blocked := rfl
  exact (no_lost_wakeup (run_then (registered_run trivial trivial alone) empty blocks) inside).1

/-- A key comes between the store and the block of task 1. -/
theorem wakeup_lost :
    ¬ ∀ r pid, Run (fun _ _ => True) Step start r → r.place pid = .blocked →
      keyboardIsBufferEmpty r.driver ∧ r.driver.keyboardWaitingTask = pid := by
  intro all
  let typed := interrupt registered 0 0x1E
  have came : Step registered (.interrupt 0 0x1E) typed := rfl
  have blocks : Step typed (.block 1) (move typed 1 .blocked) := ⟨rfl, rfl⟩
  have run : Run (fun _ _ => True) Step start (move typed 1 .blocked) :=
    run_then (run_then (registered_run trivial trivial trivial) trivial came) trivial blocks
  obtain ⟨empty, -⟩ := all _ 1 run rfl
  revert empty
  decide

end

end MeowMeowOS.KeyboardReaders

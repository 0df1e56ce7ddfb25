import MeowMeowOS.TaskRecords

/-! The timer interrupt. It counts the tick and calls the scheduler, but only
while a kernel task is current. -/
namespace MeowMeowOS.TimerInterrupts
open GuardedRuns Tasks RunningTask TaskRecords

/-- The tick counter of the PIT. -/
def clockTick (s : Scheduler) : Scheduler := { s with ticks := (s.ticks + 1) % 2 ^ 32 }

/-- `pit_handle_interrupt` -/
def pitHandleInterrupt (s : Scheduler) : Scheduler :=
  match current (clockTick s) with
  | none => clockTick s
  | some cur => if cur.isUser then clockTick s else taskScheduleTick (clockTick s)

/-! ## Calls of task_yield -/

/-- `tickCurrent`, with whether it calls `task_yield`. -/
def tickCurrentYields (s : Scheduler) (cur : Task) : Scheduler × Bool :=
  let s := modify s s.currentTask fun t => { t with cpuTimeTicks := (t.cpuTimeTicks + 1) % 2 ^ 32 }
  if cur.yieldRequested then
    (taskYield (modify s s.currentTask fun t => { t with yieldRequested := false }), true)
  else
    let s := modify s s.currentTask fun t => { t with sliceRemaining := t.sliceRemaining - 1 }
    if cur.sliceRemaining - 1 = 0 then (taskYield (modify s s.currentTask preempt), true) else (s, false)

/-- `task_schedule_tick`, with whether it calls `task_yield`. -/
def scheduleTickYields (s : Scheduler) : Scheduler × Bool :=
  let s := taskWakeExpiredSleepers s
  match current s with
  | none => (s, false)
  | some cur =>
    match cur.state with
    | .dead => (taskYield s, true)
    | .blocked | .sleeping | .waiting => (s, false)
    | .ready | .running => tickCurrentYields s cur

/-- `pit_handle_interrupt`, with whether it calls `task_yield`. -/
def interruptYields (s : Scheduler) : Scheduler × Bool :=
  match current (clockTick s) with
  | none => (clockTick s, false)
  | some cur => if cur.isUser then (clockTick s, false) else scheduleTickYields (clockTick s)

/-- The state after so many interrupts. -/
def interrupts (s : Scheduler) : Nat → Scheduler
  | 0 => s
  | n + 1 => pitHandleInterrupt (interrupts s n)

/-- One of the next `k` interrupts, or the next one, is the first to call
`task_yield`. -/
def PreemptedWithin (k : Nat) (s : Scheduler) : Prop :=
  ∃ n < max k 1, (interruptYields (interrupts s n)).2 = true ∧
    ∀ m < n, (interruptYields (interrupts s m)).2 = false

section
variable {s : Scheduler} {cur : Task} {f : Task → Task}

theorem tickCurrentYields_fst (s : Scheduler) (cur : Task) : (tickCurrentYields s cur).1 = tickCurrent s cur := by
  unfold tickCurrentYields tickCurrent
  dsimp only
  split
  · rfl
  · split <;> rfl

theorem scheduleTickYields_fst (s : Scheduler) : (scheduleTickYields s).1 = taskScheduleTick s := by
  unfold scheduleTickYields taskScheduleTick
  dsimp only
  cases current (taskWakeExpiredSleepers s) with
  | none => rfl
  | some cur =>
    dsimp only
    cases cur.state with
    | ready | running => exact tickCurrentYields_fst _ cur
    | dead | blocked | sleeping | waiting => rfl

theorem interruptYields_fst (s : Scheduler) : (interruptYields s).1 = pitHandleInterrupt s := by
  unfold interruptYields pitHandleInterrupt
  cases current (clockTick s) with
  | none => rfl
  | some cur =>
    dsimp only
    split
    · rfl
    · exact scheduleTickYields_fst _

/-! ## The current task -/

theorem current_modify (address : ∀ t, (f t).address = t.address) :
    current (modify s s.currentTask f) = (current s).map f := record_modify address

theorem current_awake (found : current s = some cur) (running : cur.state = .running) :
    current (taskWakeExpiredSleepers s) = some cur := by
  have mapped : current (taskWakeExpiredSleepers s) = (current s).map (wakeExpired s.ticks) :=
    record_map rfl (quiet_wakeExpired s.ticks).address s.currentTask
  rw [mapped, found, Option.map_some, wakeExpired, if_neg (by simp [running])]

theorem interrupts_shift (s : Scheduler) (n : Nat) : interrupts (pitHandleInterrupt s) n = interrupts s (n + 1) := by
  induction n with
  | zero => rfl
  | succ n ih => exact congrArg pitHandleInterrupt ih

/-! ## User tasks -/

theorem user_not_yields (found : current s = some cur) (user : cur.isUser = true) :
    interruptYields s = (clockTick s, false) := by
  have same : current (clockTick s) = some cur := found
  unfold interruptYields
  rw [same]
  dsimp only
  rw [if_pos user]

theorem user_interrupts (found : current s = some cur) (user : cur.isUser = true) (n : Nat) :
    current (interrupts s n) = some cur := by
  induction n with
  | zero => exact found
  | succ n ih =>
    rw [interrupts, ← interruptYields_fst, user_not_yields ih user]
    exact ih

/-! ## Kernel tasks -/

/-- One interrupt of a running kernel task. -/
theorem kernel_interrupt (found : current s = some cur) (running : cur.state = .running) (kernel : cur.isUser = false) :
    ((interruptYields s).2 = true ↔ cur.yieldRequested = true ∨ cur.sliceRemaining ≤ 1) ∧
      ((interruptYields s).2 = false → current (pitHandleInterrupt s) = some { cur with
        cpuTimeTicks := (cur.cpuTimeTicks + 1) % 2 ^ 32, sliceRemaining := cur.sliceRemaining - 1 }) := by
  have same : current (clockTick s) = some cur := found
  have awake := current_awake same running
  rw [← interruptYields_fst]
  unfold interruptYields
  rw [same]
  dsimp only
  have counts : scheduleTickYields (clockTick s) = tickCurrentYields (taskWakeExpiredSleepers (clockTick s)) cur := by
    unfold scheduleTickYields
    dsimp only
    rw [awake]
    dsimp only
    rw [running]
  rw [if_neg (by simp [kernel]), counts]
  unfold tickCurrentYields
  dsimp only
  split
  · rename_i requested
    exact ⟨iff_of_true rfl (Or.inl requested), nofun⟩
  · rename_i notRequested
    split
    · rename_i spent
      exact ⟨iff_of_true rfl (Or.inr (by omega)), nofun⟩
    · rename_i left
      refine ⟨iff_of_false nofun ?_, fun _ => ?_⟩
      · rintro (requested | spent)
        · exact notRequested requested
        · omega
      · let counted : Task → Task := fun t => { t with cpuTimeTicks := (t.cpuTimeTicks + 1) % 2 ^ 32 }
        let spent : Task → Task := fun t => { t with sliceRemaining := t.sliceRemaining - 1 }
        have first := current_modify (s := taskWakeExpiredSleepers (clockTick s)) (f := counted) fun _ => rfl
        rw [awake] at first
        have second := current_modify (s := modify (taskWakeExpiredSleepers (clockTick s))
          (taskWakeExpiredSleepers (clockTick s)).currentTask counted) (f := spent) fun _ => rfl
        rw [first] at second
        exact second

/-- The time slice of a kernel task runs out, if nothing ends it before. -/
theorem kernel_preempted (found : current s = some cur) (running : cur.state = .running) (kernel : cur.isUser = false) :
    PreemptedWithin cur.sliceRemaining s := by
  generalize slice : cur.sliceRemaining = k
  induction k generalizing s cur with
  | zero =>
    have yields := (kernel_interrupt found running kernel).1.mpr (Or.inr (by omega))
    exact ⟨0, by omega, yields, fun m below => absurd below (Nat.not_lt_zero m)⟩
  | succ k ih =>
    obtain ⟨yields, goesOn⟩ := kernel_interrupt found running kernel
    cases ends : (interruptYields s).2 with
    | true => exact ⟨0, by omega, ends, fun m below => absurd below (Nat.not_lt_zero m)⟩
    | false =>
      have left : 1 < cur.sliceRemaining := by
        by_contra short
        rw [yields.mpr (Or.inr (by omega))] at ends
        cases ends
      obtain ⟨n, within, last, before⟩ := ih (goesOn ends) running kernel (by dsimp only; omega)
      rw [interrupts_shift] at last
      refine ⟨n + 1, by omega, last, fun m below => ?_⟩
      cases m with
      | zero => exact ends
      | succ m =>
        have earlier := before m (by omega)
        rwa [interrupts_shift] at earlier

/-- A running task is preempted by the timer exactly if it is a kernel task. -/
theorem preempted_iff (found : current s = some cur) (running : cur.state = .running) :
    (PreemptedWithin cur.sliceRemaining s ∧ (interruptYields (taskRequestYield s)).2 = true) ↔
    cur.isUser = false := by
  constructor
  · rintro ⟨⟨n, -, yields, -⟩, -⟩
    cases user : cur.isUser with
    | false => rfl
    | true =>
      rw [user_not_yields (user_interrupts found user n) user] at yields
      cases yields
  · intro kernel
    refine ⟨kernel_preempted found running kernel, ?_⟩
    have requested : current (taskRequestYield s) = some { cur with yieldRequested := true } := by
      have asks := current_modify (s := s) (f := fun t => { t with yieldRequested := true }) fun _ => rfl
      rw [found] at asks
      exact asks
    exact (kernel_interrupt requested running kernel).1.mpr (Or.inl rfl)

end

/-- The kernel shell starts a user task and blocks, so that the user task runs. -/
def userRuns : Scheduler := perform (perform taskInitialize (.create true)) .block

theorem preempted_iff_shell : PreemptedWithin 10 taskInitialize ∧
    (interruptYields (taskRequestYield taskInitialize)).2 = true := by
  have found : current taskInitialize =
      some { newTask rootAddress 1 0 false with state := .running, childPids := [2] } := by
    decide
  exact (preempted_iff found rfl).mpr rfl

/-- No interrupt takes the processor from that task. -/
theorem user_keeps_processor : Reached userRuns ∧ (∃ cur, current userRuns = some cur ∧ cur.state = .running) ∧
    (∀ k, ¬ PreemptedWithin k userRuns) ∧ (interruptYields (taskRequestYield userRuns)).2 = false := by
  have user : (current userRuns).map (fun t => (t.isUser, t.state)) = some (true, .running) := by decide
  obtain ⟨cur, found, fields⟩ := Option.map_eq_some_iff.mp user
  obtain ⟨isUser, running⟩ := Prod.mk.inj fields
  have reached : Reached userRuns :=
    (Relation.ReflTransGen.single ⟨.create true, trivial, rfl⟩).tail ⟨.block, trivial, rfl⟩
  refine ⟨reached, ⟨cur, found, running⟩, fun k => ?_, by decide⟩
  rintro ⟨n, -, yields, -⟩
  rw [user_not_yields (user_interrupts found isUser n) isUser] at yields
  cases yields

end MeowMeowOS.TimerInterrupts

import MeowMeowOS.TaskPriorities
import Mathlib.Data.List.Count

/-! How long a ready task waits for the processor. Each pass over the list ages it,
up to the highest priority; from then on it is overtaken only by tasks that have
waited there at least as long, and each of those once. -/
namespace MeowMeowOS.WaitingTurns
open GuardedRuns Tasks RunningTask TaskRecords TaskPriorities

/-- The operation goes through `task_find_next_ready`. -/
def reschedules (s : Scheduler) : Action → Bool
  | .yield | .block => true
  | .sleep ticks => ticks ≠ 0
  | .wait pid =>
    match taskGetByPid s pid with
    | none => false
    | some target => target.state ≠ .dead
  | .exit _ => (current s).isSome
  | .scheduleTick =>
    match current (taskWakeExpiredSleepers s) with
    | none => false
    | some cur =>
      match cur.state with
      | .dead => true
      | .blocked | .sleeping | .waiting => false
      | .ready | .running => cur.yieldRequested || cur.sliceRemaining - 1 = 0
  | _ => false

def performAll (s : Scheduler) (actions : List Action) : Scheduler := actions.foldl perform s

/-- How many of the operations go through `task_find_next_ready`. -/
def passes (s : Scheduler) : List Action → Nat
  | [] => 0
  | action :: rest => (reschedules s action).toNat + passes (perform s action) rest

/-- No operation of the run is `task_set_priority`. -/
def KeepsPriorities (actions : List Action) : Prop :=
  ∀ action ∈ actions, ∀ pid priority, action ≠ .setPriority pid priority

/-! ## What the operations are made of -/

/-- Only a ready task that is not the current one has waited. -/
def Rested (s : Scheduler) : Prop :=
  ∀ t ∈ s.taskList, t.waitTicks ≠ 0 → t.state = .ready ∧ t.address ≠ s.currentTask

structure Sane (s : Scheduler) : Prop where
  records : Records s
  rested : Rested s
  ordered : All Ordered s

/-- The record keeps its priorities; it keeps its turn if it waits for one. -/
structure MildOn (currentTask : Nat) (t u : Task) : Prop where
  address : u.address = t.address
  priorities : u.basePriority = t.basePriority ∧ u.dynamicPriority = t.dynamicPriority
  wait : u.waitTicks = t.waitTicks ∨ u.waitTicks = 0
  ready : t.state = .ready → t.address ≠ currentTask → u.state = .ready ∧ u.waitTicks = t.waitTicks

/-- A change between two passes. -/
inductive Mild (s u : Scheduler) : Prop where
  | fields (f : Task → Task) (tasks : u.taskList = s.taskList.map f) (current : u.currentTask = s.currentTask)
      (records : u.records = s.records) (mild : ∀ t ∈ s.taskList, MildOn s.currentTask t (f t)) : Mild s u
  | created (isUser : Bool) (parentPid pid : Nat)
      (tasks : u.taskList = newTask s.records pid parentPid isUser :: s.taskList)
      (current : u.currentTask = s.currentTask) (records : u.records = s.records + 1) : Mild s u
  | reaped (fewer : u.taskList.Sublist s.taskList) (alive : ∀ t ∈ s.taskList, t.state ≠ .dead →
      t ∈ u.taskList)
      (current : u.currentTask = s.currentTask) (records : u.records = s.records) : Mild s u

/-- The number is that of the passes; behind one that switches tasks nothing follows. -/
inductive Path : Scheduler → Nat → Scheduler → Prop where
  | refl (s : Scheduler) : Path s 0 s
  | mild (change : Mild s u) (rest : Path u k v) : Path s k v
  | last (s : Scheduler) : Path s 1 (reschedule s).1
  | stay (same : (reschedule s).1.currentTask = s.currentTask) (rest : Path (reschedule s).1 k v) : Path s (k + 1) v

section
variable {s u v : Scheduler} {f : Task → Task} {a k : Nat} {t : Task}

theorem mildOn_refl (c : Nat) (t : Task) : MildOn c t t :=
  ⟨rfl, ⟨rfl, rfl⟩, .inl rfl, fun ready _ => ⟨ready, rfl⟩⟩

/-- A change of one record. -/
theorem mild_modify (mild : ∀ t ∈ s.taskList, t.address = a → MildOn s.currentTask t (f t)) :
    Mild s (modify s a f) := by
  refine .fields (fun t => if t.address = a then f t else t) rfl rfl rfl fun t member => ?_
  split
  · rename_i same
    exact mild t member same
  · exact mildOn_refl _ t

/-- The current task's own fields may change, its turn is over. -/
theorem mild_current (f : Task → Task)
    (kept : ∀ t, (f t).address = t.address ∧ (f t).basePriority = t.basePriority ∧
    (f t).dynamicPriority = t.dynamicPriority ∧ (f t).waitTicks = t.waitTicks) :
    Mild s (modify s s.currentTask f) := by
  refine mild_modify fun t _ same => ⟨(kept t).1, ⟨(kept t).2.1, (kept t).2.2.1⟩, .inl (kept t).2.2.2,
    fun _ other => ?_⟩
  exact absurd same other

theorem reschedule_stays (stays : (reschedule s).2 = true) : (reschedule s).1.currentTask = s.currentTask := by
  obtain ⟨next, found, -⟩ := taskFindNextReady_chosen s
  unfold reschedule at stays ⊢
  rw [found] at stays ⊢
  cases next with
  | none => rfl
  | some next =>
    dsimp only at stays ⊢
    by_cases same : next.address = s.currentTask
    · rw [if_pos same]
      rfl
    · rw [if_neg same] at stays
      cases stays

theorem mild_map (g : Task → Task) (cleanup : Bool) (mild : ∀ t, MildOn s.currentTask t (g t)) :
    Mild s { s with taskList := s.taskList.map g, needsCleanup := cleanup } :=
  .fields g rfl rfl rfl fun t _ => mild t

theorem mildOn_wakeWaiter (c pid status : Nat) (t : Task) : MildOn c t (wakeWaiter pid status t) := by
  unfold wakeWaiter
  split
  · rename_i waiting
    exact ⟨rfl, ⟨rfl, rfl⟩, .inl rfl, fun _ _ => ⟨rfl, rfl⟩⟩
  · exact mildOn_refl c t

theorem exit_path (found : (current s).isSome) (status : Nat) : Path s 1 (taskExitWithStatus s status) := by
  obtain ⟨cur, found⟩ := Option.isSome_iff_exists.mp found
  unfold taskExitWithStatus
  rw [found]
  dsimp only
  refine .mild (mild_current (fun t => { t with exitStatus := status % 2 ^ 32, state := .dead, isZombie := true })
    fun _ => ⟨rfl, rfl, rfl, rfl⟩) ?_
  refine .mild (mild_map (wakeWaiter cur.pid (status % 2 ^ 32)) true (mildOn_wakeWaiter _ _ _)) ?_
  refine .mild (mild_current _ ?_) (.last _)
  exact fun _ => ⟨rfl, rfl, rfl, rfl⟩

theorem checkSignals_path (deliverable : Nat) (handlers sigs : List Nat) :
    ∃ k, Path s k (checkSignals deliverable handlers s sigs) := by
  induction sigs generalizing s with
  | nil => exact ⟨0, .refl s⟩
  | cons signum rest ih =>
    have cleared : Mild s (modify s s.currentTask (clearSignal signum)) :=
      mild_current _ fun _ => ⟨rfl, rfl, rfl, rfl⟩
    unfold checkSignals
    split
    · dsimp only
      split
      · obtain ⟨k, path⟩ := ih (s := modify s s.currentTask (clearSignal signum))
        exact ⟨k, .mild cleared path⟩
      · split
        · by_cases found : (current (modify s s.currentTask (clearSignal signum))).isSome
          · exact ⟨1, .mild cleared (exit_path found _)⟩
          · have same : taskExitWithStatus (modify s s.currentTask (clearSignal signum)) (128 + signum) =
                modify s s.currentTask (clearSignal signum) := by
              unfold taskExitWithStatus
              rw [Option.not_isSome_iff_eq_none.mp found]
            rw [same]
            exact ⟨0, .mild cleared (.refl _)⟩
        · obtain ⟨k, path⟩ := ih (s := modify s s.currentTask (clearSignal signum))
          exact ⟨k, .mild cleared path⟩
    · exact ih

theorem taskCheckSignals_path (s : Scheduler) : ∃ k, Path s k (taskCheckSignals s) := by
  unfold taskCheckSignals
  split
  · exact ⟨0, .refl s⟩
  · split
    · exact ⟨0, .refl s⟩
    · split
      · exact ⟨0, .refl s⟩
      · exact checkSignals_path _ _ _

theorem yield_path (s : Scheduler) : ∃ k, 0 < k ∧ Path s k (taskYield s) := by
  unfold taskYield
  dsimp only
  split
  · exact ⟨1, Nat.one_pos, .last s⟩
  · split
    · rename_i checks
      obtain ⟨k, path⟩ := taskCheckSignals_path (reschedule s).1
      exact ⟨k + 1, Nat.succ_pos k, .stay (reschedule_stays checks.1) path⟩
    · exact ⟨1, Nat.one_pos, .last s⟩

/-- A change, and then a yield. -/
theorem mild_yield (change : Mild s u) : ∃ k, 0 < k ∧ Path s k (taskYield u) := by
  obtain ⟨k, positive, path⟩ := yield_path u
  exact ⟨k, positive, .mild change path⟩

theorem mild_path (change : Mild s u) : ∃ k, 0 ≤ k ∧ Path s k u := ⟨0, Nat.le_refl 0, .mild change (.refl u)⟩

theorem mildOn_wakeExpired (c now : Nat) (t : Task) : MildOn c t (wakeExpired now t) := by
  unfold wakeExpired
  split
  · rename_i asleep
    refine ⟨rfl, ⟨rfl, rfl⟩, .inr rfl, fun ready _ => ?_⟩
    rw [asleep.1] at ready
    cases ready
  · exact mildOn_refl c t

theorem tickCurrent_path (s : Scheduler) (cur : Task) :
    ∃ k, (cur.yieldRequested || decide (cur.sliceRemaining - 1 = 0)).toNat ≤ k ∧
    Path s k (tickCurrent s cur) := by
  have counted : Mild s (modify s s.currentTask fun t => { t with cpuTimeTicks := (t.cpuTimeTicks + 1) % 2 ^ 32 }) :=
    mild_current _ fun _ => ⟨rfl, rfl, rfl, rfl⟩
  unfold tickCurrent
  dsimp only
  cases requested : cur.yieldRequested with
  | true =>
    rw [if_pos rfl]
    have lowered : Mild (modify s s.currentTask fun t => { t with cpuTimeTicks := (t.cpuTimeTicks + 1) % 2 ^ 32 })
        (modify (modify s s.currentTask fun t => { t with cpuTimeTicks := (t.cpuTimeTicks + 1) % 2 ^ 32 }) s.currentTask
          fun t => { t with yieldRequested := false }) := mild_current _ fun _ => ⟨rfl, rfl, rfl, rfl⟩
    obtain ⟨k, positive, path⟩ := mild_yield lowered
    exact ⟨k, positive, .mild counted path⟩
  | false =>
    rw [if_neg Bool.false_ne_true]
    have spent : Mild (modify s s.currentTask fun t => { t with cpuTimeTicks := (t.cpuTimeTicks + 1) % 2 ^ 32 })
        (modify (modify s s.currentTask fun t => { t with cpuTimeTicks := (t.cpuTimeTicks + 1) % 2 ^ 32 }) s.currentTask
          fun t => { t with sliceRemaining := t.sliceRemaining - 1 }) := mild_current _ fun _ =>
          ⟨rfl, rfl, rfl, rfl⟩
    by_cases ended : cur.sliceRemaining - 1 = 0
    · rw [if_pos ended]
      have stopped (t : Task) : (preempt t).address = t.address ∧ (preempt t).basePriority = t.basePriority ∧
          (preempt t).dynamicPriority = t.dynamicPriority ∧ (preempt t).waitTicks = t.waitTicks := by
        unfold preempt
        split <;> exact ⟨rfl, rfl, rfl, rfl⟩
      obtain ⟨k, positive, path⟩ := mild_yield (mild_current (s := modify (modify s s.currentTask
        fun t => { t with cpuTimeTicks := (t.cpuTimeTicks + 1) % 2 ^ 32 }) s.currentTask
          fun t => { t with sliceRemaining := t.sliceRemaining - 1 }) preempt stopped)
      refine ⟨k, ?_, .mild counted (.mild spent path)⟩
      rw [ended]
      exact positive
    · rw [if_neg ended]
      refine ⟨0, ?_, .mild counted (.mild spent (.refl _))⟩
      simp [ended]

theorem tick_path (s : Scheduler) :
    ∃ k, (reschedules s .scheduleTick).toNat ≤ k ∧ Path s k (taskScheduleTick s) := by
  have awake : Mild s (taskWakeExpiredSleepers s) :=
    .fields (wakeExpired s.ticks) rfl rfl rfl fun t _ => mildOn_wakeExpired _ _ t
  unfold taskScheduleTick reschedules
  dsimp only
  cases found : current (taskWakeExpiredSleepers s) with
  | none => exact ⟨0, Nat.le_refl 0, .mild awake (.refl _)⟩
  | some cur =>
    have ticked : ∃ k, (cur.yieldRequested || decide (cur.sliceRemaining - 1 = 0)).toNat ≤ k ∧
        Path s k (tickCurrent (taskWakeExpiredSleepers s) cur) := by
      obtain ⟨k, enough, path⟩ := tickCurrent_path (taskWakeExpiredSleepers s) cur
      exact ⟨k, enough, .mild awake path⟩
    dsimp only
    cases cur.state with
    | dead =>
      obtain ⟨k, positive, path⟩ := mild_yield awake
      exact ⟨k, positive, path⟩
    | blocked => exact mild_path awake
    | sleeping => exact mild_path awake
    | waiting => exact mild_path awake
    | ready => exact ticked
    | running => exact ticked

/-- Every operation that leaves the priorities to the scheduler. -/
theorem perform_path (records : Records s) {action : Action}
    (keeps : ∀ pid priority, action ≠ .setPriority pid priority) :
    ∃ k, (reschedules s action).toNat ≤ k ∧ Path s k (perform s action) := by
  have unchanged : ∃ k, 0 ≤ k ∧ Path s k s := ⟨0, Nat.le_refl 0, .refl s⟩
  cases action with
  | clock => exact mild_path (.fields id (List.map_id _).symm rfl rfl fun t _ => mildOn_refl _ t)
  | scheduleTick => exact tick_path s
  | yield => exact yield_path s
  | requestYield => exact mild_path (mild_current _ fun _ => ⟨rfl, rfl, rfl, rfl⟩)
  | block => exact mild_yield (mild_current _ fun _ => ⟨rfl, rfl, rfl, rfl⟩)
  | unblock pid =>
    unfold perform taskUnblock
    dsimp only
    split
    · exact unchanged
    · refine mild_path (mild_modify fun t _ _ => ?_)
      unfold unblock
      split
      · rename_i blocked
        refine ⟨rfl, ⟨rfl, rfl⟩, .inr rfl, fun ready _ => ?_⟩
        rw [blocked] at ready
        cases ready
      · exact mildOn_refl _ t
  | sleep ticks =>
    unfold perform taskSleep reschedules
    by_cases none : ticks = 0
    · dsimp only
      rw [if_pos none, none]
      exact unchanged
    · obtain ⟨k, positive, path⟩ := mild_yield (mild_current (s := s) (fun t =>
        { t with state := .sleeping, wakeTick := (s.ticks + ticks) % 2 ^ 32, sliceRemaining := 0 })
        fun _ => ⟨rfl, rfl, rfl, rfl⟩)
      dsimp only
      rw [if_neg none]
      exact ⟨k, Nat.le_trans (Bool.toNat_le _) positive, path⟩
  | wake pid =>
    unfold perform taskWake
    dsimp only
    split
    · exact unchanged
    · rename_i task found
      have asleep :=
        of_decide_eq_true (List.find?_some (p := fun t : Task => decide (t.pid = pid ∧ t.state = .sleeping)) found)
      refine mild_path (mild_modify fun t member same => ⟨rfl, ⟨rfl, rfl⟩, .inr rfl, fun ready _ => ?_⟩)
      rw [record_unique records member (List.mem_of_find?_eq_some found) same, asleep.2] at ready
      cases ready
  | wait pid =>
    unfold perform taskWait reschedules
    dsimp only
    cases found : taskGetByPid s pid with
    | none => exact unchanged
    | some target =>
      dsimp only
      by_cases dead : target.state = .dead
      · rw [if_pos dead, dead]
        have answered :
          Mild s (modify s s.currentTask fun t => { t with exitStatus := target.exitStatus, waitingOnPid := 0 }) :=
          mild_current _ fun _ => ⟨rfl, rfl, rfl, rfl⟩
        refine ⟨0, Nat.le_refl 0, .mild answered (.mild ?_ (.refl _))⟩
        refine .fields (fun t => if t.address = target.address then { t with isZombie := false } else t) rfl rfl rfl
          fun t _ => ?_
        split
        · exact ⟨rfl, ⟨rfl, rfl⟩, .inl rfl, fun ready _ => ⟨ready, rfl⟩⟩
        · exact mildOn_refl _ t
      · rw [if_neg dead]
        obtain ⟨k, positive, path⟩ := mild_yield (mild_current (s := s) (fun t =>
          { t with state := .waiting, waitingOnPid := pid, wakeTick := 0 }) fun _ => ⟨rfl, rfl, rfl, rfl⟩)
        exact ⟨k, Nat.le_trans (Bool.toNat_le _) positive, path⟩
  | exit status =>
    unfold reschedules perform
    by_cases found : (current s).isSome = true
    · exact ⟨1, Bool.toNat_le _, exit_path found status⟩
    · rw [Bool.eq_false_iff.mpr found]
      unfold taskExitWithStatus
      rw [Option.not_isSome_iff_eq_none.mp found]
      exact unchanged
  | sendSignal pid signum =>
    unfold perform taskSendSignal
    dsimp only
    split
    · exact unchanged
    · split
      · exact unchanged
      · split
        · exact unchanged
        · rename_i target _ _
          have sent : Mild s (modify s target.address (signalled signum)) := by
            refine mild_modify fun t _ _ => ?_
            unfold signalled
            dsimp only
            split
            · exact ⟨rfl, ⟨rfl, rfl⟩, .inl rfl, fun _ _ => ⟨rfl, rfl⟩⟩
            · exact ⟨rfl, ⟨rfl, rfl⟩, .inl rfl, fun ready _ => ⟨ready, rfl⟩⟩
          split
          · exact mild_path sent
          · split
            · obtain ⟨k, path⟩ := taskCheckSignals_path (modify s target.address (signalled signum))
              exact ⟨k, Nat.zero_le k, .mild sent path⟩
            · exact mild_path sent
  | setSignalHandler signum handler =>
    unfold perform taskSetSignalHandler
    dsimp only
    split
    · exact unchanged
    · exact mild_path (mild_current _ fun _ => ⟨rfl, rfl, rfl, rfl⟩)
  | setPriority pid priority => exact absurd rfl (keeps pid priority)
  | create isUser =>
    have child : Mild s (modify s s.currentTask (taskAddChild s.nextPid)) := by
      refine mild_current _ fun t => ?_
      unfold taskAddChild
      split <;> exact ⟨rfl, rfl, rfl, rfl⟩
    refine ⟨0, Nat.le_refl 0, .mild child (.mild ?_ (.refl _))⟩
    exact .created isUser _ _ rfl rfl rfl
  | cleanup =>
    obtain ⟨fewer, alive, same, records⟩ := idleCleanup_kept s
    exact mild_path (.reaped fewer alive same records)

/-! ## What a pass does to the records -/

/-- The pass ages the records that wait for their turn. -/
structure AgedOn (currentTask : Nat) (t u : Task) : Prop where
  address : u.address = t.address
  base : u.basePriority = t.basePriority
  waiting : t.state = .ready → t.address ≠ currentTask →
    u.state = .ready ∧ u.dynamicPriority = (age t).dynamicPriority ∧ u.waitTicks = (age t).waitTicks
  other : ¬ (t.state = .ready ∧ t.address ≠ currentTask) →
    u.dynamicPriority = t.dynamicPriority ∧ u.waitTicks = t.waitTicks

/-- The current task stays, or the best of the others takes its place. -/
inductive Passed (s u : Scheduler) : Prop where
  | stays (f : Task → Task) (tasks : u.taskList = s.taskList.map f) (current : u.currentTask = s.currentTask)
      (records : u.records = s.records) (aged : ∀ t, AgedOn s.currentTask t (f t))
      (best : ∀ t ∈ s.taskList, t.state = .ready → t.address ≠ s.currentTask → ∃ b ∈ s.taskList,
        b.address = s.currentTask ∧ ¬ Outranks (age t) b) : Passed s u
  | switches (b : Task) (f : Task → Task) (member : b ∈ s.taskList) (ready : b.state = .ready)
      (other : b.address ≠ s.currentTask) (tasks : u.taskList = s.taskList.map f)
      (current : u.currentTask = b.address)
      (records : u.records = s.records) (aged : ∀ t, t.address ≠ b.address → AgedOn s.currentTask t (f t))
      (dispatched : ∀ t, t.address = b.address → (f t).address = t.address ∧ (f t).waitTicks = 0 ∧
        (f t).basePriority = t.basePriority ∧ (f t).dynamicPriority = t.basePriority)
      (best : ∀ t ∈ s.taskList, t.state = .ready → t.address ≠ s.currentTask → ¬ Outranks (age t) (age b)) :
      Passed s u

theorem agedOn_visit (c : Nat) (t : Task) : AgedOn c t (visit c t) := by
  by_cases waits : t.state = .ready ∧ t.address ≠ c
  · unfold visit
    rw [if_pos waits.symm]
    refine ⟨?_, ?_, fun _ _ => ⟨?_, rfl, rfl⟩, fun other => absurd waits other⟩ <;> unfold age <;>
      dsimp only <;> split
    · rfl
    · rfl
    · rfl
    · rfl
    · exact waits.1
    · exact waits.1
  · unfold visit
    rw [if_neg fun both => waits both.symm]
    exact ⟨rfl, rfl, fun ready other => absurd ⟨ready, other⟩ waits, fun _ => ⟨rfl, rfl⟩⟩

theorem agedOn_then {c : Nat} (aged : AgedOn c t u') (address : w.address = u'.address)
    (base : w.basePriority = u'.basePriority)
    (dynamic : w.dynamicPriority = u'.dynamicPriority) (wait : w.waitTicks = u'.waitTicks)
    (ready : u'.state = .ready → w.state = .ready) : AgedOn c t w := by
  refine ⟨address.trans aged.address, base.trans aged.base, fun was other => ?_, fun other => ?_⟩
  · obtain ⟨still, level, ticks⟩ := aged.waiting was other
    exact ⟨ready still, dynamic.trans level, wait.trans ticks⟩
  · obtain ⟨level, ticks⟩ := aged.other other
    exact ⟨dynamic.trans level, wait.trans ticks⟩

theorem best_outranks (best : Best a seen b) (member : t ∈ seen) (eligible : Eligible a t) : ¬ Outranks t b := by
  obtain ⟨-, before, after, rfl, above, notAbove⟩ := best
  rcases List.mem_append.mp member with early | late
  · exact outranks_asymm (above t early eligible)
  · rcases List.mem_cons.mp late with rfl | later
    · unfold Outranks
      omega
    · exact notAbove t later eligible

theorem visit_waiting {c : Nat} (ready : t.state = .ready) (other : t.address ≠ c) : visit c t = age t :=
  if_pos ⟨other, ready⟩

/-- What a pass and the change of the task to `next` make of a record. -/
def turned (c next : Nat) (t : Task) : Task :=
  let t := if (visit c t).address = c then preempt (visit c t) else visit c t
  if t.address = next then dispatch t else t

theorem agedOn_preempted (c : Nat) (t : Task) :
    AgedOn c t (if (visit c t).address = c then preempt (visit c t) else visit c t) := by
  have aged := agedOn_visit c t
  split
  · refine agedOn_then aged ?_ ?_ ?_ ?_ fun ready => ?_ <;> unfold preempt <;> split <;> first | rfl | assumption
  · exact aged

theorem switchTo_turned (s : Scheduler) (next : Task) :
    (switchTo { s with taskList := s.taskList.map (visit s.currentTask) } next).taskList =
      s.taskList.map (turned s.currentTask next.address) := by
  unfold switchTo Tasks.modify
  dsimp only
  rw [List.map_map, List.map_map]
  rfl

theorem reschedule_passed (s : Scheduler) : Passed s (reschedule s).1 := by
  obtain ⟨next, found, chosen⟩ := taskFindNextReady_chosen s
  have entered (t : Task) (member : t ∈ s.taskList) (ready : t.state = .ready) (other : t.address ≠ s.currentTask) :
      age t ∈ s.taskList.map (visit s.currentTask) ∧ Eligible s.currentTask (age t) := by
    have same := visit_waiting ready other
    have still := ((agedOn_visit s.currentTask t).waiting ready other).1
    rw [same] at still
    exact ⟨List.mem_map.mpr ⟨t, member, same⟩, .inl still⟩
  have refilled (t : Task) : AgedOn s.currentTask t (if (visit s.currentTask t).address = s.currentTask then
      refill (visit s.currentTask t) else visit s.currentTask t) := by
    have aged := agedOn_visit s.currentTask t
    split
    · refine agedOn_then aged ?_ ?_ ?_ ?_ fun ready => ?_ <;> unfold refill <;> split <;> first | rfl | assumption
    · exact aged
  unfold reschedule
  rw [found]
  dsimp only
  cases next with
  | none =>
    refine .stays _ (List.map_map ..) rfl rfl refilled fun t member ready other => ?_
    obtain ⟨listed, eligible⟩ := entered t member ready other
    exact absurd eligible (chosen.none rfl _ listed)
  | some next =>
    have best := chosen.some next rfl
    have above (t : Task) (member : t ∈ s.taskList) (ready : t.state = .ready) (other : t.address ≠ s.currentTask) :
        ¬ Outranks (age t) next := by
      obtain ⟨listed, eligible⟩ := entered t member ready other
      exact best_outranks best listed eligible
    obtain ⟨b, member, shape⟩ := List.mem_map.mp (best_mem best)
    have address : next.address = b.address := shape ▸ (agedOn_visit s.currentTask b).address
    dsimp only
    by_cases same : next.address = s.currentTask
    · rw [if_pos same]
      have kept : visit s.currentTask b = b := if_neg fun moved => moved.1 (address.symm.trans same)
      refine .stays _ (List.map_map ..) rfl rfl refilled fun t memberT ready other =>
        ⟨b, member, address.symm.trans same, ?_⟩
      rw [← kept, shape]
      exact above t memberT ready other
    · rw [if_neg same]
      have ready : b.state = .ready := by
        have state : next.state = b.state := by
          rw [← shape]
          unfold visit age
          dsimp only
          split
          · split <;> rfl
          · rfl
        rcases best.eligible with ready | ⟨current, -⟩
        · exact state.symm.trans ready
        · exact absurd current same
      have other : b.address ≠ s.currentTask := fun equal => same (address.trans equal)
      refine .switches b (turned s.currentTask next.address) member ready other (switchTo_turned s next) address rfl
        (fun t apart => ?_) (fun t equal => ?_) fun t memberT readyT otherT => ?_
      · have aged := agedOn_preempted s.currentTask t
        unfold turned
        dsimp only
        rw [if_neg fun moved => apart ((aged.address.symm.trans moved).trans address)]
        exact aged
      · have aged := agedOn_preempted s.currentTask t
        unfold turned
        dsimp only
        rw [if_pos ((aged.address.trans equal).trans address.symm)]
        exact ⟨aged.address, rfl, aged.base, aged.base⟩
      · rw [← visit_waiting ready other, shape]
        exact above t memberT readyT otherT

/-! ## Waiting tasks in every state -/

theorem addresses_map {tasks : List Task} (same : ∀ t ∈ tasks, (f t).address = t.address) :
    (tasks.map f).map Task.address = tasks.map Task.address := by
  rw [List.map_map]
  exact List.map_congr_left same

theorem sane_mild (sane : Sane s) (change : Mild s u) : Sane u := by
  obtain ⟨⟨distinct, known⟩, rested, ordered⟩ := sane
  cases change with
  | fields f tasks current records mild =>
    refine ⟨⟨?_, ?_⟩, ?_, ?_⟩
    · rw [tasks, addresses_map fun t member => (mild t member).address]
      exact distinct
    all_goals
      intro v member
      rw [tasks] at member
      obtain ⟨t, memberT, rfl⟩ := List.mem_map.mp member
      have kept := mild t memberT
    · rw [kept.address, records]
      exact known t memberT
    · intro waited
      rcases kept.wait with same | zero
      · obtain ⟨ready, other⟩ := rested t memberT (same ▸ waited)
        rw [kept.address, current]
        exact ⟨(kept.ready ready other).1, other⟩
      · exact absurd zero waited
    · rw [Ordered, kept.priorities.1, kept.priorities.2]
      exact ordered t memberT
  | created isUser parentPid pid tasks current records =>
    have fresh : s.records ∉ s.taskList.map Task.address := fun member => by
      obtain ⟨t, memberT, same⟩ := List.mem_map.mp member
      exact absurd (known t memberT) (by omega)
    refine ⟨⟨?_, ?_⟩, ?_, ?_⟩
    · rw [tasks]
      exact List.nodup_cons.mpr ⟨fresh, distinct⟩
    all_goals
      intro v member
      rw [tasks] at member
      rcases List.mem_cons.mp member with rfl | old
    · rw [records]
      exact Nat.lt_succ_self _
    · rw [records]
      exact Nat.lt_succ_of_lt (known v old)
    · exact fun waited => absurd rfl waited
    · rw [current]
      exact rested v old
    · exact ordered_lasting.created _ _ _ _
    · exact ordered v old
  | reaped fewer alive current records =>
    refine ⟨⟨(fewer.map _).nodup distinct, fun t member => ?_⟩, fun t member => ?_, fun t member => ?_⟩
    · rw [records]
      exact known t (fewer.subset member)
    · rw [current]
      exact rested t (fewer.subset member)
    · exact ordered t (fewer.subset member)

theorem sane_pass (sane : Sane s) : Sane (reschedule s).1 := by
  obtain ⟨⟨distinct, known⟩, rested, ordered⟩ := sane
  have priorities := reschedule_all ordered_lasting ordered
  have calm (t w : Task) (member : t ∈ s.taskList) (aged : AgedOn s.currentTask t w) (waited : w.waitTicks ≠ 0) :
      w.state = .ready ∧ t.address ≠ s.currentTask := by
    by_cases waits : t.state = .ready ∧ t.address ≠ s.currentTask
    · exact ⟨(aged.waiting waits.1 waits.2).1, waits.2⟩
    · rw [(aged.other waits).2] at waited
      exact absurd (rested t member waited) waits
  cases reschedule_passed s with
  | stays f tasks current records aged _ =>
    refine ⟨⟨?_, ?_⟩, ?_, priorities⟩
    · rw [tasks, addresses_map fun t _ => (aged t).address]
      exact distinct
    all_goals
      intro v member
      rw [tasks] at member
      obtain ⟨t, memberT, rfl⟩ := List.mem_map.mp member
    · rw [(aged t).address, records]
      exact known t memberT
    · rw [(aged t).address, current]
      exact calm t _ memberT (aged t)
  | switches b f member ready other tasks current records aged dispatched _ =>
    have address (t : Task) : (f t).address = t.address := by
      by_cases same : t.address = b.address
      · exact (dispatched t same).1
      · exact (aged t same).address
    refine ⟨⟨?_, ?_⟩, ?_, priorities⟩
    · rw [tasks, addresses_map fun t _ => address t]
      exact distinct
    all_goals
      intro v memberV
      rw [tasks] at memberV
      obtain ⟨t, memberT, rfl⟩ := List.mem_map.mp memberV
    · rw [address, records]
      exact known t memberT
    · intro waited
      rw [address, current]
      by_cases same : t.address = b.address
      · exact absurd (dispatched t same).2.1 waited
      · exact ⟨(calm t _ memberT (aged t same) waited).1, same⟩

theorem sane_path (path : Path s k u) (sane : Sane s) : Sane u := by
  induction path with
  | refl => exact sane
  | mild change _ ih => exact ih (sane_mild sane change)
  | last => exact sane_pass sane
  | stay _ _ ih => exact ih (sane_pass sane)

/-! ## The turn of one task -/

theorem countP_map_le {α : Type*} {l : List α} {g : α → α} {p q : α → Bool}
    (kept : ∀ x ∈ l, q (g x) = true → p x = true) :
    (l.map g).countP q ≤ l.countP p := by
  rw [List.countP_map]
  exact List.countP_mono_left kept

theorem countP_map_lt {α : Type*} {l : List α} {g : α → α} {p q : α → Bool} {b : α}
    (kept : ∀ x ∈ l, q (g x) = true → p x = true) (member : b ∈ l) (was : p b = true) (gone : q (g b) = false) :
    (l.map g).countP q < l.countP p := by
  obtain ⟨before, after, rfl⟩ := List.append_of_mem member
  have front : (before.map g).countP q ≤ before.countP p :=
    countP_map_le fun x inside => kept x (List.mem_append_left _ inside)
  have back : (after.map g).countP q ≤ after.countP p :=
    countP_map_le fun x inside => kept x (List.mem_append_right _ (List.mem_cons_of_mem _ inside))
  rw [List.map_append, List.map_cons, List.countP_append, List.countP_append, List.countP_cons_of_pos was,
    List.countP_cons_of_neg (by simp [gone])]
  omega

/-- The record is of the highest priority and has waited there for at least `wait` passes. -/
def overtakes (a wait : Nat) (u : Task) : Bool :=
  u.address ≠ a ∧ u.dynamicPriority = priorityMax ∧ wait ≤ u.waitTicks

/-- A bound on the passes until the task's turn, when no more than `most` records are
ever given out. -/
def turn (most : Nat) (s : Scheduler) (t : Task) : Nat :=
  if t.dynamicPriority < priorityMax then
    starvationThreshold * (priorityMax - t.dynamicPriority) - min t.waitTicks (starvationThreshold - 1) + most
  else s.taskList.countP (overtakes t.address t.waitTicks)

/-- The task waits, and its turn comes after at most `n` passes. -/
def Turn (most : Nat) (s : Scheduler) (a n : Nat) : Prop :=
  ∃ t ∈ s.taskList, t.address = a ∧ t.state = .ready ∧ a ≠ s.currentTask ∧ turn most s t ≤ n ∧
    t.waitTicks + n + 1 < 2 ^ 32

variable {most n : Nat}

theorem age_cases (t : Task) :
    ((age t).dynamicPriority = t.dynamicPriority ∧ (age t).waitTicks = (t.waitTicks + 1) % 2 ^ 32 ∧
      ¬ (starvationThreshold ≤ (t.waitTicks + 1) % 2 ^ 32 ∧ t.dynamicPriority < priorityMax)) ∨
    ((age t).dynamicPriority = t.dynamicPriority + 1 ∧ (age t).waitTicks = 0 ∧
      starvationThreshold ≤ (t.waitTicks + 1) % 2 ^ 32 ∧ t.dynamicPriority < priorityMax) := by
  unfold age
  dsimp only
  by_cases boosted : starvationThreshold ≤ (t.waitTicks + 1) % 2 ^ 32 ∧ t.dynamicPriority < priorityMax
  · rw [if_pos boosted]
    exact .inr ⟨rfl, rfl, boosted⟩
  · rw [if_neg boosted]
    exact .inl ⟨rfl, rfl, boosted⟩

theorem turn_mild (waits : Turn most s a n) (change : Mild s u) : Turn most u a n := by
  obtain ⟨t, member, rfl, ready, other, bound, word⟩ := waits
  cases change with
  | fields f tasks current records mild =>
    have kept := mild t member
    obtain ⟨still, wait⟩ := kept.ready ready other
    refine ⟨f t, tasks ▸ List.mem_map_of_mem member, kept.address, still, current ▸ other, ?_, wait ▸ word⟩
    refine Nat.le_trans ?_ bound
    unfold turn
    rw [kept.priorities.2, wait, kept.address]
    split
    · exact Nat.le_refl _
    · rw [tasks]
      refine countP_map_le fun x inside counted => ?_
      have same := mild x inside
      have zero := same.wait
      simp only [overtakes, same.address, same.priorities.2, decide_eq_true_eq] at counted ⊢
      omega
  | created isUser parentPid pid tasks current records =>
    refine ⟨t, tasks ▸ List.mem_cons_of_mem _ member, rfl, ready, current ▸ other, ?_, word⟩
    refine Nat.le_trans ?_ bound
    unfold turn
    rw [tasks, List.countP_cons_of_neg]
    have low : (newTask s.records pid parentPid isUser).dynamicPriority ≠ priorityMax :=
      show priorityNormal ≠ priorityMax by decide
    simp [overtakes, low]
  | reaped fewer alive current records =>
    refine ⟨t, alive t member (by simp [ready]), rfl, ready, current ▸ other, ?_, word⟩
    refine Nat.le_trans ?_ bound
    unfold turn
    split
    · exact Nat.le_refl _
    · exact fewer.countP_le

theorem length_records (records : Records s) : s.taskList.length ≤ s.records := by
  have inside : s.taskList.map Task.address ⊆ List.range s.records := by
    intro a member
    obtain ⟨t, memberT, rfl⟩ := List.mem_map.mp member
    exact List.mem_range.mpr (records.known t memberT)
  have short := records.distinct.length_le_of_subset inside
  rwa [List.length_map, List.length_range] at short

/-- Below the highest priority each pass brings the next one nearer. -/
theorem turn_aged (low : t.dynamicPriority < priorityMax) (word : t.waitTicks + 1 < 2 ^ 32) {w : Task}
    (dynamic : w.dynamicPriority = (age t).dynamicPriority) (wait : w.waitTicks = (age t).waitTicks)
    (few : u.taskList.length ≤ most) : turn most u w + 1 ≤ turn most s t := by
  have counted : u.taskList.countP (overtakes w.address w.waitTicks) ≤ most := Nat.le_trans List.countP_le_length few
  have same : (t.waitTicks + 1) % 2 ^ 32 = t.waitTicks + 1 := Nat.mod_eq_of_lt word
  unfold turn
  rw [if_pos low, dynamic, wait]
  rw [wait] at counted
  rcases age_cases t with ⟨level, ticks, plain⟩ | ⟨level, ticks, starved, -⟩
  · rw [same] at plain ticks
    rw [level, ticks, if_pos low]
    unfold starvationThreshold priorityMax at *
    omega
  · rw [same] at starved
    rw [level, ticks]
    split
    · unfold starvationThreshold priorityMax at *
      omega
    · rw [ticks] at counted
      unfold starvationThreshold priorityMax at *
      omega

/-- Who is still ahead after a pass was ahead before. -/
theorem overtakes_aged {c wait : Nat} {w : Task} (aged : AgedOn c t w)
    (rested : ¬ (t.state = .ready ∧ t.address ≠ c) → t.waitTicks = 0) (ahead : overtakes a (wait + 1) w = true) :
    overtakes a wait t = true := by
  simp only [overtakes, decide_eq_true_eq, aged.address] at ahead ⊢
  obtain ⟨other, high, long⟩ := ahead
  by_cases waits : t.state = .ready ∧ t.address ≠ c
  · obtain ⟨-, level, ticks⟩ := aged.waiting waits.1 waits.2
    rw [ticks] at long
    rw [level] at high
    rcases age_cases t with ⟨level', ticks', -⟩ | ⟨-, ticks', -⟩
    · rw [ticks'] at long
      rw [level'] at high
      exact ⟨other, high, by omega⟩
    · omega
  · have zero := rested waits
    rw [(aged.other waits).2] at long
    omega

theorem turn_pass (sane : Sane s) (few : s.records ≤ most) (waits : Turn most s a n) :
    (reschedule s).1.currentTask = a ∨ ∃ m, m + 1 ≤ n ∧ Turn most (reschedule s).1 a m := by
  obtain ⟨t, member, rfl, ready, other, bound, word⟩ := waits
  have rested (x : Task) (inside : x ∈ s.taskList) (resting : ¬ (x.state = .ready ∧ x.address ≠ s.currentTask)) :
      x.waitTicks = 0 := not_not.mp fun waited => resting (sane.rested x inside waited)
  have short : (reschedule s).1.taskList.length ≤ most := by
    have length : (reschedule s).1.taskList.length = s.taskList.length := by
      cases reschedule_passed s with
      | stays f tasks => rw [tasks, List.length_map]
      | switches b f _ _ _ tasks => rw [tasks, List.length_map]
    exact length ▸ Nat.le_trans (length_records sane.records) few
  have next : (t.waitTicks + 1) % 2 ^ 32 = t.waitTicks + 1 := Nat.mod_eq_of_lt (by omega)
  have waitAged : (age t).waitTicks ≤ t.waitTicks + 1 := by
    rcases age_cases t with ⟨-, ticks, -⟩ | ⟨-, ticks, -⟩ <;> omega
  -- at the highest priority, who is chosen was ahead
  have top (high : ¬ t.dynamicPriority < priorityMax) :
      (age t).dynamicPriority = priorityMax ∧ (age t).waitTicks = t.waitTicks + 1 := by
    have level := (sane.ordered t member).2
    rcases age_cases t with ⟨same, ticks, -⟩ | ⟨-, -, -, low⟩
    · exact ⟨by omega, ticks.trans next⟩
    · exact absurd low high
  cases reschedule_passed s with
  | stays f tasks current records aged best =>
    obtain ⟨still, level, ticks⟩ := (aged t).waiting ready other
    have less : turn most (reschedule s).1 (f t) + 1 ≤ turn most s t := by
      by_cases low : t.dynamicPriority < priorityMax
      · exact turn_aged low (by omega) level ticks short
      · obtain ⟨b, memberB, currentB, beaten⟩ := best t member ready other
        have zero := rested b memberB fun waiting => waiting.2 currentB
        have levelB := (sane.ordered b memberB).2
        obtain ⟨levelT, ticksT⟩ := top low
        unfold Outranks at beaten
        omega
    refine .inr ⟨turn most (reschedule s).1 (f t), by omega, f t, tasks ▸ List.mem_map_of_mem member,
      (aged t).address,
      still, current ▸ other, Nat.le_refl _, by omega⟩
  | switches b f memberB readyB otherB tasks current records aged dispatched best =>
    by_cases own : b.address = t.address
    · exact .inl (current.trans own)
    · obtain ⟨still, level, ticks⟩ := (aged t (Ne.symm own)).waiting ready other
      have address := (aged t (Ne.symm own)).address
      have less : turn most (reschedule s).1 (f t) + 1 ≤ turn most s t := by
        by_cases low : t.dynamicPriority < priorityMax
        · exact turn_aged low (by omega) level ticks short
        · obtain ⟨levelT, ticksT⟩ := top low
          have beaten := best t member ready other
          have levelB := (sane.ordered b memberB).2
          unfold turn
          rw [if_neg low, level, levelT, if_neg (Nat.lt_irrefl _), ticks, ticksT, address, tasks]
          refine countP_map_lt (b := b) (fun x inside ahead => ?_) memberB ?_ ?_
          · by_cases same : x.address = b.address
            · have zero := (dispatched x same).2.1
              simp only [overtakes, decide_eq_true_eq, zero] at ahead
              omega
            · exact overtakes_aged (aged x same) (rested x inside) ahead
          · have ahead : overtakes t.address (t.waitTicks + 1) (age b) = true := by
              have addressB : (age b).address = b.address := by
                unfold age
                dsimp only
                split <;> rfl
              have levelAged : (age b).dynamicPriority ≤ priorityMax := by
                rcases age_cases b with ⟨same, -⟩ | ⟨same, -, -, lowB⟩ <;> omega
              unfold Outranks at beaten
              simp only [overtakes, decide_eq_true_eq, addressB]
              omega
            refine overtakes_aged (w := age b) ?_ (rested b memberB) ahead
            exact visit_waiting readyB otherB ▸ agedOn_visit s.currentTask b
          · simp [overtakes, (dispatched b rfl).2.1]
      exact .inr ⟨turn most (reschedule s).1 (f t), by omega, f t, tasks ▸ List.mem_map_of_mem member, address,
        still, fun same => own (current.symm.trans same.symm), Nat.le_refl _, by omega⟩

/-! ## Runs -/

theorem reschedule_records (s : Scheduler) : (reschedule s).1.records = s.records := by
  cases reschedule_passed s with
  | stays _ _ _ records => exact records
  | switches _ _ _ _ _ _ _ records => exact records

theorem path_records (path : Path s k u) : s.records ≤ u.records := by
  induction path with
  | refl => exact Nat.le_refl _
  | mild change _ ih =>
    refine Nat.le_trans ?_ ih
    cases change with
    | fields _ _ _ records => omega
    | created _ _ _ _ _ records => omega
    | reaped _ _ _ records => omega
  | last s => exact Nat.le_of_eq (reschedule_records s).symm
  | stay _ _ ih => rwa [reschedule_records] at ih

theorem turn_path (path : Path s k u) (sane : Sane s) (few : u.records ≤ most) (waits : Turn most s a n) :
    u.currentTask = a ∨ ∃ m, m + k ≤ n ∧ Turn most u a m := by
  induction path generalizing n with
  | refl => exact .inr ⟨n, Nat.le_refl n, waits⟩
  | mild change _ ih => exact ih (sane_mild sane change) few (turn_mild waits change)
  | last s => exact turn_pass sane (by rwa [reschedule_records] at few) waits
  | @stay s k v same rest ih =>
    have earlier := path_records rest
    rw [reschedule_records] at earlier
    rcases turn_pass sane (by omega) waits with chosen | ⟨m, less, later⟩
    · obtain ⟨t, -, -, -, other, -⟩ := waits
      exact absurd (chosen.symm.trans same) other
    · rcases ih (sane_pass sane) few later with done | ⟨m', less', last⟩
      · exact .inl done
      · exact .inr ⟨m', by omega, last⟩

theorem run_sane {actions : List Action} (sane : Sane s) (keeps : KeepsPriorities actions) :
    Sane (performAll s actions) ∧ s.records ≤ (performAll s actions).records := by
  induction actions generalizing s with
  | nil => exact ⟨sane, Nat.le_refl _⟩
  | cons action rest ih =>
    obtain ⟨k, -, path⟩ := perform_path sane.records (keeps action List.mem_cons_self)
    obtain ⟨last, grown⟩ := ih (sane_path path sane) fun b member => keeps b (List.mem_cons_of_mem _ member)
    exact ⟨last, Nat.le_trans (path_records path) grown⟩

theorem turn_run {actions : List Action} (sane : Sane s) (keeps : KeepsPriorities actions)
    (few : (performAll s actions).records ≤ most) (waits : Turn most s a n) :
    (∃ front, front <+: actions ∧ (performAll s front).currentTask = a) ∨
      ∃ m, m + passes s actions ≤ n ∧ Turn most (performAll s actions) a m := by
  induction actions generalizing s n with
  | nil => exact .inr ⟨n, Nat.le_refl n, waits⟩
  | cons action rest ih =>
    obtain ⟨k, counted, path⟩ := perform_path sane.records (keeps action List.mem_cons_self)
    have later : KeepsPriorities rest := fun b member => keeps b (List.mem_cons_of_mem _ member)
    have next := sane_path path sane
    have between : (perform s action).records ≤ most := Nat.le_trans (run_sane next later).2 few
    rcases turn_path path sane between waits with chosen | ⟨m, less, waits'⟩
    · exact .inl ⟨[action], (List.prefix_append [action] rest), chosen⟩
    · rcases ih next later few waits' with ⟨front, inside, chosen⟩ | ⟨m', less', last⟩
      · exact .inl ⟨action :: front, List.prefix_cons_inj action |>.mpr inside, chosen⟩
      · refine .inr ⟨m', ?_, last⟩
        unfold passes
        omega

theorem sane_priority (sane : Sane s) (pid priority : Nat) : Sane (taskSetPriority s pid priority) := by
  have ordered := perform_all ordered_lasting sane.ordered (.setPriority pid priority)
  change All Ordered (taskSetPriority s pid priority) at ordered
  unfold taskSetPriority at ordered ⊢
  dsimp only at ordered ⊢
  split
  · exact sane
  · rename_i task found
    rw [found] at ordered
    refine ⟨records_modify sane.records fun _ => rfl, fun t member waited => ?_, ordered⟩
    obtain ⟨u, inside, rfl⟩ := mem_modify.mp member
    by_cases same : u.address = task.address
    · rw [if_pos same] at waited ⊢
      exact sane.rested u inside waited
    · rw [if_neg same] at waited ⊢
      exact sane.rested u inside waited

theorem reached_sane (reached : Reached s) : Sane s := by
  have initial : Sane taskInitialize := by
    refine ⟨⟨by decide, by decide⟩, ?_, taskInitialize_all ordered_lasting⟩
    unfold Rested
    decide
  refine run_invariant Sane reached initial ?_
  rintro s action u sane - rfl
  by_cases ranks : ∃ pid priority, action = .setPriority pid priority
  · obtain ⟨pid, priority, rfl⟩ := ranks
    exact sane_priority sane pid priority
  · obtain ⟨k, -, path⟩ := perform_path sane.records fun pid priority same => ranks ⟨pid, priority, same⟩
    exact sane_path path sane

end

/-- No task starves: a ready task gets the processor within 50 passes for each step of
priority that it lacks, and one for each record that was ever given out. -/
theorem ready_gets_processor {s : Scheduler} {t : Task} {actions : List Action} (reached : Reached s)
    (member : t ∈ s.taskList) (ready : t.state = .ready) (keeps : KeepsPriorities actions)
    (word : t.waitTicks + starvationThreshold * priorityMax + (performAll s actions).records + 1 < 2 ^ 32)
    (enough : starvationThreshold * (priorityMax - t.dynamicPriority) + (performAll s actions).records < passes s
    actions) :
    ∃ front, front <+: actions ∧ (performAll s front).currentTask = t.address := by
  have sane := reached_sane reached
  by_cases current : t.address = s.currentTask
  · exact ⟨[], List.nil_prefix, current.symm⟩
  · have begins : Turn (performAll s actions).records s t.address
        (starvationThreshold * (priorityMax - t.dynamicPriority) + (performAll s actions).records) := by
      refine ⟨t, member, rfl, ready, current, ?_, ?_⟩
      · unfold turn
        split
        · omega
        · have counted : s.taskList.countP (overtakes t.address t.waitTicks) ≤ s.taskList.length :=
            List.countP_le_length
          have short := length_records sane.records
          have grown := (run_sane sane keeps).2
          omega
      · unfold starvationThreshold priorityMax at *
        omega
    rcases turn_run sane keeps (Nat.le_refl _) begins with chosen | ⟨m, less, -⟩
    · exact chosen
    · omega

theorem passes_yield (s : Scheduler) (n : Nat) : passes s (List.replicate n .yield) = n := by
  induction n generalizing s with
  | zero => rfl
  | succ n ih =>
    rw [List.replicate_succ, passes, ih]
    exact Nat.add_comm 1 n

/-- A task beside the shell, which yields again and again. -/
def firstUser : Scheduler := perform taskInitialize (.create true)

theorem ready_gets_processor_user :
    ∃ front, front <+: List.replicate 105 Action.yield ∧ (performAll firstUser front).currentTask = 3 := by
  have records : (performAll firstUser (List.replicate 105 .yield)).records = 4 := by decide +kernel
  have reached : Reached firstUser := run_then .refl trivial rfl
  have keeps : KeepsPriorities (List.replicate 105 .yield) := by
    intro action member pid priority
    rw [List.eq_of_mem_replicate member]
    exact nofun
  refine ready_gets_processor (t := newTask 3 3 1 true) reached (by decide) rfl keeps ?_ ?_
  · rw [records]
    decide
  · rw [records, passes_yield]
    decide

end MeowMeowOS.WaitingTurns

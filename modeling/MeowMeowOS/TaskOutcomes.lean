import MeowMeowOS.RunningTask

/-! What the operations of the scheduler do to the fields that a waiting task
depends on. They leave them alone, or they end the current task. -/
namespace MeowMeowOS.TaskOutcomes
open Tasks RunningTask

/-- Two versions of a record that a waiting task cannot tell apart. -/
structure Alike (t u : Task) : Prop where
  address : u.address = t.address
  pid : u.pid = t.pid
  exitStatus : u.exitStatus = t.exitStatus
  waitingOnPid : u.waitingOnPid = t.waitingOnPid
  waiting : u.state = .waiting ↔ t.state = .waiting
  dead : u.state = .dead ↔ t.state = .dead

/-- The operation changed no record in a way that counts. -/
def Neutral (s u : Scheduler) : Prop :=
  ∃ g : Task → Task, u.taskList = s.taskList.map g ∧ (∀ t ∈ s.taskList, Alike t (g t)) ∧
    u.records = s.records

/-- The current task has ended with a status, and the tasks that waited for it
have been woken with that status. -/
structure Ended (pid status currentTask : Nat) (t u : Task) : Prop where
  same : u.address = t.address ∧ u.pid = t.pid
  own : t.address = currentTask → u.state = .dead ∧ u.exitStatus = status
  waiters : t.address ≠ currentTask → t.state = .waiting → t.waitingOnPid = pid →
    u.state ≠ .waiting ∧ u.state ≠ .dead ∧ u.exitStatus = status
  others : t.address ≠ currentTask → ¬ (t.state = .waiting ∧ t.waitingOnPid = pid) → Alike t u

def Ends (s u : Scheduler) : Prop :=
  ∃ cur ∈ s.taskList, cur.address = s.currentTask ∧ ∃ status, ∃ g : Task → Task,
    u.taskList = s.taskList.map g ∧ (∀ t ∈ s.taskList, Ended cur.pid status s.currentTask t (g t)) ∧
      u.records = s.records

def Outcome (s u : Scheduler) : Prop := Neutral s u ∨ Ends s u

/-- The current task can go on. -/
structure Live (s : Scheduler) : Prop where
  sound : Sound s
  awake : ∃ t ∈ s.taskList, t.address = s.currentTask ∧ (t.state = .ready ∨ t.state = .running)

section
variable {s next last : Scheduler} {t u v : Task} {f g : Task → Task} {a : Nat}

theorem alike_refl (t : Task) : Alike t t := ⟨rfl, rfl, rfl, rfl, Iff.rfl, Iff.rfl⟩

theorem alike_trans (first : Alike t u) (second : Alike u v) : Alike t v :=
  ⟨second.address.trans first.address, second.pid.trans first.pid, second.exitStatus.trans first.exitStatus,
    second.waitingOnPid.trans first.waitingOnPid, second.waiting.trans first.waiting, second.dead.trans first.dead⟩

theorem neutral_refl (s : Scheduler) : Neutral s s :=
  ⟨id, (List.map_id _).symm, fun t _ => alike_refl t, rfl⟩

theorem neutral_trans (first : Neutral s next) (second : Neutral next last) : Neutral s last := by
  obtain ⟨g, listG, alikeG, recordsG⟩ := first
  obtain ⟨h, listH, alikeH, recordsH⟩ := second
  refine ⟨h ∘ g, ?_, fun t member => ?_, recordsH.trans recordsG⟩
  · rw [listH, listG, List.map_map]
  · exact alike_trans (alikeG t member) (alikeH (g t) (listG ▸ List.mem_map_of_mem member))

theorem neutral_map (alike : ∀ t ∈ s.taskList, Alike t (g t)) : Neutral s { s with taskList := s.taskList.map g } :=
  ⟨g, rfl, alike, rfl⟩

theorem neutral_modify (alike : ∀ t ∈ s.taskList, t.address = a → Alike t (f t)) : Neutral s (modify s a f) := by
  refine neutral_map fun t member => ?_
  split
  · rename_i address
    exact alike t member address
  · exact alike_refl t

theorem ends_after (first : Neutral s next) (current : next.currentTask = s.currentTask) (second : Ends next last) :
    Ends s last := by
  obtain ⟨g, listG, alikeG, recordsG⟩ := first
  obtain ⟨cur, member, address, status, h, listH, ended, recordsH⟩ := second
  rw [listG] at member
  obtain ⟨own, memberOwn, rfl⟩ := List.mem_map.mp member
  have alikeOwn := alikeG own memberOwn
  refine ⟨own, memberOwn, alikeOwn.address.symm.trans (address.trans current), status, h ∘ g, ?_,
    fun t memberT => ?_,
    recordsH.trans recordsG⟩
  · rw [listH, listG, List.map_map]
  · have alike := alikeG t memberT
    obtain ⟨same, endedOwn, waiters, others⟩ := ended (g t) (listG ▸ List.mem_map_of_mem memberT)
    rw [alikeOwn.pid, alike.address, alike.waitingOnPid, current] at *
    refine ⟨⟨same.1, same.2.trans alike.pid⟩, endedOwn,
      fun other waiting => waiters other (alike.waiting.mpr waiting),
      fun other notWaiter => ?_⟩
    exact alike_trans alike (others other fun held => notWaiter ⟨alike.waiting.mp held.1, held.2⟩)

theorem outcome_after (first : Neutral s next) (current : next.currentTask = s.currentTask)
    (second : Outcome next last) : Outcome s last := by
  rcases second with neutral | ends
  · exact Or.inl (neutral_trans first neutral)
  · exact Or.inr (ends_after first current ends)

theorem ends_then (first : Ends s next) (second : Neutral next last) : Ends s last := by
  obtain ⟨cur, member, address, status, g, listG, ended, recordsG⟩ := first
  obtain ⟨h, listH, alikeH, recordsH⟩ := second
  refine ⟨cur, member, address, status, h ∘ g, ?_, fun t memberT => ?_, recordsH.trans recordsG⟩
  · rw [listH, listG, List.map_map]
  · have alike := alikeH (g t) (listG ▸ List.mem_map_of_mem memberT)
    obtain ⟨same, endedOwn, waiters, others⟩ := ended t memberT
    refine ⟨⟨alike.address.trans same.1, alike.pid.trans same.2⟩, fun own => ?_, fun other waiting waits => ?_,
      fun other notWaiter => alike_trans (others other notWaiter) alike⟩
    · obtain ⟨dead, status⟩ := endedOwn own
      exact ⟨alike.dead.mpr dead, alike.exitStatus.trans status⟩
    · obtain ⟨notWaiting, alive, status⟩ := waiters other waiting waits
      exact ⟨fun held => notWaiting (alike.waiting.mp held), fun held => alive (alike.dead.mp held),
        alike.exitStatus.trans status⟩

/-! ## Giving up the processor -/

theorem alike_visit (a : Nat) (t : Task) : Alike t (visit a t) := by
  unfold visit age
  dsimp only
  split
  · split <;> exact ⟨rfl, rfl, rfl, rfl, Iff.rfl, Iff.rfl⟩
  · exact alike_refl t

theorem alike_refill (t : Task) : Alike t (refill t) := by
  unfold refill
  split
  · exact ⟨rfl, rfl, rfl, rfl, Iff.rfl, Iff.rfl⟩
  · exact alike_refl t

theorem alike_preempt (t : Task) : Alike t (preempt t) := by
  unfold preempt
  split
  · rename_i running
    exact ⟨rfl, rfl, rfl, rfl, by simp [running], by simp [running]⟩
  · exact alike_refl t

/-- A change of the state of a task that can go on, to one in which it neither
waits nor is dead. -/
theorem alike_moved (able : t.state = .ready ∨ t.state = .running) (address : u.address = t.address)
    (pid : u.pid = t.pid) (exitStatus : u.exitStatus = t.exitStatus) (waitingOnPid : u.waitingOnPid = t.waitingOnPid)
    (state : u.state ≠ .waiting ∧ u.state ≠ .dead) : Alike t u := by
  refine ⟨address, pid, exitStatus, waitingOnPid, ?_, ?_⟩
  · rcases able with ready | running
    · simp [ready, state.1]
    · simp [running, state.1]
  · rcases able with ready | running
    · simp [ready, state.2]
    · simp [running, state.2]

theorem eligible_able (eligible : Eligible a t) : t.state = .ready ∨ t.state = .running :=
  eligible.imp_right And.right

/-- `task_yield` lets a task go on that can, whatever the current task is in. -/
theorem reschedule_neutral (sound : Sound s) : Live (reschedule s).1 ∧ Neutral s (reschedule s).1 ∧
    ((reschedule s).2 = true → (reschedule s).1.currentTask = s.currentTask) := by
  have visited := sound_quiet sound (quiet_visit s.currentTask)
  have seen : Neutral s { s with taskList := s.taskList.map (visit s.currentTask) } :=
    neutral_map fun t _ => alike_visit _ t
  rcases reschedule_cases sound with ⟨b, best, address, same⟩ | ⟨n, best, ne, same⟩
  · rw [same]
    have refilled := sound_modify (a := s.currentTask) visited quiet_refill
    refine ⟨⟨refilled, refill b, mem_modify.mpr ⟨b, best_mem best, if_pos address⟩, ?_, ?_⟩,
      neutral_trans seen (neutral_modify fun t _ _ => alike_refill t), fun _ => rfl⟩
    · exact (alike_refill b).address.trans address
    · rcases eligible_able best.eligible with ready | running
      · exact Or.inl (quiet_refill.ready b ready)
      · exact Or.inr (quiet_refill.running b running)
  · rw [same]
    obtain ⟨switched, ⟨t, member, addressT, running, -⟩, -⟩ := switchTo_one visited (best_mem best) ne
    refine ⟨⟨switched, t, member, addressT, Or.inr running⟩, neutral_trans seen ?_, nofun⟩
    have stopped := neutral_modify (s := { s with taskList := s.taskList.map (visit s.currentTask) })
      (a := s.currentTask) (f := preempt) fun t _ _ => alike_preempt t
    refine neutral_trans stopped ?_
    have started := neutral_modify (s := modify { s with taskList := s.taskList.map (visit s.currentTask) }
      s.currentTask preempt) (a := n.address) (f := dispatch) fun t memberT addressT => by
        obtain ⟨w, memberW, rfl⟩ := mem_modify.mp memberT
        have other : w.address ≠ s.currentTask := by
          intro held
          rw [if_pos held, (alike_preempt w).address] at addressT
          exact ne (addressT.symm.trans held)
        rw [if_neg other] at addressT ⊢
        rw [record_unique visited.records memberW (best_mem best) addressT]
        exact alike_moved (eligible_able best.eligible) rfl rfl rfl rfl ⟨nofun, nofun⟩
    exact started

/-- An exit marks the current task dead and wakes those that wait for it; the
next task then gets the processor. -/
theorem taskExitWithStatus_ends (sound : Sound s) (ne : s.currentTask ≠ idleAddress) (status : Nat) :
    Live (taskExitWithStatus s status) ∧ Ends s (taskExitWithStatus s status) := by
  obtain ⟨cur, member, address⟩ := sound.present
  unfold taskExitWithStatus
  rw [current_of_mem sound.records member address]
  dsimp only
  generalize List.any _ _ = waited
  let ending : Task → Task := fun t => { t with exitStatus := status % 2 ^ 32, state := .dead, isZombie := true }
  let noted : Task → Task := fun t => { t with isZombie := !waited }
  let marked := modify s s.currentTask ending
  let woken : Scheduler := { marked with
    taskList := marked.taskList.map (wakeWaiter cur.pid (status % 2 ^ 32)), needsCleanup := true }
  have soundMarked : Sound marked := sound_current sound ne fun _ => rfl
  have soundWoken : Sound woken :=
    sound_congr (sound_quiet soundMarked (quiet_wakeWaiter cur.pid (status % 2 ^ 32))) rfl rfl rfl
  have soundNoted : Sound (modify woken s.currentTask noted) := sound_current soundWoken ne fun _ => rfl
  have quietNoted : Neutral woken (modify woken s.currentTask noted) :=
    neutral_modify fun t _ _ => ⟨rfl, rfl, rfl, rfl, Iff.rfl, Iff.rfl⟩
  obtain ⟨live, moved, -⟩ := reschedule_neutral soundNoted
  refine ⟨live, ends_then ?_ (neutral_trans quietNoted moved)⟩
  refine ⟨cur, member, address, status % 2 ^ 32,
    fun t => wakeWaiter cur.pid (status % 2 ^ 32) (if t.address = s.currentTask then ending t else t), ?_, ?_, rfl⟩
  · exact List.map_map
  · intro t _
    dsimp only
    by_cases own : t.address = s.currentTask
    · rw [if_pos own]
      have dead : wakeWaiter cur.pid (status % 2 ^ 32) (ending t) = ending t := if_neg (by simp [ending])
      rw [dead]
      exact ⟨⟨rfl, rfl⟩, fun _ => ⟨rfl, rfl⟩, fun other => absurd own other, fun other => absurd own other⟩
    · rw [if_neg own]
      by_cases waits : t.state = .waiting ∧ t.waitingOnPid = cur.pid
      · rw [wakeWaiter, if_pos waits]
        have able : TaskState.ready ≠ .waiting ∧ TaskState.ready ≠ .dead := by decide
        exact ⟨⟨rfl, rfl⟩, fun held => absurd held own, fun _ _ _ => ⟨able.1, able.2, rfl⟩,
          fun _ notWaiter => absurd waits notWaiter⟩
      · rw [wakeWaiter, if_neg waits]
        exact ⟨⟨rfl, rfl⟩, fun held => absurd held own, fun _ waiting pid => absurd ⟨waiting, pid⟩ waits,
          fun _ _ => alike_refl t⟩

theorem live_able (live : Live s) (member : t ∈ s.taskList) (address : t.address = s.currentTask) :
    t.state = .ready ∨ t.state = .running := by
  obtain ⟨cur, memberCur, addressCur, able⟩ := live.awake
  rw [record_unique live.sound.records member memberCur (address.trans addressCur.symm)]
  exact able

/-! ## Signals -/

theorem live_modify (live : Live s) (quiet : Quiet f) : Live (modify s a f) := by
  obtain ⟨sound, t, member, address, able⟩ := live
  have quietAt := quiet_at quiet a
  refine ⟨sound_modify sound quiet, _, mem_modify.mpr ⟨t, member, rfl⟩, (quietAt.address t).trans address, ?_⟩
  rcases able with ready | running
  · exact Or.inl (quietAt.ready t ready)
  · exact Or.inr (quietAt.running t running)

theorem checkSignals_outcome (live : Live s) (ne : s.currentTask ≠ idleAddress) (deliverable : Nat)
    (handlers sigs : List Nat) : Live (checkSignals deliverable handlers s sigs) ∧
      Outcome s (checkSignals deliverable handlers s sigs) := by
  induction sigs generalizing s with
  | nil => exact ⟨live, Or.inl (neutral_refl s)⟩
  | cons signum rest ih =>
    have cleared := live_modify (a := s.currentTask) live (quiet_clearSignal signum)
    have same : Neutral s (modify s s.currentTask (clearSignal signum)) :=
      neutral_modify fun t _ _ => ⟨rfl, rfl, rfl, rfl, Iff.rfl, Iff.rfl⟩
    unfold checkSignals
    split
    · dsimp only
      split
      · obtain ⟨liveNext, outcome⟩ := ih cleared ne
        exact ⟨liveNext, outcome_after same rfl outcome⟩
      · split
        · obtain ⟨liveNext, ends⟩ := taskExitWithStatus_ends cleared.sound ne (128 + signum)
          exact ⟨liveNext, Or.inr (ends_after same rfl ends)⟩
        · obtain ⟨liveNext, outcome⟩ := ih cleared ne
          exact ⟨liveNext, outcome_after same rfl outcome⟩
    · exact ih live ne

theorem taskCheckSignals_outcome (live : Live s) : Live (taskCheckSignals s) ∧ Outcome s (taskCheckSignals s) := by
  have stays : Live s ∧ Outcome s s := ⟨live, Or.inl (neutral_refl s)⟩
  unfold taskCheckSignals
  split
  · exact stays
  · rename_i cur found
    obtain ⟨member, address⟩ := current_mem found
    split
    · exact stays
    · rename_i alive
      split
      · exact stays
      · have user : cur.isUser = true := by
          cases held : cur.isUser with
          | true => rfl
          | false => simp [held] at alive
        exact checkSignals_outcome live (address ▸ user_not_idle live.sound member user) _ _ _

theorem taskYield_outcome (sound : Sound s) : Live (taskYield s) ∧ Outcome s (taskYield s) := by
  obtain ⟨live, neutral, stays⟩ := reschedule_neutral sound
  have moved : Live (reschedule s).1 ∧ Outcome s (reschedule s).1 := ⟨live, Or.inl neutral⟩
  unfold taskYield
  dsimp only
  split
  · exact moved
  · split
    · rename_i checked
      obtain ⟨liveNext, outcome⟩ := taskCheckSignals_outcome live
      exact ⟨liveNext, outcome_after neutral (stays checked.1) outcome⟩
    · exact moved

/-! ## The operations that neither wait nor exit -/

/-- The current task, which can go on, is given another state in which it
neither waits nor is dead. -/
theorem yield_moved (live : Live s) (soundNext : Sound (modify s s.currentTask f))
    (fields : ∀ t, (f t).address = t.address ∧ (f t).pid = t.pid ∧ (f t).exitStatus = t.exitStatus ∧
      (f t).waitingOnPid = t.waitingOnPid) (state : ∀ t, (f t).state ≠ .waiting ∧ (f t).state ≠ .dead) :
    Live (taskYield (modify s s.currentTask f)) ∧ Outcome s (taskYield (modify s s.currentTask f)) := by
  obtain ⟨cur, member, address, able⟩ := live.awake
  have moved : Neutral s (modify s s.currentTask f) := neutral_modify fun t memberT addressT => by
    obtain rfl := record_unique live.sound.records memberT member (addressT.trans address.symm)
    obtain ⟨sameAddress, pid, exitStatus, waitingOnPid⟩ := fields t
    exact alike_moved able sameAddress pid exitStatus waitingOnPid (state t)
  obtain ⟨liveNext, outcome⟩ := taskYield_outcome soundNext
  exact ⟨liveNext, outcome_after moved rfl outcome⟩

theorem tickCurrent_outcome (live : Live s) (cur : Task) :
    Live (tickCurrent s cur) ∧ Outcome s (tickCurrent s cur) := by
  let counted : Task → Task := fun t => { t with cpuTimeTicks := (t.cpuTimeTicks + 1) % 2 ^ 32 }
  let spent : Task → Task := fun t => { t with sliceRemaining := t.sliceRemaining - 1 }
  let answered : Task → Task := fun t => { t with yieldRequested := false }
  have liveCounted : Live (modify s s.currentTask counted) :=
    live_modify live (quiet_fields fun _ => ⟨rfl, rfl, rfl, rfl⟩)
  have sameCounted : Neutral s (modify s s.currentTask counted) :=
    neutral_modify fun t _ _ => ⟨rfl, rfl, rfl, rfl, Iff.rfl, Iff.rfl⟩
  unfold tickCurrent
  dsimp only
  split
  · have liveNext : Live (modify (modify s s.currentTask counted) s.currentTask answered) :=
      live_modify liveCounted (quiet_fields fun _ => ⟨rfl, rfl, rfl, rfl⟩)
    have same : Neutral (modify s s.currentTask counted)
        (modify (modify s s.currentTask counted) s.currentTask answered) :=
      neutral_modify fun t _ _ => ⟨rfl, rfl, rfl, rfl, Iff.rfl, Iff.rfl⟩
    obtain ⟨liveLast, outcome⟩ := taskYield_outcome liveNext.sound
    exact ⟨liveLast, outcome_after (neutral_trans sameCounted same) rfl outcome⟩
  · have calm : Calm spent :=
      ⟨fun _ => rfl, fun _ => rfl, fun _ held => held, fun _ held => held, fun _ held => held⟩
    have soundSpent : Sound (modify (modify s s.currentTask counted) s.currentTask spent) :=
      sound_calm liveCounted.sound (calm_at calm _)
    have same : Neutral s (modify (modify s s.currentTask counted) s.currentTask spent) :=
      neutral_trans sameCounted (neutral_modify fun t _ _ => ⟨rfl, rfl, rfl, rfl, Iff.rfl, Iff.rfl⟩)
    split
    · have preempted := neutral_modify (s := modify (modify s s.currentTask counted) s.currentTask spent)
        (a := s.currentTask) (f := preempt) fun t _ _ => alike_preempt t
      obtain ⟨liveLast, outcome⟩ := taskYield_outcome (sound_preempt soundSpent)
      exact ⟨liveLast, outcome_after (neutral_trans same preempted) rfl outcome⟩
    · obtain ⟨t, member, address, able⟩ := liveCounted.awake
      exact ⟨⟨soundSpent, spent t, mem_modify.mpr ⟨t, member, if_pos address⟩, address, able⟩, Or.inl same⟩

theorem alike_wakeExpired (now : Nat) (t : Task) : Alike t (wakeExpired now t) := by
  unfold wakeExpired
  split
  · rename_i asleep
    exact ⟨rfl, rfl, rfl, rfl, by simp [asleep.1], by simp [asleep.1]⟩
  · exact alike_refl t

theorem taskScheduleTick_outcome (live : Live s) : Live (taskScheduleTick s) ∧ Outcome s (taskScheduleTick s) := by
  have quiet := quiet_wakeExpired s.ticks
  have same : Neutral s (taskWakeExpiredSleepers s) := neutral_map fun t _ => alike_wakeExpired _ t
  have awake : Live (taskWakeExpiredSleepers s) := by
    obtain ⟨t, member, address, able⟩ := live.awake
    refine ⟨sound_quiet live.sound quiet, wakeExpired s.ticks t, List.mem_map_of_mem member,
      (quiet.address t).trans address, able.imp (quiet.ready t) (quiet.running t)⟩
  have stays : Live (taskWakeExpiredSleepers s) ∧ Outcome s (taskWakeExpiredSleepers s) := ⟨awake, Or.inl same⟩
  unfold taskScheduleTick
  dsimp only
  split
  · exact stays
  · rename_i cur found
    split
    · obtain ⟨liveNext, outcome⟩ := taskYield_outcome awake.sound
      exact ⟨liveNext, outcome_after same rfl outcome⟩
    · exact stays
    · exact stays
    · exact stays
    · obtain ⟨liveNext, outcome⟩ := tickCurrent_outcome awake cur
      exact ⟨liveNext, outcome_after same rfl outcome⟩
    · obtain ⟨liveNext, outcome⟩ := tickCurrent_outcome awake cur
      exact ⟨liveNext, outcome_after same rfl outcome⟩

theorem modify_outcome (live : Live s) (quiet : Quiet f)
    (alike : ∀ t ∈ s.taskList, t.address = a → Alike t (f t)) :
    Live (modify s a f) ∧ Outcome s (modify s a f) := ⟨live_modify live quiet, Or.inl (neutral_modify alike)⟩

theorem taskUnblock_outcome (live : Live s) (pid : Nat) :
    Live (taskUnblock s pid) ∧ Outcome s (taskUnblock s pid) := by
  unfold taskUnblock
  split
  · exact ⟨live, Or.inl (neutral_refl s)⟩
  · refine modify_outcome live quiet_unblock fun t _ _ => ?_
    unfold unblock
    split
    · rename_i blocked
      exact ⟨rfl, rfl, rfl, rfl, by simp [blocked], by simp [blocked]⟩
    · exact alike_refl t

theorem taskSetPriority_outcome (live : Live s) (pid priority : Nat) :
    Live (taskSetPriority s pid priority) ∧ Outcome s (taskSetPriority s pid priority) := by
  unfold taskSetPriority
  dsimp only
  split
  · exact ⟨live, Or.inl (neutral_refl s)⟩
  · exact modify_outcome live (quiet_fields fun _ => ⟨rfl, rfl, rfl, rfl⟩)
      fun t _ _ => ⟨rfl, rfl, rfl, rfl, Iff.rfl, Iff.rfl⟩

theorem taskWake_outcome (live : Live s) (pid : Nat) : Live (taskWake s pid) ∧ Outcome s (taskWake s pid) := by
  unfold taskWake
  split
  · exact ⟨live, Or.inl (neutral_refl s)⟩
  · rename_i task found
    have member := List.mem_of_find?_eq_some found
    have hit := List.find?_some found
    have asleep : task.state = .sleeping := (of_decide_eq_true hit).2
    -- only the sleeping record that was found is changed
    rw [modify_congr (g := fun t => if t.state = .sleeping then
      { t with state := .ready, wakeTick := 0, waitTicks := 0, sliceRemaining := taskCalculateQuantum t.basePriority }
      else t)]
    · refine modify_outcome live (quiet_waking fun t => ?_) fun t _ _ => ?_
      · split
        · rename_i held
          exact ⟨rfl, rfl, Or.inr ⟨rfl, by simp [held]⟩⟩
        · exact ⟨rfl, rfl, Or.inl ⟨rfl, rfl⟩⟩
      · split
        · rename_i held
          exact ⟨rfl, rfl, rfl, rfl, by simp [held], by simp [held]⟩
        · exact alike_refl t
    · intro t memberT address
      rw [record_unique live.sound.records memberT member address, if_pos asleep]

theorem taskSleep_outcome (live : Live s) (ne : s.currentTask ≠ idleAddress) (ticks : Nat) :
    Live (taskSleep s ticks) ∧ Outcome s (taskSleep s ticks) := by
  unfold taskSleep
  split
  · exact ⟨live, Or.inl (neutral_refl s)⟩
  · exact yield_moved live (sound_current live.sound ne fun _ => rfl) (fun _ => ⟨rfl, rfl, rfl, rfl⟩)
      fun _ => ⟨nofun, nofun⟩

/-- A signal leaves a task that does not wait as it was. -/
theorem taskSendSignal_outcome (live : Live s) (pid signum : Nat)
    (spared : 0 < signum → signum < nsig → ∀ t, taskGetByPid s pid = some t → t.state ≠ .waiting) :
    Live (taskSendSignal s pid signum) ∧ Outcome s (taskSendSignal s pid signum) := by
  have stays : Live s ∧ Outcome s s := ⟨live, Or.inl (neutral_refl s)⟩
  unfold taskSendSignal
  split
  · exact stays
  · rename_i valid
    split
    · exact stays
    · rename_i target found
      split
      · exact stays
      · have member := List.mem_of_find?_eq_some found
        have notWaiting := spared (by omega) (by omega) target found
        have same : Neutral s (modify s target.address (signalled signum)) := neutral_modify fun t memberT address => by
          rw [record_unique live.sound.records memberT member address]
          unfold signalled
          dsimp only
          split
          · rename_i alive resting
            exact ⟨rfl, rfl, rfl, rfl, by simp [notWaiting], by simp [alive]⟩
          · exact ⟨rfl, rfl, rfl, rfl, Iff.rfl, Iff.rfl⟩
        have sent : Live (modify s target.address (signalled signum)) := live_modify live (quiet_signalled signum)
        dsimp only
        split
        · exact ⟨sent, Or.inl same⟩
        · split
          · obtain ⟨liveNext, outcome⟩ := taskCheckSignals_outcome sent
            exact ⟨liveNext, outcome_after same rfl outcome⟩
          · exact ⟨sent, Or.inl same⟩

theorem taskSetSignalHandler_outcome (live : Live s) (signum handler : Nat) :
    Live (taskSetSignalHandler s signum handler) ∧ Outcome s (taskSetSignalHandler s signum handler) := by
  unfold taskSetSignalHandler
  split
  · exact ⟨live, Or.inl (neutral_refl s)⟩
  · exact modify_outcome live (quiet_fields fun _ => ⟨rfl, rfl, rfl, rfl⟩)
      fun t _ _ => ⟨rfl, rfl, rfl, rfl, Iff.rfl, Iff.rfl⟩

theorem live_alive (live : Live s) : ∀ t ∈ s.taskList, t.address = s.currentTask → t.state ≠ .dead := by
  intro t member address
  rcases live_able live member address with ready | running
  · simp [ready]
  · simp [running]

theorem taskCreate_live (live : Live s) (isUser : Bool) : Live (taskCreate s isUser) := by
  obtain ⟨-, t, member, rest⟩ := live_modify (a := s.currentTask) live (quiet_addChild s.nextPid)
  exact ⟨taskCreate_sound live.sound isUser, t, List.mem_cons_of_mem _ member, rest⟩

theorem idleCleanup_live (live : Live s) : Live (idleCleanup s) := by
  obtain ⟨-, stays, same, -⟩ := idleCleanup_kept s
  obtain ⟨t, member, address, able⟩ := live.awake
  have alive := live_alive live t member address
  exact ⟨idleCleanup_sound live.sound ⟨t, member, address, alive⟩, t, stays t member alive,
    address.trans same.symm, able⟩

end

end MeowMeowOS.TaskOutcomes

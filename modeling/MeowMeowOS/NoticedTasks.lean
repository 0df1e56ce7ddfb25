import MeowMeowOS.TaskReaping

/-! No dead task is forgotten. Only an exit and a wait for a dead task can make a task
fit for reaping, and both ask for a cleanup pass; a pass leaves none. -/
namespace MeowMeowOS.NoticedTasks
open Tasks RunningTask TaskReaping

/-- Without a request for a pass there is nothing to reap. -/
def Noted (s : Scheduler) : Prop := s.needsCleanup = false → ∀ t ∈ s.taskList, taskCanReap s.taskList t = false

/-- A change of a record that ends no task and begins no wait. -/
structure Steady (g : Task → Task) : Prop where
  pid : ∀ t, (g t).pid = t.pid
  parent : ∀ t, (g t).parentPid = t.parentPid
  zombie : ∀ t, (g t).isZombie = t.isZombie
  dead : ∀ t, (g t).state = .dead → t.state = .dead
  waiting : ∀ t, (g t).state = .waiting → t.state = .waiting ∧ (g t).waitingOnPid = t.waitingOnPid

/-- A pass is asked for, or the records have changed steadily. -/
def Follows (s t : Scheduler) : Prop :=
  t.needsCleanup = true ∨ t.needsCleanup = s.needsCleanup ∧ ∃ g, Steady g ∧ t.taskList = s.taskList.map g

/-- The scheduler after any operations since boot, with unique pids all along. -/
inductive Reached : Scheduler → Prop where
  | boot : Reached taskInitialize
  | step {s : Scheduler} {action : Action} : Reached s → ((perform s action).taskList.map Task.pid).Nodup →
      Reached (perform s action)

section
variable {s t u : Scheduler} {f g : Task → Task} {a : Nat}

theorem steady_comp (outer : Steady g) (inner : Steady f) : Steady (g ∘ f) where
  pid t := (outer.pid (f t)).trans (inner.pid t)
  parent t := (outer.parent (f t)).trans (inner.parent t)
  zombie t := (outer.zombie (f t)).trans (inner.zombie t)
  dead t gone := inner.dead t (outer.dead (f t) gone)
  waiting t waits := by
    obtain ⟨before, same⟩ := outer.waiting (f t) waits
    obtain ⟨first, same'⟩ := inner.waiting t before
    exact ⟨first, same.trans same'⟩

theorem steady_at (steady : Steady f) (a : Nat) : Steady fun t => if t.address = a then f t else t := by
  refine ⟨fun t => ?_, fun t => ?_, fun t => ?_, fun t => ?_, fun t => ?_⟩
  all_goals split
  · exact steady.pid t
  · rfl
  · exact steady.parent t
  · rfl
  · exact steady.zombie t
  · rfl
  · exact steady.dead t
  · exact id
  · exact steady.waiting t
  · exact fun waits => ⟨waits, rfl⟩

/-- A change that leaves the state alone, or sets it to one that is neither dead nor waiting. -/
theorem steady_state
    (change : ∀ t, (g t).pid = t.pid ∧ (g t).parentPid = t.parentPid ∧ (g t).isZombie = t.isZombie ∧
    (((g t).state = t.state ∧ (g t).waitingOnPid = t.waitingOnPid) ∨
      ((g t).state ≠ .dead ∧ (g t).state ≠ .waiting))) : Steady g where
  pid t := (change t).1
  parent t := (change t).2.1
  zombie t := (change t).2.2.1
  dead t gone := by
    rcases (change t).2.2.2 with ⟨same, -⟩ | ⟨alive, -⟩
    · exact same.symm.trans gone
    · exact absurd gone alive
  waiting t waits := by
    rcases (change t).2.2.2 with ⟨same, on⟩ | ⟨-, busy⟩
    · exact ⟨same.symm.trans waits, on⟩
    · exact absurd waits busy

theorem steady_id : Steady id := steady_state fun _ => ⟨rfl, rfl, rfl, Or.inl ⟨rfl, rfl⟩⟩

theorem follows_refl (s : Scheduler) : Follows s s := Or.inr ⟨rfl, id, steady_id, (List.map_id _).symm⟩

theorem follows_trans (first : Follows s t) (second : Follows t u) : Follows s u := by
  rcases second with asked | ⟨kept, g, outer, list⟩
  · exact Or.inl asked
  · rcases first with asked | ⟨kept', f, inner, list'⟩
    · exact Or.inl (kept.trans asked)
    · exact Or.inr ⟨kept.trans kept', g ∘ f, steady_comp outer inner, by rw [list, list', List.map_map]⟩

theorem follows_map (steady : Steady g) (flag : t.needsCleanup = s.needsCleanup)
    (list : t.taskList = s.taskList.map g) :
    Follows s t := Or.inr ⟨flag, g, steady, list⟩

theorem follows_modify (steady : Steady f) (a : Nat) : Follows s (modify s a f) :=
  follows_map (steady_at steady a) rfl rfl

/-! ## The changes of records -/

theorem steady_visit (a : Nat) : Steady (visit a) := by
  refine steady_state fun t => ?_
  unfold visit age
  dsimp only
  split
  · split <;> exact ⟨rfl, rfl, rfl, Or.inl ⟨rfl, rfl⟩⟩
  · exact ⟨rfl, rfl, rfl, Or.inl ⟨rfl, rfl⟩⟩

theorem steady_wakeExpired (now : Nat) : Steady (wakeExpired now) := by
  refine steady_state fun t => ?_
  unfold wakeExpired
  split
  · exact ⟨rfl, rfl, rfl, Or.inr ⟨nofun, nofun⟩⟩
  · exact ⟨rfl, rfl, rfl, Or.inl ⟨rfl, rfl⟩⟩

theorem steady_unblock : Steady unblock := by
  refine steady_state fun t => ?_
  unfold unblock
  split
  · exact ⟨rfl, rfl, rfl, Or.inr ⟨nofun, nofun⟩⟩
  · exact ⟨rfl, rfl, rfl, Or.inl ⟨rfl, rfl⟩⟩

theorem steady_signalled (signum : Nat) : Steady (signalled signum) := by
  refine steady_state fun t => ?_
  unfold signalled
  dsimp only
  split
  · exact ⟨rfl, rfl, rfl, Or.inr ⟨nofun, nofun⟩⟩
  · exact ⟨rfl, rfl, rfl, Or.inl ⟨rfl, rfl⟩⟩

theorem steady_preempt : Steady preempt := by
  refine steady_state fun t => ?_
  unfold preempt
  split
  · exact ⟨rfl, rfl, rfl, Or.inr ⟨nofun, nofun⟩⟩
  · exact ⟨rfl, rfl, rfl, Or.inl ⟨rfl, rfl⟩⟩

theorem steady_refill : Steady refill := by
  refine steady_state fun t => ?_
  unfold refill
  split <;> exact ⟨rfl, rfl, rfl, Or.inl ⟨rfl, rfl⟩⟩

theorem steady_dispatch : Steady dispatch := steady_state fun _ => ⟨rfl, rfl, rfl, Or.inr ⟨nofun, nofun⟩⟩

theorem steady_addChild (pid : Nat) : Steady (taskAddChild pid) := by
  refine steady_state fun t => ?_
  unfold taskAddChild
  split <;> exact ⟨rfl, rfl, rfl, Or.inl ⟨rfl, rfl⟩⟩

/-- A change of other fields of a record. -/
theorem follows_fields
    (same : ∀ t, (f t).pid = t.pid ∧ (f t).parentPid = t.parentPid ∧ (f t).isZombie = t.isZombie ∧
    (f t).state = t.state ∧ (f t).waitingOnPid = t.waitingOnPid) (a : Nat) : Follows s (modify s a f) :=
  follows_modify (steady_state fun t => ⟨(same t).1, (same t).2.1, (same t).2.2.1, Or.inl (same t).2.2.2⟩) a

/-- A change that makes a task neither dead nor waiting. -/
theorem follows_busy
    (change : ∀ t, (f t).pid = t.pid ∧ (f t).parentPid = t.parentPid ∧ (f t).isZombie = t.isZombie ∧
    (f t).state ≠ .dead ∧ (f t).state ≠ .waiting) (a : Nat) : Follows s (modify s a f) :=
  follows_modify (steady_state fun t => ⟨(change t).1, (change t).2.1, (change t).2.2.1, Or.inr (change t).2.2.2⟩) a

/-! ## Giving up the processor -/

theorem follows_reschedule (s : Scheduler) : Follows s (reschedule s).1 := by
  have found : Follows s (taskFindNextReady s).1 := by
    refine follows_map (steady_visit s.currentTask) rfl ?_
    unfold taskFindNextReady
    rw [findNextReady_eq]
  unfold reschedule
  generalize taskFindNextReady s = pair at found ⊢
  obtain ⟨u, next⟩ := pair
  dsimp only at found ⊢
  cases next with
  | none => exact follows_trans found (follows_modify steady_refill _)
  | some next =>
    dsimp only
    split
    · exact follows_trans found (follows_modify steady_refill _)
    · have left := follows_trans found (follows_modify steady_preempt u.currentTask)
      exact follows_trans left
        (follows_modify (s := { modify u u.currentTask preempt with currentTask := next.address })
        steady_dispatch next.address)

theorem follows_exit (s : Scheduler) (status : Nat) : Follows s (taskExitWithStatus s status) := by
  unfold taskExitWithStatus
  split
  · exact follows_refl s
  · dsimp only
    refine Or.inl ?_
    rcases follows_reschedule (modify { modify s s.currentTask (fun t =>
      { t with exitStatus := status % 2 ^ 32, state := .dead, isZombie := true }) with
        taskList := _, needsCleanup := true } s.currentTask _) with asked | ⟨kept, -⟩
    · exact asked
    · exact kept

theorem follows_checkSignals (deliverable : Nat) (handlers : List Nat) (s : Scheduler) (signals : List Nat) :
    Follows s (checkSignals deliverable handlers s signals) := by
  induction signals generalizing s with
  | nil => exact follows_refl s
  | cons signum rest ih =>
    unfold checkSignals
    have cleared : Follows s (modify s s.currentTask (clearSignal signum)) := by
      refine follows_fields ?_ _
      exact fun _ => ⟨rfl, rfl, rfl, rfl, rfl⟩
    split
    · dsimp only
      split
      · exact follows_trans cleared (ih _)
      · split
        · exact follows_trans cleared (follows_exit _ _)
        · exact follows_trans cleared (ih _)
    · exact ih s

theorem follows_taskCheckSignals (s : Scheduler) : Follows s (taskCheckSignals s) := by
  unfold taskCheckSignals
  split
  · exact follows_refl s
  · split
    · exact follows_refl s
    · split
      · exact follows_refl s
      · exact follows_checkSignals _ _ s _

theorem follows_yield (s : Scheduler) : Follows s (taskYield s) := by
  have rescheduled := follows_reschedule s
  unfold taskYield
  generalize reschedule s = pair at rescheduled ⊢
  obtain ⟨u, stays⟩ := pair
  dsimp only at rescheduled ⊢
  split
  · exact rescheduled
  · split
    · exact follows_trans rescheduled (follows_taskCheckSignals u)
    · exact rescheduled

theorem follows_tickCurrent (s : Scheduler) (cur : Task) : Follows s (tickCurrent s cur) := by
  have counted : Follows s (modify s s.currentTask fun t =>
      { t with cpuTimeTicks := (t.cpuTimeTicks + 1) % 2 ^ 32 }) := by
    refine follows_fields ?_ _
    exact fun _ => ⟨rfl, rfl, rfl, rfl, rfl⟩
  unfold tickCurrent
  generalize modify s s.currentTask (fun t => { t with cpuTimeTicks := (t.cpuTimeTicks + 1) % 2 ^ 32 }) = u at counted
  dsimp only
  split
  · refine follows_trans (follows_trans counted (follows_fields ?_ _)) (follows_yield _)
    exact fun _ => ⟨rfl, rfl, rfl, rfl, rfl⟩
  · have shorter : Follows s (modify u u.currentTask fun t => { t with sliceRemaining := t.sliceRemaining - 1 }) := by
      refine follows_trans counted (follows_fields ?_ _)
      exact fun _ => ⟨rfl, rfl, rfl, rfl, rfl⟩
    split
    · exact follows_trans (follows_trans shorter (follows_modify steady_preempt _)) (follows_yield _)
    · exact shorter

theorem follows_scheduleTick (s : Scheduler) : Follows s (taskScheduleTick s) := by
  have woken : Follows s (taskWakeExpiredSleepers s) := follows_map (steady_wakeExpired s.ticks) rfl rfl
  unfold taskScheduleTick
  generalize taskWakeExpiredSleepers s = u at woken
  dsimp only
  split
  · exact woken
  · split
    · exact follows_trans woken (follows_yield u)
    · exact woken
    · exact woken
    · exact woken
    · exact follows_trans woken (follows_tickCurrent u _)
    · exact follows_trans woken (follows_tickCurrent u _)

theorem follows_sendSignal (s : Scheduler) (pid signum : Nat) : Follows s (taskSendSignal s pid signum) := by
  unfold taskSendSignal
  split
  · exact follows_refl s
  · split
    · exact follows_refl s
    · rename_i target _
      split
      · exact follows_refl s
      · have signalled := follows_modify (s := s) (steady_signalled signum) target.address
        dsimp only
        split
        · exact signalled
        · split
          · exact follows_trans signalled (follows_taskCheckSignals _)
          · exact signalled

/-- What all operations do that neither create a task nor wait for one, the pass apart. -/
theorem follows_perform (action : Action) (noWait : ∀ pid, action ≠ .wait pid)
    (noTask : ∀ isUser, action ≠ .create isUser)
    (noPass : action ≠ .cleanup) : Follows s (perform s action) := by
  cases action with
  | clock => exact follows_map steady_id rfl (List.map_id _).symm
  | scheduleTick => exact follows_scheduleTick s
  | yield => exact follows_yield s
  | requestYield =>
    refine follows_fields ?_ s.currentTask
    exact fun _ => ⟨rfl, rfl, rfl, rfl, rfl⟩
  | block =>
    unfold perform taskBlock
    dsimp only
    refine follows_trans (follows_busy ?_ s.currentTask) (follows_yield _)
    exact fun _ => ⟨rfl, rfl, rfl, nofun, nofun⟩
  | unblock pid =>
    unfold perform taskUnblock
    dsimp only
    split
    · exact follows_refl s
    · exact follows_modify steady_unblock _
  | sleep ticks =>
    unfold perform taskSleep
    dsimp only
    split
    · exact follows_refl s
    · refine follows_trans (follows_busy ?_ s.currentTask) (follows_yield _)
      exact fun _ => ⟨rfl, rfl, rfl, nofun, nofun⟩
  | wake pid =>
    unfold perform taskWake
    dsimp only
    split
    · exact follows_refl s
    · refine follows_busy ?_ _
      exact fun _ => ⟨rfl, rfl, rfl, nofun, nofun⟩
  | wait pid => exact absurd rfl (noWait pid)
  | exit status => exact follows_exit s status
  | sendSignal pid signum => exact follows_sendSignal s pid signum
  | setSignalHandler signum handler =>
    unfold perform taskSetSignalHandler
    dsimp only
    split
    · exact follows_refl s
    · refine follows_fields ?_ _
      exact fun _ => ⟨rfl, rfl, rfl, rfl, rfl⟩
  | setPriority pid priority =>
    unfold perform taskSetPriority
    dsimp only
    split
    · exact follows_refl s
    · refine follows_fields ?_ _
      exact fun _ => ⟨rfl, rfl, rfl, rfl, rfl⟩
  | create isUser => exact absurd rfl (noTask isUser)
  | cleanup => exact absurd rfl noPass

/-! ## What one operation keeps -/

theorem noted_follows (noted : Noted s) (pids : (s.taskList.map Task.pid).Nodup) (follows : Follows s t) : Noted t := by
  intro quiet
  rcases follows with asked | ⟨flag, g, steady, list⟩
  · exact absurd (quiet.symm.trans asked) nofun
  · have pids' : ((s.taskList.map g).map Task.pid).Nodup := by
      rw [List.map_map, show Task.pid ∘ g = Task.pid from funext steady.pid]
      exact pids
    rw [list]
    intro t' member
    obtain ⟨u, inside, rfl⟩ := List.mem_map.mp member
    refine Bool.eq_false_iff.mpr fun reaps => ?_
    have kept := noted (flag.symm.trans quiet) u inside
    obtain ⟨dead, free⟩ := (canReap_iff pids').mp reaps
    refine Bool.eq_false_iff.mp kept ((canReap_iff pids).mpr ⟨steady.dead u dead, ?_⟩)
    rw [steady.zombie, steady.parent, steady.pid] at free
    refine free.imp_right fun orphan => orphan.imp_right fun parents p memberP same => ?_
    rcases parents (g p) (List.mem_map_of_mem memberP) ((steady.pid p).trans same) with gone | ⟨waits, on⟩
    · exact Or.inl (steady.dead p gone)
    · obtain ⟨before, sameOn⟩ := steady.waiting p waits
      exact Or.inr ⟨before, sameOn.symm.trans on⟩

/-- A task begins to wait only for one that is alive. -/
theorem noted_wait (noted : Noted s) (pids : (s.taskList.map Task.pid).Nodup) (pid : Nat) : Noted (taskWait s pid) := by
  unfold taskWait
  split
  · exact noted
  · rename_i target found
    obtain ⟨memberT, pidT⟩ := taskGetByPid_mem found
    split
    · exact nofun
    · rename_i alive
      generalize gEq : (fun t : Task => { t with state := .waiting, waitingOnPid := pid, wakeTick := 0 }) = g
      have samePid : ∀ t, (g t).pid = t.pid := by
        rw [← gEq]
        exact fun _ => rfl
      have samePids : ((modify s s.currentTask g).taskList.map Task.pid).Nodup := by
        have same : (modify s s.currentTask g).taskList.map Task.pid = s.taskList.map Task.pid := by
          unfold Tasks.modify
          rw [List.map_map]
          refine List.map_congr_left fun t _ => ?_
          dsimp only [Function.comp]
          split
          · exact samePid t
          · rfl
        rw [same]
        exact pids
      refine noted_follows (fun quiet t' member => Bool.eq_false_iff.mpr fun reaps => ?_) samePids (follows_yield _)
      obtain ⟨u, inside, rfl⟩ := mem_modify.mp member
      obtain ⟨dead, free⟩ := (canReap_iff samePids).mp reaps
      have other : ¬ u.address = s.currentTask := by
        intro here
        rw [if_pos here, ← gEq] at dead
        cases dead
      rw [if_neg other] at dead free
      refine Bool.eq_false_iff.mp (noted quiet u inside) ((canReap_iff pids).mpr ⟨dead, ?_⟩)
      refine free.imp_right fun orphan => orphan.imp_right fun parents p memberP same => ?_
      by_cases here : p.address = s.currentTask
      · have waits := parents (g p) (mem_modify.mpr ⟨p, memberP, if_pos here⟩) ((samePid p).trans same)
        rw [← gEq] at waits
        -- the waiting task would wait for the dead one, which is not the live target
        obtain ⟨-, on⟩ := waits.resolve_left nofun
        rw [← pid_unique pids memberT inside (pidT.trans on)] at dead
        exact absurd dead alive
      · exact parents p (mem_modify.mpr ⟨p, memberP, if_neg here⟩) same

theorem noted_create (noted : Noted s) (pids : (s.taskList.map Task.pid).Nodup) (isUser : Bool)
    (pids' : ((taskCreate s isUser).taskList.map Task.pid).Nodup) : Noted (taskCreate s isUser) := by
  intro quiet t' member
  refine Bool.eq_false_iff.mpr fun reaps => ?_
  obtain ⟨dead, free⟩ := (canReap_iff pids').mp reaps
  have steady := steady_at (steady_addChild s.nextPid) s.currentTask
  rcases List.mem_cons.mp member with rfl | old
  · cases dead
  · obtain ⟨u, inside, rfl⟩ := List.mem_map.mp old
    refine Bool.eq_false_iff.mp (noted quiet u inside) ((canReap_iff pids).mpr ⟨steady.dead u dead, ?_⟩)
    rw [steady.zombie, steady.parent, steady.pid] at free
    refine free.imp_right fun orphan => orphan.imp_right fun parents p memberP same => ?_
    rcases parents _ (List.mem_cons_of_mem _ (List.mem_map_of_mem memberP))
      ((steady.pid p).trans same) with gone | ⟨waits, on⟩
    · exact Or.inl (steady.dead p gone)
    · obtain ⟨before, sameOn⟩ := steady.waiting p waits
      exact Or.inr ⟨before, sameOn.symm.trans on⟩

/-- A pass leaves nothing that it could have reaped. -/
theorem cleanup_noted (pids : (s.taskList.map Task.pid).Nodup) (wanted : s.needsCleanup = true) :
    ∀ t ∈ (idleCleanup s).taskList, taskCanReap (idleCleanup s).taskList t = false ∧
    taskCanReap s.taskList t = false := by
  have list := idleCleanup_keeps s wanted pids
  have remains : Remains s.taskList (idleCleanup s).taskList := by
    rw [list]
    refine ⟨List.filter_sublist, fun t member alive => List.mem_filter.mpr ⟨member, ?_⟩⟩
    rw [Bool.not_eq_true']
    exact Bool.eq_false_iff.mpr fun reaps => alive (dead_of_canReap reaps)
  intro t member
  rw [canReap_remains pids remains, and_self]
  rw [list] at member
  rw [← Bool.not_eq_true']
  exact (List.mem_filter.mp member).2

theorem noted_cleanup (noted : Noted s) (pids : (s.taskList.map Task.pid).Nodup) : Noted (idleCleanup s) := by
  cases wanted : s.needsCleanup with
  | false =>
    have same : idleCleanup s = s := if_neg (by rw [wanted]; exact Bool.noConfusion)
    rw [same]
    exact noted
  | true => exact fun _ t member => (cleanup_noted pids wanted t member).1

theorem noted_perform {action : Action} (noted : Noted s) (pids : (s.taskList.map Task.pid).Nodup)
    (pids' : ((perform s action).taskList.map Task.pid).Nodup) : Noted (perform s action) := by
  cases action with
  | wait pid => exact noted_wait noted pids pid
  | create isUser => exact noted_create noted pids isUser pids'
  | cleanup => exact noted_cleanup noted pids
  | _ => exact noted_follows noted pids (follows_perform _ nofun nofun nofun)

/-! ## Every run -/

theorem reached_noted (reached : Reached s) : (s.taskList.map Task.pid).Nodup ∧ Noted s := by
  induction reached with
  | boot => exact ⟨by decide, fun _ => by decide⟩
  | step _ pids ih => exact ⟨pids, noted_perform ih.2 ih.1 pids⟩

/-- A task that can be reaped has a pass asked for, and that pass takes it out. -/
theorem dead_noticed {x : Task} (reached : Reached s) (member : x ∈ s.taskList)
    (reaps : taskCanReap s.taskList x = true) :
    s.needsCleanup = true ∧ x ∉ (idleCleanup s).taskList := by
  obtain ⟨pids, noted⟩ := reached_noted reached
  cases wanted : s.needsCleanup with
  | false => exact absurd reaps (Bool.eq_false_iff.mp (noted wanted x member))
  | true =>
    refine ⟨rfl, fun stays => ?_⟩
    exact Bool.eq_false_iff.mp (cleanup_noted pids wanted x stays).2 reaps

end

/-- The shell creates a user task and waits for it, and the task ends. -/
def childEnds : Scheduler :=
  perform (perform (perform taskInitialize (.create true)) (.wait 3)) (.exit 0)

theorem dead_noticed_child : ∃ x ∈ childEnds.taskList, childEnds.needsCleanup = true ∧
    x ∉ (idleCleanup childEnds).taskList := by
  have reached : Reached childEnds :=
    .step (.step (.step .boot (by decide)) (by decide)) (by decide)
  have found : (reapable childEnds.taskList).length = 1 := by decide
  obtain ⟨x, member⟩ := List.exists_mem_of_length_pos (show 0 < (reapable childEnds.taskList).length by omega)
  obtain ⟨inside, reaps⟩ := List.mem_filter.mp member
  exact ⟨x, inside, dead_noticed reached inside reaps⟩

end MeowMeowOS.NoticedTasks

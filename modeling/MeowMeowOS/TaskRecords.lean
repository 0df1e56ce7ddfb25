import MeowMeowOS.RunningTask

/-! What holds of every record of the task list in every run. The operations
change the priorities of a record and its signals in a few ways only, and all
other fields as they like. -/
namespace MeowMeowOS.TaskRecords
open GuardedRuns Tasks RunningTask

/-- The records have the same priorities, the same signals and the same owner. -/
structure Same (t u : Task) : Prop where
  basePriority : u.basePriority = t.basePriority
  dynamicPriority : u.dynamicPriority = t.dynamicPriority
  pendingSignals : u.pendingSignals = t.pendingSignals
  signalMask : u.signalMask = t.signalMask
  signalHandlers : u.signalHandlers = t.signalHandlers
  isUser : u.isUser = t.isUser

/-- A property of a record that no operation ends. -/
structure Lasting (P : Task → Prop) : Prop where
  same : ∀ t u, Same t u → P t → P u
  boosted : ∀ t, P t → t.dynamicPriority < priorityMax → P { t with dynamicPriority := t.dynamicPriority + 1 }
  dispatched : ∀ t, P t → P { t with dynamicPriority := t.basePriority }
  ranked : ∀ t priority, P t → priority ≤ priorityMax →
    P { t with basePriority := priority, dynamicPriority := priority }
  posted : ∀ t signum, P t → 0 < signum → signum < nsig →
    P { t with pendingSignals := t.pendingSignals ||| 2 ^ signum }
  cleared : ∀ t signum, P t → P (clearSignal signum t)
  handled : ∀ t signum handler, P t → signum ≠ 9 →
    P { t with signalHandlers := t.signalHandlers.set signum handler }
  created : ∀ address pid parentPid isUser, P (newTask address pid parentPid isUser)

/-- The record that a pointer to it finds in the list. -/
def record (s : Scheduler) (a : Nat) : Option Task := s.taskList.find? (·.address = a)

def All (P : Task → Prop) (s : Scheduler) : Prop := ∀ t ∈ s.taskList, P t

section
variable {P : Task → Prop} {s : Scheduler} {f : Task → Task} {a : Nat}

/-! ## One record -/

theorem record_mem (found : record s a = some t) : t ∈ s.taskList ∧ t.address = a := by
  have hit := List.find?_some found
  exact ⟨List.mem_of_find?_eq_some found, of_decide_eq_true hit⟩

theorem record_map (tasks : u.taskList = s.taskList.map f) (address : ∀ t, (f t).address = t.address) (a : Nat) :
    record u a = (record s a).map f := by
  unfold record
  rw [tasks, List.find?_map]
  have kept : (fun t : Task => decide (t.address = a)) ∘ f = fun t => decide (t.address = a) := by
    funext t
    simp [address]
  rw [kept]

theorem record_modify (address : ∀ t, (f t).address = t.address) : record (modify s a f) a = (record s a).map f := by
  have mapped := record_map (u := modify s a f) (s := s) rfl (fun t => by
    split
    · exact address t
    · rfl) a
  rw [mapped]
  cases found : record s a with
  | none => rfl
  | some t => rw [Option.map_some, Option.map_some, if_pos (record_mem found).2]

theorem record_modify_ne (address : ∀ t, (f t).address = t.address) (ne : b ≠ a) :
    record (modify s a f) b = record s b := by
  have mapped := record_map (u := modify s a f) (s := s) rfl (fun t => by
    split
    · exact address t
    · rfl) b
  rw [mapped]
  cases found : record s b with
  | none => rfl
  | some t => rw [Option.map_some, if_neg (fun same => ne ((record_mem found).2.symm.trans same))]

/-! ## All records -/

theorem kept_same (lasting : Lasting P) (held : P t) (same : Same t u) : P u := lasting.same t u same held

theorem all_map (all : All P s) (kept : ∀ t, P t → P (f t)) : All P { s with taskList := s.taskList.map f } := by
  intro t member
  obtain ⟨u, memberU, rfl⟩ := List.mem_map.mp member
  exact kept u (all u memberU)

theorem all_modify (all : All P s) (kept : ∀ t, P t → P (f t)) : All P (modify s a f) := by
  refine all_map all fun t held => ?_
  split
  · exact kept t held
  · exact held

theorem all_fields (lasting : Lasting P) (all : All P s) (same : ∀ t, Same t (f t)) : All P (modify s a f) :=
  all_modify all fun t => lasting.same t (f t) (same t)

theorem visit_kept (lasting : Lasting P) (a : Nat) (t : Task) (held : P t) : P (visit a t) := by
  unfold visit age
  dsimp only
  split
  · have counted : P { t with waitTicks := (t.waitTicks + 1) % 2 ^ 32 } :=
      lasting.same t _ ⟨rfl, rfl, rfl, rfl, rfl, rfl⟩ held
    split
    · rename_i starved
      have boosted : P { t with dynamicPriority := t.dynamicPriority + 1 } := lasting.boosted t held starved.2
      exact kept_same lasting boosted ⟨rfl, rfl, rfl, rfl, rfl, rfl⟩
    · exact counted
  · exact held

theorem preempt_same (t : Task) : Same t (preempt t) := by
  unfold preempt
  split <;> exact ⟨rfl, rfl, rfl, rfl, rfl, rfl⟩

theorem refill_same (t : Task) : Same t (refill t) := by
  unfold refill
  split <;> exact ⟨rfl, rfl, rfl, rfl, rfl, rfl⟩

theorem dispatch_kept (lasting : Lasting P) (t : Task) (held : P t) : P (dispatch t) :=
  kept_same lasting (lasting.dispatched t held) ⟨rfl, rfl, rfl, rfl, rfl, rfl⟩

theorem reschedule_all (lasting : Lasting P) (all : All P s) : All P (reschedule s).1 := by
  obtain ⟨next, found, -⟩ := taskFindNextReady_chosen s
  have visited := all_map all (visit_kept lasting s.currentTask)
  unfold reschedule
  rw [found]
  dsimp only
  cases next with
  | none => exact all_fields lasting visited refill_same
  | some next =>
    dsimp only
    split
    · exact all_fields lasting visited refill_same
    · have preempted := all_fields (a := s.currentTask) lasting visited preempt_same
      have moved : All P { modify { s with taskList := s.taskList.map (visit s.currentTask) } s.currentTask preempt with
          currentTask := next.address } := preempted
      exact all_modify moved (dispatch_kept lasting)

theorem taskExitWithStatus_all (lasting : Lasting P) (all : All P s) (status : Nat) :
    All P (taskExitWithStatus s status) := by
  unfold taskExitWithStatus
  split
  · exact all
  · rename_i cur _
    dsimp only
    apply reschedule_all lasting
    refine all_fields lasting ?_ fun _ => ⟨rfl, rfl, rfl, rfl, rfl, rfl⟩
    have ended : All P (modify s s.currentTask fun t =>
        { t with exitStatus := status % 2 ^ 32, state := .dead, isZombie := true }) :=
      all_fields lasting all fun _ => ⟨rfl, rfl, rfl, rfl, rfl, rfl⟩
    refine all_map ended fun t => lasting.same t _ ?_
    unfold wakeWaiter
    split <;> exact ⟨rfl, rfl, rfl, rfl, rfl, rfl⟩

theorem checkSignals_all (lasting : Lasting P) (all : All P s) (deliverable : Nat) (handlers sigs : List Nat) :
    All P (checkSignals deliverable handlers s sigs) := by
  induction sigs generalizing s with
  | nil => exact all
  | cons signum rest ih =>
    have cleared : All P (modify s s.currentTask (clearSignal signum)) :=
      all_modify all fun t => lasting.cleared t signum
    unfold checkSignals
    split
    · dsimp only
      split
      · exact ih cleared
      · split
        · exact taskExitWithStatus_all lasting cleared _
        · exact ih cleared
    · exact ih all

theorem taskCheckSignals_all (lasting : Lasting P) (all : All P s) : All P (taskCheckSignals s) := by
  unfold taskCheckSignals
  split
  · exact all
  · split
    · exact all
    · split
      · exact all
      · exact checkSignals_all lasting all _ _ _

theorem taskYield_all (lasting : Lasting P) (all : All P s) : All P (taskYield s) := by
  have next := reschedule_all lasting all
  unfold taskYield
  dsimp only
  split
  · exact next
  · split
    · exact taskCheckSignals_all lasting next
    · exact next

theorem taskScheduleTick_all (lasting : Lasting P) (all : All P s) : All P (taskScheduleTick s) := by
  have awake : All P (taskWakeExpiredSleepers s) := by
    refine all_map all fun t => lasting.same t _ ?_
    unfold wakeExpired
    split <;> exact ⟨rfl, rfl, rfl, rfl, rfl, rfl⟩
  unfold taskScheduleTick
  dsimp only
  split
  · exact awake
  · split
    case h_1 => exact taskYield_all lasting awake
    case h_2 | h_3 | h_4 => exact awake
    all_goals
      unfold tickCurrent
      dsimp only
      have counted := all_fields (a := (taskWakeExpiredSleepers s).currentTask)
        (f := fun t => { t with cpuTimeTicks := (t.cpuTimeTicks + 1) % 2 ^ 32 }) lasting awake
        fun _ => ⟨rfl, rfl, rfl, rfl, rfl, rfl⟩
      split
      · exact taskYield_all lasting (all_fields lasting counted fun _ => ⟨rfl, rfl, rfl, rfl, rfl, rfl⟩)
      · have spent := all_fields (a := (taskWakeExpiredSleepers s).currentTask)
          (f := fun t => { t with sliceRemaining := t.sliceRemaining - 1 }) lasting counted
          fun _ => ⟨rfl, rfl, rfl, rfl, rfl, rfl⟩
        split
        · exact taskYield_all lasting (all_fields lasting spent preempt_same)
        · exact spent

theorem taskSendSignal_all (lasting : Lasting P) (all : All P s) (pid signum : Nat) :
    All P (taskSendSignal s pid signum) := by
  unfold taskSendSignal
  split
  · exact all
  · rename_i number
    split
    · exact all
    · split
      · exact all
      · rename_i target _ _
        have sent : All P (modify s target.address (signalled signum)) := by
          refine all_modify all fun t held => ?_
          refine kept_same lasting (lasting.posted t signum held (by omega) (by omega)) ?_
          unfold signalled
          dsimp only
          split <;> exact ⟨rfl, rfl, rfl, rfl, rfl, rfl⟩
        dsimp only
        split
        · exact sent
        · split
          · exact taskCheckSignals_all lasting sent
          · exact sent

/-- Every operation keeps such a property of all records. -/
theorem perform_all (lasting : Lasting P) (all : All P s) (action : Action) : All P (perform s action) := by
  have fields : ∀ {f : Task → Task} {a : Nat}, (∀ t, Same t (f t)) → All P (modify s a f) :=
    fun same => all_fields lasting all same
  cases action with
  | clock => exact all
  | scheduleTick => exact taskScheduleTick_all lasting all
  | yield => exact taskYield_all lasting all
  | requestYield => exact fields fun _ => ⟨rfl, rfl, rfl, rfl, rfl, rfl⟩
  | block => exact taskYield_all lasting (fields fun _ => ⟨rfl, rfl, rfl, rfl, rfl, rfl⟩)
  | unblock pid =>
    unfold perform taskUnblock
    dsimp only
    split
    · exact all
    · refine fields fun t => ?_
      unfold unblock
      split <;> exact ⟨rfl, rfl, rfl, rfl, rfl, rfl⟩
  | sleep ticks =>
    unfold perform taskSleep
    dsimp only
    split
    · exact all
    · exact taskYield_all lasting (fields fun _ => ⟨rfl, rfl, rfl, rfl, rfl, rfl⟩)
  | wake pid =>
    unfold perform taskWake
    dsimp only
    split
    · exact all
    · exact fields fun _ => ⟨rfl, rfl, rfl, rfl, rfl, rfl⟩
  | wait pid =>
    unfold perform taskWait
    dsimp only
    split
    · exact all
    · rename_i target _
      split
      · have answered := fields (a := s.currentTask)
          (f := fun t => { t with exitStatus := target.exitStatus, waitingOnPid := 0 })
          fun _ => ⟨rfl, rfl, rfl, rfl, rfl, rfl⟩
        exact all_fields lasting answered fun _ => ⟨rfl, rfl, rfl, rfl, rfl, rfl⟩
      · exact taskYield_all lasting (fields fun _ => ⟨rfl, rfl, rfl, rfl, rfl, rfl⟩)
  | exit status => exact taskExitWithStatus_all lasting all status
  | sendSignal pid signum => exact taskSendSignal_all lasting all pid signum
  | setSignalHandler signum handler =>
    unfold perform taskSetSignalHandler
    dsimp only
    split
    · exact all
    · exact all_modify all fun t held => lasting.handled t signum handler held (by omega)
  | setPriority pid priority =>
    unfold perform taskSetPriority
    dsimp only
    split
    · exact all
    · refine all_modify all fun t held => ?_
      refine kept_same lasting (lasting.ranked t _ held ?_) ⟨rfl, rfl, rfl, rfl, rfl, rfl⟩
      split
      · exact Nat.le_refl _
      · omega
  | create isUser =>
    intro t member
    rcases List.mem_cons.mp member with rfl | old
    · exact lasting.created _ _ _ _
    · refine all_fields (a := s.currentTask) lasting all (fun u => ?_) t old
      unfold taskAddChild
      split <;> exact ⟨rfl, rfl, rfl, rfl, rfl, rfl⟩
  | cleanup =>
    intro t member
    exact all t ((idleCleanup_kept s).1.subset member)

/-- The scheduler after any operations, in any order. -/
abbrev Reached (s : Scheduler) : Prop := Run (fun _ _ => True) (fun s action t => t = perform s action) taskInitialize s

theorem taskInitialize_all (lasting : Lasting P) : All P taskInitialize := by
  have root : P { newTask rootAddress 1 0 false with state := .running } :=
    kept_same lasting (lasting.created rootAddress 1 0 false) ⟨rfl, rfl, rfl, rfl, rfl, rfl⟩
  have first : All P ⟨[{ newTask rootAddress 1 0 false with state := .running }], rootAddress, 2, false, 0,
    idleAddress⟩ := by
    intro t member
    rw [List.mem_singleton.mp member]
    exact root
  exact perform_all lasting (perform_all lasting first (.create false)) (.setPriority 2 priorityIdle)

theorem reached_all (lasting : Lasting P) (reached : Reached s) : All P s := by
  refine run_invariant (All P) reached (taskInitialize_all lasting) ?_
  rintro t action u all - rfl
  exact perform_all lasting all action

end

end MeowMeowOS.TaskRecords

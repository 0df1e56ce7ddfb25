import MeowMeowOS.GuardedRuns
import MeowMeowOS.Tasks
import Mathlib.Data.List.TakeWhile

/-! Whether the current task is the one running task. It is, after every
operation, until a timer tick ends the time slice of a task that is then chosen
again. -/
namespace MeowMeowOS.RunningTask
open GuardedRuns Tasks

structure OneRunning (s : Scheduler) : Prop where
  current : ∃ t ∈ s.taskList, t.address = s.currentTask ∧ t.state = .running ∧ 0 < t.sliceRemaining
  others : ∀ t ∈ s.taskList, t.state = .running → t.address = s.currentTask

/-- The idle task is ready or running, and no user task. -/
def Idle (s : Scheduler) : Prop :=
  ∃ t ∈ s.taskList, t.address = idleAddress ∧ t.isUser = false ∧ (t.state = .ready ∨ t.state = .running)

structure Sound (s : Scheduler) : Prop where
  records : Records s
  idle : Idle s
  others : ∀ t ∈ s.taskList, t.state = .running → t.address = s.currentTask
  present : ∃ t ∈ s.taskList, t.address = s.currentTask

/-- A change of a record that starts and stops no task. -/
structure Calm (g : Task → Task) : Prop where
  address : ∀ t, (g t).address = t.address
  user : ∀ t, (g t).isUser = t.isUser
  running : ∀ t, t.state = .running → (g t).state = .running
  ready : ∀ t, t.state = .ready → (g t).state = .ready
  resting : ∀ t, t.state ≠ .running → (g t).state ≠ .running

/-- It takes no running task's time slice either. -/
structure Quiet (g : Task → Task) : Prop extends Calm g where
  slice : ∀ t, t.state = .running → 0 < t.sliceRemaining → 0 < (g t).sliceRemaining

section
variable {s : Scheduler} {f g : Task → Task} {a : Nat}

theorem calm_at (calm : Calm f) (a : Nat) : Calm fun t => if t.address = a then f t else t := by
  refine ⟨fun t => ?_, fun t => ?_, fun t running => ?_, fun t ready => ?_, fun t resting => ?_⟩
  all_goals split
  · exact calm.address t
  · rfl
  · exact calm.user t
  · rfl
  · exact calm.running t running
  · exact running
  · exact calm.ready t ready
  · exact ready
  · exact calm.resting t resting
  · exact resting

theorem quiet_at (quiet : Quiet f) (a : Nat) : Quiet fun t => if t.address = a then f t else t := by
  refine ⟨calm_at quiet.toCalm a, fun t running slice => ?_⟩
  split
  · exact quiet.slice t running slice
  · exact slice

theorem calm_back (calm : Calm g) (running : (g t).state = .running) : t.state = .running := by
  by_cases before : t.state = .running
  · exact before
  · exact absurd running (calm.resting t before)

theorem sound_calm (sound : Sound s) (calm : Calm g) : Sound { s with taskList := s.taskList.map g } := by
  refine ⟨records_map sound.records g calm.address, ?_, fun t member running => ?_, ?_⟩
  · obtain ⟨t, member, address, user, state⟩ := sound.idle
    refine ⟨g t, List.mem_map_of_mem member, (calm.address t).trans address, (calm.user t).trans user, ?_⟩
    rcases state with ready | running
    · exact Or.inl (calm.ready t ready)
    · exact Or.inr (calm.running t running)
  · obtain ⟨u, memberU, rfl⟩ := List.mem_map.mp member
    rw [calm.address]
    exact sound.others u memberU (calm_back calm running)
  · obtain ⟨t, member, address⟩ := sound.present
    exact ⟨g t, List.mem_map_of_mem member, (calm.address t).trans address⟩

theorem sound_quiet (sound : Sound s) (quiet : Quiet g) : Sound { s with taskList := s.taskList.map g } :=
  sound_calm sound quiet.toCalm

theorem one_quiet (one : OneRunning s) (quiet : Quiet g) : OneRunning { s with taskList := s.taskList.map g } := by
  obtain ⟨t, member, address, running, slice⟩ := one.current
  refine ⟨⟨g t, List.mem_map_of_mem member, (quiet.address t).trans address, quiet.running t running,
    quiet.slice t running slice⟩, ?_⟩
  intro u memberU runningU
  obtain ⟨v, memberV, rfl⟩ := List.mem_map.mp memberU
  rw [quiet.address]
  exact one.others v memberV (calm_back quiet.toCalm runningU)

theorem sound_modify (sound : Sound s) (quiet : Quiet f) : Sound (modify s a f) := sound_quiet sound (quiet_at quiet a)

theorem one_modify (one : OneRunning s) (quiet : Quiet f) : OneRunning (modify s a f) :=
  one_quiet one (quiet_at quiet a)

/-! ## The changes that start and stop no task -/

/-- A change that can only make a waiting, blocked or sleeping task ready. -/
theorem quiet_waking (waking : ∀ t, (g t).address = t.address ∧ (g t).isUser = t.isUser ∧
    (((g t).state = t.state ∧ (g t).sliceRemaining = t.sliceRemaining) ∨
      ((g t).state = .ready ∧ t.state ≠ .running))) : Quiet g := by
  refine ⟨⟨fun t => (waking t).1, fun t => (waking t).2.1, fun t running => ?_, fun t ready => ?_,
    fun t resting running => ?_⟩, fun t running positive => ?_⟩
  · rcases (waking t).2.2 with ⟨state, -⟩ | ⟨-, resting⟩
    · exact state.trans running
    · exact absurd running resting
  · rcases (waking t).2.2 with ⟨state, -⟩ | ⟨woken, -⟩
    · exact state.trans ready
    · exact woken
  · rcases (waking t).2.2 with ⟨state, -⟩ | ⟨woken, -⟩
    · exact resting (state.symm.trans running)
    · rw [woken] at running
      cases running
  · rcases (waking t).2.2 with ⟨-, slice⟩ | ⟨-, resting⟩
    · exact slice ▸ positive
    · exact absurd running resting

/-- A change of fields that have no part in this. -/
theorem quiet_fields (same : ∀ t, (g t).address = t.address ∧ (g t).isUser = t.isUser ∧ (g t).state = t.state ∧
    (g t).sliceRemaining = t.sliceRemaining) : Quiet g :=
  quiet_waking fun t => ⟨(same t).1, (same t).2.1, Or.inl (same t).2.2⟩

theorem quiet_visit (a : Nat) : Quiet (visit a) := by
  refine quiet_fields fun t => ?_
  unfold visit age
  dsimp only
  split
  · split <;> exact ⟨rfl, rfl, rfl, rfl⟩
  · exact ⟨rfl, rfl, rfl, rfl⟩

theorem quiet_wakeExpired (now : Nat) : Quiet (wakeExpired now) := by
  refine quiet_waking fun t => ?_
  unfold wakeExpired
  split
  · rename_i asleep
    exact ⟨rfl, rfl, Or.inr ⟨rfl, by simp [asleep.1]⟩⟩
  · exact ⟨rfl, rfl, Or.inl ⟨rfl, rfl⟩⟩

theorem quiet_unblock : Quiet unblock := by
  refine quiet_waking fun t => ?_
  unfold unblock
  split
  · rename_i blocked
    exact ⟨rfl, rfl, Or.inr ⟨rfl, by simp [blocked]⟩⟩
  · exact ⟨rfl, rfl, Or.inl ⟨rfl, rfl⟩⟩

theorem quiet_signalled (signum : Nat) : Quiet (signalled signum) := by
  refine quiet_waking fun t => ?_
  unfold signalled
  dsimp only
  split
  · rename_i resting
    refine ⟨rfl, rfl, Or.inr ⟨rfl, fun running => ?_⟩⟩
    simp [running] at resting
  · exact ⟨rfl, rfl, Or.inl ⟨rfl, rfl⟩⟩

theorem quiet_wakeWaiter (pid exitStatus : Nat) : Quiet (wakeWaiter pid exitStatus) := by
  refine quiet_waking fun t => ?_
  unfold wakeWaiter
  split
  · rename_i waits
    exact ⟨rfl, rfl, Or.inr ⟨rfl, by simp [waits.1]⟩⟩
  · exact ⟨rfl, rfl, Or.inl ⟨rfl, rfl⟩⟩

theorem quiet_addChild (pid : Nat) : Quiet (taskAddChild pid) := by
  refine quiet_fields fun t => ?_
  unfold taskAddChild
  split <;> exact ⟨rfl, rfl, rfl, rfl⟩

/-! ## The choice of the next task -/

theorem findNextReady_eq (a : Nat) (tasks : List Task) (best : Option Task) :
    findNextReady a tasks best = (tasks.map (visit a), (tasks.map (visit a)).foldl (better a) best) := by
  induction tasks generalizing best with
  | nil => rfl
  | cons t rest ih =>
    dsimp only [findNextReady]
    rw [ih]
    rfl

/-- The first of the eligible records that none of the others outranks. -/
structure Best (a : Nat) (seen : List Task) (b : Task) : Prop where
  eligible : Eligible a b
  split : ∃ before after, seen = before ++ b :: after ∧
    (∀ t ∈ before, Eligible a t → Outranks b t) ∧ ∀ t ∈ after, Eligible a t → ¬ Outranks t b

theorem outranks_trans (first : Outranks t u) (second : Outranks u v) : Outranks t v := by
  unfold Outranks at *
  omega

theorem outranks_of_not (above : Outranks t u) (not : ¬ Outranks v u) : Outranks t v := by
  unfold Outranks at *
  omega

theorem outranks_asymm (above : Outranks t u) : ¬ Outranks u t := by
  unfold Outranks at *
  omega

/-- What the loop knows of the records it has seen. -/
structure Chosen (a : Nat) (seen : List Task) (best : Option Task) : Prop where
  none : best = none → ∀ t ∈ seen, ¬ Eligible a t
  some : ∀ b, best = some b → Best a seen b

theorem best_append (best : Best a seen b) (loses : Eligible a t → ¬ Outranks t b) : Best a (seen ++ [t]) b := by
  obtain ⟨eligible, before, after, rfl, above, notAbove⟩ := best
  refine ⟨eligible, before, after ++ [t], by simp, above, fun u member eligibleU => ?_⟩
  rcases List.mem_append.mp member with early | last
  · exact notAbove u early eligibleU
  · rw [List.mem_singleton.mp last] at eligibleU ⊢
    exact loses eligibleU

theorem best_replaced (best : Best a seen b) (eligible : Eligible a t) (beats : Outranks t b) :
    Best a (seen ++ [t]) t := by
  obtain ⟨-, before, after, rfl, above, notAbove⟩ := best
  refine ⟨eligible, before ++ b :: after, [], rfl, fun u member eligibleU => ?_, fun u member => ?_⟩
  · rcases List.mem_append.mp member with early | late
    · exact outranks_trans beats (above u early eligibleU)
    · rcases List.mem_cons.mp late with rfl | later
      · exact beats
      · exact outranks_of_not beats (notAbove u later eligibleU)
  · exact absurd member List.not_mem_nil

theorem better_chosen (chosen : Chosen a seen best) (t : Task) : Chosen a (seen ++ [t]) (better a best t) := by
  by_cases eligible : Eligible a t
  · cases best with
    | none =>
      have same : better a none t = some t := by simp [better, eligible]
      rw [same]
      refine ⟨nofun, fun b found => ?_⟩
      obtain rfl := Option.some.inj found
      exact ⟨eligible, seen, [], rfl, fun u member eligibleU => absurd eligibleU (chosen.none rfl u member),
        fun u member => absurd member List.not_mem_nil⟩
    | some c =>
      have known := chosen.some c rfl
      by_cases beats : Outranks t c
      · have same : better a (some c) t = some t := by simp [better, eligible, beats]
        rw [same]
        refine ⟨nofun, fun b found => ?_⟩
        obtain rfl := Option.some.inj found
        exact best_replaced known eligible beats
      · have same : better a (some c) t = some c := by simp [better, eligible, beats]
        rw [same]
        refine ⟨nofun, fun b found => ?_⟩
        obtain rfl := Option.some.inj found
        exact best_append known fun _ => beats
  · have same : better a best t = best := by simp [better, eligible]
    rw [same]
    refine ⟨fun empty u member => ?_, fun b found => ?_⟩
    · rcases List.mem_append.mp member with before | last
      · exact chosen.none empty u before
      · rw [List.mem_singleton.mp last]
        exact eligible
    · exact best_append (chosen.some b found) fun held => absurd held eligible

theorem foldl_better (chosen : Chosen a seen best) (tasks : List Task) :
    Chosen a (seen ++ tasks) (tasks.foldl (better a) best) := by
  induction tasks generalizing seen best with
  | nil =>
    rw [List.append_nil]
    exact chosen
  | cons t rest ih =>
    rw [List.foldl_cons, List.append_cons]
    exact ih (better_chosen chosen t)

/-- What `task_find_next_ready` leaves and returns. -/
theorem taskFindNextReady_chosen (s : Scheduler) :
    ∃ next, taskFindNextReady s = ({ s with taskList := s.taskList.map (visit s.currentTask) }, next) ∧
      Chosen s.currentTask (s.taskList.map (visit s.currentTask)) next := by
  refine ⟨(s.taskList.map (visit s.currentTask)).foldl (better s.currentTask) none, ?_, ?_⟩
  · unfold taskFindNextReady
    rw [findNextReady_eq]
  · have start : Chosen s.currentTask [] none :=
      ⟨fun _ t member => absurd member List.not_mem_nil, nofun⟩
    exact foldl_better start _

theorem best_mem (best : Best a seen b) : b ∈ seen := by
  obtain ⟨before, after, rfl, -⟩ := best.split
  simp

/-! ## Giving up the processor -/

theorem preempt_address (t : Task) : (preempt t).address = t.address ∧ (preempt t).isUser = t.isUser := by
  unfold preempt
  split <;> exact ⟨rfl, rfl⟩

theorem preempt_rank (t : Task) :
    (preempt t).dynamicPriority = t.dynamicPriority ∧ (preempt t).waitTicks = t.waitTicks := by
  unfold preempt
  split <;> exact ⟨rfl, rfl⟩

theorem preempt_stopped (t : Task) : (preempt t).state ≠ .running := by
  unfold preempt
  split
  · exact nofun
  · assumption

/-- The state between the two changes of `switchTo`: no task runs. -/
theorem modify_preempt (sound : Sound s) :
    ∀ t ∈ (modify s s.currentTask preempt).taskList, t.state ≠ .running := by
  intro t member running
  obtain ⟨u, memberU, rfl⟩ := mem_modify.mp member
  split at running
  · exact preempt_stopped u running
  · rename_i other
    exact other (sound.others u memberU running)

theorem switchTo_one (sound : Sound s) (member : n ∈ s.taskList) (ne : n.address ≠ s.currentTask) :
    Sound (switchTo s n) ∧ OneRunning (switchTo s n) := by
  have stopped := modify_preempt sound
  have kept : n ∈ (modify s s.currentTask preempt).taskList := mem_modify.mpr ⟨n, member, if_neg ne⟩
  have started : dispatch n ∈ (switchTo s n).taskList := mem_modify.mpr ⟨n, kept, if_pos rfl⟩
  have others : ∀ t ∈ (switchTo s n).taskList, t.state = .running → t.address = (switchTo s n).currentTask := by
    intro t memberT running
    obtain ⟨u, memberU, rfl⟩ := mem_modify.mp memberT
    split at running
    · rename_i same
      rw [if_pos same]
      exact same
    · exact absurd running (stopped u memberU)
  refine ⟨⟨?_, ?_, others, ⟨dispatch n, started, rfl⟩⟩,
    ⟨⟨dispatch n, started, rfl, rfl, quantum_positive _⟩, others⟩⟩
  · obtain ⟨distinct, known⟩ := records_modify (a := s.currentTask) sound.records fun t => (preempt_address t).1
    exact records_modify (f := dispatch) ⟨distinct, known⟩ fun _ => rfl
  · obtain ⟨t, memberT, address, user, state⟩ := sound.idle
    have stays : ∃ u ∈ (modify s s.currentTask preempt).taskList, u.address = idleAddress ∧ u.isUser = false ∧
        (u.state = .ready ∨ u.state = .running) := by
      refine ⟨_, mem_modify.mpr ⟨t, memberT, rfl⟩, ?_⟩
      split
      · obtain ⟨addressP, userP⟩ := preempt_address t
        refine ⟨addressP.trans address, userP.trans user, ?_⟩
        unfold preempt
        split
        · exact Or.inl rfl
        · exact state
      · exact ⟨address, user, state⟩
    obtain ⟨u, memberU, addressU, userU, stateU⟩ := stays
    refine ⟨_, mem_modify.mpr ⟨u, memberU, rfl⟩, ?_⟩
    split
    · exact ⟨addressU, userU, Or.inr rfl⟩
    · exact ⟨addressU, userU, stateU⟩

theorem quiet_refill : Quiet refill := by
  refine ⟨⟨fun t => ?_, fun t => ?_, fun t running => ?_, fun t ready => ?_, fun t resting => ?_⟩,
    fun t running _ => ?_⟩
  · unfold refill
    split <;> rfl
  · unfold refill
    split <;> rfl
  · unfold refill
    rw [if_pos running]
    exact running
  · unfold refill
    rw [if_neg (by simp [ready])]
    exact ready
  · unfold refill
    rw [if_neg resting]
    exact resting
  · unfold refill
    rw [if_pos running]
    exact quantum_positive _

/-- The idle task can always be chosen. -/
theorem idle_eligible (sound : Sound s) :
    ∃ t ∈ s.taskList, Eligible s.currentTask t ∧ t.address = idleAddress := by
  obtain ⟨t, member, address, -, ready | running⟩ := sound.idle
  · exact ⟨t, member, Or.inl ready, address⟩
  · exact ⟨t, member, Or.inr ⟨sound.others t member running, running⟩, address⟩

/-- `task_yield` leaves the current task in place when it is the best choice,
and else switches to another one. -/
theorem reschedule_cases (sound : Sound s) :
    (∃ b, Best s.currentTask (s.taskList.map (visit s.currentTask)) b ∧ b.address = s.currentTask ∧
      reschedule s =
        (modify { s with taskList := s.taskList.map (visit s.currentTask) } s.currentTask refill, true)) ∨
      ∃ n, Best s.currentTask (s.taskList.map (visit s.currentTask)) n ∧ n.address ≠ s.currentTask ∧
        reschedule s = (switchTo { s with taskList := s.taskList.map (visit s.currentTask) } n, false) := by
  obtain ⟨next, found, chosen⟩ := taskFindNextReady_chosen s
  have visited := sound_quiet sound (quiet_visit s.currentTask)
  cases next with
  | none =>
    obtain ⟨t, member, eligible, -⟩ := idle_eligible visited
    exact absurd eligible (chosen.none rfl t member)
  | some b =>
    have best := chosen.some b rfl
    by_cases same : b.address = s.currentTask
    · refine Or.inl ⟨b, best, same, ?_⟩
      unfold reschedule
      rw [found]
      dsimp only
      rw [if_pos same]
    · refine Or.inr ⟨b, best, same, ?_⟩
      unfold reschedule
      rw [found]
      dsimp only
      rw [if_neg same]

theorem reschedule_one (sound : Sound s) (one : OneRunning s) :
    Sound (reschedule s).1 ∧ OneRunning (reschedule s).1 := by
  have visited := sound_quiet sound (quiet_visit s.currentTask)
  rcases reschedule_cases sound with ⟨b, -, -, same⟩ | ⟨n, best, ne, same⟩
  · rw [same]
    exact ⟨sound_modify visited quiet_refill, one_modify (one_quiet one (quiet_visit s.currentTask)) quiet_refill⟩
  · rw [same]
    exact switchTo_one visited (best_mem best) ne

/-- A task that has left the processor is not chosen again. -/
theorem reschedule_leaves (sound : Sound s)
    (left : ∀ t ∈ s.taskList, t.address = s.currentTask → t.state ≠ .ready ∧ t.state ≠ .running) :
    Sound (reschedule s).1 ∧ OneRunning (reschedule s).1 ∧ (reschedule s).2 = false := by
  have visited := sound_quiet sound (quiet_visit s.currentTask)
  rcases reschedule_cases sound with ⟨b, best, address, -⟩ | ⟨n, best, ne, same⟩
  · obtain ⟨u, memberU, rfl⟩ := List.mem_map.mp (best_mem best)
    have quiet := quiet_visit s.currentTask
    rw [quiet.address] at address
    obtain ⟨notReady, notRunning⟩ := left u memberU address
    have state : (visit s.currentTask u).state = u.state := by
      unfold visit
      rw [if_neg (fun held => held.1 address)]
    rcases best.eligible with ready | ⟨-, running⟩
    · exact absurd (state.symm.trans ready) notReady
    · exact absurd (state.symm.trans running) notRunning
  · rw [same]
    exact ⟨(switchTo_one visited (best_mem best) ne).1, (switchTo_one visited (best_mem best) ne).2, rfl⟩

theorem sound_congr (sound : Sound s) (tasks : u.taskList = s.taskList) (cur : u.currentTask = s.currentTask)
    (records : u.records = s.records) : Sound u := by
  obtain ⟨⟨distinct, known⟩, idle, others, present⟩ := sound
  refine ⟨⟨?_, ?_⟩, ?_, ?_, ?_⟩
  · rwa [tasks]
  · rwa [tasks, records]
  · rwa [Idle, tasks]
  · rwa [tasks, cur]
  · rwa [tasks, cur]

/-- Any change of a current task that is not the idle task. -/
theorem sound_current (sound : Sound s) (ne : s.currentTask ≠ idleAddress)
    (address : ∀ t, (f t).address = t.address) :
    Sound (modify s s.currentTask f) := by
  refine ⟨records_modify sound.records address, ?_, fun t member running => ?_, ?_⟩
  · obtain ⟨t, member, addressI, user, state⟩ := sound.idle
    refine ⟨t, mem_modify.mpr ⟨t, member, if_neg ?_⟩, addressI, user, state⟩
    rw [addressI]
    exact Ne.symm ne
  · obtain ⟨u, memberU, rfl⟩ := mem_modify.mp member
    split at running
    · rename_i same
      rw [if_pos same, address]
      exact same
    · rename_i other
      rw [if_neg other]
      exact sound.others u memberU running
  · obtain ⟨t, member, same⟩ := sound.present
    exact ⟨f t, mem_modify.mpr ⟨t, member, if_pos same⟩, (address t).trans same⟩

theorem modify_current (member : t ∈ (modify s s.currentTask f).taskList) (address : t.address = s.currentTask) :
    ∃ u ∈ s.taskList, u.address = s.currentTask ∧ t = f u := by
  obtain ⟨u, memberU, rfl⟩ := mem_modify.mp member
  by_cases same : u.address = s.currentTask
  · rw [if_pos same]
    exact ⟨u, memberU, same, rfl⟩
  · rw [if_neg same] at address
    exact absurd address same

theorem taskExitWithStatus_one (sound : Sound s) (ne : s.currentTask ≠ idleAddress) (status : Nat) :
    Sound (taskExitWithStatus s status) ∧ OneRunning (taskExitWithStatus s status) := by
  obtain ⟨cur, member, address⟩ := sound.present
  unfold taskExitWithStatus
  rw [current_of_mem sound.records member address]
  dsimp only
  have dead := sound_current (f := fun t => { t with exitStatus := status % 2 ^ 32, state := .dead, isZombie := true })
    sound ne fun _ => rfl
  have woken := sound_quiet dead (quiet_wakeWaiter cur.pid (status % 2 ^ 32))
  generalize waitedEq : List.any _ _ = waited
  let after : Scheduler := { modify s s.currentTask (fun t =>
      { t with exitStatus := status % 2 ^ 32, state := .dead, isZombie := true }) with
    taskList := (modify s s.currentTask (fun t =>
      { t with exitStatus := status % 2 ^ 32, state := .dead, isZombie := true })).taskList.map
        (wakeWaiter cur.pid (status % 2 ^ 32))
    needsCleanup := true }
  have soundAfter : Sound after := sound_congr woken rfl rfl rfl
  have ended := sound_current (f := fun t => { t with isZombie := !waited }) soundAfter ne fun _ => rfl
  have left := reschedule_leaves ended fun t memberT addressT => by
    obtain ⟨u, memberU, addressU, rfl⟩ := modify_current memberT addressT
    obtain ⟨v, memberV, rfl⟩ := List.mem_map.mp memberU
    rw [(quiet_wakeWaiter _ _).address] at addressU
    obtain ⟨w, -, -, rfl⟩ := modify_current memberV addressU
    -- no exit wakes a dead task
    rw [wakeWaiter, if_neg (by simp)]
    simp
  exact ⟨left.1, left.2.1⟩

/-! ## Signals -/

theorem quiet_clearSignal (signum : Nat) : Quiet (clearSignal signum) :=
  quiet_fields fun _ => ⟨rfl, rfl, rfl, rfl⟩

theorem checkSignals_one (sound : Sound s) (one : OneRunning s) (ne : s.currentTask ≠ idleAddress)
    (deliverable : Nat) (handlers sigs : List Nat) :
    Sound (checkSignals deliverable handlers s sigs) ∧ OneRunning (checkSignals deliverable handlers s sigs) := by
  induction sigs generalizing s with
  | nil => exact ⟨sound, one⟩
  | cons signum rest ih =>
    have quiet := quiet_clearSignal signum
    have cleared := sound_modify (a := s.currentTask) sound quiet
    have oneCleared := one_modify (a := s.currentTask) one quiet
    unfold checkSignals
    split
    · dsimp only
      split
      · exact ih cleared oneCleared ne
      · split
        · exact taskExitWithStatus_one cleared ne _
        · exact ih cleared oneCleared ne
    · exact ih sound one ne

/-- The task is a user task with a deadly signal that it does not ignore. -/
def Killed (t : Task) : Prop :=
  t.isUser = true ∧ ∃ signum ∈ List.range' 1 (nsig - 1), (deliverableSignals t).testBit signum = true ∧
    t.signalHandlers.getD signum 0 ≠ sigIgn ∧ signum ∈ deadly

instance (t : Task) : Decidable (Killed t) := inferInstanceAs (Decidable (_ ∧ _))

theorem checkSignals_kills (sound : Sound s) (ne : s.currentTask ≠ idleAddress) (deliverable : Nat)
    (handlers sigs : List Nat) (killed : ∃ signum ∈ sigs, deliverable.testBit signum = true ∧
      handlers.getD signum 0 ≠ sigIgn ∧ signum ∈ deadly) :
    Sound (checkSignals deliverable handlers s sigs) ∧ OneRunning (checkSignals deliverable handlers s sigs) := by
  induction sigs generalizing s with
  | nil =>
    obtain ⟨signum, member, -⟩ := killed
    cases member
  | cons signum rest ih =>
    have cleared := sound_modify (a := s.currentTask) sound (quiet_clearSignal signum)
    obtain ⟨k, member, held, notIgnored, kills⟩ := killed
    have later : k ≠ signum → ∃ signum ∈ rest, deliverable.testBit signum = true ∧
        handlers.getD signum 0 ≠ sigIgn ∧ signum ∈ deadly := fun other =>
      ⟨k, (List.mem_cons.mp member).resolve_left other, held, notIgnored, kills⟩
    unfold checkSignals
    split
    · dsimp only
      split
      · rename_i ignored
        exact ih cleared ne (later fun same => notIgnored (same ▸ ignored))
      · split
        · exact taskExitWithStatus_one cleared ne _
        · rename_i harmless
          exact ih cleared ne (later fun same => harmless (same ▸ kills))
    · rename_i absent
      exact ih sound ne (later fun same => absent (same ▸ held))

theorem user_not_idle (sound : Sound s) (member : t ∈ s.taskList) (user : t.isUser = true) :
    t.address ≠ idleAddress := by
  intro same
  obtain ⟨u, memberU, address, notUser, -⟩ := sound.idle
  rw [record_unique sound.records member memberU (same.trans address.symm), notUser] at user
  cases user

theorem taskCheckSignals_one (sound : Sound s) (one : OneRunning s) :
    Sound (taskCheckSignals s) ∧ OneRunning (taskCheckSignals s) := by
  unfold taskCheckSignals
  split
  · exact ⟨sound, one⟩
  · rename_i cur found
    obtain ⟨member, address⟩ := current_mem found
    split
    · exact ⟨sound, one⟩
    · rename_i alive
      split
      · exact ⟨sound, one⟩
      · have user : cur.isUser = true := by
          cases held : cur.isUser with
          | true => rfl
          | false => simp [held] at alive
        exact checkSignals_one sound one (address ▸ user_not_idle sound member user) _ _ _

/-- The signals that a task looks at when it gets no rival do no harm. -/
theorem taskYield_settles (next : Sound (reschedule s).1 ∧ OneRunning (reschedule s).1) :
    Sound (taskYield s) ∧ OneRunning (taskYield s) := by
  unfold taskYield
  dsimp only
  split
  · exact next
  · split
    · exact taskCheckSignals_one next.1 next.2
    · exact next

theorem taskYield_one (sound : Sound s) (one : OneRunning s) : Sound (taskYield s) ∧ OneRunning (taskYield s) :=
  taskYield_settles (reschedule_one sound one)

theorem taskYield_leaves (sound : Sound s)
    (left : ∀ t ∈ s.taskList, t.address = s.currentTask → t.state ≠ .ready ∧ t.state ≠ .running) :
    Sound (taskYield s) ∧ OneRunning (taskYield s) := by
  obtain ⟨soundNext, oneNext, -⟩ := reschedule_leaves sound left
  exact taskYield_settles ⟨soundNext, oneNext⟩

/-! ## The end of a time slice -/

/-- Another ready task comes out above the task: it ranks above it once aged, or
stands before it in the list and ranks no lower. -/
def Rival (tasks : List Task) (cur : Task) : Prop :=
  (∃ t ∈ tasks.takeWhile (·.address ≠ cur.address), t.state = .ready ∧ ¬ Outranks cur (age t)) ∨
    ∃ t ∈ tasks, t.address ≠ cur.address ∧ t.state = .ready ∧ Outranks (age t) cur

instance (tasks : List Task) (cur : Task) : Decidable (Rival tasks cur) := inferInstanceAs (Decidable (_ ∨ _))

theorem rival_modify (rival : Rival s.taskList cur) (kept : ∀ t, (f t).address = t.address)
    (rank : ∀ t, (f t).dynamicPriority = t.dynamicPriority ∧ (f t).waitTicks = t.waitTicks) :
    Rival (modify s cur.address f).taskList (f cur) := by
  have outranks : ∀ t, (Outranks (f cur) t ↔ Outranks cur t) ∧ (Outranks t (f cur) ↔ Outranks t cur) := by
    intro t
    unfold Outranks
    rw [(rank cur).1, (rank cur).2]
    exact ⟨Iff.rfl, Iff.rfl⟩
  unfold Rival at *
  rw [kept]
  rcases rival with ⟨t, early, ready, above⟩ | ⟨t, member, other, ready, above⟩
  · refine Or.inl ⟨t, ?_, ready, fun held => above ((outranks _).1.mp held)⟩
    have hit := List.mem_takeWhile_imp early
    have other : t.address ≠ cur.address := of_decide_eq_true hit
    have unchanged : ∀ u : Task, (if u.address = cur.address then f u else u).address = u.address := by
      intro u
      split
      · exact kept u
      · rfl
    unfold Tasks.modify
    dsimp only
    rw [List.takeWhile_map]
    refine List.mem_map.mpr ⟨t, ?_, if_neg other⟩
    simpa [Function.comp_def, unchanged] using early
  · exact Or.inr ⟨t, mem_modify.mpr ⟨t, member, if_neg other⟩, other, ready, (outranks _).2.mpr above⟩

/-- A task with a rival is not the best choice. -/
theorem rival_not_best (records : Records s) (member : cur ∈ s.taskList) (address : cur.address = s.currentTask)
    (rival : Rival s.taskList cur) (best : Best s.currentTask (s.taskList.map (visit s.currentTask)) b) :
    b.address ≠ s.currentTask := by
  intro same
  obtain ⟨-, before, after, split, above, notAbove⟩ := best
  obtain ⟨early, rest, shape, rfl, tail⟩ := List.map_eq_append_iff.mp split
  obtain ⟨u, late, rfl, rfl, rfl⟩ := List.map_eq_cons_iff.mp tail
  rw [(quiet_visit s.currentTask).address] at same
  have memberU : u ∈ s.taskList := by simp [shape]
  obtain rfl := record_unique records memberU member (same.trans address.symm)
  have itself : visit s.currentTask u = u := by
    unfold visit
    rw [if_neg (fun held => held.1 same)]
  rw [itself] at above notAbove
  have aged : ∀ t, t.address ≠ u.address → t.state = .ready → visit s.currentTask t = age t := by
    intro t other ready
    unfold visit
    rw [if_pos ⟨fun held => other (held.trans same.symm), ready⟩]
  have eligible : ∀ t, t.state = .ready → Eligible s.currentTask (visit s.currentTask t) :=
    fun t ready => Or.inl ((quiet_visit s.currentTask).ready t ready)
  have apart : ∀ t ∈ early, t.address ≠ u.address := by
    intro t memberT held
    have distinct := records.distinct
    rw [shape, List.map_append, List.map_cons, List.nodup_append] at distinct
    exact distinct.2.2 _ (List.mem_map_of_mem memberT) _ List.mem_cons_self held
  have first : s.taskList.takeWhile (·.address ≠ u.address) = early := by
    rw [shape, List.takeWhile_append_of_pos (fun t memberT => decide_eq_true (apart t memberT))]
    simp
  rcases rival with ⟨t, memberT, ready, notBelow⟩ | ⟨t, memberT, other, ready, beats⟩
  · rw [first] at memberT
    have ranks := above _ (List.mem_map_of_mem memberT) (eligible t ready)
    rw [aged t (apart t memberT) ready] at ranks
    exact notBelow ranks
  · rw [shape] at memberT
    rcases List.mem_append.mp memberT with before | behind
    · have ranks := above _ (List.mem_map_of_mem before) (eligible t ready)
      rw [aged t other ready] at ranks
      exact outranks_asymm ranks beats
    · have behind := (List.mem_cons.mp behind).resolve_left fun held => other (held ▸ rfl)
      have ranks := notAbove _ (List.mem_map_of_mem behind) (eligible t ready)
      rw [aged t other ready] at ranks
      exact ranks beats

theorem taskCheckSignals_kills (sound : Sound s) (found : current s = some cur) (killed : Killed cur)
    (alive : cur.state ≠ .dead) : Sound (taskCheckSignals s) ∧ OneRunning (taskCheckSignals s) := by
  obtain ⟨member, address⟩ := current_mem found
  obtain ⟨user, signum, within, held, notIgnored, kills⟩ := killed
  have nonzero : deliverableSignals cur ≠ 0 := by
    intro zero
    rw [zero, Nat.zero_testBit] at held
    cases held
  unfold taskCheckSignals
  rw [found]
  dsimp only
  rw [if_neg (by simp [user, alive]), if_neg nonzero]
  exact checkSignals_kills sound (address ▸ user_not_idle sound member user) _ _ _
    ⟨signum, within, held, notIgnored, kills⟩

/-- A current task that is only ready goes on when it is the best choice, unless
a signal ends it. -/
theorem taskYield_expired (sound : Sound s) (found : current s = some cur) (ready : cur.state = .ready)
    (why : Rival s.taskList cur ∨ Killed cur) : Sound (taskYield s) ∧ OneRunning (taskYield s) := by
  obtain ⟨member, address⟩ := current_mem found
  have visited := sound_quiet sound (quiet_visit s.currentTask)
  rcases reschedule_cases sound with ⟨b, best, same, stays⟩ | ⟨n, best, ne, switched⟩
  · rcases why with rival | killed
    · exact absurd same (rival_not_best sound.records member address rival best)
    · -- neither the choice nor the refill touches a ready current task
      have itself : visit s.currentTask cur = cur := by
        unfold visit
        rw [if_neg (fun held => held.1 address)]
      have unfilled : refill cur = cur := by
        unfold refill
        rw [if_neg (by simp [ready])]
      have next := sound_modify (a := s.currentTask) visited quiet_refill
      have foundNext : current (reschedule s).1 = some cur := by
        rw [stays]
        refine current_of_mem next.records (mem_modify.mpr ⟨cur, ?_, ?_⟩) address
        · exact List.mem_map.mpr ⟨cur, member, itself⟩
        · rw [if_pos address]
          exact unfilled
      have staysSecond : (reschedule s).2 = true := by rw [stays]
      unfold taskYield
      dsimp only
      rw [foundNext]
      dsimp only
      rw [if_pos ⟨staysSecond, killed.1⟩]
      refine taskCheckSignals_kills ?_ foundNext killed (by simp [ready])
      rw [stays]
      exact next
  · refine taskYield_settles ?_
    rw [switched]
    exact switchTo_one visited (best_mem best) ne

/-- The tick ends the current task's slice. -/
def RunsOut (cur : Task) : Prop := cur.yieldRequested = false ∧ cur.sliceRemaining ≤ 1

instance (cur : Task) : Decidable (RunsOut cur) := inferInstanceAs (Decidable (_ ∧ _))

theorem sound_preempt (sound : Sound s) : Sound (modify s s.currentTask preempt) := by
  refine ⟨records_modify sound.records fun t => (preempt_address t).1, ?_, ?_, ?_⟩
  · obtain ⟨t, member, address, user, state⟩ := sound.idle
    refine ⟨_, mem_modify.mpr ⟨t, member, rfl⟩, ?_⟩
    split
    · obtain ⟨addressP, userP⟩ := preempt_address t
      refine ⟨addressP.trans address, userP.trans user, ?_⟩
      unfold preempt
      split
      · exact Or.inl rfl
      · exact state
    · exact ⟨address, user, state⟩
  · exact fun t member running => absurd running (modify_preempt sound t member)
  · obtain ⟨t, member, address⟩ := sound.present
    exact ⟨preempt t, mem_modify.mpr ⟨t, member, if_pos address⟩, (preempt_address t).1.trans address⟩

theorem tickCurrent_one (sound : Sound s) (one : OneRunning s) (found : current s = some cur)
    (running : cur.state = .running) (why : RunsOut cur → Rival s.taskList cur ∨ Killed cur) :
    Sound (tickCurrent s cur) ∧ OneRunning (tickCurrent s cur) := by
  obtain ⟨member, address⟩ := current_mem found
  let counted : Task → Task := fun t => { t with cpuTimeTicks := (t.cpuTimeTicks + 1) % 2 ^ 32 }
  let spent : Task → Task := fun t => { t with sliceRemaining := t.sliceRemaining - 1 }
  have quietCounted : Quiet counted := quiet_fields fun _ => ⟨rfl, rfl, rfl, rfl⟩
  have soundCounted := sound_modify (a := s.currentTask) sound quietCounted
  have oneCounted := one_modify (a := s.currentTask) one quietCounted
  unfold tickCurrent
  dsimp only
  split
  · have quiet : Quiet fun t => { t with yieldRequested := false } := quiet_fields fun _ => ⟨rfl, rfl, rfl, rfl⟩
    exact taskYield_one (sound_modify soundCounted quiet) (one_modify oneCounted quiet)
  · rename_i notRequested
    have calm : Calm spent :=
      ⟨fun _ => rfl, fun _ => rfl, fun _ held => held, fun _ held => held, fun _ held => held⟩
    have soundSpent : Sound (modify (modify s s.currentTask counted) s.currentTask spent) :=
      sound_calm soundCounted (calm_at calm _)
    have inCounted : counted cur ∈ (modify s s.currentTask counted).taskList :=
      mem_modify.mpr ⟨cur, member, if_pos address⟩
    have inSpent : spent (counted cur) ∈ (modify (modify s s.currentTask counted) s.currentTask spent).taskList :=
      mem_modify.mpr ⟨counted cur, inCounted, if_pos address⟩
    split
    · rename_i gone
      have requested : cur.yieldRequested = false := by simpa using notRequested
      have preempted : preempt (spent (counted cur)) = { spent (counted cur) with state := .ready } := if_pos running
      have inPreempted := (mem_modify (f := preempt)).mpr ⟨spent (counted cur), inSpent, if_pos address⟩
      have found := current_of_mem (sound_preempt soundSpent).records inPreempted ((preempt_address _).1.trans address)
      refine taskYield_expired (sound_preempt soundSpent) found ?_ ?_
      · rw [preempted]
      · rcases why ⟨requested, by omega⟩ with rival | killed
        · refine Or.inl ?_
          have first := rival_modify (f := counted) rival (fun _ => rfl) fun _ => ⟨rfl, rfl⟩
          have second := rival_modify (f := spent) first (fun _ => rfl) fun _ => ⟨rfl, rfl⟩
          have third := rival_modify (f := preempt) second (fun t => (preempt_address t).1) preempt_rank
          change Rival (modify (modify (modify s s.currentTask counted) s.currentTask spent) s.currentTask
            preempt).taskList _
          rw [← address]
          exact third
        · refine Or.inr ?_
          rw [preempted]
          exact killed
    · rename_i left
      exact ⟨soundSpent, ⟨spent (counted cur), inSpent, address, running, Nat.pos_of_ne_zero left⟩,
        soundSpent.others⟩

/-! ## The operations -/

theorem taskScheduleTick_one (sound : Sound s) (one : OneRunning s)
    (why : ∀ cur, current s = some cur → RunsOut cur → Rival (s.taskList.map (wakeExpired s.ticks)) cur ∨
    Killed cur) :
    Sound (taskScheduleTick s) ∧ OneRunning (taskScheduleTick s) := by
  have awake := sound_quiet sound (quiet_wakeExpired s.ticks)
  have oneAwake := one_quiet one (quiet_wakeExpired s.ticks)
  obtain ⟨cur, member, address, running, -⟩ := one.current
  have itself : wakeExpired s.ticks cur = cur := by
    unfold wakeExpired
    rw [if_neg (by simp [running])]
  have found : current (taskWakeExpiredSleepers s) = some cur :=
    current_of_mem awake.records (List.mem_map.mpr ⟨cur, member, itself⟩) address
  unfold taskScheduleTick
  dsimp only
  rw [found]
  dsimp only
  rw [running]
  exact tickCurrent_one awake oneAwake found running (why cur (current_of_mem sound.records member address))

/-- The current task takes itself off the processor. -/
theorem yield_away (sound : Sound s) (ne : s.currentTask ≠ idleAddress) (address : ∀ t, (f t).address = t.address)
    (away : ∀ t, (f t).state ≠ .ready ∧ (f t).state ≠ .running) :
    Sound (taskYield (modify s s.currentTask f)) ∧ OneRunning (taskYield (modify s s.currentTask f)) := by
  refine taskYield_leaves (sound_current sound ne address) fun t member same => ?_
  obtain ⟨u, -, -, rfl⟩ := modify_current member same
  exact away u

theorem taskSleep_one (sound : Sound s) (one : OneRunning s) (ne : s.currentTask ≠ idleAddress) (ticks : Nat) :
    Sound (taskSleep s ticks) ∧ OneRunning (taskSleep s ticks) := by
  unfold taskSleep
  split
  · exact ⟨sound, one⟩
  · exact yield_away sound ne (fun _ => rfl) fun _ => ⟨nofun, nofun⟩

theorem modify_one (sound : Sound s) (one : OneRunning s) (quiet : Quiet f) :
    Sound (modify s a f) ∧ OneRunning (modify s a f) := ⟨sound_modify sound quiet, one_modify one quiet⟩

theorem taskUnblock_one (sound : Sound s) (one : OneRunning s) (pid : Nat) :
    Sound (taskUnblock s pid) ∧ OneRunning (taskUnblock s pid) := by
  unfold taskUnblock
  split
  · exact ⟨sound, one⟩
  · exact modify_one sound one quiet_unblock

theorem taskSetPriority_one (sound : Sound s) (one : OneRunning s) (pid priority : Nat) :
    Sound (taskSetPriority s pid priority) ∧ OneRunning (taskSetPriority s pid priority) := by
  unfold taskSetPriority
  dsimp only
  split
  · exact ⟨sound, one⟩
  · exact modify_one sound one (quiet_fields fun _ => ⟨rfl, rfl, rfl, rfl⟩)

theorem taskWake_one (sound : Sound s) (one : OneRunning s) (pid : Nat) :
    Sound (taskWake s pid) ∧ OneRunning (taskWake s pid) := by
  unfold taskWake
  split
  · exact ⟨sound, one⟩
  · rename_i task found
    have member := List.mem_of_find?_eq_some found
    have hit := List.find?_some found
    have asleep : task.state = .sleeping := (of_decide_eq_true hit).2
    -- only the sleeping record that was found is changed
    rw [modify_congr (g := fun t => if t.state = .sleeping then
      { t with state := .ready, wakeTick := 0, waitTicks := 0, sliceRemaining := taskCalculateQuantum t.basePriority }
      else t)]
    · refine modify_one sound one (quiet_waking fun t => ?_)
      split
      · rename_i held
        exact ⟨rfl, rfl, Or.inr ⟨rfl, by simp [held]⟩⟩
      · exact ⟨rfl, rfl, Or.inl ⟨rfl, rfl⟩⟩
    · intro t memberT address
      rw [record_unique sound.records memberT member address, if_pos asleep]

theorem taskWait_one (sound : Sound s) (one : OneRunning s) (ne : s.currentTask ≠ idleAddress) (pid : Nat) :
    Sound (taskWait s pid) ∧ OneRunning (taskWait s pid) := by
  unfold taskWait
  split
  · exact ⟨sound, one⟩
  · rename_i target found
    split
    · have first := modify_one (a := s.currentTask) sound one
        (quiet_fields (g := fun t => { t with exitStatus := target.exitStatus, waitingOnPid := 0 })
          fun _ => ⟨rfl, rfl, rfl, rfl⟩)
      have second := modify_one (a := target.address) first.1 first.2
        (quiet_fields (g := fun t => { t with isZombie := false }) fun _ => ⟨rfl, rfl, rfl, rfl⟩)
      exact ⟨sound_congr second.1 rfl rfl rfl, ⟨second.2.current, second.2.others⟩⟩
    · exact yield_away sound ne (fun _ => rfl) fun _ => ⟨nofun, nofun⟩

theorem taskSendSignal_one (sound : Sound s) (one : OneRunning s) (pid signum : Nat) :
    Sound (taskSendSignal s pid signum) ∧ OneRunning (taskSendSignal s pid signum) := by
  unfold taskSendSignal
  split
  · exact ⟨sound, one⟩
  · split
    · exact ⟨sound, one⟩
    · split
      · exact ⟨sound, one⟩
      · rename_i target _ _
        have sent := modify_one (a := target.address) sound one (quiet_signalled signum)
        dsimp only
        split
        · exact sent
        · split
          · exact taskCheckSignals_one sent.1 sent.2
          · exact sent

theorem taskSetSignalHandler_one (sound : Sound s) (one : OneRunning s) (signum handler : Nat) :
    Sound (taskSetSignalHandler s signum handler) ∧ OneRunning (taskSetSignalHandler s signum handler) := by
  unfold taskSetSignalHandler
  split
  · exact ⟨sound, one⟩
  · exact modify_one sound one (quiet_fields fun _ => ⟨rfl, rfl, rfl, rfl⟩)

theorem taskCreate_others (isUser : Bool)
    (others : ∀ t ∈ s.taskList, t.state = .running → t.address = s.currentTask) :
    ∀ t ∈ (taskCreate s isUser).taskList, t.state = .running → t.address = s.currentTask := by
  intro t member running
  rcases List.mem_cons.mp member with rfl | old
  · cases running
  · obtain ⟨u, memberU, rfl⟩ := mem_modify.mp old
    have quiet := quiet_at (quiet_addChild s.nextPid) s.currentTask
    exact (quiet.address u).trans (others u memberU (calm_back quiet.toCalm running))

theorem taskCreate_sound (sound : Sound s) (isUser : Bool) : Sound (taskCreate s isUser) := by
  obtain ⟨⟨distinct, known⟩, idle, -, present⟩ :=
    sound_modify (a := s.currentTask) sound (quiet_addChild s.nextPid)
  have fresh : s.records ∉ (modify s s.currentTask (taskAddChild s.nextPid)).taskList.map Task.address := by
    intro member
    obtain ⟨t, memberT, same⟩ := List.mem_map.mp member
    exact absurd (known t memberT) (by simp [same])
  refine ⟨⟨List.nodup_cons.mpr ⟨fresh, distinct⟩, fun t member => ?_⟩, ?_,
    taskCreate_others isUser sound.others, ?_⟩
  · rcases List.mem_cons.mp member with rfl | old
    · exact Nat.lt_succ_self _
    · exact Nat.lt_succ_of_lt (known t old)
  · obtain ⟨t, member, rest⟩ := idle
    exact ⟨t, List.mem_cons_of_mem _ member, rest⟩
  · obtain ⟨t, member, rest⟩ := present
    exact ⟨t, List.mem_cons_of_mem _ member, rest⟩

theorem taskCreate_one (sound : Sound s) (one : OneRunning s) (isUser : Bool) :
    Sound (taskCreate s isUser) ∧ OneRunning (taskCreate s isUser) := by
  have oneNext := one_modify (a := s.currentTask) one (quiet_addChild s.nextPid)
  refine ⟨taskCreate_sound sound isUser, ⟨?_, taskCreate_others isUser one.others⟩⟩
  obtain ⟨t, member, rest⟩ := oneNext.current
  exact ⟨t, List.mem_cons_of_mem _ member, rest⟩

/-- Reaping takes dead records out of the list, and nothing else. -/
theorem reapTasks_sublist (kept tasks : List Task) : (reapTasks kept tasks).Sublist (kept ++ tasks) ∧
    ∀ t ∈ kept ++ tasks, t.state ≠ .dead ∨ t ∈ kept → t ∈ reapTasks kept tasks := by
  induction tasks generalizing kept with
  | nil =>
    unfold reapTasks
    rw [List.append_nil]
    exact ⟨List.Sublist.refl _, fun t member _ => member⟩
  | cons u rest ih =>
    unfold reapTasks
    split
    · rename_i reaped
      obtain ⟨below, stays⟩ := ih kept
      refine ⟨below.trans ((List.sublist_cons_self u rest).append_left kept), fun t member why => ?_⟩
      rcases List.mem_append.mp member with old | new
      · exact stays t (List.mem_append_left _ old) (Or.inr old)
      · rcases List.mem_cons.mp new with rfl | later
        · rcases why with alive | old
          · exact absurd reaped.1 alive
          · exact stays t (List.mem_append_left _ old) (Or.inr old)
        · exact stays t (List.mem_append_right _ later) why
    · obtain ⟨below, stays⟩ := ih (kept ++ [u])
      rw [List.append_assoc, List.singleton_append] at below stays
      refine ⟨below, fun t member why => stays t member ?_⟩
      rcases why with alive | old
      · exact Or.inl alive
      · exact Or.inr (List.mem_append_left _ old)

theorem idleCleanup_kept (s : Scheduler) : (idleCleanup s).taskList.Sublist s.taskList ∧
    (∀ t ∈ s.taskList, t.state ≠ .dead → t ∈ (idleCleanup s).taskList) ∧
    (idleCleanup s).currentTask = s.currentTask ∧ (idleCleanup s).records = s.records := by
  unfold idleCleanup
  split
  · obtain ⟨below, stays⟩ := reapTasks_sublist [] s.taskList
    rw [List.nil_append] at below stays
    exact ⟨below, fun t member alive => stays t member (Or.inl alive), rfl, rfl⟩
  · exact ⟨List.Sublist.refl _, fun t member _ => member, rfl, rfl⟩

theorem idleCleanup_sound (sound : Sound s)
    (alive : ∃ t ∈ s.taskList, t.address = s.currentTask ∧ t.state ≠ .dead) :
    Sound (idleCleanup s) := by
  obtain ⟨below, stays, cur, records⟩ := idleCleanup_kept s
  refine ⟨⟨(below.map _).nodup sound.records.distinct, fun t member => ?_⟩, ?_, fun t member => ?_, ?_⟩
  · rw [records]
    exact sound.records.known t (below.subset member)
  · obtain ⟨t, member, address, user, state⟩ := sound.idle
    refine ⟨t, stays t member ?_, address, user, state⟩
    rcases state with ready | running
    · simp [ready]
    · simp [running]
  · rw [cur]
    exact sound.others t (below.subset member)
  · obtain ⟨t, member, address, aliveT⟩ := alive
    exact ⟨t, stays t member aliveT, address.trans cur.symm⟩

theorem idleCleanup_one (sound : Sound s) (one : OneRunning s) :
    Sound (idleCleanup s) ∧ OneRunning (idleCleanup s) := by
  obtain ⟨below, stays, same, -⟩ := idleCleanup_kept s
  obtain ⟨cur, member, address, running, slice⟩ := one.current
  have alive : cur.state ≠ .dead := by simp [running]
  refine ⟨idleCleanup_sound sound ⟨cur, member, address, alive⟩,
    ⟨⟨cur, stays cur member alive, address.trans same.symm, running, slice⟩, fun t memberT => ?_⟩⟩
  rw [same]
  exact one.others t (below.subset memberT)

/-! ## Every run -/

inductive Action where
  | clock
  | scheduleTick
  | yield
  | requestYield
  | block
  | unblock (pid : Nat)
  | sleep (ticks : Nat)
  | wake (pid : Nat)
  | wait (pid : Nat)
  | exit (status : Nat)
  | sendSignal (pid signum : Nat)
  | setSignalHandler (signum handler : Nat)
  | setPriority (pid priority : Nat)
  | create (isUser : Bool)
  | cleanup

def perform (s : Scheduler) : Action → Scheduler
  | .clock => { s with ticks := (s.ticks + 1) % 2 ^ 32 }
  | .scheduleTick => taskScheduleTick s
  | .yield => taskYield s
  | .requestYield => taskRequestYield s
  | .block => taskBlock s
  | .unblock pid => taskUnblock s pid
  | .sleep ticks => taskSleep s ticks
  | .wake pid => taskWake s pid
  | .wait pid => taskWait s pid
  | .exit status => taskExitWithStatus s status
  | .sendSignal pid signum => taskSendSignal s pid signum
  | .setSignalHandler signum handler => taskSetSignalHandler s signum handler
  | .setPriority pid priority => taskSetPriority s pid priority
  | .create isUser => taskCreate s isUser
  | .cleanup => idleCleanup s

/-- The idle task calls nothing that would take it off the processor for good. -/
def Allowed (s : Scheduler) : Action → Prop
  | .block | .sleep _ | .wait _ | .exit _ => s.currentTask ≠ idleAddress
  | _ => True

def Step (s : Scheduler) (action : Action) (t : Scheduler) : Prop := Allowed s action ∧ t = perform s action

/-- A tick that ends the time slice finds a rival for the current task, or a
signal that ends it. -/
def Guard (s : Scheduler) : Action → Prop
  | .scheduleTick => ∀ cur, current s = some cur → RunsOut cur →
      Rival (s.taskList.map (wakeExpired s.ticks)) cur ∨ Killed cur
  | _ => True

theorem perform_one (sound : Sound s) (one : OneRunning s) (guard : Guard s action) (allowed : Allowed s action) :
    Sound (perform s action) ∧ OneRunning (perform s action) := by
  cases action with
  | clock => exact ⟨sound_congr sound rfl rfl rfl, ⟨one.current, one.others⟩⟩
  | scheduleTick => exact taskScheduleTick_one sound one guard
  | yield => exact taskYield_one sound one
  | requestYield => exact modify_one sound one (quiet_fields fun _ => ⟨rfl, rfl, rfl, rfl⟩)
  | block => exact yield_away sound allowed (fun _ => rfl) fun _ => ⟨nofun, nofun⟩
  | unblock pid => exact taskUnblock_one sound one pid
  | sleep ticks => exact taskSleep_one sound one allowed ticks
  | wake pid => exact taskWake_one sound one pid
  | wait pid => exact taskWait_one sound one allowed pid
  | exit status => exact taskExitWithStatus_one sound allowed status
  | sendSignal pid signum => exact taskSendSignal_one sound one pid signum
  | setSignalHandler signum handler => exact taskSetSignalHandler_one sound one signum handler
  | setPriority pid priority => exact taskSetPriority_one sound one pid priority
  | create isUser => exact taskCreate_one sound one isUser
  | cleanup => exact idleCleanup_one sound one

theorem taskInitialize_one : Sound taskInitialize ∧ OneRunning taskInitialize := by
  have idle : Idle taskInitialize := by
    unfold Idle
    decide
  exact ⟨⟨⟨by decide, by decide⟩, idle, by decide, by decide⟩, ⟨by decide, by decide⟩⟩

/-- The current task is the one running task in every state of a run that ends
no time slice without a rival. -/
theorem one_running (run : Run Guard Step taskInitialize s) : OneRunning s := by
  refine (run_invariant (fun s => Sound s ∧ OneRunning s) run taskInitialize_one ?_).2
  rintro t action u ⟨sound, one⟩ guard ⟨allowed, rfl⟩
  exact perform_one sound one guard allowed

def ticks (s : Scheduler) : Nat → Scheduler
  | 0 => s
  | n + 1 => perform (ticks s n) .scheduleTick

theorem ticks_run {guard : Scheduler → Action → Prop} (run : Run guard Step taskInitialize s) {n : Nat}
    (spared : ∀ k < n, guard (ticks s k) .scheduleTick) : Run guard Step taskInitialize (ticks s n) := by
  induction n with
  | zero => exact run
  | succ n ih =>
    have ticked : Step (ticks s n) .scheduleTick (ticks s (n + 1)) := ⟨trivial, rfl⟩
    exact run_then (ih fun k less => spared k (Nat.lt_succ_of_lt less)) (spared n (Nat.lt_succ_self n)) ticked

/-- Ten ticks end the first task's slice, and the task that was created beside it
runs. -/
theorem one_running_ticks : ∃ s, Run Guard Step taskInitialize s ∧ OneRunning s ∧ s.currentTask = 3 := by
  have created : Step taskInitialize (.create false) (perform taskInitialize (.create false)) := ⟨trivial, rfl⟩
  have free : Guard taskInitialize (.create false) := trivial
  have spared (k : Nat) (less : k < 10) : Guard (ticks (perform taskInitialize (.create false)) k) .scheduleTick := by
    have rivals : ∀ k < 10, ∀ cur ∈ current (ticks (perform taskInitialize (.create false)) k), RunsOut cur →
        Rival ((ticks (perform taskInitialize (.create false)) k).taskList.map
          (wakeExpired (ticks (perform taskInitialize (.create false)) k).ticks)) cur ∨ Killed cur := by decide
    exact rivals k less
  have run := ticks_run (run_then .refl free created) spared
  exact ⟨_, run, one_running run, by decide⟩

/-- Ten ticks end the first task's slice with only the idle task beside it, and
the current task is then ready with no slice left. -/
theorem expired_not_running : ¬ ∀ s, Run (fun _ _ => True) Step taskInitialize s → OneRunning s := by
  intro all
  have run : Run (fun _ _ => True) Step taskInitialize (ticks taskInitialize 10) := ticks_run .refl fun _ _ => trivial
  obtain ⟨t, member, -, running, slice⟩ := (all _ run).current
  revert slice running
  revert t
  decide

end

end MeowMeowOS.RunningTask

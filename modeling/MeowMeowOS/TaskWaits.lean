import MeowMeowOS.TaskOutcomes

/-! `task_wait`, with what its calls came to. A call comes back when its target
has exited, as long as no signal reaches a task that waits. -/
namespace MeowMeowOS.TaskWaits
open Tasks RunningTask TaskOutcomes GuardedRuns

/-- The scheduler, the target of each call of `task_wait` that has not come back
yet, and the status that each task ended with. Tasks are named by their records. -/
structure Waits where
  sched : Scheduler
  inside : Nat → Option Nat
  exits : Nat → Option Nat

/-- The status of a record that is dead. -/
def statusOf (s : Scheduler) (a : Nat) : Option Nat :=
  (s.taskList.find? fun t => t.address = a ∧ t.state = .dead).map Task.exitStatus

/-- A task that is dead for the first time gets the status it now has. -/
def observe (exits : Nat → Option Nat) (s : Scheduler) (a : Nat) : Option Nat := (exits a).or (statusOf s a)

def enter (w : Waits) : Action → Nat → Option Nat
  | .wait pid =>
    match taskGetByPid w.sched pid with
    | none => w.inside
    | some target => Function.update w.inside w.sched.currentTask (some target.address)
  | _ => w.inside

inductive Event where
  | act (action : Action)
  | waitReturns

/-- What an interrupt does, whatever the current task is at. -/
def Interrupt : Action → Prop
  | .clock | .scheduleTick | .unblock _ | .wake _ | .sendSignal _ _ => True
  | _ => False

def act (w : Waits) (action : Action) : Waits :=
  ⟨perform w.sched action, enter w action, observe w.exits (perform w.sched action)⟩

/-- A task inside `task_wait` does nothing of its own before the call is back. -/
def Moves (w : Waits) : Event → Waits → Prop
  | .act action, v => Allowed w.sched action ∧ (Interrupt action ∨ w.inside w.sched.currentTask = none) ∧
      v = act w action
  | .waitReturns, v => w.inside w.sched.currentTask ≠ none ∧
      v = { w with inside := Function.update w.inside w.sched.currentTask none }

/-- No signal is sent to a task that waits, and no pid is given out twice. -/
def Spares (w : Waits) : Event → Prop
  | .act (.sendSignal pid signum) =>
    0 < signum → signum < nsig → ∀ t, taskGetByPid w.sched pid = some t → t.state ≠ .waiting
  | .act (.create _) => ∀ t ∈ w.sched.taskList, t.pid ≠ w.sched.nextPid
  | _ => True

def start : Waits := ⟨taskInitialize, fun _ => none, fun _ => none⟩

/-- The call of `task_wait` that the current task is in has its answer. -/
def Answered (w : Waits) : Prop :=
  ∃ cur target, current w.sched = some cur ∧ w.inside cur.address = some target ∧
    w.exits target = some cur.exitStatus

/-- What the calls of `task_wait` leave behind. -/
structure Books (s : Scheduler) (inside exits : Nat → Option Nat) : Prop where
  pids : (s.taskList.map Task.pid).Nodup
  fresh : ∀ a, s.records ≤ a → inside a = none ∧ exits a = none
  dead : ∀ t ∈ s.taskList, exits t.address = if t.state = .dead then some t.exitStatus else none
  waiting : ∀ t ∈ s.taskList, t.state = .waiting →
    ∃ u ∈ s.taskList, inside t.address = some u.address ∧ u.state ≠ .dead ∧ u.pid = t.waitingOnPid
  woken : ∀ t ∈ s.taskList, t.state ≠ .waiting → t.state ≠ .dead → ∀ a, inside t.address = some a →
    exits a = some t.exitStatus

section
variable {s v : Scheduler} {w last : Waits} {t u : Task} {a : Nat} {inside exits : Nat → Option Nat}
  {f : Task → Task}

theorem pid_unique (books : Books s inside exits) (left : t ∈ s.taskList) (right : u ∈ s.taskList)
    (same : t.pid = u.pid) : t = u := List.inj_on_of_nodup_map books.pids left right same

theorem pids_map {g : Task → Task} (books : Books s inside exits) (list : v.taskList = s.taskList.map g)
    (pid : ∀ t ∈ s.taskList, (g t).pid = t.pid) : (v.taskList.map Task.pid).Nodup := by
  have same : v.taskList.map Task.pid = s.taskList.map Task.pid := by
    rw [list, List.map_map]
    exact List.map_congr_left pid
  rw [same]
  exact books.pids

theorem statusOf_mem (records : Records s) (member : t ∈ s.taskList) :
    statusOf s t.address = if t.state = .dead then some t.exitStatus else none := by
  unfold statusOf
  cases found : s.taskList.find? fun u => u.address = t.address ∧ u.state = .dead with
  | none =>
    have missing := List.find?_eq_none.mp found t member
    have alive : t.state ≠ .dead := by simpa using missing
    rw [if_neg alive]
    rfl
  | some u =>
    have hit := List.find?_some found
    obtain ⟨address, dead⟩ := of_decide_eq_true hit
    obtain rfl := record_unique records (List.mem_of_find?_eq_some found) member address
    rw [if_pos dead]
    rfl

theorem statusOf_unknown (unknown : ∀ t ∈ s.taskList, t.address ≠ a) : statusOf s a = none := by
  unfold statusOf
  rw [List.find?_eq_none.mpr fun t member => by simp [unknown t member]]
  rfl

theorem observe_some (known : exits a = some status) : observe exits s a = some status := by
  unfold observe
  rw [known]
  rfl

theorem observe_none (unknown : exits a = none) : observe exits s a = statusOf s a := by
  unfold observe
  rw [unknown]
  rfl

theorem fresh_observed (books : Books s inside exits) (records : Records v) (kept : s.records ≤ v.records) :
    ∀ a, v.records ≤ a → inside a = none ∧ observe exits v a = none := by
  intro a above
  obtain ⟨outside, unknown⟩ := books.fresh a (kept.trans above)
  refine ⟨outside, (observe_none unknown).trans (statusOf_unknown fun t member same => ?_)⟩
  exact absurd (records.known t member) (by omega)

theorem dead_observed (books : Books s inside exits) (records : Records v) (before : t ∈ s.taskList)
    (after : u ∈ v.taskList) (address : u.address = t.address)
    (stays : t.state = .dead → u.state = .dead ∧ u.exitStatus = t.exitStatus) :
    observe exits v u.address = if u.state = .dead then some u.exitStatus else none := by
  have known := books.dead t before
  rw [← address] at known
  by_cases dead : t.state = .dead
  · obtain ⟨deadNext, status⟩ := stays dead
    rw [if_pos dead] at known
    rw [if_pos deadNext, status]
    exact observe_some known
  · rw [if_neg dead] at known
    rw [observe_none known]
    exact statusOf_mem records after

theorem books_neutral (books : Books s inside exits) (records : Records v) (neutral : Neutral s v) :
    Books v inside (observe exits v) := by
  obtain ⟨g, list, alike, count⟩ := neutral
  have member : ∀ t ∈ s.taskList, g t ∈ v.taskList := fun t memberT => list ▸ List.mem_map_of_mem memberT
  have origin : ∀ t ∈ v.taskList, ∃ u ∈ s.taskList, g u = t :=
    fun t memberT => List.mem_map.mp (list ▸ memberT)
  refine ⟨pids_map books list fun t memberT => (alike t memberT).pid, fresh_observed books records count.ge,
    ?_, ?_, ?_⟩
  · intro t memberT
    obtain ⟨u, memberU, rfl⟩ := origin t memberT
    have same := alike u memberU
    exact dead_observed books records memberU memberT same.address fun dead => ⟨same.dead.mpr dead, same.exitStatus⟩
  · intro t memberT waiting
    obtain ⟨u, memberU, rfl⟩ := origin t memberT
    have same := alike u memberU
    obtain ⟨target, memberTarget, inTarget, alive, pid⟩ := books.waiting u memberU (same.waiting.mp waiting)
    have sameTarget := alike target memberTarget
    refine ⟨g target, member target memberTarget, ?_, fun held => alive (sameTarget.dead.mp held), ?_⟩
    · rw [same.address, sameTarget.address]
      exact inTarget
    · rw [sameTarget.pid, same.waitingOnPid]
      exact pid
  · intro t memberT notWaiting alive b inB
    obtain ⟨u, memberU, rfl⟩ := origin t memberT
    have same := alike u memberU
    rw [same.address] at inB
    rw [same.exitStatus]
    exact observe_some (books.woken u memberU (fun held => notWaiting (same.waiting.mpr held))
      (fun held => alive (same.dead.mpr held)) b inB)

theorem ended_alive {pid status cur : Nat} (ended : Ended pid status cur t u) (other : t.address ≠ cur)
    (alive : t.state ≠ .dead) : u.state ≠ .dead := by
  by_cases waiter : t.state = .waiting ∧ t.waitingOnPid = pid
  · exact (ended.waiters other waiter.1 waiter.2).2.1
  · exact fun held => alive ((ended.others other waiter).dead.mp held)

/-- The tasks that an exit wakes waited for the task that exits. -/
theorem books_ends (books : Books s inside exits) (records : Records s) (recordsNext : Records v)
    (awake : ∀ t ∈ s.taskList, t.address = s.currentTask → t.state ≠ .dead) (ends : Ends s v) :
    Books v inside (observe exits v) := by
  obtain ⟨cur, memberCur, addressCur, status, g, list, ended, count⟩ := ends
  have member : ∀ t ∈ s.taskList, g t ∈ v.taskList := fun t memberT => list ▸ List.mem_map_of_mem memberT
  have origin : ∀ t ∈ v.taskList, ∃ u ∈ s.taskList, g u = t :=
    fun t memberT => List.mem_map.mp (list ▸ memberT)
  have dead : ∀ t ∈ v.taskList,
    observe exits v t.address = if t.state = .dead then some t.exitStatus else none := by
    intro t memberT
    obtain ⟨u, memberU, rfl⟩ := origin t memberT
    have now := ended u memberU
    refine dead_observed books recordsNext memberU memberT now.same.1 fun held => ?_
    have other : u.address ≠ s.currentTask := fun own => awake u memberU own held
    have same := now.others other fun waiter => by simp [held] at waiter
    exact ⟨same.dead.mpr held, same.exitStatus⟩
  have exited : observe exits v cur.address = some status := by
    have now := ended cur memberCur
    obtain ⟨deadNow, statusNow⟩ := now.own addressCur
    have noted := dead (g cur) (member cur memberCur)
    rw [if_pos deadNow, statusNow, now.same.1] at noted
    exact noted
  refine ⟨pids_map books list fun t memberT => (ended t memberT).same.2, fresh_observed books recordsNext count.ge,
    dead, ?_, ?_⟩
  · intro t memberT waiting
    obtain ⟨u, memberU, rfl⟩ := origin t memberT
    have now := ended u memberU
    have other : u.address ≠ s.currentTask := fun own => by
      rw [(now.own own).1] at waiting
      cases waiting
    have notWaiter : ¬ (u.state = .waiting ∧ u.waitingOnPid = cur.pid) := fun waiter =>
      (now.waiters other waiter.1 waiter.2).1 waiting
    have same := now.others other notWaiter
    have waitingU := same.waiting.mp waiting
    obtain ⟨target, memberTarget, inTarget, alive, pid⟩ := books.waiting u memberU waitingU
    have nowTarget := ended target memberTarget
    have otherTarget : target.address ≠ s.currentTask := fun own => by
      obtain rfl := record_unique records memberTarget memberCur (own.trans addressCur.symm)
      exact notWaiter ⟨waitingU, pid.symm⟩
    refine ⟨g target, member target memberTarget, ?_, ended_alive nowTarget otherTarget alive, ?_⟩
    · rw [same.address, nowTarget.same.1]
      exact inTarget
    · rw [nowTarget.same.2, same.waitingOnPid]
      exact pid
  · intro t memberT notWaiting alive b inB
    obtain ⟨u, memberU, rfl⟩ := origin t memberT
    have now := ended u memberU
    have other : u.address ≠ s.currentTask := fun own => alive (now.own own).1
    rw [now.same.1] at inB
    by_cases waiter : u.state = .waiting ∧ u.waitingOnPid = cur.pid
    · obtain ⟨target, memberTarget, inTarget, -, pid⟩ := books.waiting u memberU waiter.1
      obtain rfl := pid_unique books memberTarget memberCur (pid.trans waiter.2)
      obtain rfl := Option.some.inj (inTarget.symm.trans inB)
      rw [(now.waiters other waiter.1 waiter.2).2.2]
      exact exited
    · have same := now.others other waiter
      rw [same.exitStatus]
      exact observe_some (books.woken u memberU (fun held => notWaiting (same.waiting.mpr held))
        (fun held => alive (same.dead.mpr held)) b inB)

theorem books_outcome (books : Books s inside exits) (records : Records s) (recordsNext : Records v)
    (awake : ∀ t ∈ s.taskList, t.address = s.currentTask → t.state ≠ .dead) (outcome : Outcome s v) :
    Books v inside (observe exits v) := by
  rcases outcome with neutral | ends
  · exact books_neutral books recordsNext neutral
  · exact books_ends books records recordsNext awake ends

/-- What holds of the scheduler together with what its calls left behind. -/
def Kept (w : Waits) : Prop := Live w.sched ∧ Books w.sched w.inside w.exits

theorem kept_outcome (kept : Kept w) (next : Live v ∧ Outcome w.sched v) :
    Kept ⟨v, w.inside, observe w.exits v⟩ := by
  obtain ⟨live, books⟩ := kept
  obtain ⟨liveNext, outcome⟩ := next
  exact ⟨liveNext, books_outcome books live.sound.records liveNext.sound.records (live_alive live) outcome⟩

/-! ## The calls of task_wait -/

/-- The current task enters `task_wait`. It now waits for a task that is not
dead, or has the status of one that is. -/
theorem books_enter (books : Books s inside exits) (records : Records s) (memberT : t ∈ s.taskList)
    (address : t.address = s.currentTask) (able : t.state = .ready ∨ t.state = .running) (memberU : u ∈ s.taskList)
    (same : ∀ t, (f t).address = t.address ∧ (f t).pid = t.pid) (alive : (f t).state ≠ .dead)
    (waits : (f t).state = .waiting → u.state ≠ .dead ∧ u.pid = (f t).waitingOnPid)
    (goesOn : (f t).state ≠ .waiting → exits u.address = some (f t).exitStatus) :
    Books (modify s s.currentTask f) (Function.update inside s.currentTask (some u.address)) exits := by
  have resting : t.state ≠ .waiting ∧ t.state ≠ .dead := by
    rcases able with ready | running
    · simp [ready]
    · simp [running]
  have cases : ∀ v ∈ (modify s s.currentTask f).taskList,
      v = f t ∨ v ∈ s.taskList ∧ v.address ≠ s.currentTask := by
    intro v memberV
    obtain ⟨x, memberX, rfl⟩ := mem_modify.mp memberV
    by_cases own : x.address = s.currentTask
    · rw [if_pos own, record_unique records memberX memberT (own.trans address.symm)]
      exact Or.inl rfl
    · rw [if_neg own]
      exact Or.inr ⟨memberX, own⟩
  have target : ∀ v ∈ s.taskList, v.state ≠ .dead → ∃ x ∈ (modify s s.currentTask f).taskList,
      x.address = v.address ∧ x.state ≠ .dead ∧ x.pid = v.pid := by
    intro v memberV aliveV
    refine ⟨_, mem_modify.mpr ⟨v, memberV, rfl⟩, ?_⟩
    by_cases own : v.address = s.currentTask
    · rw [if_pos own]
      obtain rfl := record_unique records memberV memberT (own.trans address.symm)
      exact ⟨(same v).1, alive, (same v).2⟩
    · rw [if_neg own]
      exact ⟨rfl, aliveV, rfl⟩
  have inOwn : Function.update inside s.currentTask (some u.address) (f t).address = some u.address := by
    rw [(same t).1, address, Function.update_self]
  refine ⟨?_, fun b above => ?_, fun v memberV => ?_, fun v memberV waiting => ?_,
    fun v memberV notWaiting aliveV b inB => ?_⟩
  · refine pids_map books rfl fun v _ => ?_
    split
    · exact (same v).2
    · rfl
  · obtain ⟨outside, unknown⟩ := books.fresh b above
    have other : b ≠ s.currentTask := by
      have known := records.known t memberT
      simp only [modify_records] at above
      omega
    exact ⟨(Function.update_of_ne other _ _).trans outside, unknown⟩
  · rcases cases v memberV with rfl | ⟨memberS, -⟩
    · rw [if_neg alive, (same t).1, books.dead t memberT, if_neg resting.2]
    · exact books.dead v memberS
  · rcases cases v memberV with rfl | ⟨memberS, other⟩
    · obtain ⟨aliveU, pid⟩ := waits waiting
      obtain ⟨x, memberX, addressX, aliveX, pidX⟩ := target u memberU aliveU
      exact ⟨x, memberX, addressX ▸ inOwn, aliveX, pidX.trans pid⟩
    · obtain ⟨x, memberX, inX, aliveX, pidX⟩ := books.waiting v memberS waiting
      obtain ⟨y, memberY, addressY, aliveY, pidY⟩ := target x memberX aliveX
      refine ⟨y, memberY, ?_, aliveY, pidY.trans pidX⟩
      rw [Function.update_of_ne other, addressY]
      exact inX
  · rcases cases v memberV with rfl | ⟨memberS, other⟩
    · obtain rfl := Option.some.inj (inOwn.symm.trans inB)
      exact goesOn notWaiting
    · rw [Function.update_of_ne other] at inB
      exact books.woken v memberS notWaiting aliveV b inB

theorem kept_wait (kept : Kept w) (ne : w.sched.currentTask ≠ idleAddress) (pid : Nat) :
    Kept ⟨taskWait w.sched pid, enter w (.wait pid), observe w.exits (taskWait w.sched pid)⟩ := by
  obtain ⟨live, books⟩ := kept
  obtain ⟨cur, member, address, able⟩ := live.awake
  have records := live.sound.records
  unfold taskWait enter
  dsimp only
  cases found : taskGetByPid w.sched pid with
  | none => exact kept_outcome ⟨live, books⟩ ⟨live, Or.inl (neutral_refl _)⟩
  | some target =>
    obtain ⟨memberTarget, pidTarget⟩ := taskGetByPid_mem found
    dsimp only
    by_cases dead : target.state = .dead
    · rw [if_pos dead]
      have known := books.dead target memberTarget
      rw [if_pos dead] at known
      let answered : Task → Task := fun t => { t with exitStatus := target.exitStatus, waitingOnPid := 0 }
      let reaped : Task → Task := fun t => { t with isZombie := false }
      have liveOwn : Live (modify w.sched w.sched.currentTask answered) :=
        live_modify live (quiet_fields fun _ => ⟨rfl, rfl, rfl, rfl⟩)
      have entered := books_enter (f := answered) books records member address able memberTarget
        (fun _ => ⟨rfl, rfl⟩) (by rcases able with ready | running <;> simp [answered, *])
        (fun waiting => by rcases able with ready | running <;> simp [answered, *] at waiting) fun _ => known
      have liveLast : Live (modify (modify w.sched w.sched.currentTask answered) target.address reaped) :=
        live_modify liveOwn (quiet_fields fun _ => ⟨rfl, rfl, rfl, rfl⟩)
      have same := neutral_modify (s := modify w.sched w.sched.currentTask answered) (a := target.address)
        (f := reaped) fun t _ _ => ⟨rfl, rfl, rfl, rfl, Iff.rfl, Iff.rfl⟩
      exact kept_outcome (w := ⟨_, _, w.exits⟩) ⟨liveOwn, entered⟩
        ⟨⟨sound_congr liveLast.sound rfl rfl rfl, liveLast.awake⟩, Or.inl same⟩
    · rw [if_neg dead]
      let waits : Task → Task := fun t => { t with state := .waiting, waitingOnPid := pid, wakeTick := 0 }
      have soundOwn : Sound (modify w.sched w.sched.currentTask waits) := sound_current live.sound ne fun _ => rfl
      have entered := books_enter (f := waits) books records member address able memberTarget
        (fun _ => ⟨rfl, rfl⟩) (by simp [waits]) (fun _ => ⟨dead, pidTarget⟩) fun held => absurd rfl held
      obtain ⟨liveNext, outcome⟩ := taskYield_outcome soundOwn
      refine ⟨liveNext,
        books_outcome entered soundOwn.records liveNext.sound.records (fun t memberT own => ?_) outcome⟩
      obtain ⟨u, -, -, rfl⟩ := modify_current memberT own
      exact nofun

/-- The caller goes on after `task_wait`. -/
theorem kept_returns (kept : Kept w) :
    Kept { w with inside := Function.update w.inside w.sched.currentTask none } := by
  obtain ⟨live, books⟩ := kept
  refine ⟨live, books.pids, fun b above => ?_, books.dead, fun t member waiting => ?_,
    fun t member notWaiting alive b inB => ?_⟩
  · obtain ⟨outside, unknown⟩ := books.fresh b above
    refine ⟨?_, unknown⟩
    dsimp only
    rw [Function.update_apply]
    split
    · rfl
    · exact outside
  · have other : t.address ≠ w.sched.currentTask := fun own => by
      rcases live_able live member own with ready | running
      · simp [ready] at waiting
      · simp [running] at waiting
    dsimp only
    rw [Function.update_of_ne other]
    exact books.waiting t member waiting
  · dsimp only at inB
    rw [Function.update_apply] at inB
    split at inB
    · cases inB
    · exact books.woken t member notWaiting alive b inB

/-! ## The records come and go -/

theorem observe_below (books : Books s inside exits) (below : ∀ t ∈ v.taskList, t ∈ s.taskList) :
    observe exits v = exits := by
  funext b
  cases known : exits b with
  | some status => exact observe_some known
  | none =>
    rw [observe_none known]
    unfold statusOf
    rw [List.find?_eq_none.mpr fun t member => ?_]
    · rfl
    · intro held
      obtain ⟨rfl, dead⟩ := of_decide_eq_true held
      have noted := books.dead t (below t member)
      rw [if_pos dead, known] at noted
      cases noted

theorem kept_create (kept : Kept w) (isUser : Bool) (fresh : ∀ t ∈ w.sched.taskList, t.pid ≠ w.sched.nextPid) :
    Kept ⟨taskCreate w.sched isUser, w.inside, observe w.exits (taskCreate w.sched isUser)⟩ := by
  let m := modify w.sched w.sched.currentTask (taskAddChild w.sched.nextPid)
  have alike : ∀ t ∈ w.sched.taskList, t.address = w.sched.currentTask →
    Alike t (taskAddChild w.sched.nextPid t) := by
    intro t _ _
    unfold taskAddChild
    split <;> exact ⟨rfl, rfl, rfl, rfl, Iff.rfl, Iff.rfl⟩
  obtain ⟨-, books⟩ := kept_outcome kept ⟨live_modify (a := w.sched.currentTask) kept.1
    (quiet_addChild w.sched.nextPid), Or.inl (neutral_modify alike)⟩
  have live := taskCreate_live kept.1 isUser
  have outside : ∀ t ∈ m.taskList, t.pid ≠ w.sched.nextPid := by
    intro t member
    obtain ⟨u, memberU, rfl⟩ := mem_modify.mp member
    split
    · rename_i own
      rw [(alike u memberU own).pid]
      exact fresh u memberU
    · exact fresh u memberU
  obtain ⟨noCall, noStatus⟩ := books.fresh w.sched.records le_rfl
  have list : (taskCreate w.sched isUser).taskList =
      newTask w.sched.records w.sched.nextPid (((current w.sched).map Task.pid).getD 0) isUser :: m.taskList := rfl
  -- a new record is not dead, so it changes no status
  have same : observe w.exits (taskCreate w.sched isUser) = observe w.exits m := by
    funext b
    unfold observe statusOf
    rw [list, List.find?_cons_of_neg (by simp [newTask])]
  refine ⟨live, ?_⟩
  dsimp only
  rw [same]
  refine ⟨?_, fun b above => books.fresh b (Nat.le_of_succ_le above), fun t member => ?_, fun t member waiting => ?_,
    fun t member notWaiting alive b inB => ?_⟩
  · rw [list, List.map_cons]
    refine List.nodup_cons.mpr ⟨fun member => ?_, books.pids⟩
    obtain ⟨t, memberT, pid⟩ := List.mem_map.mp member
    exact outside t memberT pid
  · rcases List.mem_cons.mp member with rfl | old
    · exact noStatus
    · exact books.dead t old
  · rcases List.mem_cons.mp member with rfl | old
    · cases waiting
    · obtain ⟨u, memberU, rest⟩ := books.waiting t old waiting
      exact ⟨u, List.mem_cons_of_mem _ memberU, rest⟩
  · rcases List.mem_cons.mp member with rfl | old
    · change w.inside w.sched.records = some b at inB
      rw [noCall] at inB
      cases inB
    · exact books.woken t old notWaiting alive b inB

theorem kept_cleanup (kept : Kept w) :
    Kept ⟨idleCleanup w.sched, w.inside, observe w.exits (idleCleanup w.sched)⟩ := by
  obtain ⟨live, books⟩ := kept
  obtain ⟨below, stays, -, records⟩ := idleCleanup_kept w.sched
  refine ⟨idleCleanup_live live, ?_⟩
  dsimp only
  rw [observe_below books below.subset]
  refine ⟨(below.map _).nodup books.pids, fun b above => books.fresh b (records ▸ above),
    fun t member => books.dead t (below.subset member), fun t member waiting => ?_,
    fun t member => books.woken t (below.subset member)⟩
  obtain ⟨u, memberU, inU, alive, pid⟩ := books.waiting t (below.subset member) waiting
  exact ⟨u, stays u memberU alive, inU, alive, pid⟩

/-! ## Every run -/

theorem kept_act (kept : Kept w) (action : Action) (allowed : Allowed w.sched action)
    (spared : Spares w (.act action)) :
    Kept (act w action) := by
  have live := kept.1
  cases action with
  | clock => exact kept_outcome kept ⟨⟨sound_congr live.sound rfl rfl rfl, live.awake⟩, Or.inl (neutral_refl _)⟩
  | scheduleTick => exact kept_outcome kept (taskScheduleTick_outcome live)
  | yield => exact kept_outcome kept (taskYield_outcome live.sound)
  | requestYield =>
    exact kept_outcome kept (modify_outcome live (quiet_fields fun _ => ⟨rfl, rfl, rfl, rfl⟩)
      fun t _ _ => ⟨rfl, rfl, rfl, rfl, Iff.rfl, Iff.rfl⟩)
  | block =>
    exact kept_outcome kept (yield_moved live (sound_current live.sound allowed fun _ => rfl)
      (fun _ => ⟨rfl, rfl, rfl, rfl⟩) fun _ => ⟨nofun, nofun⟩)
  | unblock pid => exact kept_outcome kept (taskUnblock_outcome live pid)
  | sleep ticks => exact kept_outcome kept (taskSleep_outcome live allowed ticks)
  | wake pid => exact kept_outcome kept (taskWake_outcome live pid)
  | wait pid => exact kept_wait kept allowed pid
  | exit status =>
    obtain ⟨liveNext, ends⟩ := taskExitWithStatus_ends live.sound allowed status
    exact kept_outcome kept ⟨liveNext, Or.inr ends⟩
  | sendSignal pid signum => exact kept_outcome kept (taskSendSignal_outcome live pid signum spared)
  | setSignalHandler signum handler => exact kept_outcome kept (taskSetSignalHandler_outcome live signum handler)
  | setPriority pid priority => exact kept_outcome kept (taskSetPriority_outcome live pid priority)
  | create isUser => exact kept_create kept isUser spared
  | cleanup => exact kept_cleanup kept

theorem kept_start : Kept start := by
  obtain ⟨sound, one⟩ := taskInitialize_one
  obtain ⟨t, member, address, running, -⟩ := one.current
  exact ⟨⟨sound, t, member, address, Or.inr running⟩, by decide, fun _ _ => ⟨rfl, rfl⟩, by decide, by decide,
    nofun⟩

theorem run_kept (run : Run Spares Moves start w) : Kept w := by
  refine run_invariant Kept run kept_start ?_
  rintro w (action | _) v kept spared moved
  · obtain ⟨allowed, -, rfl⟩ := moved
    exact kept_act kept action allowed spared
  · obtain ⟨-, rfl⟩ := moved
    exact kept_returns kept

/-- A call of `task_wait` comes back once its target is dead, and with the status
that the target ended with. -/
theorem wait_answered (run : Run Spares Moves start w) (returns : Moves w .waitReturns last) : Answered w := by
  obtain ⟨live, books⟩ := run_kept run
  obtain ⟨cur, member, address, able⟩ := live.awake
  obtain ⟨target, inTarget⟩ := Option.ne_none_iff_exists'.mp returns.1
  rw [← address] at inTarget
  refine ⟨cur, target, current_of_mem live.sound.records member address, inTarget, ?_⟩
  rcases able with ready | running
  · exact books.woken cur member (by simp [ready]) (by simp [ready]) target inTarget
  · exact books.woken cur member (by simp [running]) (by simp [running]) target inTarget

/-- The first task starts a user task and waits for it. -/
def waiting : Waits := act (act start (.create true)) (.wait 3)

theorem waiting_run {guard : Waits → Event → Prop} (create : guard start (.act (.create true)))
    (wait : guard (act start (.create true)) (.act (.wait 3))) : Run guard Moves start waiting := by
  have created : Moves start (.act (.create true)) (act start (.create true)) := ⟨trivial, Or.inr rfl, rfl⟩
  have waits : Moves (act start (.create true)) (.act (.wait 3)) waiting :=
    ⟨(by decide : (act start (.create true)).sched.currentTask ≠ idleAddress), Or.inr (by decide), rfl⟩
  exact run_then (run_then .refl create created) wait waits

theorem wait_answered_exit : Answered (act waiting (.exit 7)) := by
  have exits : Moves waiting (.act (.exit 7)) (act waiting (.exit 7)) :=
    ⟨(by decide : waiting.sched.currentTask ≠ idleAddress), Or.inr (by decide), rfl⟩
  have fresh : Spares start (.act (.create true)) :=
    (by decide : ∀ t ∈ start.sched.taskList, t.pid ≠ start.sched.nextPid)
  have spared : Spares waiting (.act (.exit 7)) := trivial
  have run := run_then (waiting_run fresh trivial) spared exits
  have returns : Moves (act waiting (.exit 7)) .waitReturns _ := ⟨by decide, rfl⟩
  exact wait_answered run returns

/-- The task that is waited for sends `SIGTERM` to the one that waits, and gives
up the processor. The call is then back with its target still ready. -/
theorem signal_ends_wait :
    ¬ ∀ w v, Run (fun _ _ => True) Moves start w → Moves w .waitReturns v → Answered w := by
  intro all
  let told := act (act waiting (.sendSignal 1 15)) .yield
  have sent : Moves waiting (.act (.sendSignal 1 15)) (act waiting (.sendSignal 1 15)) :=
    ⟨trivial, Or.inl trivial, rfl⟩
  have yields : Moves (act waiting (.sendSignal 1 15)) (.act .yield) told := ⟨trivial, Or.inr (by decide), rfl⟩
  have run : Run (fun _ _ => True) Moves start told :=
    run_then (run_then (waiting_run trivial trivial) trivial sent) trivial yields
  have returns : Moves told .waitReturns _ := ⟨by decide, rfl⟩
  obtain ⟨cur, target, found, inTarget, exited⟩ := all told _ run returns
  have own : (current told.sched).map Task.address = some 1 := by decide
  rw [found] at own
  rw [Option.some.inj own, (by decide : told.inside 1 = some 3)] at inTarget
  rw [← Option.some.inj inTarget, (by decide : told.exits 3 = none)] at exited
  cases exited

end

end MeowMeowOS.TaskWaits

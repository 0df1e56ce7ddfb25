import Mathlib.Data.List.Nodup
import Mathlib.Data.Nat.Bitwise

/-! The tasks of `task.c`. Each operation runs under `task_lock` with interrupts
off, so it is one step of the machine, up to the point where another task goes
on. -/
namespace MeowMeowOS.Tasks

inductive TaskState where
  | ready
  | running
  | waiting
  | blocked
  | sleeping
  | dead
  deriving DecidableEq, Repr

/-- A record of the task list. `address` tells it from every other record that
was ever allocated. -/
structure Task where
  address : Nat
  pid : Nat
  state : TaskState
  basePriority : Nat
  dynamicPriority : Nat
  waitTicks : Nat
  quantum : Nat
  sliceRemaining : Nat
  cpuTimeTicks : Nat
  waitingOnPid : Nat
  wakeTick : Nat
  parentPid : Nat
  exitStatus : Nat
  childPids : List Nat
  isUser : Bool
  yieldRequested : Bool
  isZombie : Bool
  pendingSignals : Nat
  signalMask : Nat
  signalHandlers : List Nat
  deriving DecidableEq

structure Scheduler where
  taskList : List Task
  currentTask : Nat
  nextPid : Nat
  needsCleanup : Bool
  ticks : Nat
  records : Nat

def priorityIdle : Nat := 0
def priorityNormal : Nat := 2
def priorityMax : Nat := 4
def starvationThreshold : Nat := 50
def maxChildren : Nat := 16
def nsig : Nat := 32
def sigIgn : Nat := 1

def taskCalculateQuantum : Nat → Nat
  | 0 => 2
  | 1 => 5
  | 2 => 10
  | 3 => 20
  | 4 => 30
  | _ => 10

def current (s : Scheduler) : Option Task := s.taskList.find? (·.address = s.currentTask)

def taskGetByPid (s : Scheduler) (pid : Nat) : Option Task := s.taskList.find? (·.pid = pid)

/-- `task->field = value` through a pointer to a record of the list. -/
def modify (s : Scheduler) (address : Nat) (f : Task → Task) : Scheduler :=
  { s with taskList := s.taskList.map fun t => if t.address = address then f t else t }

/-! ## Choosing the next task -/

def wakeExpired (now : Nat) (t : Task) : Task :=
  if t.state = .sleeping ∧ t.wakeTick ≠ 0 ∧ t.wakeTick ≤ now then
    { t with state := .ready, wakeTick := 0, waitTicks := 0 }
  else t

def taskWakeExpiredSleepers (s : Scheduler) : Scheduler :=
  { s with taskList := s.taskList.map (wakeExpired s.ticks) }

/-- One more tick in the queue, and the boost that comes at the threshold. -/
def age (t : Task) : Task :=
  let t := { t with waitTicks := (t.waitTicks + 1) % 2 ^ 32 }
  if starvationThreshold ≤ t.waitTicks ∧ t.dynamicPriority < priorityMax then
    { t with dynamicPriority := t.dynamicPriority + 1, waitTicks := 0 }
  else t

def visit (address : Nat) (t : Task) : Task :=
  if t.address ≠ address ∧ t.state = .ready then age t else t

def Eligible (address : Nat) (t : Task) : Prop :=
  t.state = .ready ∨ (t.address = address ∧ t.state = .running)

instance (address : Nat) (t : Task) : Decidable (Eligible address t) := inferInstanceAs (Decidable (_ ∨ _))

def Outranks (t best : Task) : Prop :=
  best.dynamicPriority < t.dynamicPriority ∨
    (t.dynamicPriority = best.dynamicPriority ∧ best.waitTicks < t.waitTicks)

instance (t best : Task) : Decidable (Outranks t best) := inferInstanceAs (Decidable (_ ∨ _))

def better (address : Nat) (best : Option Task) (t : Task) : Option Task :=
  if Eligible address t then
    match best with
    | none => some t
    | some b => if Outranks t b then some t else some b
  else best

/-- The loop of `task_find_next_ready` from one record of the list on. -/
def findNextReady (address : Nat) : List Task → Option Task → List Task × Option Task
  | [], best => ([], best)
  | t :: rest, best =>
    let t := visit address t
    let (rest, best) := findNextReady address rest (better address best t)
    (t :: rest, best)

def taskFindNextReady (s : Scheduler) : Scheduler × Option Task :=
  let (tasks, best) := findNextReady s.currentTask s.taskList none
  ({ s with taskList := tasks }, best)

/-! ## Giving up the processor -/

/-- What leaving the processor does to a task that still runs. -/
def preempt (t : Task) : Task := if t.state = .running then { t with state := .ready } else t

/-- What getting the processor does to a task. -/
def dispatch (t : Task) : Task :=
  { t with
    state := .running
    dynamicPriority := t.basePriority
    waitTicks := 0
    quantum := taskCalculateQuantum t.basePriority
    sliceRemaining := taskCalculateQuantum t.basePriority }

/-- The part of `task_yield` that makes another task the current one. -/
def switchTo (s : Scheduler) (next : Task) : Scheduler :=
  modify { modify s s.currentTask preempt with currentTask := next.address } next.address dispatch

def refill (t : Task) : Task :=
  if t.state = .running then { t with sliceRemaining := taskCalculateQuantum t.basePriority } else t

/-- `task_yield` up to its test for signals; true when the current task stays. -/
def reschedule (s : Scheduler) : Scheduler × Bool :=
  let (s, next) := taskFindNextReady s
  match next with
  | none => (modify s s.currentTask refill, true)
  | some next =>
    if next.address = s.currentTask then (modify s s.currentTask refill, true)
    else (switchTo s next, false)

/-- What the exit of task `pid` does to a task that may be waiting for it. -/
def wakeWaiter (pid exitStatus : Nat) (t : Task) : Task :=
  if t.state = .waiting ∧ t.waitingOnPid = pid then
    { t with state := .ready, waitingOnPid := 0, exitStatus := exitStatus }
  else t

/-- `task_exit_with_status`; its loop of yields ends at the first task found. -/
def taskExitWithStatus (s : Scheduler) (status : Nat) : Scheduler :=
  match current s with
  | none => s
  | some cur =>
    let s := modify s s.currentTask fun t =>
      { t with exitStatus := status % 2 ^ 32, state := .dead, isZombie := true }
    let waited := s.taskList.any fun t => t.state = .waiting ∧ t.waitingOnPid = cur.pid
    let s := { s with taskList := s.taskList.map (wakeWaiter cur.pid (status % 2 ^ 32)), needsCleanup := true }
    (reschedule (modify s s.currentTask fun t => { t with isZombie := !waited })).1

/-- The signals that end a task: `SIGINT`, `SIGKILL`, `SIGSEGV`, `SIGFPE`,
`SIGILL`, `SIGTERM` and `SIGABRT`. -/
def deadly : List Nat := [2, 9, 11, 8, 4, 15, 6]

def clearSignal (signum : Nat) (t : Task) : Task :=
  { t with pendingSignals := t.pendingSignals - if t.pendingSignals.testBit signum then 2 ^ signum else 0 }

/-- The loop of `task_check_signals` over the signals that are left. -/
def checkSignals (deliverable : Nat) (handlers : List Nat) (s : Scheduler) : List Nat → Scheduler
  | [] => s
  | signum :: rest =>
    if deliverable.testBit signum then
      let s := modify s s.currentTask (clearSignal signum)
      if handlers.getD signum 0 = sigIgn then checkSignals deliverable handlers s rest
      else if signum ∈ deadly then taskExitWithStatus s (128 + signum)
      else checkSignals deliverable handlers s rest
    else checkSignals deliverable handlers s rest

/-- `pending_signals & ~signal_mask` -/
def deliverableSignals (t : Task) : Nat :=
  t.pendingSignals &&& (2 ^ 32 - 1 - t.signalMask % 2 ^ 32)

def taskCheckSignals (s : Scheduler) : Scheduler :=
  match current s with
  | none => s
  | some cur =>
    if ¬ cur.isUser ∨ cur.state = .dead then s
    else if deliverableSignals cur = 0 then s
    else checkSignals (deliverableSignals cur) cur.signalHandlers s (List.range' 1 (nsig - 1))

def taskYield (s : Scheduler) : Scheduler :=
  let (s, stays) := reschedule s
  match current s with
  | none => s
  | some cur => if stays ∧ cur.isUser then taskCheckSignals s else s

/-! ## The operations -/

/-- `task_schedule_tick` for a current task that is neither dead nor asleep. -/
def tickCurrent (s : Scheduler) (cur : Task) : Scheduler :=
  let s := modify s s.currentTask fun t => { t with cpuTimeTicks := (t.cpuTimeTicks + 1) % 2 ^ 32 }
  if cur.yieldRequested then taskYield (modify s s.currentTask fun t => { t with yieldRequested := false })
  else
    let s := modify s s.currentTask fun t => { t with sliceRemaining := t.sliceRemaining - 1 }
    if cur.sliceRemaining - 1 = 0 then taskYield (modify s s.currentTask preempt) else s

def taskScheduleTick (s : Scheduler) : Scheduler :=
  let s := taskWakeExpiredSleepers s
  match current s with
  | none => s
  | some cur =>
    match cur.state with
    | .dead => taskYield s
    | .blocked | .sleeping | .waiting => s
    | .ready | .running => tickCurrent s cur

def taskBlock (s : Scheduler) : Scheduler :=
  taskYield (modify s s.currentTask fun t => { t with state := .blocked, sliceRemaining := 0 })

def unblock (t : Task) : Task :=
  if t.state = .blocked then
    { t with state := .ready, waitTicks := 0, sliceRemaining := taskCalculateQuantum t.basePriority }
  else t

def taskUnblock (s : Scheduler) (pid : Nat) : Scheduler :=
  match taskGetByPid s pid with
  | none => s
  | some task => modify s task.address unblock

def taskSetPriority (s : Scheduler) (pid priority : Nat) : Scheduler :=
  let priority := if priorityMax < priority % 2 ^ 8 then priorityMax else priority % 2 ^ 8
  match taskGetByPid s pid with
  | none => s
  | some task => modify s task.address fun t =>
      { t with basePriority := priority, dynamicPriority := priority, quantum := taskCalculateQuantum priority }

def taskSleep (s : Scheduler) (ticks : Nat) : Scheduler :=
  if ticks = 0 then s
  else taskYield (modify s s.currentTask fun t =>
    { t with state := .sleeping, wakeTick := (s.ticks + ticks) % 2 ^ 32, sliceRemaining := 0 })

def taskWake (s : Scheduler) (pid : Nat) : Scheduler :=
  match s.taskList.find? fun t => t.pid = pid ∧ t.state = .sleeping with
  | none => s
  | some task => modify s task.address fun t =>
      { t with state := .ready, wakeTick := 0, waitTicks := 0, sliceRemaining := taskCalculateQuantum t.basePriority }

def taskRequestYield (s : Scheduler) : Scheduler :=
  modify s s.currentTask fun t => { t with yieldRequested := true }

def taskWait (s : Scheduler) (pid : Nat) : Scheduler :=
  match taskGetByPid s pid with
  | none => s
  | some target =>
    if target.state = .dead then
      let s := modify s s.currentTask fun t => { t with exitStatus := target.exitStatus, waitingOnPid := 0 }
      { modify s target.address fun t => { t with isZombie := false } with needsCleanup := true }
    else
      taskYield (modify s s.currentTask fun t => { t with state := .waiting, waitingOnPid := pid, wakeTick := 0 })

/-- The change that a signal makes to its target. -/
def signalled (signum : Nat) (t : Task) : Task :=
  let t := { t with pendingSignals := t.pendingSignals ||| 2 ^ signum }
  if t.state = .blocked ∨ t.state = .sleeping ∨ t.state = .waiting then
    { t with state := .ready, wakeTick := 0, sliceRemaining := taskCalculateQuantum t.basePriority }
  else t

def taskSendSignal (s : Scheduler) (pid signum : Nat) : Scheduler :=
  if signum = 0 ∨ nsig ≤ signum then s
  else
    match taskGetByPid s pid with
    | none => s
    | some target =>
      if target.state = .dead then s
      else
        let s := modify s target.address (signalled signum)
        match current s with
        | none => s
        | some cur => if cur.pid = pid ∧ cur.isUser then taskCheckSignals s else s

/-- `task_set_signal_handler`, which refuses `SIGKILL`. -/
def taskSetSignalHandler (s : Scheduler) (signum handler : Nat) : Scheduler :=
  if signum = 0 ∨ nsig ≤ signum ∨ signum = 9 then s
  else modify s s.currentTask fun t => { t with signalHandlers := t.signalHandlers.set signum handler }

def taskAddChild (pid : Nat) (t : Task) : Task :=
  if maxChildren ≤ t.childPids.length ∨ pid ∈ t.childPids then t else { t with childPids := t.childPids ++ [pid] }

/-- A record as `task_create` and `task_create_user` fill it. -/
def newTask (address pid parentPid : Nat) (isUser : Bool) : Task where
  address := address
  pid := pid
  state := .ready
  basePriority := priorityNormal
  dynamicPriority := priorityNormal
  waitTicks := 0
  quantum := taskCalculateQuantum priorityNormal
  sliceRemaining := taskCalculateQuantum priorityNormal
  cpuTimeTicks := 0
  waitingOnPid := 0
  wakeTick := 0
  parentPid := parentPid
  exitStatus := 0
  childPids := []
  isUser := isUser
  yieldRequested := false
  isZombie := false
  pendingSignals := 0
  signalMask := 0
  signalHandlers := List.replicate nsig 0

def taskCreate (s : Scheduler) (isUser : Bool) : Scheduler :=
  let parentPid := ((current s).map Task.pid).getD 0
  let task := newTask s.records s.nextPid parentPid isUser
  let s := modify s s.currentTask (taskAddChild s.nextPid)
  { s with
    taskList := task :: s.taskList
    nextPid := (s.nextPid + 1) % 2 ^ 32
    records := s.records + 1 }

def taskCanReap (tasks : List Task) (t : Task) : Bool :=
  if t.state ≠ .dead then false
  else if ¬ t.isZombie ∨ t.parentPid = 0 then true
  else
    match tasks.find? (·.pid = t.parentPid) with
    | none => true
    | some parent =>
      if parent.state = .dead then true
      else decide (parent.state = .waiting ∧ parent.waitingOnPid = t.pid)

/-- The loop of the idle task over the records that it has not seen yet. -/
def reapTasks : List Task → List Task → List Task
  | kept, [] => kept
  | kept, t :: rest =>
    if t.state = .dead ∧ taskCanReap (kept ++ t :: rest) t then reapTasks kept rest
    else reapTasks (kept ++ [t]) rest

def idleCleanup (s : Scheduler) : Scheduler :=
  if s.needsCleanup then { s with taskList := reapTasks [] s.taskList, needsCleanup := false } else s

def rootAddress : Nat := 1
def idleAddress : Nat := 2

/-- The kernel shell runs as the first task, and the idle task is the second. -/
def taskInitialize : Scheduler :=
  let root := { newTask rootAddress 1 0 false with state := .running }
  taskSetPriority (taskCreate ⟨[root], rootAddress, 2, false, 0, idleAddress⟩ false) 2 priorityIdle

/-! ## Records of the list -/

section
variable {s : Scheduler} {a : Nat} {f : Task → Task} {t : Task}

@[simp] theorem modify_currentTask : (modify s a f).currentTask = s.currentTask := rfl

@[simp] theorem modify_records : (modify s a f).records = s.records := rfl

theorem mem_modify : t ∈ (modify s a f).taskList ↔ ∃ u ∈ s.taskList, (if u.address = a then f u else u) = t :=
  List.mem_map

/-- The records have different addresses, all of them already given out. -/
structure Records (s : Scheduler) : Prop where
  distinct : (s.taskList.map Task.address).Nodup
  known : ∀ t ∈ s.taskList, t.address < s.records

theorem record_unique (records : Records s) (left : t ∈ s.taskList) (right : u ∈ s.taskList)
    (same : t.address = u.address) : t = u :=
  List.inj_on_of_nodup_map records.distinct left right same

theorem current_mem (found : current s = some t) : t ∈ s.taskList ∧ t.address = s.currentTask := by
  have hit := List.find?_some found
  exact ⟨List.mem_of_find?_eq_some found, of_decide_eq_true hit⟩

theorem current_of_mem (records : Records s) (member : t ∈ s.taskList) (address : t.address = s.currentTask) :
    current s = some t := by
  cases found : current s with
  | none =>
    have missing := List.find?_eq_none.mp found t member
    exact absurd (decide_eq_true address) missing
  | some u =>
    obtain ⟨memberU, addressU⟩ := current_mem found
    rw [record_unique records memberU member (addressU.trans address.symm)]

theorem modify_congr (same : ∀ t ∈ s.taskList, t.address = a → f t = g t) : modify s a f = modify s a g := by
  have lists : (modify s a f).taskList = (modify s a g).taskList := by
    refine List.map_congr_left fun t member => ?_
    split
    · rename_i address
      exact same t member address
    · rfl
  exact congrArg (fun tasks => ({ s with taskList := tasks } : Scheduler)) lists

theorem taskGetByPid_mem (found : taskGetByPid s pid = some t) : t ∈ s.taskList ∧ t.pid = pid := by
  have hit := List.find?_some found
  exact ⟨List.mem_of_find?_eq_some found, of_decide_eq_true hit⟩

theorem records_map (records : Records s) (g : Task → Task) (address : ∀ t, (g t).address = t.address) :
    Records { s with taskList := s.taskList.map g } := by
  refine ⟨?_, fun t member => ?_⟩
  · dsimp only
    rw [List.map_map, show Task.address ∘ g = Task.address from funext address]
    exact records.distinct
  · obtain ⟨u, memberU, rfl⟩ := List.mem_map.mp member
    rw [address]
    exact records.known u memberU

theorem records_modify (records : Records s) (address : ∀ t, (f t).address = t.address) : Records (modify s a f) := by
  refine records_map records _ fun t => ?_
  split
  · exact address t
  · rfl

theorem quantum_positive (priority : Nat) : 0 < taskCalculateQuantum priority := by
  unfold taskCalculateQuantum
  split <;> decide

end

end MeowMeowOS.Tasks

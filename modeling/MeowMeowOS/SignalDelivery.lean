import MeowMeowOS.TaskRecords
import Mathlib.Data.Nat.Find

/-! Signals from one test for them to the next. What a task was sent stands in
its pending bits, and the test goes through them in order of their numbers. -/
namespace MeowMeowOS.SignalDelivery
open GuardedRuns Tasks RunningTask TaskRecords

/-- The numbers that `task_send_signal` and `task_set_signal_handler` accept. -/
def Valid (signum : Int) : Prop := 0 < signum ∧ signum < 32

instance (signum : Int) : Decidable (Valid signum) := inferInstanceAs (Decidable (_ ∧ _))

/-- `task_send_signal` for any `int`. -/
def sendSignal (s : Scheduler) (pid : Nat) (signum : Int) : Scheduler :=
  if signum ≤ 0 then s else taskSendSignal s pid signum.toNat

/-- `task_set_signal_handler` for any `int`. -/
def setSignalHandler (s : Scheduler) (signum : Int) (handler : Nat) : Scheduler :=
  if signum ≤ 0 then s else taskSetSignalHandler s signum.toNat handler

/-- What `task_send_signal` does to its target, before the target tests for
signals if it is the current task. -/
def post (s : Scheduler) (pid : Nat) (signum : Int) : Scheduler :=
  match taskGetByPid s pid with
  | none => s
  | some target =>
    if Valid signum ∧ target.state ≠ .dead then modify s target.address (signalled signum.toNat) else s

/-- The target of the signal is alive, a user task and the current task. -/
def TestsAtOnce (s : Scheduler) (pid : Nat) (signum : Int) : Prop :=
  Valid signum ∧ (∃ target, taskGetByPid s pid = some target ∧ target.state ≠ .dead) ∧
    ∃ cur, current (post s pid signum) = some cur ∧ cur.pid = pid ∧ cur.isUser = true

/-! ## What a task was sent -/

inductive Event where
  | handle (signum : Int) (handler : Nat)
  | post (signum : Int)
  | elsewhere

/-- The task sets a handler, or is sent a signal by whatever task is current, or
something happens that leaves its signals alone. -/
def Moves (a : Nat) (s : Scheduler) : Event → Scheduler → Prop
  | .handle signum handler, u => s.currentTask = a ∧ u = setSignalHandler s signum handler
  | .post signum, u => ∃ t, record s a = some t ∧ t.state ≠ .dead ∧ taskGetByPid s t.pid = some t ∧
      u = post s t.pid signum
  | .elsewhere, u => ∀ t, record s a = some t → ∃ v, record u a = some v ∧ v.isUser = t.isUser ∧
      v.pendingSignals = t.pendingSignals ∧ v.signalMask = t.signalMask ∧ v.signalHandlers = t.signalHandlers

inductive History (a : Nat) (s : Scheduler) : List Event → Scheduler → Prop
  | nil : History a s [] s
  | snoc (history : History a s events u) (moves : Moves a u event w) : History a s (events ++ [event]) w

def Sent (events : List Event) (k : Nat) : Prop := Event.post k ∈ events ∧ Valid k

/-- The handlers after one event. -/
def handled (handlers : Nat → Nat) : Event → Nat → Nat
  | .handle signum handler =>
    if Valid signum ∧ signum ≠ 9 then Function.update handlers signum.toNat handler else handlers
  | _ => handlers

/-- The task was sent a signal that ends it and does not ignore it now. -/
def Fatal (handlers : Nat → Nat) (events : List Event) (k : Nat) : Prop :=
  Sent events k ∧ k ∈ deadly ∧ events.foldl handled handlers k ≠ sigIgn

/-- The record of a task, in terms of what happened since its last test. -/
structure Noted (handlers : Nat → Nat) (events : List Event) (t : Task) : Prop where
  user : t.isUser = true
  mask : t.signalMask = 0
  count : t.signalHandlers.length = nsig
  pending : ∀ k, t.pendingSignals.testBit k = true ↔ Sent events k
  handlers : ∀ k < nsig, t.signalHandlers.getD k 0 = events.foldl handled handlers k

/-- The test ends task `a` with such a status. -/
def Exits (s : Scheduler) (a status : Nat) : Prop :=
  ∃ t, record (taskCheckSignals s) a = some t ∧ t.state = .dead ∧ t.exitStatus = status

section
variable {s u w : Scheduler} {a k pid : Nat} {t : Task} {events : List Event} {handlers : Nat → Nat}

theorem sendSignal_invalid (invalid : ¬ Valid signum) : sendSignal s pid signum = s := by
  unfold sendSignal
  split
  · rfl
  · rename_i positive
    have large : nsig ≤ signum.toNat := by
      have notValid : ¬ (0 < signum ∧ signum < 32) := invalid
      change 32 ≤ signum.toNat
      omega
    unfold taskSendSignal
    rw [if_pos (Or.inr large)]

theorem setSignalHandler_invalid (invalid : ¬ Valid signum) : setSignalHandler s signum handler = s := by
  unfold setSignalHandler
  split
  · rfl
  · rename_i positive
    have large : nsig ≤ signum.toNat := by
      have notValid : ¬ (0 < signum ∧ signum < 32) := invalid
      change 32 ≤ signum.toNat
      omega
    unfold taskSetSignalHandler
    rw [if_pos (Or.inr (Or.inl large))]

/-- A signal is noted, and the current task tests for it at once. -/
theorem sendSignal_post (s : Scheduler) (pid : Nat) (signum : Int) :
    (TestsAtOnce s pid signum → sendSignal s pid signum = taskCheckSignals (post s pid signum)) ∧
      (¬ TestsAtOnce s pid signum → sendSignal s pid signum = post s pid signum) := by
  by_cases valid : Valid signum
  · have number : ¬ (signum.toNat = 0 ∨ nsig ≤ signum.toNat) := by
      have bounds : 0 < signum ∧ signum < 32 := valid
      change ¬ (signum.toNat = 0 ∨ 32 ≤ signum.toNat)
      omega
    have positive : ¬ signum ≤ 0 := by
      have bounds : 0 < signum ∧ signum < 32 := valid
      omega
    unfold TestsAtOnce sendSignal taskSendSignal
    rw [if_neg positive, if_neg number]
    unfold post
    cases found : taskGetByPid s pid with
    | none =>
      refine ⟨?_, fun _ => rfl⟩
      rintro ⟨-, ⟨_, same, -⟩, -⟩
      cases same
    | some target =>
      dsimp only
      by_cases dead : target.state = .dead
      · rw [if_pos dead, if_neg fun held => held.2 dead]
        refine ⟨?_, fun _ => rfl⟩
        rintro ⟨-, ⟨t, same, alive⟩, -⟩
        exact absurd (Option.some.inj same ▸ dead) alive
      · rw [if_neg dead, if_pos ⟨valid, dead⟩]
        cases own : current (modify s target.address (signalled signum.toNat)) with
        | none =>
          refine ⟨?_, fun _ => rfl⟩
          rintro ⟨-, -, _, same, -⟩
          cases same
        | some cur =>
          dsimp only
          constructor
          · rintro ⟨-, -, t, same, rest⟩
            rw [if_pos (Option.some.inj same ▸ rest)]
          · intro notOwn
            rw [if_neg fun rest => notOwn ⟨valid, ⟨target, rfl, dead⟩, cur, rfl, rest⟩]
  · have same : post s pid signum = s := by
      unfold post
      split
      · rfl
      · rw [if_neg fun held => valid held.1]
    rw [same]
    exact ⟨fun tests => absurd tests.1 valid, fun _ => sendSignal_invalid valid⟩

/-! ## What stands in the record -/

theorem sent_append (event : Event) :
    Sent (events ++ [event]) k ↔ Sent events k ∨ (event = .post k ∧ Valid k) := by
  unfold Sent
  rw [List.mem_append, List.mem_singleton, or_and_right, eq_comm]

theorem noted_handle (noted : Noted handlers events t) (valid : Valid signum) (notKill : signum ≠ 9) :
    Noted handlers (events ++ [.handle signum handler])
      { t with signalHandlers := t.signalHandlers.set signum.toNat handler } := by
  have bounds : 0 < signum ∧ signum < 32 := valid
  refine ⟨noted.user, noted.mask, (List.length_set ..).trans noted.count, fun k => ?_, fun k small => ?_⟩
  · rw [sent_append]
    exact (noted.pending k).trans (or_iff_left fun held => by cases held.1).symm
  · have inside : signum.toNat < t.signalHandlers.length := by
      rw [noted.count]
      change signum.toNat < 32
      omega
    rw [List.foldl_append, List.foldl_cons, List.foldl_nil, handled, if_pos ⟨valid, notKill⟩, Function.update_apply]
    by_cases same : k = signum.toNat
    · rw [if_pos same, same]
      simp [inside]
    · rw [if_neg same, ← noted.handlers k small]
      simp [List.getD_eq_getElem?_getD, List.getElem?_set_ne (Ne.symm same)]

theorem noted_post (noted : Noted handlers events t) (valid : Valid signum) :
    Noted handlers (events ++ [.post signum]) (signalled signum.toNat t) := by
  have bounds : 0 < signum ∧ signum < 32 := valid
  have fields : (signalled signum.toNat t).isUser = t.isUser ∧
    (signalled signum.toNat t).signalMask = t.signalMask ∧
      (signalled signum.toNat t).signalHandlers = t.signalHandlers ∧
      (signalled signum.toNat t).pendingSignals = t.pendingSignals ||| 2 ^ signum.toNat := by
    unfold signalled
    dsimp only
    split <;> exact ⟨rfl, rfl, rfl, rfl⟩
  obtain ⟨user, mask, table, pending⟩ := fields
  refine ⟨user.trans noted.user, mask.trans noted.mask, table ▸ noted.count, fun k => ?_, fun k small => ?_⟩
  · rw [pending, Nat.testBit_or, Bool.or_eq_true, noted.pending k, Nat.testBit_two_pow, decide_eq_true_eq, sent_append]
    refine or_congr_right ⟨fun same => ?_, fun held => ?_⟩
    · have number : signum = k := by omega
      exact ⟨congrArg Event.post number, number ▸ valid⟩
    · have number : signum = k := Event.post.inj held.1
      omega
  · rw [table, noted.handlers k small, List.foldl_append]
    rfl

/-- An event that changes nothing for the task. -/
theorem noted_skip (noted : Noted handlers events t) (event : Event)
    (notSent : ∀ k : Nat, event = .post k → ¬ Valid k)
    (same : ∀ h, handled h event = h) : Noted handlers (events ++ [event]) t := by
  refine ⟨noted.user, noted.mask, noted.count, fun k => ?_, fun k small => ?_⟩
  · rw [sent_append]
    exact (noted.pending k).trans (or_iff_left fun held => notSent k held.1 held.2).symm
  · rw [List.foldl_append, List.foldl_cons, List.foldl_nil, same]
    exact noted.handlers k small

/-- One event is noted in the record. -/
theorem moves_noted (found : record s a = some t) (noted : Noted handlers events t) (moves : Moves a s event u) :
    ∃ v, record u a = some v ∧ Noted handlers (events ++ [event]) v := by
  cases event with
  | handle signum handler =>
    obtain ⟨own, rfl⟩ := moves
    by_cases valid : Valid signum ∧ signum ≠ 9
    · have bounds : 0 < signum ∧ signum < 32 := valid.1
      have accepted : ¬ (signum.toNat = 0 ∨ nsig ≤ signum.toNat ∨ signum.toNat = 9) := by
        have notKill := valid.2
        change ¬ (signum.toNat = 0 ∨ 32 ≤ signum.toNat ∨ signum.toNat = 9)
        omega
      let set : Task → Task := fun t => { t with signalHandlers := t.signalHandlers.set signum.toNat handler }
      have stored := record_modify (s := s) (a := a) (f := set) fun _ => rfl
      refine ⟨set t, ?_, noted_handle noted valid.1 valid.2⟩
      unfold setSignalHandler taskSetSignalHandler
      rw [if_neg (by omega), if_neg accepted, own]
      rw [found] at stored
      exact stored
    · refine ⟨t, ?_, noted_skip noted _ (fun _ same => by cases same) fun h => ?_⟩
      · by_cases kill : signum = 9
        · rw [kill]
          exact found
        · rw [setSignalHandler_invalid fun held => valid ⟨held, kill⟩]
          exact found
      · rw [handled, if_neg valid]
  | post signum =>
    obtain ⟨t', found', alive, target, rfl⟩ := moves
    obtain rfl := Option.some.inj (found.symm.trans found')
    unfold post
    rw [target]
    dsimp only
    by_cases valid : Valid signum
    · rw [if_pos ⟨valid, alive⟩, (record_mem found).2]
      refine ⟨_, ?_, noted_post noted valid⟩
      rw [record_modify (quiet_signalled _).address, found]
      rfl
    · rw [if_neg fun held => valid held.1]
      exact ⟨t, found, noted_skip noted _ (fun k same held => valid (Event.post.inj same ▸ held)) fun _ => rfl⟩
  | elsewhere =>
    obtain ⟨v, foundV, user, pending, mask, table⟩ := moves t found
    refine ⟨v, foundV, noted_skip ?_ _ (fun _ same => by cases same) fun _ => rfl⟩
    refine ⟨user.trans noted.user, mask.trans noted.mask, table ▸ noted.count, fun k => ?_, fun k small => ?_⟩
    · rw [pending]
      exact noted.pending k
    · rw [table]
      exact noted.handlers k small

theorem history_noted (found : record s a = some t) (noted : Noted handlers [] t) (history : History a s events u) :
    ∃ v, record u a = some v ∧ Noted handlers events v := by
  induction history with
  | nil => exact ⟨t, found, noted⟩
  | snoc _ moves ih =>
    obtain ⟨v, foundV, notedV⟩ := ih
    exact moves_noted foundV notedV moves

/-! ## Pending bits -/

theorem testBit_clear (bit : x.testBit i = true) (j : Nat) :
    (x - 2 ^ i).testBit j = (x.testBit j && decide (i ≠ j)) := by
  rw [Nat.testBit_eq_decide_div_mod_eq, decide_eq_true_eq] at bit
  have low := Nat.mod_lt x (Nat.two_pow_pos i)
  have split := Nat.div_add_mod x (2 ^ i)
  obtain ⟨q, odd⟩ : ∃ q, x / 2 ^ i = 2 * q + 1 := ⟨x / 2 ^ i / 2, by omega⟩
  rw [odd] at split
  generalize x % 2 ^ i = r at low split
  have rest : x - 2 ^ i = 2 ^ i * (2 * q) + r := by
    rw [← split, Nat.mul_add]
    omega
  rw [rest, ← split, Nat.testBit_two_pow_mul_add _ low, Nat.testBit_two_pow_mul_add _ low]
  by_cases below : j < i
  · rw [if_pos below, if_pos below]
    simp [Nat.ne_of_gt below]
  · rw [if_neg below, if_neg below]
    obtain ⟨d, rfl⟩ := Nat.exists_eq_add_of_le (Nat.le_of_not_lt below)
    rw [Nat.add_sub_cancel_left]
    cases d with
    | zero => simp
    | succ d =>
      rw [Nat.testBit_add_one, Nat.testBit_add_one, (by omega : 2 * q / 2 = q), (by omega : (2 * q + 1) / 2 = q)]
      simp

/-- The pending bits after the test has gone through so many signals. -/
def clearedBits (deliverable : Nat) : List Nat → Nat → Nat
  | [], pending => pending
  | k :: rest, pending =>
    clearedBits deliverable rest
      (if deliverable.testBit k then pending - if pending.testBit k then 2 ^ k else 0 else pending)

theorem clearedBits_testBit (deliverable : Nat) (sigs : List Nat) (pending j : Nat) :
    (clearedBits deliverable sigs pending).testBit j =
      (pending.testBit j && !(decide (j ∈ sigs) && deliverable.testBit j)) := by
  induction sigs generalizing pending with
  | nil => simp [clearedBits]
  | cons k rest ih =>
    rw [clearedBits, ih]
    by_cases held : deliverable.testBit k = true
    · rw [if_pos held]
      by_cases bit : pending.testBit k = true
      · rw [if_pos bit, testBit_clear bit]
        by_cases same : j = k
        · simp [same, held]
        · simp [same, Ne.symm same]
      · rw [if_neg bit, Nat.sub_zero]
        by_cases same : j = k
        · simp [same, bit]
        · simp [same]
    · rw [if_neg held]
      by_cases same : j = k
      · simp [same, held]
      · simp [same]

/-! ## The test -/

/-- The test ends the task at signal `k`. -/
def Kills (deliverable : Nat) (table : List Nat) (k : Nat) : Prop :=
  deliverable.testBit k = true ∧ table.getD k 0 ≠ sigIgn ∧ k ∈ deadly

theorem checkSignals_skip (harmless : ¬ Kills deliverable table k) :
    checkSignals deliverable table s (k :: rest) = checkSignals deliverable table
      (if deliverable.testBit k then modify s s.currentTask (clearSignal k) else s) rest := by
  rw [checkSignals]
  by_cases held : deliverable.testBit k = true
  · rw [if_pos held, if_pos held]
    dsimp only
    split
    · rfl
    · rename_i notIgnored
      rw [if_neg fun kills => harmless ⟨held, notIgnored, kills⟩]
  · rw [if_neg held, if_neg held]

/-- Every signal that the test goes through without ending the task is cleared. -/
theorem checkSignals_clears (found : record s a = some t) (own : s.currentTask = a)
    (harmless : ∀ k ∈ sigs, ¬ Kills deliverable table k) :
    record (checkSignals deliverable table s sigs) a =
      some { t with pendingSignals := clearedBits deliverable sigs t.pendingSignals } := by
  induction sigs generalizing s t with
  | nil => exact found
  | cons k rest ih =>
    rw [checkSignals_skip (harmless k List.mem_cons_self)]
    have later : ∀ k ∈ rest, ¬ Kills deliverable table k :=
      fun k member => harmless k (List.mem_cons_of_mem _ member)
    rw [clearedBits]
    split
    · have cleared := record_modify (s := s) (a := a) (f := clearSignal k) fun _ => rfl
      rw [found] at cleared
      rw [own]
      exact ih cleared own later
    · exact ih found own later

theorem checkSignals_ends (found : record s a = some t) (own : s.currentTask = a)
    (harmless : ∀ k ∈ before, ¬ Kills deliverable table k) (kills : Kills deliverable table k) :
    ∃ u v, checkSignals deliverable table s (before ++ k :: after) = taskExitWithStatus u (128 + k) ∧
      u.currentTask = a ∧ record u a = some v := by
  induction before generalizing s t with
  | nil =>
    obtain ⟨held, notIgnored, deadlySignal⟩ := kills
    have cleared := record_modify (s := s) (a := a) (f := clearSignal k) fun _ => rfl
    rw [found] at cleared
    refine ⟨modify s a (clearSignal k), clearSignal k t, ?_, own, cleared⟩
    rw [List.nil_append, checkSignals, if_pos held]
    dsimp only
    rw [if_neg notIgnored, if_pos deadlySignal, own]
  | cons j rest ih =>
    rw [List.cons_append, checkSignals_skip (harmless j List.mem_cons_self)]
    have later : ∀ k ∈ rest, ¬ Kills deliverable table k :=
      fun k member => harmless k (List.mem_cons_of_mem _ member)
    split
    · have cleared := record_modify (s := s) (a := a) (f := clearSignal j) fun _ => rfl
      rw [found] at cleared
      rw [own]
      exact ih cleared own later
    · exact ih found own later

/-- The choice of the next task leaves a dead one as it is. -/
theorem reschedule_dead (found : record s s.currentTask = some t) (dead : t.state = .dead) :
    record (reschedule s).1 s.currentTask = some t := by
  obtain ⟨next, result, -⟩ := taskFindNextReady_chosen s
  have visited : record { s with taskList := s.taskList.map (visit s.currentTask) } s.currentTask = some t := by
    rw [record_map rfl (quiet_visit s.currentTask).address, found, Option.map_some, visit,
      if_neg fun held => held.1 (record_mem found).2]
  have refilled : record (modify { s with taskList := s.taskList.map (visit s.currentTask) } s.currentTask refill)
      s.currentTask = some t := by
    rw [record_modify quiet_refill.address, visited, Option.map_some, refill, if_neg (by simp [dead])]
  unfold reschedule
  rw [result]
  dsimp only
  cases next with
  | none => exact refilled
  | some next =>
    dsimp only
    split
    · exact refilled
    · rename_i other
      have left : record (modify { s with taskList := s.taskList.map (visit s.currentTask) } s.currentTask preempt)
          s.currentTask = some t := by
        rw [record_modify fun t => (preempt_address t).1, visited, Option.map_some, preempt, if_neg (by simp [dead])]
      exact (record_modify_ne (f := dispatch) (fun _ => rfl) (Ne.symm other)).trans left

theorem exit_record (found : record s a = some t) (own : s.currentTask = a) (status : Nat) :
    ∃ v, record (taskExitWithStatus s status) a = some v ∧ v.state = .dead ∧ v.exitStatus = status % 2 ^ 32 := by
  subst own
  have current : current s = some t := found
  unfold taskExitWithStatus
  rw [current]
  dsimp only
  let exited : Task → Task := fun t => { t with exitStatus := status % 2 ^ 32, state := .dead, isZombie := true }
  have first := record_modify (s := s) (a := s.currentTask) (f := exited) fun _ => rfl
  rw [found] at first
  generalize waitedEq : List.any _ _ = waited
  have second : record { modify s s.currentTask exited with
      taskList := (modify s s.currentTask exited).taskList.map (wakeWaiter t.pid (status % 2 ^ 32))
      needsCleanup := true } s.currentTask = some (exited t) := by
    have same := record_map (u := { modify s s.currentTask exited with
      taskList := (modify s s.currentTask exited).taskList.map (wakeWaiter t.pid (status % 2 ^ 32))
      needsCleanup := true }) rfl (quiet_wakeWaiter t.pid (status % 2 ^ 32)).address s.currentTask
    rw [same, first, Option.map_some, Option.map_some, wakeWaiter, if_neg (by simp [exited])]
  let reaped : Task → Task := fun t => { t with isZombie := !waited }
  have third := record_modify (f := reaped) (s := { modify s s.currentTask exited with
      taskList := (modify s s.currentTask exited).taskList.map (wakeWaiter t.pid (status % 2 ^ 32))
      needsCleanup := true }) (a := s.currentTask) fun _ => rfl
  rw [second] at third
  exact ⟨reaped (exited t), reschedule_dead third rfl, rfl, rfl⟩

/-! ## The outcome -/

theorem deliverable_testBit (mask : t.signalMask = 0) (small : k < 32) :
    (deliverableSignals t).testBit k = t.pendingSignals.testBit k := by
  unfold deliverableSignals
  rw [mask, Nat.zero_mod, Nat.sub_zero, Nat.testBit_and, Nat.testBit_two_pow_sub_one, decide_eq_true small,
    Bool.and_true]

theorem deadly_bounds (member : k ∈ deadly) : 0 < k ∧ k < 32 := by
  revert k
  decide

theorem kills_iff (noted : Noted handlers events t) (small : k < 32) :
    Kills (deliverableSignals t) t.signalHandlers k ↔ Fatal handlers events k := by
  unfold Kills Fatal
  rw [deliverable_testBit noted.mask small, noted.pending, noted.handlers k small]
  exact and_congr_right fun _ => and_comm

/-- The loop of the test, up to one signal and from the next one on. -/
theorem sigs_split (positive : 0 < k) (small : k < 32) :
    List.range' 1 (nsig - 1) = List.range' 1 (k - 1) ++ k :: List.range' (k + 1) (31 - k) := by
  have rest : k :: List.range' (k + 1) (31 - k) = List.range' (1 + (k - 1)) (32 - k) := by
    rw [(by omega : 32 - k = 31 - k + 1), List.range'_succ, (by omega : 1 + (k - 1) = k)]
  rw [rest, List.range'_append_1]
  congr 1
  change 31 = _
  omega

theorem check_entered (found : record u a = some t) (own : u.currentTask = a) (user : t.isUser = true)
    (alive : t.state ≠ .dead) (some : deliverableSignals t ≠ 0) : taskCheckSignals u =
      checkSignals (deliverableSignals t) t.signalHandlers u (List.range' 1 (nsig - 1)) := by
  have current : current u = .some t := by
    subst own
    exact found
  unfold taskCheckSignals
  rw [current]
  dsimp only
  rw [if_neg (by simp [user, alive]), if_neg some]

/-- The lowest signal that ends the task does. -/
theorem check_exits (found : record u a = some t) (own : u.currentTask = a) (noted : Noted handlers events t)
    (alive : t.state ≠ .dead) (fatal : Fatal handlers events k) (lowest : ∀ j < k, ¬ Fatal handlers events j) :
    Exits u a (128 + k) := by
  obtain ⟨positive, small⟩ := deadly_bounds fatal.2.1
  have kills := (kills_iff noted small).mpr fatal
  have some : deliverableSignals t ≠ 0 := by
    intro zero
    have bit := kills.1
    rw [zero, Nat.zero_testBit] at bit
    cases bit
  have harmless : ∀ j ∈ List.range' 1 (k - 1), ¬ Kills (deliverableSignals t) t.signalHandlers j := by
    intro j member held
    have below := List.mem_range'_1.mp member
    exact lowest j (by omega) ((kills_iff noted (by omega)).mp held)
  obtain ⟨w, v, ends, ownW, foundW⟩ :=
    @checkSignals_ends _ _ _ _ _ _ _ (List.range' (k + 1) (31 - k)) found own harmless kills
  obtain ⟨x, foundX, dead, status⟩ := exit_record foundW ownW (128 + k)
  unfold Exits
  rw [check_entered found own noted.user alive some, sigs_split positive small, ends]
  exact ⟨x, foundX, dead, status.trans (Nat.mod_eq_of_lt (by omega))⟩

/-- Without such a signal the pending bits are cleared, and nothing else. -/
theorem check_clears (found : record u a = some t) (own : u.currentTask = a) (noted : Noted handlers events t)
    (alive : t.state ≠ .dead) (harmless : ∀ k, ¬ Fatal handlers events k) :
    record (taskCheckSignals u) a = some { t with pendingSignals := 0 } := by
  have bounds : ∀ k, t.pendingSignals.testBit k = true → 0 < k ∧ k < 32 := by
    intro k bit
    have valid : 0 < (k : Int) ∧ (k : Int) < 32 := ((noted.pending k).mp bit).2
    omega
  by_cases zero : deliverableSignals t = 0
  · have none : t.pendingSignals = 0 := by
      refine Nat.eq_of_testBit_eq fun k => ?_
      rw [Nat.zero_testBit]
      by_contra bit
      have bit := Bool.eq_true_of_not_eq_false bit
      have small := (bounds k bit).2
      rw [← deliverable_testBit noted.mask small, zero, Nat.zero_testBit] at bit
      cases bit
    have current : current u = some t := by
      subst own
      exact found
    unfold taskCheckSignals
    rw [current]
    dsimp only
    rw [if_neg (by simp [noted.user, alive]), if_pos zero, found, ← none]
  · rw [check_entered found own noted.user alive zero, checkSignals_clears found own]
    · congr 2
      refine Nat.eq_of_testBit_eq fun k => ?_
      rw [clearedBits_testBit, Nat.zero_testBit]
      by_cases bit : t.pendingSignals.testBit k = true
      · have inside := bounds k bit
        have member : k ∈ List.range' 1 (nsig - 1) := by
          rw [List.mem_range'_1]
          change 1 ≤ k ∧ k < 1 + 31
          omega
        rw [deliverable_testBit noted.mask inside.2, bit, decide_eq_true member]
        rfl
      · rw [Bool.eq_false_iff.mpr bit]
        rfl
    · intro k member kills
      have below := List.mem_range'_1.mp member
      have small : k < 1 + 31 := below.2
      exact harmless k ((kills_iff noted (by omega)).mp kills)

/-! ## Every history -/

/-- What no operation changes about the signals of a task. -/
structure Plain (t : Task) : Prop where
  mask : t.signalMask = 0
  count : t.signalHandlers.length = nsig
  kill : t.signalHandlers.getD 9 0 = 0

theorem plain_lasting : Lasting Plain where
  same := by
    rintro t u same ⟨mask, count, kill⟩
    exact ⟨same.signalMask.trans mask, same.signalHandlers ▸ count, same.signalHandlers ▸ kill⟩
  boosted := fun _ plain _ => ⟨plain.mask, plain.count, plain.kill⟩
  dispatched := fun _ plain => ⟨plain.mask, plain.count, plain.kill⟩
  ranked := fun _ _ plain _ => ⟨plain.mask, plain.count, plain.kill⟩
  posted := fun _ _ plain _ _ => ⟨plain.mask, plain.count, plain.kill⟩
  cleared := fun _ _ plain => ⟨plain.mask, plain.count, plain.kill⟩
  handled := by
    intro t signum handler plain notKill
    refine ⟨plain.mask, (List.length_set ..).trans plain.count, ?_⟩
    dsimp only
    rw [List.getD_eq_getElem?_getD, List.getElem?_set_ne notKill, ← List.getD_eq_getElem?_getD]
    exact plain.kill
  created := fun _ _ _ _ => ⟨rfl, List.length_replicate, rfl⟩

/-- No event sets a handler for `SIGKILL`. -/
theorem handled_kill (handlers : Nat → Nat) (events : List Event) : events.foldl handled handlers 9 = handlers 9 := by
  induction events generalizing handlers with
  | nil => rfl
  | cons event rest ih =>
    rw [List.foldl_cons, ih]
    cases event with
    | handle signum handler =>
      dsimp only [handled]
      split
      · rename_i accepted
        have bounds : 0 < signum ∧ signum < 32 := accepted.1
        have other : 9 ≠ signum.toNat := by
          have notKill := accepted.2
          omega
        exact Function.update_of_ne other _ _
      · rfl
    | post _ => rfl
    | elsewhere => rfl

/-- A user task that has just been tested, with all that it is sent and that it
asks for up to its next test. -/
theorem signals_exact (reached : Reached s) (found : record s a = some t) (user : t.isUser = true)
    (tested : t.pendingSignals = 0) (history : History a s events u) (own : u.currentTask = a)
    (alive : ∀ v, record u a = some v → v.state ≠ .dead) :
    (∀ status, Exits u a status ↔ ∃ k, status = 128 + k ∧
      Fatal (fun k => t.signalHandlers.getD k 0) events k ∧
      ∀ j < k, ¬ Fatal (fun k => t.signalHandlers.getD k 0) events j) ∧
    ((∀ k, ¬ Fatal (fun k => t.signalHandlers.getD k 0) events k) →
      ∃ v, record u a = some v ∧ record (taskCheckSignals u) a = some { v with pendingSignals := 0 }) ∧
    (Sent events 9 → Fatal (fun k => t.signalHandlers.getD k 0) events 9) ∧
    ∀ s pid handler signum, ¬ Valid signum → sendSignal s pid signum = s ∧
    setSignalHandler s signum handler = s := by
  have plain := reached_all plain_lasting reached t (record_mem found).1
  have start : Noted (fun k => t.signalHandlers.getD k 0) [] t := by
    refine ⟨user, plain.mask, plain.count, fun k => ?_, fun _ _ => rfl⟩
    rw [tested, Nat.zero_testBit]
    exact iff_of_false nofun fun sent => List.not_mem_nil sent.1
  obtain ⟨v, foundV, noted⟩ := history_noted found start history
  have aliveV := alive v foundV
  refine ⟨fun status => ⟨fun exits => ?_, ?_⟩, fun harmless =>
    ⟨v, foundV, check_clears foundV own noted aliveV harmless⟩,
    fun sent => ⟨sent, by decide, ?_⟩, fun s pid handler signum invalid =>
      ⟨sendSignal_invalid invalid, setSignalHandler_invalid invalid⟩⟩
  · obtain ⟨x, foundX, dead, statusX⟩ := exits
    by_cases fatal : ∃ k, Fatal (fun k => t.signalHandlers.getD k 0) events k
    · classical
      have least := Nat.find_spec fatal
      have lowest : ∀ j < Nat.find fatal, ¬ Fatal (fun k => t.signalHandlers.getD k 0) events j :=
        fun j below => Nat.find_min fatal below
      obtain ⟨y, foundY, -, statusY⟩ := check_exits foundV own noted aliveV least lowest
      obtain rfl := Option.some.inj (foundX.symm.trans foundY)
      exact ⟨_, statusX.symm.trans statusY, least, lowest⟩
    · rw [not_exists] at fatal
      have cleared := check_clears foundV own noted aliveV fatal
      obtain rfl := Option.some.inj (foundX.symm.trans cleared)
      exact absurd dead aliveV
  · rintro ⟨k, rfl, fatal, lowest⟩
    exact check_exits foundV own noted aliveV fatal lowest
  · rw [handled_kill, plain.kill]
    decide

end

/-- The kernel shell starts a user task and blocks. -/
def userStarts : Scheduler := perform (perform taskInitialize (.create true)) .block

/-- The user task is current, and the only one with its pid. -/
theorem post_moves (own : (record s 3).map (fun t => (t.pid, decide (t.state = .dead),
    decide (taskGetByPid s 3 = some t))) = some (3, false, true)) (signum : Int) :
    Moves 3 s (.post signum) (post s 3 signum) := by
  obtain ⟨t, found, fields⟩ := Option.map_eq_some_iff.mp own
  simp only [Prod.mk.injEq, decide_eq_false_iff_not, decide_eq_true_eq] at fields
  obtain ⟨pid, alive, byPid⟩ := fields
  exact ⟨t, found, alive, pid ▸ byPid, by rw [pid]⟩

/-- It ignores `SIGINT`, and is sent `SIGTERM` and then `SIGINT`. -/
theorem signals_exact_terminated : Exits (post (post (setSignalHandler userStarts 2 1) 3 15) 3 2) 3 143 := by
  have reached : Reached userStarts :=
    (Relation.ReflTransGen.single ⟨.create true, trivial, rfl⟩).tail ⟨.block, trivial, rfl⟩
  have runs : (record userStarts 3).map (fun t => (t.isUser, t.pendingSignals, t.signalHandlers)) =
      some (true, 0, List.replicate 32 0) := by decide
  obtain ⟨t, found, fields⟩ := Option.map_eq_some_iff.mp runs
  simp only [Prod.mk.injEq] at fields
  obtain ⟨user, tested, table⟩ := fields
  have sets : Moves 3 userStarts (.handle 2 1) (setSignalHandler userStarts 2 1) := ⟨by decide, rfl⟩
  have history : History 3 userStarts [.handle 2 1, .post 15, .post 2]
      (post (post (setSignalHandler userStarts 2 1) 3 15) 3 2) :=
    ((History.nil.snoc sets).snoc (post_moves (by decide) 15)).snoc (post_moves (by decide) 2)
  have alive : ∀ v, record (post (post (setSignalHandler userStarts 2 1) 3 15) 3 2) 3 = some v →
    v.state ≠ .dead := by
    intro v foundV dead
    have state : (record (post (post (setSignalHandler userStarts 2 1) 3 15) 3 2) 3).map Task.state =
        some .running := by
      decide
    rw [foundV, Option.map_some, dead] at state
    cases state
  refine ((signals_exact reached found user tested history (by decide) alive).1 143).mpr ⟨15, rfl, ?_, ?_⟩
  · refine ⟨⟨by simp, by decide⟩, by decide, ?_⟩
    rw [table]
    decide
  · rintro j below ⟨⟨sent, -⟩, -, notIgnored⟩
    simp only [List.mem_cons, reduceCtorEq, Event.post.injEq, List.not_mem_nil, or_false, false_or] at sent
    have number : j = 2 := by omega
    rw [number, table] at notIgnored
    exact notIgnored (by decide)

end MeowMeowOS.SignalDelivery

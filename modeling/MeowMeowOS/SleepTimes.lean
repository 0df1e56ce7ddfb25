import MeowMeowOS.TimerInterrupts
import MeowMeowOS.SignalDelivery

/-! How long a task sleeps. Its wake time is a sum in `uint32_t`, which the
scheduler compares with the counter, and 0 stands for a task that does not sleep. -/
namespace MeowMeowOS.SleepTimes
open Tasks RunningTask TaskRecords TimerInterrupts SignalDelivery

/-- The task sleeps until the counter has reached `wake`. -/
def Asleep (s : Scheduler) (a wake : Nat) : Prop :=
  ∃ t, record s a = some t ∧ t.state = .sleeping ∧ t.wakeTick = wake

/-- The interrupt comes to `task_schedule_tick`. -/
def Scheduled (s : Scheduler) : Prop := ∃ cur, current (clockTick s) = some cur ∧ cur.isUser = false

/-- The pass over the sleepers in that tick makes the task ready. -/
def Wakes (s : Scheduler) (a : Nat) : Prop :=
  ∃ t, record (taskWakeExpiredSleepers (clockTick s)) a = some t ∧ t.state = .ready

/-- The next timer interrupt wakes the task. -/
def WokenNext (s : Scheduler) (a : Nat) : Prop := Scheduled s ∧ Wakes s a

/-- After `task_sleep` and `n` timer interrupts, none of which has woken the
task. Between them happens what leaves its record and the counter alone. -/
inductive Naps (a ticks : Nat) (s : Scheduler) : Nat → Scheduler → Prop
  | sleeps (asleep : ∃ t, record (taskSleep s ticks) a = some t ∧ t.state = .sleeping) :
      Naps a ticks s 0 (taskSleep s ticks)
  | elsewhere (naps : Naps a ticks s n u) (counter : v.ticks = u.ticks) (same : record v a = record u a)
      (distinct : (v.taskList.map Task.address).Nodup) : Naps a ticks s n v
  | interrupt (naps : Naps a ticks s n u) (notWoken : ¬ WokenNext u a) : Naps a ticks s (n + 1) (pitHandleInterrupt u)

/-! ## What an operation leaves alone -/

structure Framed (s v : Scheduler) : Prop where
  addresses : v.taskList.map Task.address = s.taskList.map Task.address
  ticks : v.ticks = s.ticks

section
variable {s u v : Scheduler} {f : Task → Task} {a wake ticks n : Nat} {t cur : Task}

theorem framed_refl (s : Scheduler) : Framed s s := ⟨rfl, rfl⟩

theorem framed_trans (first : Framed s u) (second : Framed u v) : Framed s v :=
  ⟨second.addresses.trans first.addresses, second.ticks.trans first.ticks⟩

theorem framed_map (tasks : v.taskList = s.taskList.map f) (ticks : v.ticks = s.ticks)
    (address : ∀ t, (f t).address = t.address) : Framed s v := by
  refine ⟨?_, ticks⟩
  rw [tasks, List.map_map, show Task.address ∘ f = Task.address from funext address]

theorem framed_modify (s : Scheduler) (a : Nat) (address : ∀ t, (f t).address = t.address) :
    Framed s (modify s a f) := by
  refine framed_map (f := fun t => if t.address = a then f t else t) rfl rfl fun t => ?_
  split
  · exact address t
  · rfl

theorem reschedule_framed (s : Scheduler) : Framed s (reschedule s).1 := by
  obtain ⟨next, result, -⟩ := taskFindNextReady_chosen s
  have visited : Framed s { s with taskList := s.taskList.map (visit s.currentTask) } :=
    framed_map rfl rfl (quiet_visit s.currentTask).address
  have refilled := framed_trans visited (framed_modify _ s.currentTask quiet_refill.address)
  unfold reschedule
  rw [result]
  dsimp only
  cases next with
  | none => exact refilled
  | some next =>
    dsimp only
    split
    · exact refilled
    · have left := framed_trans visited (framed_modify (f := preempt) _ s.currentTask fun t => (preempt_address t).1)
      have moved : Framed s
        { modify { s with taskList := s.taskList.map (visit s.currentTask) } s.currentTask preempt with
          currentTask := next.address } := ⟨left.addresses, left.ticks⟩
      exact framed_trans moved (framed_modify (f := dispatch) _ next.address fun _ => rfl)

theorem exit_framed (s : Scheduler) (status : Nat) : Framed s (taskExitWithStatus s status) := by
  unfold taskExitWithStatus
  cases current s with
  | none => exact framed_refl s
  | some cur =>
    dsimp only
    refine framed_trans ?_ (reschedule_framed _)
    refine framed_trans ?_ (framed_modify _ _ fun _ => rfl)
    have ended := framed_modify (f := fun t =>
      { t with exitStatus := status % 2 ^ 32, state := .dead, isZombie := true })
      s s.currentTask fun _ => rfl
    exact framed_trans ended (framed_map rfl rfl (quiet_wakeWaiter cur.pid (status % 2 ^ 32)).address)

theorem checkSignals_framed (s : Scheduler) (deliverable : Nat) (handlers sigs : List Nat) :
    Framed s (checkSignals deliverable handlers s sigs) := by
  induction sigs generalizing s with
  | nil => exact framed_refl s
  | cons k rest ih =>
    have cleared := framed_modify (f := clearSignal k) s s.currentTask fun _ => rfl
    unfold checkSignals
    split
    · dsimp only
      split
      · exact framed_trans cleared (ih _)
      · split
        · exact framed_trans cleared (exit_framed _ _)
        · exact framed_trans cleared (ih _)
    · exact ih s

theorem taskCheckSignals_framed (s : Scheduler) : Framed s (taskCheckSignals s) := by
  unfold taskCheckSignals
  split
  · exact framed_refl s
  · split
    · exact framed_refl s
    · split
      · exact framed_refl s
      · exact checkSignals_framed _ _ _ _

theorem taskYield_framed (s : Scheduler) : Framed s (taskYield s) := by
  have next := reschedule_framed s
  unfold taskYield
  dsimp only
  split
  · exact next
  · split
    · exact framed_trans next (taskCheckSignals_framed _)
    · exact next

theorem tickCurrent_framed (s : Scheduler) (cur : Task) : Framed s (tickCurrent s cur) := by
  have counted := framed_modify (f := fun t => { t with cpuTimeTicks := (t.cpuTimeTicks + 1) % 2 ^ 32 })
    s s.currentTask fun _ => rfl
  unfold tickCurrent
  dsimp only
  split
  · have asked := framed_trans counted
      (framed_modify (f := fun t => { t with yieldRequested := false }) _ s.currentTask fun _ => rfl)
    exact framed_trans asked (taskYield_framed _)
  · have spent := framed_trans counted
      (framed_modify (f := fun t => { t with sliceRemaining := t.sliceRemaining - 1 }) _ s.currentTask fun _ => rfl)
    split
    · have left := framed_trans spent (framed_modify (f := preempt) _ s.currentTask fun t => (preempt_address t).1)
      exact framed_trans left (taskYield_framed _)
    · exact spent

/-! ## The record of a task that neither runs nor is ready -/

/-- It is not chosen, so that no choice of the next task changes it. -/
theorem reschedule_rests (distinct : (s.taskList.map Task.address).Nodup) (found : record s a = some t)
    (notReady : t.state ≠ .ready) (notRunning : t.state ≠ .running) : record (reschedule s).1 a = some t := by
  obtain ⟨next, result, chosen⟩ := taskFindNextReady_chosen s
  have itself : visit s.currentTask t = t := by
    unfold visit
    rw [if_neg fun held => notReady held.2]
  have visited : record { s with taskList := s.taskList.map (visit s.currentTask) } a = some t := by
    rw [record_map rfl (quiet_visit s.currentTask).address, found, Option.map_some, itself]
  have unchanged : ∀ {f : Task → Task}, (∀ t, (f t).address = t.address) → f t = t →
      record (modify { s with taskList := s.taskList.map (visit s.currentTask) } s.currentTask f) a = some t := by
    intro f address same
    by_cases own : a = s.currentTask
    · rw [own] at visited ⊢
      rw [record_modify address, visited, Option.map_some, same]
    · rw [record_modify_ne address own, visited]
  have refilled := unchanged quiet_refill.address (by rw [refill, if_neg notRunning])
  have left := unchanged (f := preempt) (fun t => (preempt_address t).1) (by rw [preempt, if_neg notRunning])
  unfold reschedule
  rw [result]
  dsimp only
  cases next with
  | none => exact refilled
  | some next =>
    have best := chosen.some next rfl
    have other : a ≠ next.address := by
      intro same
      obtain ⟨x, memberX, shape⟩ := List.mem_map.mp (best_mem best)
      obtain ⟨memberT, addressT⟩ := record_mem found
      have address : x.address = next.address := by
        rw [← shape, (quiet_visit s.currentTask).address]
      obtain rfl := List.inj_on_of_nodup_map distinct memberX memberT (address.trans (same.symm.trans addressT.symm))
      rw [itself] at shape
      rw [← shape] at best
      rcases best.eligible with ready | running
      · exact notReady ready
      · exact notRunning running.2
    dsimp only
    split
    · exact refilled
    · exact (record_modify_ne (f := dispatch) (fun _ => rfl) other).trans left

theorem exit_rests (distinct : (s.taskList.map Task.address).Nodup) (found : record s a = some t)
    (asleep : t.state = .sleeping) (other : a ≠ s.currentTask) (status : Nat) :
    record (taskExitWithStatus s status) a = some t := by
  unfold taskExitWithStatus
  cases current s with
  | none => exact found
  | some cur =>
    dsimp only
    let exited : Task → Task := fun t => { t with exitStatus := status % 2 ^ 32, state := .dead, isZombie := true }
    have first : record (modify s s.currentTask exited) a = some t :=
      (record_modify_ne (f := exited) (fun _ => rfl) other).trans found
    have framed : Framed s (modify s s.currentTask exited) := framed_modify s s.currentTask fun _ => rfl
    generalize List.any _ _ = waited
    let woken : Scheduler := { modify s s.currentTask exited with
      taskList := (modify s s.currentTask exited).taskList.map (wakeWaiter cur.pid (status % 2 ^ 32))
      needsCleanup := true }
    have second : record woken a = some t := by
      have mapped := record_map (u := woken) (s := modify s s.currentTask exited) rfl
        (quiet_wakeWaiter cur.pid (status % 2 ^ 32)).address a
      rw [mapped, first, Option.map_some, wakeWaiter, if_neg (by simp [asleep])]
    have framedWoken : Framed s woken :=
      framed_trans framed (framed_map rfl rfl (quiet_wakeWaiter cur.pid (status % 2 ^ 32)).address)
    let reaped : Task → Task := fun t => { t with isZombie := !waited }
    have third : record (modify woken woken.currentTask reaped) a = some t :=
      (record_modify_ne (f := reaped) (fun _ => rfl) other).trans second
    have framedLast := framed_trans framedWoken (framed_modify (f := reaped) woken woken.currentTask fun _ => rfl)
    refine reschedule_rests ?_ third (by simp [asleep]) (by simp [asleep])
    rw [framedLast.addresses]
    exact distinct

theorem checkSignals_rests (distinct : (s.taskList.map Task.address).Nodup) (found : record s a = some t)
    (asleep : t.state = .sleeping) (other : a ≠ s.currentTask) (deliverable : Nat) (handlers sigs : List Nat) :
    record (checkSignals deliverable handlers s sigs) a = some t := by
  induction sigs generalizing s with
  | nil => exact found
  | cons k rest ih =>
    have cleared : record (modify s s.currentTask (clearSignal k)) a = some t :=
      (record_modify_ne (f := clearSignal k) (fun _ => rfl) other).trans found
    have framed := framed_modify (f := clearSignal k) s s.currentTask fun _ => rfl
    unfold checkSignals
    split
    · dsimp only
      split
      · exact ih (framed.addresses ▸ distinct) cleared other
      · split
        · exact exit_rests (framed.addresses ▸ distinct) cleared asleep other _
        · exact ih (framed.addresses ▸ distinct) cleared other
    · exact ih distinct found other

theorem taskCheckSignals_rests (distinct : (s.taskList.map Task.address).Nodup) (found : record s a = some t)
    (asleep : t.state = .sleeping) (other : a ≠ s.currentTask) : record (taskCheckSignals s) a = some t := by
  unfold taskCheckSignals
  split
  · exact found
  · split
    · exact found
    · split
      · exact found
      · exact checkSignals_rests distinct found asleep other _ _ _

/-- The current task is another one only after a switch, which tests nothing. -/
theorem reschedule_stays (s : Scheduler) :
    (reschedule s).2 = true → (reschedule s).1.currentTask = s.currentTask := by
  obtain ⟨next, result, -⟩ := taskFindNextReady_chosen s
  unfold reschedule
  rw [result]
  dsimp only
  cases next with
  | none => exact fun _ => rfl
  | some next =>
    dsimp only
    split
    · exact fun _ => rfl
    · nofun

theorem taskYield_rests (distinct : (s.taskList.map Task.address).Nodup) (found : record s a = some t)
    (asleep : t.state = .sleeping) (other : a ≠ s.currentTask) : record (taskYield s) a = some t := by
  have next := reschedule_rests distinct found (by simp [asleep]) (by simp [asleep])
  have framed := reschedule_framed s
  have stays := reschedule_stays s
  unfold taskYield
  dsimp only
  split
  · exact next
  · split
    · rename_i tests
      exact taskCheckSignals_rests (framed.addresses ▸ distinct) next asleep (stays tests.1 ▸ other)
    · exact next

theorem tickCurrent_rests (distinct : (s.taskList.map Task.address).Nodup) (found : record s a = some t)
    (asleep : t.state = .sleeping) (other : a ≠ s.currentTask) (cur : Task) :
    record (tickCurrent s cur) a = some t := by
  let counted : Task → Task := fun t => { t with cpuTimeTicks := (t.cpuTimeTicks + 1) % 2 ^ 32 }
  have framed := framed_modify (f := counted) s s.currentTask fun _ => rfl
  have first : record (modify s s.currentTask counted) a = some t :=
    (record_modify_ne (f := counted) (fun _ => rfl) other).trans found
  unfold tickCurrent
  dsimp only
  split
  · let asked : Task → Task := fun t => { t with yieldRequested := false }
    have framedNext := framed_trans framed (framed_modify (f := asked) _ s.currentTask fun _ => rfl)
    have second : record (modify (modify s s.currentTask counted) s.currentTask asked) a = some t :=
      (record_modify_ne (f := asked) (fun _ => rfl) other).trans first
    exact taskYield_rests (framedNext.addresses ▸ distinct) second asleep other
  · let spent : Task → Task := fun t => { t with sliceRemaining := t.sliceRemaining - 1 }
    have framedNext := framed_trans framed (framed_modify (f := spent) _ s.currentTask fun _ => rfl)
    have second : record (modify (modify s s.currentTask counted) s.currentTask spent) a = some t :=
      (record_modify_ne (f := spent) (fun _ => rfl) other).trans first
    split
    · have framedLast := framed_trans framedNext
        (framed_modify (f := preempt) _ s.currentTask fun t => (preempt_address t).1)
      have third : record (modify (modify (modify s s.currentTask counted) s.currentTask spent) s.currentTask preempt)
        a =
          some t := (record_modify_ne (fun t => (preempt_address t).1) other).trans second
      exact taskYield_rests (framedLast.addresses ▸ distinct) third asleep other
    · exact second

/-! ## The calling task -/

theorem checkSignals_own (found : record s a = some t) (own : s.currentTask = a) (deliverable : Nat)
    (handlers sigs : List Nat) : ∃ v, record (checkSignals deliverable handlers s sigs) a = some v ∧
      (v.state = .dead ∨ (v.state = t.state ∧ v.wakeTick = t.wakeTick)) := by
  induction sigs generalizing s t with
  | nil => exact ⟨t, found, Or.inr ⟨rfl, rfl⟩⟩
  | cons k rest ih =>
    have cleared : record (modify s a (clearSignal k)) a = some (clearSignal k t) := by
      rw [record_modify (f := clearSignal k) fun _ => rfl, found, Option.map_some]
    unfold checkSignals
    rw [own]
    split
    · dsimp only
      have later := ih cleared own
      split
      · exact later
      · split
        · obtain ⟨v, ended, dead, -⟩ := exit_record cleared own (128 + k)
          exact ⟨v, ended, Or.inl dead⟩
        · exact later
    · exact ih found own

/-- A task that yields while it sleeps goes on sleeping, unless no other task is
ready and a signal ends it. -/
theorem taskYield_own (distinct : (s.taskList.map Task.address).Nodup) (found : record s a = some t)
    (asleep : t.state = .sleeping) (own : s.currentTask = a) : ∃ v, record (taskYield s) a = some v ∧
      (v.state = .dead ∨ (v.state = .sleeping ∧ v.wakeTick = t.wakeTick)) := by
  have next := reschedule_rests distinct found (by simp [asleep]) (by simp [asleep])
  have rests : ∃ v, record (reschedule s).1 a = some v ∧
      (v.state = .dead ∨ (v.state = .sleeping ∧ v.wakeTick = t.wakeTick)) := ⟨t, next, Or.inr ⟨asleep, rfl⟩⟩
  have stays := reschedule_stays s
  unfold taskYield
  dsimp only
  split
  · exact rests
  · split
    · rename_i tests
      unfold taskCheckSignals
      split
      · exact rests
      · split
        · exact rests
        · split
          · exact rests
          · have checked := checkSignals_own next ((stays tests.1).trans own)
            rw [asleep] at checked
            exact checked _ _ _
    · exact rests

theorem taskSleep_asleep (distinct : (s.taskList.map Task.address).Nodup) (positive : 0 < ticks)
    (found : record s s.currentTask = some t) : ∃ v, record (taskSleep s ticks) s.currentTask = some v ∧
      (v.state = .dead ∨ (v.state = .sleeping ∧ v.wakeTick = (s.ticks + ticks) % 2 ^ 32)) := by
  let sleeps : Task → Task := fun t =>
    { t with state := .sleeping, wakeTick := (s.ticks + ticks) % 2 ^ 32, sliceRemaining := 0 }
  have stored := record_modify (s := s) (a := s.currentTask) (f := sleeps) fun _ => rfl
  rw [found] at stored
  have framed := framed_modify (f := sleeps) s s.currentTask fun _ => rfl
  unfold taskSleep
  rw [if_neg (by omega)]
  exact taskYield_own (framed.addresses ▸ distinct) stored rfl rfl

/-! ## The interrupts of a nap -/

/-- The wake time is over, as `task_wake_expired_sleepers` sees it. -/
def Expired (wake now : Nat) : Prop := wake ≠ 0 ∧ wake ≤ now

theorem wakes_iff (asleep : Asleep u a wake) : Wakes u a ↔ Expired wake ((u.ticks + 1) % 2 ^ 32) := by
  obtain ⟨t, found, state, rfl⟩ := asleep
  have mapped : record (taskWakeExpiredSleepers (clockTick u)) a =
      (record u a).map (wakeExpired ((u.ticks + 1) % 2 ^ 32)) :=
    record_map rfl (quiet_wakeExpired _).address a
  unfold Wakes Expired
  rw [mapped, found, Option.map_some]
  constructor
  · rintro ⟨v, same, ready⟩
    obtain rfl := Option.some.inj same
    unfold wakeExpired at ready
    split at ready
    · rename_i expired
      exact expired.2
    · rw [state] at ready
      cases ready
  · intro expired
    refine ⟨_, rfl, ?_⟩
    rw [wakeExpired, if_pos ⟨state, expired⟩]

theorem pit_framed (u : Scheduler) : Framed (clockTick u) (pitHandleInterrupt u) := by
  unfold pitHandleInterrupt
  split
  · exact framed_refl _
  · split
    · exact framed_refl _
    · have awake : Framed (clockTick u) (taskWakeExpiredSleepers (clockTick u)) :=
        framed_map rfl rfl (quiet_wakeExpired _).address
      unfold taskScheduleTick
      dsimp only
      split
      · exact awake
      · split
        · exact framed_trans awake (taskYield_framed _)
        · exact awake
        · exact awake
        · exact awake
        · exact framed_trans awake (tickCurrent_framed _ _)
        · exact framed_trans awake (tickCurrent_framed _ _)

/-- An interrupt that does not wake a sleeping task leaves it as it is. -/
theorem pit_rests (distinct : (u.taskList.map Task.address).Nodup) (found : record u a = some t)
    (asleep : t.state = .sleeping) (notWoken : ¬ WokenNext u a) : record (pitHandleInterrupt u) a = some t := by
  have counted : record (clockTick u) a = some t := found
  unfold pitHandleInterrupt
  split
  · exact counted
  · rename_i cur foundCur
    split
    · exact counted
    · rename_i kernel
      have scheduled : Scheduled u := ⟨cur, foundCur, Bool.eq_false_iff.mpr kernel⟩
      have mapped : record (taskWakeExpiredSleepers (clockTick u)) a =
          (record (clockTick u) a).map (wakeExpired (clockTick u).ticks) :=
        record_map rfl (quiet_wakeExpired _).address a
      have notExpired : ¬ Expired t.wakeTick ((u.ticks + 1) % 2 ^ 32) := fun expired =>
        notWoken ⟨scheduled, (wakes_iff ⟨t, found, asleep, rfl⟩).mpr expired⟩
      have rests : record (taskWakeExpiredSleepers (clockTick u)) a = some t := by
        rw [mapped, counted, Option.map_some, wakeExpired, if_neg fun expired => notExpired expired.2]
      have framed : Framed (clockTick u) (taskWakeExpiredSleepers (clockTick u)) :=
        framed_map rfl rfl (quiet_wakeExpired _).address
      have distinctAwake : ((taskWakeExpiredSleepers (clockTick u)).taskList.map Task.address).Nodup :=
        framed.addresses ▸ distinct
      -- a sleeping current task gives the tick nothing to do
      have own : ∀ c, current (taskWakeExpiredSleepers (clockTick u)) = some c → c.state ≠ .sleeping →
          a ≠ (taskWakeExpiredSleepers (clockTick u)).currentTask := by
        rintro c foundC notAsleep same
        rw [same] at rests
        rw [Option.some.inj (foundC.symm.trans rests)] at notAsleep
        exact notAsleep asleep
      unfold taskScheduleTick
      dsimp only
      cases awake : current (taskWakeExpiredSleepers (clockTick u)) with
      | none => exact rests
      | some c =>
        dsimp only
        have other := own c awake
        cases state : c.state with
        | dead => exact taskYield_rests distinctAwake rests asleep (other (by simp [state]))
        | blocked | sleeping | waiting => exact rests
        | ready | running => exact tickCurrent_rests distinctAwake rests asleep (other (by simp [state])) c

/-- What holds all through a nap. -/
theorem naps_kept (distinct : (s.taskList.map Task.address).Nodup) (positive : 0 < ticks)
    (present : ∃ t, record s s.currentTask = some t) (counter : s.ticks < 2 ^ 32)
    (naps : Naps s.currentTask ticks s n u) : (u.taskList.map Task.address).Nodup ∧
      u.ticks = (s.ticks + n) % 2 ^ 32 ∧ Asleep u s.currentTask ((s.ticks + ticks) % 2 ^ 32) := by
  induction naps with
  | sleeps asleep =>
    obtain ⟨t, found⟩ := present
    obtain ⟨v, foundV, outcome⟩ := taskSleep_asleep distinct positive found
    obtain ⟨x, foundX, asleepX⟩ := asleep
    obtain rfl := Option.some.inj (foundV.symm.trans foundX)
    have framed : Framed s (taskSleep s ticks) := by
      unfold taskSleep
      rw [if_neg (by omega)]
      refine framed_trans ?_ (taskYield_framed _)
      exact framed_modify _ _ fun _ => rfl
    refine ⟨framed.addresses ▸ distinct, ?_, v, foundV, ?_⟩
    · rw [framed.ticks, Nat.add_zero, Nat.mod_eq_of_lt counter]
    · exact outcome.resolve_left fun dead => by rw [dead] at asleepX; cases asleepX
  | elsewhere _ same record distinct ih =>
    obtain ⟨-, now, t, found, rest⟩ := ih
    exact ⟨distinct, same.trans now, t, record.trans found, rest⟩
  | interrupt _ notWoken ih =>
    obtain ⟨distinctU, now, t, found, asleep, wake⟩ := ih
    refine ⟨?_, ?_, t, pit_rests distinctU found asleep notWoken, asleep, wake⟩
    · rw [(pit_framed _).addresses]
      exact distinctU
    · rw [(pit_framed _).ticks]
      dsimp only [clockTick]
      rw [now]
      omega

/-- The `n`-th increment since the call of `task_sleep` at `now` sees a wake time
that tells whether `ticks` of them have happened. -/
structure OnTime (now ticks n : Nat) : Prop where
  before : n < ticks → now + ticks ≤ 2 ^ 32 ∨ 2 ^ 32 ≤ now + n
  after : ticks ≤ n → (now + ticks) % 2 ^ 32 ≠ 0 ∧ (now + ticks) % 2 ^ 32 ≤ (now + n) % 2 ^ 32

theorem expired_iff (counter : now < 2 ^ 32) (small : ticks < 2 ^ 31) :
    (Expired ((now + ticks) % 2 ^ 32) ((now + n) % 2 ^ 32) ↔ ticks ≤ n) ↔ OnTime now ticks n := by
  unfold Expired
  constructor
  · intro right
    refine ⟨fun early => ?_, fun late => right.mpr late⟩
    have notExpired := mt right.mp (Nat.not_le_of_lt early)
    omega
  · rintro ⟨before, after⟩
    constructor
    · intro expired
      by_contra early
      have wraps := before (Nat.lt_of_not_le early)
      omega
    · exact after

/-- In every nap, the next timer interrupt is the one that ends it exactly if it
comes to the scheduler after that many increments, as long as the counter is on
time at the interrupts that come to the scheduler. -/
theorem sleep_lasts_iff (distinct : (s.taskList.map Task.address).Nodup)
    (present : ∃ t, record s s.currentTask = some t) (counter : s.ticks < 2 ^ 32) (positive : 0 < ticks)
    (small : ticks < 2 ^ 31) (naps : Naps s.currentTask ticks s n u) :
    (WokenNext u s.currentTask ↔ Scheduled u ∧ ticks ≤ n + 1) ↔
    (Scheduled u → OnTime s.ticks ticks (n + 1)) := by
  obtain ⟨-, now, asleep⟩ := naps_kept distinct positive present counter naps
  have wakes := wakes_iff asleep
  have next : (u.ticks + 1) % 2 ^ 32 = (s.ticks + (n + 1)) % 2 ^ 32 := by
    rw [now]
    omega
  rw [next] at wakes
  rw [← expired_iff counter small, ← wakes]
  unfold WokenNext
  by_cases scheduled : Scheduled u
  · simp only [scheduled, true_and, true_imp_iff]
  · simp only [scheduled, false_and, false_imp_iff]

end

/-- The kernel shell after so many timer interrupts. -/
def startedAt (now : Nat) : Scheduler := { taskInitialize with ticks := now }

theorem startedAt_reached (small : now < 2 ^ 32) : Reached (startedAt now) := by
  induction now with
  | zero => exact .refl
  | succ now ih =>
    refine (ih (Nat.lt_of_succ_lt small)).tail ⟨.clock, trivial, ?_⟩
    dsimp only [perform, startedAt]
    rw [Nat.mod_eq_of_lt small]

/-- The shell sleeps for three ticks, and the third interrupt wakes it. -/
theorem sleep_lasts_iff_shell : ∃ u, Naps 1 3 (startedAt 5) 2 u ∧
    (WokenNext u 1 ↔ Scheduled u ∧ 3 ≤ 2 + 1) ∧ WokenNext u 1 := by
  have early (n : Nat) (less : n + 1 < 3) : OnTime 5 3 (n + 1) :=
    ⟨fun _ => Or.inl (by omega), fun late => absurd late (by omega)⟩
  have stays {n : Nat} {u : Scheduler} (less : n + 1 < 3) (naps : Naps 1 3 (startedAt 5) n u) : ¬ WokenNext u 1 := by
    intro woken
    have lasts :=
      (sleep_lasts_iff (s := startedAt 5) (by decide) ⟨_, rfl⟩ (by decide) (by decide) (by decide) naps).mpr
      fun _ => early n less
    have := (lasts.mp woken).2
    omega
  have runs : (record (taskSleep (startedAt 5) 3) 1).map Task.state = some .sleeping := by decide
  obtain ⟨t, found, asleep⟩ := Option.map_eq_some_iff.mp runs
  have first : Naps 1 3 (startedAt 5) 0 _ := .sleeps ⟨t, found, asleep⟩
  have second := Naps.interrupt first (stays (by decide) first)
  have third := Naps.interrupt second (stays (by decide) second)
  have lasts :=
    (sleep_lasts_iff (s := startedAt 5) (by decide) ⟨_, rfl⟩ (by decide) (by decide) (by decide) third).mpr
    fun _ => ⟨fun early => absurd early (by decide), fun _ => by decide⟩
  have idle : (current (clockTick (pitHandleInterrupt (pitHandleInterrupt (taskSleep (startedAt 5) 3))))).map
    Task.isUser =
      some false := by decide
  obtain ⟨cur, here, kernel⟩ := Option.map_eq_some_iff.mp idle
  exact ⟨_, third, lasts, lasts.mpr ⟨⟨cur, here, kernel⟩, by decide⟩⟩

/-- Ten ticks before the counter wraps, the shell sleeps for twenty ticks and is
woken by the first interrupt. -/
theorem woken_early : Reached (startedAt 4294967286) ∧ (startedAt 4294967286).currentTask = 1 ∧
    (record (taskSleep (startedAt 4294967286) 20) 1).map Task.state = some .sleeping ∧
    WokenNext (taskSleep (startedAt 4294967286) 20) 1 ∧ ¬ 20 ≤ 0 + 1 := by
  have awake : (record (taskWakeExpiredSleepers (clockTick (taskSleep (startedAt 4294967286) 20))) 1).map Task.state =
      some .ready := by decide
  have idle : (current (clockTick (taskSleep (startedAt 4294967286) 20))).map Task.isUser = some false := by decide
  obtain ⟨t, found, ready⟩ := Option.map_eq_some_iff.mp awake
  obtain ⟨cur, foundCur, kernel⟩ := Option.map_eq_some_iff.mp idle
  exact ⟨startedAt_reached (by decide), rfl, by decide,
    ⟨⟨cur, foundCur, kernel⟩, t, found, ready⟩, by decide⟩

end MeowMeowOS.SleepTimes

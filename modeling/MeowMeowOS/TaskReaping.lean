import MeowMeowOS.RunningTask

/-! One cleanup pass of the idle task. It edits the list it goes along, and its
test looks up the parent in the list as it then is; the records taken out so far
were dead, and the test treats a dead parent like one that is gone. -/
namespace MeowMeowOS.TaskReaping
open Tasks

/-- A call of `kmem_free` in the pass: for the stack of a task or its record. -/
inductive Free where
  | stack (task : Task)
  | record (task : Task)
  deriving DecidableEq

/-- What the pass frees for a task that it takes out. -/
def freesOf (t : Task) : List Free := [.stack t, .record t]

/-- The pass over the records that are left, with the calls that it makes. -/
def reapFrees : List Task → List Task → List Task × List Free
  | kept, [] => (kept, [])
  | kept, t :: rest =>
    if t.state = .dead ∧ taskCanReap (kept ++ t :: rest) t then
      let (tasks, frees) := reapFrees kept rest
      (tasks, freesOf t ++ frees)
    else reapFrees (kept ++ [t]) rest

/-- The tasks that can be reaped, as the whole list stands. -/
def reapable (tasks : List Task) : List Task := tasks.filter (taskCanReap tasks)

/-- The part of the list that the pass has not taken out: none of the records
that are missing is alive. -/
structure Remains (tasks now : List Task) : Prop where
  below : now.Sublist tasks
  alive : ∀ t ∈ tasks, t.state ≠ .dead → t ∈ now

section
variable {tasks now kept rest : List Task} {t u : Task}

/-- The pass with its calls leaves the list that the pass leaves. -/
theorem reapFrees_fst (kept tasks : List Task) : (reapFrees kept tasks).1 = reapTasks kept tasks := by
  induction tasks generalizing kept with
  | nil => rfl
  | cons t rest ih =>
    unfold reapFrees reapTasks
    split
    · exact ih kept
    · exact ih (kept ++ [t])

theorem pid_unique (pids : (tasks.map Task.pid).Nodup) (left : t ∈ tasks) (right : u ∈ tasks)
    (same : t.pid = u.pid) : t = u := List.inj_on_of_nodup_map pids left right same

theorem dead_of_canReap (reaps : taskCanReap tasks t = true) : t.state = .dead := by
  unfold taskCanReap at reaps
  split at reaps
  · cases reaps
  · rename_i dead
    exact Decidable.not_not.mp dead

/-- What the test asks of the list: nothing of a task that is no zombie or has no
parent, else that no parent is there, or a dead one, or one that waits for it. -/
theorem canReap_iff (pids : (tasks.map Task.pid).Nodup) : taskCanReap tasks t = true ↔ t.state = .dead ∧
    (t.isZombie = false ∨ t.parentPid = 0 ∨ ∀ p ∈ tasks, p.pid = t.parentPid →
      p.state = .dead ∨ (p.state = .waiting ∧ p.waitingOnPid = t.pid)) := by
  unfold taskCanReap
  by_cases dead : t.state = .dead
  · rw [if_neg (not_not_intro dead)]
    by_cases free : ¬ t.isZombie ∨ t.parentPid = 0
    · rw [if_pos free]
      refine iff_of_true rfl ⟨dead, ?_⟩
      rcases free with noZombie | orphan
      · exact Or.inl (Bool.eq_false_iff.mpr noZombie)
      · exact Or.inr (Or.inl orphan)
    · rw [if_neg free]
      push Not at free
      cases found : tasks.find? (·.pid = t.parentPid) with
      | none =>
        have missing := List.find?_eq_none.mp found
        refine iff_of_true rfl ⟨dead, Or.inr (Or.inr fun p member same => ?_)⟩
        exact absurd (decide_eq_true same) (missing p member)
      | some parent =>
        have member := List.mem_of_find?_eq_some found
        have hit := List.find?_some found
        have same : parent.pid = t.parentPid := of_decide_eq_true hit
        dsimp only
        constructor
        · intro reaps
          refine ⟨dead, Or.inr (Or.inr fun p memberP sameP => ?_)⟩
          obtain rfl := pid_unique pids memberP member (sameP.trans same.symm)
          split at reaps
          · rename_i deadParent
            exact Or.inl deadParent
          · exact Or.inr (of_decide_eq_true reaps)
        · rintro ⟨-, noZombie | orphan | parents⟩
          · exact absurd noZombie (by simp [free.1])
          · exact absurd orphan free.2
          · split
            · rfl
            · rename_i alive
              exact decide_eq_true ((parents parent member same).resolve_left alive)
  · rw [if_pos dead]
    exact iff_of_false nofun fun held => dead held.1

theorem pids_below (pids : (tasks.map Task.pid).Nodup) (below : now.Sublist tasks) : (now.map Task.pid).Nodup :=
  (below.map _).nodup pids

/-- The test is the same on what remains of the list. -/
theorem canReap_remains (pids : (tasks.map Task.pid).Nodup) (remains : Remains tasks now) (t : Task) :
    taskCanReap now t = taskCanReap tasks t := by
  rw [Bool.eq_iff_iff, canReap_iff pids, canReap_iff (pids_below pids remains.below)]
  refine and_congr_right fun _ =>
    or_congr_right (or_congr_right ⟨fun parents p member same => ?_, fun parents p member => ?_⟩)
  · by_cases dead : p.state = .dead
    · exact Or.inl dead
    · exact parents p (remains.alive p member dead) same
  · exact parents p (remains.below.subset member)

theorem remains_drop (remains : Remains tasks (kept ++ t :: rest)) (dead : t.state = .dead) :
    Remains tasks (kept ++ rest) := by
  refine ⟨((List.sublist_cons_self t rest).append_left kept).trans remains.below, fun u member alive => ?_⟩
  rcases List.mem_append.mp (remains.alive u member alive) with early | late
  · exact List.mem_append_left _ early
  · rcases List.mem_cons.mp late with rfl | later
    · exact absurd dead alive
    · exact List.mem_append_right _ later

/-- The pass keeps what cannot be reaped and frees the others, in the order of
the list. -/
theorem reapFrees_eq (kept : List Task) (pids : (tasks.map Task.pid).Nodup) (remains : Remains tasks (kept ++ rest)) :
    reapFrees kept rest = (kept ++ rest.filter (fun t => !taskCanReap tasks t),
      (rest.filter (taskCanReap tasks)).flatMap freesOf) := by
  induction rest generalizing kept with
  | nil => simp [reapFrees]
  | cons t rest ih =>
    unfold reapFrees
    rw [canReap_remains pids remains]
    by_cases reaps : taskCanReap tasks t = true
    · have dead := dead_of_canReap reaps
      rw [if_pos ⟨dead, reaps⟩, ih _ (remains_drop remains dead)]
      simp [reaps]
    · rw [if_neg (fun held => reaps held.2), ih _ (by simpa using remains)]
      simp [reaps]

theorem frees_nodup (distinct : tasks.Nodup) : (tasks.flatMap freesOf).Nodup := by
  refine List.nodup_flatMap.mpr ⟨fun t _ => by simp [freesOf], distinct.imp fun apart => ?_⟩
  simp [Function.onFun, freesOf, Ne.symm apart]

theorem canReap_perm (pids : (tasks.map Task.pid).Nodup) (perm : now.Perm tasks) (t : Task) :
    taskCanReap now t = taskCanReap tasks t := by
  rw [Bool.eq_iff_iff, canReap_iff pids, canReap_iff ((perm.map _).nodup_iff.mpr pids)]
  simp only [perm.mem_iff]

theorem reapFrees_whole (pids : (tasks.map Task.pid).Nodup) : reapFrees [] tasks =
    (tasks.filter (fun t => !taskCanReap tasks t), (tasks.filter (taskCanReap tasks)).flatMap freesOf) :=
  reapFrees_eq [] pids ⟨List.Sublist.refl _, fun _ member _ => member⟩

/-- A pass that is wanted keeps what cannot be reaped. -/
theorem idleCleanup_keeps (s : Scheduler) (wanted : s.needsCleanup = true) (pids : (s.taskList.map Task.pid).Nodup) :
    (idleCleanup s).taskList = s.taskList.filter fun t => !taskCanReap s.taskList t := by
  unfold idleCleanup
  rw [if_pos wanted]
  dsimp only
  rw [← reapFrees_fst, reapFrees_whole pids]

end

/-- One pass keeps, in their order, the tasks that could not be reaped when it
began, and frees stack and record of each of the others once; which these are
depends on the tasks alone. -/
theorem cleanup_reaps (s : Scheduler) (wanted : s.needsCleanup = true) (pids : (s.taskList.map Task.pid).Nodup) :
    (idleCleanup s).taskList = s.taskList.filter (fun t => !taskCanReap s.taskList t) ∧
      reapFrees [] s.taskList = ((idleCleanup s).taskList, (reapable s.taskList).flatMap freesOf) ∧
      ((reapable s.taskList).flatMap freesOf).Nodup ∧
      ∀ other : Scheduler, other.taskList.Perm s.taskList →
      (reapable other.taskList).Perm (reapable s.taskList) := by
  have list := idleCleanup_keeps s wanted pids
  refine ⟨list, ?_, frees_nodup (pids.of_map.filter _), fun other perm => ?_⟩
  · rw [reapFrees_whole pids, list]
    rfl
  · unfold reapable
    rw [List.filter_congr fun t _ => canReap_perm pids perm t]
    exact perm.filter _

/-- A zombie that stands before its parent, which is dead too, and one behind. -/
def family : List Task :=
  [{ newTask 3 3 4 true with state := .dead, isZombie := true }, { newTask 4 4 1 true with state := .dead },
    { newTask 5 5 4 true with state := .dead, isZombie := true }, newTask 1 1 0 false]

theorem cleanup_reaps_family :
    (idleCleanup ⟨family, 1, 6, true, 0, 6⟩).taskList = [newTask 1 1 0 false] ∧ (reapable family).length = 3 := by
  have pass := cleanup_reaps ⟨family, 1, 6, true, 0, 6⟩ rfl (by decide)
  refine ⟨pass.1.trans (by decide), by decide⟩

end MeowMeowOS.TaskReaping

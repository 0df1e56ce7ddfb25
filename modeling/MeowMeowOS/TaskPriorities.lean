import MeowMeowOS.TaskRecords
import Mathlib.Data.Prod.Lex

/-! The choice of the next task, against its order: higher dynamic priority
first, then the longer wait, then the place in the list. -/
namespace MeowMeowOS.TaskPriorities
open GuardedRuns Tasks RunningTask TaskRecords

/-- What the choice ranks a task by. -/
def rank (t : Task) : ℕ ×ₗ ℕ := toLex (t.dynamicPriority, t.waitTicks)

theorem outranks_iff (t u : Task) : Outranks t u ↔ rank u < rank t := by
  rw [rank, rank, Prod.Lex.toLex_lt_toLex]
  exact or_congr_right (and_congr_left fun _ => eq_comm)

/-- The records as the pass over the list leaves them: all that are ready but
the current one are aged. -/
def aged (s : Scheduler) : List Task := s.taskList.map fun t =>
  if t.state = .ready ∧ t.address ≠ s.currentTask then age t else t

/-- The first of the eligible tasks of highest rank. -/
structure FirstHighest (a : Nat) (tasks : List Task) (b : Task) : Prop where
  eligible : Eligible a b
  highest : ∀ t ∈ tasks, Eligible a t → rank t ≤ rank b
  first : ∃ before after, tasks = before ++ b :: after ∧ ∀ t ∈ before, Eligible a t → rank t < rank b

/-- The priorities of a task are in order and none is above the highest. -/
def Ordered (t : Task) : Prop := t.basePriority ≤ t.dynamicPriority ∧ t.dynamicPriority ≤ priorityMax

section
variable {s : Scheduler} {a : Nat} {b : Task} {tasks : List Task}

theorem aged_eq (s : Scheduler) : aged s = s.taskList.map (visit s.currentTask) := by
  refine List.map_congr_left fun t _ => ?_
  unfold visit
  simp only [and_comm]

theorem firstHighest_of_best (best : Best a tasks b) : FirstHighest a tasks b := by
  obtain ⟨eligible, before, after, rfl, above, notAbove⟩ := best
  have earlier : ∀ t ∈ before, Eligible a t → rank t < rank b :=
    fun t member held => (outranks_iff b t).mp (above t member held)
  refine ⟨eligible, fun t member held => ?_, before, after, rfl, earlier⟩
  rcases List.mem_append.mp member with early | late
  · exact (earlier t early held).le
  · rcases List.mem_cons.mp late with rfl | later
    · exact le_rfl
    · have below := notAbove t later held
      rw [outranks_iff] at below
      exact not_lt.mp below

theorem firstHighest_unique (left : FirstHighest a tasks b) (right : FirstHighest a tasks c) : b = c := by
  have same : rank b = rank c := by
    apply le_antisymm
    · obtain ⟨before, after, rfl, -⟩ := left.first
      exact right.highest b (by simp) left.eligible
    · obtain ⟨before, after, rfl, -⟩ := right.first
      exact left.highest c (by simp) right.eligible
  obtain ⟨before, after, rfl, earlierB⟩ := left.first
  obtain ⟨before', after', shape, earlierC⟩ := right.first
  rcases List.append_eq_append_iff.mp shape with ⟨mid, rfl, tail⟩ | ⟨mid, rfl, tail⟩
  · cases mid with
    | nil => exact (List.cons.inj tail).1
    | cons x mid =>
      obtain ⟨rfl, -⟩ := List.cons.inj tail
      have below := earlierC b (by simp) left.eligible
      exact absurd same (ne_of_lt below)
  · cases mid with
    | nil => exact (List.cons.inj tail).1.symm
    | cons x mid =>
      obtain ⟨rfl, -⟩ := List.cons.inj tail
      have below := earlierB c (by simp) right.eligible
      exact absurd same.symm (ne_of_lt below)

theorem chosen_iff (chosen : Chosen a tasks next) :
    (∀ b, next = some b ↔ FirstHighest a tasks b) ∧ (next = none ↔ ∀ t ∈ tasks, ¬ Eligible a t) := by
  cases next with
  | none =>
    have nobody := chosen.none rfl
    refine ⟨fun b => ⟨nofun, fun highest => ?_⟩, ⟨fun _ => nobody, fun _ => rfl⟩⟩
    obtain ⟨before, after, rfl, -⟩ := highest.first
    exact absurd highest.eligible (nobody b (by simp))
  | some c =>
    have highest := firstHighest_of_best (chosen.some c rfl)
    refine ⟨fun b => ⟨fun same => Option.some.inj same ▸ highest, fun other => ?_⟩,
      ⟨nofun, fun nobody => ?_⟩⟩
    · rw [firstHighest_unique highest other]
    · obtain ⟨before, after, rfl, -⟩ := highest.first
      exact absurd highest.eligible (nobody c (by simp))

theorem ordered_lasting : Lasting Ordered where
  same := by
    rintro t u same ordered
    rw [Ordered, same.basePriority, same.dynamicPriority]
    exact ordered
  boosted := fun t ordered below => ⟨Nat.le_succ_of_le ordered.1, below⟩
  dispatched := fun t ordered => ⟨Nat.le_refl _, ordered.1.trans ordered.2⟩
  ranked := fun t priority _ small => ⟨Nat.le_refl _, small⟩
  posted := fun _ _ ordered _ _ => ordered
  cleared := fun _ _ ordered => ordered
  handled := fun _ _ _ ordered _ => ordered
  created := fun _ _ _ _ => ⟨Nat.le_refl _, (by decide : priorityNormal ≤ priorityMax)⟩

/-- The pass ages the ready tasks and returns the first of the highest rank; the
priorities stay in order in every run. -/
theorem find_next_ready_first :
    (∀ s, (taskFindNextReady s).1 = { s with taskList := aged s } ∧
      (∀ b, (taskFindNextReady s).2 = some b ↔ FirstHighest s.currentTask (aged s) b) ∧
      ((taskFindNextReady s).2 = none ↔ ∀ t ∈ aged s, ¬ Eligible s.currentTask t)) ∧
    ∀ s, Reached s → ∀ t ∈ s.taskList, t.basePriority ≤ t.dynamicPriority ∧
    t.dynamicPriority ≤ priorityMax := by
  refine ⟨fun s => ?_, fun s reached => reached_all ordered_lasting reached⟩
  obtain ⟨next, found, chosen⟩ := taskFindNextReady_chosen s
  rw [aged_eq, found]
  exact ⟨rfl, chosen_iff chosen⟩

end

end MeowMeowOS.TaskPriorities

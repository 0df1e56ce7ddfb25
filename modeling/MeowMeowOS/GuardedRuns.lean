import Mathlib.Logic.Relation

/-! Runs of a labelled step relation in which every step meets a guard on the
state it starts from and on its label. An invariant that guarded steps keep
holds wherever a guarded run leads. -/
namespace MeowMeowOS.GuardedRuns

section
variable {State Action : Type*} (guard : State → Action → Prop)
  (Step : State → Action → State → Prop)

def GuardedStep (s t : State) : Prop := ∃ action, guard s action ∧ Step s action t

/-- Any number of guarded steps, one after the other. -/
abbrev Run : State → State → Prop := Relation.ReflTransGen (GuardedStep guard Step)

variable {guard Step}

theorem run_then (run : Run guard Step s t) (allowed : guard t action)
    (step : Step t action u) : Run guard Step s u :=
  run.tail ⟨action, allowed, step⟩

theorem run_invariant (Inv : State → Prop) (run : Run guard Step s t) (initial : Inv s)
    (preserved : ∀ t action u, Inv t → guard t action → Step t action u → Inv u) : Inv t := by
  induction run with
  | refl => exact initial
  | tail _ step ih =>
    obtain ⟨action, allowed, moved⟩ := step
    exact preserved _ action _ ih allowed moved

end

end MeowMeowOS.GuardedRuns

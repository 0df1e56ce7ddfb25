import Mathlib.Logic.Relation
import Mathlib.Order.WellFounded
import Mathlib.Data.Set.Finite.Basic

/-! Runs of a relation that leaves no choice. A run that can take no step has ended;
over finitely many states a run ends unless it meets a cycle. -/
namespace MeowMeowOS.DeterministicRuns
open Relation

section
variable {α : Type*} {r s : α → α → Prop} {a b c : α}

def Ended (r : α → α → Prop) (a : α) : Prop := ∀ b, ¬ r a b

/-- What a run has reached later lies below. -/
def Later (r : α → α → Prop) (a : α) (b c : {b // ReflTransGen r a b}) : Prop := TransGen r c.1 b.1

/-- Every run from `a` is on the way to the end that one of them has; it takes the steps of that one. -/
theorem leads_end (unique : Relator.RightUnique r) (le : ∀ x y, s x y → r x y) (path : ReflTransGen s a c)
    (ended : Ended r c) (leads : ReflTransGen r a b) : ReflTransGen s b c := by
  induction leads with
  | refl => exact path
  | tail _ step ih =>
    rcases ih.cases_head with rfl | ⟨next, first, rest⟩
    · exact absurd step (ended _)
    · rwa [unique step (le _ _ first)]

theorem ended_unique (unique : Relator.RightUnique r) (first : ReflTransGen r a b) (ended : Ended r b)
    (second : ReflTransGen r a c) (ended' : Ended r c) : b = c := by
  rcases (leads_end unique (fun _ _ => id) second ended' first).cases_head with same | ⟨next, step, -⟩
  · exact same
  · exact absurd step (ended next)

/-- What a cycle leads to leads back. -/
theorem leads_back (unique : Relator.RightUnique r) (cycle : TransGen r a a) (leads : ReflTransGen r a b) :
    ReflTransGen r b a := by
  induction leads with
  | refl => exact .refl
  | tail _ step ih =>
    rcases ih.cases_head with rfl | ⟨next, first, rest⟩
    · obtain ⟨next, first, rest⟩ := TransGen.head'_iff.mp cycle
      rwa [unique step first]
    · rwa [unique step first]

theorem ends_of_acyclic (finite : {b | ReflTransGen r a b}.Finite)
    (acyclic : ∀ b, ReflTransGen r a b → ¬ TransGen r b b) : ∃ b, ReflTransGen r a b ∧ Ended r b := by
  have : Finite {b // ReflTransGen r a b} := finite.to_subtype
  have : IsTrans _ (Later r a) := ⟨fun _ _ _ first second => second.trans first⟩
  have : Std.Irrefl (Later r a) := ⟨fun b => acyclic b.1 b.2⟩
  obtain ⟨last, -, least⟩ :=
    (Finite.wellFounded_of_trans_of_irrefl (Later r a)).has_min Set.univ ⟨⟨a, .refl⟩, trivial⟩
  exact ⟨last.1, last.2, fun b step => least ⟨b, last.2.tail step⟩ trivial (.single step)⟩

theorem ends_iff (unique : Relator.RightUnique r) (finite : {b | ReflTransGen r a b}.Finite) :
    (∃ b, ReflTransGen r a b ∧ Ended r b) ↔ ∀ b, ReflTransGen r a b → ¬ TransGen r b b := by
  refine ⟨fun ⟨last, leads, ended⟩ b reached cycle => ?_, ends_of_acyclic finite⟩
  have onward := leads_end unique (fun _ _ => id) leads ended reached
  rcases (leads_back unique cycle onward).cases_head with rfl | ⟨next, step, -⟩
  · obtain ⟨next, step, -⟩ := TransGen.head'_iff.mp cycle
    exact ended next step
  · exact ended next step

end

end MeowMeowOS.DeterministicRuns

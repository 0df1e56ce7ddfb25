/-! Machines that answer every request and go on from the state that it leaves. When each
step of one machine is matched by a step of another with the same answer, so is every run. -/
namespace MeowMeowOS.AnsweringMachines

section
variable {σ τ ρ α : Type _} {f : σ → ρ → σ × α} {g : τ → ρ → τ × α}

/-- The state behind all requests, and their answers in order. -/
def answerAll (f : σ → ρ → σ × α) (s : σ) : List ρ → σ × List α
  | [] => (s, [])
  | request :: rest => ((answerAll f (f s request).1 rest).1, (f s request).2 :: (answerAll f (f s request).1 rest).2)

/-- The two machines answer alike in related states, and stay related. -/
def Simulates (Asked : ρ → Prop) (R : σ → τ → Prop) (f : σ → ρ → σ × α)
    (g : τ → ρ → τ × α) : Prop :=
  ∀ s t request, Asked request → R s t → R (f s request).1 (g t request).1 ∧ (f s request).2 = (g t request).2

theorem answerAll_simulates {Asked : ρ → Prop} {R : σ → τ → Prop} (simulates : Simulates Asked R f g)
    (requests : List ρ)
    (asked : ∀ request ∈ requests, Asked request) {s : σ} {t : τ} (related : R s t) :
    R (answerAll f s requests).1 (answerAll g t requests).1 ∧
    (answerAll f s requests).2 = (answerAll g t requests).2 := by
  induction requests generalizing s t with
  | nil => exact ⟨related, rfl⟩
  | cons request rest ih =>
    obtain ⟨first, more⟩ := List.forall_mem_cons.mp asked
    obtain ⟨after, answer⟩ := simulates s t request first related
    obtain ⟨last, answers⟩ := ih more after
    exact ⟨last, by rw [answerAll, answerAll, answer, answers]⟩

end

end MeowMeowOS.AnsweringMachines

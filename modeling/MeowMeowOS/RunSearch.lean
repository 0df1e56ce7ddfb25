import Mathlib.Data.Nat.Basic

/-! The search for the first run of free places of a given length in an array
that is scanned once from the front. It counts the free places seen in a row
and remembers where they began. -/
namespace MeowMeowOS.RunSearch

/-- `consecutive` free places end right before `i`, where `remaining` places
are still to be looked at. -/
def firstRun (free : Nat → Bool) (count : Nat) : Nat → Nat → Nat → Nat → Option Nat
  | 0, _, _, _ => none
  | remaining + 1, i, consecutive, start =>
    if free i then
      let start := if consecutive = 0 then i else start
      if consecutive + 1 = count then some start
      else firstRun free count remaining (i + 1) (consecutive + 1) start
    else firstRun free count remaining (i + 1) 0 start

section
variable {free : Nat → Bool} {count remaining i consecutive start : Nat}

/-- A run that is found is free and lies within the places looked at. -/
theorem firstRun_free (counted : 0 < consecutive → start + consecutive = i)
    (run : ∀ b, start ≤ b → b < start + consecutive → free b = true)
    (found : firstRun free count remaining i consecutive start = some b) :
    b + count ≤ i + remaining ∧ ∀ j < count, free (b + j) = true := by
  induction remaining generalizing i consecutive start with
  | zero => cases found
  | succ remaining ih =>
    simp only [firstRun] at found
    split at found
    · rename_i here
      -- the run now ends behind place i
      generalize startEq : (if consecutive = 0 then i else start) = begun at found
      have ends : begun + consecutive = i := by
        rw [← startEq]
        split
        · omega
        · exact counted (by omega)
      have longer : ∀ b, begun ≤ b → b < begun + (consecutive + 1) → free b = true := by
        intro b above below
        by_cases last : b = i
        · rw [last, here]
        · refine run b ?_ ?_ <;> split at startEq <;> omega
      split at found
      · rename_i full
        obtain rfl : begun = b := by simpa using found
        exact ⟨by omega, fun j small => longer _ (by omega) (by omega)⟩
      · have := ih (by omega) longer found
        exact ⟨by omega, this.2⟩
    · have := ih (by omega) (by omega) found
      exact ⟨by omega, this.2⟩

/-- No run of that length begins further in front. -/
theorem firstRun_earliest (counted : 0 < consecutive → start + consecutive = i)
    (unfinished : consecutive < count)
    (found : firstRun free count remaining i consecutive start = some b)
    (ahead : (if consecutive = 0 then i else start) ≤ a) (before : a < b) :
    ∃ j < count, free (a + j) = false := by
  induction remaining generalizing i consecutive start with
  | zero => cases found
  | succ remaining ih =>
    simp only [firstRun] at found
    generalize startEq : (if consecutive = 0 then i else start) = begun at found ahead
    have ends : begun + consecutive = i := by
      rw [← startEq]
      split
      · omega
      · exact counted (by omega)
    split at found
    · split at found
      · obtain rfl : begun = b := by simpa using found
        omega
      · exact ih (fun _ => by omega) (by omega) found (by rw [if_neg (by omega)]; exact ahead)
    · rename_i taken
      by_cases reach : a ≤ i
      · refine ⟨i - a, by omega, ?_⟩
        rw [Nat.add_sub_of_le reach]
        simpa using taken
      · exact ih (fun some => absurd some (by omega)) (by omega) found (by rw [if_pos rfl]; omega)

/-- The search looks at no other places. -/
theorem firstRun_congr {free' : Nat → Bool} (same : ∀ b, i ≤ b → b < i + remaining → free' b = free b) :
    firstRun free' count remaining i consecutive start = firstRun free count remaining i consecutive start := by
  induction remaining generalizing i consecutive start with
  | zero => rfl
  | succ remaining ih =>
    have further : ∀ c s, firstRun free' count remaining (i + 1) c s = firstRun free count remaining (i + 1) c s :=
      fun c s => ih fun b above below => same b (by omega) (by omega)
    simp only [firstRun, same i (Nat.le_refl i) (by omega), further]

/-- Runs of one place: the first free place is found. -/
theorem firstRun_one (start : Nat) (below : ∃ b, i ≤ b ∧ b < i + remaining ∧ free b = true) :
    ∃ b, firstRun free 1 remaining i 0 start = some b ∧ i ≤ b ∧ b < i + remaining ∧
      free b = true ∧ ∀ c, i ≤ c → c < b → free c = false := by
  induction remaining generalizing i with
  | zero =>
    obtain ⟨b, above, small, -⟩ := below
    omega
  | succ remaining ih =>
    by_cases here : free i = true
    · exact ⟨i, by simp [firstRun, here], by omega, by omega, here, by omega⟩
    · obtain ⟨b, above, small, freeB⟩ := below
      have ne : b ≠ i := fun same => here (by rw [← same, freeB])
      obtain ⟨d, found, aboveD, smallD, freeD, lowest⟩ :=
        ih (i := i + 1) ⟨b, by omega, by omega, freeB⟩
      refine ⟨d, by simp [firstRun, here, found], by omega, by omega, freeD, ?_⟩
      intro c aboveC belowC
      by_cases first : c = i
      · rw [first]
        simpa using here
      · exact lowest c (by omega) belowC

end

end MeowMeowOS.RunSearch

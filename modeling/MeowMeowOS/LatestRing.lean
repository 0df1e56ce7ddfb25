import Mathlib.Data.List.DropRight
import Mathlib.Data.Nat.ModEq
import Mathlib.Logic.Function.Basic

/-! A ring that is written without end: each item takes the slot of the item
one capacity before it, so that the latest ones are held. -/
namespace MeowMeowOS.LatestRing

section
variable {α : Type*} {cap count : Nat} {slots : Nat → α} {written : List α}

/-- Item `i` stands in slot `i % cap` until another capacity of them is written. -/
def Keeps (cap : Nat) (slots : Nat → α) (written : List α) : Prop :=
  ∀ i (small : i < written.length), written.length ≤ i + cap → slots (i % cap) = written[i]

theorem keeps_nil : Keeps cap slots [] := fun _ small => absurd small (Nat.not_lt_zero _)

/-- The slot of an item is not that of another held one. -/
theorem slot_apart (before : i < n) (held : n < i + cap) : i % cap ≠ n % cap := by
  intro same
  obtain ⟨k, rfl⟩ := Nat.exists_eq_add_of_lt before
  have round : cap ∣ k + 1 := by
    have close : i + 0 ≡ i + (k + 1) [MOD cap] := same
    exact (Nat.modEq_zero_iff_dvd.mp (Nat.ModEq.add_left_cancel' i close).symm)
  have := Nat.le_of_dvd (Nat.succ_pos _) round
  omega

theorem keeps_push (kept : Keeps cap slots written) (x : α) :
    Keeps cap (Function.update slots (written.length % cap) x) (written ++ [x]) := by
  intro i small held
  rw [List.length_append, List.length_singleton] at small held
  by_cases last : i = written.length
  · subst last
    simp
  · have inner : i < written.length := by omega
    rw [Function.update_of_ne (slot_apart inner (by omega)), List.getElem_append_left inner]
    exact kept i inner (by omega)

/-- The slot `count` places before the next one to be written. -/
theorem slot_back (few : count ≤ n) (fits : count ≤ cap) :
    (n % cap + (cap - count)) % cap = (n - count) % cap := by
  have whole : n % cap + (cap - count) + count = n % cap + cap := by omega
  have close : n % cap + (cap - count) + count ≡ n - count + count [MOD cap] := by
    rw [whole, Nat.sub_add_cancel few, Nat.ModEq, Nat.add_mod_right, Nat.mod_mod]
  exact Nat.ModEq.add_right_cancel' count close

/-- The last items, from the slot of the first of them on. -/
theorem keeps_last (kept : Keeps cap slots written) (few : count ≤ written.length) (fits : count ≤ cap) :
    (List.range count).map (fun i => slots ((written.length - count + i) % cap)) = written.rtake count := by
  have length : (written.rtake count).length = count := by
    rw [List.rtake, List.length_drop]
    omega
  refine List.ext_getElem (by rw [List.length_map, List.length_range, length]) fun i small _ => ?_
  rw [List.length_map, List.length_range] at small
  rw [List.getElem_map, List.getElem_range, kept _ (by omega) (by omega)]
  simp [List.rtake]

end

end MeowMeowOS.LatestRing

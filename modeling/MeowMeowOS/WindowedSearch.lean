import Mathlib.Data.List.Basic

/-! A pattern looked for in one window of a text after the other. Windows that
share one symbol less than the pattern is long miss no occurrence. -/
namespace MeowMeowOS.WindowedSearch

/-- The pattern stands at place `p` of the text. -/
def OccursAt {α : Type*} (pattern text : List α) (p : Nat) : Prop := (text.drop p).take pattern.length = pattern

/-- The first place of those that satisfy `P`. -/
def First (P : Nat → Prop) (p : Nat) : Prop := P p ∧ ∀ q < p, ¬ P q

section
variable {α : Type*} {pattern text : List α} {P : Nat → Prop} {start size i p q : Nat}

theorem first_unique (first : First P p) (other : First P q) : p = q := by
  rcases Nat.lt_trichotomy p q with less | same | more
  · exact absurd first.1 (other.2 p less)
  · exact same
  · exact absurd other.1 (first.2 q more)

theorem occursAt_inside (nonempty : pattern ≠ []) (occurs : OccursAt pattern text p) :
    p + pattern.length ≤ text.length := by
  have long := congrArg List.length occurs
  have positive := List.length_pos_of_ne_nil nonempty
  rw [List.length_take, List.length_drop] at long
  omega

/-- Where there is room for the pattern the window shows it just as the text does. -/
theorem occursAt_window (room : i + pattern.length ≤ size) :
    OccursAt pattern ((text.drop start).take size) i ↔ OccursAt pattern text (start + i) := by
  unfold OccursAt
  rw [List.drop_take, List.take_take, List.drop_drop, Nat.min_eq_left (by omega)]

theorem window_length (text : List α) (start size : Nat) : ((text.drop start).take size).length ≤ size :=
    List.length_take_le _ _

/-- Without an occurrence in the window the next may begin so far behind it. -/
theorem occurs_behind_window (none : ∀ i, ¬ OccursAt pattern ((text.drop start).take size) i) (from' : start ≤ p)
    (occurs : OccursAt pattern text p) : start + size < p + pattern.length := by
  by_contra near
  refine none (p - start) ((occursAt_window (by omega)).mpr ?_)
  rwa [Nat.add_sub_cancel' from']

/-- The first occurrence in a window is the first in the text from its start on. -/
theorem first_of_window (nonempty : pattern ≠ []) (first : First (OccursAt pattern ((text.drop start).take size)) i) :
    OccursAt pattern text (start + i) ∧ start + i + pattern.length ≤ start + size ∧
      ∀ q, start ≤ q → q < start + i → ¬ OccursAt pattern text q := by
  have inside := occursAt_inside nonempty first.1
  have length := window_length text start size
  have room : i + pattern.length ≤ size := by omega
  refine ⟨(occursAt_window room).mp first.1, by omega, fun q from' before occurs => ?_⟩
  refine first.2 (q - start) (by omega) ((occursAt_window (by omega)).mpr ?_)
  rwa [Nat.add_sub_cancel' from']

end

end MeowMeowOS.WindowedSearch

import Mathlib.Data.List.Basic
import Mathlib.Data.Nat.ModEq
import Mathlib.Logic.Function.Basic

/-! A queue kept in the slots of a ring: its items stand one after the other
from the first slot on, around the end of the ring. -/
namespace MeowMeowOS.RingQueue

section
variable {α : Type*} {cap first : Nat} {slots : Nat → α} {items rest : List α} {x : α}

def Holds (cap : Nat) (slots : Nat → α) (first : Nat) (items : List α) : Prop :=
  ∀ i (small : i < items.length), slots ((first + i) % cap) = items[i]

theorem holds_nil : Holds cap slots first [] := fun _ small => absurd small (Nat.not_lt_zero _)

/-- Two offsets below the capacity lead to two slots. -/
theorem slot_injective (left : i < cap) (right : j < cap) (same : (first + i) % cap = (first + j) % cap) : i = j := by
  have close : i ≡ j [MOD cap] := Nat.ModEq.add_left_cancel' first same
  rwa [Nat.ModEq, Nat.mod_eq_of_lt left, Nat.mod_eq_of_lt right] at close

theorem holds_push (held : Holds cap slots first items) (room : items.length < cap) (x : α) :
    Holds cap (Function.update slots ((first + items.length) % cap) x) first (items ++ [x]) := by
  intro i small
  rw [List.length_append, List.length_singleton] at small
  by_cases last : i = items.length
  · subst last
    simp
  · have inner : i < items.length := by omega
    have apart : (first + i) % cap ≠ (first + items.length) % cap :=
      fun same => last (slot_injective (by omega) room same)
    rw [Function.update_of_ne apart, List.getElem_append_left inner]
    exact held i inner

theorem holds_first (held : Holds cap slots first (x :: rest)) : slots (first % cap) = x :=
  held 0 (Nat.succ_pos _)

theorem holds_pop (held : Holds cap slots first (x :: rest)) : Holds cap slots ((first + 1) % cap) rest := by
  intro i small
  have shifted := held (i + 1) (Nat.succ_lt_succ small)
  rw [List.getElem_cons_succ] at shifted
  rw [← shifted, Nat.mod_add_mod]
  congr 2
  omega

end

end MeowMeowOS.RingQueue

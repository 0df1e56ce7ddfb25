import Mathlib.Data.List.TakeWhile
import Mathlib.Logic.Function.Basic

/-! Strings in buffers of bytes: a text stands from the first byte on, and a zero
byte ends it. -/
namespace MeowMeowOS.StringBuffers

/-- The first bytes of the buffer are these. -/
def Begins (buffer : Nat → UInt8) (s : List UInt8) : Prop :=
  ∀ i (small : i < s.length), buffer i = s[i]

/-- The buffer holds the string and its terminator. -/
def Holds (buffer : Nat → UInt8) (s : List UInt8) : Prop :=
  Begins buffer s ∧ buffer s.length = 0

/-- The string in a buffer of that size. -/
def textOf (size : Nat) (buffer : Nat → UInt8) : List UInt8 :=
  ((List.range size).map buffer).takeWhile (· ≠ 0)

/-- `strncpy(dest, s, n)` -/
def strncpy (dest : Nat → UInt8) (s : List UInt8) (n : Nat) : Nat → UInt8 :=
  fun i => if i < n then s[i]?.getD 0 else dest i

/-- `strncpy(dest, s, n); dest[n] = 0` -/
def copyString (dest : Nat → UInt8) (s : List UInt8) (n : Nat) : Nat → UInt8 :=
  Function.update (strncpy dest s n) n 0

section
variable {buffer : Nat → UInt8} {s : List UInt8} {size n i : Nat}

theorem begins_nil : Begins buffer [] := fun _ small => absurd small (Nat.not_lt_zero _)

theorem Begins.put (begins : Begins buffer s) (c : UInt8) : Begins (Function.update buffer s.length c) (s ++ [c]) := by
  intro i small
  rw [List.length_append, List.length_singleton] at small
  by_cases last : i = s.length
  · subst last
    simp
  · have inner : i < s.length := by omega
    rw [Function.update_of_ne last, List.getElem_append_left inner]
    exact begins i inner

theorem Begins.terminate (begins : Begins buffer s) : Holds (Function.update buffer s.length 0) s :=
  ⟨fun i small => (Function.update_of_ne (Nat.ne_of_lt small) _ _).trans (begins i small),
    Function.update_self _ _ _⟩

theorem Begins.shorten (begins : Begins buffer s) (byte : UInt8) :
    Begins (Function.update buffer (s.length - 1) byte) s.dropLast := by
  intro i small
  rw [List.length_dropLast] at small
  rw [Function.update_of_ne (Nat.ne_of_lt small), List.getElem_dropLast]
  exact begins i (by omega)

theorem strncpy_inside (inside : i < n) : strncpy buffer s n i = s[i]?.getD 0 := if_pos inside

theorem strncpy_outside (outside : n ≤ i) : strncpy buffer s n i = buffer i := if_neg (by omega)

theorem strncpy_begins (buffer : Nat → UInt8) (s : List UInt8) (n : Nat) :
    Begins (strncpy buffer s n) (s.take n) := by
  intro i small
  rw [List.length_take] at small
  rw [strncpy_inside (by omega), List.getElem?_eq_getElem (by omega), Option.getD_some, List.getElem_take]

/-- A string that leaves room is ended by the copy. -/
theorem strncpy_holds (buffer : Nat → UInt8) (fits : s.length < n) : Holds (strncpy buffer s n) s := by
  have begins := strncpy_begins buffer s n
  rw [List.take_of_length_le (Nat.le_of_lt fits)] at begins
  refine ⟨begins, ?_⟩
  rw [strncpy_inside fits, List.getElem?_eq_none (Nat.le_refl _)]
  rfl

theorem copyString_holds (buffer : Nat → UInt8) (s : List UInt8) (n : Nat) :
    Holds (copyString buffer s n) (s.take n) := by
  unfold copyString
  by_cases cut : n ≤ s.length
  · have begins := (strncpy_begins buffer s n).terminate
    rwa [List.length_take, Nat.min_eq_left cut] at begins
  · obtain ⟨begins, ended⟩ := strncpy_holds buffer (s := s) (n := n) (by omega)
    rw [List.take_of_length_le (by omega)]
    refine ⟨fun i small => ?_, ?_⟩
    · rw [Function.update_of_ne (by omega)]
      exact begins i small
    · rw [Function.update_of_ne (by omega)]
      exact ended

/-- A string with room for its terminator is copied whole. -/
theorem copyString_whole (buffer : Nat → UInt8) (fits : s.length ≤ n) : Holds (copyString buffer s n) s := by
  have holds := copyString_holds buffer s n
  rwa [List.take_of_length_le fits] at holds

theorem copyString_outside (outside : n < i) : copyString buffer s n i = buffer i := by
  rw [copyString, Function.update_of_ne (by omega), strncpy_outside (by omega)]

theorem textOf_noZero (size : Nat) (buffer : Nat → UInt8) : 0 ∉ textOf size buffer := fun zero => by
  simpa using List.mem_takeWhile_imp zero

theorem Holds.text (holds : Holds buffer s) (noZero : 0 ∉ s) (fits : s.length < size) : textOf size buffer = s := by
  obtain ⟨more, rfl⟩ := Nat.exists_eq_add_of_lt fits
  have first : (List.range s.length).map buffer = s := by
    refine List.ext_getElem (by simp) fun i small _ => ?_
    rw [List.length_map, List.length_range] at small
    simp [holds.1 i small]
  have split : List.range (s.length + more + 1) =
      List.range s.length ++ s.length :: (List.range more).map (s.length + 1 + ·) := by
    rw [Nat.add_assoc, List.range_add, List.range_succ_eq_map, List.map_cons, List.map_map]
    congr 3
    funext i
    simp only [Function.comp, Nat.succ_eq_add_one]
    omega
  rw [textOf, split, List.map_append, first, List.map_cons, holds.2,
    List.takeWhile_append_of_pos fun c member => by simpa using fun zero : c = 0 => noZero (zero ▸ member),
    List.takeWhile_cons_of_neg (by simp), List.append_nil]

end

end MeowMeowOS.StringBuffers

import Mathlib.Data.Nat.Digits.Lemmas

/-! Numerals: the digits of a number from the highest on, and the two loops
that write or read them one at a time. -/
namespace MeowMeowOS.Numerals

section
variable {base n : Nat}

/-- The digits from the highest on; 0 has one digit too. -/
def numeral (base n : Nat) : List Nat := if n = 0 then [0] else (base.digits n).reverse

theorem numeral_lt (wide : 1 < base) : ∀ d ∈ numeral base n, d < base := by
  intro d member
  unfold numeral at member
  split at member
  · rw [List.mem_singleton.mp member]
    omega
  · exact Nat.digits_lt_base wide (List.mem_reverse.mp member)

theorem numeral_ne_nil (base n : Nat) : numeral base n ≠ [] := by
  unfold numeral
  split
  · exact List.cons_ne_nil _ _
  · rename_i some
    rwa [Ne, List.reverse_eq_nil_iff, Nat.digits_eq_nil_iff_eq_zero]

theorem numeral_of_lt (small : n < base) : numeral base n = [n] := by
  unfold numeral
  split
  · rename_i zero
    rw [zero]
  · rename_i some
    rw [Nat.digits_of_lt base n some small]
    rfl

/-- The last digit is the remainder, the others are those of the quotient. -/
theorem numeral_div (wide : 1 < base) (more : base ≤ n) : numeral base n = numeral base (n / base) ++ [n % base] := by
  have some : n ≠ 0 := by omega
  have rest : n / base ≠ 0 := Nat.ne_of_gt (Nat.div_pos more (by omega))
  rw [numeral, if_neg some, numeral, if_neg rest, Nat.digits_def' wide (Nat.pos_of_ne_zero some), List.reverse_cons]

/-- What is read from the digits, the highest first. -/
def value (base : Nat) (digits : List Nat) : Nat := digits.foldl (fun v d => v * base + d) 0

theorem value_numeral (base n : Nat) : value base (numeral base n) = n := by
  unfold value numeral
  split
  · rename_i zero
    simp [zero]
  · rw [List.foldl_reverse]
    have all := Nat.ofDigits_digits base n
    rw [Nat.ofDigits_eq_foldr] at all
    simpa [Nat.add_comm, Nat.mul_comm] using all

theorem numeral_length (wide : 1 < base) (some : 0 < k) (small : n < base ^ k) : (numeral base n).length ≤ k := by
  unfold numeral
  split
  · exact some
  · rw [List.length_reverse]
    exact (Nat.digits_length_le_iff wide n).mpr small

/-! ## The loops that write -/

/-- `do { out(v % base); v /= base; } while (v)` with room for so many digits:
the digits in the order they come, from the lowest on. -/
def collect (base : Nat) : Nat → Nat → Option (List Nat)
  | 0, _ => none
  | room + 1, v => if v / base = 0 then some [v % base] else (collect base room (v / base)).map (v % base :: ·)

theorem collect_numeral (wide : 1 < base) (room : Nat) (small : n < base ^ room) (some : 0 < room) :
    collect base room n = Option.some (numeral base n).reverse := by
  induction room generalizing n with
  | zero => cases some
  | succ room ih =>
    rw [collect]
    by_cases last : n / base = 0
    · have below : n < base := (Nat.div_eq_zero_iff_lt (by omega)).mp last
      rw [if_pos last, numeral_of_lt below, Nat.mod_eq_of_lt below]
      rfl
    · have more : base ≤ n := by
        by_contra below
        exact last (Nat.div_eq_of_lt (by omega))
      have rest : n / base < base ^ room := by
        rw [Nat.pow_succ] at small
        exact Nat.div_lt_of_lt_mul (by rwa [Nat.mul_comm])
      have positive : 0 < room := by
        by_contra none
        have zero : room = 0 := by omega
        rw [zero, Nat.pow_zero] at rest
        exact last (Nat.lt_one_iff.mp rest)
      rw [if_neg last, ih rest positive, numeral_div wide more, List.reverse_append]
      rfl

/-- `while (v > 0) { out(v % base); v /= base; }`, where 0 has no digit. -/
def collectPositive (base : Nat) : Nat → Nat → Option (List Nat)
  | 0, v => if v = 0 then some [] else none
  | room + 1, v => if v = 0 then some [] else (collectPositive base room (v / base)).map (v % base :: ·)

theorem collectPositive_numeral (wide : 1 < base) (room : Nat) (small : n < base ^ room) (some : 0 < n) :
    collectPositive base room n = Option.some (numeral base n).reverse := by
  induction room generalizing n with
  | zero =>
    rw [Nat.pow_zero] at small
    omega
  | succ room ih =>
    rw [collectPositive, if_neg (by omega)]
    by_cases below : n < base
    · rw [Nat.div_eq_of_lt below, numeral_of_lt below, Nat.mod_eq_of_lt below]
      cases room <;> rfl
    · have more : base ≤ n := by omega
      have rest : n / base < base ^ room := by
        rw [Nat.pow_succ] at small
        exact Nat.div_lt_of_lt_mul (by rwa [Nat.mul_comm])
      rw [ih rest (Nat.div_pos more (by omega)), numeral_div wide more, List.reverse_append]
      rfl

end

end MeowMeowOS.Numerals

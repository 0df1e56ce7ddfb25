import MeowMeowOS.Numerals

/-! The converters between numbers and text of `stdlib.c`. -/
namespace MeowMeowOS.NumberText

open Numerals

/-- The bytes of a string literal. -/
def ascii (literal : String) : List UInt8 := literal.toList.map fun c => UInt8.ofNat c.toNat

def minus : UInt8 := 0x2D
def plus : UInt8 := 0x2B

/-- `(rem > 9) ? (rem - 10 + 'a') : (rem + '0')` -/
def digitChar (rem : Nat) : UInt8 := if 9 < rem then UInt8.ofNat (rem - 10 + 0x61) else UInt8.ofNat (rem + 0x30)

/-- The string in front of the terminator. `tmp` has room for 36 characters. -/
def itoa (value : BitVec 32) (base : Int) : Option (List UInt8) :=
  if base < 2 ∨ 36 < base then some []
  else
    let negative := value.toInt < 0 ∧ base = 10
    let v := if negative then -value else value
    (collect base.toNat 36 v.toNat).map fun digits =>
      let tmp := digits.map digitChar
      let tmp := if negative then tmp ++ [minus] else tmp
      tmp.reverse

/-- The digit that a character stands for. -/
def digitValue (c : UInt8) : Option Nat :=
  if 0x30 ≤ c ∧ c ≤ 0x39 then some (c.toNat - 0x30)
  else if 0x61 ≤ c ∧ c ≤ 0x66 then some (c.toNat - 0x61 + 10)
  else if 0x41 ≤ c ∧ c ≤ 0x46 then some (c.toNat - 0x41 + 10)
  else none

/-- `while (*p)`: the result, and the string from `p` on. -/
def strtolLoop (base : Int) : BitVec 32 → List UInt8 → BitVec 32 × List UInt8
  | result, [] => (result, [])
  | result, c :: p =>
    match digitValue c with
    | none => (result, c :: p)
    | some digit =>
      if base ≤ digit then (result, c :: p)
      else strtolLoop base (result * BitVec.ofInt 32 base + BitVec.ofNat 32 digit) p

def isX (c : Option UInt8) : Bool := c = some 0x78 ∨ c = some 0x58

/-- The number, a `long` of 32 bits, and the string at `*endptr`. -/
def strtol (str : List UInt8) (base : Int) : BitVec 32 × List UInt8 :=
  let p := str.dropWhile fun c => c = 0x20 ∨ c = 0x09
  let negative := p.head? = some minus
  let p := if negative ∨ p.head? = some plus then p.tail else p
  let (base, p) :=
    if base = 0 then
      if p.head? = some 0x30 then (if isX p[1]? then (16, p.drop 2) else (8, p.tail)) else (10, p)
    else (base, p)
  let p := if base = 16 ∧ p.head? = some 0x30 ∧ isX p[1]? then p.drop 2 else p
  let (result, p) := strtolLoop base 0 p
  (if negative then -result else result, p)

def atoi (str : List UInt8) : BitVec 32 := (strtol str 10).1

/-! ## Reading what was written -/

section
variable {base : Nat} {digits : List Nat} {value : BitVec 32}

/-- Digits below 16 are read as they were written. -/
theorem digitValue_digitChar (small : d < 36) : digitValue (digitChar d) = if d < 16 then some d else none := by
  revert small d
  decide

/-- The loop reads digits below 16 one after the other. -/
theorem strtolLoop_digits (digits : List Nat) (below : ∀ d ∈ digits, d < base) (hex : ∀ d ∈ digits, d < 16)
    (result : Nat) :
    strtolLoop base (BitVec.ofNat 32 result) (digits.map digitChar) =
      (BitVec.ofNat 32 (digits.foldl (fun v d => v * base + d) result), []) := by
  induction digits generalizing result with
  | nil => rfl
  | cons d digits ih =>
    have digit := hex d List.mem_cons_self
    have inBase := below d List.mem_cons_self
    have step : BitVec.ofNat 32 result * BitVec.ofInt 32 base + BitVec.ofNat 32 d =
        BitVec.ofNat 32 (result * base + d) := by
      rw [BitVec.ofNat_add, BitVec.ofNat_mul, BitVec.ofInt_natCast]
    rw [List.map_cons, strtolLoop, digitValue_digitChar (by omega), if_pos digit]
    dsimp only
    rw [if_neg (by omega), step, List.foldl_cons]
    exact ih (fun d member => below d (List.mem_cons_of_mem _ member))
      (fun d member => hex d (List.mem_cons_of_mem _ member)) _

/-- It stops at the first other digit. -/
theorem strtolLoop_stops (digits : List Nat) (small : ∀ d ∈ digits, d < 36) (large : ∃ d ∈ digits, 16 ≤ d)
    (result : BitVec 32) : (strtolLoop base result (digits.map digitChar)).2 ≠ [] := by
  induction digits generalizing result with
  | nil => simp at large
  | cons d digits ih =>
    rw [List.map_cons, strtolLoop, digitValue_digitChar (small d List.mem_cons_self)]
    by_cases digit : d < 16
    · rw [if_pos digit]
      dsimp only
      split
      · exact List.cons_ne_nil _ _
      · refine ih (fun d member => small d (List.mem_cons_of_mem _ member)) ?_ _
        obtain ⟨other, member, beyond⟩ := large
        rcases List.mem_cons.mp member with rfl | member
        · omega
        · exact ⟨other, member, beyond⟩
    · rw [if_neg digit]
      exact List.cons_ne_nil _ _

/-- A digit is no blank and no sign. -/
theorem digitChar_apart (small : d < 36) : digitChar d ≠ 0x20 ∧ digitChar d ≠ 0x09 ∧ digitChar d ≠ minus ∧
    digitChar d ≠ plus := by
  revert small d
  decide

/-- A digit below 16 is no `x`. -/
theorem digitChar_isX (hex : d < 16) : isX (some (digitChar d)) = false := by
  revert hex d
  decide

/-- Digits alone go to the loop as they are. -/
theorem strtol_digits (some : digits ≠ []) (positive : 0 < base) (wide : base ≤ 36)
    (below : ∀ d ∈ digits, d < base) :
    strtol (digits.map digitChar) base = strtolLoop base 0 (digits.map digitChar) := by
  obtain ⟨d, rest, rfl⟩ := List.exists_cons_of_ne_nil some
  have first := below d List.mem_cons_self
  obtain ⟨blank, tab, dash, cross⟩ := digitChar_apart (d := d) (by omega)
  have hexMark : ¬ ((base : Int) = 16 ∧ (digitChar d :: rest.map digitChar).head? = Option.some 0x30 ∧
      isX (digitChar d :: rest.map digitChar)[1]? = true) := by
    rintro ⟨hex, -, marked⟩
    cases rest with
    | nil => cases marked
    | cons e rest =>
      have second := below e (List.mem_cons_of_mem _ List.mem_cons_self)
      have none := digitChar_isX (d := e) (by omega)
      rw [List.map_cons, List.getElem?_cons_succ, List.getElem?_cons_zero, none] at marked
      cases marked
  have keep : ¬ (digitChar d = 0x20 ∨ digitChar d = 0x09) := by tauto
  have nonzero : ¬ (base : Int) = 0 := by omega
  rw [List.map_cons, strtol, List.dropWhile_cons_of_neg (by simpa using keep)]
  simp only [List.head?_cons, Option.some.injEq, dash, cross, or_self, if_false, nonzero] at hexMark ⊢
  rw [if_neg hexMark]

/-- A minus in front of them negates what the loop gives. -/
theorem strtol_minus (digits : List Nat) :
    strtol (minus :: digits.map digitChar) 10 =
      (-(strtolLoop 10 0 (digits.map digitChar)).1, (strtolLoop 10 0 (digits.map digitChar)).2) := by
  rw [strtol, List.dropWhile_cons_of_neg (by decide)]
  simp

/-- The number that is printed: that of a negative decimal behind its sign. -/
def magnitude (value : BitVec 32) (base : Nat) : BitVec 32 := if value.toInt < 0 ∧ base = 10 then -value else value

theorem itoa_text (base : Nat) (low : 2 ≤ base) (high : base ≤ 36) (value : BitVec 32) :
    itoa value base = some (if value.toInt < 0 ∧ base = 10 then
        minus :: (numeral base (magnitude value base).toNat).map digitChar
      else (numeral base (magnitude value base).toNat).map digitChar) := by
  have inBounds : ¬ ((base : Int) < 2 ∨ 36 < (base : Int)) := by omega
  have ten : (base : Int) = 10 ↔ base = 10 := by omega
  have word := (magnitude value base).isLt
  have room : (magnitude value base).toNat < base ^ 36 := by
    have bits : 2 ^ 36 ≤ base ^ 36 := Nat.pow_le_pow_left low 36
    omega
  have digits := collect_numeral (by omega) 36 room (by decide)
  unfold itoa
  rw [if_neg inBounds]
  simp only [ten, Int.toNat_natCast]
  change (collect base 36 (magnitude value base).toNat).map _ = _
  rw [digits]
  split
  · simp
  · simp

/-- The loop gives a number back from its digits. -/
theorem strtolLoop_numeral (base : Nat) (value : BitVec 32) (wide : 1 < base)
    (hex : ∀ d ∈ numeral base value.toNat, d < 16) :
    strtolLoop base 0 ((numeral base value.toNat).map digitChar) = (value, []) := by
  have read := strtolLoop_digits (numeral base value.toNat) (numeral_lt wide) hex 0
  change _ = (BitVec.ofNat 32 (Numerals.value base _), _) at read
  rwa [value_numeral, BitVec.ofNat_toNat, BitVec.setWidth_eq] at read

theorem numeral_hex (base n : Nat) : (∀ d ∈ numeral base n, d < 16) ↔ ∀ d ∈ base.digits n, d < 16 := by
  unfold numeral
  split
  · rename_i zero
    simp [zero]
  · simp

/-- A number is read back from its text, to the end of it, exactly when none of
its digits stands for 16 or more. -/
theorem strtol_itoa_iff (value : BitVec 32) (base : Nat) (low : 2 ≤ base) (high : base ≤ 36) :
    (∃ text, itoa value base = some text ∧ strtol text base = (value, [])) ↔
      ∀ d ∈ base.digits value.toNat, d < 16 := by
  rw [itoa_text base low high]
  by_cases signed : value.toInt < 0 ∧ base = 10
  · obtain ⟨negative, rfl⟩ := signed
    have signed : value.toInt < 0 ∧ 10 = 10 := ⟨negative, rfl⟩
    have tens : ∀ n, ∀ d ∈ numeral 10 n, d < 16 := fun n d member =>
      (numeral_lt (by decide) d member).trans (by decide)
    have read := strtolLoop_numeral 10 (-value) (by decide) (tens _)
    refine ⟨fun _ => (numeral_hex _ _).mp (tens _), fun _ => ⟨_, rfl, ?_⟩⟩
    rw [if_pos signed, magnitude, if_pos signed, Nat.cast_ofNat, strtol_minus]
    rw [Nat.cast_ofNat] at read
    rw [read, BitVec.neg_neg]
  · have plain := strtol_digits (numeral_ne_nil base value.toNat) (by omega) high
      (numeral_lt (by omega))
    rw [if_neg signed, magnitude, if_neg signed, ← numeral_hex]
    constructor
    · rintro ⟨text, ⟨⟩, read⟩
      rw [plain] at read
      by_contra other
      have large : ∃ d ∈ numeral base value.toNat, 16 ≤ d := by simpa using other
      exact strtolLoop_stops _ (fun d member => (numeral_lt (by omega) d member).trans_le high) large 0
        (congrArg Prod.snd read)
    · exact fun hex => ⟨_, rfl, by rw [plain, strtolLoop_numeral base value (by omega) hex]⟩

theorem strtol_itoa_iff_lowest :
    (∃ text, itoa 0x80000000 10 = some text ∧ strtol text 10 = (0x80000000, [])) ↔
      ∀ d ∈ Nat.digits 10 (0x80000000 : BitVec 32).toNat, d < 16 :=
  strtol_itoa_iff 0x80000000 10 (by decide) (by decide)

/-- 16 in base 17 is one letter, at which `strtol` stops. -/
theorem strtol_misses_letter : ¬ ∀ (value : BitVec 32) (base : Nat), 2 ≤ base → base ≤ 36 →
    ∃ text, itoa value base = some text ∧ strtol text base = (value, []) := by
  intro all
  obtain ⟨text, written, read⟩ := all 16 17 (by decide) (by decide)
  have letter : itoa 16 (17 : Nat) = some [0x67] := by decide
  rw [letter] at written
  injection written with same
  subst same
  revert read
  decide

end

end MeowMeowOS.NumberText

import Mathlib.Data.UInt
import Mathlib.Data.List.Basic

/-! A buffer of bytes with an end. A read or a write that leaves the buffer
fails, so what a program returns depends on the bytes of the buffer alone. -/
namespace MeowMeowOS.ByteBuffer

section
variable {data bytes : List UInt8} {off i n : Nat}

def readByte (data : List UInt8) (off : Nat) : Option UInt8 := data[off]?

def readBytes (data : List UInt8) (off n : Nat) : Option (List UInt8) :=
  if off + n ≤ data.length then some ((data.drop off).take n) else none

/-- The byte at an offset of the buffer, and 0 past its end. -/
def byteAt (data : List UInt8) (off : Nat) : UInt8 := data.getD off 0

/-- The 16-bit number at an offset, highest byte first. -/
def be16 (data : List UInt8) (off : Nat) : Nat := (byteAt data off).toNat * 256 + (byteAt data (off + 1)).toNat

def readBe16 (data : List UInt8) (off : Nat) : Option Nat :=
  if off + 2 ≤ data.length then some (be16 data off) else none

/-- The buffer with some of its bytes replaced. -/
def overwrite (data : List UInt8) (off : Nat) (bytes : List UInt8) : List UInt8 :=
  data.take off ++ bytes ++ data.drop (off + bytes.length)

def writeBytes (data : List UInt8) (off : Nat) (bytes : List UInt8) : Option (List UInt8) :=
  if off + bytes.length ≤ data.length then some (overwrite data off bytes) else none

theorem readByte_inside (inside : off < data.length) : readByte data off = some (byteAt data off) := by
  unfold readByte byteAt
  rw [List.getD_eq_getElem?_getD, List.getElem?_eq_getElem inside]
  rfl

theorem readByte_found {b : UInt8} (found : readByte data off = some b) :
    off < data.length ∧ byteAt data off = b := by
  by_cases inside : off < data.length
  · rw [readByte_inside inside] at found
    exact ⟨inside, Option.some.inj found⟩
  · exact absurd (found.symm.trans (List.getElem?_eq_none (Nat.not_lt.mp inside))) nofun

theorem readByte_outside (outside : data.length ≤ off) : readByte data off = none :=
  List.getElem?_eq_none outside

theorem readBytes_inside (inside : off + n ≤ data.length) :
    readBytes data off n = some ((data.drop off).take n) := if_pos inside

theorem readBytes_outside (outside : data.length < off + n) : readBytes data off n = none :=
  if_neg (Nat.not_le.mpr outside)

theorem readBytes_found (found : readBytes data off n = some bytes) : (data.drop off).take n = bytes := by
  unfold readBytes at found
  split at found
  · exact Option.some.inj found
  · cases found

theorem readBytes_length (read : readBytes data off n = some bytes) : bytes.length = n := by
  unfold readBytes at read
  split at read
  · cases read
    rw [List.length_take, List.length_drop]
    omega
  · cases read

theorem readBe16_inside (inside : off + 2 ≤ data.length) : readBe16 data off = some (be16 data off) := if_pos inside

theorem readBe16_found (found : readBe16 data off = some v) : be16 data off = v := by
  unfold readBe16 at found
  split at found
  · exact Option.some.inj found
  · cases found

theorem readBe16_outside (outside : data.length < off + 2) : readBe16 data off = none :=
  if_neg (Nat.not_le.mpr outside)

theorem writeBytes_inside (inside : off + bytes.length ≤ data.length) :
    writeBytes data off bytes = some (overwrite data off bytes) := if_pos inside

theorem writeBytes_outside (outside : data.length < off + bytes.length) : writeBytes data off bytes = none :=
  if_neg (Nat.not_le.mpr outside)

theorem overwrite_length (inside : off + bytes.length ≤ data.length) :
    (overwrite data off bytes).length = data.length := by
  unfold overwrite
  simp only [List.length_append, List.length_take, List.length_drop]
  omega

theorem byteAt_overwrite_apart (inside : off + bytes.length ≤ data.length)
    (apart : i < off ∨ off + bytes.length ≤ i) :
    byteAt (overwrite data off bytes) i = byteAt data i := by
  unfold byteAt overwrite
  rw [List.getD_eq_getElem?_getD, List.getD_eq_getElem?_getD]
  congr 1
  rcases apart with before | behind
  · rw [List.append_assoc, List.getElem?_append_left (by simp; omega), List.getElem?_take_of_lt before]
  · rw [List.getElem?_append_right (by simp; omega), List.getElem?_drop]
    congr 1
    simp only [List.length_append, List.length_take]
    omega

/-! ## Programs over a buffer -/

/-- The program stays in the buffer, and its result is as required. -/
def Succeeds (Q : α → Prop) (r : Option α) : Prop := ∃ x, r = some x ∧ Q x

variable {α : Type} {Q : α → Prop} {x : α}

theorem succeeds_some : Succeeds Q (some x) ↔ Q x := by
  constructor
  · rintro ⟨y, same, holds⟩
    cases same
    exact holds
  · exact fun holds => ⟨x, rfl, holds⟩

theorem succeeds_none : ¬ Succeeds Q none := by
  rintro ⟨y, same, -⟩
  cases same

theorem succeeds_readByte {f : UInt8 → Option α} :
    Succeeds Q (readByte data off >>= f) ↔ off < data.length ∧ Succeeds Q (f (byteAt data off)) := by
  by_cases inside : off < data.length
  · rw [readByte_inside inside]
    exact (and_iff_right inside).symm
  · rw [readByte_outside (Nat.not_lt.mp inside)]
    exact iff_of_false succeeds_none fun held => inside held.1

theorem succeeds_readBytes {f : List UInt8 → Option α} : Succeeds Q (readBytes data off n >>= f) ↔
    off + n ≤ data.length ∧ Succeeds Q (f ((data.drop off).take n)) := by
  by_cases inside : off + n ≤ data.length
  · rw [readBytes_inside inside]
    exact (and_iff_right inside).symm
  · rw [readBytes_outside (Nat.not_le.mp inside)]
    exact iff_of_false succeeds_none fun held => inside held.1

theorem succeeds_readBe16 {f : Nat → Option α} :
    Succeeds Q (readBe16 data off >>= f) ↔ off + 2 ≤ data.length ∧ Succeeds Q (f (be16 data off)) := by
  by_cases inside : off + 2 ≤ data.length
  · rw [readBe16_inside inside]
    exact (and_iff_right inside).symm
  · rw [readBe16_outside (Nat.not_le.mp inside)]
    exact iff_of_false succeeds_none fun held => inside held.1

theorem succeeds_writeBytes {f : List UInt8 → Option α} : Succeeds Q (writeBytes data off bytes >>= f) ↔
    off + bytes.length ≤ data.length ∧ Succeeds Q (f (overwrite data off bytes)) := by
  by_cases inside : off + bytes.length ≤ data.length
  · rw [writeBytes_inside inside]
    exact (and_iff_right inside).symm
  · rw [writeBytes_outside (Nat.not_le.mp inside)]
    exact iff_of_false succeeds_none fun held => inside held.1

end

end MeowMeowOS.ByteBuffer

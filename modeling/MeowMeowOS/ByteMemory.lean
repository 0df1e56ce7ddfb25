import Mathlib.Algebra.Group.Nat.Defs
import Mathlib.Data.Nat.Basic

/-! Byte-addressed memory with little-endian 32-bit words. A store changes the
bytes it covers and nothing else, so every later fact about a program's memory
reduces to which intervals of addresses are apart. -/
namespace MeowMeowOS.ByteMemory

abbrev Mem := Nat → UInt8

/-- The 32-bit word stored at `a`, lowest byte first. -/
def readWord (m : Mem) (a : Nat) : Nat :=
  (m a).toNat + (m (a + 1)).toNat * 256 + (m (a + 2)).toNat * 65536 + (m (a + 3)).toNat * 16777216

/-- The 16-bit word stored at `a`. -/
def readHalf (m : Mem) (a : Nat) : Nat := (m a).toNat + (m (a + 1)).toNat * 256

def writeHalf (m : Mem) (a v : Nat) : Mem :=
  fun x => if x = a then UInt8.ofNat v
    else if x = a + 1 then UInt8.ofNat (v / 256)
    else m x

def writeByte (m : Mem) (a : Nat) (v : UInt8) : Mem :=
  fun x => if x = a then v else m x

def writeWord (m : Mem) (a v : Nat) : Mem :=
  fun x => if x = a then UInt8.ofNat v
    else if x = a + 1 then UInt8.ofNat (v / 256)
    else if x = a + 2 then UInt8.ofNat (v / 65536)
    else if x = a + 3 then UInt8.ofNat (v / 16777216)
    else m x

/-- Two memories that hold the same bytes from `lo` up to `hi`. -/
def AgreeOn (m m' : Mem) (lo hi : Nat) : Prop := ∀ x, lo ≤ x → x < hi → m' x = m x

theorem readWord_lt (m : Mem) (a : Nat) : readWord m a < 2 ^ 32 := by
  have h0 := (m a).toNat_lt
  have h1 := (m (a + 1)).toNat_lt
  have h2 := (m (a + 2)).toNat_lt
  have h3 := (m (a + 3)).toNat_lt
  unfold readWord
  omega

theorem readHalf_lt (m : Mem) (a : Nat) : readHalf m a < 2 ^ 16 := by
  have h0 := (m a).toNat_lt
  have h1 := (m (a + 1)).toNat_lt
  unfold readHalf
  omega

@[simp] theorem readHalf_writeHalf (m : Mem) (a v : Nat) :
    readHalf (writeHalf m a v) a = v % 2 ^ 16 := by
  have b0 : writeHalf m a v a = UInt8.ofNat v := by simp [writeHalf]
  have b1 : writeHalf m a v (a + 1) = UInt8.ofNat (v / 256) := by simp [writeHalf]
  simp only [readHalf, b0, b1, UInt8.toNat_ofNat']
  omega

theorem readHalf_writeHalf_apart (m : Mem) (a b v : Nat) (apart : a + 2 ≤ b ∨ b + 2 ≤ a) :
    readHalf (writeHalf m a v) b = readHalf m b := by
  have h0 : b ≠ a := by omega
  have h1 : b ≠ a + 1 := by omega
  have h2 : b + 1 ≠ a := by omega
  have h3 : b + 1 ≠ a + 1 := by omega
  simp only [readHalf, writeHalf, h0, h1, h2, h3, ↓reduceIte]

@[simp] theorem readWord_writeWord (m : Mem) (a v : Nat) :
    readWord (writeWord m a v) a = v % 2 ^ 32 := by
  have b0 : writeWord m a v a = UInt8.ofNat v := by simp [writeWord]
  have b1 : writeWord m a v (a + 1) = UInt8.ofNat (v / 256) := by simp [writeWord]
  have b2 : writeWord m a v (a + 2) = UInt8.ofNat (v / 65536) := by simp [writeWord]
  have b3 : writeWord m a v (a + 3) = UInt8.ofNat (v / 16777216) := by simp [writeWord]
  simp only [readWord, b0, b1, b2, b3, UInt8.toNat_ofNat']
  omega

theorem writeWord_agree (m : Mem) (a v lo hi : Nat) (apart : a + 4 ≤ lo ∨ hi ≤ a) :
    AgreeOn m (writeWord m a v) lo hi := by
  intro x above below
  have h0 : x ≠ a := by omega
  have h1 : x ≠ a + 1 := by omega
  have h2 : x ≠ a + 2 := by omega
  have h3 : x ≠ a + 3 := by omega
  simp only [writeWord, h0, h1, h2, h3, ↓reduceIte]

theorem writeByte_agree (m : Mem) (a lo hi : Nat) (v : UInt8) (apart : a < lo ∨ hi ≤ a) :
    AgreeOn m (writeByte m a v) lo hi := by
  intro x above below
  have h0 : x ≠ a := by omega
  simp only [writeByte, h0, ↓reduceIte]

theorem readWord_agree (same : AgreeOn m m' lo hi) (above : lo ≤ a) (below : a + 4 ≤ hi) :
    readWord m' a = readWord m a := by
  unfold readWord
  rw [same a above (by omega), same (a + 1) (by omega) (by omega),
    same (a + 2) (by omega) (by omega), same (a + 3) (by omega) (by omega)]

theorem readWord_writeWord_apart (m : Mem) (a b v : Nat) (apart : a + 4 ≤ b ∨ b + 4 ≤ a) :
    readWord (writeWord m a v) b = readWord m b :=
  readWord_agree (writeWord_agree m a v b (b + 4) apart) (Nat.le_refl b) (Nat.le_refl _)

theorem readWord_writeByte_apart (m : Mem) (a b : Nat) (v : UInt8) (apart : a < b ∨ b + 4 ≤ a) :
    readWord (writeByte m a v) b = readWord m b :=
  readWord_agree (writeByte_agree m a b (b + 4) v apart) (Nat.le_refl b) (Nat.le_refl _)

end MeowMeowOS.ByteMemory

import MeowMeowOS.BootFrames

/-! The frame allocator as a queue: the free blocks that its word scan covers,
in the order of their addresses, of which each call takes the first. -/
namespace MeowMeowOS.FreeFrames
open ByteMemory PhysicalFrames BootFrames

/-- The blocks of the last, incomplete word of the bitmap are never looked at. -/
def freeBlocks (s : PmmState) : List Nat :=
  (List.range (s.pmmMaxBlocks / 32 * 32)).filter fun b => bitmapTest s b = false

section
variable {s : PmmState} {b : Nat}

theorem mem_freeBlocks : b ∈ freeBlocks s ↔ b < s.pmmMaxBlocks / 32 * 32 ∧ bitmapTest s b = false := by
  simp [freeBlocks]

theorem freeBlocks_sorted (s : PmmState) : (freeBlocks s).Pairwise (· < ·) :=
  List.pairwise_lt_range.filter _

theorem clearBitOfWord_word (found : clearBitOfWord s i = some b) : b / 32 = i := by
  unfold clearBitOfWord at found
  split at found
  · obtain ⟨j, hit, rfl⟩ := Option.map_eq_some_iff.mp found
    have small := List.mem_range.mp (List.mem_of_find?_eq_some hit)
    omega
  · cases found

/-- What the scan finds lies in a whole word of the bitmap. -/
theorem pmmAllocBlock_scanned (s : PmmState) : pmmAllocBlock s = (0, s) ∨
    ∃ b ∈ freeBlocks s, pmmAllocBlock s = (b * pageSize % 2 ^ 32, bitmapSet s b) := by
  unfold pmmAllocBlock
  split
  · exact Or.inl rfl
  · split
    · exact Or.inl rfl
    · rename_i b found
      obtain ⟨i, member, hit⟩ := List.exists_of_findSome?_eq_some found
      have word := clearBitOfWord_word hit
      have small := List.mem_range.mp member
      exact Or.inr ⟨b, mem_freeBlocks.mpr ⟨by omega, (clearBitOfWord_clear hit).2⟩, rfl⟩

/-- A free block below 0x300 would lie in the kernel's own memory. -/
theorem freeBlocks_high (below : BitmapBelow s) (free : b ∈ freeBlocks s) : 0x300 ≤ b ∧ b < 2 ^ 20 := by
  obtain ⟨small, clear⟩ := mem_freeBlocks.mp free
  have blocks := below.blocks
  exact ⟨below.free b (by omega) clear, by omega⟩

/-- A free block that is taken is free no more, and no other changes. -/
theorem freeBlocks_without (bitmap : s.pmmBitmap ≠ 0) (free : b ∈ freeBlocks s) :
    freeBlocks (bitmapSet s b) = (freeBlocks s).filter (· ≠ b) := by
  have small := (mem_freeBlocks.mp free).1
  have valid : pmmBlockIsValid s b = true := by
    simp only [pmmBlockIsValid, decide_eq_true_eq]
    omega
  unfold freeBlocks
  rw [(bitmapSet_same s b).2, List.filter_filter]
  refine List.filter_congr fun c _ => ?_
  rw [bitmapTest_bitmapSet]
  by_cases same : c = b
  · simp [same, valid]
  · simp [same]

/-- The first free block is taken out of the queue. -/
theorem freeBlocks_rest (bitmap : s.pmmBitmap ≠ 0) (shape : freeBlocks s = b :: rest) :
    freeBlocks (bitmapSet s b) = rest := by
  have above := (List.pairwise_cons.mp (shape ▸ freeBlocks_sorted s)).1
  rw [freeBlocks_without bitmap (by simp [shape]), shape, List.filter_cons_of_neg (by simp), List.filter_eq_self]
  intro c member
  have := above c member
  simp only [ne_eq, decide_eq_true_eq]
  omega

theorem pmmAllocBlock_none (none : freeBlocks s = []) : pmmAllocBlock s = (0, s) := by
  refine (pmmAllocBlock_scanned s).resolve_right ?_
  rintro ⟨b, free, -⟩
  simp [none] at free

/-- A call takes the first free block. -/
theorem pmmAllocBlock_takes (bitmap : s.pmmBitmap ≠ 0) (shape : freeBlocks s = b :: rest) :
    pmmAllocBlock s = (b * pageSize % 2 ^ 32, bitmapSet s b) := by
  have free : b ∈ freeBlocks s := by simp [shape]
  obtain ⟨small, clear⟩ := mem_freeBlocks.mp free
  have valid : pmmBlockIsValid s b = true := by
    simp only [pmmBlockIsValid, decide_eq_true_eq]
    omega
  obtain ⟨d, le, handed, -, clearD⟩ := pmmAllocBlock_lowest clear valid (by omega)
  have freeD : d ∈ freeBlocks s := mem_freeBlocks.mpr ⟨by omega, clearD⟩
  have first : d = b := by
    rw [shape] at freeD
    rcases List.mem_cons.mp freeD with same | later
    · exact same
    · have above := (List.pairwise_cons.mp (shape ▸ freeBlocks_sorted s)).1 d later
      omega
  rw [handed, first]

theorem freeBlocks_set (below : BitmapBelow s) (shape : freeBlocks s = b :: rest) :
    freeBlocks (bitmapSet s b) = rest :=
  freeBlocks_rest (by rw [below.bitmap]; decide) shape

/-- One call takes the first free block; without one it fails. -/
theorem pmmAllocBlock_pops (below : BitmapBelow s) :
    (freeBlocks s = [] ∧ pmmAllocBlock s = (0, s)) ∨
      ∃ b rest, freeBlocks s = b :: rest ∧ pmmAllocBlock s = (b * pageSize, bitmapSet s b) ∧
        freeBlocks (bitmapSet s b) = rest := by
  cases shape : freeBlocks s with
  | nil => exact Or.inl ⟨rfl, pmmAllocBlock_none shape⟩
  | cons b rest =>
    have high := freeBlocks_high below (show b ∈ freeBlocks s by simp [shape])
    refine Or.inr ⟨b, rest, rfl, ?_, freeBlocks_set below shape⟩
    rw [pmmAllocBlock_takes (by rw [below.bitmap]; decide) shape, Nat.mod_eq_of_lt]
    unfold pageSize
    omega

/-- The bits below the bitmap's own frames decide which blocks are free. -/
theorem freeBlocks_agree (below : BitmapBelow s) (same : AgreeOn s.mem m 0x200000 0x300000) :
    freeBlocks { s with mem := m } = freeBlocks s := by
  unfold freeBlocks
  refine List.filter_congr fun b _ => ?_
  rw [bitmapTest_agree below same]

end

end MeowMeowOS.FreeFrames

import MeowMeowOS.HeapFrames

/-! Runs of the frame allocator. The two allocating calls scan one bitmap in
different ways; both return clear blocks only, so a ledger of the blocks handed
out and not yet freed never lists one twice. -/
namespace MeowMeowOS.FrameRuns
open PhysicalFrames HeapFrames GuardedRuns

/-- The allocator with the blocks its callers hold. -/
structure Ledger where
  frames : PmmState
  outstanding : List Nat

def isAllocation : FrameCall → Bool
  | .pmmAllocBlock => true
  | .pmmAllocContiguousBlocks _ => true
  | .pmmFreeBlock _ => false

/-- The blocks that a returned address stands for. -/
def blocksAt (address count : Nat) : List Nat :=
  (List.range count).map fun j => address / pageSize + j

/-- The ledger after a call. -/
def settle (w : Ledger) (c : FrameCall) : Ledger :=
  let (address, frames) := call w.frames c
  match c with
  | .pmmFreeBlock ptr => ⟨frames, w.outstanding.filter (· ≠ ptr / pageSize)⟩
  | _ =>
    if address = 0 then ⟨frames, w.outstanding⟩
    else ⟨frames, blocksAt address (framesAsked c) ++ w.outstanding⟩

inductive LedgerStep : Ledger → FrameCall → Ledger → Prop where
  | step (c : FrameCall) : LedgerStep w c (settle w c)

/-- Only frames that are held are freed. -/
def FreesOwned (w : Ledger) : FrameCall → Prop
  | .pmmFreeBlock ptr => ∃ b ∈ w.outstanding, ptr = b * pageSize
  | _ => True

/-- What holds of the ledger in every state of a run. -/
structure Balanced (w : Ledger) : Prop where
  blockZero : bitmapTest w.frames 0 = true
  small : w.frames.pmmMaxBlocks ≤ 2 ^ 20
  taken : ∀ b ∈ w.outstanding, bitmapTest w.frames b = true ∧ b ≠ 0
  nodup : w.outstanding.Nodup

/-- What an allocating call does: with a result it returns a run of blocks that
were clear and nobody's and sets exactly their bits, without one it changes
nothing. -/
structure HandsOut (w : Ledger) (c : FrameCall) : Prop where
  aligned : (call w.frames c).1 ≠ 0 → (call w.frames c).1 % pageSize = 0
  fresh : (call w.frames c).1 ≠ 0 → ∀ b ∈ blocksAt (call w.frames c).1 (framesAsked c),
    b < w.frames.pmmMaxBlocks ∧ bitmapTest w.frames b = false ∧ b ∉ w.outstanding
  exact : (call w.frames c).1 ≠ 0 → ∀ b, bitmapTest (call w.frames c).2 b = true ↔
    bitmapTest w.frames b = true ∨ b ∈ blocksAt (call w.frames c).1 (framesAsked c)
  failed : (call w.frames c).1 = 0 → (call w.frames c).2 = w.frames

section
variable {w : Ledger} {c : FrameCall}

theorem mem_blocksAt (address count b : Nat) :
    b ∈ blocksAt address count ↔ address / pageSize ≤ b ∧ b < address / pageSize + count := by
  simp only [blocksAt, List.mem_map, List.mem_range]
  constructor
  · rintro ⟨j, small, rfl⟩
    omega
  · rintro ⟨above, below⟩
    exact ⟨b - address / pageSize, by omega, by omega⟩

theorem nodup_blocksAt (address count : Nat) : (blocksAt address count).Nodup := by
  refine List.Nodup.map ?_ List.nodup_range
  intro i j same
  dsimp only at same
  omega

theorem valid_of_taken (taken : bitmapTest s b = true) : pmmBlockIsValid s b = true := by
  simp only [bitmapTest, Bool.and_eq_true] at taken
  exact taken.1

theorem valid_small (valid : pmmBlockIsValid s b = true) : b < s.pmmMaxBlocks := by
  simp only [pmmBlockIsValid, decide_eq_true_eq] at valid
  exact valid.2

/-- Below 2^20 blocks an address stands for its block. -/
theorem address_exact (small : b < 2 ^ 20) : b * pageSize % 2 ^ 32 = b * pageSize :=
  Nat.mod_eq_of_lt (by unfold pageSize; omega)

theorem address_block (b : Nat) : b * pageSize / pageSize = b := Nat.mul_div_cancel b (by decide)

/-- Both allocating calls find a run of clear blocks or give up. -/
theorem call_outcome (balanced : Balanced w) (allocating : isAllocation c = true) :
    call w.frames c = (0, w.frames) ∨ framesAsked c ≠ 0 ∧
      ∃ start s', call w.frames c = (start * pageSize, s') ∧ start ≠ 0 ∧
        start + framesAsked c ≤ w.frames.pmmMaxBlocks ∧
        (∀ j < framesAsked c, bitmapTest w.frames (start + j) = false) ∧
        SameFrames w.frames s' ∧
        ∀ b, bitmapTest s' b = (bitmapTest w.frames b || decide (start ≤ b ∧ b < start + framesAsked c)) := by
  obtain ⟨blockZero, small, -, -⟩ := balanced
  cases c with
  | pmmAllocBlock =>
    rcases pmmAllocBlock_block w.frames with failed | ⟨b, ran, valid, clear⟩
    · exact Or.inl failed
    · have bound := valid_small valid
      have notZero : b ≠ 0 := by
        rintro rfl
        rw [blockZero] at clear
        cases clear
      refine Or.inr ⟨one_ne_zero, b, bitmapSet w.frames b, ?_, notZero, bound, ?_, bitmapSet_same _ _, ?_⟩
      · rw [call, ran, address_exact (by omega)]
      · intro j first
        obtain rfl : j = 0 := Nat.lt_one_iff.mp first
        exact clear
      · intro d
        rw [bitmapTest_bitmapSet, valid, Bool.and_true]
        congr 1
        exact decide_eq_decide.mpr (by simp only [framesAsked]; omega)
  | pmmAllocContiguousBlocks count =>
    rcases pmmAllocContiguousBlocks_blocks w.frames count with failed | ⟨start, ran, fits, clear⟩
    · exact Or.inl failed
    · by_cases none : count = 0
      · left
        simp [call, pmmAllocContiguousBlocks, none]
      · have notZero : start ≠ 0 := by
          rintro rfl
          have first := clear 0 (Nat.pos_of_ne_zero none)
          rw [blockZero] at first
          cases first
        refine Or.inr ⟨none, start, _, ?_, notZero, fits, clear,
          (bitmapTest_setRun w.frames start count 0).1, ?_⟩
        · rw [call, ran, address_exact (by omega)]
        · intro d
          rw [(bitmapTest_setRun w.frames start count d).2]
          congr 1
          by_cases inside : start ≤ d ∧ d < start + count
          · have valid : pmmBlockIsValid w.frames d = true := by
              have set := valid_of_taken blockZero
              simp only [pmmBlockIsValid, decide_eq_true_eq] at set ⊢
              exact ⟨set.1, by omega⟩
            rw [valid, Bool.and_true]
            rfl
          · simp [inside, framesAsked]
  | pmmFreeBlock ptr => cases allocating

theorem call_handsOut (balanced : Balanced w) (allocating : isAllocation c = true) : HandsOut w c := by
  rcases call_outcome balanced allocating with failed | ⟨asked, start, s', ran, notZero, fits, clear, -, bits⟩
  · constructor
    · exact fun some => absurd (by rw [failed]) some
    · exact fun some => absurd (by rw [failed]) some
    · exact fun some => absurd (by rw [failed]) some
    · exact fun _ => by rw [failed]
  · constructor
    · intro _
      rw [ran]
      exact Nat.mul_mod_left _ _
    · intro _ b member
      rw [ran, mem_blocksAt, address_block] at member
      have clearB : bitmapTest w.frames b = false := by
        have := clear (b - start) (by omega)
        rwa [show start + (b - start) = b by omega] at this
      refine ⟨by omega, clearB, fun held => ?_⟩
      rw [(balanced.taken b held).1] at clearB
      cases clearB
    · intro _ b
      rw [ran, mem_blocksAt, address_block, bits]
      simp
    · intro null
      rw [ran] at null
      exact absurd null (Nat.mul_ne_zero notZero (by decide))

/-- A call keeps the books. -/
theorem settle_balanced (balanced : Balanced w) (allowed : FreesOwned w c) : Balanced (settle w c) := by
  have books := balanced
  obtain ⟨blockZero, small, taken, nodup⟩ := balanced
  by_cases allocating : isAllocation c = true
  · have settled : settle w c = if (call w.frames c).1 = 0 then ⟨(call w.frames c).2, w.outstanding⟩
        else ⟨(call w.frames c).2, blocksAt (call w.frames c).1 (framesAsked c) ++ w.outstanding⟩ := by
      cases c with
      | pmmAllocBlock => rfl
      | pmmAllocContiguousBlocks count => rfl
      | pmmFreeBlock ptr => cases allocating
    have handed := call_handsOut books allocating
    rw [settled]
    by_cases null : (call w.frames c).1 = 0
    · rw [if_pos null, handed.failed null]
      exact books
    · rw [if_neg null]
      rcases call_outcome books allocating with failed | ⟨-, start, s', ran, notZero, fits, -, same, -⟩
      · exact absurd (by rw [failed]) null
      · have bits := handed.exact null
        have fresh := handed.fresh null
        rw [ran] at bits fresh ⊢
        refine ⟨(bits 0).mpr (Or.inl blockZero), same.2 ▸ small, ?_, ?_⟩
        · intro b member
          rcases List.mem_append.mp member with new | old
          · refine ⟨(bits b).mpr (Or.inr new), ?_⟩
            rw [mem_blocksAt, address_block] at new
            omega
          · exact ⟨(bits b).mpr (Or.inl (taken b old).1), (taken b old).2⟩
        · refine List.nodup_append'.mpr ⟨nodup_blocksAt _ _, nodup, ?_⟩
          exact fun b new old => (fresh b new).2.2 old
  · cases c with
    | pmmAllocBlock => exact absurd rfl allocating
    | pmmAllocContiguousBlocks count => exact absurd rfl allocating
    | pmmFreeBlock ptr =>
      obtain ⟨b, held, rfl⟩ := allowed
      obtain ⟨set, notZero⟩ := taken b held
      have bound := valid_small (valid_of_taken set)
      have freed : (settle w (.pmmFreeBlock (b * pageSize))) =
          ⟨bitmapUnset w.frames b, w.outstanding.filter (· ≠ b)⟩ := by
        have valid : pmmAddrIsValid w.frames (b * pageSize) = true := by
          have ok := valid_of_taken set
          simp only [pmmBlockIsValid, decide_eq_true_eq] at ok
          simp only [pmmAddrIsValid, decide_eq_true_eq, address_block]
          exact ⟨ok.1, Nat.mul_mod_left _ _, bound⟩
        have some : b * pageSize ≠ 0 := Nat.mul_ne_zero notZero (by decide)
        simp only [settle, call, pmmFreeBlock, some, valid, address_block, ↓reduceIte]
      rw [freed]
      refine ⟨?_, (bitmapUnset_same w.frames b).2 ▸ small, ?_, nodup.filter _⟩
      · rw [bitmapTest_bitmapUnset, blockZero]
        simp [notZero.symm]
      · intro d member
        obtain ⟨old, other⟩ := List.mem_filter.mp member
        have ne : d ≠ b := by simpa using other
        refine ⟨?_, (taken d old).2⟩
        rw [bitmapTest_bitmapUnset, (taken d old).1]
        simp [ne]

/-- In every state of every run the bits of all blocks that are held stay set,
and the next call hands out nobody's blocks only. -/
theorem frame_runs_safe (blockZero : bitmapTest s 0 = true) (small : s.pmmMaxBlocks ≤ 2 ^ 20)
    (run : Run FreesOwned LedgerStep ⟨s, []⟩ w) :
    (∀ b ∈ w.outstanding, bitmapTest w.frames b = true) ∧
      ∀ c, isAllocation c = true → HandsOut w c := by
  have start : Balanced ⟨s, []⟩ :=
    ⟨blockZero, small, fun b member => absurd member List.not_mem_nil, List.nodup_nil⟩
  have balanced : Balanced w := by
    refine run_invariant Balanced run start ?_
    rintro t c _ kept allowed ⟨⟩
    exact settle_balanced kept allowed
  exact ⟨fun b held => (balanced.taken b held).1, fun c allocating => call_handsOut balanced allocating⟩

end

/-! ## A bitmap of 64 blocks -/

/-- Block 0 is taken, the other 63 are free. -/
def mostlyFree : PmmState := ⟨ByteMemory.writeWord (fun _ => 0) 0x200000 1, 0x200000, 64⟩

theorem frame_runs_safe_mostlyFree :
    (∀ b ∈ (settle ⟨mostlyFree, []⟩ (.pmmAllocContiguousBlocks 3)).outstanding,
        bitmapTest (settle ⟨mostlyFree, []⟩ (.pmmAllocContiguousBlocks 3)).frames b = true) ∧
      ∀ c, isAllocation c = true → HandsOut (settle ⟨mostlyFree, []⟩ (.pmmAllocContiguousBlocks 3)) c :=
  frame_runs_safe (s := mostlyFree) (by decide) (by decide)
    (Relation.ReflTransGen.single ⟨.pmmAllocContiguousBlocks 3, trivial, .step _⟩)

end MeowMeowOS.FrameRuns

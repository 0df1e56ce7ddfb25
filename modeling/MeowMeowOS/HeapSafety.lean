import MeowMeowOS.HeapOperations
import MeowMeowOS.GuardedRuns

/-! Whole runs of the kernel heap: the allocator's calls interleaved with the
owners' writes into what they were handed. As long as no call of `mem_free`
leaves the cursor on a block that has just been swallowed, live payloads stay
apart from each other and from every header; one such call is enough for two
live payloads to overlap. -/
namespace MeowMeowOS.HeapSafety
open ByteMemory Tiling KernelHeap HeapLayout HeapOperations GuardedRuns

/-- The allocator's state, and each pointer handed out and not freed since
with the size it was requested for. -/
structure HeapWorld where
  heap : HeapState
  live : List (Nat × Nat)

inductive HeapCall where
  | memAlloc (size : Nat)
  | memFree (ptr : Nat)
  | store (ptr : Nat)

inductive HeapStep : HeapWorld → HeapCall → HeapWorld → Prop where
  | memAlloc (fuel : Nat) (small : n < 2 ^ 31) (ran : memAlloc fuel w.heap n = some (p, s)) :
      HeapStep w (.memAlloc n) ⟨s, (p, n) :: w.live⟩
  | memFree (member : (p, n) ∈ w.live) :
      HeapStep w (.memFree p) ⟨memFree w.heap p, w.live.filter (·.1 ≠ p)⟩
  | store (member : (p, n) ∈ w.live)
      (inside : ∀ a, a < p ∨ p + n ≤ a → m a = w.heap.mem a) :
      HeapStep w (.store p) ⟨{ w.heap with mem := m }, w.live⟩

/-- Some byte belongs to both ranges. -/
def Overlap (a lengthA b lengthB : Nat) : Prop :=
  ∃ x, (a ≤ x ∧ x < a + lengthA) ∧ b ≤ x ∧ x < b + lengthB

/-- The blocks reached from `heap_start` by the links. -/
inductive OnBlockList (s : HeapState) : Nat → Prop where
  | start : OnBlockList s s.heapStart
  | next : OnBlockList s b → (block s.mem b).next ≠ 0 → OnBlockList s (block s.mem b).next

structure Safe (start : Nat) (w : HeapWorld) : Prop where
  disjoint : w.live.Pairwise fun x y => ¬ Overlap x.1 x.2 y.1 y.2
  headers : ∀ x ∈ w.live, ∀ b, OnBlockList w.heap b → ¬ Overlap x.1 x.2 b sizeofHeapBlock
  inside : ∀ x ∈ w.live, start ≤ x.1 ∧ x.1 + x.2 ≤ w.heap.heapCurrentEnd

def boot (m : Mem) (start size : Nat) : HeapWorld := ⟨heapInitialize m start size, []⟩

/-- Every call is allowed except a free that strands the cursor. -/
def SparesCursor (w : HeapWorld) : HeapCall → Prop
  | .memFree p => ¬ StrandsCursor w.heap p
  | _ => True

def AnyCall (_ : HeapWorld) (_ : HeapCall) : Prop := True

/-- The live pointer is the payload of this block. -/
def Owns (e : Extent) (x : Nat × Nat) : Prop := e.free = false ∧ x.1 = e.addr + 20 ∧ x.2 ≤ e.size

structure Accounted (start : Nat) (w : HeapWorld) (extents : List Extent) : Prop where
  healthy : Healthy w.heap extents
  started : w.heap.heapStart = start
  cursor : CursorOn w.heap extents
  owned : ∀ x ∈ w.live, ∃ e ∈ extents, Owns e x
  distinct : w.live.Pairwise fun x y => x.1 ≠ y.1

theorem onBlockList_extent (healthy : Healthy s extents) (on : OnBlockList s b) :
    ∃ e ∈ extents, e.addr = b := by
  induction on with
  | start =>
    obtain ⟨e, rest, shape, start⟩ := healthy_start healthy
    exact ⟨e, by simp [shape], start⟩
  | next _ nonnull ih =>
    obtain ⟨e, member, rfl⟩ := ih
    exact (next_on_list healthy.1 member).resolve_left nonnull

theorem accounted_safe (accounted : Accounted start w extents) : Safe start w where
  disjoint := by
    have tiles := accounted.healthy.1.tiles
    refine accounted.distinct.imp_of_mem ?_
    rintro x y left right different ⟨a, inX, inY⟩
    obtain ⟨e, member, -, atX, fitsX⟩ := accounted.owned x left
    obtain ⟨f, held, -, atY, fitsY⟩ := accounted.owned y right
    have apart := tiles_apart_of_ne tiles member held (by rintro rfl; omega)
    unfold sizeofHeapBlock at apart
    omega
  headers := by
    rintro x member b on ⟨a, inX, inHeader⟩
    obtain ⟨e, held, -, atX, fits⟩ := accounted.owned x member
    obtain ⟨f, listed, rfl⟩ := onBlockList_extent accounted.healthy on
    unfold sizeofHeapBlock at inHeader
    by_cases same : e = f
    · subst same
      omega
    · have apart := tiles_apart_of_ne accounted.healthy.1.tiles held listed same
      unfold sizeofHeapBlock at apart
      omega
  inside := by
    intro x member
    obtain ⟨e, held, -, atX, fits⟩ := accounted.owned x member
    have bounds := tiles_bounds accounted.healthy.1.tiles e held
    have started := accounted.started
    unfold sizeofHeapBlock at bounds
    omega

theorem boot_accounted (m : Mem) (positive : 0 < start) (room : 20 ≤ size)
    (bound : start + size < 2 ^ 32) :
    Accounted start (boot m start size) [⟨start, size - 20, true⟩] :=
  have initialized := heapInitialize_healthy m start size positive room bound
  ⟨initialized.1, rfl, initialized.2, by simp [boot], List.Pairwise.nil⟩

/-- Writes into a payload change no header of the list. -/
theorem store_accounted (accounted : Accounted start w extents) (member : (p, n) ∈ w.live)
    (inside : ∀ a, a < p ∨ p + n ≤ a → m a = w.heap.mem a) :
    Accounted start ⟨{ w.heap with mem := m }, w.live⟩ extents where
  healthy := by
    refine ⟨layout_congr accounted.healthy.1 ?_, accounted.healthy.2⟩
    intro e held
    obtain ⟨f, owner, -, atP, fits⟩ := accounted.owned _ member
    dsimp only at atP fits
    refine block_congr _ _ fun a lower upper => inside a ?_
    by_cases same : f = e
    · subst same
      omega
    · have apart := tiles_apart_of_ne accounted.healthy.1.tiles owner held same
      unfold sizeofHeapBlock at apart
      omega
  started := accounted.started
  cursor := accounted.cursor
  owned := accounted.owned
  distinct := accounted.distinct

/-- One call that spares the cursor keeps the account. -/
theorem step_accounted (accounted : Accounted start w extents) (spares : SparesCursor w call)
    (step : HeapStep w call w') : ∃ extents, Accounted start w' extents := by
  cases step with
  | memAlloc fuel small ran =>
    obtain ⟨after, healthy, cursor, keeps, e, held, used, pointer, fits, fresh⟩ :=
      memAlloc_healthy accounted.healthy accounted.cursor (Nat.le_trans (Nat.le_of_lt small) (by decide)) ran
    refine ⟨after, healthy, ?_, cursor, ?_, ?_⟩
    · rw [← accounted.started]
      exact memAlloc_heapStart ran
    · intro x member
      rcases List.mem_cons.mp member with rfl | member
      · exact ⟨e, held, used, pointer, fits⟩
      · obtain ⟨f, listed, owns⟩ := accounted.owned x member
        exact ⟨f, keeps f listed owns.1, owns⟩
    · refine List.pairwise_cons.mpr ⟨?_, accounted.distinct⟩
      intro x member
      obtain ⟨f, listed, usedF, atX, -⟩ := accounted.owned x member
      have := fresh f listed usedF
      dsimp only
      omega
  | memFree member =>
    rename_i p n
    obtain ⟨e, held, used, pointer, fits⟩ := accounted.owned _ member
    dsimp only at pointer
    subst pointer
    obtain ⟨front, back, rfl⟩ := List.append_of_mem held
    obtain ⟨after, healthy, keeps, cursor⟩ :=
      memFree_healthy accounted.healthy accounted.cursor used
    refine ⟨after, healthy, ?_, cursor spares, ?_, accounted.distinct.filter _⟩
    · rw [← accounted.started]
      exact memFree_heapStart _ _
    · intro x remains
      obtain ⟨listed, other⟩ := List.mem_filter.mp remains
      obtain ⟨f, heldF, usedF, atX, fitsF⟩ := accounted.owned x listed
      refine ⟨f, keeps f ?_ usedF, usedF, atX, fitsF⟩
      have different : f ≠ e := by
        rintro rfl
        simp [atX] at other
      simp only [List.mem_append, List.mem_cons] at heldF ⊢
      exact heldF.imp_right fun h => h.resolve_left different
  | store member inside => exact ⟨extents, store_accounted accounted member inside⟩

/-! ## Calls on short lists -/

section ShortLists
variable {s : HeapState}

theorem memAlloc_at_cursor (nonnull : s.lastAlloc ≠ 0) (bound : s.lastAlloc + 20 < 2 ^ 32)
    (free : (block s.mem s.lastAlloc).isFree = true)
    (fits : formedSize n ≤ (block s.mem s.lastAlloc).size) :
    memAlloc 2 s n = some (s.lastAlloc + 20, takeBlock s s.lastAlloc (formedSize n)) := by
  simp only [memAlloc, findBlock, nonnull, free, fits, ↓reduceIte, and_self]
  rw [add32_of_lt (by unfold sizeofHeapBlock; omega)]
  rfl

theorem takeBlock_split (c formed : Nat) (room : formed + 24 < (block s.mem c).size)
    (bound : c + 20 + (block s.mem c).size < 2 ^ 32) (last : (block s.mem c).next = 0) :
    block (takeBlock s c formed).mem c =
        { block s.mem c with size := formed, isFree := false, next := c + 20 + formed } ∧
      block (takeBlock s c formed).mem (c + 20 + formed) =
        ⟨heapMagic, (block s.mem c).size - formed - 20, true, 0, c⟩ ∧
      (takeBlock s c formed).lastAlloc = c + 20 + formed := by
  have sum : add32 formed (sizeofHeapBlock + 4) = formed + 24 :=
    add32_of_lt (by unfold sizeofHeapBlock; omega)
  obtain ⟨atCurrent, atNew, -⟩ := splitBlock_blocks s.mem c formed room bound (Or.inl last)
  simp (disch := omega) [takeBlock, sum, room, block_store_apart, atCurrent, atNew, last]

/-- The other headers stay as they are. -/
theorem takeBlock_others (c formed : Nat) (room : formed + 24 < (block s.mem c).size)
    (bound : c + 20 + (block s.mem c).size < 2 ^ 32) (last : (block s.mem c).next = 0) (apart : Apart c b)
    (apart' : Apart (c + 20 + formed) b) : block (takeBlock s c formed).mem b = block s.mem b := by
  have sum : add32 formed (sizeofHeapBlock + 4) = formed + 24 :=
    add32_of_lt (by unfold sizeofHeapBlock; omega)
  obtain ⟨atCurrent, -, -, others⟩ := splitBlock_blocks s.mem c formed room bound (Or.inl last)
  have same := others b (by simp [apart, apart']) (Or.inl last)
  simp [takeBlock, sum, room, block_store_apart _ _ apart, same]

theorem memFree_marks {b : Nat} (bound : b + 20 < 2 ^ 32) (magic : (block s.mem b).magic = heapMagic)
    (used : (block s.mem b).isFree = false) (first : (block s.mem b).prev = 0)
    (apart : b + 20 ≤ (block s.mem b).next)
    (next : (block s.mem (block s.mem b).next).isFree = false) :
    memFree s (b + 20) = { s with mem := setIsFree s.mem b true } := by
  have pointer : sub32 (b + 20) sizeofHeapBlock = b := by
    rw [sub32_of_le (by unfold sizeofHeapBlock; omega) (by omega)]
    rfl
  have apart : Apart b (block s.mem b).next := Or.inl apart
  simp [memFree, pointer, magic, used, mergeForward, mergeBackward, first,
    block_store_apart _ _ apart, next]

/-- Two calls and a free of the first block: the cursor is on what is left behind
the second. -/
theorem freed_between :
    ∃ s, Run SparesCursor HeapStep (boot (fun _ => 0) 0x600000 0x100000) ⟨s, [(0x60008C, 1048360)]⟩ ∧
    (s.heapStart = 0x600000 ∧ s.heapCurrentEnd = 0x700000 ∧ s.lastAlloc = 0x6FFFB4) ∧
    block s.mem 0x600000 = ⟨heapMagic, 100, true, 0x600078, 0⟩ ∧
    block s.mem 0x600078 = ⟨heapMagic, 1048360, false, 0x6FFFB4, 0x600000⟩ ∧
    block s.mem 0x6FFFB4 = ⟨heapMagic, 56, true, 0, 0x600078⟩ := by
  obtain ⟨s0, s0Eq⟩ : ∃ s, s = heapInitialize (fun _ => 0) 0x600000 0x100000 := ⟨_, rfl⟩
  have header0 : block s0.mem 0x600000 = ⟨heapMagic, 1048556, true, 0, 0⟩ := by
    simp [s0Eq, heapInitialize, sub32, sizeofHeapBlock, heapMagic]
  have cursor0 : s0.lastAlloc = 0x600000 := by rw [s0Eq, heapInitialize]
  have bounds0 : s0.heapStart = 0x600000 ∧ s0.heapCurrentEnd = 0x700000 := by
    rw [s0Eq, heapInitialize]
    exact ⟨rfl, rfl⟩
  have ran1 := memAlloc_at_cursor (s := s0) (n := 100) (by simp [cursor0]) (by simp [cursor0])
    (by simp [cursor0, header0]) (by simp [cursor0, header0, formedSize, add32])
  obtain ⟨atFirst1, atSecond1, cursor1⟩ := takeBlock_split (s := s0) 0x600000 100
    (by simp [header0]) (by simp [header0]) (by simp [header0])
  simp only [cursor0, show formedSize 100 = 100 by decide] at ran1
  generalize s1Eq : takeBlock s0 0x600000 100 = s1 at *
  have bounds1 : s1.heapStart = 0x600000 ∧ s1.heapCurrentEnd = 0x700000 := by rwa [← s1Eq, takeBlock]
  simp only [header0] at atFirst1 atSecond1
  have ran2 := memAlloc_at_cursor (s := s1) (n := 1048360) (by simp [cursor1]) (by simp [cursor1])
    (by simp [cursor1, atSecond1]) (by simp [cursor1, atSecond1, formedSize, add32])
  obtain ⟨atSecond2, atThird2, cursor2⟩ := takeBlock_split (s := s1) 0x600078 1048360
    (by simp [atSecond1]) (by simp [atSecond1]) (by simp [atSecond1])
  have atFirst2 : block (takeBlock s1 0x600078 1048360).mem 0x600000 = ⟨heapMagic, 100, false, 0x600078, 0⟩ := by
    rw [takeBlock_others (s := s1) 0x600078 1048360 (by simp [atSecond1]) (by simp [atSecond1]) (by simp [atSecond1])
      (Or.inr (by decide)) (Or.inr (by decide)), atFirst1]
  simp only [cursor1, Nat.reduceAdd, show formedSize 1048360 = 1048360 by decide] at ran2
  generalize s2Eq : takeBlock s1 0x600078 1048360 = s2 at *
  have bounds2 : s2.heapStart = 0x600000 ∧ s2.heapCurrentEnd = 0x700000 := by rwa [← s2Eq, takeBlock]
  simp only [atSecond1] at atSecond2 atThird2
  have freed := memFree_marks (s := s2) (b := 0x600000) (by decide) (by simp [atFirst2]) (by simp [atFirst2])
    (by simp [atFirst2]) (by simp [atFirst2]) (by simp [atFirst2, atSecond2])
  have run0 : Run SparesCursor HeapStep (boot (fun _ => 0) 0x600000 0x100000) ⟨s0, []⟩ := by
    rw [s0Eq]
    exact Relation.ReflTransGen.refl
  have allowed (w : HeapWorld) (n : Nat) : SparesCursor w (.memAlloc n) := trivial
  have run1 := run_then run0 (allowed _ _) (HeapStep.memAlloc 2 (by decide) ran1)
  have run2 := run_then run1 (allowed _ _) (HeapStep.memAlloc 2 (by decide) ran2)
  have spares : SparesCursor ⟨s2, [(0x60008C, 1048360), (0x600014, 100)]⟩ (.memFree 0x600014) := by
    rintro ⟨⟨first, -⟩, -⟩
    simp [sub32, sizeofHeapBlock, atFirst2] at first
  have run3 := run_then run2 spares (HeapStep.memFree (p := 0x600014) (n := 100) (by simp))
  simp only [freed] at run3
  refine ⟨_, run3, ⟨bounds2.1, bounds2.2, cursor2⟩, ?_, ?_, ?_⟩
  · simp [atFirst2]
  · simp (disch := omega) [block_store_apart, atSecond2]
  · simp (disch := omega) [block_store_apart, atThird2]

end ShortLists

/-! ## Runs -/

/-- In every state that calls sparing the cursor lead to, live payloads are
disjoint, keep clear of the headers of the list and lie inside the heap. -/
theorem heap_run_safe (m : Mem) (start size : Nat) (positive : 0 < start) (room : 20 ≤ size)
    (bound : start + size < 2 ^ 32)
    (run : Run SparesCursor HeapStep (boot m start size) w) : Safe start w := by
  have accounted : ∃ extents, Accounted start w extents := by
    refine run_invariant (fun w => ∃ extents, Accounted start w extents) run
      ⟨_, boot_accounted m positive room bound⟩ ?_
    rintro t call u ⟨extents, accounted⟩ spares step
    exact step_accounted accounted spares step
  obtain ⟨extents, accounted⟩ := accounted
  exact accounted_safe accounted

/-- A freed block is handed out again while another one is in use. -/
theorem heap_run_safe_reused : ∃ w, Run SparesCursor HeapStep (boot (fun _ => 0) 0x600000 0x100000) w ∧
    w.live = [(0x600014, 80), (0x60008C, 1048360)] ∧ Safe 0x600000 w := by
  obtain ⟨s, run, ⟨start, -, cursor⟩, atFirst, -, atThird⟩ := freed_between
  have ran : memAlloc 4 s 80 = some (0x600014, takeBlock s 0x600000 80) := by
    simp [memAlloc, findBlock, cursor, start, atThird, atFirst, formedSize, add32, sizeofHeapBlock]
  have allowed : SparesCursor ⟨s, [(0x60008C, 1048360)]⟩ (.memAlloc 80) := trivial
  have again := run_then run allowed (HeapStep.memAlloc 4 (by decide) ran)
  exact ⟨_, again, rfl, heap_run_safe _ _ _ (by decide) (by decide) (by decide) again⟩

/-! ## The run that strands the cursor -/

section Stranded
variable {s : HeapState}

theorem takeBlock_whole (c formed : Nat) (tight : (block s.mem c).size ≤ formed + 24)
    (small : formed + 24 < 2 ^ 32) (last : (block s.mem c).next = 0) :
    takeBlock s c formed =
      { s with mem := setIsFree s.mem c false, lastAlloc := s.heapStart } := by
  have sum : add32 formed (sizeofHeapBlock + 4) = formed + 24 :=
    add32_of_lt (by unfold sizeofHeapBlock; omega)
  simp [takeBlock, sum, Nat.not_lt.mpr tight, last]

/-- The last block of the list goes into its free predecessor. -/
theorem memFree_swallowed {b p : Nat} (bound : b + 20 + (block s.mem b).size < 2 ^ 32)
    (magic : (block s.mem b).magic = heapMagic) (used : (block s.mem b).isFree = false)
    (last : (block s.mem b).next = 0) (prev : (block s.mem b).prev = p) (nonnull : p ≠ 0)
    (before : p + 20 + (block s.mem p).size ≤ b) (free : (block s.mem p).isFree = true) :
    memFree s (b + 20) = { s with
      mem := setNext (setSize (setIsFree s.mem b true) p
        ((block s.mem p).size + (20 + (block s.mem b).size))) p 0
      lastAlloc := if s.lastAlloc = p then b else s.lastAlloc } := by
  have pointer : sub32 (b + 20) sizeofHeapBlock = b := by
    rw [sub32_of_le (by unfold sizeofHeapBlock; omega) (by omega)]
    rfl
  have total : add32 (block s.mem p).size (add32 sizeofHeapBlock (block s.mem b).size) =
      (block s.mem p).size + (20 + (block s.mem b).size) := by
    rw [add32_of_lt (a := sizeofHeapBlock) (by unfold sizeofHeapBlock; omega),
      add32_of_lt (by unfold sizeofHeapBlock; omega)]
    rfl
  have apart : Apart b p := Or.inr (by omega)
  have apart' : Apart p b := Or.inl (by omega)
  simp [memFree, pointer, magic, used, mergeForward, mergeBackward, last, prev, nonnull, free,
    block_store_apart _ _ apart, block_store_apart _ _ apart', total]

/-- Two allocations fill the heap, both are freed, and the same two sizes are
asked for again: the second free moves the cursor onto the header its merge
swallows, so the next two calls serve one range twice. -/
theorem stranded_cursor_overlaps :
    ∃ w, Run AnyCall HeapStep (boot (fun _ => 0) 0x600000 0x100000) w ∧
      (0x60008C, 1048436) ∈ w.live ∧ (0x600014, 1048556) ∈ w.live ∧ ¬ Safe 0x600000 w := by
  -- the first two calls cut the heap into two blocks in use
  obtain ⟨s0, s0Eq⟩ : ∃ s, s = heapInitialize (fun _ => 0) 0x600000 0x100000 := ⟨_, rfl⟩
  have header0 : block s0.mem 0x600000 = ⟨heapMagic, 1048556, true, 0, 0⟩ := by
    simp [s0Eq, heapInitialize, sub32, sizeofHeapBlock, heapMagic]
  have cursor0 : s0.lastAlloc = 0x600000 := by rw [s0Eq, heapInitialize]
  have start0 : s0.heapStart = 0x600000 := by rw [s0Eq, heapInitialize]
  have ran1 := memAlloc_at_cursor (s := s0) (n := 100) (by simp [cursor0]) (by simp [cursor0])
    (by simp [cursor0, header0]) (by simp [cursor0, header0, formedSize, add32])
  obtain ⟨atFirst1, atSecond1, cursor1⟩ := takeBlock_split (s := s0) 0x600000 100
    (by simp [header0]) (by simp [header0]) (by simp [header0])
  simp only [cursor0, show formedSize 100 = 100 by decide] at ran1
  generalize s1Eq : takeBlock s0 0x600000 100 = s1 at *
  have start1 : s1.heapStart = 0x600000 := by rw [← s1Eq, takeBlock, start0]
  simp only [header0] at atFirst1 atSecond1
  have ran2 := memAlloc_at_cursor (s := s1) (n := 1048436) (by simp [cursor1]) (by simp [cursor1])
    (by simp [cursor1, atSecond1]) (by simp [cursor1, atSecond1, formedSize, add32])
  have taken2 := takeBlock_whole (s := s1) 0x600078 1048436
    (by simp [atSecond1]) (by simp) (by simp [atSecond1])
  simp only [cursor1, Nat.reduceAdd, show formedSize 1048436 = 1048436 by decide, taken2] at ran2
  generalize s2Eq : ({ s1 with
    mem := setIsFree s1.mem 0x600078 false, lastAlloc := s1.heapStart } : HeapState) = s2 at ran2
  have atFirst2 : block s2.mem 0x600000 = ⟨heapMagic, 100, false, 0x600078, 0⟩ := by
    simp (disch := omega) [← s2Eq, block_store_apart, atFirst1]
  have atSecond2 : block s2.mem 0x600078 = ⟨heapMagic, 1048436, false, 0, 0x600000⟩ := by
    simp [← s2Eq, atSecond1]
  have cursor2 : s2.lastAlloc = 0x600000 := by simp [← s2Eq, start1]
  have start2 : s2.heapStart = 0x600000 := by rw [← s2Eq, start1]
  -- the first free only marks, the second is swallowed by the first block
  have freed3 : memFree s2 0x600014 = { s2 with mem := setIsFree s2.mem 0x600000 true } :=
    memFree_marks (by decide) (by simp [atFirst2]) (by simp [atFirst2]) (by simp [atFirst2])
      (by simp [atFirst2]) (by simp [atFirst2, atSecond2])
  generalize s3Eq : memFree s2 0x600014 = s3 at *
  have atFirst3 : block s3.mem 0x600000 = ⟨heapMagic, 100, true, 0x600078, 0⟩ := by
    simp [freed3, atFirst2]
  have atSecond3 : block s3.mem 0x600078 = ⟨heapMagic, 1048436, false, 0, 0x600000⟩ := by
    simp (disch := omega) [freed3, block_store_apart, atSecond2]
  have freed4 : memFree s3 0x60008C =
      { s3 with
        mem := setNext (setSize (setIsFree s3.mem 0x600078 true) 0x600000 1048556) 0x600000 0
        lastAlloc := 0x600078 } := by
    have swallowed := memFree_swallowed (s := s3) (b := 0x600078) (p := 0x600000)
      (by simp [atSecond3]) (by simp [atSecond3]) (by simp [atSecond3]) (by simp [atSecond3])
      (by simp [atSecond3]) (by decide) (by simp [atFirst3]) (by simp [atFirst3])
    have cursor3 : s3.lastAlloc = 0x600000 := by rw [freed3, cursor2]
    simpa only [atFirst3, atSecond3, cursor3, ↓reduceIte, Nat.reduceAdd] using swallowed
  generalize s4Eq : memFree s3 0x60008C = s4 at *
  have atFirst4 : block s4.mem 0x600000 = ⟨heapMagic, 1048556, true, 0, 0⟩ := by
    simp (disch := omega) [freed4, block_store_apart, atFirst3]
  have atSecond4 : block s4.mem 0x600078 = ⟨heapMagic, 1048436, true, 0, 0x600000⟩ := by
    simp (disch := omega) [freed4, block_store_apart, atSecond3]
  have cursor4 : s4.lastAlloc = 0x600078 := by rw [freed4]
  have start4 : s4.heapStart = 0x600000 := by rw [freed4, freed3, start2]
  -- the stale header is taken first, then the block that swallowed it
  have ran5 := memAlloc_at_cursor (s := s4) (n := 1048436) (by simp [cursor4]) (by simp [cursor4])
    (by simp [cursor4, atSecond4]) (by simp [cursor4, atSecond4, formedSize, add32])
  have taken5 := takeBlock_whole (s := s4) 0x600078 1048436
    (by simp [atSecond4]) (by simp) (by simp [atSecond4])
  simp only [cursor4, Nat.reduceAdd, show formedSize 1048436 = 1048436 by decide, taken5] at ran5
  generalize s5Eq : ({ s4 with
    mem := setIsFree s4.mem 0x600078 false, lastAlloc := s4.heapStart } : HeapState) = s5 at ran5
  have atFirst5 : block s5.mem 0x600000 = ⟨heapMagic, 1048556, true, 0, 0⟩ := by
    simp (disch := omega) [← s5Eq, block_store_apart, atFirst4]
  have cursor5 : s5.lastAlloc = 0x600000 := by simp [← s5Eq, start4]
  have ran6 := memAlloc_at_cursor (s := s5) (n := 1048556) (by simp [cursor5]) (by simp [cursor5])
    (by simp [cursor5, atFirst5]) (by simp [cursor5, atFirst5, formedSize, add32])
  simp only [cursor5, Nat.reduceAdd] at ran6
  generalize takeBlock s5 0x600000 (formedSize 1048556) = s6 at ran6
  refine ⟨⟨s6, [(0x600014, 1048556), (0x60008C, 1048436)]⟩, ?_, by simp, by simp, ?_⟩
  · have run0 : Run AnyCall HeapStep (boot (fun _ => 0) 0x600000 0x100000) ⟨s0, []⟩ := by
      rw [s0Eq]
      exact Relation.ReflTransGen.refl
    have run2 := run_then (run_then run0 trivial (HeapStep.memAlloc 2 (by simp) ran1)) trivial
      (HeapStep.memAlloc 2 (by simp) ran2)
    have run3 := run_then run2 trivial (HeapStep.memFree (p := 0x600014) (n := 100) (by simp))
    have run4 := run_then run3 trivial (HeapStep.memFree (p := 0x60008C) (n := 1048436) (by simp))
    simp only [s3Eq, s4Eq] at run4
    exact run_then (run_then run4 trivial (HeapStep.memAlloc 2 (by simp) ran5)) trivial
      (HeapStep.memAlloc 2 (by simp) ran6)
  · rintro ⟨disjoint, -, -⟩
    have := (List.pairwise_cons.mp disjoint).1 _ (List.mem_singleton_self _)
    exact this ⟨0x60008C, by decide, by decide⟩

end Stranded

end MeowMeowOS.HeapSafety

import MeowMeowOS.UserHeapRuns

/-! `malloc` and `free` beside `sbrk` calls of the program's own. Chunks of
separate calls are neighbours on the list whether or not something lies between
them in memory, and `free` joins neighbours on the list. As long as the ones it
joins also touch in memory, no block reaches into what the program took itself;
one join across a gap is enough to hand that memory out. -/
namespace MeowMeowOS.DirectSbrk
open ByteMemory Tiling BlockLists UserHeap UserHeapLayout UserHeapOperations UserHeapCalls UserHeapRuns GuardedRuns
open HeapSafety (Owns Overlap)
open KernelHeap (add32 sub32 add32_of_lt sub32_of_le)

/-- The heap, the live pointers with their sizes, and what direct calls of
`sbrk` returned, with the lengths. -/
structure SbrkWorld where
  heap : UserState
  live : List (Nat × Nat)
  direct : List (Nat × Nat)

inductive SbrkEvent where
  | malloc (size : Nat)
  | free (ptr : Nat)
  | sbrk (increment : Nat)
  | store (address : Nat)

inductive SbrkStep : SbrkWorld → SbrkEvent → SbrkWorld → Prop where
  | malloc (small : n ≤ maxRequest) (ran : malloc fuel w.heap n granted = some (p, s)) :
      SbrkStep w (.malloc n) ⟨s, handed w.live p n, w.direct⟩
  | free (member : (p, n) ∈ w.live) : SbrkStep w (.free p) ⟨free w.heap p, dropped w.live p, w.direct⟩
  | sbrk (positive : 0 < k) (small : k < 2 ^ 31) (ran : sbrk w.heap k granted = (a, s)) :
      SbrkStep w (.sbrk k) ⟨s, w.live, if a = failed then w.direct else (a, k) :: w.direct⟩
  | store (member : (p, n) ∈ w.live ++ w.direct) (inside : ∀ a, a < p ∨ p + n ≤ a → m a = w.heap.mem a) :
      SbrkStep w (.store p) ⟨{ w.heap with mem := m }, w.live, w.direct⟩

def AnySbrkEvent (_ : SbrkWorld) (_ : SbrkEvent) : Prop := True

def startedDirect (m : Mem) (errno brk : Nat) : SbrkWorld := ⟨⟨m, 0, errno, brk, brk⟩, [], []⟩

structure Separate (w : SbrkWorld) : Prop where
  direct : ∀ x ∈ w.live, ∀ d ∈ w.direct, ¬ Overlap x.1 x.2 d.1 d.2
  live : w.live.Pairwise fun x y => ¬ Overlap x.1 x.2 y.1 y.2

/-- The neighbours that a free of `p` takes in touch the block in memory. -/
structure JoinsTouching (m : Mem) (b : Nat) : Prop where
  next : (block m b).next ≠ 0 → (block m (block m b).next).free ≠ 0 →
    (block m (block m b).next).magic = blockMagic → b + sizeofUserBlock + (block m b).size = (block m b).next
  prev : (block m b).prev ≠ 0 → (block m (block m b).prev).free ≠ 0 →
    (block m (block m b).prev).magic = blockMagic →
      (block m b).prev + sizeofUserBlock + (block m (block m b).prev).size = b

/-- Every call is allowed except a free that joins blocks across a gap. -/
def SparesGaps (w : SbrkWorld) : SbrkEvent → Prop
  | .free p => JoinsTouching w.heap.mem (p - sizeofUserBlock)
  | _ => True

/-! ## The account of a heap with gaps -/

structure Spared (lo : Nat) (w : SbrkWorld) (extents : List Extent) : Prop where
  heap : HeapOf w.heap lo extents
  owned : ∀ x ∈ w.live, ∃ e ∈ extents, Owns e x
  distinct : w.live.Pairwise fun x y => x.1 ≠ y.1
  below : ∀ d ∈ w.direct, d.1 + d.2 ≤ w.heap.brk
  uncovered : ∀ d ∈ w.direct, ∀ x, d.1 ≤ x → x < d.1 + d.2 → ¬ Covered 20 extents x

section
variable {lo : Nat} {w w' : SbrkWorld} {s t : UserState} {e f : Extent} {extents extents' front back : List Extent}

theorem startedDirect_spared (m : Mem) (errno : Nat) (positive : 0 < lo) (bounded : lo < 2 ^ 32) :
    Spared lo (startedDirect m errno lo) [] :=
  ⟨⟨⟨Nat.le_refl lo, trivial, positive, bounded⟩, rfl⟩, by simp [startedDirect], List.Pairwise.nil,
    by simp [startedDirect], by simp [startedDirect]⟩

theorem spared_separate (spared : Spared lo w extents) : Separate w where
  direct := by
    rintro x member d taken ⟨a, inX, inD⟩
    obtain ⟨e, listed, -, pointer, fits⟩ := spared.owned x member
    exact spared.uncovered d taken a inD.1 inD.2 ⟨e, listed, by omega, by omega⟩
  live := by
    refine spared.distinct.imp_of_mem ?_
    rintro x y left right different ⟨a, inX, inY⟩
    obtain ⟨e, listed, -, atX, fitsX⟩ := spared.owned x left
    obtain ⟨f, held, -, atY, fitsY⟩ := spared.owned y right
    have apart := spread_apart_of_ne spared.heap.layout.spread listed held (by rintro rfl; omega)
    omega

/-- The bytes a call adds to the list lie behind everything taken directly. -/
theorem uncovered_evolved (spared : Spared lo w extents) (evolved : Evolved lo w.heap t extents extents') :
    ∀ d ∈ w.direct, ∀ x, d.1 ≤ x → x < d.1 + d.2 → ¬ Covered 20 extents' x := by
  intro d taken x lower upper covered
  have below := spared.below d taken
  rcases evolved.covered x covered with covered | beyond
  · exact spared.uncovered d taken x lower upper covered
  · omega

theorem freeAdjacent_touching (layout : Layout m lo hi (front ++ e :: back)) (touching : JoinsTouching m e.addr) :
    FreeAdjacent 20 front e back where
  left := by
    intro f last free
    obtain ⟨rest, rfl⟩ := List.getLast?_eq_some_iff.mp last
    have assoc : Layout m lo hi (rest ++ f :: e :: back) := by simpa using layout
    have atF := layout_at assoc
    have prev : (block m e.addr).prev = f.addr := by
      rw [layout_at layout, lastAddr_append]
      rfl
    have touch := touching.prev
    rw [prev, atF] at touch
    exact touch (Nat.ne_of_gt (layout_bounds layout (e := f) (by simp)).1) (by simp [record, free]) rfl
  right := by
    intro f first free
    obtain ⟨rest, rfl⟩ := List.head?_eq_some_iff.mp first
    have assoc : Layout m lo hi ((front ++ [e]) ++ f :: rest) := by simpa using layout
    have atF := layout_at assoc
    have next : (block m e.addr).next = f.addr := by
      rw [layout_at layout]
      rfl
    have size : (block m e.addr).size = e.size := by
      rw [layout_at layout]
      rfl
    have touch := touching.next
    rw [next, atF, size] at touch
    exact touch (Nat.ne_of_gt (layout_bounds layout (e := f) (by simp)).1) (by simp [record, free]) rfl

theorem malloc_spared (spared : Spared lo w extents) (small : n ≤ maxRequest)
    (ran : malloc fuel w.heap n granted = some (p, s)) :
    ∃ extents', Spared lo ⟨s, handed w.live p n, w.direct⟩ extents' := by
  rcases malloc_serves spared.heap small ran with refused | ⟨extents', e, evolved, keeps, serves⟩
  · rw [handed, if_pos refused.null]
    refine ⟨extents, ⟨?_, refused.head.trans spared.heap.head⟩, spared.owned, spared.distinct, ?_,
      spared.uncovered⟩
    · rw [refused.mem, refused.brk]
      exact spared.heap.layout
    · rw [refused.brk]
      exact spared.below
  · rw [handed, if_neg (serves_nonnull serves)]
    have uncovered := uncovered_evolved spared evolved
    refine ⟨extents', evolved.heap, ?_, ?_, fun d taken => Nat.le_trans (spared.below d taken) evolved.brk,
      uncovered⟩
    · intro x member
      rcases List.mem_cons.mp member with rfl | member
      · exact ⟨e, serves.listed, serves.used, serves.pointer, serves.fits⟩
      · obtain ⟨f, listed, owns⟩ := spared.owned x member
        exact ⟨f, keeps f listed owns.1, owns⟩
    · refine List.pairwise_cons.mpr ⟨fun x member => ?_, spared.distinct⟩
      obtain ⟨f, listed, used, atX, -⟩ := spared.owned x member
      have fresh := serves.fresh f listed used
      have pointer := serves.pointer
      dsimp only
      omega

theorem free_spared (spared : Spared lo w extents) (member : (p, n) ∈ w.live)
    (touching : JoinsTouching w.heap.mem (p - sizeofUserBlock)) :
    ∃ extents', Spared lo ⟨free w.heap p, dropped w.live p, w.direct⟩ extents' := by
  obtain ⟨e, listed, used, pointer, -⟩ := spared.owned _ member
  dsimp only at pointer
  subst pointer
  have at' : e.addr + 20 - sizeofUserBlock = e.addr := Nat.add_sub_cancel e.addr 20
  rw [at'] at touching
  obtain ⟨front, back, rfl⟩ := List.append_of_mem listed
  obtain ⟨extents', evolved, keeps⟩ :=
    free_evolves spared.heap (freeAdjacent_touching spared.heap.layout touching)
  have uncovered := uncovered_evolved spared evolved
  refine ⟨extents', evolved.heap, ?_, spared.distinct.filter _,
    fun d taken => Nat.le_trans (spared.below d taken) evolved.brk, uncovered⟩
  intro x remains
  obtain ⟨held, other⟩ := List.mem_filter.mp remains
  obtain ⟨f, listedF, owns⟩ := spared.owned x held
  refine ⟨f, keeps f ?_ owns.1, owns⟩
  have different : f ≠ e := by
    rintro rfl
    simp [owns.2.1] at other
  simp only [List.mem_append, List.mem_cons] at listedF ⊢
  exact listedF.imp_right fun h => h.resolve_left different

/-- Memory behind the list is no part of it. -/
theorem heapOf_widen (brk : Nat) (heap : HeapOf s lo extents) (higher : s.brk ≤ brk) (bounded : brk < 2 ^ 32) :
    HeapOf { s with brk := brk } lo extents :=
  ⟨⟨spread_widen heap.layout.spread (Nat.le_refl lo) higher, heap.layout.recorded, heap.layout.positive, bounded⟩,
    heap.head⟩

theorem sbrk_spared (spared : Spared lo w extents) (small : k < 2 ^ 31) (ran : sbrk w.heap k granted = (a, s)) :
    Spared lo ⟨s, w.live, if a = failed then w.direct else (a, k) :: w.direct⟩ extents := by
  rcases sbrk_cases w.heap small granted with refused | ⟨granted, room⟩
  · rw [refused] at ran
    obtain ⟨rfl, rfl⟩ := Prod.mk.inj ran
    rw [if_pos rfl]
    exact ⟨⟨spared.heap.layout, spared.heap.head⟩, spared.owned, spared.distinct, spared.below,
      spared.uncovered⟩
  · rw [granted] at ran
    obtain ⟨rfl, rfl⟩ := Prod.mk.inj ran
    have some : w.heap.brk ≠ failed := by
      unfold failed
      omega
    rw [if_neg some]
    have layout := spared.heap.layout
    refine ⟨heapOf_widen _ spared.heap (Nat.le_add_right _ _) (by omega), spared.owned, spared.distinct, ?_, ?_⟩
    · intro d taken
      rcases List.mem_cons.mp taken with rfl | taken
      · exact Nat.le_refl _
      · exact Nat.le_trans (spared.below d taken) (Nat.le_add_right _ _)
    · intro d taken x lower upper
      rcases List.mem_cons.mp taken with rfl | taken
      · rintro ⟨e, listed, -, inside⟩
        have bounds := layout_bounds layout listed
        dsimp only at lower
        omega
      · exact spared.uncovered d taken x lower upper

theorem store_spared (spared : Spared lo w extents) (member : (p, n) ∈ w.live ++ w.direct)
    (inside : ∀ a, a < p ∨ p + n ≤ a → m a = w.heap.mem a) :
    Spared lo ⟨{ w.heap with mem := m }, w.live, w.direct⟩ extents := by
  have heap : HeapOf { w.heap with mem := m } lo extents := by
    rcases List.mem_append.mp member with member | member
    · obtain ⟨e, listed, -, pointer, fits⟩ := spared.owned _ member
      dsimp only at pointer fits
      exact heap_store spared.heap listed fun x outside => inside x (by omega)
    · -- what was taken directly holds no header
      refine ⟨layout_congr spared.heap.layout fun e listed => block_congr _ _ fun x lower upper => inside x ?_,
        spared.heap.head⟩
      have uncovered := spared.uncovered _ member x
      by_cases within : p ≤ x ∧ x < p + n
      · exact absurd ⟨e, listed, lower, by omega⟩ (uncovered within.1 within.2)
      · omega
  exact ⟨heap, spared.owned, spared.distinct, spared.below, spared.uncovered⟩

/-- With the second block in use a free of the first joins nothing. -/
theorem joinsTouching_used (heap : HeapOf s lo [e, f]) (used : f.free = false) : JoinsTouching s.mem e.addr := by
  have first : Layout s.mem lo s.brk ([] ++ e :: [f]) := heap.layout
  have second : Layout s.mem lo s.brk ([e] ++ f :: []) := heap.layout
  have atE : block s.mem e.addr = record e f.addr 0 := layout_at first
  have atF : block s.mem f.addr = record f 0 e.addr := layout_at second
  refine ⟨fun _ free => ?_, fun some => ?_⟩
  · rw [atE] at free
    exact absurd (by rw [show (record e f.addr 0).next = f.addr from rfl, atF]; simp [record, used]) free
  · rw [atE] at some
    exact absurd rfl some

theorem step_spared (spared : Spared lo w extents) (spares : SparesGaps w event) (step : SbrkStep w event w') :
    ∃ extents', Spared lo w' extents' := by
  cases step with
  | malloc small ran => exact malloc_spared spared small ran
  | free member => exact free_spared spared member spares
  | sbrk positive small ran => exact ⟨extents, sbrk_spared spared small ran⟩
  | store member inside => exact ⟨extents, store_spared spared member inside⟩

/-- In every state that calls sparing the gaps lead to, no live block overlaps
another one or memory that the program took itself. -/
theorem direct_run_separate (m : Mem) (errno lo : Nat) (positive : 0 < lo) (bounded : lo < 2 ^ 32)
    (run : Run SparesGaps SbrkStep (startedDirect m errno lo) w) : Separate w := by
  have spared : ∃ extents, Spared lo w extents := by
    refine run_invariant (fun w => ∃ extents, Spared lo w extents) run
      ⟨_, startedDirect_spared m errno positive bounded⟩ ?_
    rintro t event u ⟨extents, spared⟩ spares step
    exact step_spared spared spares step
  obtain ⟨extents, spared⟩ := spared
  exact spared_separate spared

/-- Two pages from `malloc` with a page taken directly between them: the first is
freed and handed out again. -/
theorem direct_run_separate_reused : ∃ w, Run SparesGaps SbrkStep (startedDirect (fun _ => 0) 0 0x10000000) w ∧
    w.live = [(0x10000014, 4072), (0x10002014, 4072)] ∧ w.direct = [(0x10001000, 4096)] ∧ Separate w := by
  have small : 4072 ≤ maxRequest := by decide
  have allowed (w : SbrkWorld) (n : Nat) : SparesGaps w (.malloc n) ∧ SparesGaps w (.sbrk n) := ⟨trivial, trivial⟩
  have run0 : Run SparesGaps SbrkStep (startedDirect (fun _ => 0) 0 0x10000000) _ := Relation.ReflTransGen.refl
  have empty : Spared 0x10000000 (startedDirect (fun _ => 0) 0 0x10000000) [] :=
    startedDirect_spared _ 0 (by decide) (by decide)
  obtain ⟨s1, ran1, brk1, heap1⟩ := malloc_page 1 empty.heap (by simp) (by decide) (by decide)
  have run1 := run_then run0 (allowed _ _).1 (SbrkStep.malloc small ran1)
  have brk1 : s1.brk = 0x10001000 := brk1
  have taken : sbrk s1 4096 true = (0x10001000, { s1 with brk := 0x10002000 }) := by
    simp [sbrk, sysSbrk, brk1, failed]
  have run2 := run_then run1 (allowed _ _).2 (SbrkStep.sbrk (by decide) (by decide) taken)
  have heap2 := heapOf_widen 0x10002000 heap1 (by rw [brk1]; decide) (by decide)
  have brk2 : ({ s1 with brk := 0x10002000 } : UserState).brk = 0x10002000 := rfl
  generalize ({ s1 with brk := 0x10002000 } : UserState) = s2 at run2 heap2 brk2
  obtain ⟨s3, ran3, -, heap3⟩ := malloc_page 2 heap2 (by simp [startedDirect]) (by rw [brk2]; decide) (by decide)
  have run3 := run_then run2 (allowed _ _).1 (SbrkStep.malloc small ran3)
  rw [brk2] at heap3 run3
  have touching (live direct : List (Nat × Nat)) : SparesGaps ⟨s3, live, direct⟩ (.free 0x10000014) :=
    joinsTouching_used heap3 rfl
  have heap4 := free_marks heap3 rfl
  have run4 := run_then run3 (touching _ _)
    (SbrkStep.free (p := 0x10000014) (n := 4072) (by simp [handed, startedDirect]))
  obtain ⟨s5, ran5⟩ := malloc_marked (n := 4072) heap4 (by decide) (by decide)
  have run5 := run_then run4 (allowed _ _).1 (SbrkStep.malloc small ran5)
  exact ⟨_, run5, by simp [handed, dropped, startedDirect], by simp [failed, startedDirect],
    direct_run_separate _ _ _ (by decide) (by decide) run5⟩

end

/-! ## The run that joins across a gap -/

section
variable {lo : Nat} {s : UserState} {e f : Extent} {extents : List Extent}

/-- The last block of the list goes into its free predecessor, whatever lies
between the two. -/
theorem free_across (heap : HeapOf s lo [e, f]) (free : e.free = true)
    (bound : e.addr + 20 + e.size + 20 + f.size < 2 ^ 32) :
    block (UserHeap.free s (f.addr + 20)).mem e.addr = ⟨blockMagic, e.size + (20 + f.size), 1, 0, 0⟩ ∧
      (UserHeap.free s (f.addr + 20)).heapHead = e.addr := by
  have layout := heap.layout
  have first : Layout s.mem lo s.brk ([] ++ e :: [f]) := layout
  have second : Layout s.mem lo s.brk ([e] ++ f :: []) := layout
  have atE : block s.mem e.addr = record e f.addr 0 := layout_at first
  have atF : block s.mem f.addr = record f 0 e.addr := layout_at second
  have order := spread_before second.spread e (by simp)
  have positive := (layout_bounds layout (e := e) (by simp)).1
  have apart : Apart f.addr e.addr := Or.inr (by omega)
  have magic : ¬ (block s.mem f.addr).magic ≠ blockMagic := by
    rw [atF]
    exact not_not.mpr rfl
  have some : f.addr + 20 ≠ 0 := Nat.succ_ne_zero _
  generalize markedEq : setFree s.mem f.addr 1 = marked
  have markedE : block marked e.addr = record e f.addr 0 := by
    rw [← markedEq, (block_store_apart apart _).2.2.1, atE]
  have markedF : block marked f.addr = ⟨blockMagic, f.size, 1, 0, e.addr⟩ := by
    rw [← markedEq, block_setFree, atF]
    rfl
  have forward : coalesceForward marked f.addr = marked := by
    unfold coalesceForward
    simp [markedF]
  have backward : coalesceBackward marked f.addr = merged marked e.addr f.addr :=
    coalesceBackward_merged (by rw [markedF]) (Nat.ne_of_gt positive) (by rw [markedE]; simp [record, free])
      (by rw [markedE]; rfl) (Or.inl (by omega))
  have absorbs : Absorbs marked (merged marked e.addr f.addr) e.addr f.addr := merged_absorbs (by omega)
    (by rw [markedE, markedF]; exact bound) (by rw [markedF]; exact Or.inl rfl)
  have freed : UserHeap.free s (f.addr + 20) = { s with mem := merged marked e.addr f.addr } := by
    simp only [UserHeap.free, if_neg some, pointer_block layout (e := f) (by simp), if_neg magic, markedEq, forward,
      backward]
  rw [freed]
  refine ⟨?_, heap.head⟩
  rw [absorbs.kept, markedE, markedF]
  simp [record, free]

/-- Two pages from `malloc` with a page taken directly between them, both
freed, and one request that both together would hold: the block it returns
covers the page in between. -/
theorem joined_gap_overlaps : ∃ w, Run AnySbrkEvent SbrkStep (startedDirect (fun _ => 0) 0 0x10000000) w ∧
    (0x10000014, 8168) ∈ w.live ∧ (0x10001000, 4096) ∈ w.direct ∧ ¬ Separate w := by
  have small : 4072 ≤ maxRequest := by decide
  have run0 : Run AnySbrkEvent SbrkStep (startedDirect (fun _ => 0) 0 0x10000000) _ := Relation.ReflTransGen.refl
  have empty : Spared 0x10000000 (startedDirect (fun _ => 0) 0 0x10000000) [] :=
    startedDirect_spared _ 0 (by decide) (by decide)
  obtain ⟨s1, ran1, brk1, heap1⟩ := malloc_page 1 empty.heap (by simp) (by decide) (by decide)
  have run1 := run_then run0 trivial (SbrkStep.malloc small ran1)
  -- the page that the program takes itself
  have brk1 : s1.brk = 0x10001000 := brk1
  have taken : sbrk s1 4096 true = (0x10001000, { s1 with brk := 0x10002000 }) := by
    simp [sbrk, sysSbrk, brk1, failed]
  have run2 := run_then run1 trivial (SbrkStep.sbrk (by decide) (by decide) taken)
  have heap2 := heapOf_widen 0x10002000 heap1 (by rw [brk1]; decide) (by decide)
  have brk2 : ({ s1 with brk := 0x10002000 } : UserState).brk = 0x10002000 := rfl
  generalize ({ s1 with brk := 0x10002000 } : UserState) = s2 at run2 heap2 brk2
  obtain ⟨s3, ran3, -, heap3⟩ := malloc_page 2 heap2 (by simp [startedDirect]) (by rw [brk2]; decide) (by decide)
  have run3 := run_then run2 trivial (SbrkStep.malloc small ran3)
  rw [brk2] at heap3 run3
  -- the first free only marks, the second joins across the page in between
  have heap4 := free_marks heap3 rfl
  have run4 := run_then run3 trivial (SbrkStep.free (p := 0x10000014) (n := 4072) (by simp [handed, startedDirect]))
  have run5 := run_then run4 trivial (SbrkStep.free (p := 0x10002014) (n := 4072) (by simp [handed, dropped]))
  obtain ⟨joined, head⟩ := free_across heap4 rfl (by decide)
  have aligned : alignUp 8168 ≤ 8172 := by decide
  generalize finalEq : UserHeap.free (UserHeap.free s3 0x10000014) 0x10002014 = s5 at run5
  have head5 : s5.heapHead = 0x10000000 := by rw [← finalEq]; exact head
  have joined5 : block s5.mem s5.heapHead = ⟨blockMagic, 8172, 1, 0, 0⟩ := by rw [head5, ← finalEq]; exact joined
  obtain ⟨s6, ran6⟩ :=
    malloc_first_block (n := 8168) (by rw [head5]; decide) (by rw [head5]; decide) joined5 (by decide)
    aligned
  rw [head5] at ran6
  have run6 := run_then run5 trivial (SbrkStep.malloc (by decide) ran6)
  refine ⟨_, run6, by simp [handed], by simp [failed, startedDirect], ?_⟩
  rintro ⟨separate, -⟩
  exact separate (0x10000014, 8168) (by simp [handed]) (0x10001000, 4096) (by simp [failed, startedDirect])
    ⟨0x10001000, by decide, by decide⟩

end

end MeowMeowOS.DirectSbrk

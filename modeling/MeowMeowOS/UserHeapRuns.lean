import MeowMeowOS.UserHeapCalls
import MeowMeowOS.HeapSafety

/-! Whole runs of the user allocator: `malloc`, `calloc`, `realloc` and `free`
interleaved with the program's writes into what it was handed. In every state
the list tiles what `sbrk` returned, its links are inverse to each other, its
free blocks are merged and each live pointer owns a block of its own. -/
namespace MeowMeowOS.UserHeapRuns
open ByteMemory Tiling BlockLists UserHeap UserHeapLayout UserHeapOperations UserHeapCalls GuardedRuns
open HeapSafety (Owns)
open KernelHeap (add32 add32_of_lt)

/-- The program's heap, and each pointer handed out and not freed since with
the size it was requested for. -/
structure UserWorld where
  heap : UserState
  live : List (Nat × Nat)

/-- A call with its arguments and the pointer it returned. -/
inductive UserEvent where
  | malloc (size returned : Nat)
  | calloc (count size returned : Nat)
  | realloc (ptr size returned : Nat)
  | free (ptr : Nat)
  | store (ptr : Nat)

def handed (live : List (Nat × Nat)) (p n : Nat) : List (Nat × Nat) := if p = 0 then live else (p, n) :: live

def dropped (live : List (Nat × Nat)) (p : Nat) : List (Nat × Nat) := live.filter (·.1 ≠ p)

/-- The kernel may grant or refuse each `sbrk`; freed and reallocated pointers
are live ones. -/
inductive UserStep : UserWorld → UserEvent → UserWorld → Prop where
  | malloc (small : n ≤ maxRequest) (ran : malloc fuel w.heap n granted = some (p, s)) :
      UserStep w (.malloc n p) ⟨s, handed w.live p n⟩
  | calloc (small : count * size ≤ maxRequest ∨ 2 ^ 32 ≤ count * size)
      (ran : calloc fuel w.heap count size granted = some (p, s)) :
      UserStep w (.calloc count size p) ⟨s, handed w.live p (count * size)⟩
  | realloc (member : (p, old) ∈ w.live) (positive : n ≠ 0) (small : n ≤ maxRequest)
      (ran : realloc fuel w.heap p n granted = some (q, s)) :
      UserStep w (.realloc p n q) ⟨s, if q = 0 then w.live else (q, n) :: dropped w.live p⟩
  | reallocZero (member : (p, old) ∈ w.live) (ran : realloc fuel w.heap p 0 granted = some (q, s)) :
      UserStep w (.realloc p 0 q) ⟨s, dropped w.live p⟩
  | free (member : (p, old) ∈ w.live) : UserStep w (.free p) ⟨free w.heap p, dropped w.live p⟩
  | store (member : (p, n) ∈ w.live) (inside : ∀ a, a < p ∨ p + n ≤ a → m a = w.heap.mem a) :
      UserStep w (.store p) ⟨{ w.heap with mem := m }, w.live⟩

def AnyEvent (_ : UserWorld) (_ : UserEvent) : Prop := True

/-- The program starts without blocks; its break is where its image ends. -/
def started (m : Mem) (errno brk : Nat) : UserWorld := ⟨⟨m, 0, errno, brk, brk⟩, []⟩

/-! ## The account of a heap -/

/-- The list tiles what `sbrk` returned since `lo`, and each live pointer is the
payload of a block in use that is large enough. -/
structure Accounted (lo : Nat) (w : UserWorld) (extents : List Extent) : Prop where
  heap : HeapOf w.heap lo extents
  tiles : Tiles 20 lo w.heap.brk extents
  owned : ∀ x ∈ w.live, ∃ e ∈ extents, Owns e x
  distinct : w.live.Pairwise fun x y => x.1 ≠ y.1

section
variable {lo : Nat} {w : UserWorld} {s t : UserState} {live : List (Nat × Nat)} {e f : Extent}
  {extents extents' others front back : List Extent}

theorem started_accounted (m : Mem) (errno : Nat) (positive : 0 < lo) (bounded : lo < 2 ^ 32) :
    Accounted lo (started m errno lo) [] :=
  ⟨⟨⟨Nat.le_refl lo, trivial, positive, bounded⟩, rfl⟩, rfl, by simp [started], List.Pairwise.nil⟩

theorem accounted_refused (accounted : Accounted lo w extents) (refused : Refused w.heap t p) :
    Accounted lo ⟨t, w.live⟩ extents where
  heap := by
    refine ⟨?_, refused.head.trans accounted.heap.head⟩
    rw [refused.mem, refused.brk]
    exact accounted.heap.layout
  tiles := by
    rw [refused.brk]
    exact accounted.tiles
  owned := accounted.owned
  distinct := accounted.distinct

/-- The pointers that keep their blocks, and the one that is handed out. -/
theorem accounted_served (tiles : Tiles 20 lo t.brk extents') (heap : HeapOf t lo extents')
    (owned : ∀ x ∈ live, ∃ e ∈ others, Owns e x) (distinct : live.Pairwise fun x y => x.1 ≠ y.1)
    (keeps : Keeps others extents') (serves : Serves others extents' f q n) :
    Accounted lo ⟨t, (q, n) :: live⟩ extents' where
  heap := heap
  tiles := tiles
  owned := by
    intro x member
    rcases List.mem_cons.mp member with rfl | member
    · exact ⟨f, serves.listed, serves.used, serves.pointer, serves.fits⟩
    · obtain ⟨e, listed, owns⟩ := owned x member
      exact ⟨e, keeps e listed owns.1, owns⟩
  distinct := by
    refine List.pairwise_cons.mpr ⟨fun x member => ?_, distinct⟩
    obtain ⟨e, listed, used, atX, -⟩ := owned x member
    have fresh := serves.fresh e listed used
    have pointer := serves.pointer
    dsimp only
    omega

/-- The pointers other than that of one block own the blocks around it. -/
theorem dropped_owned (accounted : Accounted lo w (front ++ e :: back)) :
    ∀ x ∈ dropped w.live (e.addr + 20), ∃ f ∈ front ++ back, Owns f x := by
  intro x remains
  obtain ⟨listed, other⟩ := List.mem_filter.mp remains
  obtain ⟨f, held, owns⟩ := accounted.owned x listed
  refine ⟨f, ?_, owns⟩
  have different : f ≠ e := by
    rintro rfl
    simp [owns.2.1] at other
  simp only [List.mem_append, List.mem_cons] at held ⊢
  exact held.imp_right fun h => h.resolve_left different

theorem free_accounted (accounted : Accounted lo w (front ++ e :: back)) :
    ∃ extents', Accounted lo ⟨free w.heap (e.addr + 20), dropped w.live (e.addr + 20)⟩ extents' ∧
      (NoFreePairs (front ++ e :: back) → NoFreePairs extents') := by
  obtain ⟨extents', evolved, keeps⟩ := free_evolves accounted.heap (tiles_freeAdjacent accounted.tiles)
  refine ⟨extents',
    ⟨evolved.heap, evolved.tiles accounted.tiles, fun x member => ?_, accounted.distinct.filter _⟩,
    evolved.pairs⟩
  obtain ⟨f, listed, owns⟩ := dropped_owned accounted x member
  exact ⟨f, keeps f listed owns.1, owns⟩

theorem store_accounted (accounted : Accounted lo w extents) (member : (p, n) ∈ w.live)
    (inside : ∀ a, a < p ∨ p + n ≤ a → m a = w.heap.mem a) :
    Accounted lo ⟨{ w.heap with mem := m }, w.live⟩ extents where
  heap := by
    obtain ⟨e, listed, -, pointer, fits⟩ := accounted.owned _ member
    dsimp only at pointer fits
    exact heap_store accounted.heap listed fun x outside => inside x (by omega)
  tiles := accounted.tiles
  owned := accounted.owned
  distinct := accounted.distinct

/-- The block of a live pointer, with what lies around it on the list. -/
theorem live_block (accounted : Accounted lo w extents) (member : (p, old) ∈ w.live) :
    ∃ front e back, extents = front ++ e :: back ∧ e.free = false ∧ p = e.addr + 20 ∧ old ≤ e.size := by
  obtain ⟨e, listed, used, pointer, fits⟩ := accounted.owned _ member
  obtain ⟨front, back, shape⟩ := List.append_of_mem listed
  exact ⟨front, e, back, shape, used, pointer, fits⟩

theorem handed_accounted (accounted : Accounted lo w extents) (pairs : NoFreePairs extents)
    (outcome : Refused w.heap s p ∨ ∃ extents' e, Evolved lo w.heap s extents extents' ∧
    Keeps extents extents' ∧
      Serves extents extents' e p n) :
    ∃ extents', Accounted lo ⟨s, handed w.live p n⟩ extents' ∧ NoFreePairs extents' := by
  rcases outcome with refused | ⟨extents', e, evolved, keeps, serves⟩
  · rw [handed, if_pos refused.null]
    exact ⟨extents, accounted_refused accounted refused, pairs⟩
  · rw [handed, if_neg (serves_nonnull serves)]
    exact ⟨extents', accounted_served (evolved.tiles accounted.tiles) evolved.heap accounted.owned accounted.distinct
      keeps serves, evolved.pairs pairs⟩

theorem step_accounted (accounted : Accounted lo w extents) (pairs : NoFreePairs extents)
    (step : UserStep w event w') : ∃ extents', Accounted lo w' extents' ∧ NoFreePairs extents' := by
  cases step with
  | malloc small ran => exact handed_accounted accounted pairs (malloc_serves accounted.heap small ran)
  | calloc small ran => exact handed_accounted accounted pairs (calloc_serves accounted.heap small ran)
  | realloc member positive small ran =>
    obtain ⟨front, e, back, rfl, used, rfl, -⟩ := live_block accounted member
    rcases realloc_moves accounted.heap accounted.tiles used positive small ran with refused | moved
    · rw [if_pos refused.null]
      exact ⟨_, accounted_refused accounted refused, pairs⟩
    · obtain ⟨extents', evolved, keeps, f, serves⟩ := moved.evolved
      rw [if_neg (serves_nonnull serves)]
      exact ⟨extents', accounted_served (evolved.tiles accounted.tiles) evolved.heap (dropped_owned accounted)
        (accounted.distinct.filter _) keeps serves, evolved.pairs pairs⟩
  | reallocZero member ran =>
    obtain ⟨front, e, back, rfl, -, rfl, -⟩ := live_block accounted member
    have some : e.addr + 20 ≠ 0 := Nat.succ_ne_zero _
    simp only [realloc, if_neg some, if_true] at ran
    obtain ⟨-, rfl⟩ := Prod.mk.inj (Option.some.inj ran)
    exact (free_accounted accounted).imp fun extents' held => ⟨held.1, held.2 pairs⟩
  | free member =>
    obtain ⟨front, e, back, rfl, -, rfl, -⟩ := live_block accounted member
    exact (free_accounted accounted).imp fun extents' held => ⟨held.1, held.2 pairs⟩
  | store member inside => exact ⟨extents, store_accounted accounted member inside, pairs⟩

end

/-! ## What the account says about memory -/

/-- The blocks reached from `a` by the links. -/
inductive BlockList (m : Mem) : Nat → List Nat → Prop where
  | nil : BlockList m 0 []
  | cons (some : a ≠ 0) (rest : BlockList m (block m a).next blocks) : BlockList m a (a :: blocks)

/-- The extent that a header describes. -/
def extentAt (m : Mem) (a : Nat) : Extent := ⟨a, (block m a).size, (block m a).free ≠ 0⟩

/-- The size of the block behind a pointer. -/
def payloadSize (m : Mem) (p : Nat) : Nat := (block m (p - sizeofUserBlock)).size

structure Consistent (lo : Nat) (w : UserWorld) (blocks : List Nat) : Prop where
  listed : BlockList w.heap.mem w.heap.heapHead blocks
  tiled : Tiles sizeofUserBlock lo w.heap.brk (blocks.map (extentAt w.heap.mem))
  next : ∀ a ∈ blocks, (block w.heap.mem a).next ≠ 0 → (block w.heap.mem (block w.heap.mem a).next).prev = a
  prev : ∀ a ∈ blocks, (block w.heap.mem a).prev ≠ 0 → (block w.heap.mem (block w.heap.mem a).prev).next = a
  merged : NoFreePairs (blocks.map (extentAt w.heap.mem))
  live : ∀ x ∈ w.live, ∃ a ∈ blocks, x.1 = a + sizeofUserBlock ∧ (block w.heap.mem a).free = 0 ∧
    x.2 ≤ payloadSize w.heap.mem x.1
  disjoint : w.live.Pairwise fun x y =>
    x.1 + payloadSize w.heap.mem x.1 ≤ y.1 ∨ y.1 + payloadSize w.heap.mem y.1 ≤ x.1

/-- The call returned `NULL`, and not because it was asked to free. -/
def ReturnsNull : UserEvent → Prop
  | .malloc _ p => p = 0
  | .calloc _ _ p => p = 0
  | .realloc _ n p => n ≠ 0 ∧ p = 0
  | _ => False

/-- No block and no payload byte has changed. -/
structure Unchanged (w w' : UserWorld) : Prop where
  live : w'.live = w.live
  mem : w'.heap.mem = w.heap.mem
  head : w'.heap.heapHead = w.heap.heapHead
  brk : w'.heap.brk = w.heap.brk

/-- Every call comes back. -/
structure Returns (w : UserWorld) : Prop where
  malloc : ∀ n granted, ∃ fuel result, malloc fuel w.heap n granted = some result
  calloc : ∀ count size granted, ∃ fuel result, calloc fuel w.heap count size granted = some result
  realloc : ∀ x ∈ w.live, ∀ n granted, ∃ fuel result, realloc fuel w.heap x.1 n granted = some result

section
variable {lo : Nat} {m : Mem} {w w' : UserWorld} {e : Extent} {extents : List Extent}

theorem blockList_recorded (recorded : Recorded record (block m) before 0 extents)
    (positive : ∀ e ∈ extents, 0 < e.addr) : BlockList m (headAddr 0 extents) (extents.map Extent.addr) := by
  induction extents generalizing before with
  | nil => exact BlockList.nil
  | cons e rest ih =>
    refine BlockList.cons (Nat.ne_of_gt (positive e List.mem_cons_self)) ?_
    have start : headAddr 0 (e :: rest) = e.addr := rfl
    rw [start, recorded.1]
    exact ih recorded.2 fun f member => positive f (List.mem_cons_of_mem _ member)

theorem extentAt_recorded (at' : block m e.addr = record e next prev) : extentAt m e.addr = e := by
  unfold extentAt
  rw [at']
  obtain ⟨a, size, free⟩ := e
  cases free <;> rfl

theorem accounted_consistent (accounted : Accounted lo w extents) (pairs : NoFreePairs extents) :
    Consistent lo w (extents.map Extent.addr) := by
  have layout := accounted.heap.layout
  have described : (extents.map Extent.addr).map (extentAt w.heap.mem) = extents := by
    rw [List.map_map]
    refine (List.map_congr_left fun e member => ?_).trans (List.map_id extents)
    obtain ⟨front, back, rfl⟩ := List.append_of_mem member
    exact extentAt_recorded (layout_at layout)
  have owner : ∀ x ∈ w.live, ∃ e ∈ extents, Owns e x ∧ payloadSize w.heap.mem x.1 = e.size := by
    intro x member
    obtain ⟨e, listed, owns⟩ := accounted.owned x member
    refine ⟨e, listed, owns, ?_⟩
    obtain ⟨front, back, rfl⟩ := List.append_of_mem listed
    have at' : x.1 - sizeofUserBlock = e.addr := by
      rw [owns.2.1]
      exact Nat.add_sub_cancel e.addr 20
    rw [payloadSize, at', layout_at layout]
    rfl
  refine ⟨?_, ?_, ?_, ?_, ?_, ?_, ?_⟩
  · rw [accounted.heap.head]
    exact blockList_recorded layout.recorded fun e member => (layout_bounds layout member).1
  · rw [described]
    exact accounted.tiles
  · intro a member some
    obtain ⟨e, listed, rfl⟩ := List.mem_map.mp member
    obtain ⟨front, back, rfl⟩ := List.append_of_mem listed
    rw [layout_at layout] at some ⊢
    cases back with
    | nil => exact absurd rfl some
    | cons f rest =>
      have assoc : Layout w.heap.mem lo w.heap.brk ((front ++ [e]) ++ f :: rest) := by simpa using layout
      have next : (record e (headAddr 0 (f :: rest)) (lastAddr 0 front)).next = f.addr := rfl
      rw [next, layout_at assoc, lastAddr_append]
      rfl
  · intro a member some
    obtain ⟨e, listed, rfl⟩ := List.mem_map.mp member
    obtain ⟨front, back, rfl⟩ := List.append_of_mem listed
    rw [layout_at layout] at some ⊢
    rcases List.eq_nil_or_concat' front with rfl | ⟨rest, f, rfl⟩
    · exact absurd rfl some
    · have assoc : Layout w.heap.mem lo w.heap.brk (rest ++ f :: e :: back) := by simpa using layout
      have prev : (record e (headAddr 0 back) (lastAddr 0 (rest ++ [f]))).prev = f.addr := by
        rw [lastAddr_append]
        rfl
      rw [prev, layout_at assoc]
      rfl
  · rw [described]
    exact pairs
  · intro x member
    obtain ⟨e, listed, ⟨used, pointer, fits⟩, size⟩ := owner x member
    refine ⟨e.addr, List.mem_map_of_mem listed, pointer, ?_, by rw [size]; exact fits⟩
    obtain ⟨front, back, rfl⟩ := List.append_of_mem listed
    rw [layout_at layout]
    simp [record, used]
  · refine accounted.distinct.imp_of_mem ?_
    intro x y left right different
    obtain ⟨e, listedX, ⟨-, atX, -⟩, sizeX⟩ := owner x left
    obtain ⟨f, listedY, ⟨-, atY, -⟩, sizeY⟩ := owner y right
    have apart := tiles_apart_of_ne accounted.tiles listedX listedY (by rintro rfl; omega)
    omega

theorem accounted_returns (accounted : Accounted lo w extents) : Returns w := by
  have enough : extents.length < extents.length + 1 := Nat.lt_succ_self _
  refine ⟨fun n granted => ?_, fun count size granted => ?_, fun x _ n granted => ?_⟩
  · obtain ⟨p, t, ran⟩ := malloc_total accounted.heap enough n granted
    exact ⟨_, _, ran⟩
  · obtain ⟨p, t, ran⟩ := calloc_total accounted.heap enough count size granted
    exact ⟨_, _, ran⟩
  · obtain ⟨p, t, ran⟩ := realloc_total accounted.heap enough x.1 n granted
    exact ⟨_, _, ran⟩

theorem null_unchanged (accounted : Accounted lo w extents) (step : UserStep w event w') (null : ReturnsNull event) :
    Unchanged w w' := by
  have unchanged : ∀ {t p}, Refused w.heap t p → Unchanged w ⟨t, w.live⟩ := fun refused =>
    ⟨rfl, refused.mem, refused.head, refused.brk⟩
  cases step with
  | malloc small ran =>
    rcases malloc_serves accounted.heap small ran with refused | ⟨_, _, -, -, serves⟩
    · rw [handed, if_pos refused.null]
      exact unchanged refused
    · exact absurd null (serves_nonnull serves)
  | calloc small ran =>
    rcases calloc_serves accounted.heap small ran with refused | ⟨_, _, -, -, serves⟩
    · rw [handed, if_pos refused.null]
      exact unchanged refused
    · exact absurd null (serves_nonnull serves)
  | realloc member positive small ran =>
    obtain ⟨front, e, back, rfl, used, rfl, -⟩ := live_block accounted member
    rcases realloc_moves accounted.heap accounted.tiles used positive small ran with refused | moved
    · rw [if_pos refused.null]
      exact unchanged refused
    · obtain ⟨_, -, -, f, serves⟩ := moved.evolved
      exact absurd null.2 (serves_nonnull serves)
  | reallocZero member ran => exact absurd rfl null.1
  | free member => exact null.elim
  | store member inside => exact null.elim

/-! ## Calls on short lists -/

/-- With no free block a request for 4072 bytes takes a whole new page. -/
theorem malloc_page (fuel : Nat) (heap : HeapOf s lo extents) (used : ∀ e ∈ extents, e.free = false)
    (room : s.brk + 4096 < 0xB0000000) (enough : extents.length < fuel) :
    ∃ t, malloc fuel s 4072 true = some (s.brk + 20, t) ∧ t.brk = s.brk + 4096 ∧
      HeapOf t lo (extents ++ [⟨s.brk, 4076, false⟩]) := by
  have layout := heap.layout
  have order := spread_le layout.spread
  have positive := layout.positive
  have aligned : alignUp 4072 = 4072 := by decide
  have exhausted : searchFree s.mem 4072 fuel s.heapHead = some .exhausted := by
    rw [heap.head]
    obtain ⟨outcome, found⟩ := searchFree_total (n := 4072) layout.recorded
      (fun e member => (layout_bounds layout member).1) enough
    rcases searchFree_listed layout.recorded (fun e member => (layout_bounds layout member).1) found with
      ⟨rfl, -⟩ | ⟨front, e, back, shape, free, -⟩
    · exact found
    · rw [used e (by simp [shape])] at free
      contradiction
  have granted : sbrk s 4096 true = (s.brk, { s with brk := s.brk + 4096 }) := by
    have small : s.brk ≠ failed := by
      unfold failed
      omega
    simp [sbrk, sysSbrk, room, small]
  have nonnull : ¬ (s.brk = failed ∨ s.brk = 0) := by
    unfold failed
    omega
  have some : ¬ 4072 = 0 := by decide
  have total : (if add32 sizeofUserBlock 4072 < 4096 then 4096 else add32 sizeofUserBlock 4072) = 4096 := by decide
  obtain ⟨p, t, ran⟩ := malloc_total heap enough 4072 true
  simp only [malloc, if_neg some, aligned, exhausted, growHeap, total, granted, if_neg nonnull] at ran
  cases linked : linkLast fuel ⟨newBlock s.mem s.brk 4096, s.heapHead, s.errno, s.brk + 4096, s.heapStart⟩
    s.brk with
  | none => simp only [linked, reduceCtorEq] at ran
  | some u =>
    obtain ⟨grown, brk, -⟩ := linkLast_appends 4076 heap (by omega) linked
    have size : (block u.mem s.brk).size = 4076 := by
      have held : block u.mem s.brk = record ⟨s.brk, 4076, false⟩ 0 (lastAddr 0 extents) := layout_at grown.layout
      rw [held]
      rfl
    have whole : splitLeftover u.mem s.brk 4072 = u.mem := by
      have least : ¬ add32 (add32 4072 sizeofUserBlock) blockAlign ≤ 4076 := by decide
      rw [splitLeftover, size, if_neg least]
    refine ⟨u, ?_, brk, grown⟩
    simp only [malloc, if_neg some, aligned, exhausted, growHeap, total, granted, if_neg nonnull,
      linked, whole]
    rw [add32_of_lt (by unfold sizeofUserBlock; omega)]
    rfl

/-- With the other block in use a free only marks. -/
theorem free_marks (heap : HeapOf s lo [e, f]) (used : f.free = false) :
    HeapOf (UserHeap.free s (e.addr + 20)) lo [⟨e.addr, e.size, true⟩, f] := by
  have alone : HeapOf s lo ([] ++ e :: [f]) := heap
  obtain ⟨front', e', back', freed, joined, -⟩ := free_joins alone ⟨by simp, by simp [used]⟩
  rcases joined.left with ⟨rfl, at', -⟩ | ⟨g, shape, -⟩
  · rcases joined.right with ⟨rfl, ends, -⟩ | ⟨g, shape, free, -⟩
    · have same : e' = ⟨e.addr, e.size, true⟩ := by
        have size : e'.size = e.size := by omega
        rw [← at', ← size, ← joined.free]
      rw [← same]
      exact freed
    · obtain ⟨rfl, -⟩ := List.cons.inj shape
      rw [used] at free
      contradiction
  · simp at shape

theorem malloc_first_block (head : s.heapHead ≠ 0) (small : s.heapHead + 20 < 2 ^ 32)
    (at' : block s.mem s.heapHead = ⟨blockMagic, size, 1, next, prev⟩)
    (positive : n ≠ 0) (fits : alignUp n ≤ size) : ∃ t, malloc 1 s n true = some (s.heapHead + 20, t) := by
  have bit : ¬ 1 = 0 := by decide
  refine ⟨{ s with mem := setFree (splitLeftover s.mem s.heapHead (alignUp n)) s.heapHead 0 }, ?_⟩
  simp only [malloc, if_neg positive, searchFree, if_neg head, at', ne_eq, not_true_eq_false, if_false, bit,
    not_false_eq_true, fits, and_self, if_true]
  rw [add32_of_lt (by unfold sizeofUserBlock; omega)]
  rfl

/-- The first of two blocks is free and is handed out. -/
theorem malloc_marked (heap : HeapOf s lo [⟨a, size, true⟩, f]) (positive : n ≠ 0) (fits : alignUp n ≤ size) :
    ∃ t, malloc 1 s n true = some (a + 20, t) := by
  have layout : Layout s.mem lo s.brk ([] ++ ⟨a, size, true⟩ :: [f]) := heap.layout
  have bounds := layout_bounds layout (e := ⟨a, size, true⟩) (by simp)
  have bounded := layout.bounded
  dsimp only at bounds
  have head : s.heapHead = a := heap.head
  have at' : block s.mem s.heapHead = ⟨blockMagic, size, 1, f.addr, 0⟩ := by
    rw [head]
    exact layout_at layout
  have ran := malloc_first_block (by omega) (by omega) at' positive fits
  rwa [head] at ran

/-! ## Runs -/

/-- In every state that the calls lead to the heap is consistent, every call
comes back, and one that returns `NULL` has changed nothing. -/
theorem user_heap_consistent (m : Mem) (errno lo : Nat) (positive : 0 < lo) (bounded : lo < 2 ^ 32)
    (run : Run AnyEvent UserStep (started m errno lo) w) :
    (∃ blocks, Consistent lo w blocks) ∧ Returns w ∧
      ∀ event w', UserStep w event w' → ReturnsNull event → Unchanged w w' := by
  have accounted : ∃ extents, Accounted lo w extents ∧ NoFreePairs extents := by
    refine run_invariant (fun w => ∃ extents, Accounted lo w extents ∧ NoFreePairs extents) run
      ⟨_, started_accounted m errno positive bounded, List.IsChain.nil⟩ ?_
    rintro t event u ⟨extents, accounted, pairs⟩ - step
    exact step_accounted accounted pairs step
  obtain ⟨extents, accounted, pairs⟩ := accounted
  exact ⟨⟨_, accounted_consistent accounted pairs⟩, accounted_returns accounted,
    fun event w' step null => null_unchanged accounted step null⟩

/-- Two blocks, of which the first is freed and handed out again. -/
theorem user_heap_consistent_reused : ∃ w, Run AnyEvent UserStep (started (fun _ => 0) 0 0x10000000) w ∧
    w.live = [(0x10000014, 100), (0x10001014, 4072)] ∧ (∃ blocks, Consistent 0x10000000 w blocks) ∧
    Returns w := by
  have small : 4072 ≤ maxRequest := by decide
  have run0 : Run AnyEvent UserStep (started (fun _ => 0) 0 0x10000000) _ := Relation.ReflTransGen.refl
  have empty : Accounted 0x10000000 (started (fun _ => 0) 0 0x10000000) [] :=
    started_accounted _ 0 (by decide) (by decide)
  obtain ⟨s1, ran1, brk1, heap1⟩ := malloc_page 1 empty.heap (by simp) (by decide) (by decide)
  have run1 := run_then run0 trivial (UserStep.malloc small ran1)
  have brk1 : s1.brk = 0x10001000 := brk1
  obtain ⟨s2, ran2, -, heap2⟩ := malloc_page 2 heap1 (by simp [started]) (by rw [brk1]; decide) (by decide)
  have run2 := run_then run1 trivial (UserStep.malloc small ran2)
  rw [brk1] at heap2 run2
  have heap3 := free_marks heap2 rfl
  have listed : (0x10000014, 4072) ∈ handed (handed [] 0x10000014 4072) 0x10001014 4072 := by simp [handed]
  have run3 := run_then run2 trivial (UserStep.free listed)
  obtain ⟨s4, ran4⟩ := malloc_marked (n := 100) heap3 (by decide) (by decide)
  have run4 := run_then run3 trivial (UserStep.malloc (by decide) ran4)
  have consistent := user_heap_consistent _ _ _ (by decide) (by decide) run4
  exact ⟨_, run4, by simp [handed, dropped, started], consistent.1, consistent.2.1⟩

end

end MeowMeowOS.UserHeapRuns

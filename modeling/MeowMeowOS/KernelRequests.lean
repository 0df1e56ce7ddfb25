import MeowMeowOS.HeapSearch
import MeowMeowOS.RequestSizes

/-! Which requests the allocator of the kernel serves in full. Close to 2³² the
rounded size is 0, or the expansion has no page and the block it makes lies behind
the end of the heap. -/
namespace MeowMeowOS.KernelRequests
open ByteMemory Tiling DoublyLinked KernelHeap HeapLayout HeapOperations HeapSearch

/-- The list tiles the heap, the cursor is on it and the heap ends with a page. -/
structure Ready (s : HeapState) (extents : List Extent) : Prop where
  healthy : Healthy s extents
  cursor : CursorOn s extents
  pages : s.heapCurrentEnd % pageSize = 0

/-- The pointer is `NULL` or that of a block which records at least `n` bytes and
lies in the heap. -/
def Sized (t : HeapState) (p n : Nat) : Prop :=
  p = 0 ∨ (t.heapStart + 20 ≤ p ∧ n ≤ (block t.mem (p - 20)).size ∧
    p + (block t.mem (p - 20)).size ≤ t.heapCurrentEnd)

/-- The call returns, with such a pointer. -/
def Returns (s : HeapState) (n : Nat) : Prop := ∃ fuel p t, memAlloc fuel s n = some (p, t) ∧ Sized t p n

/-- The largest request that can be rounded up. -/
def largestFormed : Nat := 0xFFFFFFFC

/-- The requests to `mem_alloc` that it serves in full. -/
def AllocHolds (s : HeapState) (extents : List Extent) (n : Nat) : Prop :=
  (n ≤ largestFormed ∧ ∃ e ∈ extents, e.free = true ∧ formedSize n ≤ e.size) ∨ Expandable s n

section
variable {s t u : HeapState} {m : Mem} {extents front : List Extent} {e : Extent} {n p fuel : Nat}

/-! ## Requests that are served -/

theorem takeBlock_size (s : HeapState) (c formed : Nat) (small : formed < 2 ^ 32) :
    (block (takeBlock s c formed).mem c).size =
      if add32 formed (sizeofHeapBlock + 4) < (block s.mem c).size then formed else (block s.mem c).size := by
  unfold takeBlock
  dsimp only
  rw [block_setIsFree]
  split
  · unfold splitBlock
    rw [block_setNext, block_setSize]
    exact Nat.mod_eq_of_lt small
  · rfl

theorem formed_rounds (word : n < 2 ^ 32) :
    (n ≤ largestFormed ∧ n ≤ formedSize n) ∨ (largestFormed < n ∧ formedSize n = 0) := by
  unfold largestFormed formedSize add32
  omega

/-- A free block of the list that fits is in the heap and records the request. -/
theorem sized_taken (healthy : Healthy s extents) (member : e ∈ extents) (fit : fits (formedSize n) e = true)
    (covers : n ≤ formedSize n) : Sized (takeBlock s e.addr (formedSize n)) (e.addr + 20) n := by
  obtain ⟨-, large⟩ := fits_iff.mp fit
  have bounds := tiles_bounds healthy.1.tiles e member
  have bounded := healthy.1.bounded
  have header : (block s.mem e.addr).size = e.size := (healthy.1.headers e member).2.1
  have recorded := takeBlock_size s e.addr (formedSize n) (by unfold sizeofHeapBlock at bounds; omega)
  rw [header] at recorded
  right
  rw [Nat.add_sub_cancel, recorded]
  unfold takeBlock sizeofHeapBlock at *
  dsimp only
  split
  all_goals omega

theorem returns_of_holds (ready : Ready s extents) (word : n < 2 ^ 32) (holds : AllocHolds s extents n) :
    Returns s n := by
  have rounds := formed_rounds word
  have enough : extents.length ≤ extents.length + 2 := by omega
  obtain ⟨-, ⟨e, member, fit, found⟩ | ⟨misses, missed⟩⟩ :=
    search_once ready.healthy ready.cursor (formedSize n) enough
  · obtain ⟨ran, -⟩ := memAlloc_found ready.healthy member found
    refine ⟨_, _, _, ran, sized_taken ready.healthy member fit ?_⟩
    rcases holds with ⟨rounded, -⟩ | ⟨small, -⟩
    · omega
    · exact (formedSize_bounds small).1
  · have expandable := holds.resolve_left fun ⟨_, e, member, fit⟩ =>
      absurd (fits_iff.mpr fit) (Bool.eq_false_iff.mp (misses e member))
    obtain ⟨u, after, e, -, healthy', -, member, fit, -, ran, -⟩ :=
      memAlloc_expands ready.healthy ready.cursor expandable (Nat.lt_succ_self _) missed
    exact ⟨_, _, _, ran, sized_taken healthy' member fit (formedSize_bounds expandable.1).1⟩

/-! ## Requests that are not -/

/-- Where the expansion has a page, a block that is returned is one of a list that
fits. -/
theorem memAlloc_origin (healthy : Healthy s extents) (on : CursorOn s extents)
    (room : 20 ≤ expansionSize (add32 n sizeofHeapBlock)) (ran : memAlloc fuel s n = some (p, t)) :
    ∃ u after e, Healthy u after ∧ e ∈ after ∧ formedSize n ≤ e.size ∧ p = e.addr + 20 ∧
    t.heapCurrentEnd =
    u.heapCurrentEnd := by
  induction fuel generalizing s extents with
  | zero => cases ran
  | succ fuel ih =>
    rw [memAlloc] at ran
    split at ran
    · cases ran
    · rename_i found
      obtain ⟨e, member, rfl, -, large⟩ := findBlock_found healthy (Or.inr on) found
      obtain ⟨rfl, rfl⟩ := Prod.mk.inj (Option.some.inj ran)
      have bounds := tiles_bounds healthy.1.tiles e member
      have bounded := healthy.1.bounded
      refine ⟨s, extents, e, healthy, member, large, ?_, rfl⟩
      exact add32_of_lt (by unfold sizeofHeapBlock at *; omega)
    · split at ran
      · cases ran
      · rename_i expanded
        obtain ⟨after, healthy', -, cursor, addrs, -⟩ := heapExpand_healthy healthy room expanded
        exact ih healthy' (cursorOn_kept on cursor addrs) ran

/-- An expansion by no page goes into a free last block, or links a header behind
the end of the heap. -/
theorem heapExpand_empty {additional : Nat} (healthy : Healthy s (front ++ [e])) (none : expansionSize additional = 0)
    (ran : heapExpand fuel s additional = some u) :
    u.heapStart = s.heapStart ∧ u.heapCurrentEnd = s.heapCurrentEnd ∧ u.lastAlloc = s.lastAlloc ∧
      (Healthy u (front ++ [e]) ∨ ((∀ g ∈ front, block u.mem g.addr = block s.mem g.addr) ∧
        block u.mem e.addr = { block s.mem e.addr with next := s.heapCurrentEnd } ∧
        block u.mem s.heapCurrentEnd = ⟨heapMagic, 2 ^ 32 - 20, true, 0, e.addr⟩)) := by
  obtain ⟨m, rfl, -, old, atLast, atNew⟩ := heapExpand_links healthy ran
  have layout := healthy.1
  have nonnull := addr_pos layout (e := e) (by simp)
  have last : (block s.mem e.addr).next = 0 := (layout_split_links layout).1
  obtain ⟨-, size, free⟩ := layout_header layout
  rw [none] at atNew ⊢
  change block m s.heapCurrentEnd = ⟨heapMagic, 2 ^ 32 - 20, true, 0, e.addr⟩ at atNew
  refine ⟨rfl, rfl, rfl, ?_⟩
  unfold Healthy
  dsimp only
  cases tail : e.free with
  | false =>
    right
    have unmerged : mergeExpansion m s.heapCurrentEnd = m := by
      unfold mergeExpansion
      rw [atNew]
      dsimp only
      rw [atLast, if_neg (fun merges => by simp [free, tail] at merges)]
    rw [unmerged]
    exact ⟨old, atLast, atNew⟩
  | true =>
    left
    have merged : mergeExpansion m s.heapCurrentEnd =
        setNext (setSize m e.addr (block s.mem e.addr).size) e.addr 0 := by
      have whole : add32 (block s.mem e.addr).size (add32 sizeofHeapBlock (2 ^ 32 - 20)) =
          (block s.mem e.addr).size := by
        have word : (block s.mem e.addr).size < 2 ^ 32 := readWord_lt _ _
        unfold add32 sizeofHeapBlock
        omega
      unfold mergeExpansion
      rw [atNew]
      dsimp only
      rw [atLast, if_pos ⟨nonnull, by simp [free, tail]⟩]
      dsimp only
      rw [whole]
    rw [merged]
    refine ⟨layout_congr layout fun g member => ?_, healthy.2⟩
    rcases List.mem_append.mp member with member | member
    · have before := tiles_before layout.tiles g member
      have apart : Apart e.addr g.addr := Or.inr (Nat.le_trans (Nat.le_add_right _ _) before)
      rw [← old g member]
      simp (disch := omega) only [block_store_apart]
    · obtain rfl := List.mem_singleton.mp member
      have word : (block s.mem g.addr).size % 2 ^ 32 = (block s.mem g.addr).size := Nat.mod_eq_of_lt (readWord_lt _ _)
      rw [block_setNext, block_setSize, atLast, word, show (0 : Nat) % 2 ^ 32 =
        (block s.mem g.addr).next from last.symm]

/-- Where no block of the list fits, the search comes to the header behind the
end of the heap. -/
theorem search_ghost (layout : Layout s.mem s.heapStart s.heapCurrentEnd (front ++ [e])) {formed : Nat}
    (misses : ∀ g ∈ front ++ [e], fits formed g = false)
    (old : ∀ g ∈ front, block u.mem g.addr = block s.mem g.addr)
    (atLast : block u.mem e.addr = { block s.mem e.addr with next := s.heapCurrentEnd })
    (ghost : block u.mem s.heapCurrentEnd = ⟨heapMagic, 2 ^ 32 - 20, true, 0, e.addr⟩)
    (large : formed ≤ 2 ^ 32 - 20)
    {current : Nat} (on : current = s.heapCurrentEnd ∨ ∃ g ∈ front ++ [e], g.addr = current) {b : Option Nat}
    (found : findBlock u formed fuel current false = some b) : b = some s.heapCurrentEnd := by
  have behind := tiles_bounds layout.tiles e (by simp)
  have positive := layout.positive
  induction fuel generalizing current with
  | zero => cases found
  | succ fuel ih =>
    rw [findBlock] at found
    rcases on with rfl | ⟨g, member, rfl⟩
    · rw [if_neg (by omega), ghost, if_pos ⟨rfl, large⟩] at found
      exact (Option.some.inj found).symm
    · have nonnull := addr_pos layout member
      obtain ⟨size, free⟩ : (block u.mem g.addr).size = g.size ∧ (block u.mem g.addr).isFree = g.free := by
        obtain ⟨-, size, free⟩ := layout.headers g member
        rcases List.mem_append.mp member with inner | last
        · rw [old g inner]
          exact ⟨size, free⟩
        · obtain rfl := List.mem_singleton.mp last
          rw [atLast]
          exact ⟨size, free⟩
      have missed : ¬ (g.free = true ∧ formed ≤ g.size) := fun fit =>
        absurd (fits_iff.mpr fit) (Bool.eq_false_iff.mp (misses g member))
      obtain ⟨goes, onward⟩ : (block u.mem g.addr).next ≠ 0 ∧ ((block u.mem g.addr).next = s.heapCurrentEnd ∨
          ∃ f ∈ front ++ [e], f.addr = (block u.mem g.addr).next) := by
        rcases List.mem_append.mp member with inner | last
        · obtain ⟨before, after, rfl⟩ := List.append_of_mem inner
          have split : Layout s.mem s.heapStart s.heapCurrentEnd (before ++ g :: (after ++ [e])) :=
            by simpa using layout
          obtain ⟨f, rest, shape⟩ : ∃ f rest, after ++ [e] = f :: rest := List.exists_cons_of_ne_nil (by simp)
          have next := (layout_split_links split).1
          rw [shape] at next
          have listed : f ∈ before ++ g :: after ++ [e] := by
            have : f ∈ after ++ [e] := by simp [shape]
            simp only [List.append_assoc, List.cons_append, List.mem_append, List.mem_cons] at this ⊢
            exact Or.inr (Or.inr this)
          rw [old g inner, next]
          exact ⟨addr_pos layout listed, Or.inr ⟨f, listed, rfl⟩⟩
        · obtain rfl := List.mem_singleton.mp last
          rw [atLast]
          exact ⟨by dsimp only; omega, Or.inl rfl⟩
      rw [if_neg nonnull, size, free, if_neg missed] at found
      simp only [goes, false_and, if_false, Bool.false_eq_true] at found
      exact ih onward found

/-- Where the expansion has no page, a block that is returned lies behind the heap. -/
theorem memAlloc_empty (ready : Ready s extents) (none : expansionSize (add32 n sizeofHeapBlock) = 0)
    (large : formedSize n ≤ 2 ^ 32 - 20) (misses : ∀ e ∈ extents, fits (formedSize n) e = false)
    (ran : memAlloc fuel s n = some (p, t)) : p = s.heapCurrentEnd + 20 ∧ t.heapCurrentEnd = s.heapCurrentEnd := by
  induction fuel generalizing s with
  | zero => cases ran
  | succ fuel ih =>
    obtain ⟨healthy, on, pages⟩ := ready
    rw [memAlloc] at ran
    split at ran
    · cases ran
    · rename_i found
      obtain ⟨e, member, -, fit⟩ := findBlock_found healthy (Or.inr on) found
      exact absurd (fits_iff.mpr fit) (Bool.eq_false_iff.mp (misses e member))
    · split at ran
      · cases ran
      · rename_i u expanded
        obtain ⟨front, e, rfl⟩ : ∃ front e, extents = front ++ [e] :=
          ⟨extents.dropLast, extents.getLast healthy.2, (List.dropLast_append_getLast healthy.2).symm⟩
        obtain ⟨start, stop, cursor, healthy' | ⟨old, atLast, ghost⟩⟩ := heapExpand_empty healthy none expanded
        · rw [← stop]
          exact ih ⟨healthy', cursorOn_kept on cursor fun e member =>
            ⟨e, member, rfl⟩, by rw [stop]; exact pages⟩ ran
        · cases fuel with
          | zero => cases ran
          | succ fuel =>
            have bounded := healthy.1.bounded
            have pointer : add32 s.heapCurrentEnd sizeofHeapBlock = s.heapCurrentEnd + 20 :=
              add32_of_lt (by unfold sizeofHeapBlock pageSize at *; omega)
            rw [memAlloc] at ran
            split at ran
            · cases ran
            · rename_i found
              rw [cursor] at found
              obtain rfl := Option.some.inj (search_ghost healthy.1 misses old atLast ghost large (Or.inr on) found)
              obtain ⟨rfl, rfl⟩ := Prod.mk.inj (Option.some.inj ran)
              exact ⟨pointer, stop⟩
            · rename_i found
              rw [cursor] at found
              cases search_ghost healthy.1 misses old atLast ghost large (Or.inr on) found

/-- What the expansion is for the requests that it is too large for. -/
theorem expansion_cases (word : n < 2 ^ 32) (large : maxRequest < n) :
    (20 ≤ expansionSize (add32 n sizeofHeapBlock) ∧ (largestFormed < n ∨ 2 ^ 32 - 20 < formedSize n)) ∨
      (expansionSize (add32 n sizeofHeapBlock) = 0 ∧ n ≤ largestFormed ∧ formedSize n ≤ 2 ^ 32 - 20) := by
  unfold maxRequest sizeofHeapBlock pageSize at large
  unfold largestFormed expansionSize formedSize add32 sizeofHeapBlock pageSize
  omega

/-- An expansion that would pass the top of the address space does not return. -/
theorem memAlloc_refused (fuel : Nat) (healthy : Healthy s extents)
    (misses : ∀ e ∈ extents, fits (formedSize n) e = false)
    (on : CursorOn s extents) (narrow : 2 ^ 32 ≤ s.heapCurrentEnd + expansionSize (add32 n sizeofHeapBlock)) :
    memAlloc fuel s n = none := by
  cases fuel with
  | zero => rfl
  | succ fuel =>
    rw [memAlloc]
    split
    · rfl
    · rename_i found
      obtain ⟨e, member, -, fit⟩ := findBlock_found healthy (Or.inr on) found
      exact absurd (fits_iff.mpr fit) (Bool.eq_false_iff.mp (misses e member))
    · have refused : heapExpand fuel s (add32 n sizeofHeapBlock) = none := by
        unfold heapExpand
        exact if_pos narrow
      rw [refused]

theorem holds_of_returns (ready : Ready s extents) (word : n < 2 ^ 32) (returns : Returns s n) :
    AllocHolds s extents n := by
  obtain ⟨fuel, p, t, ran, sized⟩ := returns
  apply Classical.byContradiction
  intro fails
  obtain ⟨unfit, narrow⟩ := not_or.mp fails
  by_cases small : n ≤ maxRequest
  · have misses : ∀ e ∈ extents, fits (formedSize n) e = false := fun e member => Bool.eq_false_iff.mpr fun fit =>
      unfit ⟨Nat.le_trans small (by decide), e, member, fits_iff.mp fit⟩
    have refused := memAlloc_refused fuel ready.healthy misses ready.cursor (Nat.le_of_not_lt fun room =>
      narrow ⟨small, room⟩)
    rw [refused] at ran
    cases ran
  · rcases expansion_cases word (Nat.lt_of_not_le small) with ⟨room, wrapped⟩ | ⟨none, formable, large⟩
    · obtain ⟨u, after, e, healthy, member, large, rfl, same⟩ :=
        memAlloc_origin ready.healthy ready.cursor room ran
      have bounds := tiles_bounds healthy.1.tiles e member
      have bounded := healthy.1.bounded
      rcases sized with null | ⟨-, covers, inside⟩
      · cases null
      · unfold sizeofHeapBlock at bounds
        rcases wrapped with top | high
        · unfold largestFormed at top
          omega
        · omega
    · have misses : ∀ e ∈ extents, fits (formedSize n) e = false :=
        fun e member => Bool.eq_false_iff.mpr fun fit =>
        unfit ⟨formable, e, member, fits_iff.mp fit⟩
      obtain ⟨rfl, same⟩ := memAlloc_empty ready none large misses ran
      rcases sized with null | ⟨-, -, inside⟩
      · cases null
      · omega

theorem alloc_returns_iff (ready : Ready s extents) (word : n < 2 ^ 32) : Returns s n ↔ AllocHolds s extents n :=
  ⟨holds_of_returns ready word, returns_of_holds ready word⟩

end

/-! ## Both allocators -/

section
open UserHeap
open UserHeapOperations (newBlock_block malloc_total)
open RequestSizes (MallocHolds ReallocHolds malloc_returns_iff calloc_returns_iff realloc_returns_iff)

/-- Each of the four calls returns `NULL` or a block that covers the request exactly
when the rounded sizes have not wrapped on the path that the call takes. -/
theorem requests_served_iff {lo n fuel : Nat} {s : UserState} {k : HeapState} {extents blocks : List Extent}
    (user : RequestSizes.Ready lo s extents) (kernel : Ready k blocks) (word : n < 2 ^ 32) (positive : n ≠ 0)
    (enough : extents.length < fuel) (granted : Bool) :
    (RequestSizes.Returns lo s n (malloc fuel s n granted) ↔ MallocHolds s extents n granted) ∧
      (∀ count size, count * size = n →
        (RequestSizes.Returns lo s n (calloc fuel s count size granted) ↔ MallocHolds s extents n granted)) ∧
      (∀ front e back, extents = front ++ e :: back → e.free = false →
        (RequestSizes.Returns lo s n (realloc fuel s (e.addr + 20) n granted) ↔
        ReallocHolds s extents e back n granted)) ∧
      (Returns k n ↔ AllocHolds k blocks n) := by
  refine ⟨malloc_returns_iff user word positive enough granted, ?_, ?_, alloc_returns_iff kernel word⟩
  · rintro count size rfl
    exact calloc_returns_iff user word positive enough granted
  · rintro front e back rfl used
    exact realloc_returns_iff user used word positive enough granted

/-- The heap of a program with one block, which is in use. -/
def oneBlock : UserState := ⟨newBlock (fun _ => 0) 0x10000000 4096, 0x10000000, 0, 0x10001000, 0x10000000⟩

theorem oneBlock_ready : RequestSizes.Ready 0x10000000 oneBlock ([] ++ ⟨0x10000000, 4076, false⟩ :: []) where
  heap := ⟨⟨BlockLists.spread_of_tiles ⟨rfl, rfl⟩, ⟨newBlock_block _ _ 4076 (by decide), trivial⟩,
    by decide, by decide⟩, rfl⟩
  tiles := ⟨rfl, rfl⟩
  start := by decide
  limit := by decide

theorem initial_ready :
    Ready (heapInitialize (fun _ => 0) 0x600000 0x100000) [⟨0x600000, 0x100000 - 20, true⟩] := by
  obtain ⟨healthy, on⟩ := heapInitialize_healthy (fun _ => 0) 0x600000 0x100000 (by decide) (by decide) (by decide)
  exact ⟨healthy, on, rfl⟩

/-- A request of a hundred bytes is served by all four. -/
theorem hundred_served :
    RequestSizes.Returns 0x10000000 oneBlock 100 (malloc 2 oneBlock 100 true) ∧
      RequestSizes.Returns 0x10000000 oneBlock 100 (calloc 2 oneBlock 25 4 true) ∧
      RequestSizes.Returns 0x10000000 oneBlock 100 (realloc 2 oneBlock 0x10000014 100 true) ∧
      Returns (heapInitialize (fun _ => 0) 0x600000 0x100000) 100 := by
  obtain ⟨byMalloc, byCalloc, byRealloc, byKernel⟩ := requests_served_iff oneBlock_ready initial_ready
    (show 100 < 2 ^ 32 by decide) (by decide) (show _ < 2 by decide) true
  have small : 100 ≤ RequestSizes.largestPositive := by decide
  refine ⟨byMalloc.mpr (Or.inl small), (byCalloc 25 4 rfl).mpr (Or.inl small), (byRealloc [] _ [] rfl rfl).mpr ?_,
    ?_⟩
  · exact (if_pos (by decide)).mpr (by decide)
  · exact byKernel.mpr (Or.inl ⟨by decide, _, List.mem_singleton_self _, rfl, by decide⟩)

/-- `malloc(0xFFFFFFFF)`: the size is rounded to 0 and a page is asked for. -/
theorem last_request_short : ∃ p t, malloc 2 oneBlock 0xFFFFFFFF true = some (p, t) ∧
    ¬ RequestSizes.Sized 0x10000000 oneBlock t p 0xFFFFFFFF := by
  obtain ⟨p, t, ran⟩ := malloc_total oneBlock_ready.heap (show _ < 2 by decide) 0xFFFFFFFF true
  refine ⟨p, t, ran, fun sized => ?_⟩
  have holds := (malloc_returns_iff oneBlock_ready (show 0xFFFFFFFF <
    2 ^ 32 by decide) (by decide) (show _ < 2 by decide)
    true).mp (by rw [ran]; exact sized)
  rcases holds with small | ⟨small, -⟩ | ⟨-, refuses⟩
  · exact absurd small (by decide)
  · exact absurd small (by decide)
  · unfold RequestSizes.Refuses at refuses
    revert refuses
    decide

end

end MeowMeowOS.KernelRequests

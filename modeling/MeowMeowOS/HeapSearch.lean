import MeowMeowOS.HeapSafety

/-! The search of `mem_alloc` goes once around the list, from the cursor to the
last block and from the first block to the cursor. Without a block that fits, one
expansion makes one. -/
namespace MeowMeowOS.HeapSearch
open ByteMemory Tiling DoublyLinked KernelHeap HeapLayout HeapOperations

/-- The blocks whose headers the loop tests, in order. -/
def visited (s : HeapState) (formed : Nat) : Nat → Nat → Bool → List Nat
  | 0, _, _ => []
  | fuel + 1, current, wrapped =>
    if current = 0 then []
    else if (block s.mem current).isFree = true ∧ formed ≤ (block s.mem current).size then [current]
    else
      let next := (block s.mem current).next
      let wraps := next = 0 ∧ wrapped = false
      let after := if wraps then s.heapStart else next
      let wrapped := if wraps then true else wrapped
      current :: (if wrapped = true ∧ after = s.lastAlloc then [] else visited s formed fuel after wrapped)

/-- How often a call expands the heap. -/
def expansions : Nat → HeapState → Nat → Nat
  | 0, _, _ => 0
  | fuel + 1, s, size =>
    match findBlock s (formedSize size) fuel s.lastAlloc false with
    | none => 0
    | some (some _) => 0
    | some none =>
      match heapExpand fuel s (add32 size sizeofHeapBlock) with
      | none => 1
      | some s => 1 + expansions fuel s size

/-- The block is free and holds the request. -/
def fits (formed : Nat) (e : Extent) : Bool := e.free && decide (formed ≤ e.size)

section
variable {s t : HeapState} {m : Mem} {front back pre rest extents : List Extent} {c e g : Extent}
    {formed fuel n start stop : Nat}

theorem fits_iff : fits formed e = true ↔ e.free = true ∧ formed ≤ e.size := by
  rw [fits, Bool.and_eq_true, decide_eq_true_iff]

/-! ## Once around -/

theorem fits_header (layout : Layout m start stop (front ++ e :: back)) :
    ((block m e.addr).isFree = true ∧ formed ≤ (block m e.addr).size) ↔ fits formed e = true := by
  obtain ⟨-, size, free⟩ := layout_header layout
  rw [size, free, fits_iff]

theorem search_found (layout : Layout s.mem start stop (front ++ e :: back)) (fit : fits formed e = true) (fuel : Nat)
    (wrapped : Bool) :
    findBlock s formed (fuel + 1) e.addr wrapped = some (some e.addr) ∧
    visited s formed (fuel + 1) e.addr wrapped = [e.addr] := by
  have nonnull := addr_pos layout (e := e) (by simp)
  have found := (fits_header layout).mpr fit
  rw [findBlock, visited, if_neg nonnull, if_neg nonnull, if_pos found, if_pos found]
  exact ⟨rfl, rfl⟩

/-- The loop goes on to the successor, or to the first block. -/
theorem search_missed (layout : Layout s.mem start stop (front ++ e :: back))
    (missed : ¬ fits formed e = true) (fuel : Nat)
    (wrapped later : Bool) (after : Nat)
    (goes : (headAddr back = 0 ∧ wrapped = false ∧ after = s.heapStart ∧ later = true) ∨
      (¬ (headAddr back = 0 ∧ wrapped = false) ∧ after = headAddr back ∧ later = wrapped)) :
    findBlock s formed (fuel + 1) e.addr wrapped =
      (if later = true ∧ after = s.lastAlloc then some none else findBlock s formed fuel after later) ∧
    visited s formed (fuel + 1) e.addr wrapped =
      e.addr :: (if later = true ∧ after = s.lastAlloc then [] else visited s formed fuel after later) := by
  have nonnull := addr_pos layout (e := e) (by simp)
  have tooSmall := fun found => missed ((fits_header layout).mp found)
  rw [findBlock, visited, if_neg nonnull, if_neg nonnull, if_neg tooSmall, if_neg tooSmall,
    (layout_split_links layout).1]
  dsimp only
  rcases goes with ⟨last, fresh, rfl, rfl⟩ | ⟨inside, rfl, rfl⟩
  · have wraps : headAddr back = 0 ∧ wrapped = false := ⟨last, fresh⟩
    simp only [if_pos wraps, and_self]
  · simp only [if_neg inside, and_self]

/-- From a block before the cursor, up to the cursor. -/
theorem search_wrapped (layout : Layout s.mem s.heapStart s.heapCurrentEnd (pre ++ g :: (rest ++ c :: back)))
    (cursor : c.addr = s.lastAlloc) (formed : Nat) {fuel : Nat} (enough : rest.length < fuel) :
    findBlock s formed fuel g.addr true = some (((g :: rest).find? (fits formed)).map Extent.addr) ∧
      visited s formed fuel g.addr true <+: (g :: rest).map Extent.addr := by
  induction rest generalizing g pre fuel with
  | nil =>
    obtain ⟨fuel, rfl⟩ := Nat.exists_eq_succ_of_ne_zero (Nat.ne_of_gt enough)
    by_cases fit : fits formed g = true
    · obtain ⟨found, visits⟩ := search_found layout fit fuel true
      rw [found, visits, List.find?_cons_of_pos fit]
      exact ⟨rfl, List.prefix_rfl⟩
    · obtain ⟨found, visits⟩ := search_missed layout fit fuel true true _ (.inr ⟨by simp, rfl, rfl⟩)
      rw [found, visits, if_pos ⟨rfl, cursor⟩, if_pos ⟨rfl, cursor⟩, List.find?_cons_of_neg fit]
      exact ⟨rfl, List.prefix_rfl⟩
  | cons h rest ih =>
    obtain ⟨fuel, rfl⟩ := Nat.exists_eq_succ_of_ne_zero (Nat.ne_of_gt (Nat.zero_lt_of_lt enough))
    rw [List.length_cons] at enough
    by_cases fit : fits formed g = true
    · obtain ⟨found, visits⟩ := search_found layout fit fuel true
      rw [found, visits, List.find?_cons_of_pos fit]
      exact ⟨rfl, List.prefix_append [g.addr] _⟩
    · have layoutH : Layout s.mem s.heapStart s.heapCurrentEnd ((pre ++ [g]) ++ h :: (rest ++ c :: back)) :=
        by simpa using layout
      have whole : Tiles sizeofHeapBlock s.heapStart s.heapCurrentEnd (((pre ++ [g]) ++ h :: rest) ++ c :: back) := by
        simpa using layoutH.tiles
      have before := tiles_before whole h (by simp)
      have short : ¬ (true = true ∧ h.addr = s.lastAlloc) := by
        rw [← cursor]
        unfold sizeofHeapBlock at before
        omega
      obtain ⟨found, visits⟩ := search_missed layout fit fuel true true _ (.inr ⟨by simp, rfl, rfl⟩)
      obtain ⟨later, visitsLater⟩ := ih layoutH (Nat.lt_of_succ_lt_succ enough)
      rw [found, visits, List.find?_cons_of_neg fit]
      change (if true = true ∧ h.addr = s.lastAlloc then _ else _) = _ ∧
          g.addr :: (if true = true ∧ h.addr = s.lastAlloc then _ else _) <+: _
      rw [if_neg short, if_neg short]
      exact ⟨later, (List.prefix_cons_inj _).mpr visitsLater⟩

/-- From the cursor or a block behind it, to the last block and around. -/
theorem search_fresh (layout : Layout s.mem s.heapStart s.heapCurrentEnd (front ++ pre ++ g :: rest))
    (cursor : ∃ back, pre ++ g :: rest = c :: back) (named : c.addr = s.lastAlloc) (formed : Nat)
    (enough : rest.length + front.length < fuel) :
    findBlock s formed fuel g.addr false = some (((g :: rest ++ front).find? (fits formed)).map Extent.addr) ∧
      visited s formed fuel g.addr false <+: (g :: rest ++ front).map Extent.addr := by
  induction rest generalizing g pre fuel with
  | nil =>
    obtain ⟨fuel, rfl⟩ := Nat.exists_eq_succ_of_ne_zero (Nat.ne_of_gt (Nat.zero_lt_of_lt enough))
    by_cases fit : fits formed g = true
    · obtain ⟨found, visits⟩ := search_found layout fit fuel false
      rw [found, visits, List.cons_append, List.find?_cons_of_pos fit]
      exact ⟨rfl, List.prefix_append [g.addr] _⟩
    · obtain ⟨found, visits⟩ := search_missed layout fit fuel false true _ (.inl ⟨rfl, rfl, rfl, rfl⟩)
      rw [found, visits, List.cons_append, List.find?_cons_of_neg fit]
      cases front with
      | nil =>
        have started : s.heapStart = s.lastAlloc := by
          obtain ⟨back, shape⟩ := cursor
          rw [List.nil_append, shape] at layout
          exact layout.tiles.1.symm.trans named
        rw [if_pos ⟨rfl, started⟩, if_pos ⟨rfl, started⟩]
        exact ⟨rfl, List.prefix_rfl⟩
      | cons first front =>
        obtain ⟨back, shape⟩ := cursor
        have whole : Layout s.mem s.heapStart s.heapCurrentEnd ([] ++ first :: (front ++ c :: back)) := by
          rw [← shape]
          simpa using layout
        have started : first.addr = s.heapStart := whole.tiles.1
        have tiles : Tiles sizeofHeapBlock s.heapStart s.heapCurrentEnd (first :: front ++ c :: back) := by
          simpa using whole.tiles
        have before := tiles_before tiles first List.mem_cons_self
        have short : ¬ (true = true ∧ s.heapStart = s.lastAlloc) := by
          rw [← named, ← started]
          unfold sizeofHeapBlock at before
          omega
        have more : front.length + 1 < fuel + 1 := by simpa using enough
        obtain ⟨later, visitsLater⟩ := search_wrapped whole named formed (Nat.lt_of_succ_lt_succ more)
        rw [if_neg short, if_neg short, ← started]
        exact ⟨later, (List.prefix_cons_inj _).mpr visitsLater⟩
  | cons h rest ih =>
    obtain ⟨fuel, rfl⟩ := Nat.exists_eq_succ_of_ne_zero (Nat.ne_of_gt (Nat.zero_lt_of_lt enough))
    by_cases fit : fits formed g = true
    · obtain ⟨found, visits⟩ := search_found layout fit fuel false
      rw [found, visits, List.cons_append, List.find?_cons_of_pos fit]
      exact ⟨rfl, List.prefix_append [g.addr] _⟩
    · have layoutH : Layout s.mem s.heapStart s.heapCurrentEnd (front ++ (pre ++ [g]) ++ h :: rest) :=
        by simpa using layout
      have nonnull : headAddr (h :: rest) ≠ 0 := addr_pos layoutH (e := h) (by simp)
      have more : rest.length + front.length < fuel := by
        rw [List.length_cons] at enough
        omega
      obtain ⟨found, visits⟩ :=
        search_missed layout fit fuel false false _ (.inr ⟨fun null => nonnull null.1, rfl, rfl⟩)
      obtain ⟨later, visitsLater⟩ := ih layoutH (by simpa using cursor) more
      rw [found, visits, List.cons_append, List.find?_cons_of_neg fit]
      exact ⟨later, (List.prefix_cons_inj _).mpr visitsLater⟩

/-- The search tests each block at most once, and finds one that fits if there
is one. -/
theorem search_once (healthy : Healthy s extents) (on : CursorOn s extents) (formed : Nat)
    (enough : extents.length ≤ fuel) :
    (visited s formed fuel s.lastAlloc false).Nodup ∧
      ((∃ e ∈ extents, fits formed e = true ∧ findBlock s formed fuel s.lastAlloc false = some (some e.addr)) ∨
        ((∀ e ∈ extents, fits formed e = false) ∧ findBlock s formed fuel s.lastAlloc false = some none)) := by
  obtain ⟨c, member, cursor⟩ := on
  obtain ⟨front, back, rfl⟩ := List.append_of_mem member
  have order : (c :: back ++ front).Perm (front ++ c :: back) := List.perm_append_comm
  have distinct : ((front ++ c :: back).map Extent.addr).Nodup := by
    refine List.Pairwise.map _ (fun e f apart => ?_) (tiles_apart healthy.1.tiles)
    unfold sizeofHeapBlock at apart
    omega
  have layout : Layout s.mem s.heapStart s.heapCurrentEnd (front ++ [] ++ c :: back) := by simpa using healthy.1
  have around : back.length + front.length < fuel := by
    rw [List.length_append, List.length_cons] at enough
    omega
  obtain ⟨found, visits⟩ := search_fresh layout ⟨back, rfl⟩ cursor formed around
  rw [cursor] at found visits
  constructor
  · exact ((order.map _).nodup_iff.mpr distinct).sublist visits.sublist
  · cases first : (c :: back ++ front).find? (fits formed) with
    | some e =>
      rw [first] at found
      exact .inl ⟨e, order.mem_iff.mp (List.mem_of_find?_eq_some first), List.find?_some first, found⟩
    | none =>
      rw [first] at found
      refine .inr ⟨fun e inside => ?_, found⟩
      exact Bool.eq_false_iff.mpr (List.find?_eq_none.mp first e (order.mem_iff.mpr inside))

/-! ## The call -/

/-- A call that finds a block at once. -/
theorem memAlloc_found (healthy : Healthy s extents) (member : e ∈ extents)
    (found : findBlock s (formedSize n) fuel s.lastAlloc false = some (some e.addr)) :
    memAlloc (fuel + 1) s n = some (e.addr + 20, takeBlock s e.addr (formedSize n)) ∧
    expansions (fuel + 1) s n = 0 := by
  have inside := (tiles_bounds healthy.1.tiles e member).2
  have bounded := healthy.1.bounded
  have pointer : add32 e.addr sizeofHeapBlock = e.addr + 20 := add32_of_lt (by unfold sizeofHeapBlock at *; omega)
  rw [memAlloc, expansions, found]
  exact ⟨by rw [← pointer], rfl⟩

/-- The expansion for a request does not wrap. -/
def Expandable (s : HeapState) (n : Nat) : Prop :=
  n ≤ maxRequest ∧ s.heapCurrentEnd + expansionSize (add32 n sizeofHeapBlock) < 2 ^ 32

/-- The block at `p` was free and holds the request. -/
def Served (extents : List Extent) (n p : Nat) : Prop :=
  ∃ e ∈ extents, e.free = true ∧ formedSize n ≤ e.size ∧ p = e.addr + 20

/-- A call that finds no block expands the heap and finds one then. -/
theorem memAlloc_expands (healthy : Healthy s extents) (on : CursorOn s extents) (expandable : Expandable s n)
    (enough : extents.length < fuel)
    (missed : findBlock s (formedSize n) (fuel + 1) s.lastAlloc false = some none) : ∃ u after e,
      heapExpand (fuel + 1) s (add32 n sizeofHeapBlock) = some u ∧ Healthy u after ∧
      (visited u (formedSize n) fuel u.lastAlloc false).Nodup ∧ e ∈ after ∧ fits (formedSize n) e = true ∧
      memAlloc (fuel + 1) u n = some (e.addr + 20, takeBlock u e.addr (formedSize n)) ∧
      memAlloc (fuel + 2) s n = some (e.addr + 20, takeBlock u e.addr (formedSize n)) ∧
      expansions (fuel + 2) s n = 1 := by
  obtain ⟨small, room⟩ := expandable
  have first : extents.length ≤ fuel + 1 := by omega
  obtain ⟨u, expanded, -⟩ := heapExpand_returns healthy room first
  obtain ⟨roomy, grown⟩ := expansionSize_room small
  obtain ⟨after, healthy', -, cursor, addrs, length, f, listed, free, large⟩ :=
    heapExpand_healthy healthy roomy expanded
  have second : after.length ≤ fuel := by omega
  obtain ⟨once, outcome⟩ := search_once healthy' (cursorOn_kept on cursor addrs) (formedSize n) second
  rcases outcome with ⟨e, member, fit, found⟩ | ⟨misses, -⟩
  · obtain ⟨ran, count⟩ := memAlloc_found healthy' member found
    refine ⟨u, after, e, expanded, healthy', once, member, fit, ran, ?_, ?_⟩
    · rw [memAlloc, missed]
      dsimp only
      rw [expanded]
      exact ran
    · rw [expansions, missed]
      dsimp only
      rw [expanded]
      exact congrArg (1 + ·) count
  · have fit : fits (formedSize n) f = true := fits_iff.mpr ⟨free, Nat.le_trans grown large⟩
    rw [misses f listed] at fit
    cases fit

/-- A block that fits is taken wherever the cursor is; where there is none, one
expansion makes one. -/
theorem memAlloc_serves (healthy : Healthy s extents) (on : CursorOn s extents) (expandable : Expandable s n)
    (enough : extents.length < fuel) :
    (visited s (formedSize n) (fuel + 1) s.lastAlloc false).Nodup ∧
    ((∃ e ∈ extents, e.free = true ∧ formedSize n ≤ e.size) →
    ∃ p t, memAlloc (fuel + 2) s n = some (p, t) ∧
      Served extents n p ∧ t.heapCurrentEnd = s.heapCurrentEnd ∧ expansions (fuel + 2) s n = 0) ∧
    ((¬ ∃ e ∈ extents, e.free = true ∧ formedSize n ≤ e.size) → ∃ u after p t,
      heapExpand (fuel + 1) s (add32 n sizeofHeapBlock) = some u ∧ Healthy u after ∧ Served after n p ∧
      (visited u (formedSize n) fuel u.lastAlloc false).Nodup ∧
      memAlloc (fuel + 1) u n = some (p, t) ∧ memAlloc (fuel + 2) s n = some (p, t) ∧
      expansions (fuel + 2) s n = 1) := by
  have first : extents.length ≤ fuel + 1 := by omega
  obtain ⟨once, outcome⟩ := search_once healthy on (formedSize n) first
  refine ⟨once, fun some => ?_, fun none => ?_⟩
  · rcases outcome with ⟨e, member, fit, found⟩ | ⟨misses, -⟩
    · obtain ⟨ran, count⟩ := memAlloc_found healthy member found
      obtain ⟨free, large⟩ := fits_iff.mp fit
      exact ⟨_, _, ran, ⟨e, member, free, large, rfl⟩, rfl, count⟩
    · obtain ⟨e, member, fit⟩ := some
      exact absurd (fits_iff.mpr fit) (Bool.eq_false_iff.mp (misses e member))
  · rcases outcome with ⟨e, member, fit, -⟩ | ⟨-, missed⟩
    · exact absurd ⟨e, member, fits_iff.mp fit⟩ none
    · obtain ⟨u, after, e, expanded, healthy', again, member, fit, ran, whole, count⟩ :=
        memAlloc_expands healthy on expandable enough missed
      obtain ⟨free, large⟩ := fits_iff.mp fit
      exact ⟨u, after, _, _, expanded, healthy', ⟨e, member, free, large, rfl⟩, again, ran, whole, count⟩

end

/-- Only the block before the cursor holds 80 bytes, and none holds 2000. -/
theorem memAlloc_serves_wrapped : ∃ s, s.lastAlloc = 0x6FFFB4 ∧
    Healthy s [⟨0x600000, 100, true⟩, ⟨0x600078, 1048360, false⟩, ⟨0x6FFFB4, 56, true⟩] ∧
    (∃ p t, memAlloc 6 s 80 = some (p, t) ∧
      Served [⟨0x600000, 100, true⟩, ⟨0x600078, 1048360, false⟩, ⟨0x6FFFB4, 56, true⟩] 80 p ∧
      t.heapCurrentEnd = 0x700000 ∧ expansions 6 s 80 = 0) ∧
    ∃ u after p t, heapExpand 5 s (add32 2000 sizeofHeapBlock) = some u ∧ Served after 2000 p ∧
      memAlloc 6 s 2000 = some (p, t) ∧ expansions 6 s 2000 = 1 := by
  obtain ⟨s, -, ⟨start, stop, cursor⟩, atFirst, atSecond, atThird⟩ := HeapSafety.freed_between
  have healthy : Healthy s [⟨0x600000, 100, true⟩, ⟨0x600078, 1048360, false⟩, ⟨0x6FFFB4, 56, true⟩] := by
    refine ⟨⟨?_, ?_, ?_, by rw [start]; decide, by rw [stop]; decide⟩, by simp⟩
    · rw [start, stop]
      exact ⟨rfl, rfl, rfl, rfl⟩
    · simp [Links, atFirst, atSecond, atThird]
    · simp [HeaderOf, atFirst, atSecond, atThird]
  have on : CursorOn s [⟨0x600000, 100, true⟩, ⟨0x600078, 1048360, false⟩, ⟨0x6FFFB4, 56, true⟩] :=
    ⟨_, List.mem_of_getElem? (i := 2) rfl, cursor.symm⟩
  have small := memAlloc_serves healthy on (n := 80) ⟨by decide, by rw [stop]; decide⟩ (show _ < 4 by decide)
  have large := memAlloc_serves healthy on (n := 2000) ⟨by decide, by rw [stop]; decide⟩ (show _ < 4 by decide)
  refine ⟨s, cursor, healthy, ?_, ?_⟩
  · obtain ⟨p, t, ran, served, same, count⟩ := small.2.1 ⟨_, List.mem_cons_self, rfl, by decide⟩
    exact ⟨p, t, ran, served, same.trans stop, count⟩
  · obtain ⟨u, after, p, t, expanded, -, served, -, -, ran, count⟩ := large.2.2 (by decide)
    exact ⟨u, after, p, t, expanded, served, ran, count⟩

end MeowMeowOS.HeapSearch

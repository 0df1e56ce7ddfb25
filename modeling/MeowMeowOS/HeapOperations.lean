import MeowMeowOS.HeapLayout

/-! What each call of the kernel allocator does to a healthy heap. Every
operation keeps the blocks in use where they are; the search can only return
a block of the list, provided that the cursor it starts from is on the list. -/
namespace MeowMeowOS.HeapOperations
open ByteMemory Tiling DoublyLinked KernelHeap HeapLayout

/-- The state's memory is laid out as these extents. -/
def Healthy (s : HeapState) (extents : List Extent) : Prop :=
  Layout s.mem s.heapStart s.heapCurrentEnd extents ∧ extents ≠ []

/-- The next-fit cursor names a block of the list. -/
def CursorOn (s : HeapState) (extents : List Extent) : Prop := ∃ e ∈ extents, e.addr = s.lastAlloc

/-- Blocks in use are neither moved nor resized nor freed. -/
def Keeps (before after : List Extent) : Prop := ∀ e ∈ before, e.free = false → e ∈ after

theorem Keeps.trans (first : Keeps a b) (second : Keeps b c) : Keeps a c :=
  fun e member used => second e (first e member used) used

theorem layout_congr (layout : Layout m start stop extents)
    (same : ∀ e ∈ extents, block m' e.addr = block m e.addr) : Layout m' start stop extents where
  tiles := layout.tiles
  positive := layout.positive
  bounded := layout.bounded
  headers e member := (headerOf_congr (same e member)).mpr (layout.headers e member)
  links := by
    refine (links_congr ?_).mpr layout.links
    intro a member
    obtain ⟨e, held, rfl⟩ := List.mem_map.mp member
    simp only [same e held, and_self]

theorem healthy_start (healthy : Healthy s extents) : ∃ e rest, extents = e :: rest ∧ e.addr = s.heapStart := by
  obtain ⟨layout, nonempty⟩ := healthy
  cases extents with
  | nil => contradiction
  | cons e rest => exact ⟨e, rest, rfl, layout.tiles.1⟩

/-! ## Initialization -/

theorem heapInitialize_healthy (m : Mem) (start size : Nat) (positive : 0 < start)
    (room : 20 ≤ size) (bound : start + size < 2 ^ 32) :
    Healthy (heapInitialize m start size) [⟨start, size - 20, true⟩] ∧
      CursorOn (heapInitialize m start size) [⟨start, size - 20, true⟩] := by
  have length : sub32 size sizeofHeapBlock = size - 20 := sub32_of_le room (by omega)
  have magic : heapMagic % 2 ^ 32 = heapMagic := by decide
  have header : block (heapInitialize m start size).mem start = ⟨heapMagic, size - 20, true, 0, 0⟩ := by
    simp (disch := omega) [heapInitialize, length, Nat.mod_eq_of_lt]
  refine ⟨⟨⟨?_, ?_, ?_, positive, ?_⟩, by simp⟩, _, List.mem_singleton_self _, rfl⟩
  · refine ⟨rfl, ?_⟩
    change start + 20 + (size - 20) = add32 start size
    rw [add32_of_lt bound]
    omega
  · simp [Links, header]
  · intro e member
    rw [List.mem_singleton.mp member]
    simp [HeaderOf, header]
  · exact Nat.mod_lt _ (by decide)

/-! ## The search and the split -/

theorem next_on_list (layout : Layout m start stop extents) (member : e ∈ extents) :
    (block m e.addr).next = 0 ∨ ∃ f ∈ extents, f.addr = (block m e.addr).next := by
  rcases links_next_mem layout.links (List.mem_map_of_mem member) with held | last
  · obtain ⟨f, found, same⟩ := List.mem_map.mp held
    exact Or.inr ⟨f, found, same⟩
  · exact Or.inl last

/-- Started on the list, the search stays on it: a block it returns is a
free block of the list that is large enough. -/
theorem findBlock_found (healthy : Healthy s extents)
    (on : current = 0 ∨ ∃ e ∈ extents, e.addr = current)
    (found : findBlock s formed fuel current wrapped = some (some b)) :
    ∃ e ∈ extents, e.addr = b ∧ e.free = true ∧ formed ≤ e.size := by
  induction fuel generalizing current wrapped with
  | zero => simp [findBlock] at found
  | succ fuel ih =>
    simp only [findBlock] at found
    by_cases null : current = 0
    · simp [null] at found
    · obtain ⟨e, member, rfl⟩ := on.resolve_left null
      obtain ⟨_, sizeEq, freeEq⟩ := healthy.1.headers e member
      simp only [null, ↓reduceIte, sizeEq, freeEq] at found
      split at found
      · rename_i fits
        obtain rfl : e.addr = b := by simpa using found
        exact ⟨e, member, rfl, fits⟩
      · -- the loop moves on to the successor, or back to the first block
        obtain ⟨first, rest, shape, start⟩ := healthy_start healthy
        split at found <;> split at found
        · simp at found
        · exact ih (Or.inr ⟨first, by simp [shape], start⟩) found
        · simp at found
        · exact ih (next_on_list healthy.1 member) found

theorem takeBlock_healthy (healthy : Healthy s (front ++ e :: back)) (free : e.free = true)
    (fits : formed ≤ e.size) (small : formed + 24 < 2 ^ 32) :
    ∃ after, Healthy (takeBlock s e.addr formed) after ∧
      CursorOn (takeBlock s e.addr formed) after ∧ Keeps (front ++ e :: back) after ∧
      ∃ taken ∈ after, taken.addr = e.addr ∧ taken.free = false ∧ formed ≤ taken.size := by
  have layout := healthy.1
  have sizeEq := (layout_header layout).2.1
  have room : add32 formed (sizeofHeapBlock + 4) = formed + 24 :=
    add32_of_lt (by unfold sizeofHeapBlock; omega)
  -- the layout after the optional split, before the block is marked
  obtain ⟨m, size, rest, memEq, fits, layout⟩ : ∃ m size rest,
      m = (if add32 formed (sizeofHeapBlock + 4) < (block s.mem e.addr).size then
        splitBlock s.mem e.addr formed else s.mem) ∧ formed ≤ size ∧
      Layout m s.heapStart s.heapCurrentEnd (front ++ ⟨e.addr, size, e.free⟩ :: (rest ++ back)) := by
    rw [room, sizeEq]
    by_cases splits : formed + 24 < e.size
    · rw [if_pos splits]
      exact ⟨_, formed, [_], rfl, Nat.le_refl _, by simpa using layout_split layout splits⟩
    · rw [if_neg splits]
      exact ⟨_, e.size, [], rfl, fits, by simpa using layout⟩
  have marked := layout_mark layout false
  simp only [List.append_assoc, List.cons_append, List.nil_append] at marked
  have nextEq := (layout_split_links marked).1
  refine ⟨_, ⟨by simpa only [takeBlock, ← memEq] using marked, by simp⟩, ?_, ?_,
    ⟨e.addr, size, false⟩, by simp, rfl, rfl, fits⟩
  · have started : ∃ first others, front ++ ⟨e.addr, size, e.free⟩ :: (rest ++ back) =
        first :: others ∧ first.addr = s.heapStart :=
      healthy_start (s := { s with mem := m }) ⟨layout, by simp⟩
    simp only [CursorOn, takeBlock, ← memEq, nextEq]
    cases following : rest ++ back with
    | nil =>
      obtain ⟨first, others, shape, start⟩ := started
      cases front with
      | nil =>
        refine ⟨_, List.mem_cons_self, ?_⟩
        simp only [List.nil_append, List.cons.injEq] at shape
        rw [← shape.1] at start
        simpa [headAddr] using start
      | cons head tail =>
        simp only [List.cons_append, List.cons.injEq] at shape
        refine ⟨head, List.mem_cons_self, ?_⟩
        rw [shape.1]
        simpa [headAddr] using start
    | cons f others =>
      have nonnull := addr_pos layout (e := f) (by simp [following])
      exact ⟨f, by simp, by simp [headAddr, nonnull]⟩
  · intro f member used
    simp only [List.mem_append, List.mem_cons] at member ⊢
    rcases member with member | rfl | member
    · exact Or.inl member
    · rw [free] at used
      cases used
    · exact Or.inr (Or.inr (Or.inr member))

/-! ## Expansion -/

/-- The walk to the end of the list stops at its last block. -/
theorem lastBlock_last (links : Links (fun a => (block m a).next) prev before 0 (a :: rest))
    (nonnull : ∀ b ∈ rest, b ≠ 0) (ran : lastBlock m fuel a = some b) :
    b = (a :: rest).getLastD 0 := by
  induction fuel generalizing a rest before with
  | zero => simp [lastBlock] at ran
  | succ fuel ih =>
    obtain ⟨nextEq, _, tail⟩ := links
    simp only [lastBlock, nextEq] at ran
    cases rest with
    | nil =>
      have : a = b := by simpa using ran
      simp [this]
    | cons c others =>
      simp only [List.headD_cons, ne_eq, nonnull c List.mem_cons_self, not_false_eq_true, ↓reduceIte] at ran
      simpa using ih tail (fun d member => nonnull d (List.mem_cons_of_mem _ member)) ran

/-- The block appended at the end of the heap, before any merge. -/
theorem layout_append (layout : Layout m start stop (front ++ [e]))
    (room : 20 ≤ total) (bound : stop + total < 2 ^ 32)
    (old : ∀ g ∈ front, block m' g.addr = block m g.addr)
    (atLast : block m' e.addr = { block m e.addr with next := stop })
    (atNew : block m' stop = ⟨heapMagic, total - 20, true, 0, e.addr⟩) :
    Layout m' start (stop + total) (front ++ [e, ⟨stop, total - 20, true⟩] ++ []) := by
  have grouped : Layout m start stop (front ++ [e] ++ []) := by simpa using layout
  obtain ⟨nextEq, prevEq⟩ := layout_split_links layout
  obtain ⟨magic, sizeEq, freeEq⟩ := layout_header layout
  refine layout_replace grouped ?_ bound rfl ?_ ?_ old (by simp) (by simp)
  · obtain ⟨mid, before, at_e, stopEq⟩ := (tiles_append _ _).mp layout.tiles
    have after : mid + sizeofHeapBlock + e.size = stop := stopEq
    rw [List.append_nil]
    refine (tiles_append _ _).mpr ⟨mid, before, at_e, after.symm, ?_⟩
    change mid + sizeofHeapBlock + e.size + sizeofHeapBlock + (total - 20) = stop + total
    rw [after]
    unfold sizeofHeapBlock
    omega
  · simp [Links, atLast, atNew, prevEq, headAddr]
  · intro g member
    simp only [List.mem_cons, List.not_mem_nil, or_false] at member
    rcases member with rfl | rfl
    · simp [HeaderOf, atLast, magic, sizeEq, freeEq]
    · simp [HeaderOf, atNew]

/-- The new area and a free block before it become one block; otherwise the
list is left as it is. -/
theorem mergeExpansion_layout (layout : Layout m start stop (front ++ [e, f])) :
    ∃ after, Layout (mergeExpansion m f.addr) start stop after ∧ after ≠ [] ∧
      Keeps (front ++ [e]) after ∧ (∀ g ∈ front ++ [e], ∃ h ∈ after, h.addr = g.addr) ∧
      after.length ≤ (front ++ [e]).length + 1 ∧
      (f.free = true → ∃ h ∈ after, h.free = true ∧ f.size ≤ h.size) := by
  have assoc : Layout m start stop ((front ++ [e]) ++ [f]) := by simpa using layout
  have prevEq : (block m f.addr).prev = e.addr := by
    simpa [lastAddr] using (layout_split_links assoc).2
  have nextEq : (block m f.addr).next = 0 := (layout_split_links assoc).1
  have goneSize := (layout_header assoc).2.1
  obtain ⟨_, sizeEq, freeEq⟩ := layout_header layout
  have nonnull : e.addr ≠ 0 := addr_pos layout (by simp)
  have bounded := layout.bounded
  have last := layout_bounds assoc
  have order := tiles_before assoc.tiles e (by simp)
  change e.addr + 20 + e.size ≤ f.addr at order
  simp only [mergeExpansion, prevEq, ne_eq, nonnull, not_false_eq_true, true_and, freeEq]
  cases merges : e.free with
  | false =>
    refine ⟨front ++ [e, f], by simpa using layout, by simp, ?_, ?_, by simp, ?_⟩
    · intro g member _
      exact List.mem_append.mpr ((List.mem_append.mp member).imp_right fun h => by simp_all)
    · intro g member
      exact ⟨g, List.mem_append.mpr ((List.mem_append.mp member).imp_right fun h => by simp_all), rfl⟩
    · exact fun free => ⟨f, by simp, free, Nat.le_refl _⟩
  | true =>
    have grown : add32 e.size (add32 sizeofHeapBlock f.size) = e.size + (20 + f.size) := by
      rw [add32_of_lt (a := sizeofHeapBlock) (by unfold sizeofHeapBlock; omega),
        add32_of_lt (by unfold sizeofHeapBlock; omega)]
      rfl
    have absorbs : Absorbs m (setNext (setSize m e.addr (e.size + (20 + f.size))) e.addr 0)
        e.addr f.addr := by
      refine ⟨?_, ?_, ?_⟩
      · simp (disch := omega) [Nat.mod_eq_of_lt, nextEq, sizeEq, goneSize]
      · simp (disch := omega) only [block_store_apart]
      · refine ⟨by simp [nextEq], fun b touched _ => ?_⟩
        have apartKeep := touched e.addr (by simp)
        simp (disch := omega) only [block_store_apart]
    have merged : Layout _ start stop
        (front ++ [⟨e.addr, e.size + (20 + f.size), e.free⟩] ++ []) := layout_absorb layout absorbs
    rw [merges, List.append_nil] at merged
    refine ⟨_, by simpa only [↓reduceIte, sizeEq, goneSize, grown] using merged, by simp, ?_, ?_, by simp, ?_⟩
    · intro g member used
      rcases List.mem_append.mp member with member | member
      · exact List.mem_append_left _ member
      · rw [List.mem_singleton.mp member, merges] at used
        cases used
    · intro g member
      rcases List.mem_append.mp member with member | member
      · exact ⟨g, List.mem_append_left _ member, rfl⟩
      · exact ⟨_, List.mem_append_right _ (List.mem_singleton_self _),
          (congrArg Extent.addr (List.mem_singleton.mp member)).symm⟩
    · intro _
      exact ⟨_, List.mem_append_right _ (List.mem_singleton_self _), rfl,
        show f.size ≤ e.size + (20 + f.size) by omega⟩

/-- The header of the new area lies behind every block of the list. -/
theorem newBigBlock_layout (layout : Layout m start stop extents) (total : Nat) :
    Layout (newBigBlock m stop total) start stop extents := by
  refine layout_congr layout fun g member => ?_
  have := tiles_bounds layout.tiles g member
  have behind : Apart stop g.addr := Or.inr (Nat.le_trans (Nat.le_add_right _ _) this.2)
  simp only [newBigBlock, block_store_apart _ _ behind]

/-- What an expansion leaves before the new area is merged: it is linked behind
the last block. -/
theorem heapExpand_links (healthy : Healthy s (front ++ [e])) (ran : heapExpand fuel s additional = some s') :
    ∃ m, s' = { s with
        mem := mergeExpansion m s.heapCurrentEnd
        heapCurrentEnd := s.heapCurrentEnd + expansionSize additional } ∧
      s.heapCurrentEnd + expansionSize additional < 2 ^ 32 ∧
      (∀ g ∈ front, block m g.addr = block s.mem g.addr) ∧
      block m e.addr = { block s.mem e.addr with next := s.heapCurrentEnd } ∧
      block m s.heapCurrentEnd = ⟨heapMagic, sub32 (expansionSize additional) sizeofHeapBlock, true, 0,
      e.addr⟩ := by
  obtain ⟨layout, nonempty⟩ := healthy
  have bounded := layout.bounded
  simp only [heapExpand] at ran
  generalize totalEq : expansionSize additional = total at *
  by_cases beyond : 2 ^ 32 ≤ s.heapCurrentEnd + total
  · rw [if_pos beyond] at ran
    cases ran
  rw [if_neg beyond] at ran
  have magic : heapMagic % 2 ^ 32 = heapMagic := by decide
  have word : sub32 total sizeofHeapBlock % 2 ^ 32 = sub32 total sizeofHeapBlock := Nat.mod_mod _ _
  -- the new header lies behind every block of the list
  have behind : ∀ g ∈ front ++ [e], Apart s.heapCurrentEnd g.addr := by
    intro g member
    have := tiles_bounds layout.tiles g member
    exact Or.inr (Nat.le_trans (Nat.le_add_right _ _) this.2)
  generalize memEq : newBigBlock s.mem s.heapCurrentEnd total = m at ran
  have same : ∀ g ∈ front ++ [e], block m g.addr = block s.mem g.addr := by
    intro g member
    simp only [← memEq, newBigBlock, block_store_apart _ _ (behind g member)]
  have atNew : block m s.heapCurrentEnd = { block s.mem s.heapCurrentEnd with
      magic := heapMagic, size := sub32 total sizeofHeapBlock, isFree := true, next := 0 } := by
    simp (disch := omega) [← memEq, newBigBlock, Nat.mod_eq_of_lt]
  have walked : Layout m s.heapStart s.heapCurrentEnd (front ++ [e]) := memEq ▸ newBigBlock_layout layout total
  cases last : lastBlock m fuel s.heapStart with
  | none => simp [last] at ran
  | some current =>
    have currentEq : current = e.addr := by
      obtain ⟨first, rest, shape, start⟩ := healthy_start (s := { s with mem := m }) ⟨walked, nonempty⟩
      have links := walked.links
      rw [shape, List.map_cons] at links
      have ends := lastBlock_last links (fun a member => by
        obtain ⟨g, held, rfl⟩ := List.mem_map.mp member
        exact addr_pos walked (by simp [shape, held])) (by rw [start]; exact last)
      rw [← List.map_cons, ← shape] at ends
      simpa using ends
    subst currentEq
    simp only [last, Option.some.injEq] at ran
    have apart := behind e (by simp)
    have eBounds := layout_bounds walked
    refine ⟨_, ran.symm, by omega, fun g member => ?_, ?_, ?_⟩
    · have before := tiles_before walked.tiles g member
      have apartNew := behind g (by simp [member])
      have apartLast : Apart e.addr g.addr := Or.inr (Nat.le_trans (Nat.le_add_right _ _) before)
      rw [← same g (by simp [member])]
      simp (disch := omega) only [block_store_apart]
    · rw [← same e (by simp)]
      simp (disch := omega) [block_store_apart, Nat.mod_eq_of_lt]
    · simp (disch := omega) [block_store_apart, Nat.mod_eq_of_lt, atNew]

theorem heapExpand_healthy (healthy : Healthy s extents) (room : 20 ≤ expansionSize additional)
    (ran : heapExpand fuel s additional = some s') :
    ∃ after, Healthy s' after ∧ Keeps extents after ∧ s'.lastAlloc = s.lastAlloc ∧
      (∀ e ∈ extents, ∃ f ∈ after, f.addr = e.addr) ∧ after.length ≤ extents.length + 1 ∧
      ∃ f ∈ after, f.free = true ∧ expansionSize additional - 20 ≤ f.size := by
  obtain ⟨front, e, rfl⟩ : ∃ front e, extents = front ++ [e] :=
    ⟨extents.dropLast, extents.getLast healthy.2, (List.dropLast_append_getLast healthy.2).symm⟩
  obtain ⟨m, rfl, bound, old, atLast, atNew⟩ := heapExpand_links healthy ran
  have length : sub32 (expansionSize additional) sizeofHeapBlock = expansionSize additional - 20 :=
    sub32_of_le room (by omega)
  rw [length] at atNew
  have appended := layout_append healthy.1 room bound old atLast atNew
  rw [List.append_nil] at appended
  obtain ⟨after, merged, some, keeps, addrs, length, large⟩ := mergeExpansion_layout appended
  exact ⟨after, ⟨merged, some⟩, keeps, rfl, addrs, length, large rfl⟩

theorem lastBlock_returns (links : Links (fun a => (block m a).next) prev before 0 (a :: rest))
    (enough : rest.length < fuel) :
    ∃ b, lastBlock m fuel a = some b := by
  induction fuel generalizing a rest before with
  | zero => cases enough
  | succ fuel ih =>
    obtain ⟨nextEq, _, tail⟩ := links
    simp only [lastBlock, nextEq]
    cases rest with
    | nil => exact ⟨a, if_neg (by simp)⟩
    | cons c others =>
      split
      · exact ih tail (Nat.lt_of_succ_lt_succ enough)
      · exact ⟨a, rfl⟩

/-- An expansion that ends within the address space returns. -/
theorem heapExpand_returns (healthy : Healthy s extents) (room : s.heapCurrentEnd + expansionSize additional < 2 ^ 32)
    (enough : extents.length ≤ fuel) : ∃ s', heapExpand fuel s additional = some s' ∧
      s'.heapCurrentEnd = s.heapCurrentEnd + expansionSize additional := by
  obtain ⟨first, rest, rfl, start⟩ := healthy_start healthy
  have walked := (newBigBlock_layout healthy.1 (expansionSize additional)).links
  rw [List.map_cons, start] at walked
  obtain ⟨last, found⟩ := lastBlock_returns walked (by simpa [Nat.succ_le_iff] using enough)
  unfold heapExpand
  dsimp only
  rw [if_neg (by omega), found]
  exact ⟨_, rfl, rfl⟩

theorem heapExpand_heapStart (ran : heapExpand fuel s additional = some s') :
    s'.heapStart = s.heapStart := by
  simp only [heapExpand] at ran
  split at ran
  · simp at ran
  · split at ran
    · simp at ran
    · simp only [Option.some.injEq] at ran
      rw [← ran]

theorem cursorOn_kept (on : CursorOn s extents) (cursor : s'.lastAlloc = s.lastAlloc)
    (addrs : ∀ e ∈ extents, ∃ f ∈ after, f.addr = e.addr) : CursorOn s' after := by
  obtain ⟨c, member, atCursor⟩ := on
  obtain ⟨d, held, same⟩ := addrs c member
  exact ⟨d, held, by rw [same, atCursor, cursor]⟩

/-! ## Allocation -/

/-- The largest request whose expansion does not wrap. -/
def maxRequest : Nat := 2 ^ 32 - 1 - (pageSize - 1) - sizeofHeapBlock

theorem formedSize_bounds (small : n ≤ maxRequest) : n ≤ formedSize n ∧ formedSize n < n + 4 := by
  unfold maxRequest pageSize sizeofHeapBlock at small
  have sum : add32 n 3 = n + 3 := add32_of_lt (by omega)
  simp only [formedSize, sum]
  omega

theorem expansionSize_room (small : n ≤ maxRequest) :
    20 ≤ expansionSize (add32 n sizeofHeapBlock) ∧
    formedSize n ≤ expansionSize (add32 n sizeofHeapBlock) - 20 := by
  unfold maxRequest pageSize sizeofHeapBlock at small
  have three : add32 n 3 = n + 3 := add32_of_lt (by omega)
  have sum : add32 n sizeofHeapBlock = n + 20 := add32_of_lt (by unfold sizeofHeapBlock; omega)
  have rounded : add32 (n + 20) (4096 - 1) = n + 20 + 4095 := add32_of_lt (by omega)
  simp only [expansionSize, formedSize, sum, three, pageSize, rounded]
  omega

theorem memAlloc_heapStart (ran : memAlloc fuel s n = some (p, s')) :
    s'.heapStart = s.heapStart := by
  induction fuel generalizing s with
  | zero => simp [memAlloc] at ran
  | succ fuel ih =>
    simp only [memAlloc] at ran
    split at ran
    · simp at ran
    · simp only [Option.some.injEq, Prod.mk.injEq] at ran
      rw [← ran.2]
      rfl
    · split at ran
      · simp at ran
      · rename_i expanded expansion
        rw [ih ran]
        exact heapExpand_heapStart expansion

/-- A call that returns hands out a block that was not in use and holds the
request, and leaves the cursor on the list. -/
theorem memAlloc_healthy (healthy : Healthy s extents) (on : CursorOn s extents)
    (small : n ≤ maxRequest) (ran : memAlloc fuel s n = some (p, s')) :
    ∃ after, Healthy s' after ∧ CursorOn s' after ∧ Keeps extents after ∧
      ∃ e ∈ after, e.free = false ∧ p = e.addr + 20 ∧ n ≤ e.size ∧
        ∀ f ∈ extents, f.free = false → f.addr ≠ e.addr := by
  induction fuel generalizing s extents with
  | zero => simp [memAlloc] at ran
  | succ fuel ih =>
    simp only [memAlloc] at ran
    split at ran
    · simp at ran
    · rename_i current found
      obtain ⟨e, member, rfl, free, fits⟩ := findBlock_found healthy (Or.inr on) found
      obtain ⟨front, back, rfl⟩ := List.append_of_mem member
      have bounds := layout_bounds healthy.1
      have bounded := healthy.1.bounded
      obtain ⟨atLeast, formedSmall⟩ := formedSize_bounds small
      obtain ⟨after, healthy', on', keeps, taken, held, addr, used, room⟩ :=
        takeBlock_healthy healthy free fits (by unfold maxRequest pageSize sizeofHeapBlock at small; omega)
      simp only [Option.some.injEq, Prod.mk.injEq] at ran
      obtain ⟨rfl, rfl⟩ := ran
      refine ⟨after, healthy', on', keeps, taken, held, used, ?_, by omega, ?_⟩
      · rw [addr]
        exact add32_of_lt (by unfold sizeofHeapBlock; omega)
      · -- a block in use at that address would be the free block found
        intro f other usedOther same
        have := tiles_addr_inj healthy.1.tiles (by decide) other member (same.trans addr)
        rw [this, free] at usedOther
        cases usedOther
    · split at ran
      · simp at ran
      · rename_i expanded expansion
        obtain ⟨middle, healthyMiddle, keepsMiddle, cursor, addrs, -⟩ :=
          heapExpand_healthy healthy (expansionSize_room small).1 expansion
        have onMiddle : CursorOn expanded middle := cursorOn_kept on cursor addrs
        obtain ⟨after, healthy', on', keeps, e, held, used, pointer, fits, fresh⟩ :=
          ih healthyMiddle onMiddle ran
        exact ⟨after, healthy', on', keepsMiddle.trans keeps, e, held, used, pointer, fits,
          fun f member usedF => fresh f (keepsMiddle f member usedF) usedF⟩

/-! ## Deallocation -/

@[simp] theorem mergeForward_heapStart (s : HeapState) (b : Nat) :
    (mergeForward s b).heapStart = s.heapStart := by
  simp only [mergeForward]
  split <;> rfl

@[simp] theorem mergeBackward_heapStart (s : HeapState) (b : Nat) :
    (mergeBackward s b).heapStart = s.heapStart := by
  simp only [mergeBackward]
  split <;> rfl

@[simp] theorem memFree_heapStart (s : HeapState) (p : Nat) :
    (memFree s p).heapStart = s.heapStart := by
  simp only [memFree]
  split
  · rfl
  · split
    · rfl
    · split <;> simp

/-- Freeing `ptr` makes the free predecessor swallow the block while the
cursor is on that predecessor, on the block, or on the free successor the
block has just swallowed itself. -/
def StrandsCursor (s : HeapState) (ptr : Nat) : Prop :=
  let b := block s.mem (sub32 ptr sizeofHeapBlock)
  (b.prev ≠ 0 ∧ (block s.mem b.prev).isFree = true) ∧
    (s.lastAlloc = b.prev ∨ s.lastAlloc = sub32 ptr sizeofHeapBlock ∨
      ((b.next ≠ 0 ∧ (block s.mem b.next).isFree = true) ∧ s.lastAlloc = b.next))

instance (s : HeapState) (ptr : Nat) : Decidable (StrandsCursor s ptr) := by
  unfold StrandsCursor
  infer_instance

section Merges
variable {front back : List Extent} {e : Extent}

theorem mergeForward_healthy (healthy : Healthy s (front ++ e :: back)) :
    (mergeForward s e.addr = s ∧ ¬ ((block s.mem e.addr).next ≠ 0 ∧
        (block s.mem (block s.mem e.addr).next).isFree = true)) ∨
      ∃ f rest, back = f :: rest ∧ f.free = true ∧ (block s.mem e.addr).next = f.addr ∧
        (block s.mem f.addr).isFree = true ∧
        Healthy (mergeForward s e.addr) (front ++ ⟨e.addr, e.size + (20 + f.size), e.free⟩ :: rest) ∧
        (mergeForward s e.addr).lastAlloc =
          if s.lastAlloc = f.addr then e.addr else s.lastAlloc := by
  have layout := healthy.1
  have bounded := layout.bounded
  have nextEq := (layout_split_links layout).1
  by_cases merges : (block s.mem e.addr).next ≠ 0 ∧
      (block s.mem (block s.mem e.addr).next).isFree = true
  · right
    cases back with
    | nil => exact absurd nextEq merges.1
    | cons f rest =>
      have atNext : (block s.mem e.addr).next = f.addr := nextEq
      have assoc : Layout s.mem s.heapStart s.heapCurrentEnd ((front ++ [e]) ++ f :: rest) := by
        simpa using layout
      have sizeEq := (layout_header layout).2.1
      obtain ⟨_, goneSize, freeEq⟩ := layout_header assoc
      have order := tiles_after layout.tiles f List.mem_cons_self
      change e.addr + 20 + e.size ≤ f.addr at order
      have last := layout_bounds assoc
      have beyond := headAddr_beyond assoc
      rw [← (layout_split_links assoc).1] at beyond
      have nextLt := block_next_lt s.mem f.addr
      have absorbs := merge_absorbs s.mem e.addr f.addr (by omega) (by omega) (by omega)
      rw [atNext, freeEq] at merges
      refine ⟨f, rest, rfl, merges.2, atNext, freeEq.trans merges.2, ⟨?_, by simp⟩, ?_⟩
      · -- the code reads the successor back from the merged header
        have stores : (mergeForward s e.addr).mem =
            (let m := setSize s.mem e.addr (add32 (block s.mem e.addr).size
              (add32 sizeofHeapBlock (block s.mem f.addr).size))
            let m := setNext m e.addr (block m f.addr).next
            if (block m f.addr).next ≠ 0 then setPrev m (block m f.addr).next e.addr else m) := by
          simp (disch := omega) [mergeForward, atNext, merges, freeEq, block_store_apart,
            Nat.mod_eq_of_lt]
        have same : (mergeForward s e.addr).heapStart = s.heapStart ∧
            (mergeForward s e.addr).heapCurrentEnd = s.heapCurrentEnd := by
          simp [mergeForward, atNext, merges, freeEq]
        rw [same.1, same.2, stores]
        simpa using layout_absorb layout absorbs
      · simp [mergeForward, atNext, merges, freeEq]
  · exact Or.inl ⟨by simp only [mergeForward, merges, ↓reduceIte], merges⟩

theorem mergeBackward_healthy (healthy : Healthy s (front ++ e :: back)) :
    (mergeBackward s e.addr = s ∧ ¬ ((block s.mem e.addr).prev ≠ 0 ∧
        (block s.mem (block s.mem e.addr).prev).isFree = true)) ∨
      ∃ rest g, front = rest ++ [g] ∧ g.free = true ∧ (block s.mem e.addr).prev = g.addr ∧
        (block s.mem g.addr).isFree = true ∧ g.addr ≠ 0 ∧
        Healthy (mergeBackward s e.addr) (rest ++ ⟨g.addr, g.size + (20 + e.size), g.free⟩ :: back) ∧
        (mergeBackward s e.addr).lastAlloc =
          if s.lastAlloc = g.addr then e.addr else s.lastAlloc := by
  have layout := healthy.1
  have bounded := layout.bounded
  have prevEq := (layout_split_links layout).2
  by_cases merges : (block s.mem e.addr).prev ≠ 0 ∧
      (block s.mem (block s.mem e.addr).prev).isFree = true
  · right
    rcases List.eq_nil_or_concat' front with rfl | ⟨rest, g, rfl⟩
    · exact absurd prevEq merges.1
    · have atPrev : (block s.mem e.addr).prev = g.addr := by simpa [lastAddr] using prevEq
      have assoc : Layout s.mem s.heapStart s.heapCurrentEnd (rest ++ g :: e :: back) := by
        simpa using layout
      have goneSize := (layout_header layout).2.1
      obtain ⟨_, sizeEq, freeEq⟩ := layout_header assoc
      have order := tiles_after assoc.tiles e List.mem_cons_self
      change g.addr + 20 + g.size ≤ e.addr at order
      have last := layout_bounds layout
      have beyond := headAddr_beyond layout
      rw [← (layout_split_links layout).1] at beyond
      have nonnull := addr_pos assoc (e := g) (by simp)
      have absorbs := merge_absorbs s.mem g.addr e.addr (by omega) (by omega) (by omega)
      rw [atPrev, freeEq] at merges
      refine ⟨rest, g, rfl, merges.2, atPrev, freeEq.trans merges.2, nonnull, ⟨?_, by simp⟩, ?_⟩
      · have stores : (mergeBackward s e.addr).mem =
            (let m := setSize s.mem g.addr (add32 (block s.mem g.addr).size
              (add32 sizeofHeapBlock (block s.mem e.addr).size))
            let m := setNext m g.addr (block m e.addr).next
            if (block m e.addr).next ≠ 0 then setPrev m (block m e.addr).next g.addr else m) := by
          simp [mergeBackward, atPrev, merges, freeEq]
        have same : (mergeBackward s e.addr).heapStart = s.heapStart ∧
            (mergeBackward s e.addr).heapCurrentEnd = s.heapCurrentEnd := by
          simp [mergeBackward, atPrev, merges, freeEq]
        rw [same.1, same.2, stores]
        simpa using layout_absorb assoc absorbs
      · simp [mergeBackward, atPrev, merges, freeEq]
  · exact Or.inl ⟨by simp only [mergeBackward, merges, ↓reduceIte], merges⟩

/-- The condition in terms of the blocks: the free predecessor, the block
itself or the free successor carries the cursor. -/
theorem strandsCursor_of {rest : List Extent} {g : Extent}
    (healthy : Healthy s ((rest ++ [g]) ++ e :: back)) (free : g.free = true)
    (cursor : s.lastAlloc = g.addr ∨ s.lastAlloc = e.addr ∨
      ∃ f others, back = f :: others ∧ f.free = true ∧ s.lastAlloc = f.addr) :
    StrandsCursor s (e.addr + 20) := by
  have layout := healthy.1
  have bounded := layout.bounded
  have bounds := layout_bounds layout
  have pointer : sub32 (e.addr + 20) sizeofHeapBlock = e.addr := by
    rw [sub32_of_le (by unfold sizeofHeapBlock; omega) (by omega)]
    rfl
  obtain ⟨nextEq, prevEq⟩ := layout_split_links layout
  have atPrev : (block s.mem e.addr).prev = g.addr := by simpa [lastAddr] using prevEq
  have prevFree : (block s.mem g.addr).isFree = true :=
    (layout.headers g (by simp)).2.2.trans free
  have nonnull := addr_pos layout (e := g) (by simp)
  simp only [StrandsCursor, pointer, atPrev, prevFree, ne_eq, nonnull, not_false_eq_true, and_self, true_and]
  rcases cursor with onPrev | onBlock | ⟨f, others, rfl, freeNext, onNext⟩
  · exact Or.inl onPrev
  · exact Or.inr (Or.inl onBlock)
  · have atNext : (block s.mem e.addr).next = f.addr := nextEq
    have nextFree : (block s.mem f.addr).isFree = true :=
      (layout.headers f (by simp)).2.2.trans freeNext
    rw [atNext]
    exact Or.inr (Or.inr ⟨⟨addr_pos layout (by simp), nextFree⟩, onNext⟩)

/-- The forward merge keeps the cursor on the list, and puts it on the block
only when it was there or on the successor. -/
theorem mergeForward_cursor (healthy : Healthy s (front ++ e :: back))
    (on : CursorOn s (front ++ e :: back)) :
    ∃ size rest, Healthy (mergeForward s e.addr) (front ++ ⟨e.addr, size, e.free⟩ :: rest) ∧
      CursorOn (mergeForward s e.addr) (front ++ ⟨e.addr, size, e.free⟩ :: rest) ∧
      (∀ f ∈ back, f.free = false → f ∈ rest) ∧
      ((mergeForward s e.addr).lastAlloc = s.lastAlloc ∨
        ∃ f others, back = f :: others ∧ f.free = true ∧ s.lastAlloc = f.addr) := by
  rcases mergeForward_healthy healthy with ⟨same, -⟩ | ⟨f, rest, rfl, free, -, -, healthy', cursor⟩
  · rw [same]
    exact ⟨e.size, back, healthy, on, fun f member _ => member, Or.inl rfl⟩
  · refine ⟨_, rest, healthy', ?_, ?_, ?_⟩
    · obtain ⟨c, member, atCursor⟩ := on
      by_cases swallowed : s.lastAlloc = f.addr
      · exact ⟨_, List.mem_append_right _ List.mem_cons_self, by rw [cursor, if_pos swallowed]⟩
      · simp only [List.mem_append, List.mem_cons] at member
        rcases member with member | rfl | rfl | member
        · exact ⟨c, List.mem_append_left _ member, by rw [cursor, if_neg swallowed, atCursor]⟩
        · exact ⟨_, List.mem_append_right _ List.mem_cons_self,
            by rw [cursor, if_neg swallowed, ← atCursor]⟩
        · exact absurd atCursor.symm swallowed
        · exact ⟨c, by simp [member], by rw [cursor, if_neg swallowed, atCursor]⟩
    · intro g member used
      rcases List.mem_cons.mp member with rfl | member
      · rw [free] at used
        cases used
      · exact member
    · by_cases swallowed : s.lastAlloc = f.addr
      · exact Or.inr ⟨f, rest, rfl, free, swallowed⟩
      · exact Or.inl (by rw [cursor, if_neg swallowed])

/-- Freeing a block in use keeps the heap healthy and every other block in
use where it is. The cursor stays on the list unless the call strands it. -/
theorem memFree_healthy (healthy : Healthy s (front ++ e :: back))
    (on : CursorOn s (front ++ e :: back)) (used : e.free = false) :
    ∃ after, Healthy (memFree s (e.addr + 20)) after ∧
      (∀ f ∈ front ++ back, f.free = false → f ∈ after) ∧
      (¬ StrandsCursor s (e.addr + 20) → CursorOn (memFree s (e.addr + 20)) after) := by
  have layout := healthy.1
  have bounded := layout.bounded
  have bounds := layout_bounds layout
  obtain ⟨magic, sizeEq, freeEq⟩ := layout_header layout
  have pointer : sub32 (e.addr + 20) sizeofHeapBlock = e.addr := by
    rw [sub32_of_le (by unfold sizeofHeapBlock; omega) (by omega)]
    rfl
  have freed : memFree s (e.addr + 20) =
      mergeBackward (mergeForward { s with mem := setIsFree s.mem e.addr true } e.addr) e.addr := by
    simp [memFree, pointer, magic, freeEq, used]
  -- the state after the mark, before any merge
  generalize markedEq : ({ s with mem := setIsFree s.mem e.addr true } : HeapState) = marked at freed
  have cursorEq : marked.lastAlloc = s.lastAlloc := by rw [← markedEq]
  have healthyMarked : Healthy marked (front ++ ⟨e.addr, e.size, true⟩ :: back) := by
    rw [← markedEq]
    exact ⟨by simpa using layout_mark layout true, by simp⟩
  have onMarked : CursorOn marked (front ++ ⟨e.addr, e.size, true⟩ :: back) := by
    obtain ⟨c, member, atCursor⟩ := on
    rw [CursorOn, cursorEq]
    simp only [List.mem_append, List.mem_cons] at member ⊢
    rcases member with member | rfl | member
    · exact ⟨c, Or.inl member, atCursor⟩
    · exact ⟨_, Or.inr (Or.inl rfl), atCursor⟩
    · exact ⟨c, Or.inr (Or.inr member), atCursor⟩
  obtain ⟨size, rest, healthyForward, onForward, keeps, moved⟩ :=
    mergeForward_cursor healthyMarked onMarked
  rw [freed]
  rcases mergeBackward_healthy healthyForward with
    ⟨same, -⟩ | ⟨rest', g, rfl, freeG, -, -, -, healthyBackward, cursor⟩
  · rw [same]
    refine ⟨_, healthyForward, ?_, fun _ => onForward⟩
    intro f member usedF
    rcases List.mem_append.mp member with member | member
    · exact List.mem_append_left _ member
    · exact List.mem_append_right _ (List.mem_cons_of_mem _ (keeps f member usedF))
  · refine ⟨_, healthyBackward, ?_, ?_⟩
    · intro f member usedF
      simp only [List.mem_append, List.mem_singleton] at member
      rcases member with (member | rfl) | member
      · exact List.mem_append_left _ member
      · rw [freeG] at usedF
        cases usedF
      · exact List.mem_append_right _ (List.mem_cons_of_mem _ (keeps f member usedF))
    · intro safe
      have spared := fun cursor => safe (strandsCursor_of healthy freeG cursor)
      -- no merge moved the cursor, and it was on neither merged block
      have stays : (mergeForward marked e.addr).lastAlloc = s.lastAlloc := by
        rcases moved with stays | onNext
        · rw [stays, cursorEq]
        · rw [cursorEq] at onNext
          exact absurd (Or.inr (Or.inr onNext)) spared
      rw [stays] at cursor
      rw [CursorOn, stays] at onForward
      obtain ⟨c, member, atCursor⟩ := onForward
      have notPrev : s.lastAlloc ≠ g.addr := fun onPrev => spared (Or.inl onPrev)
      rw [if_neg notPrev] at cursor
      rw [CursorOn, cursor]
      simp only [List.mem_append, List.mem_cons, List.not_mem_nil, or_false] at member ⊢
      rcases member with (member | rfl) | rfl | member
      · exact ⟨c, Or.inl member, atCursor⟩
      · exact absurd atCursor.symm notPrev
      · exact absurd (Or.inr (Or.inl atCursor.symm)) spared
      · exact ⟨c, Or.inr (Or.inr member), atCursor⟩

end Merges

end MeowMeowOS.HeapOperations

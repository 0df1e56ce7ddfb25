import MeowMeowOS.UserHeapLayout

/-! What each call of the user allocator does to the list of blocks: the bytes
it leaves alone, the blocks in use it keeps, and the block it hands out. -/
namespace MeowMeowOS.UserHeapOperations
open ByteMemory Tiling BlockLists UserHeap UserHeapLayout
open KernelHeap (add32 sub32 add32_of_lt sub32_of_le)

/-! ## Cutting and joining in memory -/

section
variable {m : Mem} {lo hi : Nat} {e f : Extent} {front back : List Extent}

theorem neighbours_room (layout : Layout m lo hi (front ++ e :: f :: back)) (adjacent : f.addr = e.addr + 20 + e.size) :
    e.addr + 20 ≤ f.addr ∧ e.addr + 20 + (block m e.addr).size + 20 + (block m f.addr).size < 2 ^ 32 ∧
      ((block m f.addr).next = 0 ∨ f.addr + 20 ≤ (block m f.addr).next) := by
  have assoc : Layout m lo hi ((front ++ [e]) ++ f :: back) := by simpa using layout
  have bounds := layout_bounds layout (e := f) (by simp)
  have bounded := layout.bounded
  have sizeE : (block m e.addr).size = e.size := by rw [layout_at layout]; rfl
  have sizeF : (block m f.addr).size = f.size := by rw [layout_at assoc]; rfl
  have nextF : (block m f.addr).next = headAddr 0 back := by rw [layout_at assoc]; rfl
  have beyond := headAddr_beyond assoc
  rw [nextF]
  omega

theorem layout_merged (layout : Layout m lo hi (front ++ e :: f :: back)) (adjacent : f.addr = e.addr + 20 + e.size) :
    Edited m (merged m e.addr f.addr) lo hi (front ++ [e, f] ++ back)
      (front ++ [⟨e.addr, e.size + (20 + f.size), e.free⟩] ++ back) := by
  obtain ⟨apart, bound, beyond⟩ := neighbours_room layout adjacent
  exact layout_absorb layout adjacent (merged_absorbs apart bound beyond)

theorem layout_extended (layout : Layout m lo hi (front ++ e :: f :: back)) (adjacent : f.addr = e.addr + 20 + e.size) :
    Edited m (extended m e.addr f.addr) lo hi (front ++ [e, f] ++ back)
      (front ++ [⟨e.addr, e.size + (20 + f.size), e.free⟩] ++ back) := by
  obtain ⟨apart, bound, beyond⟩ := neighbours_room layout adjacent
  exact layout_absorb layout adjacent (extended_absorbs apart bound beyond)

theorem layout_cut (layout : Layout m lo hi (front ++ e :: back)) (small : formed + 28 < 2 ^ 32) :
    Edited m (splitLeftover m e.addr formed) lo hi (front ++ e :: back) (front ++ cut 20 8 formed e ++ back) := by
  have at' := layout_at layout
  have bounds := layout_bounds layout (e := e) (by simp)
  have bounded := layout.bounded
  have size : (block m e.addr).size = e.size := by rw [at']; rfl
  have next : (block m e.addr).next = headAddr 0 back := by rw [at']; rfl
  have least : add32 (add32 formed sizeofUserBlock) blockAlign = formed + 20 + 8 := by
    rw [add32_of_lt (a := formed) (by unfold sizeofUserBlock; omega),
      add32_of_lt (by unfold sizeofUserBlock blockAlign; omega)]
    rfl
  unfold splitLeftover cut
  rw [least, size]
  by_cases room : formed + 20 + 8 ≤ e.size
  · rw [if_pos room, if_pos room]
    refine layout_split layout (by omega) (splitBlock_splits m e.addr formed ?_ ?_ ?_)
    · omega
    · omega
    · rw [next, size]
      exact headAddr_beyond layout
  · rw [if_neg room, if_neg room, ← List.append_cons]
    exact ⟨layout, fun _ _ _ => rfl⟩

theorem coalesceForward_joins (layout : Layout m lo hi (front ++ e :: back))
    (adjacent : ∀ f ∈ back.head?, f.free = true → e.addr + 20 + e.size = f.addr) :
    ∃ e' back', Edited m (coalesceForward m e.addr) lo hi (front ++ e :: back) (front ++ e' :: back') ∧
      e'.addr = e.addr ∧ e'.free = e.free ∧ JoinedRight 20 e back e' back' := by
  have at' := layout_at layout
  have next : (block m e.addr).next = headAddr 0 back := by rw [at']; rfl
  cases back with
  | nil =>
    have same : coalesceForward m e.addr = m := by
      unfold coalesceForward
      simp [next, headAddr]
    rw [same]
    exact ⟨e, [], ⟨layout, fun _ _ _ => rfl⟩, rfl, rfl, Or.inl ⟨rfl, rfl, by simp⟩⟩
  | cons f rest =>
    have assoc : Layout m lo hi ((front ++ [e]) ++ f :: rest) := by simpa using layout
    have atF := layout_at assoc
    have next : (block m e.addr).next = f.addr := next
    cases free : f.free with
    | false =>
      have same : coalesceForward m e.addr = m := by
        unfold coalesceForward
        simp [next, atF, record, free]
      rw [same]
      exact ⟨e, f :: rest, ⟨layout, fun _ _ _ => rfl⟩, rfl, rfl, Or.inl ⟨rfl, rfl, by simp [free]⟩⟩
    | true =>
      have adjacent := adjacent f rfl free
      have merges : coalesceForward m e.addr = merged m e.addr f.addr := by
        have positive := (layout_bounds layout (e := f) (by simp)).1
        exact coalesceForward_merged next (by omega) (by rw [atF]; simp [record, free]) (by rw [atF]; rfl)
          (Or.inl (by omega))
      rw [merges]
      refine ⟨⟨e.addr, e.size + (20 + f.size), e.free⟩, rest, ?_, rfl, rfl,
        Or.inr ⟨f, rfl, free, adjacent, ?_⟩⟩
      · simpa using layout_merged layout adjacent.symm
      · dsimp only
        omega

theorem coalesceBackward_joins (layout : Layout m lo hi (front ++ e :: back)) (freed : e.free = true)
    (adjacent : ∀ f ∈ front.getLast?, f.free = true → f.addr + 20 + f.size = e.addr) :
    ∃ front' e', Edited m (coalesceBackward m e.addr) lo hi (front ++ e :: back) (front' ++ e' :: back) ∧
      e'.addr + e'.size = e.addr + e.size ∧ e'.free = true ∧ JoinedLeft 20 front e front' e' := by
  have at' := layout_at layout
  have prev : (block m e.addr).prev = lastAddr 0 front := by rw [at']; rfl
  rcases List.eq_nil_or_concat' front with rfl | ⟨rest, f, rfl⟩
  · have same : coalesceBackward m e.addr = m := by
      unfold coalesceBackward
      simp [prev, lastAddr]
    rw [same]
    exact ⟨[], e, ⟨layout, fun _ _ _ => rfl⟩, rfl, freed, Or.inl ⟨rfl, rfl, by simp⟩⟩
  · have assoc : Layout m lo hi (rest ++ f :: e :: back) := by simpa using layout
    have atF := layout_at assoc
    have prev : (block m e.addr).prev = f.addr := by rw [prev, lastAddr_append]; rfl
    cases free : f.free with
    | false =>
      have same : coalesceBackward m e.addr = m := by
        unfold coalesceBackward
        simp [prev, atF, record, free]
      rw [same]
      exact ⟨rest ++ [f], e, ⟨layout, fun _ _ _ => rfl⟩, rfl, freed, Or.inl ⟨rfl, rfl, by simp [free]⟩⟩
    | true =>
      have adjacent := adjacent f (by simp) free
      have merges : coalesceBackward m e.addr = merged m f.addr e.addr := by
        have positive := (layout_bounds layout (e := f) (by simp)).1
        exact coalesceBackward_merged prev (by omega) (by rw [atF]; simp [record, free]) (by rw [atF]; rfl)
          (Or.inl (by omega))
      rw [merges]
      refine ⟨rest, ⟨f.addr, f.size + (20 + e.size), f.free⟩, ?_, ?_, free,
        Or.inr ⟨f, rfl, free, rfl, adjacent⟩⟩
      · simpa using layout_merged assoc adjacent.symm
      · dsimp only
        omega

end

/-- The list that starts at `heap_head` lies between `lo` and the break. -/
structure HeapOf (s : UserState) (lo : Nat) (extents : List Extent) : Prop where
  layout : Layout s.mem lo s.brk extents
  head : s.heapHead = headAddr 0 extents

/-! ## `free` -/

theorem pointer_block (layout : Layout m lo hi extents) (member : e ∈ extents) :
    sub32 (e.addr + 20) sizeofUserBlock = e.addr := by
  have bounds := layout_bounds layout member
  have bounded := layout.bounded
  rw [sub32_of_le (by unfold sizeofUserBlock; omega) (by omega)]
  rfl

theorem joined_head (joined : Joined 20 front back front' back' e e') :
    headAddr 0 (front' ++ e' :: back') = headAddr 0 (front ++ e :: back) := by
  rw [headAddr_append, headAddr_append]
  rcases joined.left with ⟨rfl, at', -⟩ | ⟨f, rfl, -, at', -⟩
  · exact congrArg (headAddr · front') at'
  · rw [headAddr_append]
    exact congrArg (headAddr · front') at'

theorem free_joins (heap : HeapOf s lo (front ++ e :: back)) (adjacent : FreeAdjacent 20 front e back) :
    ∃ front' e' back', HeapOf (free s (e.addr + 20)) lo (front' ++ e' :: back') ∧
      Joined 20 front back front' back' e e' ∧
      Edited s.mem (free s (e.addr + 20)).mem lo s.brk (front ++ e :: back) (front' ++ e' :: back') := by
  have layout := heap.layout
  have magic : (block s.mem e.addr).magic = blockMagic := by rw [layout_at layout]; rfl
  have freed : free s (e.addr + 20) =
      { s with mem := coalesceBackward (coalesceForward (setFree s.mem e.addr 1) e.addr) e.addr } := by
    unfold free
    simp [pointer_block layout (e := e) (by simp), magic]
  have marked : Edited s.mem (setFree s.mem e.addr 1) lo s.brk _ _ := layout_mark layout true
  obtain ⟨e2, back', forward, at2, free2, right⟩ := coalesceForward_joins marked.layout adjacent.right
  obtain ⟨front', e3, backward, ends, free3, left⟩ := coalesceBackward_joins forward.layout free2
    (by rw [at2]; exact adjacent.left)
  have joined : Joined 20 front back front' back' e e3 := by
    refine ⟨free3, ?_, ?_⟩
    · simpa only [JoinedLeft, at2] using left
    · simpa only [JoinedRight, ends] using right
  have remains : ∀ f ∈ back', f ∈ back := by
    rcases right with ⟨rfl, -, -⟩ | ⟨g, rfl, -, -, -⟩
    · exact fun f member => member
    · exact fun f member => List.mem_cons_of_mem _ member
  have passing : ∀ f ∈ front ++ e2 :: back', ∃ g ∈ front ++ ⟨e.addr, e.size, true⟩ :: back,
    g.addr = f.addr := by
    intro f member
    rcases List.mem_append.mp member with member | member
    · exact ⟨f, by simp [member], rfl⟩
    · rcases List.mem_cons.mp member with rfl | member
      · exact ⟨⟨e.addr, e.size, true⟩, by simp, at2.symm⟩
      · exact ⟨f, by simp [remains f member], rfl⟩
  have renamed : ∀ f ∈ front ++ ⟨e.addr, e.size, true⟩ :: back, ∃ g ∈ front ++ e :: back,
    g.addr = f.addr := by
    intro f member
    rcases List.mem_append.mp member with member | member
    · exact ⟨f, by simp [member], rfl⟩
    · rcases List.mem_cons.mp member with rfl | member
      · exact ⟨e, by simp, rfl⟩
      · exact ⟨f, by simp [member], rfl⟩
  rw [at2] at backward
  have second := edited_trans forward backward fun f member => by
    obtain ⟨g, listed, same⟩ := passing f member
    exact ⟨g, List.mem_append_left _ listed, same⟩
  have whole := edited_trans marked second fun f member => by
    obtain ⟨g, listed, same⟩ := renamed f member
    exact ⟨g, List.mem_append_left _ listed, same⟩
  rw [freed]
  generalize coalesceBackward (coalesceForward (setFree s.mem e.addr 1) e.addr) e.addr = m' at whole
  exact ⟨front', e3, back', ⟨whole.layout, heap.head.trans (joined_head joined).symm⟩, joined, whole⟩

/-! ## Walks along the list -/

theorem searchFree_cons (at' : block m e.addr = record e next prev) (positive : 0 < e.addr) :
    searchFree m n (fuel + 1) e.addr =
      if e.free = true ∧ n ≤ e.size then some (.found e.addr) else searchFree m n fuel next := by
  have some : e.addr ≠ 0 := Nat.ne_of_gt positive
  have bit : ((if e.free = true then 1 else 0) ≠ 0) ↔ e.free = true := by cases e.free <;> decide
  rw [searchFree, if_neg some, at']
  simp only [record, ne_eq, not_true_eq_false, if_false] at bit ⊢
  simp only [bit]

theorem searchFree_listed (recorded : Recorded record (block m) before 0 extents)
    (positive : ∀ e ∈ extents, 0 < e.addr)
    (ran : searchFree m n fuel (headAddr 0 extents) = some outcome) :
    (outcome = .exhausted ∧ ∀ e ∈ extents, ¬ (e.free = true ∧ n ≤ e.size)) ∨
      ∃ front e back, extents = front ++ e :: back ∧ e.free = true ∧ n ≤ e.size ∧
      outcome = .found e.addr := by
  induction extents generalizing before fuel with
  | nil =>
    cases fuel with
    | zero => contradiction
    | succ fuel => exact Or.inl ⟨(Option.some.inj ran).symm, nofun⟩
  | cons e rest ih =>
    cases fuel with
    | zero => contradiction
    | succ fuel =>
      have start : headAddr 0 (e :: rest) = e.addr := rfl
      rw [start, searchFree_cons recorded.1 (positive e List.mem_cons_self)] at ran
      split at ran
      · rename_i fits
        exact Or.inr ⟨[], e, rest, rfl, fits.1, fits.2, (Option.some.inj ran).symm⟩
      · rename_i missed
        rcases ih recorded.2 (fun f member => positive f (List.mem_cons_of_mem _ member)) ran with
          ⟨done, misses⟩ | ⟨front, f, back, rfl, free, fits, found⟩
        · exact Or.inl ⟨done, List.forall_mem_cons.mpr ⟨missed, misses⟩⟩
        · exact Or.inr ⟨e :: front, f, back, rfl, free, fits, found⟩

theorem searchFree_total (recorded : Recorded record (block m) before 0 extents)
    (positive : ∀ e ∈ extents, 0 < e.addr)
    (enough : extents.length < fuel) : ∃ outcome, searchFree m n fuel (headAddr 0 extents) = some outcome := by
  induction extents generalizing before fuel with
  | nil =>
    obtain ⟨fuel, rfl⟩ := Nat.exists_eq_add_one_of_ne_zero (Nat.ne_of_gt enough)
    exact ⟨.exhausted, rfl⟩
  | cons e rest ih =>
    obtain ⟨fuel, rfl⟩ := Nat.exists_eq_add_one_of_ne_zero (Nat.ne_of_gt (Nat.zero_lt_of_lt enough))
    have start : headAddr 0 (e :: rest) = e.addr := rfl
    rw [start, searchFree_cons recorded.1 (positive e List.mem_cons_self)]
    split
    · exact ⟨_, rfl⟩
    · exact ih recorded.2 (fun f member => positive f (List.mem_cons_of_mem _ member)) (Nat.lt_of_succ_lt_succ enough)

theorem lastBlock_listed (recorded : Recorded record (block m) before 0 (e :: rest))
    (positive : ∀ f ∈ rest, 0 < f.addr) (ran : lastBlock m fuel e.addr = some tail) :
    tail = lastAddr e.addr rest := by
  induction rest generalizing before fuel e with
  | nil =>
    cases fuel with
    | zero => contradiction
    | succ fuel =>
      have at' := recorded.1
      simp only [lastBlock, at', record, headAddr, List.map_nil, List.headD_nil, ne_eq, not_true_eq_false,
        if_false] at ran
      exact (Option.some.inj ran).symm
  | cons f rest ih =>
    cases fuel with
    | zero => contradiction
    | succ fuel =>
      have some : f.addr ≠ 0 := Nat.ne_of_gt (positive f List.mem_cons_self)
      have at' := recorded.1
      simp only [lastBlock, at', record, headAddr, List.map_cons, List.headD_cons, ne_eq, some, not_false_eq_true,
        if_true] at ran
      rw [lastAddr_cons]
      exact ih recorded.2 (fun g member => positive g (List.mem_cons_of_mem _ member)) ran

theorem lastBlock_total (recorded : Recorded record (block m) before 0 (e :: rest))
    (positive : ∀ f ∈ rest, 0 < f.addr) (enough : rest.length < fuel) :
    ∃ tail, lastBlock m fuel e.addr = some tail := by
  induction rest generalizing before fuel e with
  | nil =>
    obtain ⟨fuel, rfl⟩ := Nat.exists_eq_add_one_of_ne_zero (Nat.ne_of_gt enough)
    have at' := recorded.1
    simp [lastBlock, at', record, headAddr]
  | cons f rest ih =>
    obtain ⟨fuel, rfl⟩ := Nat.exists_eq_add_one_of_ne_zero (Nat.ne_of_gt (Nat.zero_lt_of_lt enough))
    have some : f.addr ≠ 0 := Nat.ne_of_gt (positive f List.mem_cons_self)
    have at' := recorded.1
    simp only [lastBlock, at', record, headAddr, List.map_cons, List.headD_cons, ne_eq, some, not_false_eq_true,
      if_true]
    exact ih recorded.2 (fun g member => positive g (List.mem_cons_of_mem _ member)) (Nat.lt_of_succ_lt_succ enough)

/-! ## `malloc` -/

/-- What a call makes of the state and of its list of blocks. -/
structure Evolved (lo : Nat) (s t : UserState) (extents extents' : List Extent) : Prop where
  heap : HeapOf t lo extents'
  payloads : ∀ f ∈ extents, f ∈ extents' → f.free = false →
    AgreeOn s.mem t.mem (f.addr + 20) (f.addr + 20 + f.size)
  brk : s.brk ≤ t.brk
  covered : ∀ x, Covered 20 extents' x → Covered 20 extents x ∨ s.brk ≤ x
  tiles : Tiles 20 lo s.brk extents → Tiles 20 lo t.brk extents'
  pairs : NoFreePairs extents → NoFreePairs extents'

/-- Blocks in use are neither moved nor resized nor freed. -/
def Keeps (before after : List Extent) : Prop := ∀ e ∈ before, e.free = false → e ∈ after

/-- The block that serves a request, in use now and not before. -/
structure Serves (extents extents' : List Extent) (e : Extent) (p n : Nat) : Prop where
  listed : e ∈ extents'
  used : e.free = false
  pointer : p = e.addr + 20
  fits : n ≤ e.size
  fresh : ∀ f ∈ extents, f.free = false → f.addr ≠ e.addr

theorem keeps_around {e f : Extent} (member : f ∈ front ++ e :: back) (used : f.free = false) (free : e.free = true) :
    f ∈ front ++ back := by
  simp only [List.mem_append, List.mem_cons] at member ⊢
  rcases member with front | rfl | back
  · exact Or.inl front
  · rw [free] at used
    contradiction
  · exact Or.inr back

/-- A free block of the list is cut to size and taken. -/
theorem takeBlock_serves (heap : HeapOf s lo (front ++ e :: back)) (free : e.free = true) (fits : n ≤ e.size)
    (small : n + 28 < 2 ^ 32) :
    ∃ extents' f, Evolved lo s { s with mem := setFree (splitLeftover s.mem e.addr n) e.addr 0 }
        (front ++ e :: back) extents' ∧ Keeps (front ++ e :: back) extents' ∧
      Serves (front ++ e :: back) extents' f (add32 e.addr sizeofUserBlock) n := by
  have layout := heap.layout
  obtain ⟨size, rest, served, first⟩ := cut_first 20 8 e.addr fits
  have firstE : cut 20 8 n e = ⟨e.addr, size, e.free⟩ :: rest := first e.free
  have cuts := layout_cut layout small
  rw [firstE, List.append_assoc, List.cons_append] at cuts
  have marks := layout_mark cuts.layout false
  have shape : front ++ ⟨e.addr, size, false⟩ :: (rest ++ back) =
      front ++ cut 20 8 n ⟨e.addr, e.size, false⟩ ++ back := by
    rw [first false, List.append_assoc, List.cons_append]
  have whole := edited_trans cuts marks fun f member => by
    refine ⟨if f = ⟨e.addr, size, e.free⟩ then ⟨e.addr, size, false⟩ else f, List.mem_append_right _ ?_, ?_⟩
    · simp only [List.mem_append, List.mem_cons] at member ⊢
      split
      · exact Or.inr (Or.inl rfl)
      · rename_i other
        exact member.imp_right (Or.imp_left fun same => absurd same other)
    · split
      · rename_i same
        rw [same]
      · rfl
  have bounds := layout_bounds layout (e := e) (by simp)
  have bounded := layout.bounded
  refine ⟨_, ⟨e.addr, size, false⟩, ⟨⟨whole.layout, ?_⟩,
    fun f before after _ => edited_payload layout whole before after, Nat.le_refl _, ?_, ?_, ?_⟩, ?_,
    ⟨by simp, rfl, ?_, served, ?_⟩⟩
  · rw [headAddr_append]
    exact heap.head.trans (headAddr_append _ _)
  · intro x covered
    rw [shape] at covered
    obtain ⟨f, member, lower, upper⟩ := covered_cut covered
    simp only [List.mem_append, List.mem_cons] at member
    rcases member with member | rfl | member
    · exact Or.inl ⟨f, by simp [member], lower, upper⟩
    · exact Or.inl ⟨e, by simp, lower, upper⟩
    · exact Or.inl ⟨f, by simp [member], lower, upper⟩
  · intro tiles
    rw [shape]
    exact tiles_cut (tiles_mark false tiles)
  · intro pairs
    rw [shape]
    obtain ⟨left, right, -, behind⟩ := noFreePairs_around.mp pairs
    exact noFreePairs_cut left right rfl (behind free)
  · intro f member used
    have around := keeps_around member used free
    simp only [List.mem_append, List.mem_cons] at around ⊢
    exact around.imp_right fun member => Or.inr (Or.inr member)
  · rw [add32_of_lt (by unfold sizeofUserBlock; omega)]
    rfl
  · intro f member used
    have around := layout_around layout (keeps_around member used free)
    dsimp only
    omega

theorem newBlock_block (m : Mem) (a size : Nat) (small : 20 + size < 2 ^ 32) :
    block (newBlock m a (20 + size)) a = ⟨blockMagic, size, 0, 0, 0⟩ := by
  have rest : sub32 (20 + size) sizeofUserBlock = size := by
    rw [sub32_of_le (by unfold sizeofUserBlock; omega) (by omega)]
    exact Nat.add_sub_cancel_left 20 size
  have magic : blockMagic % 2 ^ 32 = blockMagic := by decide
  have length : size % 2 ^ 32 = size := Nat.mod_eq_of_lt (by omega)
  simp only [newBlock, rest, block_setPrev, block_setNext, block_setFree, block_setSize, block_setMagic, magic, length,
    Nat.zero_mod]

theorem newBlock_touches (m : Mem) (a chunk : Nat) : Touches m (newBlock m a chunk) [a] := by
  have here : a ∈ [a] := List.mem_singleton_self a
  exact touches_setPrev here (touches_setNext here (touches_setFree here (touches_setSize here
    (touches_setMagic here touches_refl))))

theorem newBlock_recorded (layout : Layout m lo hi extents) (chunk : Nat) :
    Recorded record (block (newBlock m hi chunk)) 0 0 extents := by
  refine recorded_congr (fun e member => touches_block (newBlock_touches m hi chunk) fun h touched =>
    ?_) layout.recorded
  have bounds := layout_bounds layout member
  rw [List.mem_singleton.mp touched]
  omega

/-- A new chunk at the break becomes the last block of the list. -/
theorem linkLast_appends (size : Nat) (heap : HeapOf s lo extents) (bounded : s.brk + 20 + size < 2 ^ 32)
    (linked : linkLast fuel ⟨newBlock s.mem s.brk (20 + size), s.heapHead, s.errno, s.brk + 20 + size,
    s.heapStart⟩ s.brk = some t) :
    HeapOf t lo (extents ++ [⟨s.brk, size, false⟩]) ∧ t.brk = s.brk + 20 + size ∧
      Edited s.mem t.mem lo t.brk extents (extents ++ [⟨s.brk, size, false⟩]) := by
  have layout := heap.layout
  have header := newBlock_block s.mem s.brk size (by omega)
  have touched := newBlock_touches s.mem s.brk (20 + size)
  have head := heap.head
  unfold linkLast at linked
  cases extents with
  | nil =>
    have start : s.heapHead = 0 := head
    dsimp only at linked
    rw [if_pos start] at linked
    obtain rfl := Option.some.inj linked
    have edited := layout_append (newBlock s.mem s.brk (20 + size)) layout bounded
      (fun x outside => touched x fun a member => outside a (by simp [List.mem_singleton.mp member]))
      header (by simp)
    exact ⟨⟨edited.layout, rfl⟩, rfl, edited⟩
  | cons e rest =>
    have start : s.heapHead = e.addr := head
    have some : e.addr ≠ 0 := Nat.ne_of_gt (layout_bounds layout (e := e) (by simp)).1
    dsimp only at linked
    rw [if_neg (by rw [start]; exact some), start] at linked
    cases found : lastBlock (newBlock s.mem s.brk (20 + size)) fuel e.addr with
    | none =>
      rw [found] at linked
      contradiction
    | some tail =>
      rw [found] at linked
      obtain rfl := Option.some.inj linked
      have last := lastBlock_listed (newBlock_recorded layout (20 + size))
        (fun f member => (layout_bounds layout (List.mem_cons_of_mem _ member)).1) found
      have tailLast : ∀ before, lastAddr before (e :: rest) = tail := fun before => by rw [lastAddr_cons, last]
      obtain ⟨front, l, shape⟩ : ∃ front l, e :: rest = front ++ [l] :=
        (List.eq_nil_or_concat' (e :: rest)).resolve_left (by simp)
      have atTail : l.addr = tail := by rw [← tailLast 0, shape, lastAddr_append]; rfl
      have bounds := layout_bounds layout (e := l) (by rw [shape]; simp)
      have small : s.brk < 2 ^ 32 := by omega
      have smallTail : tail < 2 ^ 32 := by omega
      have apart : Apart s.brk tail := Or.inr (by omega)
      have apart' : Apart tail s.brk := Or.inl (by omega)
      have here : s.brk ∈ [s.brk, tail] := by simp
      have there : tail ∈ [s.brk, tail] := by simp
      have edited := layout_append (setPrev (setNext (newBlock s.mem s.brk (20 + size)) tail s.brk) s.brk tail)
        layout bounded ?_ ?_ ?_
      · exact ⟨⟨edited.layout, rfl⟩, rfl, edited⟩
      · rw [tailLast]
        refine touches_setPrev here (touches_setNext there fun x outside => touched x fun a member => ?_)
        exact outside a (by simp [List.mem_singleton.mp member])
      · rw [block_setPrev, (block_store_apart apart' _).2.2.2.1, header, tailLast, Nat.mod_eq_of_lt smallTail]
        rfl
      · intro front' l' shape'
        obtain ⟨-, same⟩ := List.append_inj' (shape.symm.trans shape') rfl
        obtain rfl := List.singleton_inj.mp same
        rw [atTail, (block_store_apart apart _).2.2.2.2, block_setNext, Nat.mod_eq_of_lt small,
          touches_block touched (by simpa using apart)]

theorem sbrk_cases (s : UserState) (small : k < 2 ^ 31) (granted : Bool) :
    sbrk s k granted = (failed, { s with errno := enomem }) ∨
      sbrk s k granted = (s.brk, { s with brk := s.brk + k }) ∧ s.brk + k < 0xB0000000 := by
  unfold sbrk sysSbrk
  rw [if_neg (Nat.not_le.mpr small)]
  by_cases able : granted = true ∧ s.brk + k < 0xB0000000
  · have small : s.brk ≠ failed := by
      unfold failed
      omega
    rw [if_pos able]
    exact Or.inr ⟨if_neg small, able.2⟩
  · rw [if_neg able]
    exact Or.inl (if_pos rfl)

/-- Whatever the increment, `sbrk` fails or returns the old break. -/
theorem sbrk_shape (s : UserState) (k : Nat) (granted : Bool) : (sbrk s k granted).1 = failed ∨
    ∃ b, sbrk s k granted = (s.brk, { s with brk := b }) := by
  unfold sbrk sysSbrk
  dsimp only
  split_ifs
  all_goals first
    | exact Or.inl rfl
    | exact Or.inr ⟨_, rfl⟩

/-- A refused request changes nothing but `errno`. -/
structure Refused (s t : UserState) (p : Nat) : Prop where
  null : p = 0
  mem : t.mem = s.mem
  head : t.heapHead = s.heapHead
  brk : t.brk = s.brk

theorem growHeap_serves (heap : HeapOf s lo extents) (small : n + 20 < 2 ^ 31)
    (ran : growHeap fuel s n granted = some (p, t)) :
    Refused s t p ∨ ∃ extents' e, Evolved lo s t extents extents' ∧ Keeps extents extents' ∧
      Serves extents extents' e p n := by
  have layout := heap.layout
  have order := spread_le layout.spread
  have positive := layout.positive
  have total : add32 sizeofUserBlock n = 20 + n := add32_of_lt (by unfold sizeofUserBlock; omega)
  obtain ⟨size, chunk, fits, positiveChunk⟩ :
      ∃ size, (if 20 + n < 4096 then 4096 else 20 + n) = 20 + size ∧ n ≤ size ∧ 20 + size < 2 ^ 31 := by
    split
    · exact ⟨4076, rfl, by omega, by omega⟩
    · exact ⟨n, rfl, Nat.le_refl n, by omega⟩
  unfold growHeap at ran
  simp only [total, chunk] at ran
  rcases sbrk_cases s positiveChunk granted with refused | ⟨granted, room⟩
  · rw [refused] at ran
    simp only [true_or, if_true, Option.some.injEq, Prod.mk.injEq] at ran
    obtain ⟨rfl, rfl⟩ := ran
    exact Or.inl ⟨rfl, rfl, rfl, rfl⟩
  · have nonnull : ¬ (s.brk = failed ∨ s.brk = 0) := by
      unfold failed
      omega
    rw [granted] at ran
    simp only [if_neg nonnull, ← Nat.add_assoc] at ran
    cases linked : linkLast fuel ⟨newBlock s.mem s.brk (20 + size), s.heapHead, s.errno, s.brk + 20 + size,
      s.heapStart⟩ s.brk with
    | none =>
      rw [linked] at ran
      contradiction
    | some u =>
      rw [linked] at ran
      simp only [Option.some.injEq, Prod.mk.injEq] at ran
      obtain ⟨rfl, rfl⟩ := ran
      obtain ⟨grown, brk, edited⟩ := linkLast_appends size heap (by omega) linked
      obtain ⟨size', rest, served, first⟩ := cut_first 20 8 s.brk fits
      have cuts := layout_cut grown.layout (show n + 28 < 2 ^ 32 by omega)
      have whole := edited_trans edited cuts fun f member => by
        rcases List.mem_append.mp member with member | member
        · exact ⟨f, by simp [member], rfl⟩
        · refine ⟨⟨s.brk, size', false⟩, by simp [first], ?_⟩
          rw [List.mem_singleton.mp member]
      refine Or.inr ⟨_, ⟨s.brk, size', false⟩, ⟨⟨whole.layout, ?_⟩,
        fun f before after _ => edited_payload layout whole before after, ?_, ?_, ?_, ?_⟩, ?_, ?_⟩
      · rw [first, List.append_assoc, headAddr_append]
        exact grown.head.trans (headAddr_append _ _)
      · dsimp only
        omega
      · intro x covered
        obtain ⟨f, member, lower, upper⟩ := covered_cut covered
        rcases List.mem_append.mp member with member | member
        · exact Or.inl ⟨f, member, lower, upper⟩
        · rw [List.mem_singleton.mp member] at lower
          exact Or.inr lower
      · intro tiles
        refine tiles_cut ((tiles_append _ _).mpr ⟨s.brk, tiles, rfl, ?_⟩)
        exact brk.symm
      · intro pairs
        exact noFreePairs_cut pairs List.IsChain.nil rfl (by simp)
      · intro f member used
        simp [member]
      · refine ⟨by simp [first], rfl, ?_, served, ?_⟩
        · rw [add32_of_lt (by unfold sizeofUserBlock; omega)]
          rfl
        · intro f member used
          have bounds := layout_bounds layout member
          dsimp only
          omega

/-- The largest request of which no sum wraps. -/
def maxRequest : Nat := 0x7FFF0000

theorem alignUp_bounds (small : n ≤ maxRequest) : n ≤ alignUp n ∧ alignUp n ≤ maxRequest := by
  have sum : add32 n (blockAlign - 1) = n + 7 := by
    unfold maxRequest at small
    exact add32_of_lt (by unfold blockAlign; omega)
  unfold alignUp
  rw [sum]
  unfold blockAlign maxRequest at *
  omega

/-- A request whose sums do not wrap, and that is found a block or asks the kernel
for a positive increment. -/
structure Plain (extents : List Extent) (n : Nat) : Prop where
  covers : n ≤ alignUp n
  room : alignUp n + 28 < 2 ^ 32
  answered : alignUp n + 20 < 2 ^ 31 ∨ ∃ e ∈ extents, e.free = true ∧ alignUp n ≤ e.size

theorem plain_small (small : n ≤ maxRequest) (extents : List Extent) : Plain extents n := by
  obtain ⟨covers, bound⟩ := alignUp_bounds small
  unfold maxRequest at bound
  exact ⟨covers, by omega, Or.inl (by omega)⟩

theorem malloc_plain (heap : HeapOf s lo extents) (plain : Plain extents n)
    (ran : malloc fuel s n granted = some (p, t)) :
    Refused s t p ∨ ∃ extents' e, Evolved lo s t extents extents' ∧ Keeps extents extents' ∧
      Serves extents extents' e p n := by
  have layout := heap.layout
  have weaken : ∀ {extents' e}, Serves extents extents' e p (alignUp n) → Serves extents extents' e p n :=
    fun serves => ⟨serves.listed, serves.used, serves.pointer, Nat.le_trans plain.covers serves.fits, serves.fresh⟩
  unfold malloc at ran
  split at ran
  · obtain ⟨rfl, rfl⟩ := Prod.mk.inj (Option.some.inj ran)
    exact Or.inl ⟨rfl, rfl, rfl, rfl⟩
  · cases found : searchFree s.mem (alignUp n) fuel s.heapHead with
    | none =>
      rw [found] at ran
      contradiction
    | some outcome =>
      rw [found] at ran
      rw [heap.head] at found
      rcases searchFree_listed layout.recorded (fun e member => (layout_bounds layout member).1) found with
        ⟨rfl, misses⟩ | ⟨front, e, back, rfl, free, fits, rfl⟩
      · have increment := plain.answered.resolve_right fun ⟨e, member, fit⟩ => misses e member fit
        exact (growHeap_serves heap increment ran).imp_right fun ⟨extents', e, evolved, keeps, serves⟩ =>
          ⟨extents', e, evolved, keeps, weaken serves⟩
      · obtain ⟨rfl, rfl⟩ := Prod.mk.inj (Option.some.inj ran)
        obtain ⟨extents', f, evolved, keeps, serves⟩ := takeBlock_serves heap free fits plain.room
        exact Or.inr ⟨extents', f, evolved, keeps, weaken serves⟩

theorem malloc_serves (heap : HeapOf s lo extents) (small : n ≤ maxRequest)
    (ran : malloc fuel s n granted = some (p, t)) :
    Refused s t p ∨ ∃ extents' e, Evolved lo s t extents extents' ∧ Keeps extents extents' ∧
      Serves extents extents' e p n := malloc_plain heap (plain_small small extents) ran

theorem malloc_total (heap : HeapOf s lo extents) (enough : extents.length < fuel) (n : Nat) (granted : Bool) :
    ∃ p t, malloc fuel s n granted = some (p, t) := by
  have layout := heap.layout
  have positive : ∀ e ∈ extents, 0 < e.addr := fun e member => (layout_bounds layout member).1
  obtain ⟨outcome, found⟩ := searchFree_total (n := alignUp n) layout.recorded positive enough
  unfold malloc
  rw [heap.head, found]
  split
  · exact ⟨_, _, rfl⟩
  · cases outcome with
    | corrupted => exact ⟨_, _, rfl⟩
    | found curr => exact ⟨_, _, rfl⟩
    | exhausted =>
      unfold growHeap
      dsimp only
      generalize (if add32 sizeofUserBlock (alignUp n) < 4096 then 4096 else add32 sizeofUserBlock (alignUp n)) = chunk
      rcases sbrk_shape s chunk granted with refused | ⟨b, granted⟩
      · simp [refused]
      · rw [granted]
        dsimp only
        split
        · exact ⟨_, _, rfl⟩
        · unfold linkLast
          dsimp only
          rw [heap.head]
          cases extents with
          | nil => simp [headAddr]
          | cons e rest =>
            have start : headAddr 0 (e :: rest) = e.addr := rfl
            obtain ⟨tail, last⟩ := lastBlock_total (newBlock_recorded layout chunk)
              (fun f member => positive f (List.mem_cons_of_mem _ member)) (Nat.lt_of_succ_lt enough)
            have some : e.addr ≠ 0 := Nat.ne_of_gt (positive e List.mem_cons_self)
            rw [start, if_neg some, last]
            exact ⟨_, _, rfl⟩

end MeowMeowOS.UserHeapOperations

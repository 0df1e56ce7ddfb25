import MeowMeowOS.UserHeapOperations

/-! `free`, `calloc` and `realloc` as moves of a heap that evolves: the blocks
in use that a call was not made for stay where they are, with their bytes. -/
namespace MeowMeowOS.UserHeapCalls
open ByteMemory Tiling BlockLists UserHeap UserHeapLayout UserHeapOperations
open KernelHeap (add32 sub32 add32_of_lt sub32_of_le)

section
variable {lo : Nat} {s t u : UserState} {e f : Extent} {front back extents extents' extents'' : List Extent}

theorem evolved_refl (heap : HeapOf s lo extents) : Evolved lo s s extents extents :=
  ⟨heap, fun _ _ _ _ _ _ _ => rfl, Nat.le_refl _, fun _ => Or.inl, id, id⟩

theorem evolved_trans (first : Evolved lo s t extents extents') (second : Evolved lo t u extents' extents'')
    (between : ∀ f ∈ extents, f ∈ extents'' → f.free = false → f ∈ extents') :
    Evolved lo s u extents extents'' where
  heap := second.heap
  payloads := by
    intro f before after used x lower upper
    have listed := between f before after used
    exact (second.payloads f listed after used x lower upper).trans (first.payloads f before listed used x lower upper)
  brk := Nat.le_trans first.brk second.brk
  covered := by
    intro x covered
    rcases second.covered x covered with covered | beyond
    · exact first.covered x covered
    · exact Or.inr (Nat.le_trans first.brk beyond)
  tiles tiles := second.tiles (first.tiles tiles)
  pairs pairs := second.pairs (first.pairs pairs)

/-- Stores into the payload of a block leave the list as it is. -/
theorem heap_store (heap : HeapOf s lo extents) (member : e ∈ extents)
    (inside : ∀ x, x < e.addr + 20 ∨ e.addr + 20 + e.size ≤ x → m x = s.mem x) :
    HeapOf { s with mem := m } lo extents where
  layout := by
    refine layout_congr heap.layout fun f listed => block_congr _ _ fun x lower upper => inside x ?_
    by_cases same : e = f
    · subst same
      exact Or.inl upper
    · have apart := spread_apart_of_ne heap.layout.spread member listed same
      omega
  head := heap.head

/-- A block that was not in use before may be written by the call that hands it
out. -/
theorem evolved_store (evolved : Evolved lo s t extents extents') (serves : Serves extents extents' e p n)
    (inside : ∀ x, x < p ∨ p + n ≤ x → m x = t.mem x) : Evolved lo s { t with mem := m } extents extents' where
  heap := heap_store evolved.heap serves.listed fun x outside => inside x (by
    have pointer := serves.pointer
    have fits := serves.fits
    omega)
  payloads := by
    intro f before after used x lower upper
    have different : f ≠ e := fun same => serves.fresh f before used (congrArg Extent.addr same)
    have apart := spread_apart_of_ne evolved.heap.layout.spread after serves.listed different
    have pointer := serves.pointer
    have fits := serves.fits
    exact (inside x (by omega)).trans (evolved.payloads f before after used x lower upper)
  brk := evolved.brk
  covered := evolved.covered
  tiles := evolved.tiles
  pairs := evolved.pairs

theorem serves_nonnull (serves : Serves extents extents' e p n) : p ≠ 0 := by
  have pointer := serves.pointer
  omega

/-! ## `free` -/

theorem free_brk (s : UserState) (p : Nat) : (free s p).brk = s.brk := by
  by_cases null : p = 0
  · simp only [free, if_pos null]
  · by_cases magic : (block s.mem (sub32 p sizeofUserBlock)).magic ≠ blockMagic
    · simp only [free, if_neg null, if_pos magic]
    · simp only [free, if_neg null, if_neg magic]

/-- The other blocks in use survive a free whose free neighbours on the list
are neighbours in memory. -/
theorem free_evolves (heap : HeapOf s lo (front ++ e :: back)) (adjacent : FreeAdjacent 20 front e back) :
    ∃ extents', Evolved lo s (free s (e.addr + 20)) (front ++ e :: back) extents' ∧
    Keeps (front ++ back) extents' := by
  obtain ⟨front', e', back', freed, joined, edited⟩ := free_joins heap adjacent
  refine ⟨_, ⟨freed, fun f before after _ => edited_payload heap.layout edited before after, ?_, ?_, ?_, ?_⟩,
    ?_⟩
  · rw [free_brk]
  · exact fun x covered => Or.inl (covered_joined joined covered)
  · rw [free_brk]
    exact fun tiles => tiles_joined tiles joined
  · exact fun pairs => noFreePairs_joined pairs joined
  · exact fun f member used => joined_keeps joined used member

/-! ## `calloc` -/

theorem calloc_serves (heap : HeapOf s lo extents) (small : count * size ≤ maxRequest ∨ 2 ^ 32 ≤ count * size)
    (ran : calloc fuel s count size granted = some (p, t)) :
    Refused s t p ∨ ∃ extents' e, Evolved lo s t extents extents' ∧ Keeps extents extents' ∧
      Serves extents extents' e p (count * size) := by
  unfold calloc at ran
  split at ran
  · obtain ⟨rfl, rfl⟩ := Prod.mk.inj (Option.some.inj ran)
    exact Or.inl ⟨rfl, rfl, rfl, rfl⟩
  · rename_i admitted
    have inRange : count * size < 2 ^ 32 := by
      by_cases empty : size = 0
      · rw [empty, Nat.mul_zero]
        exact Nat.two_pow_pos 32
      · have bound : count ≤ 0xFFFFFFFF / size := by
          simpa [empty] using admitted
        have := (Nat.le_div_iff_mul_le (Nat.pos_of_ne_zero empty)).mp bound
        omega
    have total : count * size % 2 ^ 32 = count * size := Nat.mod_eq_of_lt inRange
    have small := small.resolve_right (Nat.not_le.mpr inRange)
    rw [total] at ran
    dsimp only at ran
    cases inner : malloc fuel s (count * size) granted with
    | none =>
      rw [inner] at ran
      contradiction
    | some result =>
      obtain ⟨p', u⟩ := result
      rw [inner] at ran
      obtain ⟨rfl, rfl⟩ := Prod.mk.inj (Option.some.inj ran)
      rcases malloc_serves heap small inner with refused | ⟨extents', e, evolved, keeps, serves⟩
      · rw [if_neg (not_not.mpr refused.null)]
        exact Or.inl refused
      · rw [if_pos (serves_nonnull serves)]
        refine Or.inr ⟨extents', e, evolved_store evolved serves fun x outside => ?_, keeps, serves⟩
        unfold memset
        rw [if_neg (by omega)]

theorem calloc_total (heap : HeapOf s lo extents) (enough : extents.length < fuel) (count size : Nat) (granted : Bool) :
    ∃ p t, calloc fuel s count size granted = some (p, t) := by
  unfold calloc
  split
  · exact ⟨_, _, rfl⟩
  · obtain ⟨p, t, ran⟩ := malloc_total heap enough (count * size % 2 ^ 32) granted
    dsimp only
    rw [ran]
    exact ⟨_, _, rfl⟩

/-! ## `realloc` -/

/-- What `realloc` makes of a block with `size` bytes at `p`. -/
structure Moved (lo : Nat) (s t : UserState) (extents others : List Extent) (p size q n : Nat) : Prop where
  evolved : ∃ extents', Evolved lo s t extents extents' ∧ Keeps others extents' ∧
    ∃ e, Serves others extents' e q n
  copied : ∀ i, i < size → i < n → t.mem (q + i) = s.mem (p + i)

theorem serves_again (layout : Layout m lo hi (front ++ e :: back)) (used : e.free = false) (fits : n ≤ e.size) :
    Serves (front ++ back) (front ++ e :: back) e (e.addr + 20) n :=
  ⟨by simp, used, rfl, fits, fun f member _ => by
    have := layout_around layout member
    omega⟩

/-- The block takes in its free neighbour and gives back what it does not need. -/
theorem extendBlock_moves (heap : HeapOf s lo (front ++ e :: f :: back)) (used : e.free = false) (free : f.free = true)
    (adjacent : f.addr = e.addr + 20 + e.size) (fits : n ≤ e.size + (20 + f.size)) (small : n + 28 < 2 ^ 32) :
    Moved lo s { s with mem := extendBlock s.mem e.addr n } (front ++ e :: f :: back) (front ++ f :: back)
      (e.addr + 20) e.size (e.addr + 20) n := by
  have layout := heap.layout
  have next : (block s.mem e.addr).next = f.addr := by rw [layout_at layout]; rfl
  have joined := layout_extended layout adjacent
  simp only [List.append_assoc, List.cons_append, List.nil_append] at joined
  have cuts := layout_cut joined.layout small
  dsimp only at cuts
  rw [extendBlock_extended next]
  obtain ⟨size, rest, served, first⟩ := cut_first 20 8 e.addr fits
  have firstE := first e.free
  have whole := edited_trans joined cuts fun g member => by
    simp only [List.mem_append, List.mem_cons] at member
    rcases member with member | rfl | member
    · exact ⟨g, by simp [member], rfl⟩
    · exact ⟨e, by simp, rfl⟩
    · exact ⟨g, by simp [member], rfl⟩
  have listed : ⟨e.addr, size, e.free⟩ ∈ front ++ cut 20 8 n ⟨e.addr, e.size + (20 + f.size), e.free⟩ ++
    back := by
    simp [firstE]
  have kept : ∀ g ∈ front ++ f :: back, g.free = false → g ∈ front ∨ g ∈ back := fun g member used =>
    List.mem_append.mp (keeps_around member used free)
  refine ⟨⟨_, ⟨⟨whole.layout, ?_⟩, fun g before after _ => edited_payload layout whole before after,
    Nat.le_refl _,
    ?_, ?_, ?_⟩, ?_, ⟨e.addr, size, e.free⟩, listed, used, rfl, served, ?_⟩, ?_⟩
  · rw [firstE, List.append_assoc, headAddr_append]
    exact heap.head.trans (headAddr_append _ _)
  · intro x covered
    obtain ⟨g, member, lower, upper⟩ := covered_cut covered
    simp only [List.mem_append, List.mem_cons] at member
    refine Or.inl ?_
    rcases member with member | rfl | member
    · exact ⟨g, by simp [member], lower, upper⟩
    · dsimp only at lower upper
      by_cases left : x < e.addr + 20 + e.size
      · exact ⟨e, by simp, lower, left⟩
      · exact ⟨f, by simp, by omega, by omega⟩
    · exact ⟨g, by simp [member], lower, upper⟩
  · exact fun tiles => tiles_cut (tiles_merge e.free tiles)
  · intro pairs
    obtain ⟨left, right, -, -⟩ := noFreePairs_around.mp pairs
    have alone : NoFreePairs ([] ++ f :: back) := right
    obtain ⟨-, right, -, behind⟩ := noFreePairs_around.mp alone
    exact noFreePairs_cut left right used (behind free)
  · intro g member usedG
    simp only [List.mem_append]
    exact (kept g member usedG).imp_left Or.inl
  · intro g member usedG
    have around := layout_around layout (e := e) (g := g) (by simpa using member)
    dsimp only
    omega
  · intro i inside wanted
    have old := payload_clear layout (e := e) (x := e.addr + 20 + i) (by simp) (by omega) (by omega)
    have new := payload_clear whole.layout listed (x := e.addr + 20 + i) (by dsimp only; omega) (by dsimp only; omega)
    exact whole.others _ old new

/-- The move to another block: the contents are copied before the old block is
given back. -/
theorem copied_moves (heap : HeapOf s lo (front ++ e :: back)) (tiles : Tiles 20 lo s.brk (front ++ e :: back))
    (used : e.free = false) (evolved : Evolved lo s u (front ++ e :: back) extents')
    (keeps : Keeps (front ++ e :: back) extents') (serves : Serves (front ++ e :: back) extents' f q n)
    (short : copied = if e.size < n then e.size else n) :
    Moved lo s (free { u with mem := memcpy u.mem q (e.addr + 20) copied } (e.addr + 20)) (front ++ e :: back)
      (front ++ back) (e.addr + 20) e.size q n := by
  have fewer : copied ≤ n ∧ copied ≤ e.size ∧ ∀ i, i < e.size → i < n → i < copied := by
    rw [short]
    split <;> refine ⟨?_, ?_, fun i _ _ => ?_⟩ <;> omega
  have listed : e ∈ front ++ e :: back := by simp
  have stays := keeps e listed used
  have different : e ≠ f := fun same => serves.fresh e listed used (congrArg Extent.addr same)
  have apart := spread_apart_of_ne evolved.heap.layout.spread stays serves.listed different
  have pointer := serves.pointer
  have fits := serves.fits
  have stored := evolved_store evolved serves (m := memcpy u.mem q (e.addr + 20) copied) fun x outside => by
    unfold memcpy
    rw [if_neg (by omega)]
  obtain ⟨front1, back1, rfl⟩ := List.append_of_mem stays
  obtain ⟨extents2, freed, remain⟩ := free_evolves stored.heap (tiles_freeAdjacent (stored.tiles tiles))
  have around : ∀ g ∈ front1 ++ e :: back1, g.addr ≠ e.addr → g ∈ front1 ++ back1 := by
    intro g member other
    simp only [List.mem_append, List.mem_cons] at member ⊢
    exact member.imp_right fun member => member.resolve_left fun same => other (congrArg Extent.addr same)
  have others : ∀ g ∈ front ++ back, g.free = false → g ∈ front1 ++ e :: back1 ∧ g.addr ≠ e.addr := by
    intro g member usedG
    have clear := layout_around heap.layout member
    simp only [List.mem_append] at member
    refine ⟨keeps g ?_ usedG, by omega⟩
    simp only [List.mem_append, List.mem_cons]
    exact member.imp_right Or.inr
  have served := remain f (around f serves.listed (by omega)) serves.used
  refine ⟨⟨extents2, evolved_trans stored freed fun g before _ usedG => keeps g before usedG, ?_, f, served,
    serves.used,
    pointer, fits, ?_⟩, ?_⟩
  · intro g member usedG
    obtain ⟨inside, other⟩ := others g member usedG
    exact remain g (around g inside other) usedG
  · intro g member usedG
    have : g ∈ front ++ e :: back := by
      simp only [List.mem_append, List.mem_cons] at member ⊢
      exact member.imp_right Or.inr
    exact serves.fresh g this usedG
  · intro i inside wanted
    have copiedI := fewer.2.2 i inside wanted
    have kept := freed.payloads f serves.listed served serves.used (q + i) (by omega) (by omega)
    have old := evolved.payloads e listed stays used (e.addr + 20 + i) (by omega) (by omega)
    rw [kept, ← old]
    change memcpy u.mem q (e.addr + 20) copied (q + i) = _
    unfold memcpy
    rw [if_pos (by omega), Nat.add_sub_cancel_left]

theorem realloc_total (heap : HeapOf s lo extents) (enough : extents.length < fuel) (p n : Nat) (granted : Bool) :
    ∃ q t, realloc fuel s p n granted = some (q, t) := by
  obtain ⟨p', u, ran⟩ := malloc_total heap enough n granted
  by_cases null : p = 0
  · simp only [realloc, if_pos null]
    exact ⟨p', u, ran⟩
  · by_cases zero : n = 0
    · simp only [realloc, if_neg null, if_pos zero]
      exact ⟨_, _, rfl⟩
    · simp only [realloc, if_neg null, if_neg zero, ran]
      split
      · exact ⟨_, _, rfl⟩
      · split
        · exact ⟨_, _, rfl⟩
        · split
          · exact ⟨_, _, rfl⟩
          · split <;> exact ⟨_, _, rfl⟩

/-- The free neighbour makes up what the block lacks. -/
def Extendable (e : Extent) (back : List Extent) (n : Nat) : Prop :=
  ∃ f rest, back = f :: rest ∧ f.free = true ∧ n ≤ e.size + (20 + f.size)

/-- The test of the code on the neighbour of a block. -/
theorem extendable_iff (heap : HeapOf s lo (front ++ e :: back))
    (tiles : Tiles 20 lo s.brk (front ++ e :: back)) (n : Nat) :
    (headAddr 0 back ≠ 0 ∧ (block s.mem (headAddr 0 back)).free ≠ 0 ∧
    (block s.mem (headAddr 0 back)).magic = blockMagic ∧
      n ≤ add32 (add32 e.size sizeofUserBlock) (block s.mem (headAddr 0 back)).size) ↔ Extendable e back n := by
  have layout := heap.layout
  cases back with
  | nil => exact iff_of_false (fun tested => tested.1 rfl) (by simp [Extendable])
  | cons f rest =>
    have assoc : Layout s.mem lo s.brk ((front ++ [e]) ++ f :: rest) := by simpa using layout
    have start : headAddr 0 (f :: rest) = f.addr := rfl
    have boundsF := layout_bounds layout (e := f) (by simp)
    have bounded := layout.bounded
    have adjacent := tiles_neighbours tiles
    have total : add32 (add32 e.size sizeofUserBlock) f.size = e.size + (20 + f.size) := by
      rw [add32_of_lt (a := e.size) (by unfold sizeofUserBlock; omega), add32_of_lt (by unfold sizeofUserBlock; omega)]
      exact Nat.add_assoc _ _ _
    have nonnull : f.addr ≠ 0 := Nat.ne_of_gt boundsF.1
    rw [start, layout_at assoc]
    unfold record
    rw [total]
    constructor
    · rintro ⟨-, free, -, fits⟩
      refine ⟨f, rest, rfl, ?_, fits⟩
      cases marked : f.free with
      | true => rfl
      | false => simp [marked] at free
    · rintro ⟨g, others, same, free, fits⟩
      obtain ⟨rfl, rfl⟩ := List.cons.inj same
      exact ⟨nonnull, by simp [free], rfl, fits⟩

theorem realloc_plain (heap : HeapOf s lo (front ++ e :: back)) (tiles : Tiles 20 lo s.brk (front ++ e :: back))
    (used : e.free = false) (positive : n ≠ 0) (covers : n ≤ alignUp n) (enough : alignUp n + 28 < 2 ^ 32)
    (answered : alignUp n ≤ e.size ∨ Extendable e back (alignUp n) ∨ Plain (front ++ e :: back) n)
    (ran : realloc fuel s (e.addr + 20) n granted = some (q, t)) :
    Refused s t q ∨ Moved lo s t (front ++ e :: back) (front ++ back) (e.addr + 20) e.size q n := by
  have layout := heap.layout
  have some : e.addr + 20 ≠ 0 := Nat.succ_ne_zero _
  have pointer := pointer_block layout (e := e) (by simp)
  have magic : ¬ (block s.mem e.addr).magic ≠ blockMagic := by
    rw [layout_at layout]
    exact not_not.mpr rfl
  have size : (block s.mem e.addr).size = e.size := by rw [layout_at layout]; rfl
  have next : (block s.mem e.addr).next = headAddr 0 back := by rw [layout_at layout]; rfl
  simp only [realloc, if_neg some, if_neg positive, pointer, if_neg magic, size, next] at ran
  split at ran
  · -- the block is large enough
    rename_i fits
    obtain ⟨rfl, rfl⟩ := Prod.mk.inj (Option.some.inj ran)
    refine Or.inr ⟨⟨_, evolved_refl heap, fun g member _ => ?_, e,
      serves_again layout used (Nat.le_trans covers fits)⟩, fun i _ _ => rfl⟩
    simp only [List.mem_append, List.mem_cons] at member ⊢
    exact member.imp_right Or.inr
  · rename_i large
    split at ran
    · -- the free neighbour is taken in
      rename_i neighbour
      obtain ⟨rfl, rfl⟩ := Prod.mk.inj (Option.some.inj ran)
      obtain ⟨f, rest, rfl, free, fits⟩ := (extendable_iff heap tiles _).mp neighbour
      obtain ⟨⟨extents', evolved, keeps, g, serves⟩, copied⟩ :=
        extendBlock_moves heap used free (tiles_neighbours tiles) fits enough
      exact Or.inr ⟨⟨extents', evolved, keeps, g, serves.listed, serves.used, serves.pointer,
        Nat.le_trans covers serves.fits, serves.fresh⟩,
        fun i inside wanted => copied i inside (Nat.lt_of_lt_of_le wanted covers)⟩
    · rename_i alone
      have plain := (answered.resolve_left large).resolve_left fun extendable =>
        alone ((extendable_iff heap tiles _).mpr extendable)
      cases inner : malloc fuel s n granted with
      | none =>
        simp only [inner, reduceCtorEq] at ran
      | some result =>
        obtain ⟨p, u⟩ := result
        rw [inner] at ran
        rcases malloc_plain heap plain inner with refused | ⟨extents', f, evolved, keeps, serves⟩
        · simp only [if_pos refused.null] at ran
          obtain ⟨rfl, rfl⟩ := Prod.mk.inj (Option.some.inj ran)
          exact Or.inl ⟨rfl, refused.mem, refused.head, refused.brk⟩
        · simp only [if_neg (serves_nonnull serves)] at ran
          obtain ⟨rfl, rfl⟩ := Prod.mk.inj (Option.some.inj ran)
          refine Or.inr (copied_moves heap tiles used evolved keeps serves ?_)
          obtain ⟨front1, back1, shape⟩ := List.append_of_mem (keeps e (by simp) used)
          have held := evolved.heap.layout
          rw [shape] at held
          have same : (block u.mem e.addr).size = e.size := by rw [layout_at held]; rfl
          rw [same]

theorem realloc_moves (heap : HeapOf s lo (front ++ e :: back)) (tiles : Tiles 20 lo s.brk (front ++ e :: back))
    (used : e.free = false) (positive : n ≠ 0) (small : n ≤ maxRequest)
    (ran : realloc fuel s (e.addr + 20) n granted = some (q, t)) :
    Refused s t q ∨ Moved lo s t (front ++ e :: back) (front ++ back) (e.addr + 20) e.size q n :=
  have plain := plain_small small (front ++ e :: back)
  realloc_plain heap tiles used positive plain.covers plain.room (Or.inr (Or.inr plain)) ran

end

end MeowMeowOS.UserHeapCalls

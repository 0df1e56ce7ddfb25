import MeowMeowOS.UserHeapCalls

/-! Which requests the allocator of the user library serves in full. Close to 2³²
the rounded size and the chunk wrap, and from 2³¹ on the kernel takes the chunk for
a negative increment, so that the break moves without any memory. -/
namespace MeowMeowOS.RequestSizes
open ByteMemory Tiling BlockLists UserHeap UserHeapLayout UserHeapOperations UserHeapCalls
open KernelHeap (add32 sub32 add32_of_lt sub32_of_le)

/-- The list tiles the heap from its start up to the break. -/
structure Ready (lo : Nat) (s : UserState) (extents : List Extent) : Prop where
  heap : HeapOf s lo extents
  tiles : Tiles 20 lo s.brk extents
  start : 4096 ≤ lo
  limit : s.brk < 0xB0000000

/-- Where the memory of the program ends after a call: a negative increment brings
none. -/
def mappedEnd (s t : UserState) : Nat := if s.brk ≤ t.brk ∧ t.brk < s.brk + 2 ^ 31 then t.brk else s.brk

/-- The pointer is `NULL` or that of a block which records at least `n` bytes and
lies in the memory of the program. -/
def Sized (lo : Nat) (s t : UserState) (p n : Nat) : Prop :=
  p = 0 ∨ (lo + 20 ≤ p ∧ n ≤ (block t.mem (p - 20)).size ∧ p + (block t.mem (p - 20)).size ≤ mappedEnd s t)

/-- A call returns such a pointer. -/
def Returns (lo : Nat) (s : UserState) (n : Nat) : Option (Nat × UserState) → Prop
  | none => False
  | some (p, t) => Sized lo s t p n

/-- The largest request whose chunk is a positive increment. -/
def largestPositive : Nat := 0x7FFFFFE8

/-- The largest request that can be rounded up. -/
def largestRounded : Nat := 0xFFFFFFF8

def HasFree (extents : List Extent) (n : Nat) : Prop := ∃ e ∈ extents, e.free = true ∧ alignUp n ≤ e.size

/-- What a request without a free block asks of the kernel. -/
def chunkOf (n : Nat) : Nat :=
  if add32 sizeofUserBlock (alignUp n) < 4096 then 4096 else add32 sizeofUserBlock (alignUp n)

def Refuses (s : UserState) (increment : Nat) (granted : Bool) : Prop :=
  if 2 ^ 31 ≤ increment then add32 s.brk increment < s.heapStart
  else ¬ (granted = true ∧ s.brk + increment < 0xB0000000)

/-- The requests to `malloc` that it serves in full. -/
def MallocHolds (s : UserState) (extents : List Extent) (n : Nat) (granted : Bool) : Prop :=
  n ≤ largestPositive ∨ (n ≤ largestRounded ∧ HasFree extents n) ∨
    (¬ HasFree extents n ∧ Refuses s (chunkOf n) granted)

/-- The requests to `realloc`, for the block `e` in front of `back`. -/
def ReallocHolds (s : UserState) (extents : List Extent) (e : Extent) (back : List Extent) (n : Nat) (granted : Bool) :
    Prop :=
  if alignUp n ≤ e.size then n ≤ largestRounded
  else Extendable e back (alignUp n) ∨ MallocHolds s extents n granted

/-- What `realloc` does with the block `e`. -/
inductive Reallocates (fuel : Nat) (s : UserState) (e : Extent) (back : List Extent) (n : Nat) (granted : Bool) :
    Nat → UserState → Prop where
  | stays (fits : alignUp n ≤ e.size) : Reallocates fuel s e back n granted (e.addr + 20) s
  | extends (short : e.size < alignUp n) (extendable : Extendable e back (alignUp n)) (same : t.brk = s.brk) :
      Reallocates fuel s e back n granted (e.addr + 20) t
  | moves (short : e.size < alignUp n) (alone : ¬ Extendable e back (alignUp n))
      (ran : malloc fuel s n granted = some (q, u))
      (same : t.brk = u.brk) : Reallocates fuel s e back n granted q t

section
variable {lo n p q k fuel : Nat} {s t u : UserState} {e : Extent} {front back extents : List Extent} {granted : Bool}

theorem alignUp_rounds (word : n < 2 ^ 32) :
    (n ≤ largestRounded ∧ n ≤ alignUp n ∧ alignUp n < n + 8 ∧ alignUp n % 8 = 0) ∨
    (largestRounded < n ∧ alignUp n = 0) := by
  unfold largestRounded alignUp add32 blockAlign
  omega

/-! ## Where a pointer comes from -/

theorem sbrk_refuses (limit : s.brk < 0xB0000000) : (sbrk s k granted).1 = failed ↔ Refuses s k granted := by
  have small : s.brk ≠ failed := by
    unfold failed
    omega
  unfold sbrk sysSbrk Refuses
  dsimp only
  split_ifs with negative low low
  all_goals simp_all

theorem linkLast_brk {a : Nat} (linked : linkLast fuel s a = some t) : t.brk = s.brk := by
  unfold linkLast at linked
  split at linked
  · obtain rfl := Option.some.inj linked
    rfl
  · split at linked
    · cases linked
    · obtain rfl := Option.some.inj linked
      rfl

/-- The outcomes of a request: a block of the list, a refusal, or a new chunk. -/
structure Grown (s t : UserState) (n p : Nat) (granted : Bool) : Prop where
  pointer : p = add32 s.brk sizeofUserBlock
  asked : sbrk s (chunkOf n) granted = (s.brk, { s with brk := t.brk })

theorem growHeap_cases (some : s.brk ≠ 0) (ran : growHeap fuel s (alignUp n) granted = Option.some (p, t)) :
    ((sbrk s (chunkOf n) granted).1 = failed ∧ p = 0) ∨ Grown s t n p granted := by
  unfold growHeap at ran
  dsimp only at ran
  rcases sbrk_shape s (chunkOf n) granted with refused | ⟨b, asked⟩
  · unfold chunkOf at refused ⊢
    rw [refused] at ran
    obtain ⟨rfl, -⟩ := Prod.mk.inj (Option.some.inj ran)
    exact Or.inl ⟨refused, rfl⟩
  · by_cases top : s.brk = failed
    · have refused : (sbrk s (chunkOf n) granted).1 = failed := by rw [asked, top]
      unfold chunkOf at refused ⊢
      rw [refused] at ran
      obtain ⟨rfl, -⟩ := Prod.mk.inj (Option.some.inj ran)
      exact Or.inl ⟨refused, rfl⟩
    · right
      have written := asked
      unfold chunkOf at written
      rw [written] at ran
      dsimp only at ran
      rw [if_neg (not_or.mpr ⟨top, some⟩)] at ran
      split at ran
      · cases ran
      · rename_i linked
        obtain ⟨rfl, rfl⟩ := Prod.mk.inj (Option.some.inj ran)
        exact ⟨rfl, by rw [asked, linkLast_brk linked]⟩

theorem malloc_cases (heap : HeapOf s lo extents) (positive : n ≠ 0) (ran : malloc fuel s n granted = some (p, t)) :
    (∃ e ∈ extents, e.free = true ∧ alignUp n ≤ e.size ∧ p = add32 e.addr sizeofUserBlock ∧
    t.brk = s.brk) ∨
      (¬ HasFree extents n ∧ (((sbrk s (chunkOf n) granted).1 = failed ∧ p = 0) ∨ Grown s t n p granted)) := by
  have layout := heap.layout
  have some : s.brk ≠ 0 := by
    have order := spread_le layout.spread
    have := layout.positive
    omega
  unfold malloc at ran
  rw [if_neg positive] at ran
  cases found : searchFree s.mem (alignUp n) fuel s.heapHead with
  | none =>
    rw [found] at ran
    cases ran
  | some outcome =>
    rw [found] at ran
    rw [heap.head] at found
    rcases searchFree_listed layout.recorded (fun e member => (layout_bounds layout member).1) found with
      ⟨rfl, misses⟩ | ⟨front, e, back, rfl, free, fits, rfl⟩
    · exact Or.inr ⟨fun ⟨e, member, fit⟩ => misses e member fit, growHeap_cases some ran⟩
    · obtain ⟨rfl, rfl⟩ := Prod.mk.inj (Option.some.inj ran)
      exact Or.inl ⟨e, by simp, free, fits, rfl, rfl⟩

/-- Where the memory ends after a new chunk. -/
theorem grown_end (limit : s.brk < 0xB0000000) (chunk : k < 2 ^ 32)
    (asked : sbrk s k granted = (s.brk, { s with brk := t.brk })) :
    mappedEnd s t = if k < 2 ^ 31 then s.brk + k else s.brk := by
  have small : s.brk ≠ failed := by
    unfold failed
    omega
  by_cases positive : k < 2 ^ 31
  · rcases sbrk_cases s positive granted with refused | ⟨served, room⟩
    · exact absurd (congrArg Prod.fst (asked.symm.trans refused)) small
    · have moved : t.brk = s.brk + k := congrArg (fun r => r.2.brk) (asked.symm.trans served)
      unfold mappedEnd
      rw [moved, if_pos ⟨Nat.le_add_right _ _, by omega⟩, if_pos positive]
  · have moved : t.brk = add32 s.brk k := by
      unfold sbrk sysSbrk at asked
      dsimp only at asked
      rw [if_pos (Nat.not_lt.mp positive)] at asked
      split at asked
      · rw [if_pos rfl] at asked
        exact absurd (congrArg Prod.fst asked).symm small
      · exact (congrArg (fun r => r.2.brk) asked).symm
    unfold mappedEnd
    rw [moved, if_neg positive]
    unfold add32
    split_ifs
    all_goals omega

/-! ## `malloc` -/

theorem malloc_weak (ready : Ready lo s extents) (word : n < 2 ^ 32) (positive : n ≠ 0)
    (ran : malloc fuel s n granted = some (p, t)) (inside : p = 0 ∨ p + n ≤ mappedEnd s t) :
    MallocHolds s extents n granted := by
  obtain ⟨heap, -, start, limit⟩ := ready
  have rounds := alignUp_rounds word
  unfold MallocHolds
  rcases malloc_cases heap positive ran with ⟨e, member, free, fits, rfl, same⟩ | ⟨none,
    ⟨refused, -⟩ | ⟨rfl, asked⟩⟩
  · right
    left
    have bounds := layout_bounds heap.layout member
    have pointer : add32 e.addr sizeofUserBlock = e.addr + 20 := add32_of_lt (by unfold sizeofUserBlock; omega)
    have unmoved : mappedEnd s t ≤ s.brk := by
      unfold mappedEnd
      rw [same]
      split <;> omega
    refine ⟨?_, e, member, free, fits⟩
    rw [pointer] at inside
    unfold largestRounded at *
    omega
  · exact Or.inr (Or.inr ⟨none, (sbrk_refuses limit).mp refused⟩)
  · left
    have pointer : add32 s.brk sizeofUserBlock = s.brk + 20 := add32_of_lt (by unfold sizeofUserBlock; omega)
    have chunk : chunkOf n < 2 ^ 31 → chunkOf n ≤ 4096 ∨ n ≤ largestPositive := by
      unfold chunkOf largestPositive largestRounded add32 sizeofUserBlock at *
      split
      all_goals omega
    have small : chunkOf n < 2 ^ 32 := by
      unfold chunkOf add32
      split
      all_goals omega
    rw [pointer, grown_end limit small asked] at inside
    unfold largestPositive at *
    split at inside
    all_goals omega

/-- The header of a block that was served gives its capacity. -/
theorem sized_of_listed {others extents' : List Extent} (heap : HeapOf t lo extents')
    (serves : Serves others extents' e p n)
    (same : mappedEnd s t = t.brk) : Sized lo s t p n := by
  obtain ⟨front, back, shape⟩ := List.append_of_mem serves.listed
  have layout := heap.layout
  rw [shape] at layout
  have header : (block t.mem e.addr).size = e.size := by
    rw [layout_at layout]
    rfl
  have bounds := layout_bounds heap.layout serves.listed
  have pointer := serves.pointer
  have fits := serves.fits
  have start := spread_bounds heap.layout.spread e serves.listed
  right
  rw [same, pointer, Nat.add_sub_cancel, header]
  omega

theorem malloc_mapped (ready : Ready lo s extents) (positive : n ≠ 0) (plain : Plain extents n)
    (ran : malloc fuel s n granted = some (p, t)) (some : p ≠ 0) : mappedEnd s t = t.brk := by
  obtain ⟨heap, -, start, limit⟩ := ready
  rcases malloc_cases heap positive ran with ⟨e, member, free, fits, rfl, same⟩ | ⟨none,
    ⟨-, null⟩ | ⟨rfl, asked⟩⟩
  · unfold mappedEnd
    rw [same]
    split <;> rfl
  · exact absurd null some
  · have increment := plain.answered.resolve_right none
    have chunk : 0 < chunkOf n ∧ chunkOf n < 2 ^ 31 := by
      unfold chunkOf add32 sizeofUserBlock
      split
      all_goals omega
    have limit' := grown_end limit (by omega) asked
    rw [if_pos chunk.2] at limit'
    unfold mappedEnd at limit' ⊢
    split at limit'
    · rw [if_pos ‹_›]
    · omega

theorem plain_of_holds (ready : Ready lo s extents) (word : n < 2 ^ 32)
    (holds : n ≤ largestPositive ∨ (n ≤ largestRounded ∧ HasFree extents n)) : Plain extents n := by
  rcases holds with small | ⟨rounded, some⟩
  · rcases alignUp_rounds word with ⟨-, covers, bound, multiple⟩ | ⟨large, -⟩
    · unfold largestPositive at small
      exact ⟨covers, by omega, Or.inl (by omega)⟩
    · unfold largestPositive largestRounded at *
      omega
  · rcases alignUp_rounds word with ⟨-, covers, -⟩ | ⟨large, -⟩
    · obtain ⟨e, member, free, fits⟩ := some
      have bounds := layout_bounds ready.heap.layout member
      have limit := ready.limit
      exact ⟨covers, by omega, Or.inr ⟨e, member, free, fits⟩⟩
    · omega

/-- A request that is not refused is plain. -/
theorem plain_of_served (ready : Ready lo s extents) (word : n < 2 ^ 32) (positive : n ≠ 0)
    (ran : malloc fuel s n granted = some (p, t)) (some : p ≠ 0) (holds : MallocHolds s extents n granted) :
    Plain extents n := by
  refine plain_of_holds ready word (holds.imp_right fun rest => rest.resolve_right fun ⟨missing, refuses⟩ => ?_)
  rcases malloc_cases ready.heap positive ran with ⟨e, member, free, fits, -⟩ | ⟨-,
    ⟨-, nothing⟩ | ⟨-, asked⟩⟩
  · exact missing ⟨e, member, free, fits⟩
  · exact some nothing
  · have refused := (sbrk_refuses ready.limit).mpr refuses
    rw [asked] at refused
    have limit := ready.limit
    unfold failed at refused
    dsimp only at refused
    omega

/-- `malloc` serves a request in full exactly under this condition. -/
theorem malloc_returns_iff (ready : Ready lo s extents) (word : n < 2 ^ 32) (positive : n ≠ 0)
    (enough : extents.length < fuel)
    (granted : Bool) : Returns lo s n (malloc fuel s n granted) ↔ MallocHolds s extents n granted := by
  obtain ⟨p, t, ran⟩ := malloc_total ready.heap enough n granted
  rw [ran]
  constructor
  · exact fun sized => malloc_weak ready word positive ran (sized.imp_right fun ⟨_, covers, inside⟩ => by omega)
  · intro holds
    by_cases null : p = 0
    · exact Or.inl null
    have plain := plain_of_served ready word positive ran null holds
    rcases malloc_plain ready.heap plain ran with refused | ⟨extents', e, evolved, -, serves⟩
    · exact absurd refused.null null
    · exact sized_of_listed evolved.heap serves (malloc_mapped ready positive plain ran null)

/-! ## `calloc` and `realloc` -/

/-- Filling the block leaves its header. -/
theorem sized_memset (s t : UserState) (p : Nat) (v : UInt8) :
    Sized lo s { t with mem := memset t.mem p v k } p n ↔ Sized lo s t p n := by
  refine or_congr_right (and_congr_right fun start => ?_)
  have header : block (memset t.mem p v k) (p - 20) = block t.mem (p - 20) :=
    block_congr _ _ fun x lower upper => if_neg (by omega)
  dsimp only
  rw [header]
  rfl

theorem calloc_returns_iff (ready : Ready lo s extents) {count size : Nat} (word : count * size < 2 ^ 32)
    (positive : count * size ≠ 0) (enough : extents.length < fuel) (granted : Bool) :
    Returns lo s (count * size) (calloc fuel s count size granted) ↔
    MallocHolds s extents (count * size) granted := by
  have some : 0 < size := Nat.pos_of_ne_zero fun zero => positive (by rw [zero, Nat.mul_zero])
  have admitted : ¬ (size ≠ 0 ∧ 0xFFFFFFFF / size < count) := by
    have := (Nat.le_div_iff_mul_le some).mpr (show count * size ≤ 0xFFFFFFFF by omega)
    omega
  rw [← malloc_returns_iff ready word positive enough granted]
  unfold calloc
  rw [if_neg admitted, Nat.mod_eq_of_lt word]
  dsimp only
  cases malloc fuel s (count * size) granted with
  | none => exact Iff.rfl
  | some result =>
    obtain ⟨p, t⟩ := result
    dsimp only [Returns]
    split
    · exact sized_memset s t p 0
    · exact Iff.rfl

theorem realloc_cases (ready : Ready lo s (front ++ e :: back)) (positive : n ≠ 0)
    (ran : realloc fuel s (e.addr + 20) n granted = some (q, t)) : Reallocates fuel s e back n granted q t := by
  have layout := ready.heap.layout
  have pointer := pointer_block layout (e := e) (by simp)
  have magic : ¬ (block s.mem e.addr).magic ≠ blockMagic := by
    rw [layout_at layout]
    exact not_not.mpr rfl
  have size : (block s.mem e.addr).size = e.size := by rw [layout_at layout]; rfl
  have next : (block s.mem e.addr).next = headAddr 0 back := by rw [layout_at layout]; rfl
  simp only [realloc, if_neg (Nat.succ_ne_zero _), if_neg positive, pointer, if_neg magic, size, next] at ran
  split at ran
  · obtain ⟨rfl, rfl⟩ := Prod.mk.inj (Option.some.inj ran)
    exact .stays ‹_›
  · rename_i large
    split at ran
    · rename_i neighbour
      obtain ⟨rfl, rfl⟩ := Prod.mk.inj (Option.some.inj ran)
      exact .extends (Nat.not_le.mp large) ((extendable_iff ready.heap ready.tiles _).mp neighbour) rfl
    · rename_i alone
      have alone := fun extendable => alone ((extendable_iff ready.heap ready.tiles _).mpr extendable)
      cases inner : malloc fuel s n granted with
      | none => simp only [inner, reduceCtorEq] at ran
      | some result =>
        obtain ⟨p, u⟩ := result
        rw [inner] at ran
        dsimp only at ran
        split at ran
        · rename_i null
          obtain ⟨rfl, rfl⟩ := Prod.mk.inj (Option.some.inj ran)
          exact .moves (Nat.not_le.mp large) alone (null ▸ inner) rfl
        · obtain ⟨rfl, rfl⟩ := Prod.mk.inj (Option.some.inj ran)
          exact .moves (Nat.not_le.mp large) alone inner (by rw [free_brk])

theorem realloc_returns_iff (ready : Ready lo s (front ++ e :: back)) (used : e.free = false) (word : n < 2 ^ 32)
    (positive : n ≠ 0) (enough : (front ++ e :: back).length < fuel) (granted : Bool) :
    Returns lo s n (realloc fuel s (e.addr + 20) n granted) ↔
    ReallocHolds s (front ++ e :: back) e back n granted := by
  obtain ⟨q, t, ran⟩ := realloc_total ready.heap enough (e.addr + 20) n granted
  have outcome := realloc_cases ready positive ran
  have bounds := layout_bounds ready.heap.layout (e := e) (by simp)
  have limit := ready.limit
  have rounds := alignUp_rounds word
  unfold ReallocHolds
  rw [ran]
  change Sized lo s t q n ↔ _
  constructor
  · intro sized
    have weak : q = 0 ∨ q + n ≤ mappedEnd s t := sized.imp_right fun ⟨_, covers, inside⟩ => by omega
    cases outcome with
    | stays fits =>
      rw [if_pos fits]
      have stays : mappedEnd s s = s.brk := ite_self _
      rw [stays] at weak
      unfold largestRounded
      omega
    | «extends» short extendable same =>
      rw [if_neg (Nat.not_le.mpr short)]
      exact Or.inl extendable
    | moves short alone inner same =>
      rw [if_neg (Nat.not_le.mpr short)]
      unfold mappedEnd at weak
      rw [same] at weak
      exact Or.inr (malloc_weak ready word positive inner weak)
  · intro holds
    by_cases null : q = 0
    · exact Or.inl null
    -- each way the call goes, the request is plain or fits what is there
    obtain ⟨covers, room, answered, mapped⟩ : n ≤ alignUp n ∧ alignUp n + 28 < 2 ^ 32 ∧
        (alignUp n ≤ e.size ∨ Extendable e back (alignUp n) ∨ Plain (front ++ e :: back) n) ∧
          mappedEnd s t = t.brk := by
      cases outcome with
      | stays fits =>
        rw [if_pos fits] at holds
        exact ⟨by omega, by omega, Or.inl fits, ite_self _⟩
      | «extends» short extendable same =>
        obtain ⟨f, rest, rfl, free, fits⟩ := extendable
        have boundsF := layout_bounds ready.heap.layout (e := f) (by simp)
        have tight := tiles_neighbours ready.tiles
        refine ⟨by omega, by omega, Or.inr (Or.inl ⟨f, rest, rfl, free, fits⟩), ?_⟩
        unfold mappedEnd
        rw [same, ite_self]
      | moves short alone inner same =>
        rw [if_neg (Nat.not_le.mpr short)] at holds
        have plain := plain_of_served ready word positive inner null (holds.resolve_left alone)
        have mapped := malloc_mapped ready positive plain inner null
        refine ⟨plain.covers, plain.room, Or.inr (Or.inr plain), ?_⟩
        unfold mappedEnd at mapped ⊢
        rw [same, mapped]
    rcases realloc_plain ready.heap ready.tiles used positive covers room answered ran with refused | moved
    · exact absurd refused.null null
    · obtain ⟨extents', evolved, -, f, serves⟩ := moved.evolved
      exact sized_of_listed evolved.heap serves mapped

end

end MeowMeowOS.RequestSizes

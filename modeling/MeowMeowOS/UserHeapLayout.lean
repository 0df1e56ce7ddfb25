import MeowMeowOS.UserHeap
import MeowMeowOS.BlockLists

/-! The user heap as a list of extents: what each edit of the block list does
to the headers, and which bytes it leaves alone. -/
namespace MeowMeowOS.UserHeapLayout
open ByteMemory Tiling BlockLists UserHeap
open KernelHeap (add32 sub32 add32_of_lt sub32_of_le)

/-! ## The bytes an edit touches -/

/-- The memories differ only in the headers at the given addresses. -/
def Touches (m m' : Mem) (headers : List Nat) : Prop :=
  ∀ x, (∀ a ∈ headers, x < a ∨ a + 20 ≤ x) → m' x = m x

section
variable {m m' m'' : Mem} {headers : List Nat}

theorem touches_refl : Touches m m headers := fun _ _ => rfl

theorem touches_trans (first : Touches m m' headers) (second : Touches m' m'' headers) : Touches m m'' headers :=
  fun x outside => (second x outside).trans (first x outside)

theorem touches_word (at' : a ∈ headers) (within : a ≤ b ∧ b + 4 ≤ a + 20) :
    Touches m (writeWord m b v) headers := by
  intro x outside
  have apart := outside a at'
  exact writeWord_agree m b v x (x + 1) (by omega) x (Nat.le_refl x) (Nat.lt_succ_self x)

theorem touches_block (touches : Touches m m' headers) (apart : ∀ a ∈ headers, Apart a b) :
    block m' b = block m b := by
  refine block_congr m b fun x lower upper => touches x fun a member => ?_
  have := apart a member
  omega

/-- A store into one header leaves every header apart from it as it was. -/
theorem block_store_apart (apart : Apart a b) (m : Mem) :
    (∀ v, block (setMagic m a v) b = block m b) ∧ (∀ v, block (setSize m a v) b = block m b) ∧
      (∀ v, block (setFree m a v) b = block m b) ∧ (∀ v, block (setNext m a v) b = block m b) ∧
      ∀ v, block (setPrev m a v) b = block m b := by
  have one : ∀ c ∈ [a], Apart c b := fun c member => List.mem_singleton.mp member ▸ apart
  have here : a ∈ [a] := List.mem_singleton_self a
  exact ⟨fun v => touches_block (touches_word here (by omega)) one,
    fun v => touches_block (touches_word here (by omega)) one,
    fun v => touches_block (touches_word here (by omega)) one,
    fun v => touches_block (touches_word here (by omega)) one,
    fun v => touches_block (touches_word here (by omega)) one⟩

section
variable (at' : a ∈ headers) (before : Touches m m' headers)
include at' before

theorem touches_setMagic : Touches m (setMagic m' a v) headers :=
  touches_trans before (touches_word at' (by omega))

theorem touches_setSize : Touches m (setSize m' a v) headers :=
  touches_trans before (touches_word at' (by omega))

theorem touches_setFree : Touches m (setFree m' a v) headers :=
  touches_trans before (touches_word at' (by omega))

theorem touches_setNext : Touches m (setNext m' a v) headers :=
  touches_trans before (touches_word at' (by omega))

theorem touches_setPrev : Touches m (setPrev m' a v) headers :=
  touches_trans before (touches_word at' (by omega))

end

end

/-- The headers an edit in front of `next` touches. -/
def withNext (headers : List Nat) (next : Nat) : List Nat := if next = 0 then headers else next :: headers

theorem block_next_lt (m : Mem) (a : Nat) : (block m a).next < 2 ^ 32 := readWord_lt _ _

/-- What the stores of a split leave. -/
structure Splits (m m' : Mem) (c formed : Nat) : Prop where
  kept : block m' c = { block m c with size := formed, next := c + 20 + formed }
  new : block m' (c + 20 + formed) = ⟨blockMagic, (block m c).size - formed - 20, 1, (block m c).next, c⟩
  relinked : (block m c).next ≠ 0 →
    block m' (block m c).next = { block m (block m c).next with prev := c + 20 + formed }
  touches : Touches m m' (withNext [c, c + 20 + formed] (block m c).next)

theorem splitBlock_splits (m : Mem) (c formed : Nat) (room : formed + 20 ≤ (block m c).size)
    (bound : c + 20 + (block m c).size < 2 ^ 32)
    (beyond : (block m c).next = 0 ∨ c + 20 + (block m c).size ≤ (block m c).next) :
    Splits m (splitBlock m c formed) c formed := by
  have small := block_next_lt m c
  generalize sizeEq : (block m c).size = size at *
  generalize nextEq : (block m c).next = next at *
  have new : add32 (add32 c sizeofUserBlock) formed = c + 20 + formed := by
    rw [add32_of_lt (a := c) (by unfold sizeofUserBlock; omega), add32_of_lt (by unfold sizeofUserBlock; omega)]
    rfl
  have rest : sub32 (sub32 size formed) sizeofUserBlock = size - formed - 20 := by
    rw [sub32_of_le (a := size) (by omega) (by omega)]
    exact sub32_of_le (by unfold sizeofUserBlock; omega) (by omega)
  have magic : blockMagic % 2 ^ 32 = blockMagic := by decide
  unfold splitBlock
  simp only [new]
  refine ⟨?_, ?_, ?_, ?_⟩
  · by_cases last : next = 0 <;>
      simp (disch := omega) [block_store_apart, nextEq, last, Nat.mod_eq_of_lt]
  · by_cases last : next = 0 <;>
      simp (disch := omega) [block_store_apart, sizeEq, nextEq, rest, last, Nat.mod_eq_of_lt]
  · intro some
    rw [nextEq] at some ⊢
    simp (disch := omega) [block_store_apart, nextEq, some, Nat.mod_eq_of_lt]
  · have current : c ∈ withNext [c, c + 20 + formed] next := by
      unfold withNext
      split <;> simp
    have split : c + 20 + formed ∈ withNext [c, c + 20 + formed] next := by
      unfold withNext
      split <;> simp
    have fresh : ∀ size, Touches m (setPrev (setNext (setFree (setSize (setMagic m (c + 20 + formed) blockMagic)
        (c + 20 + formed) size) (c + 20 + formed) 1) (c + 20 + formed) next) (c + 20 + formed) c)
        (withNext [c, c + 20 + formed] next) := fun size =>
      touches_setPrev split (touches_setNext split (touches_setFree split (touches_setSize split
        (touches_setMagic split touches_refl))))
    simp (disch := omega) only [block_store_apart, nextEq]
    refine touches_setSize current (touches_setNext current ?_)
    by_cases last : next = 0
    · rw [if_neg (not_not.mpr last)]
      exact fresh _
    · rw [if_pos last]
      exact touches_setPrev (by simp [withNext, last]) (fresh _)

/-- What the stores of a merge leave: `keep` takes over the payload and the
successor of its neighbour `gone`. -/
structure Absorbs (m m' : Mem) (keep gone : Nat) : Prop where
  kept : block m' keep = { block m keep with
    size := (block m keep).size + (20 + (block m gone).size), next := (block m gone).next }
  relinked : (block m gone).next ≠ 0 →
    block m' (block m gone).next = { block m (block m gone).next with prev := keep }
  touches : Touches m m' (withNext [keep] (block m gone).next)

/-- The stores of a merge in the order of `free`. -/
def merged (m : Mem) (keep gone : Nat) : Mem :=
  let m' := setNext (setSize m keep (add32 (block m keep).size (add32 sizeofUserBlock (block m gone).size))) keep
    (block m gone).next
  if (block m gone).next ≠ 0 then setPrev m' (block m gone).next keep else m'

section
variable {m : Mem} {keep gone : Nat}

theorem merged_absorbs (apart : keep + 20 ≤ gone)
    (bound : keep + 20 + (block m keep).size + 20 + (block m gone).size < 2 ^ 32)
    (beyond : (block m gone).next = 0 ∨ gone + 20 ≤ (block m gone).next) :
    Absorbs m (merged m keep gone) keep gone := by
  have small := block_next_lt m gone
  have total : add32 (block m keep).size (add32 sizeofUserBlock (block m gone).size) =
      (block m keep).size + (20 + (block m gone).size) := by
    rw [add32_of_lt (a := sizeofUserBlock) (by unfold sizeofUserBlock; omega),
      add32_of_lt (by unfold sizeofUserBlock; omega)]
    rfl
  unfold merged
  dsimp only
  rw [total]
  generalize nextEq : (block m gone).next = next at *
  have current : keep ∈ withNext [keep] next := by
    unfold withNext
    split <;> simp
  have merged : ∀ size, Touches m (setNext (setSize m keep size) keep next) (withNext [keep] next) :=
    fun size => touches_setNext current (touches_setSize current touches_refl)
  by_cases last : next = 0
  · rw [if_neg (not_not.mpr last)]
    refine ⟨?_, fun some => absurd (nextEq.trans last) some, ?_⟩
    · simp (disch := omega) [Nat.mod_eq_of_lt, nextEq]
    · rw [nextEq]
      exact merged _
  · rw [if_pos last]
    refine ⟨?_, fun _ => ?_, ?_⟩
    · simp (disch := omega) [block_store_apart, Nat.mod_eq_of_lt, nextEq]
    · simp (disch := omega) [block_store_apart, Nat.mod_eq_of_lt, nextEq]
    · rw [nextEq]
      exact touches_setPrev (by simp [withNext, last]) (merged _)

theorem coalesceForward_merged (next : (block m keep).next = gone) (some : gone ≠ 0)
    (free : (block m gone).free ≠ 0) (magic : (block m gone).magic = blockMagic) (apart : Apart keep gone) :
    coalesceForward m keep = merged m keep gone := by
  have small := block_next_lt m gone
  unfold coalesceForward merged
  simp only [next, ne_eq, some, not_false_eq_true, free, magic, and_self, if_true, block_setSize,
    block_store_apart apart, block_setNext, Nat.mod_eq_of_lt small]

theorem coalesceBackward_merged (prev : (block m gone).prev = keep) (some : keep ≠ 0)
    (free : (block m keep).free ≠ 0) (magic : (block m keep).magic = blockMagic) (apart : Apart keep gone) :
    coalesceBackward m gone = merged m keep gone := by
  unfold coalesceBackward merged
  simp only [prev, ne_eq, some, not_false_eq_true, free, magic, and_self, if_true, block_store_apart apart]

/-- The stores of a merge in the order of `realloc`. -/
def extended (m : Mem) (keep gone : Nat) : Mem :=
  let m' := setNext m keep (block m gone).next
  let m' := if (block m gone).next ≠ 0 then setPrev m' (block m gone).next keep else m'
  setSize m' keep (add32 (add32 (block m keep).size sizeofUserBlock) (block m gone).size)

theorem extended_absorbs (apart : keep + 20 ≤ gone)
    (bound : keep + 20 + (block m keep).size + 20 + (block m gone).size < 2 ^ 32)
    (beyond : (block m gone).next = 0 ∨ gone + 20 ≤ (block m gone).next) :
    Absorbs m (extended m keep gone) keep gone := by
  have small := block_next_lt m gone
  have total : add32 (add32 (block m keep).size sizeofUserBlock) (block m gone).size =
      (block m keep).size + (20 + (block m gone).size) := by
    rw [add32_of_lt (a := (block m keep).size) (by unfold sizeofUserBlock; omega),
      add32_of_lt (by unfold sizeofUserBlock; omega)]
    exact Nat.add_assoc _ _ _
  unfold extended
  dsimp only
  rw [total]
  generalize nextEq : (block m gone).next = next at *
  have current : keep ∈ withNext [keep] next := by
    unfold withNext
    split <;> simp
  by_cases last : next = 0
  · rw [if_neg (not_not.mpr last)]
    refine ⟨?_, fun some => absurd (nextEq.trans last) some, ?_⟩
    · simp (disch := omega) [Nat.mod_eq_of_lt, nextEq]
    · rw [nextEq]
      exact touches_setSize current (touches_setNext current touches_refl)
  · rw [if_pos last]
    refine ⟨?_, fun _ => ?_, ?_⟩
    · simp (disch := omega) [block_store_apart, Nat.mod_eq_of_lt, nextEq]
    · simp (disch := omega) [block_store_apart, Nat.mod_eq_of_lt, nextEq]
    · rw [nextEq]
      exact touches_setSize current (touches_setPrev (by simp [withNext, last]) (touches_setNext current touches_refl))

theorem extendBlock_extended (next : (block m keep).next = gone) (n : Nat) :
    extendBlock m keep n = splitLeftover (extended m keep gone) keep n := by
  have small := block_next_lt m gone
  unfold extendBlock extended
  simp only [next, block_setNext, Nat.mod_eq_of_lt small]

end

/-! ## The layout of the list -/

/-- The header of an extent between its neighbours. -/
def record (e : Extent) (next prev : Nat) : UserBlock := ⟨blockMagic, e.size, if e.free then 1 else 0, next, prev⟩

/-- The headers of the extents lie in memory as a list, between `lo` and
`hi`. -/
structure Layout (m : Mem) (lo hi : Nat) (extents : List Extent) : Prop where
  spread : Spread 20 lo hi extents
  recorded : Recorded record (block m) 0 0 extents
  positive : 0 < lo
  bounded : hi < 2 ^ 32

section
variable {m m' m'' : Mem} {lo hi hi' : Nat} {e f : Extent}
  {front middle middle' back extents extents' extents'' : List Extent}

theorem layout_at (layout : Layout m lo hi (front ++ e :: back)) :
    block m e.addr = record e (headAddr 0 back) (lastAddr 0 front) := recorded_at layout.recorded

theorem layout_bounds (layout : Layout m lo hi extents) (member : e ∈ extents) :
    0 < e.addr ∧ lo ≤ e.addr ∧ e.addr + 20 + e.size ≤ hi := by
  have bounds := spread_bounds layout.spread e member
  have := layout.positive
  omega

theorem layout_congr (layout : Layout m lo hi extents) (same : ∀ e ∈ extents, block m' e.addr = block m e.addr) :
    Layout m' lo hi extents :=
  ⟨layout.spread, recorded_congr same layout.recorded, layout.positive, layout.bounded⟩

/-- What follows an extent is the end of the list or lies behind it. -/
theorem headAddr_beyond (layout : Layout m lo hi (front ++ e :: back)) :
    headAddr 0 back = 0 ∨ e.addr + 20 + e.size ≤ headAddr 0 back := by
  cases back with
  | nil => exact Or.inl rfl
  | cons f rest => exact Or.inr (spread_after layout.spread f List.mem_cons_self)

/-- No header of the list covers the byte. -/
def Clear (extents : List Extent) (x : Nat) : Prop := ∀ e ∈ extents, x < e.addr ∨ e.addr + 20 ≤ x

/-- An edit of the list leaves every byte as it was that is in no header before
it and in none after it. -/
structure Edited (m m' : Mem) (lo hi : Nat) (extents extents' : List Extent) : Prop where
  layout : Layout m' lo hi extents'
  others : ∀ x, Clear extents x → Clear extents' x → m' x = m x

/-- An edit of a run of neighbours that touches no header outside the run but
the one behind it. -/
theorem layout_edit {headers : List Nat} (layout : Layout m lo hi (front ++ middle ++ back))
    (within : ∀ lo hi, Spread 20 lo hi middle → Spread 20 lo hi middle')
    (first : headAddr (headAddr 0 back) middle' = headAddr (headAddr 0 back) middle)
    (touches : Touches m m' (withNext headers (headAddr 0 back)))
    (listed : ∀ h ∈ headers, ∃ e ∈ middle ++ middle', e.addr = h)
    (inside : ∀ h ∈ headers, ∀ g ∈ front ++ back, Apart h g.addr)
    (recorded : Recorded record (block m') (lastAddr 0 front) (headAddr 0 back) middle')
    (relinked : headAddr 0 back ≠ 0 → block m' (headAddr 0 back) =
      { block m (headAddr 0 back) with prev := lastAddr (lastAddr 0 front) middle' }) :
    Edited m m' lo hi (front ++ middle ++ back) (front ++ middle' ++ back) where
  layout := by
    refine ⟨spread_replace layout.spread within, ?_, layout.positive, layout.bounded⟩
    have same : ∀ g ∈ front ++ back, headAddr 0 back = 0 ∨ Apart (headAddr 0 back) g.addr →
        block m' g.addr = block m g.addr := by
      intro g member apart
      refine touches_block touches fun h touched => ?_
      unfold withNext at touched
      split at touched
      · exact inside h touched g member
      · rename_i next
        rcases List.mem_cons.mp touched with rfl | touched
        · exact apart.resolve_left next
        · exact inside h touched g member
    refine recorded_replace layout.recorded first ?_ recorded ?_ ?_
    · intro g member
      refine same g (List.mem_append_left _ member) ?_
      cases back with
      | nil => exact Or.inl rfl
      | cons f rest =>
        have order := spread_before layout.spread g (List.mem_append_left _ member)
        exact Or.inr (Or.inr (Nat.le_trans (Nat.le_add_right _ _) order))
    · intro f rest shape
      subst shape
      have head : headAddr 0 (f :: rest) = f.addr := rfl
      have held := layout_at layout
      have some : f.addr ≠ 0 := Nat.ne_of_gt (layout_bounds layout (e := f) (by simp)).1
      rw [head] at relinked
      rw [relinked some, held]
      rfl
    · intro f rest shape g member
      subst shape
      refine same g (by simp [member]) (Or.inr (Or.inl ?_))
      exact Nat.le_trans (Nat.le_add_right _ _) (spread_after layout.spread g member)
  others := by
    intro x before after
    have outside : ∀ h ∈ headers, x < h ∨ h + 20 ≤ x := by
      intro h touched
      obtain ⟨e, member, rfl⟩ := listed h touched
      rcases List.mem_append.mp member with member | member
      · exact before e (by simp [member])
      · exact after e (by simp [member])
    refine touches x fun h touched => ?_
    unfold withNext at touched
    split at touched
    · exact outside h touched
    · rcases List.mem_cons.mp touched with rfl | touched
      · cases back with
        | nil => contradiction
        | cons f rest => exact before f (by simp)
      · exact outside h touched

/-- Extents around one of the list keep clear of it. -/
theorem layout_around (layout : Layout m lo hi (front ++ e :: back)) (member : g ∈ front ++ back) :
    g.addr + 20 + g.size ≤ e.addr ∨ e.addr + 20 + e.size ≤ g.addr := by
  rcases List.mem_append.mp member with member | member
  · exact Or.inl (spread_before layout.spread g member)
  · exact Or.inr (spread_after layout.spread g member)

theorem layout_split (layout : Layout m lo hi (front ++ e :: back)) (room : formed + 20 ≤ e.size)
    (splits : Splits m m' e.addr formed) : Edited m m' lo hi (front ++ e :: back)
      (front ++ [⟨e.addr, formed, e.free⟩, ⟨e.addr + 20 + formed, e.size - formed - 20, true⟩] ++ back) := by
  have at' := layout_at layout
  have next : (block m e.addr).next = headAddr 0 back := by rw [at']; rfl
  have kept := splits.kept
  have new := splits.new
  have relinked := splits.relinked
  have touches := splits.touches
  rw [next] at new relinked touches
  have grouped : Layout m lo hi (front ++ [e] ++ back) := by simpa using layout
  rw [List.append_cons front e back]
  refine layout_edit grouped ?_ rfl touches (by simp) ?_ ⟨?_, ?_, trivial⟩ relinked
  · rintro lo hi ⟨lower, upper⟩
    have upper : e.addr + 20 + e.size ≤ hi := upper
    refine ⟨lower, Nat.le_refl _, ?_⟩
    change e.addr + 20 + formed + 20 + (e.size - formed - 20) ≤ hi
    omega
  · intro h touched g member
    have around := layout_around layout member
    simp only [List.mem_cons, List.not_mem_nil, or_false] at touched
    omega
  · rw [kept, at']
    rfl
  · rw [new, at']
    rfl

/-- Two adjacent neighbours become one. -/
theorem layout_absorb (layout : Layout m lo hi (front ++ e :: f :: back))
    (adjacent : f.addr = e.addr + 20 + e.size) (absorbs : Absorbs m m' e.addr f.addr) :
    Edited m m' lo hi (front ++ [e, f] ++ back) (front ++ [⟨e.addr, e.size + (20 + f.size), e.free⟩] ++ back) := by
  have atE := layout_at layout
  have assoc : Layout m lo hi ((front ++ [e]) ++ f :: back) := by simpa using layout
  have atF := layout_at assoc
  have next : (block m f.addr).next = headAddr 0 back := by rw [atF]; rfl
  have kept := absorbs.kept
  have relinked := absorbs.relinked
  have touches := absorbs.touches
  rw [next] at kept relinked touches
  have grouped : Layout m lo hi (front ++ [e, f] ++ back) := by simpa using layout
  refine layout_edit grouped ?_ rfl touches (by simp) ?_ ⟨?_, trivial⟩ relinked
  · rintro lo hi ⟨lower, -, upper⟩
    have upper : f.addr + 20 + f.size ≤ hi := upper
    refine ⟨lower, ?_⟩
    change e.addr + 20 + (e.size + (20 + f.size)) ≤ hi
    omega
  · intro h touched g member
    have around : g.addr + 20 + g.size ≤ e.addr ∨ e.addr + 20 + e.size ≤ g.addr := by
      rcases List.mem_append.mp member with member | member
      · exact Or.inl (spread_before layout.spread g member)
      · exact Or.inr (spread_after layout.spread g (List.mem_cons_of_mem _ member))
    rw [List.mem_singleton.mp touched]
    omega
  · rw [kept, atE, atF]
    rfl

theorem layout_mark (layout : Layout m lo hi (front ++ e :: back)) (free : Bool) :
    Edited m (setFree m e.addr (if free then 1 else 0)) lo hi (front ++ e :: back)
      (front ++ ⟨e.addr, e.size, free⟩ :: back) := by
  have at' := layout_at layout
  have grouped : Layout m lo hi (front ++ [e] ++ back) := by simpa using layout
  have here : e.addr ∈ withNext [e.addr] (headAddr 0 back) := by
    unfold withNext
    split <;> simp
  rw [List.append_cons front e back, List.append_cons front ⟨e.addr, e.size, free⟩ back]
  refine layout_edit grouped (fun lo hi spread => spread) rfl (touches_setFree here touches_refl) (by simp) ?_
    ⟨?_, trivial⟩ fun some => ?_
  · intro h touched g member
    have around := layout_around layout member
    rw [List.mem_singleton.mp touched]
    omega
  · rw [block_setFree, at']
    cases free <;> rfl
  · have beyond := (headAddr_beyond layout).resolve_left some
    have apart : Apart e.addr (headAddr 0 back) := Or.inl (Nat.le_trans (Nat.le_add_right _ _) beyond)
    rw [(block_store_apart apart m).2.2.1]
    cases back with
    | nil => exact absurd rfl some
    | cons f rest =>
      have assoc : Layout m lo hi ((front ++ [e]) ++ f :: rest) := by simpa using layout
      have head : headAddr 0 (f :: rest) = f.addr := rfl
      have held := layout_at assoc
      rw [head, held, lastAddr_append]
      rfl

/-- A block is appended where the list ended at the latest. -/
theorem layout_append (m' : Mem) (layout : Layout m lo hi extents) (bounded : hi + 20 + size < 2 ^ 32)
    (touches : Touches m m' [hi, lastAddr hi extents])
    (new : block m' hi = record ⟨hi, size, false⟩ 0 (lastAddr 0 extents))
    (last : ∀ front e, extents = front ++ [e] → block m' e.addr = { block m e.addr with next := hi }) :
    Edited m m' lo (hi + 20 + size) extents (extents ++ [⟨hi, size, false⟩]) where
  layout := by
    refine ⟨?_, ?_, layout.positive, bounded⟩
    · exact (spread_append _ _).mpr ⟨hi, layout.spread, Nat.le_refl hi, Nat.le_refl _⟩
    · refine (recorded_append _ _).mpr ⟨?_, new, trivial⟩
      rcases List.eq_nil_or_concat' extents with rfl | ⟨front, e, rfl⟩
      · trivial
      · have held : block m e.addr = record e (headAddr 0 []) (lastAddr 0 front) := layout_at layout
        have bounds := layout_bounds layout (e := e) (by simp)
        refine (recorded_append _ _).mpr ⟨?_, ?_, trivial⟩
        · refine recorded_congr (fun g member => touches_block touches fun h touched => ?_)
            ((recorded_append _ _).mp layout.recorded).1
          have before := spread_before layout.spread g member
          have final : lastAddr hi (front ++ [e]) = e.addr := by rw [lastAddr_append]; rfl
          simp only [final, List.mem_cons, List.not_mem_nil, or_false] at touched
          omega
        · rw [last front e rfl, held]
          rfl
  others := by
    intro x before after
    refine touches x fun h touched => ?_
    simp only [List.mem_cons, List.not_mem_nil, or_false] at touched
    have behind : x < hi ∨ hi + 20 ≤ x := after ⟨hi, size, false⟩ (by simp)
    rcases touched with rfl | rfl
    · exact behind
    · rcases List.eq_nil_or_concat' extents with rfl | ⟨front, e, rfl⟩
      · exact behind
      · have final : lastAddr hi (front ++ [e]) = e.addr := by rw [lastAddr_append]; rfl
        rw [final]
        exact before e (by simp)

/-- Two edits make one if what the first one adds is still on the list or was
on it before. -/
theorem edited_trans (first : Edited m m' lo hi extents extents') (second : Edited m' m'' lo hi' extents' extents'')
    (passing : ∀ e ∈ extents', ∃ f ∈ extents ++ extents'', f.addr = e.addr) :
    Edited m m'' lo hi' extents extents'' where
  layout := second.layout
  others := by
    intro x before after
    have between : Clear extents' x := by
      intro e member
      obtain ⟨f, listed, same⟩ := passing e member
      rw [← same]
      exact (List.mem_append.mp listed).elim (before f) (after f)
    exact (second.others x between after).trans (first.others x before between)

/-- The payloads of the list are in no header of it. -/
theorem payload_clear (layout : Layout m lo hi extents) (member : e ∈ extents) (lower : e.addr + 20 ≤ x)
    (upper : x < e.addr + 20 + e.size) : Clear extents x := by
  intro f listed
  by_cases same : e = f
  · subst same
    exact Or.inr lower
  · have apart := spread_apart_of_ne layout.spread member listed same
    omega

/-- What is on the list before and after an edit keeps its payload. -/
theorem edited_payload (layout : Layout m lo hi extents) (edited : Edited m m' lo hi' extents extents')
    (before : e ∈ extents) (after : e ∈ extents') : AgreeOn m m' (e.addr + 20) (e.addr + 20 + e.size) :=
  fun x lower upper => edited.others x (payload_clear layout before lower upper)
    (payload_clear edited.layout after lower upper)

end

end MeowMeowOS.UserHeapLayout

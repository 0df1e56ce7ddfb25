import MeowMeowOS.KernelHeap
import MeowMeowOS.Tiling
import MeowMeowOS.DoublyLinked

/-! What the memory of a healthy kernel heap looks like: the blocks tile the
heap, each header records its block, and the links follow the order of the
addresses. Every edit of the block list replaces a short run of neighbours,
so one replacement rule carries the rest of the list along. -/
namespace MeowMeowOS.HeapLayout
open ByteMemory Tiling DoublyLinked KernelHeap

/-- The header at the extent's address records its size and its mark. -/
def HeaderOf (m : Mem) (e : Extent) : Prop :=
  (block m e.addr).magic = heapMagic ∧ (block m e.addr).size = e.size ∧
    (block m e.addr).isFree = e.free

structure Layout (m : Mem) (start stop : Nat) (extents : List Extent) : Prop where
  tiles : Tiles sizeofHeapBlock start stop extents
  links : Links (fun a => (block m a).next) (fun a => (block m a).prev) 0 0
    (extents.map Extent.addr)
  headers : ∀ e ∈ extents, HeaderOf m e
  positive : 0 < start
  bounded : stop < 2 ^ 32

/-- Addresses of the neighbours of a run of extents, 0 at either end. -/
def lastAddr (extents : List Extent) : Nat := (extents.map Extent.addr).getLastD 0

def headAddr (extents : List Extent) : Nat := (extents.map Extent.addr).headD 0

theorem headerOf_congr (same : block m' e.addr = block m e.addr) : HeaderOf m' e ↔ HeaderOf m e := by
  unfold HeaderOf
  rw [same]

section Facts
variable {front back : List Extent} {e : Extent}

theorem layout_split_links (layout : Layout m start stop (front ++ e :: back)) :
    (block m e.addr).next = headAddr back ∧ (block m e.addr).prev = lastAddr front := by
  have links := layout.links
  rw [List.map_append, links_append] at links
  exact ⟨links.2.1, links.2.2.1⟩

theorem layout_header (layout : Layout m start stop (front ++ e :: back)) : HeaderOf m e :=
  layout.headers e (by simp)

theorem layout_bounds (layout : Layout m start stop (front ++ e :: back)) :
    start ≤ e.addr ∧ e.addr + 20 + e.size ≤ stop :=
  tiles_bounds layout.tiles e (by simp)

/-- The address of what follows an extent is 0 or lies behind the extent. -/
theorem headAddr_beyond (layout : Layout m start stop (front ++ e :: back)) :
    headAddr back = 0 ∨ e.addr + 20 + e.size ≤ headAddr back := by
  cases back with
  | nil => exact Or.inl rfl
  | cons f rest => exact Or.inr (tiles_after layout.tiles f List.mem_cons_self)

theorem addr_pos (layout : Layout m start stop extents) (member : e ∈ extents) : e.addr ≠ 0 := by
  have := (tiles_bounds layout.tiles e member).1
  have := layout.positive
  omega

end Facts

/-- A run of neighbours is replaced by another that starts at the same
address. The list before it keeps its headers; behind it only the first
header changes, and only in what it names as its predecessor. -/
theorem layout_replace {front middle middle' back : List Extent}
    (layout : Layout m start stop (front ++ middle ++ back))
    (tiles : Tiles sizeofHeapBlock start stop' (front ++ middle' ++ back))
    (bounded : stop' < 2 ^ 32)
    (first : middle.head?.map Extent.addr = middle'.head?.map Extent.addr)
    (inside : Links (fun a => (block m' a).next) (fun a => (block m' a).prev)
      (lastAddr front) (headAddr back) (middle'.map Extent.addr))
    (headers : ∀ e ∈ middle', HeaderOf m' e)
    (frontSame : ∀ e ∈ front, block m' e.addr = block m e.addr)
    (backHead : ∀ f rest, back = f :: rest → block m' f.addr =
      { block m f.addr with prev := ((front ++ middle').map Extent.addr).getLastD 0 })
    (backSame : ∀ f rest, back = f :: rest → ∀ e ∈ rest, block m' e.addr = block m e.addr) :
    Layout m' start stop' (front ++ middle' ++ back) where
  tiles := tiles
  positive := layout.positive
  bounded := bounded
  headers := by
    intro e member
    rcases List.mem_append.mp member with member | member
    · rcases List.mem_append.mp member with member | member
      · exact (headerOf_congr (frontSame e member)).mpr (layout.headers e (by simp [member]))
      · exact headers e member
    · cases back with
      | nil => cases member
      | cons f rest =>
        rcases List.mem_cons.mp member with rfl | member
        · have before := layout.headers e (by simp)
          have changed := backHead e rest rfl
          simpa [HeaderOf, changed] using before
        · exact (headerOf_congr (backSame f rest rfl e member)).mpr
            (layout.headers e (by simp [member]))
  links := by
    have links := layout.links
    rw [List.map_append, List.map_append, links_append, links_append] at links
    obtain ⟨⟨frontLinks, _⟩, backLinks⟩ := links
    have sameHead : ((middle'.map Extent.addr).headD (headAddr back)) =
        (middle.map Extent.addr).headD (headAddr back) := by
      cases middle <;> cases middle' <;> simp_all
    rw [List.map_append, List.map_append, links_append, links_append]
    refine ⟨⟨?_, inside⟩, ?_⟩
    · rw [show (back.map Extent.addr).headD 0 = headAddr back from rfl, sameHead]
      refine (links_congr ?_).mpr frontLinks
      intro a member
      obtain ⟨e, held, rfl⟩ := List.mem_map.mp member
      simp only [frontSame e held, and_self]
    · cases back with
      | nil => trivial
      | cons f rest =>
        have changed := backHead f rest rfl
        refine links_relink backLinks ?_ ?_ ?_
        · simp only [changed, List.map_append]
        · simp only [changed]
        · intro a member
          obtain ⟨e, held, rfl⟩ := List.mem_map.mp member
          simp only [backSame f rest rfl e held, and_self]

/-! ## The edits of the block list -/

/-- Headers apart from the ones an edit names keep their contents; the block
behind the edited run learns its new predecessor. -/
def Frames (m m' : Mem) (touched : List Nat) (next newPrev : Nat) : Prop :=
  (next ≠ 0 → block m' next = { block m next with prev := newPrev }) ∧
    ∀ b, (∀ a ∈ touched, Apart a b) → next = 0 ∨ Apart next b → block m' b = block m b

/-- What the stores of a split leave in the headers they touch. -/
theorem splitBlock_blocks (m : Mem) (c formed : Nat)
    (room : formed + 24 < (block m c).size) (bound : c + 20 + (block m c).size < 2 ^ 32)
    (beyond : (block m c).next = 0 ∨ c + 20 + (block m c).size ≤ (block m c).next) :
    block (splitBlock m c formed) c =
        { block m c with size := formed, next := c + 20 + formed } ∧
      block (splitBlock m c formed) (c + 20 + formed) =
        ⟨heapMagic, (block m c).size - formed - 20, true, (block m c).next, c⟩ ∧
      Frames m (splitBlock m c formed) [c, c + 20 + formed] (block m c).next (c + 20 + formed) := by
  have small := block_next_lt m c
  generalize sizeEq : (block m c).size = size at *
  generalize nextEq : (block m c).next = next at *
  have new : add32 c (add32 sizeofHeapBlock formed) = c + 20 + formed := by
    rw [add32_of_lt (a := sizeofHeapBlock) (by unfold sizeofHeapBlock; omega),
      add32_of_lt (by unfold sizeofHeapBlock; omega)]
    unfold sizeofHeapBlock
    omega
  have rest : sub32 (sub32 size formed) sizeofHeapBlock = size - formed - 20 := by
    rw [sub32_of_le (a := size) (by omega) (by omega)]
    exact sub32_of_le (by unfold sizeofHeapBlock; omega) (by omega)
  have magic : heapMagic % 2 ^ 32 = heapMagic := by decide
  unfold splitBlock Frames
  simp only [new, List.mem_cons, List.not_mem_nil, or_false, forall_eq_or_imp, forall_eq]
  by_cases last : next = 0
  · simp (disch := omega) only [block_store_apart, sizeEq, nextEq, rest, block_setPrev,
      block_setNext, block_setSize, block_setIsFree, block_setMagic, last, ne_eq,
      not_true_eq_false, ↓reduceIte, Nat.mod_eq_of_lt, magic, true_and]
    refine ⟨by simp, ?_⟩
    rintro b ⟨apart, apartNew⟩ -
    simp (disch := omega) only [block_store_apart]
  · have behind : c + 20 + size ≤ next := by omega
    simp (disch := omega) only [block_store_apart, sizeEq, nextEq, rest, block_setPrev,
      block_setNext, block_setSize, block_setIsFree, block_setMagic, last, ne_eq,
      not_false_eq_true, ↓reduceIte, Nat.mod_eq_of_lt, magic, false_or, true_and]
    refine ⟨by simp, ?_⟩
    rintro b ⟨apart, apartNew⟩ apartNext
    simp (disch := omega) only [block_store_apart]

/-- `keep` takes over the payload and the successor of its neighbour `gone`,
whose own header is left behind as it was. -/
structure Absorbs (m m' : Mem) (keep gone : Nat) : Prop where
  kept : block m' keep = { block m keep with
    size := (block m keep).size + (20 + (block m gone).size), next := (block m gone).next }
  stale : block m' gone = block m gone
  frames : Frames m m' [keep] (block m gone).next keep

/-- The three stores of either merge, `b` being the block the code reads the
successor from. -/
theorem merge_absorbs (m : Mem) (keep gone : Nat) (apart : keep + 20 ≤ gone)
    (bound : keep + 20 + (block m keep).size + 20 + (block m gone).size < 2 ^ 32)
    (beyond : (block m gone).next = 0 ∨ gone + 20 ≤ (block m gone).next) :
    Absorbs m (
      let m := setSize m keep
        (add32 (block m keep).size (add32 sizeofHeapBlock (block m gone).size))
      let m := setNext m keep (block m gone).next
      if (block m gone).next ≠ 0 then setPrev m (block m gone).next keep else m) keep gone := by
  have small := block_next_lt m gone
  have total : add32 (block m keep).size (add32 sizeofHeapBlock (block m gone).size) =
      (block m keep).size + (20 + (block m gone).size) := by
    rw [add32_of_lt (a := sizeofHeapBlock) (by unfold sizeofHeapBlock; omega),
      add32_of_lt (by unfold sizeofHeapBlock; omega)]
    rfl
  dsimp only
  simp (disch := omega) only [total, block_store_apart]
  generalize nextEq : (block m gone).next = next at *
  by_cases last : next = 0
  · simp only [last, ne_eq, not_true_eq_false, ↓reduceIte]
    refine ⟨?_, ?_, ?_⟩
    · simp (disch := omega) [Nat.mod_eq_of_lt, nextEq, last]
    · simp (disch := omega) only [block_store_apart]
    · refine ⟨by simp [nextEq, last], fun b touched _ => ?_⟩
      have apartKeep := touched keep (by simp)
      simp (disch := omega) only [block_store_apart]
  · have behind : gone + 20 ≤ next := by omega
    simp only [last, ne_eq, not_false_eq_true, ↓reduceIte]
    refine ⟨?_, ?_, ?_⟩
    · simp (disch := omega) [block_store_apart, Nat.mod_eq_of_lt, nextEq]
    · simp (disch := omega) only [block_store_apart]
    · refine ⟨fun _ => ?_, fun b touched apartNext => ?_⟩
      · simp (disch := omega) [block_store_apart, Nat.mod_eq_of_lt, nextEq]
      · have apartKeep := touched keep (by simp)
        have apartNext : Apart next b := by omega
        simp (disch := omega) only [block_store_apart]

section Edits
variable {front back : List Extent} {e f : Extent}

/-- An edit of one run that frames the rest satisfies the outer conditions
of the replacement rule. -/
theorem frames_outside {middle : List Extent} (touched : List Nat)
    (tiles : Tiles sizeofHeapBlock start stop (front ++ middle ++ back))
    (frames : Frames m m' touched (headAddr back) newPrev) (positive : 0 < start)
    (inside : ∀ a ∈ touched, ∀ g ∈ front ++ back, Apart a g.addr) :
    (∀ g ∈ front, block m' g.addr = block m g.addr) ∧
      (∀ g rest, back = g :: rest → block m' g.addr = { block m g.addr with prev := newPrev }) ∧
      ∀ g rest, back = g :: rest → ∀ h ∈ rest, block m' h.addr = block m h.addr := by
  refine ⟨fun g member => ?_, fun g rest shape => ?_, fun g rest shape h member => ?_⟩
  · apply frames.2 g.addr fun a touch => inside a touch g (by simp [member])
    cases back with
    | nil => exact Or.inl rfl
    | cons first rest =>
      have order := tiles_before tiles g (by simp [member])
      exact Or.inr (Or.inr (Nat.le_trans (Nat.le_add_right _ _) order))
  · subst shape
    have held := (tiles_bounds tiles g (by simp)).1
    exact frames.1 (by simp only [headAddr, List.map_cons, List.headD_cons]; omega)
  · subst shape
    apply frames.2 h.addr fun a touch => inside a touch h (by simp [member])
    have order := tiles_after tiles h member
    exact Or.inr (Or.inl (Nat.le_trans (Nat.le_add_right _ _) order))

theorem layout_split (layout : Layout m start stop (front ++ e :: back))
    (room : formed + 24 < e.size) :
    Layout (splitBlock m e.addr formed) start stop
      (front ++ [⟨e.addr, formed, e.free⟩, ⟨e.addr + 20 + formed, e.size - formed - 20, true⟩] ++
        back) := by
  obtain ⟨nextEq, prevEq⟩ := layout_split_links layout
  obtain ⟨magic, sizeEq, freeEq⟩ := layout_header layout
  have bounds := layout_bounds layout
  have bounded := layout.bounded
  have beyond := headAddr_beyond layout
  obtain ⟨atCurrent, atNew, frames⟩ := splitBlock_blocks m e.addr formed (by omega) (by omega)
    (by omega)
  rw [nextEq] at atNew frames
  have shape : front ++ e :: back = front ++ [e] ++ back := by simp
  have tiles := tiles_split e.free true layout.tiles
    (show formed + sizeofHeapBlock ≤ e.size by unfold sizeofHeapBlock; omega)
  rw [shape] at layout
  have outside := frames_outside [e.addr, e.addr + 20 + formed] layout.tiles frames layout.positive (by
    rw [List.append_assoc] at layout
    intro a touch g member
    have order : g.addr + 20 + g.size ≤ e.addr ∨ e.addr + 20 + e.size ≤ g.addr := by
      rcases List.mem_append.mp member with member | member
      · exact Or.inl (tiles_before layout.tiles g member)
      · exact Or.inr (tiles_after layout.tiles g member)
    simp only [List.mem_cons, List.not_mem_nil, or_false] at touch
    omega)
  refine layout_replace layout ?_ bounded rfl ?_ ?_ outside.1 ?_ outside.2.2
  · simpa [sizeofHeapBlock] using tiles
  · simp [Links, atCurrent, atNew, prevEq]
  · intro g member
    simp only [List.mem_cons, List.not_mem_nil, or_false] at member
    rcases member with rfl | rfl
    · simp [HeaderOf, atCurrent, magic, freeEq]
    · simp [HeaderOf, atNew, sizeEq]
  · intro g rest shape
    simpa using outside.2.1 g rest shape

theorem layout_absorb (layout : Layout m start stop (front ++ e :: f :: back))
    (absorbs : Absorbs m m' e.addr f.addr) :
    Layout m' start stop (front ++ [⟨e.addr, e.size + (20 + f.size), e.free⟩] ++ back) := by
  have prevEq := (layout_split_links layout).2
  obtain ⟨magic, sizeEq, freeEq⟩ := layout_header layout
  have tiles := tiles_merge e.free layout.tiles
  have grouped : Layout m start stop (front ++ [e, f] ++ back) := by simpa using layout
  have assoc : front ++ e :: f :: back = (front ++ [e]) ++ f :: back := by simp
  obtain ⟨goneNext, gonePrev⟩ := layout_split_links (assoc ▸ layout)
  have goneSize := (layout_header (assoc ▸ layout)).2.1
  have frames := absorbs.frames
  rw [goneNext] at frames
  have outside := frames_outside [e.addr] grouped.tiles frames layout.positive (by
    intro a touch g member
    have order : g.addr + 20 + g.size ≤ e.addr ∨ e.addr + 20 + e.size ≤ g.addr := by
      rcases List.mem_append.mp member with member | member
      · exact Or.inl (tiles_before layout.tiles g member)
      · exact Or.inr (tiles_after layout.tiles g (List.mem_cons_of_mem _ member))
    rw [List.mem_singleton.mp touch]
    omega)
  refine layout_replace grouped ?_ layout.bounded rfl ?_ ?_ outside.1 ?_ outside.2.2
  · simpa [sizeofHeapBlock] using tiles
  · simp [Links, absorbs.kept, prevEq, goneNext]
  · intro g member
    rw [List.mem_singleton.mp member]
    simp [HeaderOf, absorbs.kept, magic, sizeEq, freeEq, goneSize]
  · intro g rest shape
    simpa using outside.2.1 g rest shape

/-- Marking a block changes no other header. -/
theorem layout_mark (layout : Layout m start stop (front ++ e :: back)) (free : Bool) :
    Layout (setIsFree m e.addr free) start stop (front ++ [⟨e.addr, e.size, free⟩] ++ back) := by
  obtain ⟨nextEq, prevEq⟩ := layout_split_links layout
  obtain ⟨magic, sizeEq, freeEq⟩ := layout_header layout
  have same : ∀ g ∈ front ++ back, block (setIsFree m e.addr free) g.addr = block m g.addr := by
    intro g member
    have apart : Apart e.addr g.addr := by
      rcases List.mem_append.mp member with member | member
      · exact Or.inr (Nat.le_trans (Nat.le_add_right _ _) (tiles_before layout.tiles g member))
      · exact Or.inl (Nat.le_trans (Nat.le_add_right _ _) (tiles_after layout.tiles g member))
    simp only [block_store_apart _ _ apart]
  have grouped : Layout m start stop (front ++ [e] ++ back) := by simpa using layout
  refine layout_replace grouped ?_ layout.bounded rfl ?_ ?_ ?_ ?_ ?_
  · simpa using tiles_mark free layout.tiles
  · simp [Links, nextEq, prevEq]
  · intro g member
    rw [List.mem_singleton.mp member]
    simp [HeaderOf, magic, sizeEq]
  · intro g member
    exact same g (by simp [member])
  · intro g rest shape
    subst shape
    have assoc : Layout m start stop ((front ++ [e]) ++ g :: rest) := by simpa using layout
    have prevOf := (layout_split_links assoc).2
    have named : ((front ++ [(⟨e.addr, e.size, free⟩ : Extent)]).map Extent.addr).getLastD 0 =
        (block m g.addr).prev := by
      rw [prevOf]
      simp [lastAddr]
    rw [same g (by simp), named]
  · intro g rest shape h member
    subst shape
    exact same h (by simp [member])

end Edits

end MeowMeowOS.HeapLayout

import MeowMeowOS.Tiling
import Mathlib.Data.List.Chain

/-! Lists of blocks in the order of their addresses, gaps allowed, whose
headers are recorded in memory with links both ways. The contents a header
must have are a parameter, so the facts hold of any allocator that keeps its
blocks on such a list. -/
namespace MeowMeowOS.BlockLists
open Tiling

/-! ## Extents with gaps -/

section
variable {header lo hi : Nat}

/-- The extents lie between `lo` and `hi`, each behind the one before it. -/
def Spread (header : Nat) : Nat → Nat → List Extent → Prop
  | lo, hi, [] => lo ≤ hi
  | lo, hi, e :: rest => lo ≤ e.addr ∧ Spread header (e.addr + header + e.size) hi rest

theorem spread_of_tiles {extents : List Extent} (tiles : Tiles header lo hi extents) :
    Spread header lo hi extents := by
  induction extents generalizing lo with
  | nil => exact Nat.le_of_eq tiles
  | cons e rest ih =>
    refine ⟨Nat.le_of_eq tiles.1.symm, ?_⟩
    rw [tiles.1]
    exact ih tiles.2

theorem spread_le {extents : List Extent} (spread : Spread header lo hi extents) : lo ≤ hi := by
  induction extents generalizing lo with
  | nil => exact spread
  | cons e rest ih =>
    have := ih spread.2
    have := spread.1
    omega

theorem spread_widen {extents : List Extent} (spread : Spread header lo hi extents) (lower : lo' ≤ lo)
    (higher : hi ≤ hi') : Spread header lo' hi' extents := by
  induction extents generalizing lo lo' with
  | nil => exact Nat.le_trans lower (Nat.le_trans spread higher)
  | cons e rest ih => exact ⟨Nat.le_trans lower spread.1, ih spread.2 (Nat.le_refl _)⟩

theorem spread_append (front back : List Extent) : Spread header lo hi (front ++ back) ↔
    ∃ mid, Spread header lo mid front ∧ Spread header mid hi back := by
  induction front generalizing lo with
  | nil =>
    constructor
    · intro spread
      exact ⟨lo, Nat.le_refl lo, spread⟩
    · rintro ⟨mid, lower, spread⟩
      exact spread_widen spread lower (Nat.le_refl hi)
  | cons e rest ih => simp only [List.cons_append, Spread, ih, exists_and_left, and_assoc]

theorem spread_bounds {extents : List Extent} (spread : Spread header lo hi extents) :
    ∀ e ∈ extents, lo ≤ e.addr ∧ e.addr + header + e.size ≤ hi := by
  induction extents generalizing lo with
  | nil => simp
  | cons first rest ih =>
    obtain ⟨lower, tail⟩ := spread
    have covered := spread_le tail
    intro e member
    rcases List.mem_cons.mp member with rfl | member
    · exact ⟨lower, covered⟩
    · have := ih tail e member
      omega

theorem spread_apart {extents : List Extent} (spread : Spread header lo hi extents) :
    extents.Pairwise fun e f => e.addr + header + e.size ≤ f.addr := by
  induction extents generalizing lo with
  | nil => exact List.Pairwise.nil
  | cons first rest ih =>
    refine List.pairwise_cons.mpr ⟨fun e member => ?_, ih spread.2⟩
    exact (spread_bounds spread.2 e member).1

theorem spread_before {front back : List Extent} {e : Extent}
    (spread : Spread header lo hi (front ++ e :: back)) : ∀ f ∈ front, f.addr + header + f.size ≤ e.addr :=
  fun f member => (List.pairwise_append.mp (spread_apart spread)).2.2 f member e List.mem_cons_self

theorem spread_after {front back : List Extent} {e : Extent}
    (spread : Spread header lo hi (front ++ e :: back)) : ∀ f ∈ back, e.addr + header + e.size ≤ f.addr :=
  fun f member => (List.pairwise_cons.mp (List.pairwise_append.mp (spread_apart spread)).2.1).1 f member

theorem spread_apart_of_ne {extents : List Extent} {e f : Extent} (spread : Spread header lo hi extents)
    (left : e ∈ extents) (right : f ∈ extents) (different : e ≠ f) :
    e.addr + header + e.size ≤ f.addr ∨ f.addr + header + f.size ≤ e.addr := by
  let Beside := fun e f : Extent => e.addr + header + e.size ≤ f.addr ∨ f.addr + header + f.size ≤ e.addr
  have : Std.Symm Beside := ⟨fun _ _ => Or.symm⟩
  have apart : extents.Pairwise Beside := (spread_apart spread).imp Or.inl
  exact apart.forall left right different

/-- A run of extents is replaced by one that keeps within its bounds. -/
theorem spread_replace {front middle middle' back : List Extent}
    (spread : Spread header lo hi (front ++ middle ++ back))
    (within : ∀ lo hi, Spread header lo hi middle → Spread header lo hi middle') :
    Spread header lo hi (front ++ middle' ++ back) := by
  obtain ⟨mid, first, tail⟩ := (spread_append _ _).mp spread
  obtain ⟨start, before, inside⟩ := (spread_append _ _).mp first
  exact (spread_append _ _).mpr ⟨mid, (spread_append _ _).mpr ⟨start, before, within _ _ inside⟩, tail⟩

end

/-! ## Headers in memory -/

section
variable {Node : Type*} {record : Extent → Nat → Nat → Node} {view view' : Nat → Node} {before after : Nat}

/-- The address of the first extent, `after` if there is none. -/
def headAddr (after : Nat) (extents : List Extent) : Nat := (extents.map Extent.addr).headD after

def lastAddr (before : Nat) (extents : List Extent) : Nat := (extents.map Extent.addr).getLastD before

/-- Each header is the record of its extent and of its two neighbours. -/
def Recorded (record : Extent → Nat → Nat → Node) (view : Nat → Node) : Nat → Nat → List Extent → Prop
  | _, _, [] => True
  | before, after, e :: rest =>
    view e.addr = record e (headAddr after rest) before ∧ Recorded record view e.addr after rest

theorem headAddr_append (front back : List Extent) :
    headAddr after (front ++ back) = headAddr (headAddr after back) front := by
  cases front <;> rfl

@[simp] theorem lastAddr_cons (e : Extent) (rest : List Extent) :
    lastAddr before (e :: rest) = lastAddr e.addr rest := by
  cases rest <;> rfl

theorem lastAddr_append (front back : List Extent) :
    lastAddr before (front ++ back) = lastAddr (lastAddr before front) back := by
  induction front generalizing before with
  | nil => rfl
  | cons e rest ih => rw [List.cons_append, lastAddr_cons, lastAddr_cons, ih]

theorem recorded_append (front back : List Extent) : Recorded record view before after (front ++ back) ↔
    Recorded record view before (headAddr after back) front ∧
      Recorded record view (lastAddr before front) after back := by
  induction front generalizing before with
  | nil => exact ⟨fun held => ⟨trivial, held⟩, fun both => both.2⟩
  | cons e rest ih => rw [List.cons_append, Recorded, Recorded, ih, headAddr_append, lastAddr_cons, and_assoc]

theorem recorded_congr {extents : List Extent} (same : ∀ e ∈ extents, view' e.addr = view e.addr)
    (recorded : Recorded record view before after extents) : Recorded record view' before after extents := by
  induction extents generalizing before with
  | nil => trivial
  | cons e rest ih =>
    refine ⟨(same e List.mem_cons_self).trans recorded.1, ih (fun f member => ?_) recorded.2⟩
    exact same f (List.mem_cons_of_mem _ member)

/-- What each header of a recorded list holds. -/
theorem recorded_at {front back : List Extent} {e : Extent}
    (recorded : Recorded record view before after (front ++ e :: back)) :
    view e.addr = record e (headAddr after back) (lastAddr before front) :=
  ((recorded_append _ _).mp recorded).2.1

/-- A run of neighbours is replaced by one that starts at the same address. In
front of it no header changes, behind it only the first, and only in what it
names as its predecessor. -/
theorem recorded_replace {front middle middle' back : List Extent}
    (recorded : Recorded record view before after (front ++ middle ++ back))
    (first : headAddr (headAddr after back) middle' = headAddr (headAddr after back) middle)
    (frontSame : ∀ e ∈ front, view' e.addr = view e.addr)
    (inside : Recorded record view' (lastAddr before front) (headAddr after back) middle')
    (relinked : ∀ f rest, back = f :: rest →
      view' f.addr = record f (headAddr after rest) (lastAddr (lastAddr before front) middle'))
    (backSame : ∀ f rest, back = f :: rest → ∀ e ∈ rest, view' e.addr = view e.addr) :
    Recorded record view' before after (front ++ middle' ++ back) := by
  rw [List.append_assoc, recorded_append, recorded_append] at recorded
  obtain ⟨start, -, tail⟩ := recorded
  rw [List.append_assoc, recorded_append, recorded_append]
  refine ⟨?_, inside, ?_⟩
  · rw [headAddr_append] at start ⊢
    rw [first]
    exact recorded_congr frontSame start
  · cases back with
    | nil => trivial
    | cons f rest => exact ⟨relinked f rest rfl, recorded_congr (backSame f rest rfl) tail.2⟩

end

/-- The byte is part of a header or of a payload of the list. -/
def Covered (header : Nat) (extents : List Extent) (x : Nat) : Prop :=
  ∃ e ∈ extents, e.addr ≤ x ∧ x < e.addr + header + e.size

/-! ## Free neighbours -/

/-- No two neighbours are both free. -/
def NoFreePairs (extents : List Extent) : Prop := extents.IsChain fun e f => ¬ (e.free = true ∧ f.free = true)

/-- What surrounds a free extent is in use. -/
theorem noFreePairs_around {front back : List Extent} {e : Extent} : NoFreePairs (front ++ e :: back) ↔
    NoFreePairs front ∧ NoFreePairs back ∧ (e.free = true → ∀ f ∈ front.getLast?, f.free = false) ∧
      (e.free = true → ∀ f ∈ back.head?, f.free = false) := by
  unfold NoFreePairs
  simp only [List.isChain_append, List.isChain_cons, List.head?_cons, Option.mem_some_iff, forall_eq', not_and,
    Bool.not_eq_true]
  constructor
  · rintro ⟨left, ⟨behind, right⟩, before⟩
    refine ⟨left, right, fun free f last => ?_, fun free f first => behind f first free⟩
    cases freeF : f.free with
    | false => rfl
    | true => exact absurd (before f last freeF) (by simp [free])
  · rintro ⟨left, right, before, behind⟩
    refine ⟨left, ⟨fun f first free => behind free f first, right⟩, fun f last freeF => ?_⟩
    cases free : e.free with
    | false => rfl
    | true => exact absurd (before free f last) (by simp [freeF])

/-! ## Cutting a leftover off -/

section
variable {header least formed : Nat} {e f : Extent} {front back : List Extent}

/-- The extent serves `formed` bytes, and what is left becomes free if it can
hold a header and `least` bytes more. -/
def cut (header least formed : Nat) (e : Extent) : List Extent :=
  if formed + header + least ≤ e.size then
    [⟨e.addr, formed, e.free⟩, ⟨e.addr + header + formed, e.size - formed - header, true⟩]
  else [e]

theorem cut_first (header least a : Nat) (fits : formed ≤ size) : ∃ size' rest, formed ≤ size' ∧
    ∀ free, cut header least formed ⟨a, size, free⟩ = ⟨a, size', free⟩ :: rest := by
  unfold cut
  dsimp only
  by_cases room : formed + header + least ≤ size
  · exact ⟨formed, [⟨a + header + formed, size - formed - header, true⟩], Nat.le_refl formed,
      fun _ => if_pos room⟩
  · exact ⟨size, [], fits, fun _ => if_neg room⟩

theorem cut_within (member : f ∈ cut header least formed e) :
    e.addr ≤ f.addr ∧ f.addr + header + f.size ≤ e.addr + header + e.size := by
  unfold cut at member
  split at member
  · simp only [List.mem_cons, List.not_mem_nil, or_false] at member
    rcases member with rfl | rfl <;> dsimp only <;> omega
  · rw [List.mem_singleton.mp member]
    exact ⟨Nat.le_refl _, Nat.le_refl _⟩

theorem covered_cut (covered : Covered header (front ++ cut header least formed e ++ back) x) :
    Covered header (front ++ e :: back) x := by
  obtain ⟨f, member, lower, upper⟩ := covered
  rcases List.mem_append.mp member with member | member
  · rcases List.mem_append.mp member with member | member
    · exact ⟨f, by simp [member], lower, upper⟩
    · have inside := cut_within member
      exact ⟨e, by simp, Nat.le_trans inside.1 lower, Nat.lt_of_lt_of_le upper inside.2⟩
  · exact ⟨f, by simp [member], lower, upper⟩

theorem tiles_cut (tiles : Tiles header lo hi (front ++ e :: back)) :
    Tiles header lo hi (front ++ cut header least formed e ++ back) := by
  unfold cut
  split
  · simpa using tiles_split e.free true tiles (by omega)
  · simpa using tiles

theorem noFreePairs_cut (left : NoFreePairs front) (right : NoFreePairs back) (used : e.free = false)
    (behind : ∀ f ∈ back.head?, f.free = false) :
    NoFreePairs (front ++ cut header least formed e ++ back) := by
  unfold cut
  rw [List.append_assoc]
  split
  · refine noFreePairs_around.mpr ⟨left, ?_, by simp [used], by simp [used]⟩
    exact noFreePairs_around.mpr ⟨List.IsChain.nil, right, by simp, fun _ => behind⟩
  · exact noFreePairs_around.mpr ⟨left, right, by simp [used], by simp [used]⟩

end

/-! ## Joining a freed extent with its neighbours -/

/-- What lies in front of a freed extent that takes in a free neighbour. -/
def JoinedLeft (header : Nat) (front : List Extent) (e : Extent) (front' : List Extent) (e' : Extent) : Prop :=
  (front' = front ∧ e'.addr = e.addr ∧ ∀ f ∈ front.getLast?, f.free = false) ∨
    ∃ f, front = front' ++ [f] ∧ f.free = true ∧ e'.addr = f.addr ∧ f.addr + header + f.size = e.addr

def JoinedRight (header : Nat) (e : Extent) (back : List Extent) (e' : Extent) (back' : List Extent) : Prop :=
  (back' = back ∧ e'.addr + e'.size = e.addr + e.size ∧ ∀ f ∈ back.head?, f.free = false) ∨
    ∃ f, back = f :: back' ∧ f.free = true ∧ e.addr + header + e.size = f.addr ∧
    e'.addr + e'.size = f.addr + f.size

/-- A freed extent with the neighbours it has taken in. -/
structure Joined (header : Nat) (front back front' back' : List Extent) (e e' : Extent) : Prop where
  free : e'.free = true
  left : JoinedLeft header front e front' e'
  right : JoinedRight header e back e' back'

/-- The free neighbours on the list are also neighbours in memory. -/
structure FreeAdjacent (header : Nat) (front : List Extent) (e : Extent) (back : List Extent) : Prop where
  left : ∀ f ∈ front.getLast?, f.free = true → f.addr + header + f.size = e.addr
  right : ∀ f ∈ back.head?, f.free = true → e.addr + header + e.size = f.addr

section
variable {header : Nat} {front back front' back' : List Extent} {e e' : Extent}

theorem tiles_joined (tiles : Tiles header lo hi (front ++ e :: back))
    (joined : Joined header front back front' back' e e') : Tiles header lo hi (front' ++ e' :: back') := by
  obtain ⟨mid, first, start, tail⟩ := (tiles_append _ _).mp tiles
  have before : ∃ mid', Tiles header lo mid' front' ∧ e'.addr = mid' := by
    rcases joined.left with ⟨same, at', -⟩ | ⟨f, shape, -, at', -⟩
    · subst same
      exact ⟨mid, first, at'.trans start⟩
    · subst shape
      obtain ⟨mid', first, startF, -⟩ := (tiles_append _ _).mp first
      exact ⟨mid', first, at'.trans startF⟩
  obtain ⟨mid', first, start'⟩ := before
  refine (tiles_append _ _).mpr ⟨mid', first, start', ?_⟩
  rcases joined.right with ⟨same, ends, -⟩ | ⟨f, shape, -, adjacent, ends⟩
  · subst same
    rwa [show mid' + header + e'.size = mid + header + e.size by omega]
  · subst shape
    rw [show mid' + header + e'.size = mid + header + e.size + header + f.size by omega]
    exact tail.2

theorem tiles_freeAdjacent (tiles : Tiles header lo hi (front ++ e :: back)) : FreeAdjacent header front e back where
  left := by
    intro f last _
    obtain ⟨rest, shape⟩ := List.getLast?_eq_some_iff.mp last
    subst shape
    rw [List.append_assoc] at tiles
    exact (tiles_neighbours tiles).symm
  right := by
    intro f first _
    obtain ⟨rest, shape⟩ := List.head?_eq_some_iff.mp first
    subst shape
    exact (tiles_neighbours tiles).symm

theorem noFreePairs_joined (pairs : NoFreePairs (front ++ e :: back))
    (joined : Joined header front back front' back' e e') : NoFreePairs (front' ++ e' :: back') := by
  obtain ⟨left, right, -, -⟩ := noFreePairs_around.mp pairs
  have before : NoFreePairs front' ∧ ∀ f ∈ front'.getLast?, f.free = false := by
    rcases joined.left with ⟨same, -, used⟩ | ⟨f, shape, free, -, -⟩
    · subst same
      exact ⟨left, used⟩
    · subst shape
      obtain ⟨left, -, used, -⟩ := noFreePairs_around.mp left
      exact ⟨left, used free⟩
  have behind : NoFreePairs back' ∧ ∀ f ∈ back'.head?, f.free = false := by
    rcases joined.right with ⟨same, -, used⟩ | ⟨f, shape, free, -, -⟩
    · subst same
      exact ⟨right, used⟩
    · subst shape
      have alone : NoFreePairs ([] ++ f :: back') := right
      obtain ⟨-, right, -, used⟩ := noFreePairs_around.mp alone
      exact ⟨right, used free⟩
  exact noFreePairs_around.mpr ⟨before.1, behind.1, fun _ => before.2, fun _ => behind.2⟩

theorem covered_joined (joined : Joined header front back front' back' e e')
    (covered : Covered header (front' ++ e' :: back') x) : Covered header (front ++ e :: back) x := by
  obtain ⟨f, member, lower, upper⟩ := covered
  have before : ∀ g ∈ front', g ∈ front := by
    rcases joined.left with ⟨rfl, -, -⟩ | ⟨g, rfl, -, -, -⟩
    · exact fun g member => member
    · exact fun g member => List.mem_append_left _ member
  have behind : ∀ g ∈ back', g ∈ back := by
    rcases joined.right with ⟨rfl, -, -⟩ | ⟨g, rfl, -, -, -⟩
    · exact fun g member => member
    · exact fun g member => List.mem_cons_of_mem _ member
  simp only [List.mem_append, List.mem_cons] at member
  rcases member with member | rfl | member
  · exact ⟨f, by simp [before f member], lower, upper⟩
  · -- the byte is in what was freed, or in the neighbour on its side
    by_cases left : x < e.addr
    · rcases joined.left with ⟨-, at', -⟩ | ⟨g, rfl, -, at', adjacent⟩
      · omega
      · exact ⟨g, by simp, by omega, by omega⟩
    · by_cases right : e.addr + header + e.size ≤ x
      · rcases joined.right with ⟨-, ends, -⟩ | ⟨g, rfl, -, adjacent, ends⟩
        · omega
        · exact ⟨g, by simp, by omega, by omega⟩
      · exact ⟨e, by simp, by omega, by omega⟩
  · exact ⟨f, by simp [behind f member], lower, upper⟩

/-- The neighbours taken in were free, so what was in use stays. -/
theorem joined_keeps (joined : Joined header front back front' back' e e') (used : f.free = false)
    (member : f ∈ front ++ back) : f ∈ front' ++ e' :: back' := by
  have around : f ∈ front' ∨ f ∈ back' := by
    rcases List.mem_append.mp member with member | member
    · rcases joined.left with ⟨same, -, -⟩ | ⟨g, shape, free, -, -⟩
      · exact Or.inl (same ▸ member)
      · subst shape
        refine Or.inl ((List.mem_append.mp member).resolve_right fun last => ?_)
        rw [List.mem_singleton.mp last, free] at used
        exact Bool.noConfusion used
    · rcases joined.right with ⟨same, -, -⟩ | ⟨g, shape, free, -, -⟩
      · exact Or.inr (same ▸ member)
      · subst shape
        refine Or.inr ((List.mem_cons.mp member).resolve_left fun first => ?_)
        rw [first, free] at used
        exact Bool.noConfusion used
  simp only [List.mem_append, List.mem_cons]
  exact around.imp_right Or.inr

end

end MeowMeowOS.BlockLists

import Mathlib.Data.List.Pairwise

/-! An interval of addresses cut into consecutive extents, each made of a
header of fixed width and a payload. Splitting an extent and merging two
neighbours are the only edits an allocator with boundary headers makes, and
both keep the interval covered without overlap. -/
namespace MeowMeowOS.Tiling

structure Extent where
  addr : Nat
  size : Nat
  free : Bool
  deriving DecidableEq

/-- The extents follow each other from `lo` to `hi`, header and payload
adjacent, with no gap. -/
def Tiles (header : Nat) : Nat → Nat → List Extent → Prop
  | lo, hi, [] => lo = hi
  | lo, hi, e :: rest => e.addr = lo ∧ Tiles header (lo + header + e.size) hi rest

theorem tiles_append {header lo hi : Nat} (before after : List Extent) :
    Tiles header lo hi (before ++ after) ↔
      ∃ mid, Tiles header lo mid before ∧ Tiles header mid hi after := by
  induction before generalizing lo with
  | nil => simp [Tiles]
  | cons e rest ih => simp only [List.cons_append, Tiles, ih, exists_and_left, and_assoc]

theorem tiles_le {header lo hi : Nat} {extents : List Extent} (tiles : Tiles header lo hi extents) :
    lo ≤ hi := by
  induction extents generalizing lo with
  | nil => exact Nat.le_of_eq tiles
  | cons e rest ih =>
    have := ih tiles.2
    omega

theorem tiles_bounds {header lo hi : Nat} {extents : List Extent} (tiles : Tiles header lo hi extents) :
    ∀ e ∈ extents, lo ≤ e.addr ∧ e.addr + header + e.size ≤ hi := by
  induction extents generalizing lo with
  | nil => simp
  | cons first rest ih =>
    obtain ⟨start, tail⟩ := tiles
    have covered := tiles_le tail
    intro e member
    rcases List.mem_cons.mp member with rfl | member
    · omega
    · have := ih tail e member
      omega

/-- Distinct extents of one tiling occupy disjoint intervals. -/
theorem tiles_apart {header lo hi : Nat} {extents : List Extent} (tiles : Tiles header lo hi extents) :
    extents.Pairwise (fun e f => e.addr + header + e.size ≤ f.addr) := by
  induction extents generalizing lo with
  | nil => exact List.Pairwise.nil
  | cons first rest ih =>
    obtain ⟨start, tail⟩ := tiles
    refine List.pairwise_cons.mpr ⟨?_, ih tail⟩
    intro e member
    have := tiles_bounds tail e member
    omega

/-- The extents before one of a tiling end where it begins, at the latest. -/
theorem tiles_before {header lo hi : Nat} {before after : List Extent} {e : Extent}
    (tiles : Tiles header lo hi (before ++ e :: after)) :
    ∀ f ∈ before, f.addr + header + f.size ≤ e.addr := by
  intro f member
  exact (List.pairwise_append.mp (tiles_apart tiles)).2.2 f member e List.mem_cons_self

theorem tiles_after {header lo hi : Nat} {before after : List Extent} {e : Extent}
    (tiles : Tiles header lo hi (before ++ e :: after)) :
    ∀ f ∈ after, e.addr + header + e.size ≤ f.addr := by
  intro f member
  exact (List.pairwise_cons.mp (List.pairwise_append.mp (tiles_apart tiles)).2.1).1 f member

theorem tiles_apart_of_ne {header lo hi : Nat} {extents : List Extent} {e f : Extent}
    (tiles : Tiles header lo hi extents) (left : e ∈ extents) (right : f ∈ extents)
    (different : e ≠ f) :
    e.addr + header + e.size ≤ f.addr ∨ f.addr + header + f.size ≤ e.addr := by
  let Apart := fun e f : Extent =>
    e.addr + header + e.size ≤ f.addr ∨ f.addr + header + f.size ≤ e.addr
  have : Std.Symm Apart := ⟨fun _ _ => Or.symm⟩
  have apart : extents.Pairwise Apart := (tiles_apart tiles).imp Or.inl
  exact apart.forall left right different

/-- With a header of positive width an address starts at most one extent. -/
theorem tiles_addr_inj {header lo hi : Nat} {extents : List Extent} {e f : Extent}
    (tiles : Tiles header lo hi extents) (width : 0 < header)
    (left : e ∈ extents) (right : f ∈ extents) (same : e.addr = f.addr) : e = f := by
  apply Classical.byContradiction
  intro different
  have := tiles_apart_of_ne tiles left right different
  omega

/-- Cutting an extent in two keeps the interval covered. -/
theorem tiles_split {header lo hi : Nat} {before after : List Extent} {e : Extent} {size : Nat}
    (taken rest : Bool) (tiles : Tiles header lo hi (before ++ e :: after))
    (room : size + header ≤ e.size) :
    Tiles header lo hi (before ++ ⟨e.addr, size, taken⟩ ::
      ⟨e.addr + header + size, e.size - size - header, rest⟩ :: after) := by
  obtain ⟨mid, front, start, tail⟩ := (tiles_append _ _).mp tiles
  refine (tiles_append _ _).mpr ⟨mid, front, start, ?_, ?_⟩
  · rw [start]
  · rwa [show mid + header + size + header + (e.size - size - header) = mid + header + e.size by omega]

/-- Two neighbours merged into the first keep the interval covered. -/
theorem tiles_merge {header lo hi : Nat} {before after : List Extent} {e f : Extent} (free : Bool)
    (tiles : Tiles header lo hi (before ++ e :: f :: after)) :
    Tiles header lo hi (before ++ ⟨e.addr, e.size + (header + f.size), free⟩ :: after) := by
  obtain ⟨mid, front, start, next, tail⟩ := (tiles_append _ _).mp tiles
  refine (tiles_append _ _).mpr ⟨mid, front, start, ?_⟩
  rwa [show mid + header + (e.size + (header + f.size)) = mid + header + e.size + header + f.size
    by omega]

theorem tiles_neighbours {header lo hi : Nat} {before after : List Extent} {e f : Extent}
    (tiles : Tiles header lo hi (before ++ e :: f :: after)) :
    f.addr = e.addr + header + e.size := by
  obtain ⟨mid, _, start, next, _⟩ := (tiles_append _ _).mp tiles
  rw [next, start]

/-- Changing only the mark of an extent does not move anything. -/
theorem tiles_mark {header lo hi : Nat} {before after : List Extent} {e : Extent} (free : Bool)
    (tiles : Tiles header lo hi (before ++ e :: after)) :
    Tiles header lo hi (before ++ ⟨e.addr, e.size, free⟩ :: after) := by
  obtain ⟨mid, front, start, tail⟩ := (tiles_append _ _).mp tiles
  exact (tiles_append _ _).mpr ⟨mid, front, start, tail⟩

end MeowMeowOS.Tiling

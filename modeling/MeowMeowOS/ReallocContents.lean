import MeowMeowOS.UserHeapRuns

/-! What `realloc` does to the bytes of the program: the resized block keeps
its contents as far as both sizes reach, and every other live block keeps all
of its own. -/
namespace MeowMeowOS.ReallocContents
open ByteMemory Tiling BlockLists UserHeap UserHeapLayout UserHeapOperations UserHeapCalls UserHeapRuns

/-- The blocks behind these pointers have kept their size and their bytes. -/
def KeptBlocks (s t : UserState) (live : List (Nat × Nat)) : Prop :=
  ∀ x ∈ live, payloadSize t.mem x.1 = payloadSize s.mem x.1 ∧
    ∀ i < payloadSize s.mem x.1, t.mem (x.1 + i) = s.mem (x.1 + i)

/-- `realloc` has moved the live block `p` of `m` bytes to `q`. -/
structure Resized (lo : Nat) (s t : UserState) (live : List (Nat × Nat)) (p m q n : Nat) : Prop where
  contents : ∀ i < min m n, t.mem (q + i) = s.mem (p + i)
  large : n ≤ payloadSize t.mem q
  others : KeptBlocks s t (dropped live p)
  account : ∃ extents, Accounted lo ⟨t, (q, n) :: dropped live p⟩ extents

/-- `realloc` has failed: `p` is still live, and nothing has changed. -/
structure Untouched (lo : Nat) (s t : UserState) (live : List (Nat × Nat)) : Prop where
  blocks : KeptBlocks s t live
  account : ∃ extents, Accounted lo ⟨t, live⟩ extents

section
variable {lo : Nat} {s t : UserState} {live : List (Nat × Nat)} {e : Extent} {extents : List Extent}

theorem payloadSize_listed (layout : Layout m lo hi extents) (member : e ∈ extents) :
    payloadSize m (e.addr + 20) = e.size := by
  obtain ⟨front, back, rfl⟩ := List.append_of_mem member
  have at' : e.addr + 20 - sizeofUserBlock = e.addr := Nat.add_sub_cancel e.addr 20
  rw [payloadSize, at', layout_at layout]
  rfl

/-- For every well-formed heap, every live pointer and every size, `realloc`
comes back, and what it returns is `NULL` with nothing changed or a block with
the old contents. -/
theorem realloc_keeps_contents (accounted : Accounted lo ⟨s, live⟩ extents) (member : (p, m) ∈ live)
    (positive : n ≠ 0) (small : n ≤ maxRequest) (granted : Bool) :
    (∃ fuel result, realloc fuel s p n granted = some result) ∧
      ∀ fuel q t, realloc fuel s p n granted = some (q, t) →
        (q = 0 → Untouched lo s t live) ∧ (q ≠ 0 → Resized lo s t live p m q n) := by
  refine ⟨?_, fun fuel q t ran => ?_⟩
  · obtain ⟨q, t, ran⟩ := realloc_total accounted.heap (Nat.lt_succ_self _) p n granted
    exact ⟨_, _, ran⟩
  obtain ⟨front, e, back, rfl, used, rfl, holds⟩ := live_block accounted member
  rcases realloc_moves accounted.heap accounted.tiles used positive small ran with refused | moved
  · refine ⟨fun _ => ⟨?_, _, accounted_refused accounted refused⟩, fun some => absurd refused.null some⟩
    intro x _
    rw [refused.mem]
    exact ⟨rfl, fun _ _ => rfl⟩
  · obtain ⟨extents', evolved, keeps, f, serves⟩ := moved.evolved
    have owned := dropped_owned accounted
    refine ⟨fun null => absurd null (serves_nonnull serves), fun _ => ⟨?_, ?_, ?_, extents', ?_⟩⟩
    · intro i inside
      exact moved.copied i (by omega) (by omega)
    · rw [serves.pointer, payloadSize_listed evolved.heap.layout serves.listed]
      exact serves.fits
    · intro x remains
      obtain ⟨g, listed, ⟨usedG, atX, -⟩⟩ := owned x remains
      have before : g ∈ front ++ e :: back := by
        simp only [List.mem_append, List.mem_cons] at listed ⊢
        exact listed.imp_right Or.inr
      have after := keeps g listed usedG
      have payload := evolved.payloads g before after usedG
      have sizeS := payloadSize_listed accounted.heap.layout before
      have sizeT := payloadSize_listed evolved.heap.layout after
      dsimp only at sizeS
      rw [atX, sizeS, sizeT]
      exact ⟨rfl, fun i inside => payload _ (by omega) (by omega)⟩
    · exact accounted_served (evolved.tiles accounted.tiles) evolved.heap owned (accounted.distinct.filter _)
        keeps serves

theorem malloc_first : ∃ s, malloc 1 (started (fun _ => 0) 0 0x10000000).heap 100 true = some (0x10000014, s) := by
  simp [malloc, started, searchFree, growHeap, sbrk, sysSbrk, linkLast, alignUp, KernelHeap.add32, blockAlign,
    sizeofUserBlock,
    failed]

theorem realloc_keeps_contents_one : ∃ s extents, Accounted 0x10000000 ⟨s, [(0x10000014, 100)]⟩ extents ∧
    (∃ fuel result, realloc fuel s 0x10000014 200 true = some result) ∧
      ∀ fuel q t, realloc fuel s 0x10000014 200 true = some (q, t) →
        (q = 0 → Untouched 0x10000000 s t [(0x10000014, 100)]) ∧
          (q ≠ 0 → Resized 0x10000000 s t [(0x10000014, 100)] 0x10000014 100 q 200) := by
  obtain ⟨s, ran⟩ := malloc_first
  have empty : Accounted 0x10000000 (started (fun _ => 0) 0 0x10000000) [] :=
    started_accounted _ 0 (by decide) (by decide)
  obtain ⟨extents, accounted, -⟩ := step_accounted empty List.IsChain.nil (UserStep.malloc (by decide) ran)
  have live : handed (started (fun _ => 0) 0 0x10000000).live 0x10000014 100 = [(0x10000014, 100)] := rfl
  rw [live] at accounted
  exact ⟨s, extents, accounted, realloc_keeps_contents accounted (by simp) (by decide) (by decide) true⟩

end

end MeowMeowOS.ReallocContents

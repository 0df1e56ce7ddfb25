import MeowMeowOS.PageEntries
import Mathlib.Data.Finset.Card
import Mathlib.Data.Finset.Dedup

/-! The page loop of `SYS_SBRK`. Each round takes the next free frame, and one
more where there is no table for the page. -/
namespace MeowMeowOS.HeapGrowth
open ByteMemory PhysicalFrames VirtualMemory BootFrames FreeFrames AddressSpaces DirectoryLayout MappedPages ElfLoading
open TaskMemory PageEntries

/-- The directory is active. It and its tables lie below 8 MiB, mapped to
themselves; of the free frames none from there on is. -/
structure Sound (s : Machine) (d : Nat) : Prop where
  walkable : Walkable s d
  active : s.cr3 = d
  low : ∀ f, f = d ∨ IsTable s.pmm.mem d f → f < 0x800000 ∧ Identity s f
  high : ∀ b ∈ freeBlocks s.pmm, 0x800 ≤ b → b < 0xFFC00 ∧ ¬ Identity s (b * pageSize)

/-- The next free frames, as long as the kernel reaches them. -/
def reachable (s : Machine) : List Nat := (freeBlocks s.pmm).takeWhile fun b => Identity s (b * pageSize)

/-- How many tables the directory lacks for the pages. -/
def missing (m : Mem) (d first n : Nat) : Nat :=
  (((List.range' first n).map (· / 1024)).toFinset.filter fun i => isPresent (entry m d i) = false).card

section
variable {s t u : Machine} {d b c f k p n w : Nat} {rest : List Nat} {changed : Nat → Prop}

theorem identity_low (sound : Sound s d) (grown : Grown s t d changed) (above : ∀ v, changed v → 0x800 ≤ v)
    (low : f < 0x800000) : Identity t f ↔ Identity s f := by
  have kept : ¬ changed (f / pageSize) := fun moved => by
    have := above _ moved
    unfold pageSize at this
    omega
  have small : pdIndex f < 1023 := by
    unfold pdIndex
    omega
  unfold Identity
  rw [grown.same.2.1, sound.active, grown.walks f small kept]

/-- No free frame gets mapped to itself. -/
theorem identity_free (sound : Sound s d) (grown : Grown s t d changed) (above : ∀ v, changed v → 0x800 ≤ v)
    (own : ∀ c ∈ freeBlocks t.pmm, changed c → translate t.pmm.mem d (c * pageSize) ≠ some (c * pageSize))
    (free : c ∈ freeBlocks t.pmm) : Identity t (c * pageSize) ↔ Identity s (c * pageSize) := by
  by_cases small : c < 0x800
  · exact identity_low sound grown above (by unfold pageSize; omega)
  · obtain ⟨top, unreached⟩ := sound.high c (grown.free.subset free) (by omega)
    refine iff_of_false (fun reached => ?_) unreached
    unfold Identity at reached unreached
    rw [sound.active] at unreached
    rw [grown.same.2.1, sound.active] at reached
    by_cases moved : changed c
    · exact own c free moved reached
    · have same : c * pageSize / pageSize = c := Nat.mul_div_cancel c (by decide)
      rw [grown.walks _ (by unfold pdIndex pageSize; omega) (same.symm ▸ moved)] at reached
      exact unreached reached

theorem sound_grown (sound : Sound s d) (grown : Grown s t d changed) (above : ∀ v, changed v → 0x800 ≤ v)
    (own : ∀ c ∈ freeBlocks t.pmm, changed c → translate t.pmm.mem d (c * pageSize) ≠ some (c * pageSize))
    (tables : ∀ f, IsTable t.pmm.mem d f → IsTable s.pmm.mem d f ∨ (f < 0x800000 ∧ Identity s f)) :
    Sound t d := by
  refine ⟨grown.walkable, grown.same.2.1.trans sound.active, fun f held => ?_, fun c free large => ?_⟩
  · have before : f < 0x800000 ∧ Identity s f := by
      rcases held with rfl | table
      · exact sound.low f (.inl rfl)
      · exact (tables f table).elim (fun table => sound.low f (.inr table)) fun reached => reached
    exact ⟨before.1, (identity_low sound grown above before.1).mpr before.2⟩
  · have before := sound.high c (grown.free.subset free) large
    exact ⟨before.1, fun reached => before.2 ((identity_free sound grown above own free).mp reached)⟩

theorem takeWhile_congr {l : List Nat} {p q : Nat → Bool} (same : ∀ c ∈ l, p c = q c) :
    l.takeWhile p = l.takeWhile q := by
  induction l with
  | nil => rfl
  | cons c l ih =>
    rw [List.takeWhile_cons, List.takeWhile_cons, same c List.mem_cons_self,
      ih fun c member => same c (List.mem_cons_of_mem _ member)]

theorem reachable_cons (shape : freeBlocks s.pmm = b :: freeBlocks t.pmm) (reached : Identity s (b * pageSize))
    (same : ∀ c ∈ freeBlocks t.pmm, Identity t (c * pageSize) ↔ Identity s (c * pageSize)) :
    reachable s = b :: reachable t := by
  have later : ((freeBlocks t.pmm).takeWhile fun b => Identity t (b * pageSize)) =
      (freeBlocks t.pmm).takeWhile fun b => Identity s (b * pageSize) :=
    takeWhile_congr fun c member => decide_eq_decide.mpr (same c member)
  unfold reachable
  rw [shape, List.takeWhile_cons, later]
  exact if_pos (decide_eq_true reached)

theorem reachable_stuck (shape : freeBlocks s.pmm = b :: rest) (unreached : ¬ Identity s (b * pageSize)) :
    reachable s = [] := by
  unfold reachable
  rw [shape, List.takeWhile_cons, if_neg (by simpa using unreached)]

/-! ## Missing tables -/

theorem missing_succ_present {m r : Mem} (top : p + n < 1023 * 1024) (present : isPresent (entry m d (p / 1024)) = true)
    (same : ∀ i < 1023, (isPresent (entry r d i) = false ↔ isPresent (entry m d i) = false)) :
    missing m d p (n + 1) = missing r d (p + 1) n := by
  unfold missing
  rw [List.range'_succ, List.map_cons, List.toFinset_cons, Finset.filter_insert, if_neg (by rw [present]; decide)]
  refine congrArg Finset.card (Finset.filter_congr fun i member => (same i ?_).symm)
  obtain ⟨q, inside, rfl⟩ := List.mem_map.mp (List.mem_toFinset.mp member)
  have := List.mem_range'_1.mp inside
  omega

theorem missing_succ_absent {m r : Mem} (top : p + n < 1023 * 1024) (absent : isPresent (entry m d (p / 1024)) = false)
    (entered : isPresent (entry r d (p / 1024)) = true)
    (same : ∀ i < 1023, i ≠ p / 1024 → (isPresent (entry r d i) = false ↔ isPresent (entry m d i) = false)) :
    missing m d p (n + 1) = missing r d (p + 1) n + 1 := by
  unfold missing
  rw [List.range'_succ, List.map_cons, List.toFinset_cons, Finset.filter_insert, if_pos absent]
  have bound : ∀ i ∈ ((List.range' (p + 1) n).map (· / 1024)).toFinset, i < 1023 := by
    intro i member
    obtain ⟨q, inside, rfl⟩ := List.mem_map.mp (List.mem_toFinset.mp member)
    have := List.mem_range'_1.mp inside
    omega
  generalize ((List.range' (p + 1) n).map (· / 1024)).toFinset = later at bound
  have shape : later.filter (fun i => isPresent (entry r d i) = false) =
      (later.filter fun i => isPresent (entry m d i) = false).erase (p / 1024) := by
    ext i
    rw [Finset.mem_erase, Finset.mem_filter, Finset.mem_filter]
    by_cases own : i = p / 1024
    · subst own
      simp [entered]
    · have kept (member : i ∈ later) := same i (bound i member) own
      constructor
      · exact fun ⟨member, missing⟩ => ⟨own, member, (kept member).mp missing⟩
      · exact fun ⟨_, member, missing⟩ => ⟨member, (kept member).mpr missing⟩
  rw [shape, ← Finset.card_insert_of_notMem (Finset.notMem_erase _ _)]
  congr 1
  ext i
  by_cases own : i = p / 1024
  · simp [own]
  · simp [own]

/-! ## Mapping one page -/

/-- The page `p` of the directory has the frame `b`. -/
structure Placed (s t : Machine) (d p b : Nat) : Prop where
  sound : Sound t d
  grown : Grown s t d (· = p)
  kept : Kept s.pmm.mem t.pmm.mem d (· = p)
  page : leaf t.pmm.mem d (p * pageSize) = presentEntry (b * pageSize) userPage % 2 ^ 32
  table : isPresent (entry t.pmm.mem d (p / 1024)) = true
  others : ∀ i < 1023, i ≠ p / 1024 → entry t.pmm.mem d i = entry s.pmm.mem d i

theorem page_index (p : Nat) : pdIndex (p * pageSize) = p / 1024 ∧ p * pageSize / pageSize = p ∧
    p * pageSize % pageSize = 0 := by
  unfold pdIndex pageSize
  omega

theorem mapRequest_sound (sound : Sound s d) (positive : 0 < b) (high : 0 < p) :
    vmmMapPageInDirectory s d (b * pageSize) (p * pageSize) flags =
      if isPresent (entry s.pmm.mem d (p / 1024)) = true then setPage s d (b * pageSize) (p * pageSize) flags
      else
        let (newTable, pmm) := pmmAllocBlock s.pmm
        let s := { s with pmm := pmm }
        if newTable = 0 then .ok s
        else
          let s := s.store (setEntry s.pmm.mem d (p / 1024) (presentEntry newTable flags))
          if ¬ Identity s newTable then .error newTable
          else setPage (s.store (memset s.pmm.mem newTable 0 pageSize)) d (b * pageSize) (p * pageSize) flags := by
  obtain ⟨alignedD, highD⟩ := taken_aligned sound.walkable.taken
  obtain ⟨index, -, alignedP⟩ := page_index p
  have alignedB : b * pageSize % pageSize = 0 := Nat.mul_mod_left b pageSize
  have validD : ¬ (d = 0 ∨ d % pageSize ≠ 0) := by omega
  have valid : ¬ (b * pageSize = 0 ∨ p * pageSize = 0) := by
    unfold pageSize
    omega
  have aligned : ¬ (b * pageSize % pageSize ≠ 0 ∨ p * pageSize % pageSize ≠ 0) := by omega
  unfold vmmMapPageInDirectory
  rw [if_neg validD, if_neg valid, if_neg aligned, if_neg (not_not.mpr (sound.low d (.inl rfl)).2), index]

/-- The end of the call, where there is a table that the kernel reaches. -/
theorem setPage_sound (sound : Sound s d) (high : 0x800 ≤ p) (top : p < 0xFFC00) (taken : Taken s.pmm (b * pageSize))
    (present : isPresent (entry s.pmm.mem d (p / 1024)) = true) :
    ∃ t, setPage s d (b * pageSize) (p * pageSize) userPage = .ok t ∧ Placed s t d p b ∧
      freeBlocks t.pmm = freeBlocks s.pmm := by
  obtain ⟨index, number, aligned⟩ := page_index p
  have small : pdIndex (p * pageSize) < 1023 := by omega
  have presentP : isPresent (entry s.pmm.mem d (pdIndex (p * pageSize))) = true := index.symm ▸ present
  have isTable : IsTable s.pmm.mem d (frameOf (entry s.pmm.mem d (pdIndex (p * pageSize)))) :=
    ⟨_, small, presentP, rfl⟩
  obtain ⟨tableTaken, ne⟩ := sound.walkable.tables _ isTable
  have highT := (taken_aligned tableTaken).2
  have bound : b < 2 ^ 20 := by
    obtain ⟨c, same, -, -, bound⟩ := taken
    obtain rfl : b = c := Nat.eq_of_mul_eq_mul_right (by decide) same
    exact bound
  have ran : setPage s d (b * pageSize) (p * pageSize) userPage =
      .ok (s.store (setEntry s.pmm.mem (frameOf (entry s.pmm.mem d (pdIndex (p * pageSize)))) (ptIndex (p * pageSize))
        (presentEntry (b * pageSize) userPage))) := by
    unfold setPage
    dsimp only
    rw [if_neg (by omega), if_neg (not_not.mpr (sound.low _ (.inr isTable)).2)]
  obtain ⟨grown, page⟩ := grown_setPage sound.walkable small aligned presentP bound ran
  obtain ⟨kept, own⟩ := kept_setEntry sound.walkable small presentP (presentEntry (b * pageSize) userPage)
  rw [number] at grown kept
  generalize memEq : setEntry s.pmm.mem (frameOf (entry s.pmm.mem d (pdIndex (p * pageSize)))) (ptIndex (p * pageSize))
    (presentEntry (b * pageSize) userPage) = m at ran grown page kept own
  have outside (lo hi : Nat) (clear : hi ≤ frameOf (entry s.pmm.mem d (pdIndex (p * pageSize))) ∨
      frameOf (entry s.pmm.mem d (pdIndex (p * pageSize))) + pageSize ≤ lo) : AgreeOn s.pmm.mem m lo hi := by
    rw [← memEq]
    exact setEntry_outside (ptIndex_lt _) clear
  have directory : AgreeOn s.pmm.mem m d (d + pageSize) :=
    outside _ _ (frames_apart (taken_aligned sound.walkable.taken).1 (taken_aligned tableTaken).1 (Ne.symm ne))
  have same (i : Nat) (smallI : i < 1023) : entry m d i = entry s.pmm.mem d i := entry_agree directory (by omega)
  have free : freeBlocks (s.store m).pmm = freeBlocks s.pmm :=
    freeBlocks_agree sound.walkable.below (outside _ _ (.inl highT))
  have sound' : Sound (s.store m) d := by
    refine sound_grown sound grown (fun v moved => moved ▸ high) (fun c member moved itself => ?_) fun f table => ?_
    · subst moved
      have walk := page.symm.trans itself
      rw [free] at member
      exact free_not_taken member ((Option.some.inj walk) ▸ taken)
    · exact .inl ((isTable_agree directory).mp table)
  exact ⟨_, ran, ⟨sound', grown, kept, own, (congrArg isPresent (same (p / 1024) (by omega))).trans present,
    fun i smallI _ => same i smallI⟩, free⟩

/-- Another entry of the directory does not change the walk. -/
theorem translate_setEntry (walkable : Walkable s d) (small : pdIndex w < 1023) (upper : k < 1023)
    (ne : pdIndex w ≠ k)
    (v : Nat) : translate (setEntry s.pmm.mem d k v) d w = translate s.pmm.mem d w := by
  unfold AddressSpaces.translate
  rw [entry_setEntry_ne (Ne.symm ne)]
  by_cases present : isPresent (entry s.pmm.mem d (pdIndex w)) = true
  · obtain ⟨held, apart⟩ := walkable.tables _ ⟨_, small, present, rfl⟩
    have clear := frames_apart (taken_aligned held).1 (taken_aligned walkable.taken).1 apart
    have table : AgreeOn s.pmm.mem (setEntry s.pmm.mem d k v) _ _ := setEntry_outside (by omega) clear
    rw [if_pos present, if_pos present]
    dsimp only
    rw [entry_agree table (ptIndex_lt w)]
  · rw [if_neg present, if_neg present]

theorem newTable_free (walkable : Walkable s d) (shape : freeBlocks s.pmm = c :: rest) (upper : k < 1023)
    (flags : Nat) :
    freeBlocks (Machine.store { s with pmm := bitmapSet s.pmm c } (memset (setEntry (bitmapSet s.pmm c).mem d k
      (presentEntry (c * pageSize) flags)) (c * pageSize) 0 pageSize)).pmm = rest := by
  have high := (freeBlocks_high walkable.below (show c ∈ freeBlocks s.pmm by simp [shape])).1
  refine (freeBlocks_agree (bitmapBelow_set walkable.below c) ?_).trans (freeBlocks_set walkable.below shape)
  have entered :
    AgreeOn (bitmapSet s.pmm c).mem (setEntry (bitmapSet s.pmm c).mem d k (presentEntry (c * pageSize) flags))
      0x200000 0x300000 := setEntry_outside (by omega) (.inl (taken_aligned walkable.taken).2)
  exact agreeOn_trans entered (memset_outside (.inl (by unfold pageSize; omega)))

/-- A frame that the kernel reaches becomes a table. -/
theorem newTable_sound (sound : Sound s d) (shape : freeBlocks s.pmm = c :: rest) (reached : Identity s (c * pageSize))
    (lower : 2 ≤ k) (upper : k < 1023) (absent : ¬ isPresent (entry s.pmm.mem d k) = true) (flags : Nat) :
    ∃ m, memset (setEntry (bitmapSet s.pmm c).mem d k (presentEntry (c * pageSize) flags))
    (c * pageSize) 0 pageSize = m ∧
      Identity (Machine.store { s with pmm := bitmapSet s.pmm c }
        (setEntry (bitmapSet s.pmm c).mem d k (presentEntry (c * pageSize) flags))) (c * pageSize) ∧
      Grown s (Machine.store { s with pmm := bitmapSet s.pmm c } m) d (fun _ => False) ∧
      Sound (Machine.store { s with pmm := bitmapSet s.pmm c } m) d ∧
      freeBlocks (Machine.store { s with pmm := bitmapSet s.pmm c } m).pmm = rest ∧
      isPresent (entry m d k) = true ∧ ∀ i < 1023, i ≠ k → entry m d i = entry s.pmm.mem d i := by
  have free : c ∈ freeBlocks s.pmm := by simp [shape]
  obtain ⟨highC, boundC⟩ := freeBlocks_high sound.walkable.below free
  have low : c < 0x800 := by
    by_contra large
    exact (sound.high c free (by omega)).2 reached
  have lowC : c * pageSize < 0x800000 := by
    unfold pageSize
    omega
  obtain ⟨grown, present⟩ := grown_newTable flags (fun _ => False) sound.walkable shape upper absent
  obtain ⟨named, others, -⟩ := newTable_entries sound.walkable shape upper flags rfl
  refine ⟨_, rfl, ?_, grown, ?_, newTable_free sound.walkable shape upper flags, present,
    fun i small => others i (Nat.lt_succ_of_lt small)⟩
  · have index : pdIndex (c * pageSize) < 2 := by
      unfold pdIndex pageSize
      omega
    have taken : Grown s { s with pmm := bitmapSet s.pmm c } d fun _ => False := grown_taken sound.walkable shape
    have walk := translate_setEntry (v := presentEntry (c * pageSize) flags) taken.walkable
      (show pdIndex (c * pageSize) < 1023 by omega) upper (by omega)
    have same := (identity_low sound taken (fun _ => False.elim) lowC).mpr reached
    unfold Identity at same ⊢
    rw [taken.same.2.1, sound.active] at same
    dsimp only [Machine.store]
    rw [sound.active, walk, same]
  · refine sound_grown sound grown (fun _ => False.elim) (fun _ _ => False.elim) fun f table => ?_
    obtain ⟨i, small, presentI, rfl⟩ := table
    by_cases own : i = k
    · right
      subst own
      change frameOf (entry (memset _ _ _ _) d i) < _ ∧ Identity s (frameOf (entry (memset _ _ _ _) d i))
      rw [named, (names_present boundC flags).2]
      exact ⟨lowC, reached⟩
    · left
      refine ⟨i, small, ?_, ?_⟩
      · rw [← others i (Nat.lt_succ_of_lt small) own]
        exact presentI
      · rw [← others i (Nat.lt_succ_of_lt small) own]
        rfl

theorem alloc_first (walkable : Walkable s d) (shape : freeBlocks s.pmm = c :: rest) :
    pmmAllocBlock s.pmm = (c * pageSize, bitmapSet s.pmm c) ∧ c * pageSize ≠ 0 := by
  have high := (freeBlocks_high walkable.below (show c ∈ freeBlocks s.pmm by simp [shape])).1
  refine ⟨?_, by unfold pageSize; omega⟩
  rcases pmmAllocBlock_pops walkable.below with ⟨none, -⟩ | ⟨b, rest', shape', handed, -⟩
  · rw [none] at shape
    cases shape
  · obtain ⟨rfl, -⟩ := List.cons.inj (shape.symm.trans shape')
    exact handed

theorem alloc_none (walkable : Walkable s d) (none : freeBlocks s.pmm = []) : pmmAllocBlock s.pmm = (0, s.pmm) := by
  rcases pmmAllocBlock_pops walkable.below with ⟨-, failed⟩ | ⟨b, rest, shape, -⟩
  · exact failed
  · rw [none] at shape
    cases shape

theorem taken_positive (taken : Taken s.pmm (b * pageSize)) : 0 < b := by
  obtain ⟨c, same, -, high, -⟩ := taken
  obtain rfl : b = c := Nat.eq_of_mul_eq_mul_right (by decide) same
  omega

theorem place_present (sound : Sound s d) (high : 0x800 ≤ p) (top : p < 0xFFC00) (taken : Taken s.pmm (b * pageSize))
    (present : isPresent (entry s.pmm.mem d (p / 1024)) = true) :
    ∃ t, vmmMapPageInDirectory s d (b * pageSize) (p * pageSize) userPage = .ok t ∧ Placed s t d p b ∧
      freeBlocks t.pmm = freeBlocks s.pmm := by
  rw [mapRequest_sound sound (taken_positive taken) (by omega), if_pos present]
  exact setPage_sound sound high top taken present

/-- Without a frame for the table the page stays unmapped. -/
theorem place_none (sound : Sound s d) (high : 0x800 ≤ p) (taken : Taken s.pmm (b * pageSize))
    (absent : ¬ isPresent (entry s.pmm.mem d (p / 1024)) = true) (none : freeBlocks s.pmm = []) :
    vmmMapPageInDirectory s d (b * pageSize) (p * pageSize) userPage = .ok s := by
  rw [mapRequest_sound sound (taken_positive taken) (by omega), if_neg absent, alloc_none sound.walkable none]
  rfl

theorem place_absent (sound : Sound s d) (high : 0x800 ≤ p) (top : p < 0xFFC00) (taken : Taken s.pmm (b * pageSize))
    (absent : ¬ isPresent (entry s.pmm.mem d (p / 1024)) = true) (shape : freeBlocks s.pmm = c :: rest)
    (reached : Identity s (c * pageSize)) :
    ∃ t, vmmMapPageInDirectory s d (b * pageSize) (p * pageSize) userPage = .ok t ∧ Placed s t d p b ∧
      freeBlocks t.pmm = rest := by
  obtain ⟨handed, nonzero⟩ := alloc_first sound.walkable shape
  obtain ⟨m, memEq, entered, grown, sound', free, present, others⟩ :=
    newTable_sound sound shape reached (k := p / 1024) (by omega) (by omega) absent userPage
  have kept := kept_newTable (· = p) sound.walkable shape (k := p / 1024) (by omega) absent
  rw [memEq] at kept
  obtain ⟨t, ran, placed, free'⟩ := setPage_sound sound' high top (taken_mono grown.bits taken) present
  refine ⟨t, ?_, ⟨placed.sound, ?_, kept_trans kept placed.kept, placed.page, placed.table, fun i small ne => ?_⟩,
    free'.trans free⟩
  · rw [mapRequest_sound sound (taken_positive taken) (by omega), if_neg absent, handed]
    dsimp only
    rw [if_neg nonzero, if_neg (not_not.mpr entered)]
    dsimp only [Machine.store] at ran ⊢
    rw [memEq]
    exact ran
  · exact grown_trans (grown_weaken grown fun _ => False.elim) placed.grown
  · rw [placed.others i small ne]
    exact others i small ne

/-- The kernel faults on a table that it does not reach. -/
theorem place_stuck (sound : Sound s d) (high : 0x800 ≤ p) (top : p < 0xFFC00) (taken : Taken s.pmm (b * pageSize))
    (absent : ¬ isPresent (entry s.pmm.mem d (p / 1024)) = true) (shape : freeBlocks s.pmm = c :: rest)
    (unreached : ¬ Identity s (c * pageSize)) :
    vmmMapPageInDirectory s d (b * pageSize) (p * pageSize) userPage = .error (c * pageSize) := by
  have free : c ∈ freeBlocks s.pmm := by simp [shape]
  obtain ⟨handed, nonzero⟩ := alloc_first sound.walkable shape
  have boundC := (freeBlocks_high sound.walkable.below free).2
  have small : pdIndex (c * pageSize) < 1023 := by
    unfold pdIndex pageSize
    by_cases low : c < 0x800
    · omega
    · have := (sound.high c free (by omega)).1
      omega
  have grown : Grown s { s with pmm := bitmapSet s.pmm c } d fun _ => False := grown_taken sound.walkable shape
  obtain ⟨named, -, -⟩ := newTable_entries sound.walkable shape (k := p / 1024) (by omega) userPage rfl
  have names := names_present boundC userPage
  rw [mapRequest_sound sound (taken_positive taken) (by omega), if_neg absent, handed]
  dsimp only
  rw [if_neg nonzero]
  split
  · rfl
  · rename_i entered
    rw [not_not] at entered
    by_cases own : pdIndex (c * pageSize) = p / 1024
    · -- its entry names itself, but the table is cleared before it is used
      unfold setPage
      dsimp only [Machine.store]
      rw [(page_index p).1, named, names.2, if_neg nonzero]
      refine if_pos fun walk => ?_
      unfold Identity AddressSpaces.translate at walk
      dsimp only at walk
      rw [sound.active, own, named, if_pos names.1, names.2, entry_cleared _ _ (ptIndex_lt _)] at walk
      cases walk
    · refine absurd ?_ unreached
      have walk := translate_setEntry (v := presentEntry (c * pageSize) userPage) grown.walkable small
        (show p / 1024 < 1023 by omega) own
      unfold Identity at entered ⊢
      dsimp only [Machine.store] at entered
      dsimp only at walk
      rw [sound.active, walk] at entered
      rw [sound.active, ← grown.walks _ small id]
      exact entered

/-! ## One round -/

/-- The machine with the frame taken and cleared. -/
def cleared (s : Machine) (b : Nat) : Machine :=
  Machine.store { s with pmm := bitmapSet s.pmm b } (memset (bitmapSet s.pmm b).mem (b * pageSize) 0 pageSize)

theorem cleared_prepared (changed : Nat → Prop) (walkable : Walkable s d) (shape : freeBlocks s.pmm = b :: rest) :
    Prepared s (cleared s b) d b ∧ Kept s.pmm.mem (cleared s b).pmm.mem d changed := by
  have free : b ∈ freeBlocks s.pmm := by simp [shape]
  have taken := prepared_taken walkable shape
  have outside (lo hi : Nat) (clear : hi ≤ b * pageSize ∨ b * pageSize + pageSize ≤ lo) :
      AgreeOn (bitmapSet s.pmm b).mem (memset (bitmapSet s.pmm b).mem (b * pageSize) 0 pageSize) lo hi :=
    memset_outside clear
  refine ⟨prepared_store taken (freeBlocks_high walkable.below free).1 outside, ?_⟩
  exact kept_trans (kept_taken walkable free) (kept_outside taken.grown.walkable taken.apart outside)

theorem cleared_free (walkable : Walkable s d) (shape : freeBlocks s.pmm = b :: rest) :
    freeBlocks (cleared s b).pmm = rest := by
  have high := (freeBlocks_high walkable.below (show b ∈ freeBlocks s.pmm by simp [shape])).1
  refine (freeBlocks_agree (bitmapBelow_set walkable.below b) ?_).trans (freeBlocks_set walkable.below shape)
  exact memset_outside (.inl (by unfold pageSize; omega))

theorem cleared_entry (walkable : Walkable s d) (shape : freeBlocks s.pmm = b :: rest) (small : k < 1023) :
    entry (cleared s b).pmm.mem d k = entry s.pmm.mem d k := by
  have free : b ∈ freeBlocks s.pmm := by simp [shape]
  obtain ⟨aligned, high⟩ := taken_aligned walkable.taken
  have apart := frames_apart aligned (Nat.mul_mod_left b pageSize) fun same =>
    free_not_taken free (same ▸ walkable.taken)
  have bits : AgreeOn s.pmm.mem (bitmapSet s.pmm b).mem d (d + pageSize) := fun x above below =>
    bitmapSet_agree walkable.below free x (Nat.le_trans high above) below
  exact entry_agree (agreeOn_trans bits (memset_outside apart)) (by omega)

theorem cleared_sound (sound : Sound s d) (shape : freeBlocks s.pmm = b :: rest) : Sound (cleared s b) d := by
  obtain ⟨prepared, -⟩ := cleared_prepared (fun _ => False) sound.walkable shape
  refine sound_grown sound prepared.grown (fun _ => False.elim) (fun _ _ => False.elim) fun f table => .inl ?_
  obtain ⟨i, small, found⟩ := table
  rw [cleared_entry sound.walkable shape small] at found
  exact ⟨i, small, found⟩

/-- The next round, where the kernel reaches the frame. -/
theorem sbrkPages_succ (walkable : Walkable s d) (shape : freeBlocks s.pmm = b :: rest) (page : Nat)
    (reached : Identity { s with pmm := bitmapSet s.pmm b } (b * pageSize)) :
    sbrkPages d (n + 1) page s =
      match vmmMapPageInDirectory (cleared s b) d (b * pageSize) page userPage with
      | .error frame => .error frame
      | .ok s => sbrkPages d n (page + pageSize) s := by
  obtain ⟨handed, nonzero⟩ := alloc_first walkable shape
  rw [sbrkPages, handed]
  dsimp only
  rw [if_neg nonzero, if_neg (not_not.mpr reached)]
  rfl

theorem sbrkPages_none (walkable : Walkable s d) (none : freeBlocks s.pmm = []) (page : Nat) :
    sbrkPages d (n + 1) page s = .ok (true, s) := by
  rw [sbrkPages, alloc_none walkable none]
  rfl

theorem sbrkPages_stuck (walkable : Walkable s d) (shape : freeBlocks s.pmm = b :: rest) (page : Nat)
    (unreached : ¬ Identity { s with pmm := bitmapSet s.pmm b } (b * pageSize)) :
    sbrkPages d (n + 1) page s = .error (b * pageSize) := by
  obtain ⟨handed, nonzero⟩ := alloc_first walkable shape
  rw [sbrkPages, handed]
  dsimp only
  rw [if_neg nonzero, if_pos unreached]

/-- A round that succeeds keeps the other pages. -/
theorem round_kept (walkable : Walkable s d) (shape : freeBlocks s.pmm = b :: rest) (positive : 0 < p)
    (top : p < 0xFFC00)
    (ran : vmmMapPageInDirectory (cleared s b) d (b * pageSize) (p * pageSize) userPage = .ok t) :
    Walkable t d ∧ Kept s.pmm.mem t.pmm.mem d (· = p) ∧
    (∀ c, bitmapTest s.pmm c = true → bitmapTest t.pmm c = true) ∧
      bitmapTest t.pmm b = true := by
  obtain ⟨index, number, aligned⟩ := page_index p
  obtain ⟨prepared, kept⟩ := cleared_prepared (· = p) walkable shape
  have mapped := kept_mapPage prepared.grown.walkable (by omega) ran
  rw [number] at mapped
  have own (taken : Taken t.pmm (b * pageSize)) : bitmapTest t.pmm b = true := by
    obtain ⟨c, same, set, -⟩ := taken
    obtain rfl : b = c := Nat.eq_of_mul_eq_mul_right (by decide) same
    exact set
  rcases fresh_map prepared (by omega) aligned (by unfold pageSize; omega) ran with ⟨rfl, -⟩ | ⟨fresh, -⟩
  · exact ⟨prepared.grown.walkable, kept, prepared.grown.bits, own prepared.taken⟩
  · exact ⟨fresh.grown.walkable, kept_trans kept mapped, fresh.grown.bits, own fresh.taken⟩

/-! ## Counting frames -/

theorem identity_taken (sound : Sound s d) (shape : freeBlocks s.pmm = b :: rest) :
    Identity { s with pmm := bitmapSet s.pmm b } (b * pageSize) ↔ Identity s (b * pageSize) := by
  have taken : Grown s { s with pmm := bitmapSet s.pmm b } d fun _ => False := grown_taken sound.walkable shape
  have small : pdIndex (b * pageSize) < 1023 := by
    unfold pdIndex pageSize
    by_cases low : b < 0x800
    · omega
    · have := (sound.high b (by simp [shape]) (by omega)).1
      omega
  unfold Identity
  rw [taken.same.2.1, sound.active, taken.walks _ small id]

theorem cleared_reachable (sound : Sound s d) (shape : freeBlocks s.pmm = b :: rest)
    (reached : Identity s (b * pageSize)) :
    reachable s = b :: reachable (cleared s b) := by
  obtain ⟨prepared, -⟩ := cleared_prepared (fun _ => False) sound.walkable shape
  refine reachable_cons (by rw [shape, cleared_free sound.walkable shape]) reached fun c free => ?_
  exact identity_free sound prepared.grown (fun _ => False.elim) (fun _ _ => False.elim) free

theorem placed_identity (sound : Sound s d) (placed : Placed s t d p b) (high : 0x800 ≤ p)
    (taken : Taken s.pmm (b * pageSize))
    (free : c ∈ freeBlocks t.pmm) : Identity t (c * pageSize) ↔ Identity s (c * pageSize) := by
  refine identity_free sound placed.grown (fun v moved => moved ▸ high) (fun e member moved itself => ?_) free
  subst moved
  have held := taken_mono placed.grown.bits taken
  obtain ⟨a, same, -, -, bound⟩ := taken
  have names := names_present bound userPage
  rw [translate_leaf, placed.page, same, if_pos names.1, names.2, (page_index e).2.2, Nat.add_zero, ← same] at itself
  exact free_not_taken member (Option.some.inj itself ▸ held)

theorem missing_pos {m : Mem} (absent : isPresent (entry m d (p / 1024)) = false) (n : Nat) :
    0 < missing m d p (n + 1) := by
  refine Finset.card_pos.mpr ⟨p / 1024, Finset.mem_filter.mpr ⟨List.mem_toFinset.mpr ?_, absent⟩⟩
  exact List.mem_map.mpr ⟨p, List.mem_range'_1.mpr ⟨Nat.le_refl p, by omega⟩, rfl⟩

/-- A round that maps its page uses what it needs of the free frames. -/
structure Advanced (s t : Machine) (d p : Nat) : Prop where
  sound : Sound t d
  table : isPresent (entry t.pmm.mem d (p / 1024)) = true
  page : grantsUser (leaf t.pmm.mem d (p * pageSize)) = true
  balance : ∀ n, p + n < 1023 * 1024 → (reachable s).length + (n + missing t.pmm.mem d (p + 1) n) =
    (reachable t).length + (n + 1 + missing s.pmm.mem d p (n + 1))

/-- The round maps its page, or there is no frame, or none that the kernel
reaches, for the table. -/
theorem round_cases (sound : Sound s d) (high : 0x800 ≤ p) (top : p < 0xFFC00) (shape : freeBlocks s.pmm = b :: rest)
    (reached : Identity s (b * pageSize)) :
    (∃ t, vmmMapPageInDirectory (cleared s b) d (b * pageSize) (p * pageSize) userPage = .ok t ∧
    Advanced s t d p) ∨
      ((reachable s).length = 1 ∧ isPresent (entry s.pmm.mem d (p / 1024)) = false ∧
        ((rest = [] ∧ vmmMapPageInDirectory (cleared s b) d (b * pageSize) (p * pageSize) userPage =
        .ok (cleared s b)) ∨
          ∃ f, vmmMapPageInDirectory (cleared s b) d (b * pageSize) (p * pageSize) userPage = .error f)) := by
  have soundU := cleared_sound sound shape
  have taken := (cleared_prepared (fun _ => False) sound.walkable shape).1.taken
  have free := cleared_free sound.walkable shape
  have same (i : Nat) (small : i < 1023) := cleared_entry sound.walkable shape small
  have queue := cleared_reachable sound shape reached
  have later (t : Machine) (placed : Placed (cleared s b) t d p b) (i : Nat) (small : i < 1023) (ne : i ≠ p / 1024) :
      isPresent (entry t.pmm.mem d i) = false ↔ isPresent (entry s.pmm.mem d i) = false := by
    rw [placed.others i small ne, same i small]
  have page (t : Machine) (placed : Placed (cleared s b) t d p b) :
      grantsUser (leaf t.pmm.mem d (p * pageSize)) = true := by
    rw [placed.page]
    exact grantsUser_entry _
  by_cases present : isPresent (entry s.pmm.mem d (p / 1024)) = true
  · left
    obtain ⟨t, ran, placed, freeT⟩ := place_present soundU high top taken (by rwa [same _ (by omega)])
    refine ⟨t, ran, placed.sound, placed.table, page t placed, fun n bound => ?_⟩
    have queueT : reachable t = reachable (cleared s b) := by
      unfold reachable
      rw [freeT]
      refine takeWhile_congr fun c member => decide_eq_decide.mpr ?_
      exact placed_identity soundU placed high taken (freeT ▸ member)
    have count := missing_succ_present (n := n) (m := s.pmm.mem) (r := t.pmm.mem) bound present fun i small => by
      by_cases own : i = p / 1024
      · rw [own, placed.table, present]
      · exact later t placed i small own
    rw [queueT, queue, count, List.length_cons]
    omega
  · have absent := Bool.eq_false_iff.mpr present
    have absentU : ¬ isPresent (entry (cleared s b).pmm.mem d (p / 1024)) = true := by rwa [same _ (by omega)]
    cases shapeU : rest with
    | nil =>
      right
      rw [shapeU] at free
      refine ⟨?_, absent, .inl ⟨rfl, place_none soundU high taken absentU free⟩⟩
      rw [queue, reachable, free]
      rfl
    | cons c rest' =>
      rw [shapeU] at free
      by_cases reachedC : Identity (cleared s b) (c * pageSize)
      · left
        obtain ⟨t, ran, placed, freeT⟩ := place_absent soundU high top taken absentU free reachedC
        refine ⟨t, ran, placed.sound, placed.table, page t placed, fun n bound => ?_⟩
        have queueT := reachable_cons (by rw [free, freeT]) reachedC fun e member =>
          placed_identity soundU placed high taken member
        have count := missing_succ_absent (n := n) (m := s.pmm.mem) (r := t.pmm.mem) bound absent placed.table
          (later t placed)
        rw [queue, queueT, count, List.length_cons, List.length_cons]
        omega
      · right
        refine ⟨?_, absent, .inr ⟨_, place_stuck soundU high top taken absentU free reachedC⟩⟩
        rw [queue, reachable_stuck free reachedC]
        rfl

/-! ## The loop -/

/-- A loop that ends keeps the other pages, and the frames that it took stay taken. -/
theorem sbrkPages_kept (walkable : Walkable s d) (positive : 0 < p) (top : p + n ≤ 0xFFC00)
    (ran : sbrkPages d n (p * pageSize) s = .ok (failed, t)) :
    Walkable t d ∧ Kept s.pmm.mem t.pmm.mem d (fun v => p ≤ v ∧ v < p + n) ∧
      (∀ c, bitmapTest s.pmm c = true → bitmapTest t.pmm c = true) ∧
      (0 < n → ∀ b rest, freeBlocks s.pmm = b :: rest → bitmapTest t.pmm b = true) := by
  induction n generalizing s p with
  | zero =>
    cases ran
    exact ⟨walkable, kept_refl _ _ _, fun _ set => set, fun less => absurd less (Nat.lt_irrefl 0)⟩
  | succ n ih =>
    cases shape : freeBlocks s.pmm with
    | nil =>
      rw [sbrkPages_none walkable shape] at ran
      cases ran
      exact ⟨walkable, kept_refl _ _ _, fun _ set => set, nofun⟩
    | cons b rest =>
      by_cases reached : Identity { s with pmm := bitmapSet s.pmm b } (b * pageSize)
      · rw [sbrkPages_succ walkable shape _ reached] at ran
        split at ran
        · cases ran
        · rename_i u mapped
          obtain ⟨walkableU, keptU, bitsU, own⟩ := round_kept walkable shape positive (by omega) mapped
          rw [← Nat.succ_mul] at ran
          obtain ⟨walkableT, keptT, bitsT, -⟩ := ih walkableU (Nat.succ_pos p) (by omega) ran
          refine ⟨walkableT, kept_trans (kept_weaken keptU ?_) (kept_weaken keptT ?_), fun c set =>
            bitsT c (bitsU c set), ?_⟩
          · rintro v rfl
            omega
          · rintro v ⟨lower, upper⟩
            omega
          · rintro - c rest' same
            obtain ⟨rfl, -⟩ := List.cons.inj same
            exact bitsT b own
      · rw [sbrkPages_stuck walkable shape _ reached] at ran
        cases ran

theorem first_reachable (some : 0 < (reachable s).length) :
    ∃ b rest, freeBlocks s.pmm = b :: rest ∧ Identity s (b * pageSize) := by
  cases shape : freeBlocks s.pmm with
  | nil =>
    rw [reachable, shape] at some
    exact absurd some (Nat.lt_irrefl 0)
  | cons b rest =>
    refine ⟨b, rest, rfl, ?_⟩
    by_contra unreached
    rw [reachable_stuck shape unreached] at some
    exact absurd some (Nat.lt_irrefl 0)

/-- With enough frames for the pages and the missing tables every page is mapped. -/
theorem sbrkPages_enough (sound : Sound s d) (high : 0x800 ≤ p) (top : p + n ≤ 0xFFC00)
    (enough : n + missing s.pmm.mem d p n ≤ (reachable s).length) :
    ∃ t, sbrkPages d n (p * pageSize) s = .ok (false, t) ∧ Sound t d ∧ ∀ v, p ≤ v → v < p + n →
      isPresent (entry t.pmm.mem d (v / 1024)) = true ∧ grantsUser (leaf t.pmm.mem d (v * pageSize)) = true := by
  induction n generalizing s p with
  | zero => exact ⟨s, rfl, sound, fun v lower upper => absurd upper (Nat.not_lt.mpr lower)⟩
  | succ n ih =>
    obtain ⟨b, rest, shape, reached⟩ := first_reachable (Nat.lt_of_lt_of_le (by omega) enough)
    rcases round_cases sound high (by omega) shape reached with ⟨u, mapped, advanced⟩ | ⟨one, absent, -⟩
    · have balance := advanced.balance n (by omega)
      obtain ⟨t, ran, soundT, pages⟩ :=
        ih (p := p + 1) advanced.sound (Nat.le_succ_of_le high) (by omega) (by omega)
      obtain ⟨-, kept, -, -⟩ := sbrkPages_kept advanced.sound.walkable (Nat.succ_pos p) (by omega) ran
      refine ⟨t, ?_, soundT, fun v lower upper => ?_⟩
      · rw [sbrkPages_succ sound.walkable shape _ ((identity_taken sound shape).mpr reached), mapped, ← Nat.succ_mul]
        exact ran
      · by_cases own : v = p
        · obtain ⟨index, number, -⟩ := page_index v
          subst own
          rw [kept.old _ (by omega) advanced.table, kept.leaves _ (by omega) (by rw [number]; omega)]
          exact ⟨advanced.table, advanced.page⟩
        · exact pages v (by omega) (by omega)
    · have := missing_pos absent n
      omega

/-- With fewer frames the loop does not end with every page mapped. -/
theorem sbrkPages_short (sound : Sound s d) (high : 0x800 ≤ p) (top : p + n ≤ 0xFFC00)
    (short : (reachable s).length < n + missing s.pmm.mem d p n)
    (ran : sbrkPages d n (p * pageSize) s = .ok (false, t)) :
    ∃ v, p ≤ v ∧ v < p + n ∧ leaf t.pmm.mem d (v * pageSize) = 0 := by
  induction n generalizing s p with
  | zero =>
    rw [Nat.zero_add] at short
    exact absurd short (Nat.not_lt_zero _)
  | succ n ih =>
    cases shape : freeBlocks s.pmm with
    | nil =>
      rw [sbrkPages_none sound.walkable shape] at ran
      cases ran
    | cons b rest =>
      by_cases reached : Identity s (b * pageSize)
      · rw [sbrkPages_succ sound.walkable shape _ ((identity_taken sound shape).mpr reached)] at ran
        rcases round_cases sound high (by omega) shape reached with
          ⟨u, mapped, advanced⟩ | ⟨-, absent, ⟨rfl, mapped⟩ | ⟨f, mapped⟩⟩
        · have balance := advanced.balance n (by omega)
          rw [mapped, ← Nat.succ_mul] at ran
          obtain ⟨v, lower, upper, unmapped⟩ := ih (p := p + 1) advanced.sound (Nat.le_succ_of_le high)
            (by omega) (by omega) ran
          exact ⟨v, by omega, by omega, unmapped⟩
        · rw [mapped] at ran
          cases n with
          | zero =>
            cases ran
            refine ⟨p, Nat.le_refl p, Nat.lt_succ_self p, leaf_absent ?_⟩
            rw [(page_index p).1, cleared_entry sound.walkable shape (by omega), absent]
            decide
          | succ n =>
            dsimp only at ran
            rw [sbrkPages_none (cleared_sound sound shape).walkable (cleared_free sound.walkable shape)] at ran
            cases ran
        · rw [mapped] at ran
          cases ran
      · rw [sbrkPages_stuck sound.walkable shape _ fun found => reached ((identity_taken sound shape).mp found)] at ran
        cases ran

end

end MeowMeowOS.HeapGrowth

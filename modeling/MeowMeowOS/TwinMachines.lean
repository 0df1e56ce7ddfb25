import MeowMeowOS.LoadedTasks

/-! Two machines that differ only in what their free frames hold, and in frames
that were just taken. What the kernel does to both leaves them so, since it
reads neither. -/
namespace MeowMeowOS.TwinMachines
open ByteMemory PhysicalFrames VirtualMemory BootFrames FreeFrames AddressSpaces DirectoryLayout MappedPages ElfLoading
open LoadedImage TaskMemory PageEntries HeapGrowth OwnedPages LoadedTasks

def FreeFrame (s : PmmState) (c : Nat) : Prop := c < s.pmmMaxBlocks ∧ bitmapTest s c = false

/-- The machines agree outside the free frames and the frames `extra`, which are
taken. -/
structure Twins (s s' : Machine) (extra : Nat → Prop) : Prop where
  below : BitmapBelow s.pmm
  held : ∀ c, extra c → Taken s.pmm (c * pageSize)
  frames : SameFrames s.pmm s'.pmm
  same : s'.kernelDirectory = s.kernelDirectory ∧ s'.cr3 = s.cr3 ∧ s'.heapCurrentEnd = s.heapCurrentEnd ∧
    s'.directories = s.directories
  memory : ∀ x, ¬ FreeFrame s.pmm (x / pageSize) → ¬ extra (x / pageSize) → s'.pmm.mem x = s.pmm.mem x

/-- Two machines that differ only in the contents of free frames. -/
def Alike (s s' : Machine) : Prop := Twins s s' fun _ => False

/-- The directory `d` has the entries it had, and maybe more. -/
def KeptEntries (s t : Machine) (d : Nat) : Prop := Kept s.pmm.mem t.pmm.mem d fun _ => True

section
variable {s s' t t' : Machine} {m m' : Mem} {d b c f i n p w phys flags : Nat} {rest : List Nat}
    {extra more : Nat → Prop}

theorem twins_bitmap (twins : Twins s s' extra) : AgreeOn s.pmm.mem s'.pmm.mem 0x200000 0x300000 := by
  intro x above below
  have number : x / pageSize < 0x300 := by
    unfold pageSize
    omega
  refine twins.memory x (fun free => ?_) fun held => ?_
  · have := twins.below.free _ free.1 free.2
    omega
  · have := (taken_aligned (twins.held _ held)).2
    unfold pageSize at *
    omega

theorem twins_pmm (twins : Twins s s' extra) : s'.pmm = { s.pmm with mem := s'.pmm.mem } := by
  obtain ⟨bitmap, blocks⟩ := twins.frames
  change s'.pmm = ⟨s'.pmm.mem, s.pmm.pmmBitmap, s.pmm.pmmMaxBlocks⟩
  rw [← bitmap, ← blocks]

theorem twins_free (twins : Twins s s' extra) : freeBlocks s'.pmm = freeBlocks s.pmm := by
  rw [twins_pmm twins]
  exact freeBlocks_agree twins.below (twins_bitmap twins)

theorem twins_below (twins : Twins s s' extra) : BitmapBelow s'.pmm := by
  rw [twins_pmm twins]
  exact bitmapBelow_agree twins.below (twins_bitmap twins)

/-- A frame that is neither free nor one of the `extra` ones holds the same in both. -/
theorem twins_occupied (twins : Twins s s' extra) (occupied : Occupied s.pmm f) (apart : ¬ extra (f / pageSize)) :
    AgreeOn s.pmm.mem s'.pmm.mem f (f + pageSize) := by
  intro x above below
  obtain ⟨c, rfl, set, -⟩ := occupied
  have number : x / pageSize = c := by
    unfold pageSize at *
    omega
  rw [Nat.mul_div_cancel c (by decide)] at apart
  refine twins.memory x (fun free => ?_) (number.symm ▸ apart)
  rw [number] at free
  have clear := free.2
  rw [set free.1] at clear
  cases clear

theorem twins_page (twins : Twins s s' extra) (taken : Taken s.pmm f) (apart : ¬ extra (f / pageSize)) :
    AgreeOn s.pmm.mem s'.pmm.mem f (f + pageSize) := twins_occupied twins (taken_occupied taken) apart

/-- The directory and its tables are none of the `extra` frames. -/
def Apart (extra : Nat → Prop) (s : Machine) (d : Nat) : Prop :=
  ¬ extra (d / pageSize) ∧ ∀ f, IsTable s.pmm.mem d f → ¬ extra (f / pageSize)

theorem apart_grown (grown : Grown s t d changed) (held : ∀ c, extra c → Taken s.pmm (c * pageSize))
    (apart : Apart extra s d) :
    Apart extra t d := by
  refine ⟨apart.1, fun f table was => ?_⟩
  have aligned := (taken_aligned (grown.walkable.tables f table).1).1
  have whole : f / pageSize * pageSize = f := Nat.div_mul_cancel (Nat.dvd_of_mod_eq_zero aligned)
  rcases grown.tables f table with old | new
  · exact apart.2 f old was
  · exact new (taken_occupied (whole ▸ held _ was))

theorem twins_entry (twins : Twins s s' extra) (walkable : Walkable s d) (apart : Apart extra s d) (small : i < 1024) :
    entry s'.pmm.mem d i = entry s.pmm.mem d i := entry_agree (twins_page twins walkable.taken apart.1) small

theorem twins_leaf (twins : Twins s s' extra) (walkable : Walkable s d) (apart : Apart extra s d)
    (small : pdIndex w < 1023) :
    leaf s'.pmm.mem d w = leaf s.pmm.mem d w :=
  leaf_agree small (twins_page twins walkable.taken apart.1) fun f table =>
    twins_page twins (walkable.tables f table).1 (apart.2 f table)

/-! ## Stores into both -/

theorem twins_store (twins : Twins s s' extra) (held : ∀ c, more c → Taken s.pmm (c * pageSize))
    (bitmap : AgreeOn s.pmm.mem m 0x200000 0x300000)
    (bytes : ∀ x, ¬ FreeFrame s.pmm (x / pageSize) → ¬ more (x / pageSize) → m' x = m x) :
    Twins (s.store m) (s'.store m') more := by
  have bits (c : Nat) : bitmapTest (s.store m).pmm c = bitmapTest s.pmm c := bitmapTest_agree twins.below bitmap c
  refine ⟨bitmapBelow_agree twins.below bitmap, fun c was => ?_, twins.frames, twins.same, fun x free other => ?_⟩
  · exact taken_mono (fun c set => (bits c).trans set) (held c was)
  · refine bytes x (fun was => free ⟨was.1, (bits _).trans was.2⟩) other

theorem writeWord_at (a v x : Nat) (same : m' x = m x) : writeWord m' a v x = writeWord m a v x := by
  unfold writeWord
  rw [same]

theorem twins_setEntry (twins : Twins s s' extra) (high : 0x300000 ≤ f) (i v : Nat) :
    Twins (s.store (setEntry s.pmm.mem f i v)) (s'.store (setEntry s'.pmm.mem f i v)) extra := by
  refine twins_store twins twins.held (writeWord_agree _ _ _ _ _ (Or.inr (by omega))) fun x free other => ?_
  exact writeWord_at _ _ _ (twins.memory x free other)

theorem memset_at (x : Nat) (same : m' x = m x) : memset m' a v n x = memset m a v n x := by
  unfold memset
  rw [same]

/-- A cleared frame is the same in both. -/
theorem twins_clear (twins : Twins s s' extra) (high : 0x300 ≤ b) (others : ∀ c, extra c → c ≠ b → more c)
    (held : ∀ c, more c → Taken s.pmm (c * pageSize)) :
    Twins (s.store (memset s.pmm.mem (b * pageSize) 0 pageSize))
    (s'.store (memset s'.pmm.mem (b * pageSize) 0 pageSize)) more := by
  refine twins_store twins held (memset_outside (.inl (by unfold pageSize; omega))) fun x free other => ?_
  by_cases own : x / pageSize = b
  · unfold memset
    have inside : b * pageSize ≤ x ∧ x < b * pageSize + pageSize := by
      unfold pageSize at *
      omega
    rw [if_pos inside, if_pos inside]
  · exact memset_at x (twins.memory x free fun was => other (others _ was own))

/-! ## Taking and returning a frame -/

theorem bitmapWord_twins (twins : Twins s s' extra) (small : b < 2 ^ 20) :
    bitmapWord s'.pmm (b / 32) = bitmapWord s.pmm (b / 32) := by
  unfold bitmapWord
  rw [twins.frames.1, twins.below.bitmap]
  exact readWord_agree (twins_bitmap twins) (by omega) (by omega)

theorem bitmapSet_at (twins : Twins s s' extra) (x : Nat) (same : s'.pmm.mem x = s.pmm.mem x) :
    (bitmapSet s'.pmm b).mem x = (bitmapSet s.pmm b).mem x := by
  have valid : pmmBlockIsValid s'.pmm b = pmmBlockIsValid s.pmm b := sameFrames_valid twins.frames b
  unfold bitmapSet
  rw [valid]
  split
  · rename_i managed
    simp only [pmmBlockIsValid, decide_eq_true_eq] at managed
    have blocks := twins.below.blocks
    rw [bitmapWord_twins twins (by omega)]
    unfold setBitmapWord
    dsimp only
    rw [twins.frames.1]
    exact writeWord_at _ _ _ same
  · exact same

theorem bitmapUnset_at (twins : Twins s s' extra) (x : Nat) (same : s'.pmm.mem x = s.pmm.mem x) :
    (bitmapUnset s'.pmm b).mem x = (bitmapUnset s.pmm b).mem x := by
  have valid : pmmBlockIsValid s'.pmm b = pmmBlockIsValid s.pmm b := sameFrames_valid twins.frames b
  unfold bitmapUnset
  rw [valid]
  split
  · rename_i managed
    simp only [pmmBlockIsValid, decide_eq_true_eq] at managed
    have blocks := twins.below.blocks
    rw [bitmapWord_twins twins (by omega)]
    unfold setBitmapWord
    dsimp only
    rw [twins.frames.1]
    exact writeWord_at _ _ _ same
  · exact same

theorem twins_take (twins : Twins s s' extra) (free : b ∈ freeBlocks s.pmm) :
    Twins { s with pmm := bitmapSet s.pmm b } { s' with pmm := bitmapSet s'.pmm b } fun c => extra c ∨ c = b := by
  obtain ⟨inside, clear⟩ := mem_freeBlocks.mp free
  obtain ⟨high, small⟩ := freeBlocks_high twins.below free
  have valid : pmmBlockIsValid s.pmm b = true := by
    simp only [pmmBlockIsValid, twins.below.bitmap, decide_eq_true_eq]
    omega
  have bits (c : Nat) (set : bitmapTest s.pmm c = true) : bitmapTest (bitmapSet s.pmm b) c = true := by
    rw [bitmapTest_bitmapSet, set]
    rfl
  have frames : SameFrames (bitmapSet s.pmm b) (bitmapSet s'.pmm b) := by
    obtain ⟨bitmap, blocks⟩ := bitmapSet_same s.pmm b
    obtain ⟨bitmap', blocks'⟩ := bitmapSet_same s'.pmm b
    exact ⟨bitmap'.trans (twins.frames.1.trans bitmap.symm), blocks'.trans (twins.frames.2.trans blocks.symm)⟩
  refine ⟨bitmapBelow_set twins.below b, ?_, frames, twins.same, fun x free other => ?_⟩
  · rintro c (was | rfl)
    · exact taken_mono bits (twins.held c was)
    · exact ⟨c, rfl, by simp [bitmapTest_bitmapSet, valid], high, small⟩
  · obtain ⟨was, ne⟩ := not_or.mp other
    refine bitmapSet_at twins x (twins.memory x (fun open_ => free ?_) was)
    refine ⟨(bitmapSet_same s.pmm b).2.symm ▸ open_.1, ?_⟩
    rw [bitmapTest_bitmapSet, open_.2, decide_eq_false ne]
    rfl

theorem twins_alloc (twins : Twins s s' extra) :
    (freeBlocks s.pmm = [] ∧ pmmAllocBlock s.pmm = (0, s.pmm) ∧ pmmAllocBlock s'.pmm = (0, s'.pmm)) ∨
      ∃ b rest, freeBlocks s.pmm = b :: rest ∧ 0x300 ≤ b ∧ ¬ b * pageSize = 0 ∧
        pmmAllocBlock s.pmm = (b * pageSize, bitmapSet s.pmm b) ∧ pmmAllocBlock s'.pmm =
        (b * pageSize, bitmapSet s'.pmm b) ∧
        Twins { s with pmm := bitmapSet s.pmm b } { s' with pmm := bitmapSet s'.pmm b } fun c => extra c ∨ c = b := by
  have queue := twins_free twins
  rcases pmmAllocBlock_pops twins.below with ⟨none, failed⟩ | ⟨b, rest, shape, handed, -⟩
  · rcases pmmAllocBlock_pops (twins_below twins) with ⟨-, failed'⟩ | ⟨b, rest, shape, -⟩
    · exact .inl ⟨none, failed, failed'⟩
    · rw [queue, none] at shape
      cases shape
  · rcases pmmAllocBlock_pops (twins_below twins) with ⟨none, -⟩ | ⟨b', rest', shape', handed', -⟩
    · rw [queue, shape] at none
      cases none
    · obtain ⟨rfl, -⟩ := List.cons.inj (shape.symm.trans (queue.symm.trans shape'))
      have free : b ∈ freeBlocks s.pmm := by simp [shape]
      have high := (freeBlocks_high twins.below free).1
      refine .inr ⟨b, rest, shape, high, ?_, handed, handed', twins_take twins free⟩
      unfold pageSize
      omega

/-- The frame holds the same in both. -/
theorem twins_same (twins : Twins s s' fun c => extra c ∨ c = b)
    (same : ∀ x, x / pageSize = b → s'.pmm.mem x = s.pmm.mem x) :
    Twins s s' extra := by
  refine ⟨twins.below, fun c was => twins.held c (.inl was), twins.frames, twins.same, fun x free other => ?_⟩
  by_cases own : x / pageSize = b
  · exact same x own
  · exact twins.memory x free fun was => was.elim other own

theorem twins_cleared (twins : Twins s s' extra) (free : b ∈ freeBlocks s.pmm) :
    Twins (cleared s b) (cleared s' b) extra := by
  have taken := twins_take twins free
  refine twins_clear taken (freeBlocks_high twins.below free).1 (fun c was ne => was.resolve_right ne) fun c was => ?_
  exact taken.held c (.inl was)

/-! ## Mapping a page in both -/

theorem twins_setPage (twins : Twins s s' extra) (walkable : Walkable s d) (apart : Apart extra s d)
    (small : pdIndex w < 1023)
    (present : isPresent (entry s.pmm.mem d (pdIndex w)) = true) (ran : setPage s d phys w flags = .ok t)
    (ran' : setPage s' d phys w flags = .ok t') : Twins t t' extra := by
  have high := (taken_aligned (walkable.tables _ ⟨_, small, present, rfl⟩).1).2
  unfold setPage at ran ran'
  rw [twins_entry twins walkable apart (Nat.lt_of_lt_of_le small (by decide))] at ran'
  dsimp only at ran ran'
  rw [if_neg (by omega)] at ran ran'
  split at ran
  · cases ran
  · split at ran'
    · cases ran'
    · cases ran
      cases ran'
      exact twins_setEntry twins high _ _

/-- Both calls do the same, since neither reads a free frame. -/
theorem twins_map (twins : Twins s s' extra) (walkable : Walkable s d) (apart : Apart extra s d)
    (small : pdIndex w < 1023)
    (ran : vmmMapPageInDirectory s d phys w flags = .ok t) (ran' : vmmMapPageInDirectory s' d phys w flags = .ok t') :
    Twins t t' extra := by
  have highD := (taken_aligned walkable.taken).2
  unfold vmmMapPageInDirectory at ran ran'
  rw [twins_entry twins walkable apart (Nat.lt_of_lt_of_le small (by decide))] at ran'
  split at ran
  · rename_i directory
    rw [if_pos directory] at ran'
    cases ran
    cases ran'
    exact twins
  · rename_i directory
    rw [if_neg directory] at ran'
    split at ran
    · rename_i null
      rw [if_pos null] at ran'
      cases ran
      cases ran'
      exact twins
    · rename_i null
      rw [if_neg null] at ran'
      split at ran
      · rename_i unaligned
        rw [if_pos unaligned] at ran'
        cases ran
        cases ran'
        exact twins
      · rename_i unaligned
        rw [if_neg unaligned] at ran'
        split at ran
        · cases ran
        · split at ran'
          · cases ran'
          · split at ran
            · rename_i present
              rw [if_pos present] at ran'
              exact twins_setPage twins walkable apart small present ran ran'
            · rename_i absent
              rw [if_neg absent] at ran'
              rcases twins_alloc twins with ⟨-, failed, failed'⟩ | ⟨c, rest, shape, high, nonzero, handed,
                handed', taken⟩
              · rw [failed] at ran
                rw [failed'] at ran'
                dsimp only at ran ran'
                rw [if_pos rfl] at ran ran'
                cases ran
                cases ran'
                exact twins
              · rw [handed] at ran
                rw [handed'] at ran'
                dsimp only at ran ran'
                rw [if_neg nonzero] at ran ran'
                split at ran
                · cases ran
                · split at ran'
                  · cases ran'
                  · obtain ⟨grown, present⟩ := grown_newTable flags (fun _ => False) walkable shape small absent
                    have named := twins_setEntry taken highD (pdIndex w) (presentEntry (c * pageSize) flags)
                    have emptied := twins_clear named high (fun e was ne =>
                      was.resolve_right ne) fun e was => named.held e (.inl was)
                    exact twins_setPage emptied grown.walkable (apart_grown grown twins.held apart) small present ran
                      ran'

/-! ## The calls -/

theorem apart_none : Apart (fun _ => False) s d := ⟨id, fun _ _ => id⟩

theorem twins_sbrkPages (alike : Alike s s') (owned : Owned s d) (positive : 0 < p) (top : p + n ≤ 0xFFC00)
    (ran : sbrkPages d n (p * pageSize) s = .ok (failed, t))
    (ran' : sbrkPages d n (p * pageSize) s' = .ok (failed', t')) :
    failed' = failed ∧ Alike t t' ∧ Owned t d ∧ KeptEntries s t d := by
  induction n generalizing s s' p with
  | zero =>
    cases ran
    cases ran'
    exact ⟨rfl, alike, owned, kept_refl _ _ _⟩
  | succ n ih =>
    unfold sbrkPages at ran ran'
    rcases twins_alloc alike with ⟨-, failed, failed'⟩ | ⟨b, rest, shape, high, nonzero, handed, handed', -⟩
    · rw [failed] at ran
      rw [failed'] at ran'
      dsimp only at ran ran'
      rw [if_pos rfl] at ran ran'
      cases ran
      cases ran'
      exact ⟨rfl, alike, owned, kept_refl _ _ _⟩
    · rw [handed] at ran
      rw [handed'] at ran'
      dsimp only at ran ran'
      rw [if_neg nonzero] at ran ran'
      split at ran
      · cases ran
      · split at ran'
        · cases ran'
        · split at ran
          · cases ran
          · rename_i u mapped
            split at ran'
            · cases ran'
            · rename_i u' mapped'
              obtain ⟨index, number, -⟩ := page_index p
              obtain ⟨prepared, kept⟩ := cleared_prepared (fun _ => False) owned.walkable shape
              obtain ⟨ownedU, keptU, -⟩ := owned_map owned prepared kept positive (by omega) mapped
              have emptied := twins_cleared alike (show b ∈ freeBlocks s.pmm by simp [shape])
              have alikeU : Alike u u' := twins_map emptied prepared.grown.walkable apart_none (by omega) mapped mapped'
              rw [← Nat.succ_mul] at ran ran'
              obtain ⟨same, alikeT, ownedT, keptT⟩ := ih alikeU ownedU (Nat.succ_pos p) (by omega) ran ran'
              exact ⟨same, alikeT, ownedT, kept_trans (kept_weaken keptU fun _ _ => trivial) keptT⟩

/-- The next free frame, where there is one, holds the same in both. -/
def SameNext (s s' : Machine) : Prop :=
  ∀ b rest, freeBlocks s.pmm = b :: rest → ∀ x, x / pageSize = b → s'.pmm.mem x = s.pmm.mem x

/-- Machines whose next frame is taken are alike as soon as it holds the same. -/
theorem twins_next (alike : Alike s s') (shape : freeBlocks s.pmm = b :: rest) (same : SameNext s s') :
    Alike { s with pmm := bitmapSet s.pmm b } { s' with pmm := bitmapSet s'.pmm b } := by
  refine twins_same (twins_take alike (show b ∈ freeBlocks s.pmm by simp [shape])) fun x own => ?_
  exact bitmapSet_at alike x (same b rest shape x own)

theorem pmmFreeBlock_at (twins : Twins s s' extra) (frame x : Nat) (same : s'.pmm.mem x = s.pmm.mem x) :
    (pmmFreeBlock s'.pmm frame).mem x = (pmmFreeBlock s.pmm frame).mem x := by
  have valid : pmmAddrIsValid s'.pmm frame = pmmAddrIsValid s.pmm frame := by
    unfold pmmAddrIsValid
    rw [twins.frames.1, twins.frames.2]
  unfold pmmFreeBlock
  rw [valid]
  split
  · exact same
  · split
    · exact bitmapUnset_at twins x same
    · exact same

/-- A frame that was taken is given back. -/
theorem twins_freed (twins : Twins s s' fun c => False ∨ c = b) (high : 0x300 ≤ b) :
    Alike (freed s (b * pageSize)) (freed s' (b * pageSize)) := by
  obtain ⟨bitmap, blocks⟩ := pmmFreeBlock_same s.pmm (b * pageSize)
  obtain ⟨bitmap', blocks'⟩ := pmmFreeBlock_same s'.pmm (b * pageSize)
  refine ⟨pmmFreeBlock_below twins.below high, nofun, ?_, twins.same, fun x free _ => ?_⟩
  · exact ⟨bitmap'.trans (twins.frames.1.trans bitmap.symm), blocks'.trans (twins.frames.2.trans blocks.symm)⟩
  · have bits := pmmFreeBlock_bits s.pmm (b := b) (by omega) (x / pageSize)
    refine pmmFreeBlock_at twins _ x (twins.memory x (fun was => free ⟨blocks.symm ▸ was.1, ?_⟩) fun was => ?_)
    · exact bits.trans (by rw [was.2, Bool.false_and])
    · obtain own : x / pageSize = b := was.resolve_left id
      obtain ⟨c, same, set, -⟩ := twins.held b (.inr rfl)
      obtain rfl : b = c := Nat.eq_of_mul_eq_mul_right (by decide) same
      have inside : b < s.pmm.pmmMaxBlocks := by
        unfold bitmapTest at set
        simp only [pmmBlockIsValid, Bool.and_eq_true, decide_eq_true_eq] at set
        exact set.1.2
      rw [own] at free bits
      exact free ⟨blocks.symm ▸ inside, bits.trans (by rw [decide_eq_true rfl, Bool.not_true, Bool.and_false])⟩

end

end MeowMeowOS.TwinMachines

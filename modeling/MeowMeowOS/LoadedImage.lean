import MeowMeowOS.ElfLoading
import MeowMeowOS.MappedPages
import Mathlib.Data.List.Induction

/-! What a program finds in its memory when it starts, against what its file
says. The loader takes a new frame for every page of every segment, so of two
segments on one page the later one alone is there. -/
namespace MeowMeowOS.LoadedImage
open ByteMemory PhysicalFrames VirtualMemory FreeFrames BootFrames AddressSpaces DirectoryLayout MappedPages ElfLoading

/-- The segment lies in user space, and its part of the file in the file. -/
structure Fits (file : List UInt8) (ph : Elf32Phdr) : Prop where
  low : 0x800000 ≤ ph.pVaddr
  high : ph.pVaddr + ph.pMemsz ≤ 0xB0000000
  sizes : ph.pFilesz ≤ ph.pMemsz
  inFile : ph.pOffset + ph.pFilesz ≤ file.length

def Within (ph : Elf32Phdr) (a : Nat) : Prop := ph.pVaddr ≤ a ∧ a < ph.pVaddr + ph.pMemsz

/-- What the segment has at an address: its bytes of the file, then zeros. -/
def segmentByte (file : List UInt8) (ph : Elf32Phdr) (a : Nat) : UInt8 :=
  if ph.pVaddr ≤ a ∧ a < ph.pVaddr + ph.pFilesz then file.getD (ph.pOffset + (a - ph.pVaddr)) 0 else 0

/-- The pages that the page loop maps for a segment. -/
def Touches (ph : Elf32Phdr) (v : Nat) : Prop :=
  ph.pVaddr / pageSize ≤ v ∧ v < (ph.pVaddr + ph.pMemsz + 0xFFF) / pageSize

instance (ph : Elf32Phdr) (v : Nat) : Decidable (Touches ph v) := inferInstanceAs (Decidable (_ ∧ _))

def pageContent (file : List UInt8) (ph : Elf32Phdr) (v o : Nat) : UInt8 := segmentByte file ph (v * pageSize + o)

/-- The pages after these segments, the last one on a page first. -/
def imageOf (file : List UInt8) (segments : List Elf32Phdr) (v : Nat) : Option (Nat → UInt8) :=
  (segments.reverse.find? fun ph => Touches ph v).map fun ph => pageContent file ph v

def loads (phdrs : List Elf32Phdr) : List Elf32Phdr := phdrs.filter (·.pType = ptLoad)

/-- The byte that a program finds at an address. -/
def byteIn (m : Mem) (d a : Nat) : Option UInt8 := (translate m d a).map m

/-- No frame is left. -/
structure Exhausted (s : Machine) : Prop where
  below : BitmapBelow s.pmm
  free : freeBlocks s.pmm = []

section
variable {s t u : Machine} {file : List UInt8} {ph : Elf32Phdr} {d b v phys p remaining : Nat}
  {pages : Nat → Option (Nat → UInt8)}

/-! ## One page -/

theorem memcpy_outside (apart : hi ≤ dest ∨ dest + bytes.length ≤ lo) :
    AgreeOn m (memcpy m dest bytes) lo hi := by
  intro x above below
  unfold memcpy
  rw [if_neg (by omega)]

theorem vfsRead_length (inside : offset + size ≤ file.length) : (vfsRead file offset size).length = size := by
  unfold vfsRead
  rw [List.length_take, List.length_drop]
  omega

theorem vfsRead_byte (small : i < size) : (vfsRead file offset size).getD i 0 = file.getD (offset + i) 0 := by
  unfold vfsRead
  rw [List.getD_eq_getElem?_getD, List.getElem?_take_of_lt small, List.getElem?_drop, ← List.getD_eq_getElem?_getD]

theorem getD_memcpy (m : Mem) (dest i : Nat) (bytes : List UInt8) : memcpy m dest bytes (dest + i) =
    if i < bytes.length then bytes.getD i 0 else m (dest + i) := by
  unfold memcpy
  by_cases small : i < bytes.length
  · rw [if_pos (by omega), if_pos small, Nat.add_sub_cancel_left]
  · rw [if_neg (by omega), if_neg small]

/-- A read of `len` bytes to `dest` on the page, from `seg` on in the segment. -/
theorem memcpy_page (m : Mem) (phys : Nat) (fits : Fits file ph)
    (aligned : v * pageSize + dest = ph.pVaddr + seg) (corner : dest = 0 ∨ seg = 0)
    (inside : dest < pageSize)
    (size : len = if seg < ph.pFilesz then min (ph.pFilesz - seg) (pageSize - dest) else 0)
    (small : o < pageSize) :
    memcpy m (phys + dest) (vfsRead file (ph.pOffset + seg) len) (phys + o) =
      if ph.pVaddr ≤ v * pageSize + o ∧ v * pageSize + o < ph.pVaddr + ph.pFilesz then
        file.getD (ph.pOffset + (v * pageSize + o - ph.pVaddr)) 0
      else m (phys + o) := by
  have inFile := fits.inFile
  have length : (vfsRead file (ph.pOffset + seg) len).length = len := by
    by_cases some : seg < ph.pFilesz
    · rw [if_pos some] at size
      exact vfsRead_length (by omega)
    · rw [if_neg some] at size
      rw [size]
      exact List.length_eq_zero_iff.mpr List.take_zero
  have range : (dest ≤ o ∧ o < dest + len) ↔
      ph.pVaddr ≤ v * pageSize + o ∧ v * pageSize + o < ph.pVaddr + ph.pFilesz := by
    by_cases some : seg < ph.pFilesz
    · rw [if_pos some] at size
      omega
    · rw [if_neg some] at size
      omega
  by_cases read : dest ≤ o ∧ o < dest + len
  · have place : phys + o = phys + dest + (o - dest) := by omega
    have offset : ph.pOffset + seg + (o - dest) = ph.pOffset + (v * pageSize + o - ph.pVaddr) := by omega
    rw [if_pos (range.mp read), place, getD_memcpy, length, if_pos (by omega), vfsRead_byte (by omega), offset]
  · rw [if_neg fun file => read (range.mpr file)]
    unfold memcpy
    rw [length, if_neg (by omega)]

/-- From the page of a segment's first byte on, what is read stays on the page. -/
theorem readPage_eq (s : Machine) (phys : Nat) (file : List UInt8) (first : ph.pVaddr / pageSize ≤ v) :
    readPage s phys ph file (v * pageSize) =
      let destOffset := if v * pageSize < ph.pVaddr then ph.pVaddr - v * pageSize else 0
      let segmentOffset := if v * pageSize < ph.pVaddr then 0 else v * pageSize - ph.pVaddr
      let readLen := if segmentOffset < ph.pFilesz then min (ph.pFilesz - segmentOffset) (pageSize - destOffset) else 0
      if readLen = 0 then .ok s
      else if ¬ Identity s phys then .error (.fault phys)
      else .ok (s.store (memcpy s.pmm.mem (phys + destOffset)
        (vfsRead file ((ph.pOffset + segmentOffset) % 2 ^ 32) readLen))) := by
  unfold readPage
  dsimp only
  generalize destEq : (if v * pageSize < ph.pVaddr then ph.pVaddr - v * pageSize else 0) = dest
  generalize (if v * pageSize < ph.pVaddr then 0 else v * pageSize - ph.pVaddr) = seg
  have corner : dest < pageSize := by
    unfold pageSize at *
    split at destEq <;> omega
  have capacity : (pageSize + 2 ^ 32 - dest) % 2 ^ 32 = pageSize - dest := by
    unfold pageSize at *
    omega
  rw [capacity]
  generalize sizeEq : (if seg < ph.pFilesz then min (ph.pFilesz - seg) (pageSize - dest) else 0) = len
  have inside : ¬ pageSize < dest + len := by
    split at sizeEq <;> omega
  rw [if_neg inside]

/-- The bytes of the page that lie in the file part of the segment are read, the
others stay. -/
theorem readPage_bytes (fits : Fits file ph) (length : file.length < 2 ^ 32) (first : ph.pVaddr / pageSize ≤ v)
    (ran : readPage s phys ph file (v * pageSize) = .ok t) : ∃ m, t = s.store m ∧
      (∀ lo hi, hi ≤ phys ∨ phys + pageSize ≤ lo → AgreeOn s.pmm.mem m lo hi) ∧
      ∀ o < pageSize, m (phys + o) =
        if ph.pVaddr ≤ v * pageSize + o ∧ v * pageSize + o < ph.pVaddr + ph.pFilesz then
          file.getD (ph.pOffset + (v * pageSize + o - ph.pVaddr)) 0
        else s.pmm.mem (phys + o) := by
  rw [readPage_eq s phys file first] at ran
  dsimp only at ran
  generalize destEq : (if v * pageSize < ph.pVaddr then ph.pVaddr - v * pageSize else 0) = dest at ran
  generalize segEq : (if v * pageSize < ph.pVaddr then 0 else v * pageSize - ph.pVaddr) = seg at ran
  generalize sizeEq : (if seg < ph.pFilesz then min (ph.pFilesz - seg) (pageSize - dest) else 0) = len at ran
  have place : v * pageSize + dest = ph.pVaddr + seg ∧ (dest = 0 ∨ seg = 0) ∧ dest < pageSize := by
    by_cases before : v * pageSize < ph.pVaddr
    · rw [if_pos before] at destEq segEq
      unfold pageSize at *
      omega
    · rw [if_neg before] at destEq segEq
      unfold pageSize at *
      omega
  obtain ⟨aligned, corner, inside⟩ := place
  have bytes (m : Mem) (o : Nat) (small : o < pageSize) :=
    memcpy_page m phys fits aligned corner inside sizeEq.symm small
  have inFile := fits.inFile
  split at ran
  · rename_i nothing
    cases ran
    refine ⟨s.pmm.mem, rfl, fun _ _ _ _ _ _ => rfl, fun o small => ?_⟩
    have same := bytes s.pmm.mem o small
    rw [← same, nothing]
    unfold memcpy vfsRead
    rw [List.take_zero, if_neg (by simp)]
  · rename_i some
    split at ran
    · cases ran
    · cases ran
      have near : seg < ph.pFilesz := by
        by_contra far
        rw [if_neg far] at sizeEq
        exact some sizeEq.symm
      have wrap : (ph.pOffset + seg) % 2 ^ 32 = ph.pOffset + seg := Nat.mod_eq_of_lt (by omega)
      rw [wrap]
      refine ⟨_, rfl, fun lo hi apart => memcpy_outside ?_, fun o small => bytes _ o small⟩
      have bound : (vfsRead file (ph.pOffset + seg) len).length ≤ len := List.length_take_le _ _
      rw [if_pos near] at sizeEq
      omega

theorem exhausted_store (exhausted : Exhausted s) (high : 0x300000 ≤ phys)
    (outside : ∀ lo hi, hi ≤ phys ∨ phys + pageSize ≤ lo → AgreeOn s.pmm.mem m lo hi) :
    Exhausted (s.store m) := by
  have bitmap := outside 0x200000 0x300000 (.inl high)
  exact ⟨bitmapBelow_agree exhausted.below bitmap, (freeBlocks_agree exhausted.below bitmap).trans exhausted.free⟩

theorem exhausted_alloc (exhausted : Exhausted s) : pmmAllocBlock s.pmm = (0, s.pmm) := by
  rcases pmmAllocBlock_pops exhausted.below with ⟨-, failed⟩ | ⟨b, rest, shape, -⟩
  · exact failed
  · rw [exhausted.free] at shape
    cases shape

/-- One round of the page loop maps the page and fills it. When no frame is left
for its table, none is left for what follows either. -/
theorem loadPage_image (image : Image s d pages) (fits : Fits file ph) (length : file.length < 2 ^ 32)
    (touched : Touches ph v) (place : (startPage ph + p * pageSize) % 2 ^ 32 = v * pageSize)
    (ran : loadPage s d ph file p = .ok t) :
    Exhausted t ∨ Image t d (Function.update pages v (some (pageContent file ph v))) := by
  have low := fits.low
  have high := fits.high
  obtain ⟨first, last⟩ := touched
  have walkable := image.walkable
  unfold loadPage at ran
  rcases pmmAllocBlock_pops walkable.below with ⟨-, failed⟩ | ⟨b, rest, shape, handed, -⟩
  · rw [failed] at ran
    dsimp only at ran
    rw [if_pos rfl] at ran
    cases ran
  · have prepared := prepared_taken walkable shape
    obtain ⟨highB, -⟩ := freeBlocks_high walkable.below prepared.free
    have above : 0x300000 ≤ b * pageSize := by
      unfold pageSize
      omega
    have small : pdIndex (v * pageSize) < 1023 := by
      unfold pdIndex pageSize at *
      omega
    have nonnull : v * pageSize ≠ 0 := by
      unfold pageSize at *
      omega
    rw [handed, place] at ran
    dsimp only at ran
    rw [if_neg (by omega)] at ran
    split at ran
    · cases ran
    · have outside (lo hi : Nat) (clear : hi ≤ b * pageSize ∨ b * pageSize + pageSize ≤ lo) :
          AgreeOn (bitmapSet s.pmm b).mem (memset (bitmapSet s.pmm b).mem (b * pageSize) 0 pageSize) lo hi :=
        memset_outside clear
      have cleared := prepared_store prepared highB outside
      split at ran
      · cases ran
      · rename_i mapped ranMap
        obtain ⟨m, rfl, outside, bytes⟩ := readPage_bytes fits length first ran
        rcases fresh_map cleared small (Nat.mul_mod_left v pageSize) nonnull ranMap with
          ⟨rfl, none⟩ | ⟨fresh, kept⟩
        · exact .inl (exhausted_store ⟨cleared.grown.walkable.below, none⟩ above outside)
        · refine .inr (image_fresh image (fresh_store fresh small highB outside) small _ fun o inside => ?_)
          change m (b * pageSize + o) = segmentByte file ph (v * pageSize + o)
          rw [bytes o inside, segmentByte]
          split
          · rfl
          · rw [kept (b * pageSize + o) (Nat.le_add_right _ o) (by omega)]
            change memset _ (b * pageSize) 0 pageSize (b * pageSize + o) = 0
            unfold memset
            rw [if_pos (by omega)]

/-! ## One segment -/

/-- The pages from `lo` to `hi` are the segment's. -/
def covered (file : List UInt8) (ph : Elf32Phdr) (pages : Nat → Option (Nat → UInt8)) (lo hi v : Nat) :
    Option (Nat → UInt8) := if lo ≤ v ∧ v < hi then some (pageContent file ph v) else pages v

theorem covered_succ (file : List UInt8) (ph : Elf32Phdr) (pages : Nat → Option (Nat → UInt8)) (lo hi : Nat)
    (le : lo ≤ hi) : Function.update (covered file ph pages lo hi) hi (some (pageContent file ph hi)) =
      covered file ph pages lo (hi + 1) := by
  funext v
  unfold covered
  by_cases same : v = hi
  · subst same
    rw [Function.update_self, if_pos (by omega)]
  · rw [Function.update_of_ne same]
    by_cases inside : lo ≤ v ∧ v < hi
    · rw [if_pos inside, if_pos (by omega)]
    · rw [if_neg inside, if_neg (by omega)]

theorem loadPages_exhausted (exhausted : Exhausted s) (ran : loadPages d ph file remaining p s = .ok t) :
    Exhausted t := by
  cases remaining with
  | zero =>
    cases ran
    exact exhausted
  | succ remaining =>
    unfold loadPages loadPage at ran
    rw [exhausted_alloc exhausted] at ran
    dsimp only at ran
    rw [if_pos rfl] at ran
    cases ran

theorem loadPages_image (fits : Fits file ph) (length : file.length < 2 ^ 32)
    (within : ∀ q < remaining, Touches ph (ph.pVaddr / pageSize + (p + q)))
    (image : Image s d (covered file ph pages (ph.pVaddr / pageSize) (ph.pVaddr / pageSize + p)))
    (ran : loadPages d ph file remaining p s = .ok t) :
    Exhausted t ∨
      Image t d (covered file ph pages (ph.pVaddr / pageSize) (ph.pVaddr / pageSize + (p + remaining))) := by
  have low := fits.low
  have high := fits.high
  induction remaining generalizing p s with
  | zero =>
    cases ran
    exact .inr image
  | succ remaining ih =>
    unfold loadPages at ran
    split at ran
    · cases ran
    · rename_i next ranPage
      have touched := within 0 (Nat.succ_pos _)
      rw [Nat.add_zero] at touched
      have place : (startPage ph + p * pageSize) % 2 ^ 32 = (ph.pVaddr / pageSize + p) * pageSize := by
        have last := touched.2
        unfold startPage frameOf pageSize at *
        omega
      rcases loadPage_image image fits length touched place ranPage with exhausted | image
      · exact .inl (loadPages_exhausted exhausted ran)
      · rw [covered_succ _ _ _ _ _ (Nat.le_add_right _ p)] at image
        have shift : p + 1 + remaining = p + (remaining + 1) := by omega
        rw [← shift]
        refine ih (fun q less => ?_) image ran
        have next := within (q + 1) (by omega)
        rw [show p + 1 + q = p + (q + 1) by omega]
        exact next

theorem pageCount_eq (fits : Fits file ph) :
    pageCount ph = (ph.pVaddr + ph.pMemsz + 0xFFF) / pageSize - ph.pVaddr / pageSize := by
  have low := fits.low
  have high := fits.high
  unfold pageCount endPage startPage frameOf pageSize
  omega

theorem loadSegment_image (fits : Fits file ph) (length : file.length < 2 ^ 32) (load : ph.pType = ptLoad)
    (before : Exhausted s ∨ Image s d pages) (ran : loadSegment s d ph file = .ok t) :
    Exhausted t ∨ Image t d fun v => if Touches ph v then some (pageContent file ph v) else pages v := by
  unfold loadSegment at ran
  rw [if_pos load] at ran
  rcases before with exhausted | image
  · exact .inl (loadPages_exhausted exhausted ran)
  · have count := pageCount_eq fits
    have start : covered file ph pages (ph.pVaddr / pageSize) (ph.pVaddr / pageSize + 0) = pages := by
      funext v
      unfold covered
      rw [if_neg (by omega)]
    have within (q : Nat) (less : q < pageCount ph) : Touches ph (ph.pVaddr / pageSize + (0 + q)) := by
      unfold Touches
      omega
    rcases loadPages_image fits length within (start.symm ▸ image) ran with exhausted | image
    · exact .inl exhausted
    · refine .inr ?_
      have all : covered file ph pages (ph.pVaddr / pageSize) (ph.pVaddr / pageSize + (0 + pageCount ph)) =
          fun v => if Touches ph v then some (pageContent file ph v) else pages v := by
        have order : ph.pVaddr / pageSize ≤ (ph.pVaddr + ph.pMemsz + 0xFFF) / pageSize :=
          Nat.div_le_div_right (by omega)
        funext v
        unfold covered Touches
        rw [show ph.pVaddr / pageSize + (0 + pageCount ph) = (ph.pVaddr + ph.pMemsz + 0xFFF) / pageSize by omega]
        rfl
      exact all ▸ image

/-! ## All segments -/

theorem imageOf_append (file : List UInt8) (done : List Elf32Phdr) (ph : Elf32Phdr) :
    imageOf file (done ++ [ph]) = fun v =>
    if Touches ph v then some (pageContent file ph v) else imageOf file done v := by
  funext v
  unfold imageOf
  rw [List.reverse_append, List.reverse_singleton, List.singleton_append, List.find?_cons]
  by_cases touched : Touches ph v
  · simp [touched]
  · simp [touched]

theorem loadSegments_image (length : file.length < 2 ^ 32) (phdrs : List Elf32Phdr) (done : List Elf32Phdr)
    (fits : ∀ ph ∈ loads phdrs, Fits file ph) (before : Exhausted s ∨ Image s d (imageOf file done))
    (ran : loadSegments d file phdrs s = .ok t) : Exhausted t ∨ Image t d (imageOf file (done ++ loads phdrs)) := by
  induction phdrs generalizing s done with
  | nil =>
    cases ran
    rwa [loads, List.filter_nil, List.append_nil]
  | cons ph rest ih =>
    unfold loadSegments at ran
    split at ran
    · cases ran
    · rename_i next ranSegment
      by_cases load : ph.pType = ptLoad
      · have split : loads (ph :: rest) = ph :: loads rest := List.filter_cons_of_pos (by simpa using load)
        rw [split] at fits ⊢
        have after := loadSegment_image (fits ph List.mem_cons_self) length load before ranSegment
        rw [← imageOf_append] at after
        rw [List.append_cons]
        exact ih _ (fun other member => fits other (List.mem_cons_of_mem _ member)) after ran
      · have split : loads (ph :: rest) = loads rest := List.filter_cons_of_neg (by simpa using load)
        rw [split] at fits ⊢
        unfold loadSegment at ranSegment
        rw [if_neg load] at ranSegment
        cases ranSegment
        exact ih _ fits before ran

/-! ## Stack and arguments -/

/-- A further page, whether or not it could be mapped, is apart from the others. -/
theorem addPage_grown (walkable : Walkable s d) (small : pdIndex virt < 1023) (aligned : virt % pageSize = 0)
    (nonnull : virt ≠ 0) (ran : addPage s d virt = .ok (phys, t)) :
    ∃ b, phys = b * pageSize ∧ b ∈ freeBlocks s.pmm ∧ 0x300 ≤ b ∧ Grown s t d (· = virt / pageSize) ∧
      Taken t.pmm phys ∧ phys ≠ d ∧ ¬ IsTable t.pmm.mem d phys := by
  unfold addPage at ran
  rcases pmmAllocBlock_pops walkable.below with ⟨-, failed⟩ | ⟨b, rest, shape, handed, -⟩
  · rw [failed] at ran
    dsimp only at ran
    rw [if_pos rfl] at ran
    cases ran
  · have prepared := prepared_taken walkable shape
    obtain ⟨high, -⟩ := freeBlocks_high walkable.below prepared.free
    have nonzero : ¬ b * pageSize = 0 := by
      unfold pageSize
      omega
    rw [handed] at ran
    dsimp only at ran
    rw [if_neg nonzero] at ran
    split at ran
    · cases ran
    · rename_i mapped ranMap
      split at ran
      · cases ran
      · cases ran
        have outside (lo hi : Nat) (clear : hi ≤ b * pageSize ∨ b * pageSize + pageSize ≤ lo) :
            AgreeOn mapped.pmm.mem (memset mapped.pmm.mem (b * pageSize) 0 pageSize) lo hi := memset_outside clear
        rcases fresh_map prepared small aligned nonnull ranMap with ⟨rfl, -⟩ | ⟨fresh, -⟩
        · have stored := prepared_store prepared high outside
          exact ⟨b, rfl, prepared.free, high, grown_weaken stored.grown fun _ => False.elim, stored.taken,
            stored.apart⟩
        · have stored := fresh_store fresh small high outside
          exact ⟨b, rfl, prepared.free, high, stored.grown, stored.taken, stored.apart⟩

theorem addPage_exhausted (exhausted : Exhausted s) : addPage s d virt = .error .outOfMemory := by
  unfold addPage
  rw [exhausted_alloc exhausted]
  rfl

theorem setEntries_outside (table base n : Nat) (f : Nat → Nat)
    (inside : base ≤ table ∧ table + 4 * n ≤ base + pageSize)
    (apart : hi ≤ base ∨ base + pageSize ≤ lo) :
    AgreeOn m ((List.range n).foldl (fun m i => setEntry m table i (f i)) m) lo hi := by
  induction n with
  | zero => exact fun _ _ _ => rfl
  | succ n ih =>
    rw [List.range_succ, List.foldl_append]
    exact agreeOn_trans (ih ⟨inside.1, by omega⟩) (writeWord_agree _ _ _ _ _ (by omega))

theorem copyArgument_outside (physBase i : Nat) (argument : List UInt8) (strings : Strings)
    (start : strings.strPos < pageSize)
    (apart : hi ≤ physBase ∨ physBase + pageSize ≤ lo) :
    (copyArgument physBase strings i argument).strPos < pageSize ∧
      AgreeOn strings.mem (copyArgument physBase strings i argument).mem lo hi := by
  unfold copyArgument
  dsimp only
  split
  · exact ⟨start, fun _ _ _ => rfl⟩
  · rename_i room
    obtain ⟨-, room⟩ := not_or.mp room
    unfold pageSize at *
    refine ⟨by dsimp only; omega, memcpy_outside ?_⟩
    rw [List.length_append, List.length_singleton]
    omega

theorem copyArguments_outside (physBase : Nat) (argv : List (List UInt8)) (strings : Strings) (first : Nat)
    (start : strings.strPos < pageSize) (apart : hi ≤ physBase ∨ physBase + pageSize ≤ lo) :
    ((argv.zipIdx first).foldl (fun strings argument => copyArgument physBase strings argument.2 argument.1)
    strings).strPos
        < pageSize ∧
      AgreeOn strings.mem ((argv.zipIdx first).foldl
        (fun strings argument => copyArgument physBase strings argument.2 argument.1) strings).mem lo hi := by
  induction argv generalizing strings first with
  | nil => exact ⟨start, fun _ _ _ => rfl⟩
  | cons argument rest ih =>
    obtain ⟨inside, kept⟩ := copyArgument_outside physBase first argument strings start apart
    obtain ⟨end_, later⟩ := ih _ (first + 1) inside
    exact ⟨end_, agreeOn_trans kept later⟩

/-- The arguments stay on the stack page. -/
theorem placeArguments_outside (m : Mem) (physBase : Nat) (argv : List (List UInt8)) (unset : Nat → Nat)
    (apart : hi ≤ physBase ∨ physBase + pageSize ≤ lo) :
    AgreeOn m (placeArguments m physBase argv unset) lo hi := by
  have short : (argv.take 63).length ≤ 63 := List.length_take_le _ _
  obtain ⟨inside, copied⟩ := copyArguments_outside physBase (argv.take 63) ⟨m, pageSize - 256, unset, false⟩ 0
    (show pageSize - 256 < pageSize by decide) apart
  have tail (m : Mem) (i v : Nat) (small : i < 2) : AgreeOn m (setEntry m (physBase + (pageSize - 16)) i v) lo hi :=
    writeWord_agree _ _ _ _ _ (by unfold pageSize at *; omega)
  unfold placeArguments copyArguments
  dsimp only at copied ⊢
  generalize (List.foldl (fun strings argument => copyArgument physBase strings argument.2 argument.1)
    (⟨m, pageSize - 256, unset, false⟩ : Strings) (argv.take 63).zipIdx) = strings at inside copied ⊢
  generalize (argv.take 63).length = argc at short ⊢
  generalize offsetEq : (if pageSize - 16 < (strings.strPos + 3) / 4 * 4 +
    (argc + 1) * 4 then pageSize - 16 - (argc + 1) * 4
    else (strings.strPos + 3) / 4 * 4) = offset
  have room : offset + 4 * (argc + 1) ≤ pageSize := by
    unfold pageSize at *
    split at offsetEq <;> omega
  have array := setEntries_outside (m := strings.mem) (physBase + offset) physBase (argc + 1)
    (fun j => if j = argc then 0 else strings.argvPtrs j) ⟨Nat.le_add_right _ _, by omega⟩ apart
  exact agreeOn_trans (agreeOn_trans (agreeOn_trans copied array) (tail _ 0 _ (by decide))) (tail _ 1 _ (by decide))

theorem loadStack_image (before : Exhausted s ∨ Image s d pages)
    (low : ∀ v, 0xB0000 ≤ v → pages v = none) (ran : loadStack s d argv unset = .ok t) : Image t d pages := by
  unfold loadStack at ran
  rcases before with exhausted | image
  · rw [addPage_exhausted exhausted] at ran
    cases ran
  · split at ran
    · cases ran
    · rename_i stackPhys first ranStack
      split at ran
      · cases ran
      · rename_i tlsPhys second ranTls
        split at ran
        · cases ran
        · cases ran
          obtain ⟨b, rfl, free, high, grownStack, taken, neD, plain⟩ :=
            addPage_grown image.walkable (by decide) (by decide) (by decide) ranStack
          obtain ⟨-, -, -, -, grownTls, -⟩ :=
            addPage_grown grownStack.walkable (by decide) (by decide) (by decide) ranTls
          have grown : Grown s second d fun v => v = userStackPage / pageSize ∨ v = userTlsPage / pageSize :=
            grown_trans (grown_weaken grownStack fun _ => .inl) (grown_weaken grownTls fun _ => .inr)
          have apart : ¬ IsTable second.pmm.mem d (b * pageSize) := fun table =>
            (grownTls.tables _ table).elim plain fun absent => absent (taken_occupied taken)
          have stored := grown_store grown free high neD apart fun lo hi clear =>
            placeArguments_outside second.pmm.mem (b * pageSize) argv unset clear
          refine image_grown image stored fun v content holds moved => ?_
          have reach : 0xB0000 ≤ v := by
            rcases moved with rfl | rfl <;> decide
          rw [low v reach] at holds
          cases holds

/-! ## The image -/

theorem imageOf_high (segments : List Elf32Phdr) (fits : ∀ ph ∈ segments, Fits file ph) (high : 0xB0000 ≤ v) :
    imageOf file segments v = none := by
  unfold imageOf
  rw [Option.map_eq_none_iff, List.find?_eq_none]
  intro ph member
  have bound := (fits ph (List.mem_reverse.mp member)).high
  rw [decide_eq_true_eq]
  unfold Touches pageSize
  omega

theorem elfLoad_image (walkable : Walkable s s.kernelDirectory) (length : file.length < 2 ^ 32)
    (fits : ∀ ph ∈ loads (programHeaders file beyond), Fits file ph)
    (ran : elfLoad s file granted beyond argv unset = .ok r) :
    Image r.machine r.directory (imageOf file (loads (programHeaders file beyond))) := by
  unfold elfLoad at ran
  dsimp only at ran
  split at ran
  · cases ran
  · split at ran
    · cases ran
    · cases created : vmmCreateDirectory s with
      | error frame =>
        rw [created] at ran
        cases ran
      | ok made =>
        obtain ⟨directory, next⟩ := made
        rw [created] at ran
        dsimp only [ofFault] at ran
        have start : Exhausted next ∨ Image next directory (imageOf file []) := by
          rcases createDirectory_walkable walkable created with ⟨free, below⟩ | walkable
          · exact .inl ⟨below, free⟩
          · exact .inr ⟨walkable, nofun⟩
        split at ran
        · cases ran
        · rename_i filled ranSegments
          split at ran
          · cases ran
          · rename_i done ranStack
            cases ran
            have loaded := loadSegments_image length _ [] fits start ranSegments
            rw [List.nil_append] at loaded
            exact loadStack_image loaded (fun v high => imageOf_high _ fits high) ranStack

theorem translate_page (m : Mem) (d a : Nat) :
    translate m d a = (translate m d (a / pageSize * pageSize)).map (· + a % pageSize) := by
  have pd : pdIndex (a / pageSize * pageSize) = pdIndex a := by
    unfold pdIndex pageSize
    omega
  have pt : ptIndex (a / pageSize * pageSize) = ptIndex a := by
    unfold ptIndex pageSize
    omega
  unfold AddressSpaces.translate
  rw [pd, pt, Nat.mul_mod_left]
  dsimp only
  split
  · split
    · rw [Option.map_some, Nat.add_zero]
    · rw [Option.map_none]
  · rw [Option.map_none]

theorem byteIn_image (image : Image s d pages) (holds : pages (a / pageSize) = some content) :
    byteIn s.pmm.mem d a = some (content (a % pageSize)) := by
  obtain ⟨f, walk, -, -, -, -, bytes⟩ := image.page _ content holds
  have offset : a % pageSize < pageSize := Nat.mod_lt a (show 0 < pageSize by decide)
  unfold byteIn
  rw [translate_page, walk]
  rw [Option.map_some, Option.map_some, bytes _ offset]

/-- Of the segments on a page, the last one in the file's order is there. -/
theorem imageOf_last (file : List UInt8) (segments : List Elf32Phdr) (i : Nat) (bound : i < segments.length)
    (touched : Touches segments[i] v) : ∃ k, ∃ inside : k < segments.length, i ≤ k ∧ Touches segments[k] v ∧
      imageOf file segments v = some (pageContent file segments[k] v) := by
  induction segments using List.reverseRecOn with
  | nil => exact absurd bound (Nat.not_lt_zero i)
  | append_singleton before last ih =>
    rw [List.length_append, List.length_singleton] at bound
    have ended : before.length < (before ++ [last]).length := by simp
    have final : (before ++ [last])[before.length] = last := List.getElem_concat_length rfl _
    by_cases touches : Touches last v
    · refine ⟨before.length, by simp, by omega, final.symm ▸ touches, ?_⟩
      rw [imageOf_append, final]
      exact if_pos touches
    · have earlier : i < before.length := by
        by_contra late
        obtain rfl : i = before.length := by omega
        exact touches (final ▸ touched)
      rw [List.getElem_append_left earlier] at touched
      obtain ⟨k, inside, order, touchedK, image⟩ := ih earlier touched
      refine ⟨k, by rw [List.length_append]; omega, order, ?_, ?_⟩
      · rw [List.getElem_append_left inside]
        exact touchedK
      · rw [imageOf_append, List.getElem_append_left inside, ← image]
        exact if_neg touches

theorem touches_own (inside : i < ph.pMemsz) : Touches ph ((ph.pVaddr + i) / pageSize) := by
  unfold Touches pageSize
  omega

theorem segmentByte_own (file : List UInt8) (ph : Elf32Phdr) (i : Nat) : segmentByte file ph (ph.pVaddr + i) =
    if i < ph.pFilesz then file.getD (ph.pOffset + i) 0 else 0 := by
  unfold segmentByte
  by_cases inFile : i < ph.pFilesz
  · rw [if_pos (by omega), if_pos inFile, Nat.add_sub_cancel_left]
  · rw [if_neg (by omega), if_neg inFile]

theorem segmentByte_other (fits : Fits file ph) (outside : ¬ Within ph a) : segmentByte file ph a = 0 := by
  have sizes := fits.sizes
  unfold segmentByte
  unfold Within at outside
  rw [if_neg (by omega)]

end

end MeowMeowOS.LoadedImage

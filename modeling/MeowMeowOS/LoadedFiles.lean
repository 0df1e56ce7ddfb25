import MeowMeowOS.LoadRoom
import MeowMeowOS.BootDirectories

/-! When a program starts with what its file says, and when a segment has lost
the start or the end of a page to the next one. -/
namespace MeowMeowOS.LoadedFiles
open ByteMemory PhysicalFrames VirtualMemory FreeFrames HeapFrames AddressSpaces DirectoryLayout MappedPages ElfLoading
open LoadedImage LoadRoom BootDirectories

/-- The files that the statement is about: every `PT_LOAD` segment fits, and no
two share a byte. -/
structure Loadable (file : List UInt8) (phdrs : List Elf32Phdr) : Prop where
  length : file.length < 2 ^ 32
  fits : ∀ ph ∈ loads phdrs, Fits file ph
  disjoint : (loads phdrs).Pairwise fun first second => ∀ a, Within first a → ¬ Within second a

/-- Every byte of every segment is what the file says. -/
def AsWritten (file : List UInt8) (phdrs : List Elf32Phdr) (r : Loaded) : Prop :=
  ∀ ph ∈ loads phdrs, ∀ i < ph.pMemsz, byteIn r.machine.pmm.mem r.directory (ph.pVaddr + i) =
    some (if i < ph.pFilesz then file.getD (ph.pOffset + i) 0 else 0)

/-- What a segment has from the file on a page that a later segment maps as well
is zero. -/
def Separate (file : List UInt8) (phdrs : List Elf32Phdr) : Prop :=
  (loads phdrs).Pairwise fun earlier later => ∀ i < earlier.pFilesz,
    Touches later ((earlier.pVaddr + i) / pageSize) → file.getD (earlier.pOffset + i) 0 = 0

section
variable {s : Machine} {file : List UInt8} {beyond : Mem} {granted : Bool} {argv : List (List UInt8)}
    {unset : Nat → Nat}
  {r : Loaded}

/-- The byte at an address is that of the last segment on its page. -/
theorem byteIn_last (image : Image s d (imageOf file segments)) (i : Nat) (bound : i < segments.length) (a : Nat)
    (touched : Touches segments[i] (a / pageSize)) : ∃ k, ∃ inside : k < segments.length, i ≤ k ∧
      Touches segments[k] (a / pageSize) ∧ byteIn s.pmm.mem d a = some (segmentByte file segments[k] a) := by
  obtain ⟨k, inside, order, touchedK, holds⟩ := imageOf_last file segments i bound touched
  refine ⟨k, inside, order, touchedK, ?_⟩
  rw [byteIn_image image holds, pageContent, Nat.div_add_mod']

theorem separate_of_asWritten (walkable : Walkable s s.kernelDirectory)
    (loadable : Loadable file (programHeaders file beyond)) (ran : elfLoad s file granted beyond argv unset = .ok r)
    (written : AsWritten file (programHeaders file beyond) r) : Separate file (programHeaders file beyond) := by
  have image := elfLoad_image walkable loadable.length loadable.fits ran
  have fits := loadable.fits
  have disjoint := List.pairwise_iff_getElem.mp loadable.disjoint
  unfold AsWritten at written
  unfold Separate
  generalize loads (programHeaders file beyond) = segments at image fits disjoint written
  refine List.pairwise_iff_getElem.mpr fun i j boundI boundJ less x inFile touched => ?_
  obtain ⟨k, inside, order, -, byte⟩ := byteIn_last image j boundJ _ touched
  have member := List.getElem_mem boundI
  have inMem := Nat.lt_of_lt_of_le inFile (fits _ member).sizes
  have within : Within segments[i] (segments[i].pVaddr + x) := ⟨Nat.le_add_right _ x, Nat.add_lt_add_left inMem _⟩
  have outside := disjoint i k boundI inside (by omega) _ within
  have expected := written _ member x inMem
  rw [byte, segmentByte_other (fits _ (List.getElem_mem inside)) outside, if_pos inFile] at expected
  exact (Option.some.inj expected).symm

theorem asWritten_of_separate (walkable : Walkable s s.kernelDirectory)
    (loadable : Loadable file (programHeaders file beyond)) (ran : elfLoad s file granted beyond argv unset = .ok r)
    (separate : Separate file (programHeaders file beyond)) : AsWritten file (programHeaders file beyond) r := by
  have image := elfLoad_image walkable loadable.length loadable.fits ran
  have fits := loadable.fits
  have disjoint := List.pairwise_iff_getElem.mp loadable.disjoint
  unfold AsWritten
  unfold Separate at separate
  generalize loads (programHeaders file beyond) = segments at image fits disjoint separate
  intro ph member x inside
  obtain ⟨i, boundI, rfl⟩ := List.getElem_of_mem member
  obtain ⟨k, insideK, order, touched, byte⟩ := byteIn_last image i boundI _ (touches_own inside)
  rw [byte]
  congr 1
  rcases Nat.eq_or_lt_of_le order with rfl | less
  · exact segmentByte_own file _ x
  · have within : Within segments[i] (segments[i].pVaddr + x) :=
      ⟨Nat.le_add_right _ x, Nat.add_lt_add_left inside _⟩
    have lost := List.pairwise_iff_getElem.mp separate i k boundI insideK less x
    rw [segmentByte_other (fits _ (List.getElem_mem insideK)) (disjoint i k boundI insideK less _ within)]
    split
    · rename_i inFile
      exact (lost inFile touched).symm
    · rfl

end

def littleEndian (v : Nat) : List UInt8 :=
  [UInt8.ofNat v, UInt8.ofNat (v / 256), UInt8.ofNat (v / 65536), UInt8.ofNat (v / 16777216)]

/-- Two segments of four bytes each, the first at 8 MiB. -/
def smallFile (second : Nat) : List UInt8 :=
  ([elfMagic, 0x00010101, 0, 0, 0x00030002, 1, 0x800000, 52, 0, 0, 0x00200034, 2, 0,
    ptLoad, 116, 0x800000, 0x800000, 4, 4, 5, 0x1000,
    ptLoad, 120, second, second, 4, 4, 5, 0x1000,
    0x04030201, 0x08070605] : List Nat).flatMap littleEndian

def firstSegment : Elf32Phdr := ⟨ptLoad, 116, 0x800000, 4, 4⟩

def secondSegment (second : Nat) : Elf32Phdr := ⟨ptLoad, 120, second, 4, 4⟩

theorem smallFile_fits (second : Nat) (low : 0x800000 ≤ second) (high : second + 4 ≤ 0xB0000000) (ph : Elf32Phdr)
    (member : ph ∈ [firstSegment, secondSegment second]) : Fits (smallFile second) ph := by
  rcases List.mem_cons.mp member with rfl | last
  · exact ⟨by decide, by decide, by decide, show 116 + 4 ≤ 124 by decide⟩
  · obtain rfl := List.mem_singleton.mp last
    exact ⟨low, high, Nat.le_refl 4, show 120 + 4 ≤ 124 by decide⟩

theorem smallFile_loadable (second : Nat) (low : 0x800004 ≤ second) (high : second + 4 ≤ 0xB0000000)
    (headers : programHeaders (smallFile second) (fun _ => 0) = [firstSegment, secondSegment second]) :
    Loadable (smallFile second) (programHeaders (smallFile second) fun _ => 0) := by
  rw [headers]
  refine ⟨show 124 < 2 ^ 32 by decide, smallFile_fits second (by omega) high, ?_⟩
  refine List.pairwise_pair.mpr fun a inside inside' => ?_
  have upper := inside.2
  have lower := inside'.1
  change a < 0x800000 + 4 at upper
  change second ≤ a at lower
  omega

theorem smallFile_pages (second : Nat) (low : 0x800000 ≤ second) (high : second + 4 ≤ 0xB0000000) :
    pagesOf [firstSegment, secondSegment second] ≤ 3 := by
  have fits := smallFile_fits second low high _ (List.mem_cons_of_mem _ List.mem_cons_self)
  have first : pageCount firstSegment = 1 := by decide
  have last : pageCount (secondSegment second) ≤ 2 := by
    rw [pageCount_eq fits]
    change (second + 4 + 0xFFF) / pageSize - second / pageSize ≤ 2
    unfold pageSize
    omega
  rw [pagesOf, List.map_cons, List.map_cons, List.map_nil, List.sum_cons, List.sum_cons, List.sum_nil]
  omega

theorem ram128_room (free : freeBlocks s.pmm = List.range' 0x303 0x7CFD) : 20 ≤ room s := by
  have inside : ∀ b ∈ List.range' 0x303 20, decide (InWindow s.heapCurrentEnd b) = true := by
    intro b member
    have bound := List.mem_range'_1.mp member
    exact decide_eq_true ⟨by omega, by omega, .inl (by omega)⟩
  have split : List.range' 0x303 0x7CFD = List.range' 0x303 20 ++ List.range' (0x303 + 20) 0x7CE9 :=
    (List.range'_append_1 (s := 0x303) (m := 20) (n := 0x7CE9)).symm
  unfold room
  rw [free, split, List.takeWhile_append_of_pos inside, List.length_append, List.length_range']
  exact Nat.le_add_right 20 _

/-- With 128 MiB of memory the file is loaded, and frames are left. -/
theorem smallFile_ready (second : Nat) (low : 0x800000 ≤ second) (high : second + 4 ≤ 0xB0000000)
    (accepts : Accepts (smallFile second))
    (headers : programHeaders (smallFile second) (fun _ => 0) = [firstSegment, secondSegment second]) :
    ∃ pmm b0 b1 b2 r, bootedMachine (2 ^ 20 + 1) ram128 (fun _ => 0) = some (bootMachine pmm (b0 * pageSize)) ∧
      Booted pmm b0 b1 b2 ∧
      elfLoad (bootMachine pmm (b0 * pageSize)) (smallFile second) true (fun _ => 0) [] (fun _ => 0) = .ok r ∧
      Ready r.machine (b1 * pageSize) (b2 * pageSize) r.directory 9 := by
  obtain ⟨pmm, b0, b1, b2, ran, booted, free, -⟩ := ram128_kernel
  have all (ph : Elf32Phdr) (member : ph ∈ loads (programHeaders (smallFile second) fun _ => 0)) :
      Fits (smallFile second) ph := by
    rw [headers] at member
    exact smallFile_fits second low high ph (List.mem_of_mem_filter member)
  have pages := smallFile_pages second low high
  rw [← headers] at pages
  have space := ram128_room (s := bootMachine pmm (b0 * pageSize)) free
  obtain ⟨r, loaded, ready⟩ := elfLoad_ready (n := 9) (booted_spaces booted) accepts all (by omega) [] fun _ => 0
  exact ⟨pmm, b0, b1, b2, r, ran, booted, loaded, ready⟩

theorem smallFile_loads (second : Nat) (low : 0x800000 ≤ second) (high : second + 4 ≤ 0xB0000000)
    (accepts : Accepts (smallFile second))
    (headers : programHeaders (smallFile second) (fun _ => 0) = [firstSegment, secondSegment second]) :
    ∃ s r, bootedMachine (2 ^ 20 + 1) ram128 (fun _ => 0) = some s ∧ Walkable s s.kernelDirectory ∧
      elfLoad s (smallFile second) true (fun _ => 0) [] (fun _ => 0) = .ok r := by
  obtain ⟨pmm, b0, b1, b2, r, ran, booted, loaded, -⟩ := smallFile_ready second low high accepts headers
  exact ⟨_, r, ran, booted_walkable booted, loaded⟩

end MeowMeowOS.LoadedFiles

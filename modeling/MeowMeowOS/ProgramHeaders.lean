import MeowMeowOS.ElfLoading

/-! The table of program headers. It is read with the size that the file gives for a header, and
gone over with the size of the structure. -/
namespace MeowMeowOS.ProgramHeaders
open ByteMemory ElfLoading

section
variable (file : List UInt8) (beyond : Mem)

/-- The fields of the file header. -/
def ePhoff : Nat := readWord (fun x => file.getD x 0) 0x1C

def ePhentsize : Nat := readHalf (fun x => file.getD x 0) 0x2A

def ePhnum : Nat := readHalf (fun x => file.getD x 0) 0x2C

def phdrSize : Nat := ePhnum file * ePhentsize file % 2 ^ 32

/-- `phdrs[i]` as the loop finds it. -/
def phdr (i : Nat) : Elf32Phdr := programHeader (headerBuffer file (ePhoff file) (phdrSize file) beyond) i

/-- The places in the file that the bytes of the table are read from. -/
def origins : List Nat := ((List.range file.length).drop (ePhoff file)).take (phdrSize file)

/-- How far into a header the loop reads: its type, and of a segment to load the fields up to the
size in memory. -/
def usedLength (ph : Elf32Phdr) : Nat := if ph.pType = ptLoad then 24 else 4

/-- Every header is in the table, and each of its bytes is the one that the file has there. -/
def ReadsHeaders : Prop := ∀ i < ePhnum file, ∀ x < usedLength (phdr file beyond i),
  (origins file)[32 * i + x]? = some (ePhoff file + i * ePhentsize file + x)

/-- The headers stand as far apart as the structure is long, or there is only one, and the table
and the file go on to the end of what is read of each. -/
def Spaced : Prop := (ePhnum file = 1 ∨ ePhentsize file = 32) ∧ ∀ i < ePhnum file,
  32 * i + usedLength (phdr file beyond i) ≤ phdrSize file ∧
    ePhoff file + 32 * i + usedLength (phdr file beyond i) ≤ file.length

end

section
variable {file : List UInt8} {beyond : Mem} {x p i : Nat}

theorem origins_get : (origins file)[x]? = some p ↔ x < phdrSize file ∧ p = ePhoff file + x ∧
    p < file.length := by
  unfold origins
  by_cases inside : x < phdrSize file
  · rw [List.getElem?_take_of_lt inside, List.getElem?_drop]
    by_cases short : ePhoff file + x < file.length
    · rw [List.getElem?_range short, Option.some_inj]
      omega
    · rw [List.getElem?_eq_none (by rw [List.length_range]; omega)]
      refine iff_of_false nofun fun held => ?_
      omega
  · rw [List.getElem?_eq_none (by rw [List.length_take]; omega)]
    exact iff_of_false nofun fun held => inside held.1

/-- A byte of the table is the one at its place in the file. -/
theorem headerBuffer_origin (beyond : Mem) (origin : (origins file)[x]? = some p) :
    headerBuffer file (ePhoff file) (phdrSize file) beyond x = file.getD p 0 := by
  obtain ⟨inside, rfl, -⟩ := origins_get.mp origin
  unfold headerBuffer vfsRead
  rw [if_pos inside, List.getD_eq_getElem?_getD, List.getElem?_take_of_lt inside, List.getElem?_drop,
    ← List.getD_eq_getElem?_getD]

/-- The words of a header that is read in place are the ones in the file. -/
theorem field_read {k : Nat} (reads : ReadsHeaders file beyond) (below : i < ePhnum file)
    (used : k + 4 ≤ usedLength (phdr file beyond i)) :
    readWord (headerBuffer file (ePhoff file) (phdrSize file) beyond) (32 * i + k) =
      readWord (fun x => file.getD x 0) (ePhoff file + i * ePhentsize file + k) := by
  have byte : ∀ j < 4, headerBuffer file (ePhoff file) (phdrSize file) beyond (32 * i + k + j) =
      file.getD (ePhoff file + i * ePhentsize file + k + j) 0 := by
    intro j small
    have origin := reads i below (k + j) (by omega)
    rw [← Nat.add_assoc, ← Nat.add_assoc] at origin
    exact headerBuffer_origin beyond origin
  unfold readWord
  rw [byte 1 (by decide), byte 2 (by decide), byte 3 (by decide), show 32 * i + k = 32 * i + k + 0 from rfl,
    byte 0 (by decide)]
  rfl

theorem usedLength_pos (ph : Elf32Phdr) : 0 < usedLength ph := by
  unfold usedLength
  split
  · decide
  · decide

/-- When the loop reads the headers of the file. -/
theorem readsHeaders_iff (accepted : Accepts file) : ReadsHeaders file beyond ↔ Spaced file beyond := by
  have some' : 0 < ePhnum file := by
    refine Nat.pos_of_ne_zero fun none => accepted.2.2.2.2 ?_
    change ePhnum file * ePhentsize file % 2 ^ 32 = 0
    rw [none, Nat.zero_mul, Nat.zero_mod]
  unfold ReadsHeaders Spaced
  simp only [origins_get]
  constructor
  · intro reads
    refine ⟨?_, fun i below => ?_⟩
    · by_contra neither
      obtain ⟨several, other⟩ := not_or.mp neither
      obtain ⟨-, place, -⟩ := reads 1 (by omega) 0 (usedLength_pos _)
      omega
    · have positive := usedLength_pos (phdr file beyond i)
      obtain ⟨table, place, inside⟩ := reads i below (usedLength (phdr file beyond i) - 1) (by omega)
      omega
  · rintro ⟨spacing, inside⟩ i below x used
    obtain ⟨table, fits⟩ := inside i below
    have place : i * ePhentsize file = 32 * i := by
      rcases spacing with one | same
      · obtain rfl : i = 0 := by omega
        rw [Nat.zero_mul]
      · rw [same, Nat.mul_comm]
    rw [place]
    omega

end

/-- A file header, for headers of this length that follow it. -/
def fileHeader (phentsize phnum : UInt8) : List UInt8 :=
  [0x7F, 0x45, 0x4C, 0x46] ++ List.replicate 12 0 ++ [2, 0, 3, 0, 1, 0, 0, 0, 0, 0, 0, 8, 52, 0, 0, 0] ++
    List.replicate 10 0 ++
    [phentsize, 0, phnum, 0] ++ List.replicate 6 0

theorem readsHeaders_iff_two : ReadsHeaders (fileHeader 32 2 ++ List.replicate 64 0) fun _ => 0 :=
  (readsHeaders_iff (by decide)).mpr ⟨Or.inr (by decide), by decide⟩

/-- Two headers of 40 bytes: the second is looked for 32 bytes behind the first. -/
theorem longer_headers_misread : ¬ ∀ (file : List UInt8) (beyond : Mem), Accepts file →
    ReadsHeaders file beyond := by
  intro all
  have reads := all (fileHeader 40 2 ++ List.replicate 80 0) (fun _ =>
    0) (by decide +kernel) 1 (by decide +kernel) 0 (by decide +kernel)
  exact absurd reads (by decide +kernel)

end MeowMeowOS.ProgramHeaders

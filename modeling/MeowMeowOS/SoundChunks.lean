import MeowMeowOS.DeterministicRuns
import MeowMeowOS.SoundFiles
import Mathlib.Data.Set.Finite.Lattice

/-! The chunks of a sound file, and the ones that the scan visits. Each header leads
the scan to one other offset modulo 2^32, so it ends where no header leads back to itself. -/
namespace MeowMeowOS.SoundChunks
open ByteMemory SoundFiles DeterministicRuns Relation

/-! ## The chunks of a file -/

def content (file : SoundFile) : List UInt8 := file.held.take file.fileSize

def headerOf (content : List UInt8) (p : Nat) : List UInt8 := (content.drop p).take 8

/-- The offsets of the chunks, up to the first that is data. -/
inductive Chunk (content : List UInt8) : Nat → Prop where
  | first : Chunk content 12
  | next {p : Nat} (chunk : Chunk content p) (inside : p + 8 ≤ content.length)
      (other : (headerOf content p).take 4 ≠ dataTag) : Chunk content (p + 8 + csize (headerOf content p))

structure DataChunk (content : List UInt8) (p : Nat) : Prop where
  chunk : Chunk content p
  inside : p + 8 ≤ content.length
  tag : (headerOf content p).take 4 = dataTag

/-- The scan returns, and where it found data there is data. -/
def ScanSound (file : SoundFile) (fmt : Mem) : Prop :=
  ∃ fuel scan, scanChunks (readFile file) fuel fmt 12 = some scan ∧
    ∀ place ∈ scan.data, ∃ p, DataChunk (content file) p ∧ place.1 = p + 8

/-! ## The headers that the scan visits -/

/-- A whole header is read at the offset. -/
def Readable (file : SoundFile) (p : Nat) : Prop := (readFile file p 8).length = 8

def IsData (file : SoundFile) (p : Nat) : Prop := Readable file p ∧ (readFile file p 8).take 4 = dataTag

/-- From the header of another chunk the scan goes on. -/
def Next (file : SoundFile) (p q : Nat) : Prop :=
  (Readable file p ∧ ¬ IsData file p) ∧ q = (p + 8 + csize (readFile file p 8)) % 2 ^ 32

/-- The header, or the chunk that it begins, goes to 2^32 or further. -/
def Passes (file : SoundFile) (p : Nat) : Prop :=
  2 ^ 32 ≤ p + 8 ∨ (¬ IsData file p ∧ 2 ^ 32 ≤ p + 8 + csize (readFile file p 8))

/-- No header is visited again, and none of data follows one that passes 2^32. -/
structure Orderly (file : SoundFile) : Prop where
  forward : ∀ p, ReflTransGen (Next file) 12 p → ¬ TransGen (Next file) p p
  within : ∀ p d, ReflTransGen (Next file) 12 p → Passes file p → ReflTransGen (Next file) p d →
    ¬ IsData file d

section
variable {file : SoundFile} {fmt : Mem} {p q d fuel : Nat} {scan : Scan}

theorem next_unique (file : SoundFile) : Relator.RightUnique (Next file) := by
  rintro p q q' ⟨-, rfl⟩ ⟨-, rfl⟩
  rfl

theorem visited_finite (file : SoundFile) : {p | ReflTransGen (Next file) 12 p}.Finite := by
  refine (Set.finite_lt_nat (2 ^ 32)).subset fun p visited => ?_
  rcases visited.cases_tail with rfl | ⟨q, -, -, rfl⟩
  · exact (by decide : 12 < 2 ^ 32)
  · exact Nat.mod_lt _ (by decide)

theorem ended_iff : Ended (Next file) p ↔ ¬ Readable file p ∨ IsData file p := by
  constructor
  · intro ended
    by_contra onward
    obtain ⟨readable, other⟩ := not_or.mp onward
    exact ended _ ⟨⟨not_not.mp readable, other⟩, rfl⟩
  · rintro stops q ⟨⟨readable, other⟩, -⟩
    exact stops.elim (absurd readable) other

/-- In the file the scan reads what the file holds. -/
theorem header_content (inside : p + 8 < 2 ^ 32) : readFile file p 8 = headerOf (content file) p :=
  readFile_content fun _ => inside

theorem content_length (file : SoundFile) : (content file).length = file.fileSize :=
  List.length_take_of_le file.inside

theorem readable_inside (small : p + 8 < 2 ^ 32) : Readable file p ↔ p + 8 ≤ (content file).length := by
  unfold Readable
  rw [header_content small, headerOf, List.length_take, List.length_drop]
  omega

/-! ## The scan -/

theorem scan_short (short : ¬ Readable file p) :
    scanChunks (readFile file) (fuel + 1) fmt p = some ⟨fmt, none⟩ := by
  unfold Readable at short
  rw [scanChunks]
  dsimp only
  rw [if_neg short]

theorem scan_data (data : IsData file p) : scanChunks (readFile file) (fuel + 1) fmt p =
    some ⟨fmt, some ((p + 8) % 2 ^ 32, csize (readFile file p 8))⟩ := by
  obtain ⟨readable, tag⟩ := data
  unfold Readable at readable
  have other : (readFile file p 8).take 4 ≠ fmtTag := by
    rw [tag]
    decide
  rw [scanChunks]
  dsimp only
  rw [if_pos readable, if_neg other, if_pos tag]

/-- From one header to the next; the format may be one that this chunk has. -/
theorem scan_next (next : Next file p q) (fmt : Mem) :
    ∃ fmt', ∀ fuel, scanChunks (readFile file) (fuel + 1) fmt p = scanChunks (readFile file) fuel fmt' q := by
  obtain ⟨⟨readable, plain⟩, rfl⟩ := next
  have other : ¬ (readFile file p 8).take 4 = dataTag := fun tag => plain ⟨readable, tag⟩
  unfold Readable at readable
  by_cases isFmt : (readFile file p 8).take 4 = fmtTag
  · refine ⟨ElfLoading.memcpy (ElfLoading.memcpy fmt 8 (readFile file ((p + 8) % 2 ^ 32) 16)) 0 (readFile file p 8),
      fun fuel => ?_⟩
    rw [scanChunks]
    dsimp only
    rw [if_pos readable, if_pos isFmt]
  · refine ⟨fmt, fun fuel => ?_⟩
    rw [scanChunks]
    dsimp only
    rw [if_pos readable, if_neg isFmt, if_neg other]

/-- A scan that returns has ended, and has found data where it ended at data. -/
theorem scan_visits (returns : scanChunks (readFile file) fuel fmt p = some scan) :
    ∃ last, ReflTransGen (Next file) p last ∧ Ended (Next file) last ∧
      (IsData file last → ∃ size, scan.data = some ((last + 8) % 2 ^ 32, size)) ∧
      ∀ place ∈ scan.data, IsData file last ∧ place.1 = (last + 8) % 2 ^ 32 := by
  induction fuel generalizing fmt p with
  | zero => cases returns
  | succ fuel ih =>
    by_cases readable : Readable file p
    · by_cases data : IsData file p
      · rw [scan_data data] at returns
        obtain rfl := Option.some.inj returns
        refine ⟨p, .refl, ended_iff.mpr (.inr data), fun _ => ⟨_, rfl⟩, fun place found => ?_⟩
        obtain rfl := Option.some.inj found
        exact ⟨data, rfl⟩
      · have step : Next file p ((p + 8 + csize (readFile file p 8)) % 2 ^ 32) := ⟨⟨readable, data⟩, rfl⟩
        obtain ⟨fmt', onward⟩ := scan_next step fmt
        rw [onward] at returns
        obtain ⟨last, leads, ends⟩ := ih returns
        exact ⟨last, leads.head step, ends⟩
    · rw [scan_short readable] at returns
      obtain rfl := Option.some.inj returns
      refine ⟨p, .refl, ended_iff.mpr (.inl readable), fun data => absurd data.1 readable, fun place found => ?_⟩
      cases found

theorem scan_returns (leads : ReflTransGen (Next file) p q) (ended : Ended (Next file) q) (fmt : Mem) :
    ∃ fuel scan, scanChunks (readFile file) fuel fmt p = some scan := by
  induction leads using ReflTransGen.head_induction_on generalizing fmt with
  | refl =>
    rcases ended_iff.mp ended with short | data
    · exact ⟨1, _, scan_short short⟩
    · exact ⟨1, _, scan_data data⟩
  | head step _ ih =>
    obtain ⟨fmt', onward⟩ := scan_next step fmt
    obtain ⟨fuel, scan, rest⟩ := ih fmt'
    exact ⟨fuel + 1, scan, (onward fuel).trans rest⟩

theorem scan_returns_iff (file : SoundFile) (fmt : Mem) :
    (∃ fuel scan, scanChunks (readFile file) fuel fmt 12 = some scan) ↔
      ∀ p, ReflTransGen (Next file) 12 p → ¬ TransGen (Next file) p p := by
  rw [← ends_iff (next_unique file) (visited_finite file)]
  constructor
  · rintro ⟨fuel, scan, returns⟩
    obtain ⟨last, leads, ended, -⟩ := scan_visits returns
    exact ⟨last, leads, ended⟩
  · rintro ⟨last, leads, ended⟩
    exact scan_returns leads ended fmt

/-! ## Chunks and headers -/

/-- Headers that pass nothing lead to chunks. -/
theorem chunk_of_visited (visited : ReflTransGen (Next file) 12 p) (ahead : ReflTransGen (Next file) p q)
    (within : ∀ p, ReflTransGen (Next file) 12 p → ReflTransGen (Next file) p q → ¬ Passes file p) :
    Chunk (content file) p := by
  induction visited with
  | refl => exact .first
  | @tail p next visited step ih =>
    have before := ih (ahead.head step)
    have short := within p visited (ahead.head step)
    obtain ⟨⟨readable, other⟩, rfl⟩ := step
    unfold Passes at short
    have small : p + 8 < 2 ^ 32 := by omega
    have whole : p + 8 + csize (readFile file p 8) < 2 ^ 32 := by
      by_contra passes
      exact short (.inr ⟨other, by omega⟩)
    rw [Nat.mod_eq_of_lt whole, header_content small]
    refine .next before ((readable_inside small).mp readable) fun tag => other ⟨readable, ?_⟩
    rwa [header_content small]

/-- Chunks of the file are visited, and those before pass nothing. -/
theorem visited_of_chunk (chunk : Chunk (content file) p) (inside : p + 8 ≤ (content file).length) :
    ReflTransGen (fun p q => Next file p q ∧ ¬ Passes file p) 12 p := by
  have word := file.word
  rw [content_length] at inside
  induction chunk with
  | first => exact .refl
  | @next p chunk fits other ih =>
    rw [content_length] at fits
    have header : readFile file p 8 = headerOf (content file) p := header_content (by omega)
    rw [← header] at inside other ⊢
    have plain : ¬ IsData file p := fun data => other data.2
    have readable : Readable file p := (readable_inside (by omega)).mpr (by rw [content_length]; omega)
    have short : ¬ Passes file p := by
      unfold Passes
      omega
    exact (ih (by omega)).tail ⟨⟨⟨readable, plain⟩, (Nat.mod_eq_of_lt (by omega)).symm⟩, short⟩

/-- Chunks that end below 2^32 lead forward. -/
theorem orderly_of_short (short : ∀ p, ReflTransGen (Next file) 12 p → ¬ Passes file p) : Orderly file := by
  have onward {p q : Nat} (visited : ReflTransGen (Next file) 12 p) (step : Next file p q) : p < q := by
    have whole := short p visited
    obtain ⟨⟨readable, other⟩, rfl⟩ := step
    unfold Passes at whole
    have small : p + 8 + csize (readFile file p 8) < 2 ^ 32 := by
      by_contra passes
      exact whole (.inr ⟨other, by omega⟩)
    rw [Nat.mod_eq_of_lt small]
    omega
  refine ⟨fun p visited cycle => Nat.lt_irrefl p ?_, fun p _ visited passes => absurd passes (short p visited)⟩
  have further (q : Nat) (leads : TransGen (Next file) p q) : p < q := by
    induction leads with
    | single step => exact onward visited step
    | tail before step ih => exact Nat.lt_trans ih (onward (visited.trans before.to_reflTransGen) step)
  exact further p cycle

end

/-- The scan is sound of the files whose headers lead forward within 2^32. -/
theorem scanSound_iff (file : SoundFile) (fmt : Mem) : ScanSound file fmt ↔ Orderly file := by
  have word := file.word
  have unique := next_unique file
  constructor
  · rintro ⟨fuel, scan, returns, sound⟩
    refine ⟨(scan_returns_iff file fmt).mp ⟨fuel, scan, returns⟩, fun p d visited passes ahead isData => ?_⟩
    obtain ⟨last, leads, ended, found, -⟩ := scan_visits returns
    obtain rfl := ended_unique unique leads ended (visited.trans ahead) (ended_iff.mpr (.inr isData))
    obtain ⟨size, place⟩ := found isData
    obtain ⟨q, ⟨chunk, inside, tag⟩, same⟩ := sound _ place
    dsimp only at same
    have path := visited_of_chunk chunk inside
    rw [content_length] at inside
    have isData' : IsData file q :=
      ⟨(readable_inside (by omega)).mpr (by rwa [content_length]), by rwa [header_content (by omega)]⟩
    -- what is visited before the chunk passes nothing, and the chunk does not either
    rcases (leads_end unique (fun _ _ => And.left) path (ended_iff.mpr (.inr isData')) visited).cases_head with
      rfl | ⟨next, ⟨-, short⟩, -⟩
    · unfold Passes at passes
      rcases passes with high | ⟨other, -⟩
      · omega
      · exact other isData'
    · exact short passes
  · rintro ⟨forward, within⟩
    obtain ⟨fuel, scan, returns⟩ := (scan_returns_iff file fmt).mpr forward
    refine ⟨fuel, scan, returns, fun place found => ?_⟩
    obtain ⟨last, leads, -, -, ends⟩ := scan_visits returns
    obtain ⟨isData, same⟩ := ends place found
    have short (p : Nat) (visited : ReflTransGen (Next file) 12 p) (ahead : ReflTransGen (Next file) p last) :
        ¬ Passes file p := fun passes => within p last visited passes ahead isData
    have chunk := chunk_of_visited leads .refl short
    have small : last + 8 < 2 ^ 32 := by
      by_contra high
      exact short last leads .refl (.inl (by omega))
    rw [Nat.mod_eq_of_lt small] at same
    refine ⟨last, ⟨chunk, (readable_inside small).mp isData.1, ?_⟩, same⟩
    rw [← header_content small]
    exact isData.2

/-- One chunk of no kind that the scan knows, whose size leads back to it. -/
def wrappingFile : SoundFile where
  held := riffTag ++ [0x0C, 0, 0, 0] ++ waveTag ++ [0x4A, 0x55, 0x4E, 0x4B] ++ [0xF8, 0xFF, 0xFF, 0xFF]
  fileSize := 20
  inside := by decide
  word := by decide

theorem scanSound_wraps : ¬ ∀ (file : SoundFile) (fmt : Mem), WaveFile file → ScanSound file fmt := by
  intro always
  have wave : WaveFile wrappingFile := by
    unfold WaveFile
    decide +kernel
  obtain ⟨fuel, scan, returns, -⟩ := always wrappingFile (fun _ => 0) wave
  have readable : Readable wrappingFile 12 := by
    unfold Readable
    decide +kernel
  have other : (readFile wrappingFile 12 8).take 4 ≠ dataTag := by decide +kernel
  have again : 12 = (12 + 8 + csize (readFile wrappingFile 12 8)) % 2 ^ 32 := by decide +kernel
  exact (scan_returns_iff wrappingFile fun _ => 0).mp ⟨fuel, scan, returns⟩ 12 .refl
    (.single ⟨⟨readable, fun data => other data.2⟩, again⟩)

end MeowMeowOS.SoundChunks

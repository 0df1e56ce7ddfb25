import MeowMeowOS.ElfLoading
import MeowMeowOS.ReadContents

/-! Sound files: the scan over the chunks of a RIFF file for its format and its
samples, and the file on a FAT16 volume that it reads. -/
namespace MeowMeowOS.SoundFiles
open ByteMemory ElfLoading Fat16Disk Fat16Names Fat16Directory Fat16Paths Fat16Files Fat16Vfs ReadContents

/-! ## The file -/

/-- A file of `fileSize` bytes; its clusters may hold more. -/
structure SoundFile where
  held : List UInt8
  fileSize : Nat
  inside : fileSize ≤ held.length
  word : fileSize < 2 ^ 32

/-- `vfs_read` of the file, as `fat16_read_file` has it. -/
def readFile (file : SoundFile) (offset size : Nat) : List UInt8 :=
  if file.fileSize ≤ offset then []
  else
    let bytesToRead := if file.fileSize < (offset + size) % 2 ^ 32 then file.fileSize - offset else size
    (file.held.drop offset).take bytesToRead

/-- The file of a directory entry. -/
def soundFile (v : Volume) (entry : Slot) : SoundFile :=
  ⟨chainBytes v (clusterLow entry) (fileSize entry), fileSize entry, by simp [chainBytes], readWord_lt _ _⟩

section
variable {file : SoundFile} {offset size : Nat}

/-- Where no sum wraps a read returns what is left of the file, or as much as is asked for. -/
theorem readFile_content (words : offset < file.fileSize → offset + size < 2 ^ 32) :
    readFile file offset size = ((file.held.take file.fileSize).drop offset).take size := by
  unfold readFile
  by_cases behind : file.fileSize ≤ offset
  · rw [if_pos behind, List.drop_eq_nil_of_le (by rw [List.length_take]; omega), List.take_nil]
  · rw [if_neg behind, Nat.mod_eq_of_lt (words (by omega)), List.drop_take, List.take_take]
    dsimp only
    congr 1
    split
    · omega
    · omega

/-- The node of a file in the current directory reads that file. -/
theorem fat16VfsRead_soundFile {v : Volume} {entry : Slot} {node : FileNode} {fuel : Nat} (plain : slash ∉ node.name)
    (found : findEntryInCurrentDir (fuel + 1) v node.name = some (some entry)) (held : Held v entry)
    (words : offset < fileSize entry → offset + size < 2 ^ 32) (enough : fileSize entry < fuel * clusterSize v) :
    fat16VfsRead (fuel + 1) v node offset size = some (readFile (soundFile v entry) offset size, v) := by
  rw [fat16VfsRead_content plain found held words enough, readFile_content words]
  have whole : (soundFile v entry).held.take (soundFile v entry).fileSize =
      chainBytes v (clusterLow entry) (fileSize entry) := List.take_of_length_le (by simp [soundFile, chainBytes])
  rw [whole]

end

/-! ## The scan -/

def riffTag : List UInt8 := [0x52, 0x49, 0x46, 0x46]
def waveTag : List UInt8 := [0x57, 0x41, 0x56, 0x45]
def fmtTag : List UInt8 := [0x66, 0x6D, 0x74, 0x20]
def dataTag : List UInt8 := [0x64, 0x61, 0x74, 0x61]

/-- The size in a chunk's header. -/
def csize (chunkHdr : List UInt8) : Nat := readWord (fun i => chunkHdr.getD i 0) 4

/-- What the loop leaves: the format, and the offset and the size of the data where it found them. -/
structure Scan where
  fmt : Mem
  data : Option (Nat × Nat)

/-- The loop over the chunks. -/
def scanChunks (read : Nat → Nat → List UInt8) : Nat → Mem → Nat → Option Scan
  | 0, _, _ => none
  | fuel + 1, fmt, offset =>
    let chunkHdr := read offset 8
    if chunkHdr.length = 8 then
      if chunkHdr.take 4 = fmtTag then
        let fmt := memcpy (memcpy fmt 8 (read ((offset + 8) % 2 ^ 32) 16)) 0 chunkHdr
        scanChunks read fuel fmt ((offset + 8 + csize chunkHdr) % 2 ^ 32)
      else if chunkHdr.take 4 = dataTag then some ⟨fmt, some ((offset + 8) % 2 ^ 32, csize chunkHdr)⟩
      else scanChunks read fuel fmt ((offset + 8 + csize chunkHdr) % 2 ^ 32)
    else some ⟨fmt, none⟩

def audioFormat (fmt : Mem) : Nat := readHalf fmt 8
def numChannels (fmt : Mem) : Nat := readHalf fmt 10
def sampleRate (fmt : Mem) : Nat := readWord fmt 12
def bitsPerSample (fmt : Mem) : Nat := readHalf fmt 22

inductive Playback where
  | premature
  | invalid
  | unsupported (audioFormat dataSize : Nat)
  | outOfMemory (dataSize : Nat)
  | played (audioData : List UInt8) (dataSize sampleRate numChannels bitsPerSample : Nat)

/-- `kplay_sound_file` from the opened node on; `fmt` is what the stack had. -/
def kplaySoundFile (read : Nat → Nat → List UInt8) (kmemAlloc : Nat → Bool) (fuel : Nat) (fmt : Mem) :
    Option Playback :=
  let header := read 0 12
  if header.length ≠ 12 then some .premature
  else if header.take 4 ≠ riffTag ∨ header.drop 8 ≠ waveTag then some .invalid
  else do
    let scan ← scanChunks read fuel fmt 12
    let (dataOffset, dataSize) := scan.data.getD (0, 0)
    if 0 < dataSize ∧ audioFormat scan.fmt = 1 then
      if kmemAlloc dataSize then
        return .played (read dataOffset dataSize) dataSize (sampleRate scan.fmt) (numChannels scan.fmt)
          (bitsPerSample scan.fmt)
      else return .outOfMemory dataSize
    else return .unsupported (audioFormat scan.fmt) dataSize

/-- The file starts with a RIFF/WAVE header. -/
def WaveFile (file : SoundFile) : Prop :=
  (readFile file 0 12).length = 12 ∧ (readFile file 0 12).take 4 = riffTag ∧ (readFile file 0 12).drop 8 = waveTag

/-- On such a file the function returns where its loop does. -/
theorem kplaySoundFile_returns {file : SoundFile} (wave : WaveFile file) (kmemAlloc : Nat → Bool) (fuel : Nat)
    (fmt : Mem) : (kplaySoundFile (readFile file) kmemAlloc fuel fmt).isSome ↔
      (scanChunks (readFile file) fuel fmt 12).isSome := by
  obtain ⟨whole, riff, tag⟩ := wave
  unfold kplaySoundFile
  dsimp only
  rw [if_neg (not_not.mpr whole), if_neg (by rw [riff, tag]; simp)]
  cases scanChunks (readFile file) fuel fmt 12 with
  | none => rfl
  | some scan =>
    refine iff_of_true ?_ rfl
    change Option.isSome (if _ then _ else _) = true
    split
    · split
      · rfl
      · rfl
    · rfl

end MeowMeowOS.SoundFiles

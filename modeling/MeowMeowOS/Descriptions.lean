import MeowMeowOS.BufferCalls
import MeowMeowOS.WindowedSearch
import MeowMeowOS.ReadContents
import Mathlib.Data.List.TakeWhile

/-! The search for a program's description. It reads the file in windows of 1024
bytes and finds what one search through the whole file would find. -/
namespace MeowMeowOS.Descriptions
open ByteMemory Fat16Disk Fat16Names Fat16Directory Fat16Paths Fat16Vfs BufferCalls WindowedSearch ReadContents

/-- A marker in the first 64 KiB, with at least one byte behind it. -/
def MarkerAt (file : List UInt8) (p : Nat) : Prop :=
  OccursAt descriptionTag file p ∧ p + 6 ≤ 65536 ∧ p + 6 < file.length

/-- What is read behind a marker. -/
def textAt (file : List UInt8) (size p : Nat) : List UInt8 := (file.drop (p + 6)).take (size - 1)

/-- Reads of the node return what is left of the file, or as much as is asked
for. -/
structure Readable (good : Volume → Prop) (need : Nat) (node : FileNode) (file : List UInt8) (size : Nat) : Prop where
  length : node.length = file.length
  reads : ∀ v, good v → ∀ fuel, need ≤ fuel → ∀ offset n, n ≤ 1024 ∨ n = size - 1 →
    ∃ v', good v' ∧ fat16VfsRead fuel v node offset n = some ((file.drop offset).take n, v')

/-- The answer of a search through the whole file. -/
def Answers (file : List UInt8) (buffer size : Nat) : Bool → List Store → Prop
  | false, stores => (∀ p, ¬ MarkerAt file p) ∧ stores = []
  | true, stores => ∃ p, First (MarkerAt file) p ∧ stores = storeDescription buffer (textAt file size p)

section
variable {good : Volume → Prop} {need fuel buffer size offset scanLimit i p : Nat} {node : FileNode}
    {file chunk : List UInt8} {v u : Volume}
  {filename : CString} {granted : Bool}

/-! ## One window -/

theorem findTag_none (none : findTag chunk = none) (i : Nat) : ¬ OccursAt descriptionTag chunk i := by
  intro occurs
  have inside := occursAt_inside (by decide) occurs
  change i + 6 ≤ chunk.length at inside
  have other := List.find?_eq_none.mp none i (List.mem_range.mpr (by omega))
  exact other (beq_iff_eq.mpr occurs)

theorem findTag_some (found : findTag chunk = some i) : First (OccursAt descriptionTag chunk) i := by
  obtain ⟨hit, inside, others⟩ := List.find?_range_eq_some.mp found
  refine ⟨beq_iff_eq.mp hit, fun q before occurs => ?_⟩
  have miss := others q before
  rw [Bool.not_eq_true', beq_eq_false_iff_ne] at miss
  exact miss occurs

/-- No marker begins so near to the limit of the search. -/
theorem marker_room (limit : scanLimit = min file.length 65536) (marker : MarkerAt file p) : p + 6 ≤ scanLimit := by
  obtain ⟨-, near, followed⟩ := marker
  omega

/-- A search that ends without a marker. -/
theorem answers_none (limit : scanLimit = min file.length 65536) (before : ∀ p < offset, ¬ MarkerAt file p)
    (last : scanLimit < offset + 6) :
    Answers file buffer size false [] := by
  refine ⟨fun p marker => ?_, rfl⟩
  have room := marker_room limit marker
  exact before p (by omega) marker

/-! ## The loop -/

/-- One round reads a window, up to the limit. -/
theorem window_read (fuel : Nat) (readable : Readable good need node file size)
    (limit : scanLimit = min file.length 65536) (ready : good v)
    (enough : need ≤ fuel) (inside : offset < scanLimit) : ∃ v', good v' ∧
      fat16VfsRead fuel v node offset (if scanLimit < offset + 1024 then scanLimit - offset else 1024) =
        some ((file.drop offset).take (min 1024 (scanLimit - offset)), v') ∧
      ((file.drop offset).take (min 1024 (scanLimit - offset))).length = min 1024 (scanLimit - offset) := by
  have asked : (if scanLimit < offset + 1024 then scanLimit - offset else 1024) = min 1024 (scanLimit - offset) := by
    split <;> omega
  obtain ⟨v', ready', read⟩ :=
    readable.reads v ready fuel enough offset (min 1024 (scanLimit - offset)) (.inl (Nat.min_le_left _ _))
  rw [asked]
  refine ⟨v', ready', read, ?_⟩
  rw [List.length_take, List.length_drop]
  omega

/-- The window is too short for a marker. -/
theorem searchDescription_last (readable : Readable good need node file size)
    (limit : scanLimit = min file.length 65536) (ready : good v)
    (enough : need < fuel) (last : scanLimit < offset + 6) :
    searchDescription node buffer size scanLimit fuel v offset = some (false, []) := by
  obtain ⟨fuel, rfl⟩ := Nat.exists_eq_succ_of_ne_zero (Nat.ne_of_gt (Nat.zero_lt_of_lt enough))
  rw [searchDescription]
  by_cases inside : offset < scanLimit
  · obtain ⟨v', -, read, length⟩ := window_read fuel readable limit ready (Nat.le_of_lt_succ enough) inside
    rw [if_pos inside]
    dsimp only
    rw [read]
    dsimp only [Option.bind_eq_bind, Option.bind_some]
    rw [if_pos (by omega)]
  · rw [if_neg inside]

/-- The loop from `offset` on answers what the search through the file does. Each
round leaves out 1019 bytes at least, or comes to the end. -/
theorem searchDescription_answers (buffer rounds : Nat) (readable : Readable good need node file size)
    (large : 2 ≤ size)
    (limit : scanLimit = min file.length 65536) (ready : good v) (before : ∀ p < offset, ¬ MarkerAt file p)
    (near : scanLimit ≤ offset + rounds * 1019 + 5) (enough : need + rounds < fuel) :
    ∃ found stores, searchDescription node buffer size scanLimit fuel v offset = some (found, stores) ∧
      Answers file buffer size found stores := by
  induction rounds generalizing fuel v offset with
  | zero =>
    have last : scanLimit < offset + 6 := by omega
    exact ⟨false, [], searchDescription_last readable limit ready enough last, answers_none limit before last⟩
  | succ rounds ih =>
    by_cases last : scanLimit < offset + 6
    · exact ⟨false, [], searchDescription_last readable limit ready (by omega) last,
        answers_none limit before last⟩
    · obtain ⟨fuel, rfl⟩ := Nat.exists_eq_succ_of_ne_zero (Nat.ne_of_gt (Nat.zero_lt_of_lt enough))
      obtain ⟨v', ready', read, length⟩ := window_read fuel readable limit ready (by omega)
        (show offset < scanLimit by omega)
      rw [searchDescription, if_pos (by omega)]
      dsimp only
      rw [read]
      dsimp only [Option.bind_eq_bind, Option.bind_some]
      rw [if_neg (by omega), length]
      have near' : scanLimit ≤ offset + (min 1024 (scanLimit - offset) - 5) + rounds * 1019 + 5 := by omega
      cases tag : findTag ((file.drop offset).take (min 1024 (scanLimit - offset))) with
      | none =>
        dsimp only
        refine ih ready' (fun p less marker => ?_) near' (by omega)
        by_cases from' : offset ≤ p
        · have behind := occurs_behind_window (findTag_none tag) from' marker.1
          change offset + min 1024 (scanLimit - offset) < p + 6 at behind
          omega
        · exact before p (by omega) marker
      | some i =>
        obtain ⟨occurs, inside, earlier⟩ := first_of_window (by decide) (findTag_some tag)
        change offset + i + 6 ≤ offset + min 1024 (scanLimit - offset) at inside
        obtain ⟨u, readyU, text⟩ := readable.reads v' ready' fuel (by omega) (offset + i + 6) (size - 1) (.inr rfl)
        dsimp only
        rw [text]
        dsimp only [Option.bind_some]
        by_cases empty : (file.drop (offset + i + 6)).take (size - 1) = []
        · -- the marker ends the file, and nothing stands behind it
          have short := congrArg List.length empty
          rw [List.length_take, List.length_drop, List.length_nil] at short
          rw [if_pos empty]
          refine ih readyU (fun p less marker => ?_) near' (by omega)
          have followed := marker.2.2
          by_cases from' : offset ≤ p
          · exact earlier p from' (by omega) marker.1
          · exact before p (by omega) marker
        · have followed : offset + i + 6 < file.length := by
            by_contra end'
            exact empty (by rw [List.drop_eq_nil_of_le (by omega), List.take_nil])
          rw [if_neg empty]
          refine ⟨true, _, rfl, offset + i, ⟨⟨occurs, by omega, followed⟩, fun q less marker => ?_⟩, rfl⟩
          by_cases from' : offset ≤ q
          · exact earlier q from' less marker.1
          · exact before q (by omega) marker

/-! ## The call -/

theorem storesAt_append (buffer : Nat) (bytes more : List UInt8) :
    storesAt buffer bytes ++ storesAt (buffer + bytes.length) more = storesAt buffer (bytes ++ more) := by
  unfold storesAt
  rw [List.length_append, List.range_add, List.map_append, List.map_map]
  congr 1
  · refine List.map_congr_left fun i member => ?_
    rw [List.getD_append _ _ _ _ (List.mem_range.mp member)]
  · refine List.map_congr_left fun i _ => ?_
    dsimp only [Function.comp]
    rw [Nat.add_assoc, List.getD_append_right _ _ _ _ (Nat.le_add_right _ _), Nat.add_sub_cancel_left]

theorem zero_splits {bytes : List UInt8} (zero : 0 ∈ bytes) :
    ∃ rest, bytes = bytes.takeWhile (· ≠ 0) ++ 0 :: rest := by
  induction bytes with
  | nil => cases zero
  | cons b bytes ih =>
    by_cases last : b = 0
    · subst last
      exact ⟨bytes, rfl⟩
    · obtain ⟨rest, shape⟩ := ih ((List.mem_cons.mp zero).resolve_left (Ne.symm last))
      refine ⟨rest, ?_⟩
      rw [List.takeWhile_cons_of_pos (by simpa using last), List.cons_append, ← shape]

/-- The text in the buffer ends with a zero byte inside of it. -/
theorem storeDescription_text (buffer : Nat) (bytes : List UInt8) : ∃ rest,
    storeDescription buffer bytes = storesAt buffer (bytes.takeWhile (· ≠ 0) ++ 0 :: rest) ∧
      (bytes.takeWhile (· ≠ 0)).length + rest.length ≤ bytes.length := by
  unfold storeDescription
  by_cases zero : (0 : UInt8) ∈ bytes
  · obtain ⟨rest, shape⟩ := zero_splits zero
    have length := congrArg List.length shape
    rw [List.length_append, List.length_cons] at length
    refine ⟨rest, ?_, by omega⟩
    rw [if_pos zero, ← shape]
  · rw [if_neg zero, storesAt_append]
    have whole : bytes.takeWhile (· ≠ 0) = bytes := by
      refine List.takeWhile_eq_self_iff.mpr fun b member => ?_
      rw [decide_eq_true_eq]
      exact fun same => zero (same ▸ member)
    rw [whole]
    exact ⟨[], rfl, Nat.le_refl _⟩

/-- The description is found exactly where the file has a marker, and what is
stored is the text behind the first. -/
theorem description_found_iff (opened : openProgram fuel v filename granted = some (some node, u))
    (readable : Readable good need node file size) (ready : good u) (elf : elfMagic <+: file)
    (nonnull : buffer ≠ 0) (large : 2 ≤ size)
    (enough : need + 67 ≤ fuel) : ∃ found stores,
      elfGetDescription fuel v filename granted buffer size = some (found, stores) ∧
      (found = true ↔ ∃ p, MarkerAt file p) ∧
      ∀ p, First (MarkerAt file) p → ∃ rest,
        stores = storesAt buffer ((textAt file size p).takeWhile (· ≠ 0) ++ 0 :: rest) ∧
        ((textAt file size p).takeWhile (· ≠ 0)).length + rest.length < size := by
  have magic : file.take 4 = elfMagic := by
    obtain ⟨back, rfl⟩ := elf
    exact List.take_left' rfl
  have length : 4 ≤ file.length := elf.length_le
  obtain ⟨v', ready', read⟩ := readable.reads u ready fuel (by omega) 0 4 (.inl (by decide))
  obtain ⟨found, stores, searched, answers⟩ :=
    searchDescription_answers buffer 65 readable large (v := v') rfl ready'
    (fun p less => absurd less (Nat.not_lt_zero p)) (by omega) (show need + 65 < fuel by omega)
  refine ⟨found, stores, ?_, ?_, ?_⟩
  · unfold elfGetDescription
    rw [if_neg (by omega), opened]
    dsimp only [Option.bind_eq_bind, Option.bind_some]
    rw [readable.length, if_neg (by omega), read]
    dsimp only [Option.bind_some]
    rw [List.drop_zero, magic, if_neg (by decide)]
    exact searched
  · cases found with
    | false =>
      refine iff_of_false nofun ?_
      rintro ⟨p, marker⟩
      exact answers.1 p marker
    | true =>
      obtain ⟨p, first, -⟩ := answers
      exact iff_of_true rfl ⟨p, first.1⟩
  · intro p first
    cases found with
    | false => exact absurd first.1 (answers.1 p)
    | true =>
      obtain ⟨q, other, rfl⟩ := answers
      obtain rfl := first_unique first other
      obtain ⟨rest, text, bound⟩ := storeDescription_text buffer (textAt file size p)
      have read : (textAt file size p).length ≤ size - 1 := List.length_take_le _ _
      exact ⟨rest, text, by omega⟩

/-- A file of the current directory whose chain is as long as it says. -/
theorem readable_plain {entry : Slot} (need clusters : Nat) (plain : slash ∉ node.name)
    (found : ∀ fuel, need ≤ fuel → findEntryInCurrentDir fuel v node.name = some (some entry))
    (held : Held v entry)
    (length : node.length = fileSize entry)
    (words : fileSize entry + 1024 ≤ 2 ^ 32 ∧ fileSize entry + size ≤ 2 ^ 32)
    (long : fileSize entry < clusters * clusterSize v) : Readable (fun u => u = v) (max need (clusters + 1)) node
      (chainBytes v (clusterLow entry) (fileSize entry)) size := by
  refine ⟨?_, ?_⟩
  · rw [length]
    unfold chainBytes
    rw [List.length_map, List.length_range]
  · rintro u rfl fuel enough offset n asked
    obtain ⟨fuel, rfl⟩ := Nat.exists_eq_succ_of_ne_zero (show fuel ≠ 0 by omega)
    have more := Nat.mul_le_mul_right (clusterSize u) (show clusters ≤ fuel by omega)
    exact ⟨u, rfl, fat16VfsRead_content plain (found _ (by omega)) held (fun inside => by omega) (by omega)⟩

/-! ## A file of twelve bytes -/

/-- `\x7FELF@DESC:Hi` -/
def describedFile : List UInt8 := [0x7F, 0x45, 0x4C, 0x46, 0x40, 0x44, 0x45, 0x53, 0x43, 0x3A, 0x48, 0x69]

def described : Volume := { MissingDirectories.twoEntries with
  disk :=
    { total := 418
      sectors := fun n =>
        if n = 256 ∨ n = 257 then MissingDirectories.twoEntriesTable
        else if n = 258 then fun o => if o < 32 then shortEntry (shortNameFor [0x41]) 0x20 2 12 o else 0
        else if n = 290 then fun o => describedFile.getD o 0
        else fun _ => 0 } }

theorem described_entry : ∃ entry, (∀ fuel, findEntryInCurrentDir fuel described [0x41] = some (some entry)) ∧
    fileSize entry = 12 ∧ clusterLow entry = 2 := by
  have lookup : (findEntryInCurrentDir 0 described [0x41]).map (·.map fun e => (fileSize e, clusterLow e)) =
      some (some (12, 2)) := by
    decide +kernel
  obtain ⟨found, answer, isSome⟩ := Option.map_eq_some_iff.mp lookup
  obtain ⟨entry, rfl, fields⟩ := Option.map_eq_some_iff.mp isSome
  exact ⟨entry, fun _ => answer, congrArg Prod.fst fields, congrArg Prod.snd fields⟩

theorem described_opened : openProgram 70 described [0x41] true = some (some ⟨[0x41], 12⟩, described) := by
  obtain ⟨entry, found, size, -⟩ := described_entry
  have sized : fat16GetFileSize 70 described [0x41] = some (12, described) := by
    unfold fat16GetFileSize
    rw [if_neg (by decide)]
    simp only [Option.bind_eq_bind, Option.bind_eq_some_iff, Prod.exists]
    refine ⟨described, [0x41], rfl, some entry, found 70, described, rfl, ?_⟩
    rw [Option.map_some, Option.getD_some, size]
    rfl
  have opened : fat16VfsOpen 70 described [0x41] true = some (some ⟨[0x41], 12⟩, described) := by
    unfold fat16VfsOpen openIn
    rw [if_neg (by decide), if_neg (by decide)]
    simp only [Option.bind_eq_bind, Option.bind_eq_some_iff, Prod.exists]
    exact ⟨12, described, sized, 0, described, rfl, rfl⟩
  unfold openProgram
  simp only [Option.bind_eq_bind, Option.bind_eq_some_iff, Prod.exists]
  exact ⟨_, _, opened, rfl⟩

theorem described_readable : Readable (fun u => u = described) 2 ⟨[0x41], 12⟩ describedFile 2 := by
  obtain ⟨entry, found, size, cluster⟩ := described_entry
  have bytes : chainBytes described 2 12 = describedFile := by decide +kernel
  have held : Held described entry := by
    rw [Held, size, cluster]
    refine ⟨by decide, fun k short => ?_⟩
    obtain rfl : k = 0 := by
      change k * 16384 < 12 at short
      omega
    decide
  have readable : Readable (fun u => u = described) 2 ⟨[0x41],
      12⟩ (chainBytes described (clusterLow entry) (fileSize entry)) 2 :=
    readable_plain 2 1 (by decide) (fun fuel _ => found fuel) held size.symm (by rw [size]; decide)
      (by rw [size]; decide)
  rw [size, cluster, bytes] at readable
  exact readable

/-- One byte of the description fits the buffer. -/
theorem description_found_iff_short : ∃ found stores,
    elfGetDescription 70 described [0x41] true 0x800000 2 = some (found, stores) ∧
    (found = true ↔ ∃ p, MarkerAt describedFile p) ∧
    ∀ p, First (MarkerAt describedFile) p → ∃ rest,
      stores = storesAt 0x800000 ((textAt describedFile 2 p).takeWhile (· ≠ 0) ++ 0 :: rest) ∧
      ((textAt describedFile 2 p).takeWhile (· ≠ 0)).length + rest.length < 2 :=
  description_found_iff described_opened described_readable rfl (by decide) (by decide) (by decide) (by decide)

end

end MeowMeowOS.Descriptions

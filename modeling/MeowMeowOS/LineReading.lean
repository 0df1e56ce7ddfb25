import MeowMeowOS.CutPieces
import MeowMeowOS.StdioBuffers
import Mathlib.Data.List.TakeWhile
import Mathlib.Logic.Function.Iterate

/-! `fgets` of `stdio.c` over any cutting of its input into reads. -/
namespace MeowMeowOS.LineReading

open StdioBuffers CutPieces

def newline : UInt8 := 0x0A

section
variable (sys : Kernel κ)

/-- `while (i < size - 1)` with so many bytes to go: what is stored in front of
the terminator, or `NULL` for an `EOF` before the first byte. -/
def fgetsLoop (fd : Int) : Nat → List UInt8 → Libc κ → Option (List UInt8) × Libc κ
  | 0, stored, s => (some stored, s)
  | n + 1, stored, s =>
    let (ch, s) := fgetc sys s fd
    if ch = -1 then (if stored.length = 0 then none else some stored, s)
    else
      let stored := stored ++ [UInt8.ofInt ch]
      if ch = newline.toNat then (some stored, s) else fgetsLoop fd n stored s

def fgets (s : Libc κ) (size fd : Int) : Option (List UInt8) × Libc κ :=
  if size ≤ 0 then (none, s) else fgetsLoop sys fd (size - 1).toNat [] s

/-- The string at a buffer that holds `stored` and a terminator. -/
def cString (stored : List UInt8) : List UInt8 := stored.takeWhile (· ≠ 0)

/-- The strings of one `fgets` after the other until it returns `NULL`. -/
def fgetsAll (size fd : Int) : Nat → Libc κ → Option (List (List UInt8) × Libc κ)
  | 0, _ => none
  | fuel + 1, s =>
    match fgets sys s size fd with
    | (none, s) => some ([], s)
    | (some stored, s) => do
      let (strings, s) ← fgetsAll size fd fuel s
      some (cString stored :: strings, s)

/-! ## What a descriptor still has to give -/

/-- Reads of `count` bytes give the chunks, and then a result of 0. -/
def Delivers (fd : Int) (count : Nat) : κ → List (List UInt8) → Prop
  | k, [] => (sys.sysRead k fd count).1.1 = 0
  | k, chunk :: rest =>
    chunk ≠ [] ∧ chunk.length ≤ count ∧ (sys.sysRead k fd count).1 = ((chunk.length : Int), chunk) ∧
      Delivers fd count (sys.sysRead k fd count).2 rest

/-- Reads of one byte give the bytes, and then a result of 0 however often they
are repeated. -/
def DeliversBytes (fd : Int) : κ → List UInt8 → Prop
  | k, [] => ∀ n, (sys.sysRead (Nat.iterate (fun k => (sys.sysRead k fd 1).2) n k) fd 1).1.1 = 0
  | k, byte :: rest =>
    (sys.sysRead k fd 1).1 = (1, [byte]) ∧ DeliversBytes fd (sys.sysRead k fd 1).2 rest

/-- The input that a descriptor with nothing waiting to be written has still to
give: what stands in its buffer and what `sys_read` delivers. A descriptor
without a buffer is read byte by byte. -/
def Input (s : Libc κ) (fd : Int) (input : List UInt8) : Prop :=
  if Buffered fd then
    (s.fdBuffers fd).writeBuffer = [] ∧ (s.fdBuffers fd).eof = false ∧
      ∃ chunks, (s.fdBuffers fd).unread ++ chunks.flatten = input ∧ Delivers sys fd stdioBufSize s.kernel chunks
  else DeliversBytes sys fd s.kernel input

/-- `Input`, or the end of it found already. -/
def Left (s : Libc κ) (fd : Int) (input : List UInt8) : Prop :=
  Input sys s fd input ∨
    Buffered fd ∧ (s.fdBuffers fd).writeBuffer = [] ∧ (s.fdBuffers fd).eof = true ∧
    (s.fdBuffers fd).unread = input

end

section
variable {sys : Kernel κ} {s : Libc κ} {fd : Int} {input rest : List UInt8} {byte : UInt8}

theorem fgetc_waiting (sys : Kernel κ) (buffered : Buffered fd) (nothing : (s.fdBuffers fd).writeBuffer = [])
    (unread : (s.fdBuffers fd).unread = byte :: rest) :
    fgetc sys s fd = ((byte.toNat : Int),
        s.setBuffer fd { s.fdBuffers fd with readHead := (s.fdBuffers fd).readHead + 1 }) ∧
      (s.fdBuffers fd).readBuffer.drop ((s.fdBuffers fd).readHead + 1) = rest := by
  have small : (s.fdBuffers fd).readHead < (s.fdBuffers fd).readBuffer.length := by
    by_contra beyond
    rw [FileBuffer.unread, List.drop_eq_nil_of_le (Nat.le_of_not_lt beyond)] at unread
    cases unread
  rw [FileBuffer.unread, List.drop_eq_getElem_cons small] at unread
  injection unread with first behind
  have held := List.getElem?_eq_getElem small
  rw [first] at held
  refine ⟨?_, behind⟩
  rw [fgetc, if_neg (not_not.mpr buffered)]
  simp only [if_false, nothing, List.length_nil, Nat.lt_irrefl, held]

theorem fgetc_drained (buffered : Buffered fd) (nothing : (s.fdBuffers fd).writeBuffer = [])
    (unread : (s.fdBuffers fd).unread = []) :
    fgetc sys s fd =
      if (s.fdBuffers fd).eof then (-1, s)
      else
        let ((bytes, stored), kernel) := sys.sysRead s.kernel fd stdioBufSize
        let s := { s with kernel := kernel }
        if bytes ≤ 0 then (-1, s.setBuffer fd { s.fdBuffers fd with eof := true })
        else (((stored.headD 0).toNat : Int),
          s.setBuffer fd { s.fdBuffers fd with readBuffer := stored.take bytes.toNat, readHead := 1 }) := by
  have none : (s.fdBuffers fd).readBuffer[(s.fdBuffers fd).readHead]? = none :=
    List.getElem?_eq_none (List.drop_eq_nil_iff.mp unread)
  rw [fgetc, if_neg (not_not.mpr buffered)]
  simp only [if_false, nothing, List.length_nil, Nat.lt_irrefl, none]

/-- The next byte of the input, and the rest of it left. -/
theorem fgetc_next (left : Left sys s fd (byte :: rest)) :
    (fgetc sys s fd).1 = byte.toNat ∧ Left sys (fgetc sys s fd).2 fd rest := by
  by_cases buffered : Buffered fd
  · rcases left with input | ⟨-, nothing, ended, unread⟩
    · rw [Input, if_pos buffered] at input
      obtain ⟨nothing, more, chunks, whole, delivers⟩ := input
      cases unread : (s.fdBuffers fd).unread with
      | cons first behind =>
        rw [unread, List.cons_append] at whole
        injection whole with same whole
        obtain ⟨got, kept⟩ := fgetc_waiting sys buffered nothing unread
        rw [got, same]
        refine ⟨rfl, .inl ?_⟩
        rw [Input, if_pos buffered]
        refine ⟨?_, ?_, chunks, ?_, delivers⟩
        all_goals simp [Libc.setBuffer, FileBuffer.unread, nothing, more, kept, whole]
      | nil =>
        rw [unread, List.nil_append] at whole
        cases chunks with
        | nil => cases whole
        | cons chunk chunks =>
          obtain ⟨some, short, got, delivers⟩ := delivers
          obtain ⟨first, behind, rfl⟩ := List.exists_cons_of_ne_nil some
          rw [List.flatten_cons, List.cons_append] at whole
          injection whole with same whole
          rw [fgetc_drained buffered nothing unread]
          generalize sys.sysRead s.kernel fd stdioBufSize = answer at got delivers
          obtain ⟨⟨bytes, stored⟩, kernel⟩ := answer
          injection got with bytes stored
          subst bytes stored same
          have positive : ¬ ((first :: behind).length : Int) ≤ 0 := by simp
          simp only [more, Bool.false_eq_true, if_false, positive]
          refine ⟨rfl, .inl ?_⟩
          rw [Input, if_pos buffered]
          refine ⟨?_, ?_, chunks, ?_, delivers⟩
          all_goals simp [Libc.setBuffer, FileBuffer.unread, nothing, whole]
    · obtain ⟨got, kept⟩ := fgetc_waiting sys buffered nothing unread
      rw [got]
      refine ⟨rfl, .inr ⟨buffered, ?_, ?_, ?_⟩⟩
      all_goals simp [Libc.setBuffer, FileBuffer.unread, nothing, ended, kept]
  · have delivers := left.resolve_right fun ended => buffered ended.1
    rw [Input, if_neg buffered] at delivers
    rw [fgetc, if_pos buffered]
    have single : (sys.sysRead s.kernel fd 1).1 = (1, [byte]) := delivers.1
    simp only [single]
    refine ⟨rfl, .inl ?_⟩
    rw [Input, if_neg buffered]
    exact delivers.2

/-- Behind the input there is `EOF`, now and later. -/
theorem fgetc_end (left : Left sys s fd []) :
    (fgetc sys s fd).1 = -1 ∧ Left sys (fgetc sys s fd).2 fd [] := by
  by_cases buffered : Buffered fd
  · rcases left with input | ⟨-, nothing, ended, unread⟩
    · rw [Input, if_pos buffered] at input
      obtain ⟨nothing, more, chunks, whole, delivers⟩ := input
      obtain ⟨unread, none⟩ := List.append_eq_nil_iff.mp whole
      have last : chunks = [] := by
        cases chunks with
        | nil => rfl
        | cons chunk chunks => exact absurd (List.append_eq_nil_iff.mp none).1 delivers.1
      subst last
      have zero : (sys.sysRead s.kernel fd stdioBufSize).1.1 = 0 := delivers
      rw [fgetc_drained buffered nothing unread]
      simp only [more, Bool.false_eq_true, if_false, zero, Int.le_refl, if_true]
      refine ⟨trivial, .inr ⟨buffered, ?_, ?_, ?_⟩⟩
      · simp [Libc.setBuffer, nothing]
      · simp [Libc.setBuffer]
      · simpa [Libc.setBuffer, FileBuffer.unread] using unread
    · rw [fgetc_drained buffered nothing unread, if_pos ended]
      exact ⟨rfl, .inr ⟨buffered, nothing, ended, unread⟩⟩
  · have delivers := left.resolve_right fun ended => buffered ended.1
    rw [Input, if_neg buffered] at delivers
    have zero : (sys.sysRead s.kernel fd 1).1.1 = 0 := delivers 0
    rw [fgetc, if_pos buffered]
    simp only [zero, Int.lt_irrefl, if_false]
    refine ⟨trivial, .inl ?_⟩
    rw [Input, if_neg buffered]
    exact fun n => delivers (n + 1)

/-- The loop stores the next piece of the input. -/
theorem fgetsLoop_piece (n : Nat) (stored : List UInt8) (left : Left sys s fd input) :
    (fgetsLoop sys fd n stored s).1 =
        (if input = [] ∧ stored = [] ∧ 0 < n then none else some (stored ++ piece newline n input)) ∧
      Left sys (fgetsLoop sys fd n stored s).2 fd (input.drop (piece newline n input).length) := by
  induction n generalizing stored s input with
  | zero => simpa [fgetsLoop, piece] using left
  | succ n ih =>
    rw [fgetsLoop]
    cases input with
    | nil =>
      obtain ⟨ended, left⟩ := fgetc_end left
      simp only [ended, if_true]
      by_cases none : stored = []
      · simpa [none, piece] using left
      · simpa [none, piece] using left
    | cons byte rest =>
      obtain ⟨got, left⟩ := fgetc_next left
      have char : UInt8.ofInt byte.toNat = byte := by
        refine UInt8.toNat_inj.mp ?_
        have byteSize := byte.toNat_lt
        simp [UInt8.ofInt]
        omega
      have inside : ¬ (byte.toNat : Int) = -1 := by omega
      simp only [got, inside, if_false, char, piece]
      by_cases stop : byte = newline
      · simpa [stop] using left
      · have other : ¬ (byte.toNat : Int) = newline.toNat := fun same =>
          stop (UInt8.toNat_inj.mp (Int.natCast_inj.mp same))
        obtain ⟨value, left⟩ := ih (stored ++ [byte]) left
        simp only [other, stop, if_false]
        exact ⟨by simpa using value, left⟩

/-- `fgets` gives the next piece, or `NULL` behind the last. -/
theorem fgets_piece (size : Int) (wide : 2 ≤ size) (left : Left sys s fd input) :
    (fgets sys s size fd).1 = (if input = [] then none else some (piece newline (size - 1).toNat input)) ∧
      Left sys (fgets sys s size fd).2 fd (input.drop (piece newline (size - 1).toNat input).length) := by
  obtain ⟨value, left⟩ := fgetsLoop_piece (size - 1).toNat [] left
  have room : 0 < (size - 1).toNat := by omega
  rw [fgets, if_neg (by omega), value]
  exact ⟨by simp only [room, and_true, List.nil_append], left⟩

theorem cString_of_noZero (noZero : ∀ byte ∈ input, byte ≠ 0) : cString input = input :=
  List.takeWhile_eq_self_iff.mpr fun byte member => decide_eq_true (noZero byte member)

/-- All the strings are the pieces of the input. -/
theorem fgetsAll_pieces (size : Int) (wide : 2 ≤ size) (fuel : Nat) (enough : input.length < fuel)
    (noZero : ∀ byte ∈ input, byte ≠ 0) (left : Left sys s fd input) :
    ∃ s', fgetsAll sys size fd fuel s = some (pieces newline (size - 1).toNat input, s') ∧ Left sys s' fd [] := by
  induction fuel generalizing s input with
  | zero => cases enough
  | succ fuel ih =>
    have room : 0 < (size - 1).toNat := by omega
    obtain ⟨value, rest⟩ := fgets_piece size wide left
    generalize answer : fgets sys s size fd = result at value rest
    obtain ⟨string, next⟩ := result
    rw [fgetsAll, answer]
    by_cases empty : input = []
    · rw [if_pos empty] at value
      subst value empty
      exact ⟨next, by simp, by simpa using rest⟩
    · rw [if_neg empty] at value
      subst value
      have shorter := drop_piece_lt newline room empty
      obtain ⟨last, strings, ended⟩ := ih (by omega)
        (fun byte member => noZero byte (List.mem_of_mem_drop member)) rest
      have whole : cString (piece newline (size - 1).toNat input) = piece newline (size - 1).toNat input :=
        cString_of_noZero fun byte member => noZero byte (piece_subset _ _ _ member)
      refine ⟨last, ?_, ended⟩
      dsimp only
      rw [strings, whole, pieces_cons newline room empty]
      rfl

/-- Repeated `fgets` until `NULL` give the input whole, in strings that end in a
newline, fill the buffer or are the last. -/
theorem fgets_loses_nothing (sys : Kernel κ) (s : Libc κ) (size fd : Int) (input : List UInt8) (wide : 2 ≤ size)
    (given : Input sys s fd input) (noZero : ∀ byte ∈ input, byte ≠ 0) :
    ∃ strings, (∀ fuel, input.length < fuel → ∃ s', fgetsAll sys size fd fuel s = some (strings, s')) ∧
      strings.flatten = input ∧
      ∀ i (small : i < strings.length), strings[i].getLast? = some newline ∨
        (strings[i].length : Int) = size - 1 ∨ i + 1 = strings.length := by
  have room : 0 < (size - 1).toNat := by omega
  refine ⟨pieces newline (size - 1).toNat input, fun fuel enough => ?_, pieces_flatten room input,
    fun i small => ?_⟩
  · obtain ⟨s', strings, -⟩ := fgetsAll_pieces size wide fuel enough noZero (.inl given)
    exact ⟨s', strings⟩
  · rcases pieces_end room input i small with stopped | full | last
    · exact .inl stopped
    · exact .inr (.inl (by omega))
    · exact .inr (.inr last)

end

/-- A kernel that has the answers to the reads in store. -/
def storedReads : Kernel (List (List UInt8)) where
  sysRead k _ _ := ((((k.headD []).length : Int), k.headD []), k.tail)
  sysWrite k _ bytes := (bytes.length, k)
  sysLseek k _ _ _ := (-1, k)
  sysOpen k _ := (-1, k)
  sysClose k _ := (0, k)
  sysDup k _ := (-1, k)
  sysDup2 k _ _ := (-1, k)
  sysExit k _ := k

/-- Two lines and the start of a third one, which the reads cut elsewhere. -/
def twoReads : Libc (List (List UInt8)) := Libc.start [[0x61, 0x62], [0x0A, 0x0A, 0x63]]

theorem fgets_loses_nothing_twoReads : ∃ strings,
    (∀ fuel, 5 < fuel → ∃ s', fgetsAll storedReads 3 0 fuel twoReads = some (strings, s')) ∧
      strings.flatten = [0x61, 0x62, 0x0A, 0x0A, 0x63] ∧
      ∀ i (small : i < strings.length), strings[i].getLast? = some newline ∨
        (strings[i].length : Int) = 3 - 1 ∨ i + 1 = strings.length := by
  have given : Input storedReads twoReads 0 [0x61, 0x62, 0x0A, 0x0A, 0x63] := by
    rw [Input, if_pos (by decide)]
    exact ⟨rfl, rfl, [[0x61, 0x62], [0x0A, 0x0A, 0x63]], rfl, by decide, by decide, rfl, by decide, by decide, rfl,
      rfl⟩
  exact fgets_loses_nothing storedReads twoReads 3 0 [0x61, 0x62, 0x0A, 0x0A, 0x63] (by decide) given (by simp)

end MeowMeowOS.LineReading

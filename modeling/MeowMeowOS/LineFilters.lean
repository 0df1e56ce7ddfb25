import MeowMeowOS.FormatBounds
import MeowMeowOS.TailLines
import Mathlib.Data.List.Infix

/-! `grep`, `head` and `cat` between any input and standard output. What they write depends
on the text that comes in alone, not on how the reads cut it. -/
namespace MeowMeowOS.LineFilters
open ByteMemory StdioBuffers ExitBuffers NumberText FormatEngines FormatBounds CutPieces LineReading TailLines

/-! ## Search -/

/-- `while (*a && *b && *a == *b)`: what is left of the needle. -/
def unmatched : List UInt8 → List UInt8 → List UInt8
  | a :: haystack, b :: needle => if a = b then unmatched haystack needle else b :: needle
  | _, needle => needle

def searchFrom (needle : List UInt8) : List UInt8 → Option (List UInt8)
  | [] => none
  | a :: rest => if unmatched (a :: rest) needle = [] then some (a :: rest) else searchFrom needle rest

/-- The text from the first occurrence on, or `NULL`. -/
def strstr (haystack needle : List UInt8) : Option (List UInt8) :=
  if needle = [] then some haystack else searchFrom needle haystack

theorem unmatched_eq_nil (haystack needle : List UInt8) : unmatched haystack needle = [] ↔ needle <+: haystack := by
  fun_induction unmatched haystack needle with
  | case1 haystack b needle ih => rw [ih, List.cons_prefix_cons, and_iff_right rfl]
  | case2 a haystack b needle differ =>
    rw [List.cons_prefix_cons]
    exact iff_of_false nofun fun both => differ both.1.symm
  | case3 haystack needle last =>
    constructor
    · rintro rfl
      exact List.nil_prefix
    · intro front
      cases needle with
      | nil => rfl
      | cons b needle =>
        cases haystack with
        | nil => cases List.prefix_nil.mp front
        | cons a haystack => exact absurd rfl (last a haystack b needle rfl)

/-- Some occurrence is found if there is one. -/
theorem strstr_isSome (haystack needle : List UInt8) : (strstr haystack needle).isSome ↔ needle <:+: haystack := by
  unfold strstr
  split
  · rename_i empty
    subst empty
    exact iff_of_true rfl List.nil_infix
  · rename_i some
    induction haystack with
    | nil =>
      refine iff_of_false nofun fun inside => some (List.infix_nil.mp inside)
    | cons a rest ih =>
      rw [searchFrom, List.infix_cons_iff, ← unmatched_eq_nil, ← ih]
      by_cases here : unmatched (a :: rest) needle = []
      · rw [if_pos here]
        exact iff_of_true rfl (Or.inl here)
      · rw [if_neg here]
        exact (or_iff_right here).symm

/-! ## The programs -/

section
variable (sys : Kernel κ)

/-- `while (fgets(...) != NULL)`: the count of matching lines. -/
def grepLoop (pattern : List UInt8) (fd : Int) : Nat → Int → Libc κ → Option (Int × Libc κ)
  | 0, _, _ => none
  | fuel + 1, matchedLines, s =>
    match fgets sys s lineBufferSize fd with
    | (none, s) => some (matchedLines, s)
    | (some line, s) =>
      if (strstr (cString line) pattern).isSome then do
        let (_, s) ← fputs sys s (cString line) 1
        grepLoop pattern fd fuel (toInt (matchedLines + 1)) s
      else grepLoop pattern fd fuel matchedLines s

/-- `while (count < lines_to_print && fgets(...) != NULL)` -/
def headLoop (linesToPrint fd : Int) : Nat → Int → Libc κ → Option (Libc κ)
  | 0, _, _ => none
  | fuel + 1, count, s =>
    if count < linesToPrint then
      match fgets sys s lineBufferSize fd with
      | (none, s) => some s
      | (some line, s) => do
        let (_, s) ← fputs sys s (cString line) 1
        headLoop linesToPrint fd fuel (count + 1) s
    else some s

/-- The file is closed, and standard input is not. -/
def closeInput (s : Libc κ) (fd : Int) : Libc κ := if 0 < fd then (close sys s fd).2 else s

/-- `err` is the text of the last error. -/
def perror (s : Libc κ) (text err : List UInt8) : Option (Libc κ) := do
  let (_, s) ← fputs sys s text 2
  let (_, s) ← fputs sys s (ascii ": ") 2
  let (_, s) ← fputs sys s err 2
  let (_, s) ← fputs sys s (ascii "\n") 2
  some s

/-- The exit status and the process. `allocated` says whether `malloc` has found the line buffer. -/
def grepMain (argv : List String) (err : List UInt8) (allocated : Bool) (fuel : Nat) (s : Libc κ) :
    Option (Int × Libc κ) :=
  match argv[1]? with
  | none => do
    let s ← printf sys s (ascii "Usage: grep <pattern> [file]\n") []
    some (1, s)
  | some pattern => do
    let (fd, s) := openInput sys s argv[2]?
    if fd < 0 then
      let s ← perror sys s (ascii "grep: open failed") err
      some (1, s)
    else if allocated = false then
      let s ← printf sys s (ascii "grep: out of memory allocating line buffer\n") []
      some (1, closeInput sys s fd)
    else
      let (matchedLines, s) ← grepLoop sys (ascii pattern) fd fuel 0 s
      some (if 0 < matchedLines then 0 else 1, closeInput sys s fd)

/-- The lines to print and the file, with at least one argument. -/
def headArguments (argv : List String) : Int × Option String :=
  let chosen :=
    if 3 ≤ argv.length ∧ argv[1]? = some "-n" then ((atoi (ascii (argv.getD 2 ""))).toInt, argv[3]?)
    else if 3 ≤ argv.length ∧ argv[1]? ≠ some "-n" then ((atoi (ascii (argv.getD 2 ""))).toInt, argv[1]?)
    else (defaultLines, argv[1]?)
  (if chosen.1 < 1 then defaultLines else chosen.1, chosen.2)

def headMain (argv : List String) (allocated : Bool) (fuel : Nat) (s : Libc κ) : Option (Int × Libc κ) := do
  if argv.length < 2 then
    let s ← printf sys s (ascii "Usage: head [-n lines] <file>\n") []
    some (1, s)
  else
    let (linesToPrint, filename) := headArguments argv
    let (fd, s) := openInput sys s filename
    if fd < 0 then
      let s ← printf sys s (ascii "head: cannot open '%s'\n") [⟨0, filename.map ascii⟩]
      some (1, s)
    else if allocated = false then
      let s ← printf sys s (ascii "head: out of memory\n") []
      some (1, closeInput sys s fd)
    else
      let s ← headLoop sys linesToPrint fd fuel 0 s
      some (0, closeInput sys s fd)

/-- `while (written < bytes_read)`, for the bytes that are left. -/
def writeOut : Nat → Libc κ → List UInt8 → Option (Libc κ)
  | 0, _, _ => none
  | fuel + 1, s, rest =>
    if rest = [] then some s
    else if short : rest.length < 2 ^ 32 then
      match write sys s 1 ⟨rest, short⟩ with
      | none => none
      | some (w, s) => if w ≤ 0 then some s else writeOut fuel s (rest.drop w.toNat)
    else none

/-- `while ((bytes_read = read(…)) > 0)` -/
def streamLoop (fd : Int) : Nat → Libc κ → Option (Libc κ)
  | 0, _ => none
  | fuel + 1, s =>
    let ((bytesRead, buffer), s) := read sys s fd 4096
    if 0 < bytesRead then do
      let s ← writeOut sys (bytesRead.toNat + 1) s (buffer.take bytesRead.toNat)
      streamLoop fd fuel s
    else some s

def streamFd (fd : Int) (allocated : Bool) (fuel : Nat) (s : Libc κ) : Option (Libc κ) :=
  if allocated = false then printf sys s (ascii "cat: out of memory allocating streaming buffer\n") []
  else streamLoop sys fd fuel s

end

/-! ## Messages -/

/-- A text that `printf` takes for its format, without conversions and within its buffer. -/
def Message (text : List UInt8) : Prop :=
  (∀ c ∈ text, c ≠ 0 ∧ c ≠ percent) ∧ text ≠ [] ∧ text.length < 1024

instance (text : List UInt8) : Decidable (Message text) := inferInstanceAs (Decidable (_ ∧ _))

theorem stores_range {text : List UInt8} {after : Mem} (stored : Stores text after) :
    (List.range text.length).map after = text := by
  refine List.ext_getElem (by simp) fun i _ inside => ?_
  rw [List.getElem_map, List.getElem_range]
  exact stored.1 i _ (List.getElem?_eq_getElem inside)

/-! ## Writes beside the input -/

/-- What is written to standard output does not change what the descriptor has to give. -/
def Apart (sys : Kernel κ) (fd : Int) : Prop := ∀ k bytes count,
  sys.sysRead (sys.sysWrite k 1 bytes).2 fd count =
    ((sys.sysRead k fd count).1, (sys.sysWrite (sys.sysRead k fd count).2 1 bytes).2)

section
variable {sys : Kernel κ} {fd : Int} {count : Nat} {input : List UInt8} {log : Log}

theorem apart_recording (apart : Apart sys fd) : Apart (recording sys) fd := by
  intro k bytes count
  have read := apart k.1 bytes count
  simp only [recording, read]

theorem delivers_write (apart : Apart sys fd) (bytes : List UInt8) {k : κ} {chunks : List (List UInt8)}
    (delivers : Delivers sys fd count k chunks) : Delivers sys fd count (sys.sysWrite k 1 bytes).2 chunks := by
  induction chunks generalizing k with
  | nil =>
    unfold Delivers at delivers ⊢
    rw [apart]
    exact delivers
  | cons chunk rest ih =>
    obtain ⟨some, short, got, more⟩ := delivers
    refine ⟨some, short, ?_, ?_⟩
    · rw [apart]
      exact got
    · rw [apart]
      exact ih more

theorem iterate_write (apart : Apart sys fd) (bytes : List UInt8) (n : Nat) (k : κ) :
    Nat.iterate (fun k => (sys.sysRead k fd 1).2) n (sys.sysWrite k 1 bytes).2 =
      (sys.sysWrite (Nat.iterate (fun k => (sys.sysRead k fd 1).2) n k) 1 bytes).2 := by
  induction n generalizing k with
  | zero => rfl
  | succ n ih => rw [Function.iterate_succ_apply, Function.iterate_succ_apply, apart, ih]

theorem deliversBytes_write (apart : Apart sys fd) (bytes : List UInt8) {k : κ}
    (delivers : DeliversBytes sys fd k input) :
    DeliversBytes sys fd (sys.sysWrite k 1 bytes).2 input := by
  induction input generalizing k with
  | nil =>
    intro n
    rw [iterate_write apart, apart]
    exact delivers n
  | cons byte rest ih =>
    obtain ⟨got, more⟩ := delivers
    unfold DeliversBytes
    rw [apart]
    exact ⟨got, ih more⟩

theorem left_write (apart : Apart sys fd) (bytes : List UInt8) {s : Libc κ} (left : Left sys s fd input) :
    Left sys { s with kernel := (sys.sysWrite s.kernel 1 bytes).2 } fd input := by
  rcases left with given | ended
  · refine Or.inl ?_
    unfold Input at given ⊢
    split
    · rename_i buffered
      rw [if_pos buffered] at given
      obtain ⟨nothing, more, chunks, whole, delivers⟩ := given
      exact ⟨nothing, more, chunks, whole, delivers_write apart bytes delivers⟩
    · rename_i direct
      rw [if_neg direct] at given
      exact deliversBytes_write apart bytes given
  · exact Or.inr ended

/-- A line on standard output, between two reads of the input. -/
theorem fputs_between (apart : Apart sys fd) {s : Libc (κ × Log)} {text : List UInt8} (short : text.length < 2 ^ 32)
    (left : Left (recording sys) s fd input) (quiet : Quiet s fd log) :
    ∃ ret t, fputs (recording sys) s text 1 = some (ret, t) ∧ Left (recording sys) t fd input ∧
      Quiet t fd (log.add 1 text) := by
  obtain ⟨nothing, same⟩ := quiet
  rw [fputs, dif_pos short]
  unfold write
  by_cases none : text = []
  · rw [if_pos (by simp [none]), none]
    refine ⟨0, s, rfl, left, nothing, ?_⟩
    rw [same, Log.add, List.append_nil, Function.update_eq_self]
  · rw [if_neg (by simpa using none), if_pos (.inl (by decide))]
    refine ⟨_, _, rfl, left_write (apart_recording apart) text left, nothing, ?_⟩
    rw [← same]
    rfl

/-- A message without conversions is written as it stands. -/
theorem printf_plain {text : List UInt8} (message : Message text) (s : Libc κ) :
    printf sys s text [] = (fputs sys s text 1).map Prod.snd := by
  obtain ⟨plain, some', fits⟩ := message
  obtain ⟨after, ran, stored⟩ := vsnprintf_plain plain fits [] fun _ => 0
  have positive := List.length_pos_of_ne_nil some'
  have value : (BitVec.ofNat 32 text.length).toNat = text.length := by
    rw [BitVec.toNat_ofNat, Nat.mod_eq_of_lt (by omega)]
  unfold printf
  rw [ran, Option.bind_eq_bind, Option.bind_some]
  dsimp only
  rw [toInt_len (by omega), if_pos (by omega), value, stores_range stored]
  cases fputs sys s text 1 with
  | none => rfl
  | some wrote => rfl

/-- The message of a program that gets no memory. -/
theorem message_written (apart : Apart sys fd) {s : Libc (κ × Log)} {text : List UInt8} (message : Message text)
    (left : Left (recording sys) s fd input) (quiet : Quiet s fd log) :
    ∃ t, printf (recording sys) s text [] = some t ∧ Quiet t fd (log.add 1 text) := by
  have short : text.length < 2 ^ 32 := message.2.2.trans (by decide)
  obtain ⟨ret, t, wrote, -, still⟩ := fputs_between apart short left quiet
  exact ⟨t, by rw [printf_plain message, wrote]; rfl, still⟩

/-! ## One line after the other -/

/-- What `fgets` gives of an input, and what it leaves. -/
theorem next_line {s : Libc (κ × Log)} (left : Left (recording sys) s fd input) (quiet : Quiet s fd log)
    (noZero : ∀ byte ∈ input, byte ≠ 0) :
    (input = [] ∧ ∃ t, fgets (recording sys) s lineBufferSize fd = (none, t) ∧ Quiet t fd log) ∨
      ∃ line rest t, fgets (recording sys) s lineBufferSize fd = (some line, t) ∧ cString line = line ∧
        pieces newline 1023 input = line :: pieces newline 1023 rest ∧ rest.length < input.length ∧
        (∀ byte ∈ rest, byte ≠ 0) ∧ line.length < 2 ^ 32 ∧ Left
        (recording sys) t fd rest ∧ Quiet t fd log := by
  obtain ⟨value, rest⟩ := fgets_piece lineBufferSize (by decide) left
  have still := fgets_quiet sys quiet lineBufferSize
  generalize fgets (recording sys) s lineBufferSize fd = result at value rest still
  obtain ⟨string, t⟩ := result
  by_cases empty : input = []
  · rw [if_pos empty] at value
    subst value
    exact Or.inl ⟨empty, t, rfl, still⟩
  · rw [if_neg empty] at value
    subst value
    have room : 0 < (lineBufferSize - 1).toNat := by decide
    have width := piece_length newline (lineBufferSize - 1).toNat input
    have wide : (lineBufferSize - 1).toNat = 1023 := rfl
    refine Or.inr ⟨_, _, t, rfl, cString_of_noZero fun byte member => noZero byte (piece_subset _ _ _ member),
      pieces_cons newline room empty, drop_piece_lt newline room empty,
      fun byte member => noZero byte (List.mem_of_mem_drop member), by omega, rest, still⟩

/-- The lines that `grep` prints. -/
def matching (pattern : List UInt8) (lines : List (List UInt8)) : List (List UInt8) :=
  lines.filter fun line => (strstr line pattern).isSome

theorem matching_pos {pattern line : List UInt8} (found : (strstr line pattern).isSome) (lines : List (List UInt8)) :
    matching pattern (line :: lines) = line :: matching pattern lines := List.filter_cons_of_pos found

theorem matching_neg {pattern line : List UInt8} (missed : ¬ (strstr line pattern).isSome)
    (lines : List (List UInt8)) :
    matching pattern (line :: lines) = matching pattern lines := List.filter_cons_of_neg missed

theorem grepLoop_prints (apart : Apart sys fd) (pattern : List UInt8) (fuel count : Nat) {s : Libc (κ × Log)}
    (left : Left (recording sys) s fd input) (quiet : Quiet s fd log) (noZero : ∀ byte ∈ input, byte ≠ 0)
    (enough : input.length < fuel) (few : count + input.length < 2 ^ 31) :
    ∃ t, grepLoop (recording sys) pattern fd fuel count s =
        some (((count + (matching pattern (pieces newline 1023 input)).length : Nat) : Int), t) ∧
      Quiet t fd (log.add 1 (matching pattern (pieces newline 1023 input)).flatten) := by
  induction fuel generalizing count s input log with
  | zero => cases enough
  | succ fuel ih =>
    rw [grepLoop]
    rcases next_line left quiet noZero with ⟨rfl, t, read, still⟩ | ⟨line, rest, t, read, whole, cut, shorter,
      noZero', short, left', still⟩
    · rw [read, pieces_nil]
      refine ⟨t, rfl, ?_⟩
      rw [matching, List.filter_nil, List.flatten_nil, Log.add, List.append_nil, Function.update_eq_self]
      exact still
    · rw [read, cut]
      dsimp only
      rw [whole]
      by_cases found : (strstr line pattern).isSome
      · obtain ⟨ret, u, wrote, left'', still'⟩ := fputs_between apart short left' still
        have fewer : count + 1 + rest.length < 2 ^ 31 := by omega
        obtain ⟨last, ran, silent⟩ := ih (count + 1) left'' still' noZero' (by omega) fewer
        have within : count + 1 < 2 ^ 31 := by omega
        have next : toInt ((count : Int) + 1) = ((count + 1 : Nat) : Int) := toInt_of_lt within
        refine ⟨last, ?_, ?_⟩
        · rw [if_pos found, wrote, Option.bind_eq_bind, Option.bind_some, next, ran, matching_pos found,
            List.length_cons,
            Nat.add_assoc, Nat.add_comm 1]
        · rw [matching_pos found, List.flatten_cons, ← add_add]
          exact silent
      · obtain ⟨last, ran, silent⟩ := ih count left' still noZero' (by omega) (by omega)
        refine ⟨last, ?_, ?_⟩
        · rw [if_neg found, ran, matching_neg found]
        · rw [matching_neg found]
          exact silent

theorem headLoop_prints (apart : Apart sys fd) (linesToPrint : Int) (fuel : Nat) (count : Int) {s : Libc (κ × Log)}
    (left : Left (recording sys) s fd input) (quiet : Quiet s fd log) (noZero : ∀ byte ∈ input, byte ≠ 0)
    (enough : input.length < fuel) :
    ∃ t, headLoop (recording sys) linesToPrint fd fuel count s = some t ∧
      Quiet t fd (log.add 1 ((pieces newline 1023 input).take (linesToPrint - count).toNat).flatten) := by
  induction fuel generalizing count s input log with
  | zero => cases enough
  | succ fuel ih =>
    have nothing : log.add 1 [] = log := by rw [Log.add, List.append_nil, Function.update_eq_self]
    rw [headLoop]
    by_cases more : count < linesToPrint
    · rw [if_pos more]
      rcases next_line left quiet noZero with ⟨rfl, t, read, still⟩ | ⟨line, rest, t, read, whole, cut, shorter,
        noZero', short, left', still⟩
      · rw [read, pieces_nil, List.take_nil, List.flatten_nil, nothing]
        exact ⟨t, rfl, still⟩
      · rw [read, cut]
        dsimp only
        rw [whole]
        obtain ⟨ret, u, wrote, left'', still'⟩ := fputs_between apart short left' still
        obtain ⟨last, ran, silent⟩ := ih (count + 1) left'' still' noZero' (by omega)
        have one : (linesToPrint - count).toNat = (linesToPrint - (count + 1)).toNat + 1 := by omega
        refine ⟨last, ?_, ?_⟩
        · rw [wrote, Option.bind_eq_bind, Option.bind_some, ran]
        · rw [one, List.take_succ_cons, List.flatten_cons, ← add_add]
          exact silent
    · rw [if_neg more, show (linesToPrint - count).toNat = 0 by omega, List.take_zero, List.flatten_nil, nothing]
      exact ⟨s, rfl, quiet⟩

theorem closeInput_log {s : Libc (κ × Log)} (quiet : Quiet s fd log) :
    (closeInput (recording sys) s fd).kernel.2 = log := by
  unfold closeInput
  split
  · exact close_log quiet
  · exact quiet.2

/-- `grep` writes the pieces of its input that contain the pattern, in order, and says by its
exit status whether there are any. Without memory it writes a message. -/
theorem grep_prints {argv : List String} {pattern : String} {opened s : Libc (κ × Log)} (err : List UInt8)
    (given : argv[1]? = some pattern) (file : openInput (recording sys) s argv[2]? = (fd, opened)) (found : 0 ≤ fd)
    (apart : Apart sys fd) (content : Input (recording sys) opened fd input) (noZero : ∀ byte ∈ input, byte ≠ 0)
    (short : input.length < 2 ^ 31) (allocated : Bool) (fuel : Nat) (enough : input.length < fuel) :
    let printed := (pieces newline 1023 input).filter fun line => ascii pattern <:+: line
    ∃ done, grepMain (recording sys) argv err allocated fuel s =
        some (if allocated = true ∧ printed ≠ [] then 0 else 1, done) ∧
      done.kernel.2 = opened.kernel.2.add 1
        (if allocated then printed.flatten else ascii "grep: out of memory allocating line buffer\n") := by
  intro printed
  unfold grepMain
  rw [given]
  dsimp only
  rw [file]
  dsimp only
  rw [if_neg (by omega)]
  cases allocated with
  | false =>
    have message : Message (ascii "grep: out of memory allocating line buffer\n") := by decide +kernel
    obtain ⟨t, wrote, still⟩ := message_written apart message (.inl content) (quiet_of_input content)
    refine ⟨closeInput (recording sys) t fd, ?_, closeInput_log still⟩
    rw [if_pos rfl, if_neg fun both => Bool.false_ne_true both.1, wrote]
    rfl
  | true =>
    have same : printed = matching (ascii pattern) (pieces newline 1023 input) := by
      refine List.filter_congr fun line _ => ?_
      rw [Bool.eq_iff_iff, decide_eq_true_iff, strstr_isSome]
    have start : 0 + input.length < 2 ^ 31 := by omega
    obtain ⟨t, ran, still⟩ :=
      grepLoop_prints apart (ascii pattern) fuel 0 (.inl content) (quiet_of_input content) noZero
      enough start
    refine ⟨closeInput (recording sys) t fd, ?_, ?_⟩
    · rw [Int.natCast_zero] at ran
      rw [if_neg nofun, ran, same]
      simp only [Option.bind_eq_bind, Option.bind_some, Nat.zero_add]
      congr 2
      cases matching (ascii pattern) (pieces newline 1023 input) with
      | nil => rfl
      | cons line lines => rw [if_pos (by rw [List.length_cons]; omega), if_pos ⟨trivial, nofun⟩]
    · rw [closeInput_log still, same]
      rfl

/-- The kernel beside the bytes that it has taken in `sys_write`. -/
def accepting (sys : Kernel κ) : Kernel (κ × Log) :=
  { recording sys with
    sysWrite := fun k fd bytes => ((sys.sysWrite k.1 fd bytes).1, (sys.sysWrite k.1 fd bytes).2,
      k.2.add fd (bytes.take (sys.sysWrite k.1 fd bytes).1.toNat)) }

/-- A write to standard output takes some of its bytes. -/
def Takes (sys : Kernel κ) : Prop := ∀ k bytes, bytes ≠ [] →
  0 < (sys.sysWrite k 1 bytes).1 ∧ (sys.sysWrite k 1 bytes).1 ≤ bytes.length

/-- Nothing is in the buffers of the descriptor. -/
def Fresh (s : Libc κ) (fd : Int) : Prop := (s.fdBuffers fd).writeBuffer = [] ∧ (s.fdBuffers fd).unread = []

/-- All bytes are taken in the end, in order. -/
theorem writeOut_takes (takes : Takes sys) (apart : Apart sys fd) {chunks : List (List UInt8)} (fuel : Nat)
    (rest : List UInt8)
    {s : Libc (κ × Log)} (short : rest.length < 2 ^ 32) (enough : rest.length < fuel) (fresh : Fresh s fd)
    (delivers : Delivers sys fd count s.kernel.1 chunks) (same : s.kernel.2 = log) :
    ∃ t, writeOut (accepting sys) fuel s rest = some t ∧ Fresh t fd ∧ Delivers sys fd count t.kernel.1 chunks ∧
      t.kernel.2 = log.add 1 rest := by
  induction fuel generalizing rest s log with
  | zero => cases enough
  | succ fuel ih =>
    rw [writeOut]
    by_cases none : rest = []
    · rw [if_pos none, none]
      refine ⟨s, rfl, fresh, delivers, ?_⟩
      rw [same, Log.add, List.append_nil, Function.update_eq_self]
    · rw [if_neg none, dif_pos short]
      obtain ⟨positive, fits⟩ := takes s.kernel.1 rest none
      have once : write (accepting sys) s 1 ⟨rest, short⟩ = some ((sys.sysWrite s.kernel.1 1 rest).1,
          { s with kernel := ((accepting sys).sysWrite s.kernel 1 rest).2 }) := by
        unfold write
        rw [if_neg (by simpa using none), if_pos (.inl (by decide))]
        rfl
      rw [once]
      dsimp only
      rw [if_neg (by omega)]
      have fewer : (rest.drop (sys.sysWrite s.kernel.1 1 rest).1.toNat).length < rest.length := by
        rw [List.length_drop]
        have some' : 0 < rest.length := List.length_pos_of_ne_nil none
        omega
      obtain ⟨t, ran, fresh', delivers', total⟩ := ih (rest.drop (sys.sysWrite s.kernel.1 1 rest).1.toNat)
        (s := { s with kernel := ((accepting sys).sysWrite s.kernel 1 rest).2 }) (by omega) (by omega) fresh
        (delivers_write apart rest delivers) rfl
      refine ⟨t, ran, fresh', delivers', total.trans ?_⟩
      change (s.kernel.2.add 1 _).add 1 _ = _
      rw [add_add, List.take_append_drop, same]

/-- An empty buffer is passed by. -/
theorem read_chunk {s : Libc (κ × Log)} (fresh : Fresh s fd) {bytes : Int} {buffer : List UInt8}
    (read' : (sys.sysRead s.kernel.1 fd 4096).1 = (bytes, buffer)) (fits : bytes ≤ 4096) :
    ∃ t, read (accepting sys) s fd 4096 = ((bytes, buffer), t) ∧
      t.kernel = ((sys.sysRead s.kernel.1 fd 4096).2, s.kernel.2) ∧ Fresh t fd := by
  have call : (accepting sys).sysRead s.kernel fd 4096 =
    ((bytes, buffer), (sys.sysRead s.kernel.1 fd 4096).2, s.kernel.2) := by
    rw [← read']
    rfl
  unfold StdioBuffers.read
  rw [if_neg (by decide)]
  by_cases buffered : Buffered fd
  · obtain ⟨nothing, unread⟩ := fresh
    have drained : (s.fdBuffers fd).readBuffer[(s.fdBuffers fd).readHead]? = none :=
      List.getElem?_eq_none (List.drop_eq_nil_iff.mp unread)
    have none' : copyUnread 4096 (s.fdBuffers fd) = ([], s.fdBuffers fd) := by
      rw [copyUnread]
      simp only [drained]
    have kept : Fresh (s.setBuffer fd (s.fdBuffers fd)) fd := by
      simp only [Fresh, Libc.setBuffer, Function.update_self]
      exact ⟨nothing, unread⟩
    rw [if_neg (not_not.mpr buffered)]
    simp only [nothing, List.length_nil, Nat.lt_irrefl, if_false, none', Nat.sub_zero]
    rw [if_neg (by decide), if_pos (by decide)]
    simp only [Libc.setBuffer, call]
    by_cases some' : 0 < bytes
    · obtain ⟨n, rfl⟩ := Int.eq_ofNat_of_zero_le (Int.le_of_lt some')
      have small : n < 2 ^ 31 := by omega
      rw [if_pos some', Int.natCast_zero, Int.zero_add, toInt_of_lt small]
      exact ⟨_, rfl, rfl, kept⟩
    · rw [if_neg some', if_pos trivial]
      exact ⟨_, rfl, rfl, kept⟩
  · rw [if_pos buffered, call]
    exact ⟨_, rfl, rfl, fresh⟩

theorem streamLoop_copies (takes : Takes sys) (apart : Apart sys fd) {chunks : List (List UInt8)} {s : Libc (κ × Log)}
    (fresh : Fresh s fd) (delivers : Delivers sys fd 4096 s.kernel.1 chunks) (fuel : Nat)
    (enough : chunks.length < fuel) :
    ∃ t, streamLoop (accepting sys) fd fuel s = some t ∧ t.kernel.2 = s.kernel.2.add 1 chunks.flatten := by
  induction fuel generalizing s chunks with
  | zero => cases enough
  | succ fuel ih =>
    rw [streamLoop]
    cases chunks with
    | nil =>
      have ended : (sys.sysRead s.kernel.1 fd 4096).1.1 = 0 := delivers
      have short : (sys.sysRead s.kernel.1 fd 4096).1.1 ≤ 4096 := by rw [ended]; decide
      obtain ⟨t, read, kernel, -⟩ := read_chunk fresh rfl short
      rw [read]
      dsimp only
      rw [ended, if_neg (Int.lt_irrefl 0)]
      refine ⟨t, rfl, ?_⟩
      rw [kernel, List.flatten_nil, Log.add, List.append_nil, Function.update_eq_self]
    | cons chunk rest =>
      obtain ⟨some', short, got, more⟩ := delivers
      obtain ⟨t, read, kernel, fresh'⟩ := read_chunk fresh got (by omega)
      rw [read]
      dsimp only
      have positive : 0 < chunk.length := List.length_pos_of_ne_nil some'
      rw [if_pos (by omega), Int.toNat_natCast, List.take_length]
      have more' : Delivers sys fd 4096 t.kernel.1 rest := by
        rw [kernel]
        exact more
      obtain ⟨u, wrote, fresh'', more'', total⟩ := writeOut_takes takes apart (chunk.length + 1) chunk (by omega)
        (Nat.lt_succ_self _) fresh' more' rfl
      rw [wrote, Option.bind_eq_bind, Option.bind_some]
      obtain ⟨last, ran, written⟩ := ih fresh'' more'' (by rw [List.length_cons] at enough; omega)
      refine ⟨last, ran, ?_⟩
      rw [written, total, add_add, kernel, List.flatten_cons]

/-- With memory for its buffer `cat` hands on its whole input, however the reads cut it and
however little a write takes. -/
theorem cat_copies (takes : Takes sys) (apart : Apart sys fd) {chunks : List (List UInt8)} {s : Libc (κ × Log)}
    (fresh : Fresh s fd) (delivers : Delivers sys fd 4096 s.kernel.1 chunks) (fuel : Nat)
    (enough : chunks.length < fuel) :
    ∃ t, streamFd (accepting sys) fd true fuel s = some t ∧ t.kernel.2 = s.kernel.2.add 1 chunks.flatten :=
  streamLoop_copies takes apart fresh delivers fuel enough

end

theorem storedReads_apart (fd : Int) : Apart storedReads fd := fun _ _ _ => rfl

/-- The five lines, of which one has a 3. -/
theorem fiveLines_input : Input (recording storedReads) fiveLines 0 (ascii "1\n2\n3\n4\n5") := by
  rw [Input, if_pos (by decide)]
  exact ⟨rfl, rfl, [ascii "1\n2\n", ascii "3\n4", ascii "\n5"], by decide, by decide, by decide,
    rfl, by decide, by decide, rfl,
    by decide, by decide, rfl, rfl⟩

theorem grep_prints_fiveLines :
    let printed := (pieces newline 1023 (ascii "1\n2\n3\n4\n5")).filter fun line => ascii "3" <:+: line
    ∃ done, grepMain (recording storedReads) ["grep", "3"] [] true 10 fiveLines =
        some (if true = true ∧ printed ≠ [] then 0 else 1, done) ∧
      done.kernel.2 = fiveLines.kernel.2.add 1 printed.flatten :=
  grep_prints [] rfl rfl (by decide) (storedReads_apart 0) fiveLines_input (by decide +kernel) (by decide)
    true 10 (by decide)

/-- A kernel that takes one byte at a time. -/
def slowWrites : Kernel (List (List UInt8)) := { storedReads with sysWrite := fun k _ _ => (1, k) }

theorem cat_copies_slowly : ∃ t, streamFd (accepting slowWrites) 0 true 5 fiveLines = some t ∧
    t.kernel.2 = fiveLines.kernel.2.add 1 [ascii "1\n2\n", ascii "3\n4", ascii "\n5"].flatten := by
  have takes : Takes slowWrites := by
    intro k bytes some'
    have positive : 0 < bytes.length := List.length_pos_of_ne_nil some'
    refine ⟨Int.one_pos, ?_⟩
    change (1 : Int) ≤ bytes.length
    omega
  have delivers : Delivers slowWrites 0 4096 fiveLines.kernel.1 [ascii "1\n2\n", ascii "3\n4", ascii "\n5"] :=
    ⟨by decide, by decide, rfl, by decide, by decide, rfl, by decide, by decide, rfl, rfl⟩
  exact cat_copies takes (fun _ _ _ => rfl) ⟨rfl, rfl⟩ delivers 5 (by decide)

end MeowMeowOS.LineFilters

import MeowMeowOS.ExitBuffers
import MeowMeowOS.FormatEngines
import MeowMeowOS.LatestRing
import MeowMeowOS.LineReading

/-! `tail`: a ring of the last lines of its input, which it prints at the end. -/
namespace MeowMeowOS.TailLines

open StdioBuffers ExitBuffers NumberText FormatEngines CutPieces LineReading LatestRing

def defaultLines : Int := 10
def lineBufferSize : Int := 1024

/-- The strings of `strdup`, each known by its number. `freed` lists the calls of
`free`, and a string is live until the first of its own. -/
structure Strings where
  next : Nat
  live : Nat → Option (List UInt8)
  freed : List Nat

def Strings.none : Strings := ⟨0, fun _ => Option.none, []⟩

def Strings.strdup (heap : Strings) (s : List UInt8) : Strings :=
  ⟨heap.next + 1, Function.update heap.live heap.next (some s), heap.freed⟩

def Strings.free (heap : Strings) (p : Nat) : Strings :=
  ⟨heap.next, Function.update heap.live p Option.none, heap.freed ++ [p]⟩

/-- `tail` at work: `ring_buffer` holds the numbers of strings, or `NULL`. -/
structure Tail (κ : Type*) where
  libc : Libc κ
  heap : Strings
  ringBuffer : Nat → Option Nat

/-- `if (ring_buffer[slot] != NULL) free(ring_buffer[slot])` -/
def Tail.freeSlot (st : Tail κ) (slot : Nat) : Strings :=
  match st.ringBuffer slot with
  | some p => st.heap.free p
  | none => st.heap

section
variable (sys : Kernel κ)

def fputs (s : Libc κ) (str : List UInt8) (fd : Int) : Option (Int × Libc κ) :=
  if short : str.length < 2 ^ 32 then write sys s fd ⟨str, short⟩ else none

/-- `vsnprintf` into 1024 bytes of the stack, and what it stored to descriptor 1. -/
def printf (s : Libc κ) (fmt : List UInt8) (args : List Arg) : Option (Libc κ) := do
  let (len, buf) ← vsnprintf 1024 fmt args fun _ => 0
  if 0 < len.toInt then
    let (_, s) ← fputs sys s ((List.range len.toNat).map buf) 1
    some s
  else some s

/-- `while (fgets(...) != NULL)`: the count of lines and what is left. -/
def readLoop (linesToPrint : Nat) (fd : Int) : Nat → Nat → Tail κ → Option (Nat × Tail κ)
  | 0, _, _ => none
  | fuel + 1, totalLines, st =>
    match fgets sys st.libc lineBufferSize fd with
    | (none, s) => some (totalLines, { st with libc := s })
    | (some lineBuf, s) =>
      let slot := totalLines % linesToPrint
      let heap := st.freeSlot slot
      readLoop linesToPrint fd fuel (totalLines + 1)
        ⟨s, heap.strdup (cString lineBuf), Function.update st.ringBuffer slot (some heap.next)⟩

/-- `for (i = 0; i < count; i++)` with so many rounds to go. A string that has been
freed cannot be printed. -/
def printLoop (linesToPrint start : Nat) : Nat → Nat → Tail κ → Option (Tail κ)
  | 0, _, st => some st
  | n + 1, i, st =>
    let slot := (start + i) % linesToPrint
    match st.ringBuffer slot with
    | none => printLoop linesToPrint start n (i + 1) st
    | some p => do
      let str ← st.heap.live p
      let (_, s) ← fputs sys st.libc str 1
      printLoop linesToPrint start n (i + 1) ⟨s, st.heap.free p, Function.update st.ringBuffer slot none⟩

/-- `main` from the allocation of the ring on, which succeeds. -/
def tailLines (linesToPrint : Nat) (fd : Int) (fuel : Nat) (s : Libc κ) : Option (Tail κ) := do
  let (totalLines, st) ← readLoop sys linesToPrint fd fuel 0 ⟨s, Strings.none, fun _ => none⟩
  let st := if 0 < fd then { st with libc := (close sys st.libc fd).2 } else st
  let count := if totalLines < linesToPrint then totalLines else linesToPrint
  let start := if linesToPrint < totalLines then totalLines % linesToPrint else 0
  printLoop sys linesToPrint start count 0 st

/-- The lines to print, at least one, and the file. -/
def arguments (argv : List String) : Int × Option String :=
  let chosen :=
    if 3 ≤ argv.length ∧ argv[1]? = some "-n" then ((atoi (ascii (argv.getD 2 ""))).toInt, argv[3]?)
    else if 3 ≤ argv.length ∧ argv[1]? ≠ some "-n" then ((atoi (ascii (argv.getD 2 ""))).toInt, argv[1]?)
    else if argv.length = 2 then (defaultLines, argv[1]?)
    else (defaultLines, none)
  (if chosen.1 < 1 then defaultLines else chosen.1, chosen.2)

/-- Standard input, or the file. -/
def openInput (s : Libc κ) : Option String → Int × Libc κ
  | none => (0, s)
  | some filename => if filename ≠ "-" then openFile sys s filename else (0, s)

/-- The exit status and the process. -/
def main (argv : List String) (fuel : Nat) (s : Libc κ) : Option (Int × Libc κ) := do
  let (linesToPrint, filename) := arguments argv
  let (fd, s) := openInput sys s filename
  if fd < 0 then
    let s ← printf sys s (ascii "tail: cannot open '%s'\n") [⟨0, filename.map ascii⟩]
    some (1, s)
  else
    let st ← tailLines sys linesToPrint.toNat fd fuel s
    some (0, st.libc)

end

/-! ## The ring over the strings -/

/-- The strings from number `first` on are live and stand in the ring, those
before it have been freed once each. -/
structure Holds (linesToPrint : Nat) (st : Tail κ) (lines : List (List UInt8)) (first : Nat) : Prop where
  next : st.heap.next = lines.length
  ring : ∀ j, first ≤ j → j < lines.length → st.ringBuffer (j % linesToPrint) = some j
  live : ∀ j, first ≤ j → (small : j < lines.length) → st.heap.live j = some lines[j]
  freed : st.heap.freed = List.range first

section
variable {sys : Kernel κ} {st : Tail κ} {s : Libc κ} {lines : List (List UInt8)} {line : List UInt8}
  {linesToPrint first : Nat}

/-- The slots that no line has taken yet are empty. -/
def Unused (linesToPrint : Nat) (st : Tail κ) (total : Nat) : Prop :=
  ∀ slot, total ≤ slot → slot < linesToPrint → st.ringBuffer slot = none

/-- The line in the next slot is the one `linesToPrint` before, if there is one. -/
theorem freeSlot_first (holds : Holds linesToPrint st lines (lines.length - linesToPrint))
    (unused : Unused linesToPrint st lines.length) (positive : 0 < linesToPrint) :
    (st.freeSlot (lines.length % linesToPrint)).next = lines.length ∧
      (st.freeSlot (lines.length % linesToPrint)).freed = List.range (lines.length + 1 - linesToPrint) ∧
      ∀ j, lines.length + 1 - linesToPrint ≤ j →
        (st.freeSlot (lines.length % linesToPrint)).live j = st.heap.live j := by
  unfold Tail.freeSlot
  by_cases early : lines.length < linesToPrint
  · rw [Nat.mod_eq_of_lt early, unused _ le_rfl early]
    refine ⟨holds.next, ?_, fun _ _ => rfl⟩
    rw [holds.freed]
    congr 1
    omega
  · have full : linesToPrint ≤ lines.length := Nat.le_of_not_lt early
    have oldest := holds.ring (lines.length - linesToPrint) le_rfl (by omega)
    rw [← Nat.mod_eq_sub_mod full] at oldest
    have more : lines.length + 1 - linesToPrint = lines.length - linesToPrint + 1 := by omega
    rw [oldest, more, List.range_succ]
    refine ⟨holds.next, ?_, fun j later => Function.update_of_ne (by omega) _ _⟩
    rw [← holds.freed]
    rfl

/-- `strdup` puts the next line into that slot. -/
theorem holds_add (holds : Holds linesToPrint st lines (lines.length - linesToPrint))
    (unused : Unused linesToPrint st lines.length) (positive : 0 < linesToPrint) (s : Libc κ)
    (line : List UInt8) :
    let heap := st.freeSlot (lines.length % linesToPrint)
    let next : Tail κ := ⟨s, heap.strdup line,
      Function.update st.ringBuffer (lines.length % linesToPrint) (some heap.next)⟩
    Holds linesToPrint next (lines ++ [line]) ((lines ++ [line]).length - linesToPrint) ∧
      Unused linesToPrint next (lines ++ [line]).length := by
  intro heap next
  obtain ⟨count, freed, live⟩ := freeSlot_first holds unused positive
  have length : (lines ++ [line]).length = lines.length + 1 := List.length_append
  have ring : next.ringBuffer =
      Function.update st.ringBuffer (lines.length % linesToPrint) (some lines.length) :=
    congrArg (fun n => Function.update st.ringBuffer (lines.length % linesToPrint) (some n)) count
  have kept : next.heap.live = Function.update heap.live lines.length (some line) := by rw [← count]; rfl
  refine ⟨⟨?_, fun j held small => ?_, fun j held small => ?_, ?_⟩, fun slot later inside => ?_⟩
  · rw [length, ← count]
    rfl
  · rw [length] at held small
    rw [ring]
    by_cases last : j = lines.length
    · rw [last, Function.update_self]
    · rw [Function.update_of_ne (slot_apart (by omega) (by omega))]
      exact holds.ring j (by omega) (by omega)
  · rw [length] at held small
    rw [kept]
    by_cases last : j = lines.length
    · subst last
      simp
    · rw [Function.update_of_ne last, live j held, List.getElem_append_left (by omega)]
      exact holds.live j (by omega) (by omega)
  · rw [length]
    exact freed
  · rw [length] at later
    rw [ring, Nat.mod_eq_of_lt (by omega), Function.update_of_ne (by omega)]
    exact unused slot (by omega) inside

/-! ## Reading -/

/-- Nothing waits to be written to the descriptor, and so much has been written. -/
def Quiet (s : Libc (κ × Log)) (fd : Int) (log : Log) : Prop :=
  (Buffered fd → (s.fdBuffers fd).writeBuffer = []) ∧ s.kernel.2 = log

theorem fgetc_quiet (sys : Kernel κ) {s : Libc (κ × Log)} {log : Log} (quiet : Quiet s fd log) :
    Quiet (fgetc (recording sys) s fd).2 fd log := by
  obtain ⟨nothing, same⟩ := quiet
  unfold fgetc
  split
  · rename_i direct
    exact ⟨fun buffered => absurd buffered direct, same⟩
  · rename_i buffered
    have empty := nothing (not_not.mp buffered)
    rw [empty]
    dsimp only [List.length_nil]
    rw [if_neg (Nat.lt_irrefl 0)]
    split
    · exact ⟨fun _ => by simp [Libc.setBuffer, empty], same⟩
    · split
      · exact ⟨nothing, same⟩
      · split
        · exact ⟨fun _ => by simp [Libc.setBuffer, empty], same⟩
        · exact ⟨fun _ => by simp [Libc.setBuffer, empty], same⟩

theorem fgetsLoop_quiet {log : Log} (n : Nat) (stored : List UInt8) {s : Libc (κ × Log)} (quiet : Quiet s fd log) :
    Quiet (fgetsLoop (recording sys) fd n stored s).2 fd log := by
  induction n generalizing stored s with
  | zero => exact quiet
  | succ n ih =>
    have next := fgetc_quiet sys quiet
    rw [fgetsLoop]
    dsimp only
    split
    · exact next
    · split
      · exact next
      · exact ih _ next

theorem fgets_quiet (sys : Kernel κ) {log : Log} {s : Libc (κ × Log)} (quiet : Quiet s fd log) (size : Int) :
    Quiet (fgets (recording sys) s size fd).2 fd log := by
  unfold fgets
  split
  · exact quiet
  · exact fgetsLoop_quiet _ _ quiet

theorem close_log {log : Log} {s : Libc (κ × Log)} (quiet : Quiet s fd log) :
    (close (recording sys) s fd).2.kernel.2 = log := by
  obtain ⟨nothing, same⟩ := quiet
  have flushed : (flushFdBuffer (recording sys) s fd).kernel.2 = log := by
    unfold flushFdBuffer
    split
    · rename_i buffered
      rw [fflush, if_neg (not_not.mpr buffered)]
      dsimp only
      rw [nothing buffered]
      exact same
    · exact same
  exact flushed

/-- The loop takes the strings of `fgets` one after the other and keeps the last
of them. -/
theorem readLoop_holds {sys : Kernel κ} (st : Tail (κ × Log)) (lines : List (List UInt8)) {log : Log}
    {strings : List (List UInt8)}
    (positive : 0 < linesToPrint) (fuel : Nat)
    (all : fgetsAll (recording sys) lineBufferSize fd fuel st.libc = some (strings, s'))
    (holds : Holds linesToPrint st lines (lines.length - linesToPrint))
    (unused : Unused linesToPrint st lines.length) (quiet : Quiet st.libc fd log) :
    ∃ last, readLoop (recording sys) linesToPrint fd fuel lines.length st = some ((lines ++ strings).length, last) ∧
      Holds linesToPrint last (lines ++ strings) ((lines ++ strings).length - linesToPrint) ∧
      Quiet last.libc fd log := by
  induction fuel generalizing st lines strings with
  | zero => cases all
  | succ fuel ih =>
    have next := fgets_quiet sys quiet lineBufferSize
    rw [fgetsAll] at all
    rw [readLoop]
    generalize fgets (recording sys) st.libc lineBufferSize fd = answer at all next
    obtain ⟨string, s⟩ := answer
    cases string with
    | none =>
      injection all with all
      injection all with none
      subst none
      rw [List.append_nil]
      exact ⟨_, rfl, ⟨holds.next, holds.ring, holds.live, holds.freed⟩, next⟩
    | some lineBuf =>
      obtain ⟨⟨rest, final⟩, more, whole⟩ := Option.bind_eq_some_iff.mp all
      obtain ⟨rfl, rfl⟩ := Prod.mk.inj (Option.some.inj whole)
      obtain ⟨added, free⟩ := holds_add holds unused positive s (cString lineBuf)
      have step := ih ⟨s, _, _⟩ _ more added free next
      have one : (lines ++ [cString lineBuf]).length = lines.length + [cString lineBuf].length := List.length_append
      rw [List.append_assoc, one] at step
      exact step

/-! ## Printing -/

theorem fputs_log (sys : Kernel κ) {s : Libc (κ × Log)} {log : Log} {text : List UInt8}
    (short : text.length < 2 ^ 32)
    (same : s.kernel.2 = log) :
    ∃ ret t, fputs (recording sys) s text 1 = some (ret, t) ∧ t.kernel.2 = log.add 1 text := by
  rw [fputs, dif_pos short]
  unfold write
  by_cases none : text = []
  · rw [if_pos (by simp [none]), none]
    refine ⟨0, s, rfl, ?_⟩
    rw [same, Log.add, List.append_nil, Function.update_eq_self]
  · rw [if_neg (by simpa using none), if_pos (.inl (by decide))]
    refine ⟨_, _, rfl, ?_⟩
    rw [← same]
    rfl

theorem add_add (log : Log) (first rest : List UInt8) : (log.add 1 first).add 1 rest = log.add 1 (first ++ rest) := by
  unfold Log.add
  simp

/-- The loop prints and frees the strings that are live. -/
theorem printLoop_prints (sys : Kernel κ) {st : Tail (κ × Log)} {log : Log} (n i : Nat)
    (holds : Holds linesToPrint st lines first) (last : first + n = lines.length)
    (window : lines.length ≤ first + linesToPrint)
    (slot : (start + i) % linesToPrint = first % linesToPrint) (short : ∀ line ∈ lines, line.length < 2 ^ 32)
    (written : st.libc.kernel.2 = log) :
    ∃ done, printLoop (recording sys) linesToPrint start n i st = some done ∧
      done.heap.freed = List.range lines.length ∧ done.heap.next = lines.length ∧
      done.libc.kernel.2 = log.add 1 (lines.drop first).flatten := by
  induction n generalizing i first st log with
  | zero =>
    have ended : first = lines.length := by omega
    refine ⟨st, rfl, ended ▸ holds.freed, holds.next, ?_⟩
    rw [ended, List.drop_length, List.flatten_nil, Log.add, List.append_nil, Function.update_eq_self, written]
  | succ n ih =>
    have small : first < lines.length := by omega
    obtain ⟨ret, s, wrote, logged⟩ := fputs_log sys (short _ (List.getElem_mem small)) written
    have rest : Holds linesToPrint ⟨s, st.heap.free first,
        Function.update st.ringBuffer (first % linesToPrint) none⟩ lines (first + 1) := by
      refine ⟨holds.next, fun j later inside => ?_, fun j later inside => ?_, ?_⟩
      · dsimp only
        rw [Function.update_of_ne (slot_apart (by omega) (by omega)).symm]
        exact holds.ring j (by omega) inside
      · exact (Function.update_of_ne (by omega) _ _).trans (holds.live j (by omega) inside)
      · rw [List.range_succ, ← holds.freed]
        rfl
    have turn : (start + (i + 1)) % linesToPrint = (first + 1) % linesToPrint := by
      rw [← Nat.add_assoc, Nat.add_mod, slot, ← Nat.add_mod]
    obtain ⟨done, ran, freed, next, total⟩ := ih (i + 1) rest (by omega) (by omega) turn logged
    refine ⟨done, ?_, freed, next, ?_⟩
    · rw [printLoop, slot]
      dsimp only
      rw [holds.ring first le_rfl small]
      simp only [holds.live first le_rfl small, Option.bind_eq_bind, Option.bind_some, wrote]
      exact ran
    · rw [total, add_add, List.drop_eq_getElem_cons small, List.flatten_cons]

/-! ## The whole run -/

theorem quiet_of_input {sys : Kernel κ} {s : Libc (κ × Log)} (given : Input (recording sys) s fd input) :
    Quiet s fd s.kernel.2 := by
  refine ⟨fun buffered => ?_, rfl⟩
  rw [Input, if_pos buffered] at given
  exact given.1

theorem start_holds (linesToPrint : Nat) (s : Libc κ) :
    Holds linesToPrint ⟨s, Strings.none, fun _ => none⟩ [] (([] : List (List UInt8)).length - linesToPrint) := by
  refine ⟨rfl, fun _ _ small => absurd small (Nat.not_lt_zero _), fun _ _ small => absurd small (Nat.not_lt_zero _),
    ?_⟩
  rw [List.length_nil, Nat.zero_sub]
  rfl

/-- The first slot that is printed is that of the first line that is kept. -/
theorem start_slot (total linesToPrint : Nat) :
    ((if linesToPrint < total then total % linesToPrint else 0) + 0) % linesToPrint =
      (total - linesToPrint) % linesToPrint := by
  split
  · rename_i wrapped
    rw [Nat.add_zero, Nat.mod_mod, Nat.mod_eq_sub_mod (Nat.le_of_lt wrapped)]
  · rw [show total - linesToPrint = 0 by omega]

/-- Any number of strings goes through the ring; the last of them are printed and
all are freed. -/
theorem tailLines_run {sys : Kernel κ} {s : Libc (κ × Log)} {strings : List (List UInt8)} (linesToPrint : Nat)
    (positive : 0 < linesToPrint) (fuel : Nat)
    (all : fgetsAll (recording sys) lineBufferSize fd fuel s = some (strings, s'))
    (short : ∀ line ∈ strings, line.length < 2 ^ 32) (quiet : Quiet s fd s.kernel.2) :
    ∃ st, tailLines (recording sys) linesToPrint fd fuel s = some st ∧
      st.libc.kernel.2 = s.kernel.2.add 1 (strings.rtake linesToPrint).flatten ∧
      st.heap.next = strings.length ∧ st.heap.freed = List.range strings.length := by
  obtain ⟨read, ran, holds, silent⟩ := readLoop_holds ⟨s, Strings.none, fun _ => none⟩ []
    positive fuel all (start_holds linesToPrint s) (fun _ _ _ => rfl) quiet
  rw [List.nil_append] at ran holds
  rw [List.length_nil] at ran
  generalize closed : (if 0 < fd then { read with libc := (close (recording sys) read.libc fd).2 } else read) = st
  have same : st.heap = read.heap ∧ st.ringBuffer = read.ringBuffer ∧ st.libc.kernel.2 = s.kernel.2 := by
    rw [← closed]
    split
    · exact ⟨rfl, rfl, close_log silent⟩
    · exact ⟨rfl, rfl, silent.2⟩
  have kept : Holds linesToPrint st strings (strings.length - linesToPrint) := by
    refine ⟨?_, ?_, ?_, ?_⟩
    · rw [same.1, holds.next]
    · rw [same.2.1]
      exact holds.ring
    · rw [same.1]
      exact holds.live
    · rw [same.1, holds.freed]
  have count : strings.length - linesToPrint +
      (if strings.length < linesToPrint then strings.length else linesToPrint) =
      strings.length := by
    split <;> omega
  obtain ⟨done, printed, freed, next, written⟩ := printLoop_prints sys _ 0 kept count (by omega)
    (start_slot strings.length linesToPrint) short same.2.2
  refine ⟨done, ?_, written, next, freed⟩
  unfold tailLines
  rw [ran]
  simp only [Option.bind_eq_bind, Option.bind_some, closed]
  exact printed

/-- The strings are short. -/
theorem input_strings {sys : Kernel κ} {s : Libc κ} (given : Input sys s fd input)
    (noZero : ∀ byte ∈ input, byte ≠ 0) (enough : input.length < fuel) :
    ∃ strings s', fgetsAll sys lineBufferSize fd fuel s = some (strings, s') ∧
      ∀ line ∈ strings, line.length < 2 ^ 32 := by
  obtain ⟨s', strings, -⟩ := fgetsAll_pieces lineBufferSize (by decide) fuel enough noZero (.inl given)
  exact ⟨_, s', strings, fun line member => (pieces_width (by decide) input line member).trans_lt (by decide)⟩

/-- `tail` writes the last strings that `fgets` delivers to descriptor 1, as many
as are requested, and frees each string it has stored once. -/
theorem tail_prints_last (sys : Kernel κ) (linesToPrint : Nat) (requested : 1 ≤ linesToPrint) (s : Libc (κ × Log))
    (fd : Int) (input : List UInt8) (given : Input (recording sys) s fd input) (noZero : ∀ byte ∈ input, byte ≠ 0)
    (fuel : Nat) (enough : input.length < fuel) :
    ∃ strings s' st, fgetsAll (recording sys) lineBufferSize fd fuel s = some (strings, s') ∧
      tailLines (recording sys) linesToPrint fd fuel s = some st ∧
      st.libc.kernel.2 = s.kernel.2.add 1 (strings.rtake linesToPrint).flatten ∧
      st.heap.next = strings.length ∧ ∀ p < st.heap.next, st.heap.freed.count p = 1 := by
  obtain ⟨strings, s', all, short⟩ := input_strings given noZero enough
  obtain ⟨st, ran, written, next, freed⟩ := tailLines_run _ requested fuel all short (quiet_of_input given)
  refine ⟨strings, s', st, all, ran, written, next, fun p made => ?_⟩
  rw [freed]
  exact List.count_eq_one_of_mem List.nodup_range (List.mem_range.mpr (next ▸ made))

/-- The count that `main` passes on is at least one, whatever the arguments. -/
theorem arguments_positive (argv : List String) : 1 ≤ (arguments argv).1 := by
  unfold arguments
  dsimp only
  generalize (if 3 ≤ argv.length ∧ argv[1]? = some "-n" then _ else _ : Int × Option String) = chosen
  split
  · decide
  · omega

/-- The whole program, when the file can be opened. -/
theorem main_prints_last {sys : Kernel κ} {argv : List String} {s opened : Libc (κ × Log)} {fd : Int}
    {input : List UInt8} (file : openInput (recording sys) s (arguments argv).2 = (fd, opened)) (found : 0 ≤ fd)
    (given : Input (recording sys) opened fd input) (noZero : ∀ byte ∈ input, byte ≠ 0) (fuel : Nat)
    (enough : input.length < fuel) :
    ∃ strings s' done, fgetsAll (recording sys) lineBufferSize fd fuel opened = some (strings, s') ∧
      main (recording sys) argv fuel s = some (0, done) ∧
      done.kernel.2 = opened.kernel.2.add 1 (strings.rtake (arguments argv).1.toNat).flatten := by
  obtain ⟨strings, s', all, short⟩ := input_strings given noZero enough
  have positive := arguments_positive argv
  obtain ⟨st, ran, written, -, -⟩ := tailLines_run (arguments argv).1.toNat (by omega) fuel all short
    (quiet_of_input given)
  refine ⟨strings, s', st.libc, all, ?_, written⟩
  unfold main
  dsimp only
  rw [file]
  dsimp only
  rw [if_neg (by omega), ran]
  rfl

/-- Five lines, of which the last two are requested. -/
def fiveLines : Libc (List (List UInt8) × Log) :=
  Libc.start ([ascii "1\n2\n", ascii "3\n4", ascii "\n5"], fun _ => [])

theorem tail_prints_last_fiveLines : ∃ strings s' st,
    fgetsAll (recording storedReads) lineBufferSize 0 10 fiveLines = some (strings, s') ∧
      tailLines (recording storedReads) 2 0 10 fiveLines = some st ∧
      st.libc.kernel.2 = fiveLines.kernel.2.add 1 (strings.rtake 2).flatten ∧
      st.heap.next = strings.length ∧ ∀ p < st.heap.next, st.heap.freed.count p = 1 := by
  have given : Input (recording storedReads) fiveLines 0 (ascii "1\n2\n3\n4\n5") := by
    rw [Input, if_pos (by decide)]
    exact ⟨rfl, rfl, [ascii "1\n2\n", ascii "3\n4", ascii "\n5"], by decide,
      by decide, by decide, rfl, by decide, by decide, rfl, by decide, by decide, rfl, rfl⟩
  exact tail_prints_last storedReads 2 (by decide) fiveLines 0 _ given (by decide +kernel) 10 (by decide)

end

end MeowMeowOS.TailLines

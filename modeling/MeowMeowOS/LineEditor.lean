import MeowMeowOS.Keyboard
import MeowMeowOS.LatestRing
import MeowMeowOS.TabCompletion
import Mathlib.Data.List.Destutter

/-! The line editor of the shell, `shell_read_line` with its history, over any
session of calls. -/
namespace MeowMeowOS.LineEditor

open Keyboard LatestRing StringBuffers TabCompletion

/-! ## The history -/

def historySize : Nat := 50

/-- The variables of the file. -/
structure Shell where
  cmdHistory : Nat → Nat → UInt8
  historyStart : Nat
  historyEnd : Nat
  historyCount : Nat
  compMatch : Nat → UInt8

def Shell.start : Shell := ⟨fun _ _ => 0, 0, 0, 0, fun _ => 0⟩

def historyAdd (s : Shell) (cmd : Nat → UInt8) : Shell :=
  if cmd 0 = 0 then s
  else
    let lastIdx := if s.historyEnd = 0 then historySize - 1 else s.historyEnd - 1
    if 0 < s.historyCount ∧ textOf 128 (s.cmdHistory lastIdx) = textOf 128 cmd then s
    else
      { s with
        cmdHistory := Function.update s.cmdHistory s.historyEnd
          (copyString (s.cmdHistory s.historyEnd) (textOf 128 cmd) 127)
        historyEnd := (s.historyEnd + 1) % historySize
        historyCount := if s.historyCount < historySize then s.historyCount + 1 else s.historyCount
        historyStart :=
          if s.historyCount < historySize then s.historyStart else (s.historyStart + 1) % historySize }

/-! ## The line -/

/-- The buffer and the local variables of one call. -/
structure Line where
  buffer : Nat → UInt8
  cursorPos : Nat
  historyOffset : Nat
  typingBuf : Nat → UInt8

def Line.start (buffer : Nat → UInt8) : Line := ⟨Function.update buffer 0 0, 0, 0, fun _ => 0⟩

/-- `buffer[cursor_pos++] = c` -/
def Line.put (l : Line) (c : UInt8) : Line :=
  { l with buffer := Function.update l.buffer l.cursorPos c, cursorPos := l.cursorPos + 1 }

/-- `buffer[cursor_pos] = '\0'` -/
def Line.terminated (l : Line) : Nat → UInt8 := Function.update l.buffer l.cursorPos 0

def Line.erase (l : Line) : Line :=
  if 0 < l.cursorPos then
    { l with buffer := Function.update l.buffer (l.cursorPos - 1) 0, cursorPos := l.cursorPos - 1 }
  else l

/-- Another text comes into the buffer, and the cursor behind it. -/
def Line.recall (l : Line) (maxSize : Nat) (source : Nat → UInt8) : Line :=
  let buffer := copyString l.buffer (textOf 128 source) (maxSize - 1)
  { l with buffer := buffer, cursorPos := (textOf maxSize buffer).length }

/-- `cmd_history[(history_end - history_offset + HISTORY_SIZE) % HISTORY_SIZE]` -/
def Shell.entry (s : Shell) (historyOffset : Nat) : Nat → UInt8 :=
  s.cmdHistory ((s.historyEnd + historySize - historyOffset) % historySize)

def Line.up (l : Line) (maxSize : Nat) (s : Shell) : Line :=
  if l.historyOffset < s.historyCount then
    let left :=
      if l.historyOffset = 0 then
        { l with buffer := l.terminated, typingBuf := strncpy l.typingBuf (textOf maxSize l.terminated) 127 }
      else l
    { left with historyOffset := l.historyOffset + 1 }.recall maxSize (s.entry (l.historyOffset + 1))
  else l

def Line.down (l : Line) (maxSize : Nat) (s : Shell) : Line :=
  if 0 < l.historyOffset then
    let back := { l with historyOffset := l.historyOffset - 1 }
    if l.historyOffset - 1 = 0 then back.recall maxSize l.typingBuf
    else back.recall maxSize (s.entry (l.historyOffset - 1))
  else l

/-! ## Completion -/

/-- The names that `fat16_list` visits in the current directory, and in another one
where `fat16_chdir` finds it. -/
structure Directories where
  current : List CString
  named : List UInt8 → Option (List CString)

def slash : UInt8 := 0x2F

def commandsPath : List UInt8 := "/system/bin/usr/commands".toUTF8.data.toList

/-- The prefix that is looked for and the names it is compared with. -/
def Directories.search (d : Directories) (wordStart : Nat) (compPrefix : List UInt8) : List UInt8 × List CString :=
  if wordStart = 0 then (compPrefix, (d.named commandsPath).getD [] ++ d.current)
  else if slash ∈ compPrefix then
    let filePrefix := compPrefix.rtakeWhile (· ≠ slash)
    let dir := compPrefix.take (compPrefix.length - filePrefix.length - 1)
    (filePrefix, (d.named (if dir = [] then [slash] else dir)).getD [])
  else (compPrefix, d.current)

/-- `while (word_start > 0 && buffer[word_start - 1] != ' ') word_start--;` -/
def wordStart (buffer : Nat → UInt8) : Nat → Nat
  | 0 => 0
  | n + 1 => if buffer n ≠ 0x20 then wordStart buffer n else n + 1

def cString (s : List UInt8) : CString :=
  ⟨s.takeWhile (· ≠ 0), fun zero => by simpa using List.mem_takeWhile_imp zero⟩

/-- The text of `comp_match` behind the prefix is typed in, as far as it fits. -/
def Line.tab (l : Line) (maxSize : Nat) (s : Shell) (d : Directories) : Shell × Line :=
  let start := wordStart l.buffer l.cursorPos
  let word := (List.range (l.cursorPos - start)).map fun i => l.buffer (start + i)
  if word.length < 128 ∧ 0 < word.length then
    let search := d.search start word
    let done := search.2.foldl tabVisitor (Completion.start (cString search.1) s.compMatch)
    let more := ((textOf 128 done.compMatch).drop search.1.length).take (maxSize - 1 - l.cursorPos)
    let typed := more.foldl Line.put l
    ({ s with compMatch := done.compMatch },
      if 0 < done.compMatchCount then { typed with buffer := typed.terminated } else l)
  else (s, l)

/-! ## The keys -/

/-- What `keyboard_read_keycode` and then `keyboard_get_modifiers` return. -/
structure Press where
  key : UInt16
  mods : UInt8
  deriving DecidableEq

def keyUp : UInt16 := 0xE000

def keyDown : UInt16 := 0xE001

def keyTab : UInt16 := 0x09

def Press.ctrlHeld (p : Press) : Bool := p.mods &&& modifierCtrl != 0

/-- Ctrl and P, N, T or I stand for other keys. -/
def Press.meant (p : Press) : UInt16 :=
  if p.ctrlHeld then
    if p.key = 0x70 ∨ p.key = 0x50 then keyUp
    else if p.key = 0x6E ∨ p.key = 0x4E then keyDown
    else if p.key = 0x74 ∨ p.key = 0x54 ∨ p.key = 0x69 ∨ p.key = 0x49 then keyTab
    else p.key
  else p.key

/-- The keys that do not end the line. -/
def keyPressed (maxSize : Nat) (d : Directories) (s : Shell) (l : Line) (p : Press) : Shell × Line :=
  if p.meant = 0x08 ∨ p.meant = 0x7F then (s, l.erase)
  else if p.meant = keyUp then (s, l.up maxSize s)
  else if p.meant = keyDown then (s, l.down maxSize s)
  else if p.meant = keyTab then l.tab maxSize s d
  else if p.meant < 0x80 ∧ ¬p.ctrlHeld then
    let c := p.meant.toUInt8
    if 0x20 ≤ c ∧ c ≤ 0x7E ∧ l.cursorPos < maxSize - 1 then (s, l.put c) else (s, l)
  else (s, l)

/-- The call after its first keys: the length that it returns, the buffer and the
keys that are left, or nothing while it waits for more keys. -/
def readLoop (maxSize : Nat) (d : Directories) : Shell → Line → List Press →
    Option (Nat × (Nat → UInt8) × Shell × List Press)
  | _, _, [] => none
  | s, l, p :: presses =>
    if p.key = 0 then readLoop maxSize d s l presses
    else if p.meant = 0x0A ∨ p.meant = 0x0D then
      some (l.cursorPos, l.terminated, historyAdd s l.terminated, presses)
    else
      let next := keyPressed maxSize d s l p
      readLoop maxSize d next.1 next.2 presses

def shellReadLine (maxSize : Nat) (d : Directories) (s : Shell) (buffer : Nat → UInt8) (presses : List Press) :
    Option (Nat × (Nat → UInt8) × Shell × List Press) :=
  readLoop maxSize d s (Line.start buffer) presses

/-- One call: what its buffer held before and what the directories list. -/
structure Call where
  buffer : Nat → UInt8
  directories : Directories

/-- The texts and lengths of the calls that return. -/
def shellLines : Shell → List Call → List Press → List (List UInt8 × Nat)
  | _, [], _ => []
  | s, call :: calls, presses =>
    match shellReadLine 128 call.directories s call.buffer presses with
    | none => []
    | some (length, buffer, s', rest) => (textOf 128 buffer, length) :: shellLines s' calls rest

/-! ## An editor of lines -/

inductive Key where
  | char (c : { c : UInt8 // 0x20 ≤ c ∧ c ≤ 0x7E })
  | backspace
  | up
  | down
  | enter

/-- The presses that stand for the key. -/
def Stands (p : Press) : Key → Prop
  | .char c => ¬p.ctrlHeld ∧ p.key = c.1.toUInt16
  | .backspace => p.key = 0x08 ∨ p.key = 0x7F
  | .up => p.key = keyUp ∨ p.ctrlHeld ∧ (p.key = 0x70 ∨ p.key = 0x50)
  | .down => p.key = keyDown ∨ p.ctrlHeld ∧ (p.key = 0x6E ∨ p.key = 0x4E)
  | .enter => p.key = 0x0A ∨ p.key = 0x0D

/-- A line, the place in the history, the line as Up left it, and the history with
the newest entry first. -/
structure Editor where
  line : List UInt8
  place : Nat
  saved : List UInt8
  history : List (List UInt8)

def Editor.start : Editor := ⟨[], 0, [], []⟩

/-- An empty line and a repetition of the newest entry are not stored. -/
def remember (history : List (List UInt8)) (line : List UInt8) : List (List UInt8) :=
  if line = [] ∨ history.head? = some line then history else (line :: history).take 50

def Editor.char (e : Editor) (c : UInt8) : Editor :=
  if e.line.length < 127 then { e with line := e.line ++ [c] } else e

def Editor.backspace (e : Editor) : Editor := { e with line := e.line.dropLast }

/-- The next older entry takes the place of the line, where there is one. -/
def Editor.up (e : Editor) : Editor :=
  match e.history[e.place]? with
  | none => e
  | some entry => { e with line := entry, place := e.place + 1, saved := if e.place = 0 then e.line else e.saved }

/-- The next newer entry, or behind the newest one the line that was saved. -/
def Editor.down (e : Editor) : Editor :=
  match e.place with
  | 0 => e
  | 1 => { e with line := e.saved, place := 0 }
  | k + 2 => { e with line := e.history[k]?.getD [], place := k + 1 }

def Editor.enter (e : Editor) : Editor := ⟨[], 0, [], remember e.history e.line⟩

def Editor.press (e : Editor) : Key → Editor
  | .char c => e.char c.1
  | .backspace => e.backspace
  | .up => e.up
  | .down => e.down
  | .enter => e.enter

/-- The lines that Enter ends. -/
def Editor.session (e : Editor) : List Key → List (List UInt8)
  | [] => []
  | .enter :: keys => e.line :: e.enter.session keys
  | key :: keys => (e.press key).session keys

theorem take_cons {α : Type*} (x : α) (xs : List α) (n : Nat) : (x :: xs.take n).take n = (x :: xs).take n := by
  cases n with
  | zero => rfl
  | succ n => simp [List.take_take]

/-- The history after some lines, where the newest one of them stands first. -/
theorem remember_repeated (lines : List (List UInt8)) (newest : List UInt8) (older : List (List UInt8)) :
    lines.foldl remember ((newest :: older).take 50) =
      (older.reverse ++ (lines.filter (· ≠ [])).destutter' (· ≠ ·) newest).reverse.take 50 := by
  induction lines generalizing newest older with
  | nil => simp
  | cons line lines ih =>
    rw [List.foldl_cons, remember]
    by_cases empty : line = []
    · rw [if_pos (Or.inl empty), ih, List.filter_cons_of_neg (by simpa using empty)]
    · rw [List.filter_cons_of_pos (by simpa using empty)]
      by_cases again : newest = line
      · have same : ((newest :: older).take 50).head? = some line := congrArg some again
        rw [if_pos (Or.inr same), ih, List.destutter'_cons_neg _ (by simpa using again)]
      · have fresh : ¬(line = [] ∨ ((newest :: older).take 50).head? = some line) := fun either =>
          either.elim empty fun same => again (Option.some.inj same)
        rw [if_neg fresh, take_cons, ih, List.destutter'_cons_pos _ again, List.reverse_cons, List.append_assoc,
          List.singleton_append]

/-- The history holds the last lines, less the empty ones and immediate repetitions. -/
theorem remember_lines (lines : List (List UInt8)) :
    lines.foldl remember [] = ((lines.filter (· ≠ [])).destutter (· ≠ ·)).reverse.take 50 := by
  induction lines with
  | nil => rfl
  | cons line lines ih =>
    rw [List.foldl_cons, remember]
    by_cases empty : line = []
    · rw [if_pos (Or.inl empty), ih, List.filter_cons_of_neg (by simpa using empty)]
    · have fresh : ¬(line = [] ∨ ([] : List (List UInt8)).head? = some line) := fun either =>
        either.elim empty fun none => by cases none
      rw [if_neg fresh, List.filter_cons_of_pos (by simpa using empty), List.destutter_cons', remember_repeated]
      rfl

/-! ## The history that the shell holds -/

/-- A text that the history stores. -/
def Stored (s : List UInt8) : Prop := s ≠ [] ∧ 0 ∉ s ∧ s.length ≤ 127

/-- The ring holds the last lines of those that were written. -/
structure Remembers (s : Shell) (history written : List (List UInt8)) : Prop where
  latest : history = written.reverse.take historySize
  kept : Keeps historySize (fun i => textOf 128 (s.cmdHistory i)) written
  ended : s.historyEnd = written.length % historySize
  count : s.historyCount = min written.length historySize
  stored : ∀ entry ∈ written, Stored entry

section
variable {s : Shell} {l : Line} {e : Editor} {history written : List (List UInt8)} {line : List UInt8}
  {buffer : Nat → UInt8} {k : Nat}

theorem start_remembers : Remembers Shell.start [] [] :=
  ⟨rfl, keeps_nil, rfl, rfl, fun _ member => absurd member List.not_mem_nil⟩

theorem Remembers.length (remembers : Remembers s history written) : history.length = s.historyCount := by
  rw [remembers.latest, remembers.count, List.length_take, List.length_reverse, Nat.min_comm]

theorem Remembers.entry_stored (remembers : Remembers s history written) (inside : k < history.length) :
    Stored history[k] := by
  have member : history[k] ∈ written.reverse.take historySize := remembers.latest ▸ List.getElem_mem inside
  exact remembers.stored _ (List.mem_reverse.mp (List.take_subset _ _ member))

/-- The slot that many places before the end holds the entry of that age. -/
theorem Remembers.entry_text (remembers : Remembers s history written) (inside : k < history.length) :
    textOf 128 (s.entry (k + 1)) = history[k] := by
  have few := inside
  rw [remembers.length, remembers.count] at few
  have ended := remembers.ended
  have slot : (s.historyEnd + historySize - (k + 1)) % historySize = (written.length - (k + 1)) % historySize := by
    rw [ended, Nat.add_sub_assoc (by omega)]
    exact slot_back (by omega) (by omega)
  have kept := remembers.kept (written.length - (k + 1)) (by omega) (by omega)
  rw [Shell.entry, slot]
  refine kept.trans ?_
  simp only [remembers.latest, List.getElem_take, List.getElem_reverse]
  congr 1
  omega

/-- The newest entry is the one that a line is compared with. -/
theorem Remembers.newest (remembers : Remembers s history written) (some : 0 < s.historyCount) :
    history.head? = Option.some
      (textOf 128 (s.cmdHistory (if s.historyEnd = 0 then historySize - 1 else s.historyEnd - 1))) := by
  have inside : 0 < history.length := remembers.length ▸ some
  have bound : s.historyEnd < historySize := remembers.ended ▸ Nat.mod_lt _ (by decide)
  have slot : (s.historyEnd + historySize - 1) % historySize =
      if s.historyEnd = 0 then historySize - 1 else s.historyEnd - 1 := by
    unfold historySize at *
    split <;> omega
  rw [← slot, List.head?_eq_getElem?, List.getElem?_eq_getElem inside, ← remembers.entry_text inside]
  rfl

theorem Remembers.kept_copied (remembers : Remembers s history written) (noZero : 0 ∉ line)
    (short : line.length ≤ 127) :
    Keeps historySize
      (fun i => textOf 128 (Function.update s.cmdHistory s.historyEnd
        (copyString (s.cmdHistory s.historyEnd) line 127) i))
      (written ++ [line]) := by
  have copied : textOf 128 (copyString (s.cmdHistory s.historyEnd) line 127) = line :=
    (copyString_whole _ short).text noZero (by omega)
  have pushed := keeps_push remembers.kept line
  rw [← remembers.ended] at pushed
  convert pushed using 1
  funext i
  by_cases slot : i = s.historyEnd
  · rw [slot, Function.update_self, Function.update_self, copied]
  · rw [Function.update_of_ne slot, Function.update_of_ne slot]

theorem historyAdd_remembers (remembers : Remembers s history written) (holds : Holds buffer line) (noZero : 0 ∉ line)
    (short : line.length ≤ 127) : ∃ written', Remembers (historyAdd s buffer) (remember history line) written' := by
  have text : textOf 128 buffer = line := holds.text noZero (by omega)
  unfold historyAdd remember
  by_cases empty : line = []
  · have first : buffer 0 = 0 := by
      have ended := holds.2
      rwa [empty] at ended
    rw [if_pos first, if_pos (Or.inl empty)]
    exact ⟨written, remembers⟩
  · have first : buffer 0 ≠ 0 := fun zero => by
      have inside : 0 < line.length := List.length_pos_of_ne_nil empty
      exact noZero (zero ▸ holds.1 0 inside ▸ List.getElem_mem inside)
    rw [if_neg first]
    dsimp only
    by_cases again : history.head? = some line
    · have some : 0 < s.historyCount := by
        rw [← remembers.length]
        refine List.length_pos_of_ne_nil fun none => ?_
        rw [none] at again
        cases again
      have same := (remembers.newest some).symm.trans again
      rw [if_pos ⟨some, (Option.some.inj same).trans text.symm⟩, if_pos (Or.inr again)]
      exact ⟨written, remembers⟩
    · have fresh : ¬(line = [] ∨ history.head? = some line) := fun either => either.elim empty again
      rw [if_neg fun both => again ((remembers.newest both.1).trans (congrArg some (both.2.trans text))),
        if_neg fresh, text]
      refine ⟨written ++ [line], ?_, ?_, ?_, ?_, ?_⟩
      · rw [remembers.latest, List.reverse_append, List.reverse_singleton, List.singleton_append]
        exact take_cons line written.reverse historySize
      · exact remembers.kept_copied noZero short
      · rw [List.length_append, List.length_singleton, ← Nat.mod_add_mod written.length, ← remembers.ended]
      · have count := remembers.count
        rw [List.length_append, List.length_singleton]
        dsimp only
        split <;> omega
      · intro entry member
        rcases List.mem_append.mp member with old | new
        · exact remembers.stored entry old
        · rw [List.mem_singleton.mp new]
          exact ⟨empty, noZero, short⟩

/-! ## The line that the buffer holds -/

/-- The call holds the line of the editor, and the history its history. -/
structure Shows (s : Shell) (l : Line) (e : Editor) : Prop where
  remembers : ∃ written, Remembers s e.history written
  begins : Begins l.buffer e.line
  cursor : l.cursorPos = e.line.length
  noZero : 0 ∉ e.line
  short : e.line.length ≤ 127
  offset : l.historyOffset = e.place
  inside : e.place ≤ e.history.length
  saved : e.place ≠ 0 → textOf 128 l.typingBuf = e.saved ∧ 0 ∉ e.saved ∧ e.saved.length ≤ 127
  typingEnd : l.typingBuf 127 = 0

theorem start_shows (remembers : Remembers s history written) (buffer : Nat → UInt8) :
    Shows s (Line.start buffer) ⟨[], 0, [], history⟩ where
  remembers := ⟨written, remembers⟩
  begins := begins_nil
  cursor := rfl
  noZero := List.not_mem_nil
  short := Nat.zero_le _
  offset := rfl
  inside := Nat.zero_le _
  saved := fun some => absurd rfl some
  typingEnd := rfl

theorem Shows.terminated (shows : Shows s l e) : Holds l.terminated e.line := by
  have ended := shows.begins.terminate
  rwa [← shows.cursor] at ended

/-- A text that is recalled stands whole in the buffer. -/
theorem recall_begins (l : Line) (source : Nat → UInt8) (noZero : 0 ∉ line) (short : line.length ≤ 127)
    (text : textOf 128 source = line) :
    Begins (l.recall 128 source).buffer line ∧ (l.recall 128 source).cursorPos = line.length := by
  have holds := copyString_whole l.buffer short
  have cursor := congrArg List.length (holds.text noZero (Nat.lt_succ_of_le short))
  unfold Line.recall
  rw [text]
  exact ⟨holds.1, cursor⟩

theorem put_shows (shows : Shows s l e) {c : UInt8} (some : c ≠ 0) (room : e.line.length < 127) :
    Shows s (l.put c) { e with line := e.line ++ [c] } := by
  have put := shows.begins.put c
  rw [← shows.cursor] at put
  refine { shows with begins := put, cursor := ?_, noZero := ?_, short := ?_ }
  · rw [List.length_append, List.length_singleton, ← shows.cursor]
    rfl
  · intro zero
    rcases List.mem_append.mp zero with old | new
    · exact shows.noZero old
    · exact some (List.mem_singleton.mp new).symm
  · rw [List.length_append, List.length_singleton]
    exact room

theorem char_shows (shows : Shows s l e) (c : { c : UInt8 // 0x20 ≤ c ∧ c ≤ 0x7E }) :
    Shows s (if l.cursorPos < 127 then l.put c.1 else l) (e.char c.1) := by
  unfold Editor.char
  rw [shows.cursor]
  by_cases room : e.line.length < 127
  · rw [if_pos room, if_pos room]
    exact put_shows shows (fun zero => absurd (zero ▸ c.2.1) (by decide)) room
  · rw [if_neg room, if_neg room]
    exact shows

theorem backspace_shows (shows : Shows s l e) : Shows s l.erase e.backspace := by
  unfold Editor.backspace Line.erase
  have cursor := shows.cursor
  by_cases some : 0 < l.cursorPos
  · rw [if_pos some]
    have shortened := shows.begins.shorten 0
    rw [← cursor] at shortened
    refine { shows with begins := shortened, cursor := ?_, noZero := ?_, short := ?_ }
    · rw [List.length_dropLast, ← cursor]
    · exact fun zero => shows.noZero (List.mem_of_mem_dropLast zero)
    · have short := shows.short
      rw [List.length_dropLast]
      omega
  · have none : e.line = [] := List.eq_nil_of_length_eq_zero (by omega)
    rw [if_neg some]
    have same : { e with line := e.line.dropLast } = e := by
      cases e
      subst none
      rfl
    rw [same]
    exact shows

/-- What Up saves before it leaves the line. -/
theorem Shows.left (shows : Shows s l e) :
    textOf 128 (strncpy l.typingBuf (textOf 128 l.terminated) 127) = e.line ∧
      strncpy l.typingBuf (textOf 128 l.terminated) 127 127 = 0 := by
  have text : textOf 128 l.terminated = e.line :=
    shows.terminated.text shows.noZero (Nat.lt_succ_of_le shows.short)
  have typingEnd := (strncpy_outside (s := e.line) (Nat.le_refl 127)).trans shows.typingEnd
  rw [text]
  refine ⟨Holds.text ⟨?_, ?_⟩ shows.noZero (Nat.lt_succ_of_le shows.short), typingEnd⟩
  · have begins := strncpy_begins l.typingBuf e.line 127
    rwa [List.take_of_length_le shows.short] at begins
  · rcases Nat.lt_or_eq_of_le shows.short with less | full
    · exact (strncpy_holds l.typingBuf less).2
    · rw [full]
      exact typingEnd

theorem up_shows (shows : Shows s l e) : Shows s (l.up 128 s) e.up := by
  obtain ⟨written, remembers⟩ := shows.remembers
  have length := remembers.length
  unfold Line.up Editor.up
  rw [shows.offset]
  by_cases older : e.place < e.history.length
  · obtain ⟨-, noZero, short⟩ := remembers.entry_stored older
    rw [if_pos (by omega), List.getElem?_eq_getElem older]
    dsimp only
    by_cases bottom : e.place = 0
    · obtain ⟨saved, typingEnd⟩ := shows.left
      rw [if_pos bottom, if_pos bottom]
      obtain ⟨begins, cursor⟩ := recall_begins
        { buffer := l.terminated, cursorPos := l.cursorPos, historyOffset := e.place + 1,
          typingBuf := strncpy l.typingBuf (textOf 128 l.terminated) 127 }
        _ noZero short (remembers.entry_text older)
      exact ⟨⟨written, remembers⟩, begins, cursor, noZero, short, rfl, older,
        fun _ => ⟨saved, shows.noZero, shows.short⟩, typingEnd⟩
    · rw [if_neg bottom, if_neg bottom]
      obtain ⟨begins, cursor⟩ := recall_begins { l with historyOffset := e.place + 1 } _ noZero short
        (remembers.entry_text older)
      exact ⟨⟨written, remembers⟩, begins, cursor, noZero, short, rfl, older, fun _ => shows.saved bottom,
        shows.typingEnd⟩
  · rw [if_neg (by omega), List.getElem?_eq_none (by omega)]
    exact shows

theorem down_shows (shows : Shows s l e) : Shows s (l.down 128 s) e.down := by
  obtain ⟨written, remembers⟩ := shows.remembers
  have inside := shows.inside
  unfold Line.down Editor.down
  rw [shows.offset]
  match place : e.place with
  | 0 => exact shows
  | 1 =>
    obtain ⟨text, noZero, short⟩ := shows.saved (by omega)
    obtain ⟨begins, cursor⟩ := recall_begins { l with historyOffset := 0 } l.typingBuf noZero short text
    exact ⟨⟨written, remembers⟩, begins, cursor, noZero, short, rfl, Nat.zero_le _, fun some => absurd rfl some,
      shows.typingEnd⟩
  | k + 2 =>
    have older : k < e.history.length := by omega
    obtain ⟨-, noZero, short⟩ := remembers.entry_stored older
    obtain ⟨begins, cursor⟩ := recall_begins { l with historyOffset := k + 1 } _ noZero short
      (remembers.entry_text older)
    have entry : e.history[k]?.getD [] = e.history[k] := by rw [List.getElem?_eq_getElem older, Option.getD_some]
    change Shows s ({ l with historyOffset := k + 1 }.recall 128 (s.entry (k + 1)))
      { e with line := e.history[k]?.getD [], place := k + 1 }
    rw [entry]
    exact ⟨⟨written, remembers⟩, begins, cursor, noZero, short, rfl, older,
      fun _ => shows.saved (by omega), shows.typingEnd⟩

theorem putAll_shows {more : List UInt8} (shows : Shows s l e) (noZero : 0 ∉ more)
    (room : e.line.length + more.length ≤ 127) :
    Shows s (more.foldl Line.put l) { e with line := e.line ++ more } := by
  induction more generalizing l e with
  | nil => rwa [List.append_nil]
  | cons c more ih =>
    rw [List.length_cons] at room
    have put := put_shows shows (fun zero : c = 0 => noZero (zero ▸ List.mem_cons_self)) (by omega)
    have all := ih put (fun zero => noZero (List.mem_cons_of_mem _ zero))
      (by rw [List.length_append, List.length_singleton]; omega)
    rwa [List.append_assoc] at all

/-- Tab adds to the line, and only `comp_match` changes beside it. -/
theorem tab_shows (shows : Shows s l e) (d : Directories) :
    ∃ more, Shows (l.tab 128 s d).1 (l.tab 128 s d).2 { e with line := e.line ++ more } := by
  unfold Line.tab
  extract_lets start word search done more typed
  split
  · obtain ⟨written, remembers⟩ := shows.remembers
    have kept (compMatch : Nat → UInt8) : Remembers { s with compMatch := compMatch } e.history written :=
      { remembers with }
    have noZero : 0 ∉ more := fun zero =>
      textOf_noZero _ _ (List.drop_subset _ _ (List.take_subset _ _ zero))
    have added := putAll_shows shows noZero
      (by
        have few : more.length ≤ 128 - 1 - l.cursorPos := List.length_take_le _ _
        have cursor := shows.cursor
        have short := shows.short
        omega)
    by_cases some : 0 < done.compMatchCount
    · have ended := added.terminated.1
      rw [if_pos some]
      exact ⟨more, { added with remembers := ⟨written, kept _⟩, begins := ended }⟩
    · rw [if_neg some]
      refine ⟨[], ?_⟩
      rw [List.append_nil]
      exact { shows with remembers := ⟨written, kept _⟩ }
  · refine ⟨[], ?_⟩
    rwa [List.append_nil]

/-! ## Sessions -/

/-- Where the press is none of the letters that Ctrl gives a meaning. -/
theorem meant_plain {p : Press} (plain : p.key < 0x20 ∨ 0x7E < p.key) : p.meant = p.key := by
  unfold Press.meant
  split
  · have letters : ∀ letter : UInt16, 0x20 ≤ letter → letter ≤ 0x7E → p.key ≠ letter := by
      intro letter low high same
      subst same
      exact plain.elim (fun less => UInt16.not_lt.mpr low less) (fun more => UInt16.not_lt.mpr high more)
    simp [letters]
  · rfl

theorem stands_meant {p : Press} {key : Key} (stands : Stands p key) :
    match key with
    | .char c => ¬p.ctrlHeld ∧ p.meant = c.1.toUInt16
    | .backspace => p.meant = 0x08 ∨ p.meant = 0x7F
    | .up => p.meant = keyUp
    | .down => p.meant = keyDown
    | .enter => p.meant = 0x0A ∨ p.meant = 0x0D := by
  cases key with
  | char c => exact ⟨stands.1, (if_neg stands.1).trans stands.2⟩
  | backspace =>
    rcases stands with key | key
    · exact Or.inl ((meant_plain (by rw [key]; decide)).trans key)
    · exact Or.inr ((meant_plain (by rw [key]; decide)).trans key)
  | up =>
    rcases stands with key | ⟨ctrl, key⟩
    · exact (meant_plain (by rw [key]; decide)).trans key
    · exact (if_pos ctrl).trans (if_pos key)
  | down =>
    rcases stands with key | ⟨ctrl, key⟩
    · exact (meant_plain (by rw [key]; decide)).trans key
    · refine (if_pos ctrl).trans ((if_neg ?_).trans (if_pos key))
      rcases key with key | key <;> rw [key] <;> decide
  | enter =>
    rcases stands with key | key
    · exact Or.inl ((meant_plain (by rw [key]; decide)).trans key)
    · exact Or.inr ((meant_plain (by rw [key]; decide)).trans key)

/-- A printable character is none of the keys with a name. -/
theorem char_key (c : { c : UInt8 // 0x20 ≤ c ∧ c ≤ 0x7E }) :
    0x20 ≤ c.1.toUInt16 ∧ c.1.toUInt16 ≤ 0x7E := by
  obtain ⟨c, low, high⟩ := c
  rw [UInt8.le_iff_toNat_le] at low high
  rw [UInt16.le_iff_toNat_le, UInt16.le_iff_toNat_le, UInt8.toNat_toUInt16]
  exact ⟨low, high⟩

theorem stands_inner {p : Press} {key : Key} (stands : Stands p key) (inner : key ≠ .enter) :
    ¬(p.meant = 0x0A ∨ p.meant = 0x0D) := by
  have meant := stands_meant stands
  cases key with
  | char c =>
    obtain ⟨low, -⟩ := char_key c
    rw [meant.2]
    rintro (same | same) <;> exact absurd (same ▸ low) (by decide)
  | backspace => rcases meant with key | key <;> rw [key] <;> decide
  | up => rw [meant]; decide
  | down => rw [meant]; decide
  | enter => exact absurd rfl inner

/-- A key that does not end the line. -/
theorem keyPressed_shows (d : Directories) {p : Press} {key : Key} (shows : Shows s l e) (stands : Stands p key)
    (inner : key ≠ .enter) :
    ∃ l', keyPressed 128 d s l p = (s, l') ∧ Shows s l' (e.press key) := by
  have meant := stands_meant stands
  unfold keyPressed
  cases key with
  | char c =>
    obtain ⟨low, high⟩ := char_key c
    have other : ∀ name : UInt16, name < 0x20 ∨ 0x7E < name → p.meant ≠ name := by
      rintro name outside rfl
      rw [meant.2] at outside
      exact outside.elim (fun less => UInt16.not_lt.mpr low less) (fun more => UInt16.not_lt.mpr high more)
    have below : p.meant < 0x80 := meant.2 ▸ UInt16.lt_of_le_of_lt high (by decide)
    rw [if_neg (by simp [other]), if_neg (other _ (by decide)), if_neg (other _ (by decide)),
      if_neg (other _ (by decide)), if_pos ⟨below, meant.1⟩, meant.2, UInt8.toUInt8_toUInt16]
    refine ⟨_, ?_, char_shows shows c⟩
    dsimp only
    split <;> rename_i room
    · rw [if_pos room.2.2]
    · rw [if_neg fun less => room ⟨c.2.1, c.2.2, less⟩]
  | backspace =>
    rw [if_pos meant]
    exact ⟨_, rfl, backspace_shows shows⟩
  | up =>
    dsimp only at meant
    rw [if_neg (by rw [meant]; decide), if_pos meant]
    exact ⟨_, rfl, up_shows shows⟩
  | down =>
    dsimp only at meant
    rw [if_neg (by rw [meant]; decide), if_neg (by rw [meant]; decide), if_pos meant]
    exact ⟨_, rfl, down_shows shows⟩
  | enter => exact absurd rfl inner

/-- Whatever is pressed, the buffer goes on to hold a line. -/
theorem keyPressed_stays (d : Directories) (p : Press) (shows : Shows s l e) :
    ∃ e', Shows (keyPressed 128 d s l p).1 (keyPressed 128 d s l p).2 e' := by
  unfold keyPressed
  split
  · exact ⟨_, backspace_shows shows⟩
  split
  · exact ⟨_, up_shows shows⟩
  split
  · exact ⟨_, down_shows shows⟩
  split
  · exact ⟨_, (tab_shows shows d).choose_spec⟩
  split
  · dsimp only
    split
    · rename_i fits
      exact ⟨_, put_shows shows (fun zero => absurd (zero ▸ fits.1) (by decide)) (shows.cursor ▸ fits.2.2)⟩
    · exact ⟨_, shows⟩
  · exact ⟨_, shows⟩

/-- With any keys the call returns the length of a text that fits its buffer. -/
theorem readLoop_bounded (d : Directories) {presses rest : List Press} {length : Nat} {s' : Shell} (shows : Shows s l e)
    (reads : readLoop 128 d s l presses = some (length, buffer, s', rest)) :
    length ≤ 127 ∧ (textOf 128 buffer).length = length ∧ ∃ history written, Remembers s' history written := by
  induction presses generalizing s l e with
  | nil => cases reads
  | cons p presses ih =>
    rw [readLoop] at reads
    split at reads
    · exact ih shows reads
    split at reads
    · obtain ⟨written, remembers⟩ := shows.remembers
      have holds := shows.terminated
      cases reads
      exact ⟨shows.cursor ▸ shows.short,
        (congrArg List.length (holds.text shows.noZero (Nat.lt_succ_of_le shows.short))).trans shows.cursor.symm,
        _, historyAdd_remembers remembers holds shows.noZero shows.short⟩
    · exact ih (keyPressed_stays d p shows).choose_spec reads

theorem session_inner {key : Key} (inner : key ≠ .enter) (keys : List Key) :
    e.session (key :: keys) = (e.press key).session keys := by
  cases key <;> first | rfl | exact absurd rfl inner

/-- The call returns the first of the lines that Enter ends, or waits where there is none. -/
theorem readLoop_editor (d : Directories) {presses : List Press} {keys : List Key} (shows : Shows s l e)
    (stand : List.Forall₂ Stands (presses.filter (·.key ≠ 0)) keys) :
    (readLoop 128 d s l presses = none ∧ e.session keys = []) ∨
      ∃ line buffer s' rest history written keys',
        readLoop 128 d s l presses = some (line.length, buffer, s', rest) ∧ textOf 128 buffer = line ∧
        e.session keys = line :: Editor.session ⟨[], 0, [], history⟩ keys' ∧ Remembers s' history written ∧
        List.Forall₂ Stands (rest.filter (·.key ≠ 0)) keys' := by
  induction presses generalizing l e keys with
  | nil =>
    cases stand
    exact Or.inl ⟨rfl, rfl⟩
  | cons p presses ih =>
    rw [readLoop]
    by_cases idle : p.key = 0
    · rw [if_pos idle]
      rw [List.filter_cons_of_neg (by simpa using idle)] at stand
      exact ih shows stand
    · rw [if_neg idle]
      rw [List.filter_cons_of_pos (by simpa using idle)] at stand
      cases stand with
      | @cons _ key _ keys stands stand =>
        have meant := stands_meant stands
        by_cases ends : key = .enter
        · subst ends
          obtain ⟨written, remembers⟩ := shows.remembers
          have holds := shows.terminated
          obtain ⟨written', remembers'⟩ := historyAdd_remembers remembers holds shows.noZero shows.short
          rw [if_pos meant, shows.cursor]
          exact Or.inr ⟨e.line, _, _, _, _, written', keys, rfl,
            holds.text shows.noZero (Nat.lt_succ_of_le shows.short), rfl, remembers', stand⟩
        · obtain ⟨l', pressed, shows'⟩ := keyPressed_shows d shows stands ends
          rw [if_neg (stands_inner stands ends), pressed, session_inner ends]
          exact ih shows' stand

theorem shellLines_editor {presses : List Press} {keys : List Key} (remembers : Remembers s history written)
    (stand : List.Forall₂ Stands (presses.filter (·.key ≠ 0)) keys) (calls : List Call) :
    shellLines s calls presses =
      ((Editor.session ⟨[], 0, [], history⟩ keys).take calls.length).map fun line => (line, line.length) := by
  induction calls generalizing s history written presses keys with
  | nil => rfl
  | cons call calls ih =>
    rw [shellLines, shellReadLine]
    rcases readLoop_editor call.directories (start_shows remembers call.buffer) stand with
      ⟨waits, none⟩ | ⟨line, buffer, s', rest, history', written', keys', reads, text, lines, remembers',
      stand'⟩
    · rw [waits, none, List.take_nil]
      rfl
    · rw [reads, lines, List.length_cons, List.take_succ_cons, List.map_cons, ← ih remembers' stand']
      dsimp only
      rw [text]

/-- In any session, and with any times at which no key waits, the calls return the
lines of the editor with their lengths. -/
theorem shellReadLine_editor (calls : List Call) {presses : List Press} {keys : List Key}
    (stand : List.Forall₂ Stands (presses.filter (·.key ≠ 0)) keys) :
    shellLines Shell.start calls presses =
      ((Editor.start.session keys).take calls.length).map fun line => (line, line.length) :=
  shellLines_editor start_remembers stand calls

/-- `l`, `s` and Enter, then Up, Backspace, Up, Down, `x` and Enter. -/
def twoLines : List Press :=
  [⟨0x6C, 0⟩, ⟨0x73, 0⟩, ⟨0, 0⟩, ⟨0x0A, 0⟩, ⟨keyUp, 0⟩, ⟨0x08, 0⟩, ⟨0x70, 0x02⟩,
    ⟨keyDown, 0⟩, ⟨0x78, 0⟩, ⟨0x0A, 0⟩]

def twoKeys : List Key :=
  [.char ⟨0x6C, by decide⟩, .char ⟨0x73, by decide⟩, .enter, .up, .backspace, .up, .down,
    .char ⟨0x78, by decide⟩,
    .enter]

theorem twoLines_stand : List.Forall₂ Stands (twoLines.filter (·.key ≠ 0)) twoKeys := by
  have keys : twoLines.filter (·.key ≠ 0) = twoLines.take 2 ++ twoLines.drop 3 := by decide
  rw [keys]
  refine .cons ?_ (.cons ?_ (.cons ?_ (.cons ?_ (.cons ?_ (.cons ?_ (.cons ?_ (.cons ?_ (.cons ?_ .nil)))))))) <;>
    (unfold Stands; decide)

/-- Calls with the same bytes left over in the buffer and no directories. -/
def threeCalls : List Call := List.replicate 3 ⟨fun _ => 0x41, ⟨[], fun _ => none⟩⟩

theorem shellReadLine_editor_twoLines :
    shellLines Shell.start threeCalls twoLines =
      ((Editor.start.session twoKeys).take threeCalls.length).map fun line => (line, line.length) :=
  shellReadLine_editor threeCalls twoLines_stand

end

end MeowMeowOS.LineEditor

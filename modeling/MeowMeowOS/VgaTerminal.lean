import MeowMeowOS.ByteMemory
import Mathlib.Algebra.Group.Nat.Defs

/-! The text mode terminal. Its 25 rows are a window on a page that grows downwards: what
is printed is written to the page once and for good, and the window follows the cursor.
Lines are broken behind 79 characters. -/
namespace MeowMeowOS.VgaTerminal
open ByteMemory

/-! ## The driver -/

/-- A character and its colours, `vga_entry`. -/
def vgaEntry (uc color : UInt8) : UInt16 := uc.toUInt16 ||| (color.toUInt16 <<< 8)

/-- `terminal_buffer` by cells, the position of the terminal, and the one that the
hardware shows. -/
structure Terminal where
  buffer : Nat → UInt16
  row : Nat
  column : Nat
  color : UInt8
  cursor : Nat

def Terminal.blank (t : Terminal) : UInt16 := vgaEntry 0x20 t.color

def updateCursor (t : Terminal) : Terminal := { t with cursor := (t.row * 80 + t.column) % 2 ^ 16 }

def terminalScrollLocked (t : Terminal) : Terminal :=
  { t with buffer := fun i => if i < 1920 then t.buffer (i + 80) else if i < 2000 then t.blank else t.buffer i }

/-- The step to the next row, which the driver spells out at every place. -/
def nextRow (t : Terminal) : Terminal :=
  if 25 ≤ t.row + 1 then { terminalScrollLocked { t with column := 0, row := t.row + 1 } with row := 24 }
  else { t with column := 0, row := t.row + 1 }

/-- The body that `terminal_putchar` and the loop of `terminal_print` have in common. -/
def printChar (t : Terminal) (c : UInt8) : Terminal :=
  if c = 0x0D then { t with column := 0 }
  else if c = 0x0A then nextRow t
  else if c = 0x09 then
    if 80 ≤ (t.column + 8) / 8 * 8 then nextRow t else { t with column := (t.column + 8) / 8 * 8 }
  else
    let t := if t.column = 79 then nextRow t else t
    let t := { t with
      buffer := fun i => if i = t.row * 80 + t.column then vgaEntry c t.color else t.buffer i
      column := t.column + 1 }
    if t.column = 80 then nextRow t else t

def terminalPutchar (t : Terminal) (c : UInt8) : Terminal := updateCursor (printChar t c)

/-- The bytes in front of the final zero. -/
def terminalPrint (t : Terminal) (data : List UInt8) : Terminal := updateCursor (data.foldl printChar t)

def terminalPrintln (t : Terminal) (data : List UInt8) : Terminal := terminalPutchar (terminalPrint t data) 0x0A

def terminalBackspace (t : Terminal) : Terminal :=
  if t.column = 0 ∧ t.row = 0 then t
  else
    let t := if 0 < t.column then { t with column := t.column - 1 } else { t with row := t.row - 1, column := 79 }
    updateCursor { t with buffer := fun i => if i = t.row * 80 + t.column then t.blank else t.buffer i }

def terminalClear (t : Terminal) : Terminal :=
  updateCursor { t with
    row := 0
    column := 0
    buffer := fun i => if i < 2000 then t.blank else t.buffer i }

/-- Light grey on black. -/
def terminalInitialize (buffer : Nat → UInt16) : Terminal := terminalClear ⟨buffer, 0, 0, 0x07, 0⟩

inductive Call
  | putchar (c : UInt8)
  | print (data : List UInt8)
  | println (data : List UInt8)
  | backspace
  | clear

def Call.run (t : Terminal) : Call → Terminal
  | .putchar c => terminalPutchar t c
  | .print data => terminalPrint t data
  | .println data => terminalPrintln t data
  | .backspace => terminalBackspace t
  | .clear => terminalClear t

/-! ## The page -/

/-- Rows without end. The window shows 25 of them, from `top` on. -/
structure Page where
  cells : Nat → Nat → UInt16
  top : Nat
  row : Nat
  column : Nat

def Page.empty (blank : UInt16) : Page := ⟨fun _ _ => blank, 0, 0, 0⟩

/-- Nothing is moved: the window goes down when the cursor leaves it. -/
def Page.down (p : Page) : Page := { p with row := p.row + 1, column := 0, top := max p.top (p.row + 1 - 24) }

def Page.put (p : Page) (cell : UInt16) : Page :=
  { p with cells := fun r c => if r = p.row ∧ c = p.column then cell else p.cells r c }

def Page.char (color : UInt8) (p : Page) (c : UInt8) : Page :=
  if c = 0x0D then { p with column := 0 }
  else if c = 0x0A then p.down
  else if c = 0x09 then
    if 80 ≤ (p.column + 8) / 8 * 8 then p.down else { p with column := (p.column + 8) / 8 * 8 }
  else
    let p := if p.column = 79 then p.down else p
    { p.put (vgaEntry c color) with column := p.column + 1 }

/-- The window's first cell is as far back as one gets. -/
def Page.back (blank : UInt16) (p : Page) : Page :=
  if p.column = 0 ∧ p.row = p.top then p
  else
    let p := if 0 < p.column then { p with column := p.column - 1 } else { p with row := p.row - 1, column := 79 }
    p.put blank

def Call.page (color : UInt8) (p : Page) : Call → Page
  | .putchar c => p.char color c
  | .print data => data.foldl (Page.char color) p
  | .println data => (data.foldl (Page.char color) p).char color 0x0A
  | .backspace => p.back (vgaEntry 0x20 color)
  | .clear => Page.empty (vgaEntry 0x20 color)

/-- The terminal shows the window, and below it the page is blank. -/
structure Shows (t : Terminal) (p : Page) : Prop where
  row : p.row = p.top + t.row
  column : p.column = t.column
  rows : t.row < 25
  columns : t.column < 80
  window : ∀ r < 25, ∀ c < 80, t.buffer (r * 80 + c) = p.cells (p.top + r) c
  below : ∀ r, p.top + 25 ≤ r → ∀ c, p.cells r c = t.blank

section
variable {t : Terminal} {p : Page} {c color : UInt8}

theorem nextRow_shows (shows' : Shows t p) : Shows (nextRow t) p.down := by
  obtain ⟨row, column, rows, columns, window, below⟩ := shows'
  unfold nextRow Page.down
  split
  · rename_i last
    have here : t.row = 24 := by omega
    refine ⟨by dsimp only; omega, rfl, Nat.lt_succ_self 24, Nat.succ_pos 79, fun r small c inside => ?_,
      fun r under c => ?_⟩
    · have top : max p.top (p.row + 1 - 24) = p.top + 1 := by omega
      simp only [terminalScrollLocked, top]
      by_cases lastRow : r = 24
      · rw [if_neg (by omega), if_pos (by omega), below _ (by omega)]
        rfl
      · rw [if_pos (by omega), show r * 80 + c + 80 = (r + 1) * 80 + c by omega, window _ (by omega) _ inside]
        congr 1
        omega
    · dsimp only at under
      exact below r (by omega) c
  · have top : max p.top (p.row + 1 - 24) = p.top := by omega
    simp only [top]
    exact ⟨by dsimp only; omega, rfl, by dsimp only; omega, Nat.succ_pos 79, window, below⟩

/-- One cell on both sides. -/
theorem put_shows (shows' : Shows t p) (cell : UInt16) :
    Shows { t with buffer := fun i => if i = t.row * 80 + t.column then cell else t.buffer i } (p.put cell) := by
  obtain ⟨row, column, rows, columns, window, below⟩ := shows'
  refine ⟨row, column, rows, columns, fun r small c inside => ?_, fun r under c => ?_⟩
  · dsimp only [Page.put]
    by_cases here : r = t.row ∧ c = t.column
    · rw [if_pos (by omega), if_pos (by omega)]
    · rw [if_neg (by omega), if_neg (by omega)]
      exact window r small c inside
  · dsimp only [Page.put] at under ⊢
    rw [if_neg (by omega)]
    exact below r under c

theorem printChar_shows (shows' : Shows t p) (colors : t.color = color) (c : UInt8) :
    Shows (printChar t c) (p.char color c) := by
  have column := shows'.column
  unfold printChar Page.char
  by_cases home : c = 0x0D
  · rw [if_pos home, if_pos home]
    exact { shows' with column := rfl, columns := Nat.succ_pos 79 }
  · rw [if_neg home, if_neg home]
    by_cases newline : c = 0x0A
    · rw [if_pos newline, if_pos newline]
      exact nextRow_shows shows'
    · rw [if_neg newline, if_neg newline]
      by_cases tab : c = 0x09
      · rw [if_pos tab, if_pos tab, column]
        split
        · exact nextRow_shows shows'
        · rename_i further
          exact { shows' with column := rfl, columns := by dsimp only; omega }
      · rw [if_neg tab, if_neg tab, column]
        -- the column 79 is never written to, so the last test never holds
        have wrapped : ∃ u q, u = (if t.column = 79 then nextRow t else t) ∧
            q = (if t.column = 79 then p.down else p) ∧ Shows u q ∧ u.column < 79 ∧ u.color = color := by
          refine ⟨_, _, rfl, rfl, ?_⟩
          split
          · refine ⟨nextRow_shows shows', ?_, ?_⟩
            · unfold nextRow
              split <;> exact Nat.succ_pos 78
            · unfold nextRow
              split <;> exact colors
          · have columns := shows'.columns
            exact ⟨shows', by omega, colors⟩
        obtain ⟨u, q, left, right, shown, small, colors'⟩ := wrapped
        dsimp only
        rw [← left, ← right, if_neg (by omega), ← colors']
        have written := put_shows shown (vgaEntry c u.color)
        exact { written with
          column := congrArg (· + 1) shown.column
          columns := by
            dsimp only
            omega }

theorem printChar_color (t : Terminal) (c : UInt8) : (printChar t c).color = t.color := by
  have next : ∀ t, (nextRow t).color = t.color := by
    intro t
    unfold nextRow
    split <;> rfl
  unfold printChar
  dsimp only
  split_ifs <;> simp [next]

theorem foldl_shows (data : List UInt8) (shows' : Shows t p) (colors : t.color = color) :
    Shows (data.foldl printChar t) (data.foldl (Page.char color) p) ∧ (data.foldl printChar t).color = color := by
  induction data generalizing t p with
  | nil => exact ⟨shows', colors⟩
  | cons c rest ih => exact ih (printChar_shows shows' colors c) ((printChar_color t c).trans colors)

theorem updateCursor_shows (shows' : Shows t p) : Shows (updateCursor t) p :=
  ⟨shows'.row, shows'.column, shows'.rows, shows'.columns, shows'.window, shows'.below⟩

theorem backspace_shows (shows' : Shows t p) (colors : t.color = color) :
    Shows (terminalBackspace t) (p.back (vgaEntry 0x20 color)) := by
  have row := shows'.row
  have column := shows'.column
  have corner : (p.column = 0 ∧ p.row = p.top) ↔ t.column = 0 ∧ t.row = 0 := by omega
  unfold terminalBackspace Page.back
  by_cases first : t.column = 0 ∧ t.row = 0
  · rw [if_pos first, if_pos (corner.mpr first)]
    exact shows'
  · rw [if_neg first, if_neg (corner.not.mpr first), column]
    dsimp only
    have columns := shows'.columns
    have rows := shows'.rows
    have moved : Shows
      (if 0 < t.column then { t with column := t.column - 1 } else { t with row := t.row - 1, column := 79 })
        (if 0 < t.column then { p with column := t.column - 1 } else { p with row := p.row - 1, column := 79 }) := by
      split
      · exact { shows' with column := rfl, columns := by dsimp only; omega }
      · exact { shows' with
          row := by dsimp only; omega
          column := rfl
          rows := by dsimp only; omega
          columns := Nat.lt_succ_self 79 }
    have same : (if 0 < t.column then { t with column := t.column - 1 }
        else { t with row := t.row - 1, column := 79 } : Terminal).blank = vgaEntry 0x20 color := by
      rw [← colors]
      split <;> rfl
    rw [← same]
    exact updateCursor_shows (put_shows moved _)

theorem clear_shows (t : Terminal) (colors : t.color = color) :
    Shows (terminalClear t) (Page.empty (vgaEntry 0x20 color)) := by
  refine ⟨rfl, rfl, Nat.succ_pos 24, Nat.succ_pos 79, fun r small c inside => ?_, fun r _ c => ?_⟩
  · have cell : r * 80 + c < 2000 := by omega
    simp only [terminalClear, updateCursor, if_pos cell, Terminal.blank, colors]
    rfl
  · simp only [terminalClear, updateCursor, Terminal.blank, colors]
    rfl

theorem call_shows (shows' : Shows t p) (colors : t.color = color) (call : Call) :
    Shows (call.run t) (call.page color p) ∧ (call.run t).color = color := by
  cases call with
  | putchar c => exact ⟨updateCursor_shows (printChar_shows shows' colors c), (printChar_color t c).trans colors⟩
  | print data => exact (foldl_shows data shows' colors).imp_left updateCursor_shows
  | println data =>
    obtain ⟨shown, colors'⟩ := foldl_shows data shows' colors
    have shown' := printChar_shows (updateCursor_shows shown) (show (updateCursor _).color = color from colors') 0x0A
    exact ⟨updateCursor_shows shown', (printChar_color (updateCursor _) 0x0A).trans colors'⟩
  | backspace =>
    refine ⟨backspace_shows shows' colors, ?_⟩
    change (terminalBackspace t).color = color
    unfold terminalBackspace
    split
    · exact colors
    · dsimp only [updateCursor]
      split <;> exact colors
  | clear => exact ⟨clear_shows t colors, colors⟩

/-! ## What the driver leaves alone -/

/-- Nothing behind the 2000 cells is written. -/
def Behind (b : Nat → UInt16) (t : Terminal) : Prop := ∀ i, 2000 ≤ i → t.buffer i = b i

theorem nextRow_behind {b : Nat → UInt16} (held : Behind b t) : Behind b (nextRow t) := by
  intro i behind
  unfold nextRow terminalScrollLocked
  split
  · dsimp only
    rw [if_neg (by omega), if_neg (by omega)]
    exact held i behind
  · exact held i behind

theorem nextRow_place (rows : t.row < 25) : (nextRow t).row < 25 ∧ (nextRow t).column = 0 := by
  unfold nextRow
  split
  · exact ⟨Nat.lt_succ_self 24, rfl⟩
  · exact ⟨by dsimp only; omega, rfl⟩

theorem write_behind {b : Nat → UInt16} (held : Behind b t) (rows : t.row < 25) (columns : t.column < 80)
    (cell : UInt16) :
    Behind b { t with buffer := fun i => if i = t.row * 80 + t.column then cell else t.buffer i } := by
  intro i behind
  dsimp only
  rw [if_neg (by omega)]
  exact held i behind

theorem printChar_behind {b : Nat → UInt16} (held : Behind b t) (rows : t.row < 25) (columns : t.column < 80)
    (c : UInt8) :
    Behind b (printChar t c) := by
  unfold printChar
  split
  · exact held
  · split
    · exact nextRow_behind held
    · split
      · split
        · exact nextRow_behind held
        · exact held
      · have wrapped : ∃ u, u = (if t.column = 79 then nextRow t else t) ∧ Behind b u ∧ u.row < 25 ∧
          u.column < 79 := by
          refine ⟨_, rfl, ?_⟩
          split
          · obtain ⟨row, column⟩ := nextRow_place rows
            exact ⟨nextRow_behind held, row, by omega⟩
          · exact ⟨held, rows, by omega⟩
        obtain ⟨u, same, held', rows', columns'⟩ := wrapped
        dsimp only
        rw [← same]
        have written : Behind b { u with
            buffer := fun i => if i = u.row * 80 + u.column then vgaEntry c u.color else u.buffer i
            column := u.column + 1 } := write_behind held' rows' (by omega) _
        split
        · exact nextRow_behind written
        · exact written

theorem foldl_behind {b : Nat → UInt16} (data : List UInt8) (held : Behind b t) (shows' : Shows t p) :
    Behind b (data.foldl printChar t) := by
  induction data generalizing t p with
  | nil => exact held
  | cons c rest ih =>
    exact ih (printChar_behind held shows'.rows shows'.columns c) (printChar_shows shows' rfl c)

theorem call_behind {b : Nat → UInt16} (held : Behind b t) (shows' : Shows t p) (call : Call) :
    Behind b (call.run t) := by
  cases call with
  | putchar c => exact printChar_behind held shows'.rows shows'.columns c
  | print data => exact foldl_behind data held shows'
  | println data =>
    have shown := (foldl_shows data shows' rfl).1
    exact printChar_behind (t := updateCursor _) (foldl_behind data held shows') shown.rows shown.columns 0x0A
  | backspace =>
    have rows := shows'.rows
    have columns := shows'.columns
    change Behind b (terminalBackspace t)
    unfold terminalBackspace
    split
    · exact held
    · refine write_behind ?_ ?_ ?_ _
      · split <;> exact held
      · split <;> (dsimp only; omega)
      · split <;> (dsimp only; omega)
  | clear =>
    intro i behind
    change (if i < 2000 then t.blank else t.buffer i) = b i
    rw [if_neg (by omega)]
    exact held i behind

/-- The hardware shows the position of the terminal. -/
def Marked (t : Terminal) : Prop := t.cursor = t.row * 80 + t.column

theorem updateCursor_marked (rows : t.row < 25) (columns : t.column < 80) : Marked (updateCursor t) :=
  Nat.mod_eq_of_lt (by omega)

theorem call_marked (marked : Marked t) (shows' : Shows t p) (call : Call) : Marked (call.run t) := by
  have shown := (call_shows shows' rfl call).1
  cases call with
  | putchar c => exact updateCursor_marked shown.rows shown.columns
  | print data => exact updateCursor_marked shown.rows shown.columns
  | println data => exact updateCursor_marked shown.rows shown.columns
  | backspace =>
    have rows := shown.rows
    have columns := shown.columns
    change (terminalBackspace t).row < 25 at rows
    change (terminalBackspace t).column < 80 at columns
    change Marked (terminalBackspace t)
    unfold terminalBackspace at rows columns ⊢
    split at rows
    · rename_i first
      rw [if_pos first]
      exact marked
    · rename_i further
      rw [if_neg further] at columns ⊢
      exact updateCursor_marked rows columns
  | clear => exact updateCursor_marked shown.rows shown.columns

/-- After any calls the screen is the window on the page that they write, the cursor stands
where the next character goes, and nothing else in memory has changed. -/
theorem calls_show (b : Nat → UInt16) (calls : List Call) :
    Shows (calls.foldl Call.run (terminalInitialize b))
    (calls.foldl (Call.page 0x07) (Page.empty (vgaEntry 0x20 0x07))) ∧
      Marked (calls.foldl Call.run (terminalInitialize b)) ∧
        Behind b (calls.foldl Call.run (terminalInitialize b)) := by
  have steps : ∀ (calls : List Call) (t : Terminal) (p : Page), Shows t p → t.color = 0x07 → Marked t →
    Behind b t →
      Shows (calls.foldl Call.run t) (calls.foldl (Call.page 0x07) p) ∧ Marked (calls.foldl Call.run t) ∧
        Behind b (calls.foldl Call.run t) := by
    intro calls
    induction calls with
    | nil => exact fun t p shown _ marked behind => ⟨shown, marked, behind⟩
    | cons call rest ih =>
      intro t p shown colors marked behind
      obtain ⟨shown', colors'⟩ := call_shows shown colors call
      exact ih _ _ shown' colors' (call_marked marked shown call) (call_behind behind shown call)
  have start : Shows (terminalInitialize b) (Page.empty (vgaEntry 0x20 0x07)) := clear_shows _ rfl
  refine steps calls _ _ start rfl (updateCursor_marked (Nat.succ_pos 24) (Nat.succ_pos 79)) fun i behind => ?_
  change (if i < 2000 then _ else b i) = b i
  rw [if_neg (by omega)]

/-! ## Text -/

/-- The rows above and the last one, with one more character: a row ends at a newline or
when another character follows its 79th. -/
def layOut (rows : List (List UInt8) × List UInt8) (c : UInt8) : List (List UInt8) × List UInt8 :=
  if c = 0x0A then (rows.1 ++ [rows.2], [])
  else if rows.2.length = 79 then (rows.1 ++ [rows.2], [c])
  else (rows.1, rows.2 ++ [c])

/-- The page with these rows and nothing else. -/
structure Holds (color : UInt8) (p : Page) (rows : List (List UInt8) × List UInt8) : Prop where
  row : p.row = rows.1.length
  column : p.column = rows.2.length
  top : p.top = rows.1.length - 24
  short : rows.2.length ≤ 79
  cells : ∀ r c, p.cells r c = match ((rows.1 ++ [rows.2])[r]?.getD [])[c]? with
    | some char => vgaEntry char color
    | none => vgaEntry 0x20 color

theorem down_holds {rows : List (List UInt8) × List UInt8} (held : Holds color p rows) :
    Holds color p.down (rows.1 ++ [rows.2], []) := by
  obtain ⟨row, column, top, short, cells⟩ := held
  refine ⟨?_, rfl, ?_, Nat.zero_le 79, fun r c => ?_⟩
  · simp [Page.down, row]
  · simp only [Page.down, row, top, List.length_append, List.length_singleton]
    omega
  · change p.cells r c = _
    rw [cells]
    have rowsLength : (rows.1 ++ [rows.2]).length = rows.1.length + 1 := List.length_append
    by_cases inside : r < rows.1.length + 1
    · rw [show (rows.1 ++ [rows.2] ++ [[]])[r]? = (rows.1 ++ [rows.2])[r]? from List.getElem?_append_left (by omega)]
    · have beyond : (rows.1 ++ [rows.2])[r]? = none := List.getElem?_eq_none (by omega)
      have empty : ((rows.1 ++ [rows.2] ++ [[]])[r]?.getD ([] : List UInt8)) = [] := by
        rw [List.getElem?_append_right (by omega)]
        cases r - (rows.1 ++ [rows.2]).length <;> rfl
      dsimp only
      rw [beyond, empty]
      rfl

theorem put_holds {rows : List (List UInt8) × List UInt8} (held : Holds color p rows) (small : rows.2.length < 79)
    (c : UInt8) : Holds color { p.put (vgaEntry c color) with column := p.column + 1 } (rows.1, rows.2 ++ [c]) := by
  obtain ⟨row, column, top, short, cells⟩ := held
  refine ⟨row, by simp [column], top, by rw [List.length_append]; exact small, fun r k => ?_⟩
  dsimp only [Page.put]
  rw [cells]
  by_cases inside : r < rows.1.length
  · rw [if_neg (by omega), List.getElem?_append_left inside, List.getElem?_append_left inside]
  · by_cases last : r = rows.1.length
    · subst last
      simp only [List.getElem?_append_right (Nat.le_refl _), Nat.sub_self, List.getElem?_cons_zero, Option.getD_some]
      by_cases here : k = rows.2.length
      · subst here
        rw [if_pos ⟨row.symm, column.symm⟩]
        simp
      · rw [if_neg (fun both => here (both.2.trans column))]
        by_cases before : k < rows.2.length
        · rw [List.getElem?_append_left before]
        · rw [List.getElem?_eq_none (by omega), List.getElem?_eq_none (by simp; omega)]
    · have beyond : ∀ last : List UInt8, (rows.1 ++ [last])[r]? = none := fun last =>
        List.getElem?_eq_none (by rw [List.length_append, List.length_singleton]; omega)
      rw [if_neg (by omega), beyond, beyond]

theorem char_holds {rows : List (List UInt8) × List UInt8} (held : Holds color p rows) (c : UInt8)
    (plain : c ≠ 0x0D ∧ c ≠ 0x09) : Holds color (p.char color c) (layOut rows c) := by
  have column := held.column
  have short := held.short
  unfold Page.char layOut
  rw [if_neg plain.1]
  by_cases newline : c = 0x0A
  · rw [if_pos newline, if_pos newline]
    exact down_holds held
  · rw [if_neg newline, if_neg newline, if_neg plain.2, column]
    by_cases full : rows.2.length = 79
    · rw [if_pos full, if_pos full]
      exact put_holds (down_holds held) (Nat.succ_pos 78) c
    · rw [if_neg full, if_neg full]
      exact put_holds held (by omega) c

/-- A text without tabs and carriage returns stands on the screen row by row, the last 25 of
its rows if there are more. -/
theorem print_text (b : Nat → UInt16) (text : List UInt8) (plain : ∀ c ∈ text, c ≠ 0x0D ∧ c ≠ 0x09) :
    (terminalPrint (terminalInitialize b) text).row = min (text.foldl layOut ([], [])).1.length 24 ∧
    (terminalPrint (terminalInitialize b) text).column = (text.foldl layOut ([], [])).2.length ∧
    ∀ r < 25, ∀ c < 80, (terminalPrint (terminalInitialize b) text).buffer (r * 80 + c) =
      let rows := text.foldl layOut ([], [])
      match ((rows.1 ++ [rows.2])[rows.1.length - 24 + r]?.getD [])[c]? with
      | some char => vgaEntry char 0x07
      | none => vgaEntry 0x20 0x07 := by
  have laid : ∀ (text : List UInt8) (p : Page) rows, (∀ c ∈ text, c ≠ 0x0D ∧ c ≠ 0x09) →
    Holds 0x07 p rows →
      Holds 0x07 (text.foldl (Page.char 0x07) p) (text.foldl layOut rows) := by
    intro text
    induction text with
    | nil => exact fun p rows _ held => held
    | cons c rest ih =>
      intro p rows plain held
      exact ih _ _ (fun c member => plain c (List.mem_cons_of_mem _ member))
        (char_holds held c (plain c List.mem_cons_self))
  have start : Holds 0x07 (Page.empty (vgaEntry 0x20 0x07)) ([], []) := by
    refine ⟨rfl, rfl, rfl, Nat.zero_le 79, fun r c => ?_⟩
    cases r <;> simp [Page.empty]
  have held := laid text _ _ plain start
  have shown : Shows (text.foldl printChar (terminalInitialize b))
      (text.foldl (Page.char 0x07) (Page.empty (vgaEntry 0x20 0x07))) :=
    (foldl_shows text (clear_shows ⟨b, 0, 0, 0x07, 0⟩ rfl) rfl).1
  obtain ⟨row, column, rows, -, window, -⟩ := shown
  have place := held.row
  have top := held.top
  refine ⟨?_, column.symm.trans held.column, fun r small c inside => ?_⟩
  · change (text.foldl printChar (terminalInitialize b)).row = _
    omega
  · dsimp only
    rw [← top]
    exact (window r small c inside).trans (held.cells _ _)

end

theorem print_text_hi : (terminalPrint (terminalInitialize fun _ => 0) [0x68, 0x69, 0x0A]).row = 1 ∧
    (terminalPrint (terminalInitialize fun _ => 0) [0x68, 0x69, 0x0A]).column = 0 ∧
    (terminalPrint (terminalInitialize fun _ => 0) [0x68, 0x69, 0x0A]).buffer 1 = vgaEntry 0x69 0x07 := by
  obtain ⟨row, column, cells⟩ := print_text (fun _ => 0) [0x68, 0x69, 0x0A] (by decide +kernel)
  exact ⟨row, column, cells 0 (by decide) 1 (by decide)⟩

end MeowMeowOS.VgaTerminal

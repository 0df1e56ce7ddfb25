import Mathlib.Algebra.Group.Nat.Defs
import Mathlib.Data.List.Basic
import Mathlib.Logic.Function.Basic

/-! The descriptor buffers of `stdio.c` over any kernel that answers the system
calls. A `NULL` buffer is a call with no bytes: both return 0 before anything
else happens. -/
namespace MeowMeowOS.StdioBuffers

/-- The `int` or `long` that holds the low 32 bits of a number. -/
def toInt (x : Int) : Int := Int.bmod x (2 ^ 32)

theorem toInt_of_lt (small : n < 2 ^ 31) : toInt (n : Nat) = n := by
  unfold toInt
  rw [Int.bmod_def]
  omega

/-- A word whose `int` is positive is that `int`. -/
theorem toInt_of_pos (word : n < 2 ^ 32) (positive : 0 < toInt (n : Nat)) : toInt (n : Nat) = n := by
  unfold toInt at *
  rw [Int.bmod_def] at *
  omega

/-- The bytes at a user buffer that a `size_t` counts. -/
def Buffer := { bytes : List UInt8 // bytes.length < 2 ^ 32 }

/-- The system calls of the library, each with its result in `eax` read as an
`int`. A read also gives the bytes it stored. -/
structure Kernel (κ : Type*) where
  sysRead : κ → Int → Nat → (Int × List UInt8) × κ
  sysWrite : κ → Int → List UInt8 → Int × κ
  sysLseek : κ → Int → Int → Int → Int × κ
  sysOpen : κ → String → Int × κ
  sysClose : κ → Int → Int × κ
  sysDup : κ → Int → Int × κ
  sysDup2 : κ → Int → Int → Int × κ
  sysExit : κ → Int → κ

def libcMaxFds : Int := 32
def stdioBufSize : Nat := 4096
def seekSet : Int := 0
def seekCur : Int := 1
def seekEnd : Int := 2

/-- `file_buffer_t`: `readBuffer` holds `read_tail` bytes and `writeBuffer`
`write_count`. -/
structure FileBuffer where
  readBuffer : List UInt8
  readHead : Nat
  eof : Bool
  writeBuffer : List UInt8

/-- The bytes from `read_head` to `read_tail`. -/
def FileBuffer.unread (fb : FileBuffer) : List UInt8 := fb.readBuffer.drop fb.readHead

/-- `read_head = 0; read_tail = 0; eof = false` -/
def FileBuffer.dropRead (fb : FileBuffer) : FileBuffer :=
  { fb with readBuffer := [], readHead := 0, eof := false }

/-- A process: the kernel below it and `fd_buffers`. -/
structure Libc (κ : Type*) where
  kernel : κ
  fdBuffers : Int → FileBuffer

def Libc.setBuffer (s : Libc κ) (fd : Int) (fb : FileBuffer) : Libc κ :=
  { s with fdBuffers := Function.update s.fdBuffers fd fb }

/-- The static buffers of a program that has just started. -/
def Libc.start (kernel : κ) : Libc κ := ⟨kernel, fun _ => ⟨[], 0, false, []⟩⟩

/-- The descriptor has an entry in `fd_buffers`. -/
abbrev Buffered (fd : Int) : Prop := 0 ≤ fd ∧ fd < libcMaxFds

section
variable (sys : Kernel κ)

def fflush (s : Libc κ) (fd : Int) : Int × Libc κ :=
  if ¬ Buffered fd then (0, s) else
    let fb := s.fdBuffers fd
    if 0 < fb.writeBuffer.length then
      let (ret, kernel) := sys.sysWrite s.kernel fd fb.writeBuffer
      let s := { s with kernel := kernel }.setBuffer fd { fb with writeBuffer := [] }
      (if 0 ≤ ret then 0 else -1, s)
    else (0, s)

def flushFdBuffer (s : Libc κ) (fd : Int) : Libc κ :=
  if Buffered fd then
    let s := (fflush sys s fd).2
    s.setBuffer fd (s.fdBuffers fd).dropRead
  else s

def openFile (s : Libc κ) (pathname : String) : Int × Libc κ :=
  let (fd, kernel) := sys.sysOpen s.kernel pathname
  let s := { s with kernel := kernel }
  (fd, if Buffered fd then flushFdBuffer sys s fd else s)

def close (s : Libc κ) (fd : Int) : Int × Libc κ :=
  let s := flushFdBuffer sys s fd
  let (ret, kernel) := sys.sysClose s.kernel fd
  (ret, { s with kernel := kernel })

/-- `while (read_head < read_tail && bytes_read < count)`: the bytes copied and
the buffer left, for the `n` bytes that are still wanted. -/
def copyUnread : Nat → FileBuffer → List UInt8 × FileBuffer
  | 0, fb => ([], fb)
  | n + 1, fb =>
    match fb.readBuffer[fb.readHead]? with
    | none => ([], fb)
    | some byte =>
      let (copied, fb) := copyUnread n { fb with readHead := fb.readHead + 1 }
      (byte :: copied, fb)

/-- The result and the bytes stored at the caller's buffer. -/
def read (s : Libc κ) (fd : Int) (count : Nat) : (Int × List UInt8) × Libc κ :=
  if count = 0 then ((0, []), s)
  else if ¬ Buffered fd then
    let ((r, stored), kernel) := sys.sysRead s.kernel fd count
    ((r, stored), { s with kernel := kernel })
  else
    let s := if 0 < (s.fdBuffers fd).writeBuffer.length then (fflush sys s fd).2 else s
    let (copied, fb) := copyUnread count (s.fdBuffers fd)
    let s := s.setBuffer fd fb
    if copied.length = count then ((toInt copied.length, copied), s)
    else if stdioBufSize ≤ count - copied.length then
      let ((r, stored), kernel) := sys.sysRead s.kernel fd (count - copied.length)
      let s := { s with kernel := kernel }
      if 0 < r then ((toInt (copied.length + r), copied ++ stored), s)
      else if copied.length = 0 then ((r, copied ++ stored), s)
      else ((toInt copied.length, copied ++ stored), s)
    else if ¬ fb.eof then
      let ((r, stored), kernel) := sys.sysRead s.kernel fd stdioBufSize
      let s := { s with kernel := kernel }
      if r ≤ 0 then
        ((if 0 < copied.length then toInt copied.length else r, copied), s.setBuffer fd { fb with eof := true })
      else
        let (more, fb) := copyUnread (count - copied.length)
          { fb with readBuffer := stored.take r.toNat, readHead := 0 }
        ((toInt (copied.length + more.length), copied ++ more), s.setBuffer fd fb)
    else ((toInt copied.length, copied), s)

/-- `while (written < count)`: `src` is what is left of the caller's bytes. -/
def writeLoop (fd : Int) : Nat → Libc κ → List UInt8 → Nat → Option (Int × Libc κ)
  | 0, _, _, _ => none
  | fuel + 1, s, src, written =>
    let fb := s.fdBuffers fd
    if src = [] then some (toInt written, s)
    else if fb.writeBuffer.length = 0 ∧ stdioBufSize ≤ src.length then
      let (r, kernel) := sys.sysWrite s.kernel fd src
      let s := { s with kernel := kernel }
      if r ≤ 0 then some (if 0 < written then toInt written else r, s)
      else writeLoop fd fuel s (src.drop r.toNat) (written + r.toNat)
    else
      let available := stdioBufSize - fb.writeBuffer.length
      let toCopy := if src.length < available then src.length else available
      let filled := fb.writeBuffer ++ src.take toCopy
      let s := s.setBuffer fd { fb with writeBuffer := filled }
      if filled.length = stdioBufSize then
        let (ret, s) := fflush sys s fd
        if ret = -1 then some (if 0 < written + toCopy then toInt ((written + toCopy : Nat)) else -1, s)
        else writeLoop fd fuel s (src.drop toCopy) (written + toCopy)
      else writeLoop fd fuel s (src.drop toCopy) (written + toCopy)

def write (s : Libc κ) (fd : Int) (buf : Buffer) : Option (Int × Libc κ) :=
  if buf.1.length = 0 then some (0, s)
  else if fd ≤ 2 ∨ libcMaxFds ≤ fd then
    let (r, kernel) := sys.sysWrite s.kernel fd buf.1
    some (r, { s with kernel := kernel })
  else writeLoop sys fd (buf.1.length + 1) s buf.1 0

def lseek (s : Libc κ) (fd offset whence : Int) : Int × Libc κ :=
  if Buffered fd then
    let s := (fflush sys s fd).2
    let fb := s.fdBuffers fd
    let offset := if whence = seekCur then toInt (offset - toInt fb.unread.length) else offset
    let s := s.setBuffer fd fb.dropRead
    let (ret, kernel) := sys.sysLseek s.kernel fd offset whence
    (ret, { s with kernel := kernel })
  else
    let (ret, kernel) := sys.sysLseek s.kernel fd offset whence
    (ret, { s with kernel := kernel })

def dup (s : Libc κ) (oldfd : Int) : Int × Libc κ :=
  let (ret, kernel) := sys.sysDup s.kernel oldfd
  (ret, { s with kernel := kernel })

def dup2 (s : Libc κ) (oldfd newfd : Int) : Int × Libc κ :=
  let s := flushFdBuffer sys s newfd
  let (ret, kernel) := sys.sysDup2 s.kernel oldfd newfd
  (ret, { s with kernel := kernel })

/-- The character, or `EOF`. -/
def fgetc (s : Libc κ) (fd : Int) : Int × Libc κ :=
  if ¬ Buffered fd then
    let ((r, stored), kernel) := sys.sysRead s.kernel fd 1
    (if 0 < r then (stored.headD 0).toNat else -1, { s with kernel := kernel })
  else
    let s := if 0 < (s.fdBuffers fd).writeBuffer.length then (fflush sys s fd).2 else s
    let fb := s.fdBuffers fd
    match fb.readBuffer[fb.readHead]? with
    | some byte => (byte.toNat, s.setBuffer fd { fb with readHead := fb.readHead + 1 })
    | none =>
      if fb.eof then (-1, s) else
        let ((bytes, stored), kernel) := sys.sysRead s.kernel fd stdioBufSize
        let s := { s with kernel := kernel }
        if bytes ≤ 0 then (-1, s.setBuffer fd { fb with eof := true })
        else ((stored.headD 0).toNat,
          s.setBuffer fd { fb with readBuffer := stored.take bytes.toNat, readHead := 1 })

end

/-- The loop copies the first unread bytes and moves the head behind them. -/
theorem copyUnread_copies (n : Nat) (fb : FileBuffer) : copyUnread n fb =
    (fb.unread.take n, { fb with readHead := fb.readHead + (fb.unread.take n).length }) := by
  induction n generalizing fb with
  | zero => rfl
  | succ n ih =>
    rw [copyUnread]
    split
    · rename_i ended
      have empty : fb.unread = [] := List.drop_eq_nil_of_le (List.getElem?_eq_none_iff.mp ended)
      simp [empty]
    · rename_i byte held
      obtain ⟨small, rfl⟩ := List.getElem?_eq_some_iff.mp held
      have shape : fb.unread = fb.readBuffer[fb.readHead] :: fb.readBuffer.drop (fb.readHead + 1) :=
        List.drop_eq_getElem_cons small
      rw [ih, shape, List.take_succ_cons]
      simp only [FileBuffer.unread, List.length_cons]
      rw [Nat.add_right_comm, Nat.add_assoc]

/-! ## Over a kernel that takes every byte -/

/-- `sys_write` takes all it is given and says so, as far as an `int` can. -/
def AcceptsAll (sys : Kernel κ) : Prop :=
  ∀ k fd bytes, bytes.length < 2 ^ 32 → (sys.sysWrite k fd bytes).1 = toInt bytes.length

section
variable {sys : Kernel κ} {s : Libc κ} {fd : Int}

/-- The kernel after one `sys_write` for each chunk. -/
def passAll (sys : Kernel κ) (fd : Int) (k : κ) (chunks : List (List UInt8)) : κ :=
  chunks.foldl (fun k bytes => (sys.sysWrite k fd bytes).2) k

/-- What a flush passes on: nothing for an empty buffer. -/
def pendingChunks (pending : List UInt8) : List (List UInt8) := if pending = [] then [] else [pending]

@[simp] theorem pendingChunks_flatten (pending : List UInt8) : (pendingChunks pending).flatten = pending := by
  unfold pendingChunks
  split <;> simp_all

/-- `s` with `chunks` passed to the kernel and `rest` left in the buffer. -/
def Libc.passed (sys : Kernel κ) (s : Libc κ) (fd : Int) (chunks : List (List UInt8)) (rest : List UInt8) : Libc κ :=
  ⟨passAll sys fd s.kernel chunks,
    Function.update s.fdBuffers fd { s.fdBuffers fd with writeBuffer := rest }⟩

theorem passed_none : s.passed sys fd [] (s.fdBuffers fd).writeBuffer = s := by
  unfold Libc.passed passAll
  rw [Function.update_eq_self]
  rfl

theorem passed_passed : (s.passed sys fd chunks rest).passed sys fd more last =
    s.passed sys fd (chunks ++ more) last := by
  simp [Libc.passed, passAll]

@[simp] theorem passed_writeBuffer : ((s.passed sys fd chunks rest).fdBuffers fd).writeBuffer = rest := by
  simp [Libc.passed]

theorem fflush_passed (accepts : AcceptsAll sys) (buffered : Buffered fd)
    (room : (s.fdBuffers fd).writeBuffer.length ≤ stdioBufSize) :
    fflush sys s fd = (0, s.passed sys fd (pendingChunks (s.fdBuffers fd).writeBuffer) []) := by
  unfold fflush
  rw [if_neg (not_not.mpr buffered)]
  by_cases empty : (s.fdBuffers fd).writeBuffer = []
  · have same : s.passed sys fd [] [] = s := by
      have kept : s.passed sys fd [] (s.fdBuffers fd).writeBuffer = s := passed_none
      rwa [empty] at kept
    simp [empty, pendingChunks, same]
  · have some : 0 < (s.fdBuffers fd).writeBuffer.length := List.length_pos_iff.mpr empty
    unfold stdioBufSize at room
    have all := accepts s.kernel fd (s.fdBuffers fd).writeBuffer (by omega)
    rw [toInt_of_lt (by omega)] at all
    simp only [some, ↓reduceIte, all, Int.natCast_nonneg, pendingChunks, empty]
    rfl

/-- A round that copies: some bytes go to the buffer, and a buffer that fills
goes to the kernel. -/
theorem writeLoop_copies (accepts : AcceptsAll sys) (buffered : Buffered fd) (fuel written : Nat)
    (more : src ≠ [])
    (room : (s.fdBuffers fd).writeBuffer.length < stdioBufSize)
    (copies : ¬ ((s.fdBuffers fd).writeBuffer.length = 0 ∧ stdioBufSize ≤ src.length)) :
    ∃ n chunks rest, 0 < n ∧ n ≤ src.length ∧ rest.length < stdioBufSize ∧
      chunks.flatten ++ rest = (s.fdBuffers fd).writeBuffer ++ src.take n ∧
      writeLoop sys fd (fuel + 1) s src written =
        writeLoop sys fd fuel (s.passed sys fd chunks rest) (src.drop n) (written + n) := by
  rw [writeLoop, if_neg more, if_neg copies]
  dsimp only
  have some : 0 < src.length := List.length_pos_iff.mpr more
  generalize copyEq : (if src.length < stdioBufSize - (s.fdBuffers fd).writeBuffer.length then src.length
    else stdioBufSize - (s.fdBuffers fd).writeBuffer.length) = n
  have copied : 0 < n ∧ n ≤ src.length ∧ (s.fdBuffers fd).writeBuffer.length + n ≤ stdioBufSize := by
    rw [← copyEq]
    split <;> omega
  generalize filledEq : (s.fdBuffers fd).writeBuffer ++ src.take n = filled
  have length : filled.length = (s.fdBuffers fd).writeBuffer.length + n := by
    rw [← filledEq]
    simp
    omega
  have next : s.setBuffer fd { s.fdBuffers fd with writeBuffer := filled } = s.passed sys fd [] filled := rfl
  by_cases full : filled.length = stdioBufSize
  · have flushed : fflush sys (s.passed sys fd [] filled) fd =
        (0, s.passed sys fd [filled] []) := by
      rw [fflush_passed accepts buffered (by rw [passed_writeBuffer]; exact Nat.le_of_eq full), passed_writeBuffer,
        passed_passed, pendingChunks, if_neg (fun none => by rw [none] at full; cases full)]
      rfl
    refine ⟨n, [filled], [], copied.1, copied.2.1, by decide, by simp [← filledEq], ?_⟩
    simp only [if_pos full, next, flushed]
    rfl
  · refine ⟨n, [], filled, copied.1, copied.2.1, by omega, filledEq.symm, ?_⟩
    simp only [next, full, ↓reduceIte]

/-- The loop passes the caller's bytes on behind those that were waiting, in
chunks, and keeps what does not fill the buffer. -/
theorem writeLoop_passed (accepts : AcceptsAll sys) (buffered : Buffered fd) (s : Libc κ)
    (src : List UInt8) (written : Nat) (fits : src.length < 2 ^ 32)
    (room : (s.fdBuffers fd).writeBuffer.length < stdioBufSize) (enough : src.length < fuel) :
    ∃ chunks rest ret, writeLoop sys fd fuel s src written = some (ret, s.passed sys fd chunks rest) ∧
      chunks.flatten ++ rest = (s.fdBuffers fd).writeBuffer ++ src ∧ rest.length < stdioBufSize ∧
      (written + src.length < 2 ^ 31 → ret = (written + src.length : Nat)) := by
  induction fuel generalizing s src written with
  | zero => cases enough
  | succ fuel ih =>
    by_cases done : src = []
    · subst done
      refine ⟨[], (s.fdBuffers fd).writeBuffer, toInt written, ?_, by simp, room, toInt_of_lt⟩
      simp [writeLoop, passed_none]
    · by_cases direct : (s.fdBuffers fd).writeBuffer.length = 0 ∧ stdioBufSize ≤ src.length
      · -- everything goes to the kernel at once
        have empty : (s.fdBuffers fd).writeBuffer = [] := List.length_eq_zero_iff.mp direct.1
        have next : (⟨(sys.sysWrite s.kernel fd src).2, s.fdBuffers⟩ : Libc κ) = s.passed sys fd [src] [] := by
          unfold Libc.passed
          rw [← empty, Function.update_eq_self]
          rfl
        have behind : [src].flatten ++ [] = (s.fdBuffers fd).writeBuffer ++ src := by simp [empty]
        rw [writeLoop]
        simp only [done, direct, and_self, ↓reduceIte, accepts s.kernel fd src fits, next]
        by_cases refused : toInt src.length ≤ 0
        · refine ⟨[src], [], _, if_pos refused, behind, by decide, fun small => ?_⟩
          rw [toInt_of_lt (by omega)] at refused
          have some := List.length_pos_iff.mpr done
          omega
        · rw [if_neg refused, toInt_of_pos fits (by omega), Int.toNat_natCast, List.drop_length]
          obtain ⟨chunks, rest, ret, ran, kept, short, value⟩ := ih (s.passed sys fd [src] []) []
            (written + src.length) (by decide) (by rw [passed_writeBuffer]; decide)
            (by unfold stdioBufSize at direct; simp; omega)
          refine ⟨[src] ++ chunks, rest, ret, by rw [ran, passed_passed], ?_, short, by simpa using value⟩
          rw [List.flatten_append, List.append_assoc, kept, passed_writeBuffer, ← behind]
          simp
      · obtain ⟨n, first, kept, some, within, short, copied, step⟩ :=
          writeLoop_copies accepts buffered fuel written done room direct
        obtain ⟨chunks, rest, ret, ran, all, last, value⟩ := ih (s.passed sys fd first kept) (src.drop n)
          (written + n) (by simp; omega) (by rwa [passed_writeBuffer]) (by simp; omega)
        refine ⟨first ++ chunks, rest, ret, by rw [step, ran, passed_passed], ?_, last, ?_⟩
        · rw [List.flatten_append, List.append_assoc, all, passed_writeBuffer, ← List.append_assoc, copied,
            List.append_assoc, List.take_append_drop]
        · have total : written + n + (src.drop n).length = written + src.length := by
            simp
            omega
          rwa [total] at value

end

end MeowMeowOS.StdioBuffers

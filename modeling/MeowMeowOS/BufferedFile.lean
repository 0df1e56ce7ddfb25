import MeowMeowOS.StdioBuffers

/-! Reads, writes and seeks of one descriptor through its buffers, against the
same calls made to the kernel directly. The kernel's offset runs ahead of the
bytes a read has fetched but not given out, which only `lseek` takes back. -/
namespace MeowMeowOS.BufferedFile
open StdioBuffers

/-! ## A file with one offset -/

structure SharedFile where
  contents : List UInt8
  offset : Nat

/-- The contents with `bytes` at `offset`, behind zeros if the file ends
earlier. -/
def writeAt (contents : List UInt8) (offset : Nat) (bytes : List UInt8) : List UInt8 :=
  if bytes = [] then contents
  else contents.take offset ++ List.replicate (offset - contents.length) 0 ++ bytes ++
    contents.drop (offset + bytes.length)

/-- Where a seek leads, if anywhere. -/
def seekTarget (k : SharedFile) (offset whence : Int) : Option Nat :=
  let target := if whence = seekSet then some offset
    else if whence = seekCur then some (k.offset + offset)
    else if whence = seekEnd then some (k.contents.length + offset)
    else none
  target.bind fun n => if n < 0 then none else some n.toNat

/-- Every descriptor is the file, and a write is never short. -/
def fileKernel : Kernel SharedFile where
  sysRead k _ count :=
    let stored := (k.contents.drop k.offset).take count
    ((toInt stored.length, stored), { k with offset := k.offset + stored.length })
  sysWrite k _ bytes := (toInt bytes.length, ⟨writeAt k.contents k.offset bytes, k.offset + bytes.length⟩)
  sysLseek k _ offset whence :=
    match seekTarget k offset whence with
    | some n => (toInt n, { k with offset := n })
    | none => (-1, k)
  sysOpen k _ := (-1, k)
  sysClose k _ := (0, k)
  sysDup k _ := (-1, k)
  sysDup2 k _ _ := (-1, k)
  sysExit k _ := k

theorem fileKernel_accepts : AcceptsAll fileKernel := by
  intro k fd bytes fits
  simp only [fileKernel]

theorem writeAt_length (contents bytes : List UInt8) (offset : Nat) (some : bytes ≠ []) :
    (writeAt contents offset bytes).length = max contents.length (offset + bytes.length) := by
  rw [writeAt, if_neg some]
  simp
  omega

theorem writeAt_get (contents bytes : List UInt8) (offset i : Nat) (some : bytes ≠ []) :
    (writeAt contents offset bytes)[i]? =
      if i < offset then (if i < contents.length then contents[i]? else Option.some 0)
      else if i < offset + bytes.length then bytes[i - offset]? else contents[i]? := by
  have front : (contents.take offset ++ List.replicate (offset - contents.length) (0 : UInt8)).length = offset := by
    simp
    omega
  rw [writeAt, if_neg some, List.append_assoc, List.getElem?_append, front]
  by_cases before : i < offset
  · rw [if_pos before, if_pos before, List.getElem?_append, List.length_take]
    by_cases held : i < contents.length
    · rw [if_pos (by omega), if_pos held, List.getElem?_take, if_pos before]
    · rw [if_neg (by omega), if_neg held, List.getElem?_replicate, if_pos (by omega)]
  · rw [if_neg before, if_neg before, List.getElem?_append]
    by_cases inside : i < offset + bytes.length
    · rw [if_pos (by omega), if_pos inside]
    · rw [if_neg (by omega), if_neg inside, List.getElem?_drop]
      congr 1
      omega

/-- Two writes one behind the other are one write. -/
theorem writeAt_writeAt (contents first more : List UInt8) (offset : Nat) :
    writeAt (writeAt contents offset first) (offset + first.length) more = writeAt contents offset (first ++ more) := by
  by_cases none : first = []
  · subst none
    simp [writeAt]
  by_cases last : more = []
  · subst last
    rw [List.append_nil]
    exact if_pos rfl
  have both : first ++ more ≠ [] := by simp [none]
  apply List.ext_getElem?
  intro i
  rw [writeAt_get _ _ _ _ last, writeAt_get _ _ _ _ both, writeAt_get _ _ _ _ none, writeAt_length _ _ _ none,
    List.length_append, List.getElem?_append]
  by_cases before : i < offset
  · have reached : i < max contents.length (offset + first.length) := by omega
    rw [if_pos (by omega), if_pos reached, if_pos before, if_pos before]
  · by_cases inFirst : i < offset + first.length
    · rw [if_pos inFirst, if_pos (by omega), if_neg before, if_pos inFirst, if_neg before, if_pos (by omega),
        if_pos (by omega)]
    · rw [if_neg inFirst, if_neg before, if_neg before, if_neg inFirst, ← Nat.add_assoc]
      by_cases inMore : i < offset + first.length + more.length
      · rw [if_pos inMore, if_pos inMore, if_neg (by omega)]
        congr 1
        omega
      · rw [if_neg inMore, if_neg inMore]

theorem passAll_file (chunks : List (List UInt8)) (k : SharedFile) : passAll fileKernel fd k chunks =
    ⟨writeAt k.contents k.offset chunks.flatten, k.offset + chunks.flatten.length⟩ := by
  induction chunks generalizing k with
  | nil => simp [passAll, writeAt]
  | cons bytes rest ih =>
    have step : passAll fileKernel fd k (bytes :: rest) =
        passAll fileKernel fd ((fileKernel.sysWrite k fd bytes).2) rest := rfl
    rw [step, ih]
    simp only [fileKernel, writeAt_writeAt, List.flatten_cons, List.length_append, Nat.add_assoc]

/-! ## The same calls both ways -/

/-- A number of type `long`. -/
def Long := { x : Int // toInt x = x }

inductive Call where
  | read (count : Nat)
  | write (buf : Buffer)
  | lseek (offset : Long) (whence : Int)

/-- What the caller sees: the value and the bytes of a read, the value of a
seek. -/
inductive Result where
  | read (ret : Int) (bytes : List UInt8)
  | wrote
  | lseek (ret : Int)

/-- The bytes at the caller's buffer that the value of a read counts. -/
def readResult (answer : Int × List UInt8) : Result := .read answer.1 (answer.2.take answer.1.toNat)

def directCall (fd : Int) (k : SharedFile) : Call → Result × SharedFile
  | .read count => (readResult (fileKernel.sysRead k fd count).1, (fileKernel.sysRead k fd count).2)
  | .write buf => (.wrote, (fileKernel.sysWrite k fd buf.1).2)
  | .lseek offset whence =>
    (.lseek (fileKernel.sysLseek k fd offset.1 whence).1, (fileKernel.sysLseek k fd offset.1 whence).2)

def bufferedCall (fd : Int) (s : Libc SharedFile) : Call → Option (Result × Libc SharedFile)
  | .read count => some (readResult (StdioBuffers.read fileKernel s fd count).1,
      (StdioBuffers.read fileKernel s fd count).2)
  | .write buf => (StdioBuffers.write fileKernel s fd buf).map fun done => (.wrote, done.2)
  | .lseek offset whence =>
    some (.lseek (lseek fileKernel s fd offset.1 whence).1, (lseek fileKernel s fd offset.1 whence).2)

/-! ## The file that the buffers stand for -/

/-- The descriptor's unread bytes. -/
abbrev unreadOf (s : Libc SharedFile) (fd : Int) : List UInt8 := (s.fdBuffers fd).unread

/-- `s` with nothing waiting to be written stands for the file `k`: the kernel
is ahead of `k` by the unread bytes, which are the file's next ones. -/
structure Fetched (s : Libc SharedFile) (fd : Int) (k : SharedFile) : Prop where
  empty : (s.fdBuffers fd).writeBuffer = []
  ahead : s.kernel = ⟨k.contents, k.offset + (unreadOf s fd).length⟩
  next : unreadOf s fd = (k.contents.drop k.offset).take (unreadOf s fd).length
  short : (unreadOf s fd).length ≤ stdioBufSize
  ended : (s.fdBuffers fd).eof = true → unreadOf s fd = [] ∧ k.contents.length ≤ k.offset

/-- `s` with nothing left unread stands for `k`: the waiting bytes are still to
be written. -/
structure Waiting (s : Libc SharedFile) (fd : Int) (k : SharedFile) : Prop where
  none : unreadOf s fd = []
  behind : k = ⟨writeAt s.kernel.contents s.kernel.offset (s.fdBuffers fd).writeBuffer,
    s.kernel.offset + (s.fdBuffers fd).writeBuffer.length⟩
  room : (s.fdBuffers fd).writeBuffer.length < stdioBufSize
  ended : (s.fdBuffers fd).eof = true → k.contents.length ≤ k.offset

def StandsFor (s : Libc SharedFile) (fd : Int) (k : SharedFile) : Prop := Fetched s fd k ∨ Waiting s fd k

/-- What the call needs of the state it starts from: a write has no unread
bytes, a seek that the file refuses has none either, and neither the position a
relative seek asks for nor the size of a read leaves its type. -/
def Allowed (s : Libc SharedFile) (fd : Int) (k : SharedFile) : Call → Prop
  | .read count => unreadOf s fd = [] ∨
      min (count - (unreadOf s fd).length) (s.kernel.contents.length - s.kernel.offset) < 2 ^ 31
  | .write buf => buf.1 ≠ [] → unreadOf s fd = []
  | .lseek offset whence => unreadOf s fd = [] ∨ ((seekTarget k offset.1 whence).isSome ∧
      (whence = seekCur → toInt (offset.1 - (unreadOf s fd).length) = offset.1 - (unreadOf s fd).length))

section
variable {s : Libc SharedFile} {fd : Int} {k : SharedFile}

theorem fflush_empty (sys : Kernel κ) (s : Libc κ) (empty : (s.fdBuffers fd).writeBuffer = []) :
    (fflush sys s fd).2 = s := by
  unfold fflush
  simp [empty]

/-- A flush leaves the file the same and nothing waiting. -/
theorem fflush_fetched (buffered : Buffered fd) (stands : StandsFor s fd k) :
    Fetched (fflush fileKernel s fd).2 fd k ∧ unreadOf (fflush fileKernel s fd).2 fd = unreadOf s fd := by
  rcases stands with fetched | waiting
  · rw [fflush_empty fileKernel s fetched.empty]
    exact ⟨fetched, rfl⟩
  · rw [fflush_passed fileKernel_accepts buffered (Nat.le_of_lt waiting.room)]
    have same : unreadOf (s.passed fileKernel fd (pendingChunks (s.fdBuffers fd).writeBuffer) []) fd =
        unreadOf s fd := by
      simp [unreadOf, Libc.passed, FileBuffer.unread]
    have kernel : (s.passed fileKernel fd (pendingChunks (s.fdBuffers fd).writeBuffer) []).kernel = k := by
      rw [waiting.behind]
      simp only [Libc.passed, passAll_file, pendingChunks_flatten]
    refine ⟨⟨passed_writeBuffer, ?_, ?_, ?_, fun ended => ⟨same.trans waiting.none, waiting.ended ?_⟩⟩,
      same⟩
    · rw [kernel, same, waiting.none]
      rfl
    · rw [same, waiting.none]
      rfl
    · rw [same, waiting.none]
      exact Nat.zero_le _
    · simpa [Libc.passed] using ended

/-- Apart from the flush, a read of at least one byte works on the flushed
buffers. -/
theorem read_flushed (some : count ≠ 0) (stands : StandsFor s fd k) (buffered : Buffered fd) :
    StdioBuffers.read fileKernel s fd count = StdioBuffers.read fileKernel (fflush fileKernel s fd).2 fd count := by
  have flushed : (if 0 < (s.fdBuffers fd).writeBuffer.length then (fflush fileKernel s fd).2 else s) =
      (fflush fileKernel s fd).2 := by
    by_cases empty : (s.fdBuffers fd).writeBuffer = []
    · rw [fflush_empty fileKernel s empty, ite_self]
    · rw [if_pos (List.length_pos_iff.mpr empty)]
  have empty := (fflush_fetched buffered stands).1.empty
  have done : ¬ 0 < ((fflush fileKernel s fd).2.fdBuffers fd).writeBuffer.length := by simp [empty]
  unfold StdioBuffers.read
  simp only [flushed, done, some, ↓reduceIte, if_neg (not_not.mpr buffered)]

theorem toInt_toInt (n m : Nat) : toInt (n + toInt m) = toInt ((n + m : Nat)) := by
  unfold toInt
  rw [Int.add_bmod_bmod]
  simp

/-- What the file has at its offset is what was fetched and what the kernel
has at its own. -/
theorem take_fetched (fetched : Fetched s fd k) (count : Nat) (more : (unreadOf s fd).length ≤ count) :
    (k.contents.drop k.offset).take count = unreadOf s fd ++
      (s.kernel.contents.drop s.kernel.offset).take (count - (unreadOf s fd).length) := by
  have split : count = (unreadOf s fd).length + (count - (unreadOf s fd).length) := by omega
  conv_lhs => rw [split, List.take_add, ← fetched.next]
  rw [fetched.ahead, List.drop_drop]

/-- The buffer once `n` more bytes have been copied out of it. -/
def FileBuffer.advance (fb : FileBuffer) (n : Nat) : FileBuffer := { fb with readHead := fb.readHead + n }

theorem unread_advance (fb : FileBuffer) (n : Nat) : (FileBuffer.advance fb n).unread = fb.unread.drop n := by
  rw [FileBuffer.unread, FileBuffer.unread, List.drop_drop]
  rfl

/-- A read that the unread bytes satisfy. -/
theorem read_within (buffered : Buffered fd) (fetched : Fetched s fd k) (some : count ≠ 0)
    (within : count ≤ (unreadOf s fd).length) :
    StdioBuffers.read fileKernel s fd count = ((toInt count, (k.contents.drop k.offset).take count),
      s.setBuffer fd (FileBuffer.advance (s.fdBuffers fd) count)) := by
  have idle : ¬ 0 < (s.fdBuffers fd).writeBuffer.length := by simp [fetched.empty]
  have length : ((s.fdBuffers fd).unread.take count).length = count := by
    rw [List.length_take]
    exact Nat.min_eq_left within
  have bytes : (s.fdBuffers fd).unread.take count = (k.contents.drop k.offset).take count := by
    have next : (s.fdBuffers fd).unread = _ := fetched.next
    rw [next, List.take_take, Nat.min_eq_left within]
  unfold StdioBuffers.read
  simp only [some, idle, ↓reduceIte, if_neg (not_not.mpr buffered), copyUnread_copies, length]
  rw [bytes]
  rfl

theorem fetched_advance (fetched : Fetched s fd k) (within : n ≤ (unreadOf s fd).length) :
    Fetched (s.setBuffer fd (FileBuffer.advance (s.fdBuffers fd) n)) fd { k with offset := k.offset + n } := by
  have left : unreadOf (s.setBuffer fd (FileBuffer.advance (s.fdBuffers fd) n)) fd = (unreadOf s fd).drop n := by
    unfold unreadOf
    rw [← unread_advance]
    simp [Libc.setBuffer]
  have length : (unreadOf (s.setBuffer fd (FileBuffer.advance (s.fdBuffers fd) n)) fd).length =
      (unreadOf s fd).length - n := by rw [left, List.length_drop]
  refine ⟨?_, ?_, ?_, ?_, fun ended => ?_⟩
  · simpa [Libc.setBuffer, FileBuffer.advance] using fetched.empty
  · have kernel : (s.setBuffer fd (FileBuffer.advance (s.fdBuffers fd) n)).kernel = s.kernel := rfl
    rw [kernel, fetched.ahead, length, Nat.add_assoc, Nat.add_sub_cancel' within]
  · rw [length, left, ← List.drop_drop, ← List.drop_take, ← fetched.next]
  · rw [length]
    exact Nat.le_trans (Nat.sub_le _ _) fetched.short
  · have held : (s.fdBuffers fd).eof = true := by simpa [Libc.setBuffer, FileBuffer.advance] using ended
    obtain ⟨none, last⟩ := fetched.ended held
    rw [left, none]
    exact ⟨List.drop_nil, Nat.le_trans last (Nat.le_add_right _ _)⟩

theorem fetched_of_drained (empty : (s.fdBuffers fd).writeBuffer = []) (none : unreadOf s fd = [])
    (kernel : s.kernel = k) (ended : (s.fdBuffers fd).eof = true → k.contents.length ≤ k.offset) :
    Fetched s fd k := by
  refine ⟨empty, ?_, ?_, ?_, fun held => ⟨none, ended held⟩⟩ <;> rw [none]
  · exact kernel
  · rfl
  · exact Nat.zero_le _

/-- The buffer with all its unread bytes copied out. -/
theorem unread_drained (fb : FileBuffer) : (FileBuffer.advance fb fb.unread.length).unread = [] := by
  rw [unread_advance, List.drop_length]

/-- The kernel's answer behind the unread bytes, and the direct one. -/
theorem sysRead_fetched (fetched : Fetched s fd k) (beyond : (unreadOf s fd).length ≤ count) :
    ∃ stored, stored = (s.kernel.contents.drop s.kernel.offset).take (count - (unreadOf s fd).length) ∧
      fileKernel.sysRead k fd count = ((toInt ((unreadOf s fd).length + stored.length : Nat), unreadOf s fd ++ stored),
        ⟨k.contents, k.offset + ((unreadOf s fd).length + stored.length)⟩) := by
  have all := take_fetched fetched count beyond
  refine ⟨_, rfl, ?_⟩
  simp only [fileKernel, all, List.length_append]

/-- A read that goes past the unread bytes straight to the kernel. -/
theorem read_direct (buffered : Buffered fd) (fetched : Fetched s fd k) (beyond : (unreadOf s fd).length < count)
    (large : stdioBufSize ≤ count - (unreadOf s fd).length) (allowed : Allowed s fd k (.read count)) :
    readResult (StdioBuffers.read fileKernel s fd count).1 = readResult (fileKernel.sysRead k fd count).1 ∧
      Fetched (StdioBuffers.read fileKernel s fd count).2 fd (fileKernel.sysRead k fd count).2 := by
  have idle : ¬ 0 < (s.fdBuffers fd).writeBuffer.length := by simp [fetched.empty]
  have some : count ≠ 0 := by omega
  have whole : (s.fdBuffers fd).unread.take count = unreadOf s fd := List.take_of_length_le (Nat.le_of_lt beyond)
  have short : ¬ (unreadOf s fd).length = count := by omega
  have kernel : ∀ fb, (s.setBuffer fd fb).kernel = s.kernel := fun _ => rfl
  obtain ⟨stored, storedEq, direct⟩ := sysRead_fetched fetched (Nat.le_of_lt beyond)
  have answer : fileKernel.sysRead s.kernel fd (count - (unreadOf s fd).length) =
      ((toInt stored.length, stored), ⟨s.kernel.contents, s.kernel.offset + stored.length⟩) := by
    simp only [fileKernel, ← storedEq]
  unfold StdioBuffers.read
  simp only [some, idle, ↓reduceIte, if_neg (not_not.mpr buffered), copyUnread_copies, whole, short, large,
    kernel, answer, direct]
  have state : Fetched ⟨⟨s.kernel.contents, s.kernel.offset + stored.length⟩, (s.setBuffer fd
      (FileBuffer.advance (s.fdBuffers fd) (unreadOf s fd).length)).fdBuffers⟩ fd
      ⟨k.contents, k.offset + ((unreadOf s fd).length + stored.length)⟩ := by
    refine fetched_of_drained ?_ ?_ ?_ fun ended => ?_
    · simpa [Libc.setBuffer, FileBuffer.advance] using fetched.empty
    · simpa [unreadOf, Libc.setBuffer] using unread_drained (s.fdBuffers fd)
    · rw [fetched.ahead, Nat.add_assoc]
    · have held : (s.fdBuffers fd).eof = true := by simpa [Libc.setBuffer, FileBuffer.advance] using ended
      exact Nat.le_trans (fetched.ended held).2 (Nat.le_add_right _ _)
  by_cases positive : 0 < toInt stored.length
  · simp only [positive, ↓reduceIte]
    exact ⟨by rw [toInt_toInt], state⟩
  · by_cases none : (unreadOf s fd).length = 0
    · simp only [positive, none, ↓reduceIte, Nat.zero_add] at state ⊢
      exact ⟨trivial, state⟩
    · have nothing : stored.length = 0 := by
        have small : stored.length < 2 ^ 31 := by
          rw [storedEq, List.length_take, List.length_drop]
          exact allowed.resolve_left fun empty => none (by rw [empty]; rfl)
        rw [toInt_of_lt small] at positive
        omega
      simp only [none, nothing, ↓reduceIte, Nat.add_zero] at state ⊢
      exact ⟨rfl, state⟩

theorem setBuffer_setBuffer (s : Libc κ) (kernel : κ) (first last : FileBuffer) :
    Libc.setBuffer ⟨kernel, (s.setBuffer fd first).fdBuffers⟩ fd last =
    Libc.setBuffer ⟨kernel, s.fdBuffers⟩ fd last := by
  simp [Libc.setBuffer]

@[simp] theorem setBuffer_self (s : Libc κ) (fb : FileBuffer) : (s.setBuffer fd fb).fdBuffers fd = fb := by
  simp [Libc.setBuffer]

/-- The block that a refill fetches. -/
def nextBlock (k : SharedFile) : List UInt8 := (k.contents.drop k.offset).take stdioBufSize

theorem nextBlock_size (k : SharedFile) : (nextBlock k).length ≤ stdioBufSize := List.length_take_le _ _

theorem nextBlock_eq_nil (k : SharedFile) : nextBlock k = [] ↔ k.contents.length ≤ k.offset := by
  simp [nextBlock, stdioBufSize]

theorem sysRead_block (k : SharedFile) : fileKernel.sysRead k fd stdioBufSize =
    ((((nextBlock k).length : Int), nextBlock k), ⟨k.contents, k.offset + (nextBlock k).length⟩) := by
  have value : toInt (nextBlock k).length = (nextBlock k).length :=
    toInt_of_lt (Nat.lt_of_le_of_lt (nextBlock_size k) (by decide))
  rw [← value]
  rfl

/-- A read that needs more than the unread bytes, at the end of the file. -/
theorem read_last (buffered : Buffered fd) (fetched : Fetched s fd k) (beyond : (unreadOf s fd).length < count)
    (small : count - (unreadOf s fd).length < stdioBufSize) (last : nextBlock s.kernel = []) :
    ∃ eof, StdioBuffers.read fileKernel s fd count = ((toInt (unreadOf s fd).length, unreadOf s fd),
      s.setBuffer fd { FileBuffer.advance (s.fdBuffers fd) (unreadOf s fd).length with eof := eof }) := by
  have idle : ¬ 0 < (s.fdBuffers fd).writeBuffer.length := by simp [fetched.empty]
  have some : count ≠ 0 := by omega
  have whole : (s.fdBuffers fd).unread.take count = unreadOf s fd := List.take_of_length_le (Nat.le_of_lt beyond)
  have short : ¬ (unreadOf s fd).length = count := by omega
  have kernel : ∀ fb, (s.setBuffer fd fb).kernel = s.kernel := fun _ => rfl
  have zero : (if 0 < (unreadOf s fd).length then toInt (unreadOf s fd).length else 0) =
      toInt (unreadOf s fd).length := by
    split
    · rfl
    · rename_i none
      rw [Nat.eq_zero_of_not_pos none]
      rfl
  unfold StdioBuffers.read
  simp only [some, idle, ↓reduceIte, if_neg (not_not.mpr buffered), copyUnread_copies, whole, short,
    Nat.not_le.mpr small, kernel, sysRead_block, last, List.length_nil, Int.natCast_zero, Int.le_refl, zero,
    Nat.add_zero, setBuffer_setBuffer]
  split
  · exact ⟨true, rfl⟩
  · exact ⟨_, rfl⟩

/-- The state once the next block has been fetched. -/
def refilled (s : Libc SharedFile) (fd : Int) : Libc SharedFile :=
  Libc.setBuffer ⟨⟨s.kernel.contents, s.kernel.offset + (nextBlock s.kernel).length⟩, s.fdBuffers⟩ fd
    { s.fdBuffers fd with readBuffer := nextBlock s.kernel, readHead := 0 }

theorem unread_refilled : unreadOf (refilled s fd) fd = nextBlock s.kernel := by
  rw [refilled, unreadOf, setBuffer_self]
  rfl

theorem fetched_refilled (fetched : Fetched s fd k) (more : (s.fdBuffers fd).eof = false) :
    Fetched (refilled s fd) fd ⟨k.contents, k.offset + (unreadOf s fd).length⟩ := by
  have kernel := fetched.ahead
  refine ⟨?_, ?_, ?_, ?_, fun ended => ?_⟩
  · rw [refilled, setBuffer_self]
    exact fetched.empty
  · rw [unread_refilled, refilled, kernel]
    rfl
  · rw [unread_refilled, nextBlock, kernel, List.length_take, List.take_eq_take_iff]
    omega
  · rw [unread_refilled]
    exact nextBlock_size _
  · rw [refilled, setBuffer_self] at ended
    exact absurd (more.symm.trans ended) (by decide)

/-- A read that fetches the next block for what the unread bytes lack. -/
theorem read_block (buffered : Buffered fd) (fetched : Fetched s fd k) (beyond : (unreadOf s fd).length < count)
    (small : count - (unreadOf s fd).length < stdioBufSize) (more : (s.fdBuffers fd).eof = false)
    (block : nextBlock s.kernel ≠ []) (stored : List UInt8)
    (part : stored = (nextBlock s.kernel).take (count - (unreadOf s fd).length)) :
    StdioBuffers.read fileKernel s fd count =
      ((toInt ((unreadOf s fd).length + stored.length : Nat), unreadOf s fd ++ stored),
        (refilled s fd).setBuffer fd (FileBuffer.advance ((refilled s fd).fdBuffers fd) stored.length)) := by
  have idle : ¬ 0 < (s.fdBuffers fd).writeBuffer.length := by simp [fetched.empty]
  have some : count ≠ 0 := by omega
  have whole : (s.fdBuffers fd).unread.take count = unreadOf s fd := List.take_of_length_le (Nat.le_of_lt beyond)
  have short : ¬ (unreadOf s fd).length = count := by omega
  have kernel : ∀ fb, (s.setBuffer fd fb).kernel = s.kernel := fun _ => rfl
  have positive : ¬ ((nextBlock s.kernel).length : Int) ≤ 0 := by
    have := List.length_pos_iff.mpr block
    omega
  have fresh : ∀ eof waiting, FileBuffer.unread ⟨nextBlock s.kernel, 0, eof, waiting⟩ = nextBlock s.kernel :=
    fun _ _ => rfl
  have state : ∀ fb, (refilled s fd).setBuffer fd fb =
      Libc.setBuffer ⟨⟨s.kernel.contents, s.kernel.offset + (nextBlock s.kernel).length⟩, s.fdBuffers⟩ fd fb :=
    fun fb => setBuffer_setBuffer _ _ _ _
  unfold StdioBuffers.read
  simp only [some, idle, ↓reduceIte, if_neg (not_not.mpr buffered), copyUnread_copies, whole, short,
    Nat.not_le.mpr small, kernel, sysRead_block, positive, setBuffer_setBuffer, more,
    Int.toNat_natCast, List.take_length, fresh, ← part]
  rw [if_pos (by simp), ← Int.natCast_add, state, refilled, setBuffer_self]
  simp only [FileBuffer.advance, more]

/-- A read through the buffers gives what a read of the file gives. -/
theorem read_fetched (buffered : Buffered fd) (fetched : Fetched s fd k) (some : count ≠ 0)
    (allowed : Allowed s fd k (.read count)) :
    readResult (StdioBuffers.read fileKernel s fd count).1 = readResult (fileKernel.sysRead k fd count).1 ∧
      Fetched (StdioBuffers.read fileKernel s fd count).2 fd (fileKernel.sysRead k fd count).2 := by
  by_cases within : count ≤ (unreadOf s fd).length
  · have length : ((k.contents.drop k.offset).take count).length = count := by
      have next := congrArg List.length fetched.next
      rw [List.length_take] at next ⊢
      omega
    rw [read_within buffered fetched some within]
    simp only [fileKernel, length]
    exact ⟨trivial, fetched_advance fetched within⟩
  have beyond := Nat.lt_of_not_le within
  by_cases large : stdioBufSize ≤ count - (unreadOf s fd).length
  · exact read_direct buffered fetched beyond large allowed
  have small := Nat.lt_of_not_le large
  obtain ⟨stored, storedEq, direct⟩ := sysRead_fetched fetched (Nat.le_of_lt beyond)
  have part : stored = (nextBlock s.kernel).take (count - (unreadOf s fd).length) := by
    rw [storedEq, nextBlock, List.take_take, Nat.min_eq_left (Nat.le_of_lt small)]
  by_cases last : nextBlock s.kernel = []
  · obtain ⟨eof, ran⟩ := read_last buffered fetched beyond small last
    rw [last, List.take_nil] at part
    rw [ran, direct, part, List.append_nil]
    refine ⟨rfl, fetched_of_drained ?_ ?_ ?_ fun _ => ?_⟩
    · simpa [Libc.setBuffer, FileBuffer.advance] using fetched.empty
    · simpa [unreadOf, Libc.setBuffer, FileBuffer.unread] using unread_drained (s.fdBuffers fd)
    · exact fetched.ahead
    · have ended := (nextBlock_eq_nil s.kernel).mp last
      rwa [fetched.ahead] at ended
  · by_cases more : (s.fdBuffers fd).eof = false
    · have within : stored.length ≤ (unreadOf (refilled s fd) fd).length := by
        rw [unread_refilled, part]
        exact List.length_take_le' _ _
      have state := fetched_advance (fetched_refilled fetched more) within
      rw [read_block buffered fetched beyond small more last stored part, direct]
      rw [Nat.add_assoc] at state
      exact ⟨rfl, state⟩
    · -- a set end-of-file flag means that the kernel has nothing more
      obtain ⟨none, ended⟩ := fetched.ended (by simpa using more)
      refine absurd ((nextBlock_eq_nil s.kernel).mpr ?_) last
      rw [fetched.ahead]
      exact Nat.le_trans ended (Nat.le_add_right _ _)

theorem sysWrite_file (k : SharedFile) (bytes : List UInt8) : (fileKernel.sysWrite k fd bytes).2 =
    ⟨writeAt k.contents k.offset bytes, k.offset + bytes.length⟩ := rfl

theorem waiting_of_none (stands : StandsFor s fd k) (none : unreadOf s fd = []) : Waiting s fd k := by
  rcases stands with fetched | waiting
  · refine ⟨none, ?_, ?_, fun ended => (fetched.ended ended).2⟩
    · rw [fetched.empty, fetched.ahead, none]
      rfl
    · rw [fetched.empty]
      decide
  · exact waiting

theorem write_standsFor (low : 3 ≤ fd) (high : fd ≤ 31) (stands : StandsFor s fd k) (buf : Buffer)
    (allowed : Allowed s fd k (.write buf)) :
    ∃ ret t, StdioBuffers.write fileKernel s fd buf = some (ret, t) ∧
      StandsFor t fd (fileKernel.sysWrite k fd buf.1).2 := by
  unfold StdioBuffers.write
  by_cases nothing : buf.1.length = 0
  · have empty : buf.1 = [] := List.length_eq_zero_iff.mp nothing
    refine ⟨0, s, if_pos nothing, ?_⟩
    rw [empty]
    exact stands
  · have direct : ¬ (fd ≤ 2 ∨ libcMaxFds ≤ fd) := by
      unfold libcMaxFds
      omega
    have buffered : Buffered fd := by
      unfold Buffered libcMaxFds
      omega
    have some : buf.1 ≠ [] := fun empty => nothing (by rw [empty]; rfl)
    have waiting := waiting_of_none stands (allowed some)
    obtain ⟨chunks, rest, ret, ran, kept, short, -⟩ := writeLoop_passed fileKernel_accepts buffered s buf.1 0 buf.2
      waiting.room (Nat.lt_succ_self _)
    rw [if_neg nothing, if_neg direct]
    refine ⟨ret, _, ran, Or.inr ⟨?_, ?_, ?_, fun ended => ?_⟩⟩
    · simpa [unreadOf, Libc.passed, FileBuffer.unread] using waiting.none
    · have all := congrArg (writeAt s.kernel.contents s.kernel.offset) kept
      have size := congrArg List.length kept
      rw [← writeAt_writeAt, ← writeAt_writeAt] at all
      rw [List.length_append, List.length_append] at size
      have kernel : (s.passed fileKernel fd chunks rest).kernel =
          ⟨writeAt s.kernel.contents s.kernel.offset chunks.flatten, s.kernel.offset + chunks.flatten.length⟩ :=
        passAll_file chunks s.kernel
      rw [sysWrite_file, passed_writeBuffer, kernel, waiting.behind]
      dsimp only
      rw [all, Nat.add_assoc, Nat.add_assoc, size]
    · rwa [passed_writeBuffer]
    · have held : (s.fdBuffers fd).eof = true := by simpa [Libc.passed] using ended
      have last := waiting.ended held
      rw [sysWrite_file, writeAt_length _ _ _ some]
      dsimp only
      omega

theorem seekTarget_fetched (fetched : Fetched s fd k) (offset : Long)
    (allowed : Allowed s fd k (.lseek offset whence)) :
    seekTarget s.kernel (if whence =
    seekCur then toInt (offset.1 - toInt (unreadOf s fd).length) else offset.1) whence =
      seekTarget k offset.1 whence := by
  have size : toInt (unreadOf s fd).length = (unreadOf s fd).length :=
    toInt_of_lt (Nat.lt_of_le_of_lt fetched.short (by decide))
  rw [fetched.ahead, size]
  by_cases current : whence = seekCur
  · have exactly : toInt (offset.1 - (unreadOf s fd).length) = offset.1 - (unreadOf s fd).length := by
      rcases allowed with none | ⟨-, fits⟩
      · rw [none]
        simpa using offset.2
      · exact fits current
    have sum : ((k.offset + (unreadOf s fd).length : Nat) : Int) + (offset.1 - (unreadOf s fd).length) =
        k.offset + offset.1 := by
      omega
    have relative : whence ≠ seekSet := by
      rw [current]
      decide
    simp only [seekTarget, if_pos current, if_neg relative, exactly, sum]
  · simp only [seekTarget, if_neg current]

theorem lseek_standsFor (buffered : Buffered fd) (stands : StandsFor s fd k) (offset : Long)
    (allowed : Allowed s fd k (.lseek offset whence)) :
    (lseek fileKernel s fd offset.1 whence).1 = (fileKernel.sysLseek k fd offset.1 whence).1 ∧
      StandsFor (lseek fileKernel s fd offset.1 whence).2 fd (fileKernel.sysLseek k fd offset.1 whence).2 := by
  obtain ⟨fetched, unread⟩ := fflush_fetched buffered stands
  have allowedThere : Allowed (fflush fileKernel s fd).2 fd k (.lseek offset whence) := by
    unfold Allowed at allowed ⊢
    rwa [unread]
  unfold lseek
  rw [if_pos buffered]
  generalize (fflush fileKernel s fd).2 = t at *
  have target := seekTarget_fetched fetched offset allowedThere
  have drained : ∀ k', (fileKernel.sysLseek k fd offset.1 whence).2 = k' →
      Fetched ⟨k', (t.setBuffer fd (t.fdBuffers fd).dropRead).fdBuffers⟩ fd k' := by
    intro k' _
    refine fetched_of_drained ?_ ?_ rfl fun ended => ?_
    · simpa [Libc.setBuffer, FileBuffer.dropRead] using fetched.empty
    · simp [unreadOf, Libc.setBuffer, FileBuffer.dropRead, FileBuffer.unread]
    · simp [Libc.setBuffer, FileBuffer.dropRead] at ended
  have answer : fileKernel.sysLseek t.kernel fd
      (if whence = seekCur then toInt (offset.1 - toInt (unreadOf t fd).length) else offset.1) whence =
      fileKernel.sysLseek k fd offset.1 whence := by
    simp only [fileKernel, target]
    cases found : seekTarget k offset.1 whence with
    | some n => rw [fetched.ahead]
    | none =>
      have none : unreadOf t fd = [] := by
        rcases allowedThere with none | ⟨accepted, -⟩
        · exact none
        · rw [found] at accepted
          cases accepted
      rw [fetched.ahead, none]
      rfl
  have kernel : (t.setBuffer fd (t.fdBuffers fd).dropRead).kernel = t.kernel := rfl
  simp only [kernel, answer]
  exact ⟨trivial, Or.inl (drained _ rfl)⟩

/-- One call through the buffers does what the call to the kernel does. -/
theorem call_standsFor (low : 3 ≤ fd) (high : fd ≤ 31) (stands : StandsFor s fd k) (c : Call)
    (allowed : Allowed s fd k c) :
    ∃ t, bufferedCall fd s c = some ((directCall fd k c).1, t) ∧ StandsFor t fd (directCall fd k c).2 := by
  have buffered : Buffered fd := by
    unfold Buffered libcMaxFds
    omega
  cases c with
  | read count =>
    by_cases none : count = 0
    · have nothing : fileKernel.sysRead k fd count = ((0, []), k) := by
        rw [none]
        simp [fileKernel, toInt]
      have empty : StdioBuffers.read fileKernel s fd count = ((0, []), s) := by
        rw [StdioBuffers.read, if_pos none]
      refine ⟨s, ?_, ?_⟩
      · simp only [bufferedCall, directCall, nothing, empty]
      · simpa only [directCall, nothing] using stands
    · obtain ⟨fetched, unread⟩ := fflush_fetched buffered stands
      have flushed : Allowed (fflush fileKernel s fd).2 fd k (.read count) := by
        rcases stands with same | waiting
        · rwa [fflush_empty fileKernel s same.empty]
        · exact Or.inl (unread.trans waiting.none)
      obtain ⟨result, state⟩ := read_fetched buffered fetched none flushed
      rw [← read_flushed none stands buffered] at result state
      exact ⟨_, congrArg (fun r => Option.some (r, _)) result, Or.inl state⟩
  | write buf =>
    obtain ⟨ret, t, ran, after⟩ := write_standsFor low high stands buf allowed
    exact ⟨t, by simp [bufferedCall, ran, directCall], after⟩
  | lseek offset whence =>
    obtain ⟨result, after⟩ := lseek_standsFor buffered stands offset allowed
    exact ⟨_, congrArg (fun r => Option.some (Result.lseek r, _)) result, after⟩

end

/-! ## Whole sequences -/

def directRun (fd : Int) : SharedFile → List Call → List Result × SharedFile
  | k, [] => ([], k)
  | k, c :: rest =>
    let (result, k) := directCall fd k c
    let (results, k) := directRun fd k rest
    (result :: results, k)

def bufferedRun (fd : Int) : Libc SharedFile → List Call → Option (List Result × Libc SharedFile)
  | s, [] => some ([], s)
  | s, c :: rest =>
    match bufferedCall fd s c with
    | none => none
    | some (result, s) => (bufferedRun fd s rest).map fun done => (result :: done.1, done.2)

/-- Every call is allowed in the state it is made in. -/
def Careful (fd : Int) : Libc SharedFile → SharedFile → List Call → Prop
  | _, _, [] => True
  | s, k, c :: rest => Allowed s fd k c ∧
      ∀ result t, bufferedCall fd s c = some (result, t) → Careful fd t (directCall fd k c).2 rest

section
variable {s : Libc SharedFile} {fd : Int} {k : SharedFile}

theorem run_standsFor (low : 3 ≤ fd) (high : fd ≤ 31) (calls : List Call) (stands : StandsFor s fd k)
    (careful : Careful fd s k calls) :
    ∃ t, bufferedRun fd s calls = some ((directRun fd k calls).1, t) ∧ StandsFor t fd (directRun fd k calls).2 := by
  induction calls generalizing s k with
  | nil => exact ⟨s, rfl, stands⟩
  | cons c rest ih =>
    obtain ⟨allowed, after⟩ := careful
    obtain ⟨t, called, standsT⟩ := call_standsFor low high stands c allowed
    obtain ⟨u, ran, standsU⟩ := ih standsT (after _ t called)
    refine ⟨u, ?_, standsU⟩
    rw [bufferedRun, called]
    simp [ran, directRun]

theorem close_contents (buffered : Buffered fd) (stands : StandsFor s fd k) :
    (close fileKernel s fd).2.kernel.contents = k.contents := by
  have fetched := (fflush_fetched buffered stands).1
  have kernel : (close fileKernel s fd).2.kernel = (fflush fileKernel s fd).2.kernel := by
    unfold close flushFdBuffer
    rw [if_pos buffered]
    rfl
  rw [kernel, fetched.ahead]

theorem start_standsFor (k : SharedFile) : StandsFor (Libc.start k) fd k :=
  Or.inl (fetched_of_drained rfl rfl rfl fun ended => by cases ended)

/-- A careful sequence of calls and the close behind it show the caller what
the kernel would, and leave the file the kernel would leave. -/
theorem buffered_io_invisible (low : 3 ≤ fd) (high : fd ≤ 31) (k : SharedFile) (calls : List Call)
    (careful : Careful fd (Libc.start k) k calls) :
    ∃ s, bufferedRun fd (Libc.start k) calls = some ((directRun fd k calls).1, s) ∧
      (close fileKernel s fd).2.kernel.contents = (directRun fd k calls).2.contents := by
  obtain ⟨s, ran, stands⟩ := run_standsFor low high calls (start_standsFor k) careful
  refine ⟨s, ran, close_contents ?_ stands⟩
  unfold Buffered libcMaxFds
  omega

/-- A file of the letters A and B, open at its start. -/
def letters : SharedFile := ⟨[65, 66], 0⟩

def readLetter : Call := .read 1
def writeLetter : Call := .write ⟨[90], by decide⟩
def seekStart : Call := .lseek ⟨0, by decide⟩ seekSet

theorem buffered_io_invisible_seek : ∃ s,
    bufferedRun 3 (Libc.start letters) [readLetter, seekStart, writeLetter] =
      some ((directRun 3 letters [readLetter, seekStart, writeLetter]).1, s) ∧
    (close fileKernel s 3).2.kernel.contents = [90, 66] := by
  refine buffered_io_invisible (by decide) (by decide) letters [readLetter, seekStart, writeLetter] ?_
  refine ⟨Or.inl rfl, fun r t ran => ?_⟩
  obtain ⟨-, rfl⟩ := Prod.mk.inj (Option.some.inj ran)
  refine ⟨Or.inr ⟨rfl, fun current => absurd current (by decide)⟩, fun r t ran => ?_⟩
  obtain ⟨-, rfl⟩ := Prod.mk.inj (Option.some.inj ran)
  exact ⟨fun _ => rfl, fun _ _ _ => trivial⟩

/-- After a read of the first letter a write lands behind the last. -/
theorem write_after_read_misplaced : ¬ ∀ (fd : Int) (k : SharedFile) (calls : List Call), 3 ≤ fd → fd ≤ 31 →
    ∃ s, bufferedRun fd (Libc.start k) calls = some ((directRun fd k calls).1, s) ∧
      (close fileKernel s fd).2.kernel.contents = (directRun fd k calls).2.contents := by
  intro claim
  obtain ⟨s, ran, same⟩ := claim 3 letters [readLetter, writeLetter] (by decide) (by decide)
  obtain ⟨-, rfl⟩ := Prod.mk.inj (Option.some.inj ran)
  exact absurd same (by decide)

end

end MeowMeowOS.BufferedFile

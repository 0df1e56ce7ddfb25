import MeowMeowOS.StdioBuffers

/-! What a program has written when it ends. `exit` runs the destructors and
leaves; no step of it flushes, so a byte that waits in a descriptor's buffer at
that moment is never passed on. -/
namespace MeowMeowOS.ExitBuffers
open StdioBuffers

/-! ## Programs over a kernel whose writes are recorded -/

/-- For each descriptor, bytes in the order they came. -/
abbrev Log := Int → List UInt8

def Log.add (log : Log) (fd : Int) (bytes : List UInt8) : Log := Function.update log fd (log fd ++ bytes)

/-- The kernel beside the bytes it was given in `sys_write`. -/
def recording (sys : Kernel κ) : Kernel (κ × Log) where
  sysRead k fd count := ((sys.sysRead k.1 fd count).1, (sys.sysRead k.1 fd count).2, k.2)
  sysWrite k fd bytes := ((sys.sysWrite k.1 fd bytes).1, (sys.sysWrite k.1 fd bytes).2, k.2.add fd bytes)
  sysLseek k fd offset whence := ((sys.sysLseek k.1 fd offset whence).1, (sys.sysLseek k.1 fd offset whence).2, k.2)
  sysOpen k path := ((sys.sysOpen k.1 path).1, (sys.sysOpen k.1 path).2, k.2)
  sysClose k fd := ((sys.sysClose k.1 fd).1, (sys.sysClose k.1 fd).2, k.2)
  sysDup k fd := ((sys.sysDup k.1 fd).1, (sys.sysDup k.1 fd).2, k.2)
  sysDup2 k oldfd newfd := ((sys.sysDup2 k.1 oldfd newfd).1, (sys.sysDup2 k.1 oldfd newfd).2, k.2)
  sysExit k status := (sys.sysExit k.1 status, k.2)

/-- The calls of a program. `system` is any system call that goes past the
buffers. -/
inductive Call (κ : Type*) where
  | write (fd : Int) (buf : Buffer)
  | read (fd : Int) (count : Nat)
  | fgetc (fd : Int)
  | lseek (fd offset whence : Int)
  | fflush (fd : Int)
  | openFile (pathname : String)
  | close (fd : Int)
  | dup (oldfd : Int)
  | dup2 (oldfd newfd : Int)
  | system (effect : κ → κ)

/-- A process and the bytes for which `write` has reported success. -/
structure Process (κ : Type*) where
  libc : Libc (κ × Log)
  accepted : Log

def Process.start (k : κ) : Process κ := ⟨Libc.start (k, fun _ => []), fun _ => []⟩

section
variable (sys : Kernel κ)

/-- The state after a call other than `write`. -/
def quietCall (s : Libc (κ × Log)) : Call κ → Libc (κ × Log)
  | .write _ _ => s
  | .read fd count => (read (recording sys) s fd count).2
  | .fgetc fd => (fgetc (recording sys) s fd).2
  | .lseek fd offset whence => (lseek (recording sys) s fd offset whence).2
  | .fflush fd => (fflush (recording sys) s fd).2
  | .openFile pathname => (openFile (recording sys) s pathname).2
  | .close fd => (close (recording sys) s fd).2
  | .dup oldfd => (dup (recording sys) s oldfd).2
  | .dup2 oldfd newfd => (dup2 (recording sys) s oldfd newfd).2
  | .system effect => { s with kernel := (effect s.kernel.1, s.kernel.2) }

def call (p : Process κ) : Call κ → Option (Process κ)
  | .write fd buf =>
    match write (recording sys) p.libc fd buf with
    | none => none
    | some (ret, s) => some ⟨s, p.accepted.add fd (buf.1.take ret.toNat)⟩
  | other => some { p with libc := quietCall sys p.libc other }

def runCalls (p : Process κ) : List (Call κ) → Option (Process κ)
  | [] => some p
  | c :: rest =>
    match call sys p c with
    | none => none
    | some p => runCalls p rest

/-- `_fini` calls the destructors from the last to the first. -/
def fini (p : Process κ) (destructors : List (List (Call κ))) : Option (Process κ) :=
  runCalls sys p destructors.reverse.flatten

/-- The process is gone; its buffers go with it as they are. -/
def sysExit (p : Process κ) (status : Int) : Process κ :=
  { p with libc := { p.libc with kernel := (recording sys).sysExit p.libc.kernel status } }

def exit (p : Process κ) (destructors : List (List (Call κ))) (status : Int) : Option (Process κ) :=
  match fini sys p destructors with
  | none => none
  | some p => some (sysExit sys p status)

/-- `_start`: the constructors, `main` up to its return or its call of `exit`,
then `exit` with the result or the status. -/
def startProgram (k : κ) (constructors : List (List (Call κ))) (main : List (Call κ))
    (destructors : List (List (Call κ))) (status : Int) : Option (Process κ) :=
  match runCalls sys (Process.start k) (constructors.flatten ++ main) with
  | none => none
  | some p => exit sys p destructors status

end

/-! ## Where the accepted bytes are -/

section
variable {sys : Kernel κ} {s t u : Libc (κ × Log)} {fd : Int}

/-- The bytes passed to `sys_write` followed by those that wait. -/
def sent (s : Libc (κ × Log)) (fd : Int) : List UInt8 := s.kernel.2 fd ++ (s.fdBuffers fd).writeBuffer

/-- No buffer is full, and the descriptors that `write` passes by have none. -/
structure Room (s : Libc (κ × Log)) : Prop where
  short : ∀ fd, (s.fdBuffers fd).writeBuffer.length < stdioBufSize
  unused : ∀ fd, fd ≤ 2 ∨ libcMaxFds ≤ fd → (s.fdBuffers fd).writeBuffer = []

/-- A step that neither adds nor loses a byte. -/
structure Keeps (s t : Libc (κ × Log)) : Prop where
  sent : ∀ fd, sent t fd = sent s fd
  room : Room s → Room t

theorem Keeps.refl : Keeps s s := ⟨fun _ => rfl, id⟩

theorem Keeps.trans (first : Keeps s t) (second : Keeps t u) : Keeps s u :=
  ⟨fun fd => (second.sent fd).trans (first.sent fd), fun room => second.room (first.room room)⟩

/-- Only the write buffers and the log matter. -/
theorem keeps_of_same (log : t.kernel.2 = s.kernel.2)
    (same : ∀ fd, (t.fdBuffers fd).writeBuffer = (s.fdBuffers fd).writeBuffer) : Keeps s t := by
  refine ⟨fun fd => ?_, fun room => ⟨fun fd => ?_, fun fd direct => ?_⟩⟩
  · rw [ExitBuffers.sent, log, same, ExitBuffers.sent]
  · rw [same]
    exact room.short fd
  · rw [same]
    exact room.unused fd direct

theorem keeps_setBuffer (same : fb.writeBuffer = (s.fdBuffers fd).writeBuffer) : Keeps s (s.setBuffer fd fb) := by
  refine keeps_of_same rfl fun f => ?_
  by_cases here : f = fd
  · subst here
    simpa [Libc.setBuffer] using same
  · simp [Libc.setBuffer, here]

theorem keeps_answer (log : k.2 = s.kernel.2) (same : fb.writeBuffer = (s.fdBuffers fd).writeBuffer) :
    Keeps s (Libc.setBuffer { s with kernel := k } fd fb) :=
  (keeps_of_same (t := { s with kernel := k }) log fun _ => rfl).trans (keeps_setBuffer same)

theorem passAll_log (chunks : List (List UInt8)) (k : κ × Log) (f : Int) :
    (passAll (recording sys) fd k chunks).2 f = if f = fd then k.2 f ++ chunks.flatten else k.2 f := by
  induction chunks generalizing k with
  | nil => simp [passAll]
  | cons bytes rest ih =>
    have step : passAll (recording sys) fd k (bytes :: rest) =
        passAll (recording sys) fd ((recording sys).sysWrite k fd bytes).2 rest := rfl
    rw [step, ih]
    by_cases here : f = fd
    · subst here
      simp [recording, Log.add]
    · simp [recording, Log.add, here]

theorem sent_passed (f : Int) : sent (s.passed (recording sys) fd chunks rest) f =
    if f = fd then s.kernel.2 f ++ (chunks.flatten ++ rest) else sent s f := by
  unfold sent Libc.passed
  by_cases here : f = fd
  · subst here
    simp [passAll_log]
  · simp [passAll_log, here]

theorem room_passed (room : Room s) (short : rest.length < stdioBufSize)
    (unused : fd ≤ 2 ∨ libcMaxFds ≤ fd → rest = []) : Room (s.passed (recording sys) fd chunks rest) := by
  constructor <;> intro f
  · by_cases here : f = fd
    · subst here
      rwa [passed_writeBuffer]
    · simpa [Libc.passed, here] using room.short f
  · intro direct
    by_cases here : f = fd
    · subst here
      rw [passed_writeBuffer]
      exact unused direct
    · simpa [Libc.passed, here] using room.unused f direct

theorem accepts_recording (accepts : AcceptsAll sys) : AcceptsAll (recording sys) :=
  fun k fd bytes fits => accepts k.1 fd bytes fits

/-! ## What each call does with them -/

theorem fflush_keeps (accepts : AcceptsAll sys) (room : Room s) : Keeps s (fflush (recording sys) s fd).2 := by
  by_cases buffered : Buffered fd
  · rw [fflush_passed (accepts_recording accepts) buffered (Nat.le_of_lt (room.short fd))]
    refine ⟨fun f => ?_, fun _ => room_passed room (by decide) fun _ => rfl⟩
    rw [sent_passed]
    split
    · rename_i here
      subst here
      simp [sent]
    · rfl
  · rw [fflush, if_pos buffered]
    exact Keeps.refl

theorem flushFdBuffer_keeps (accepts : AcceptsAll sys) (room : Room s) :
    Keeps s (flushFdBuffer (recording sys) s fd) := by
  unfold flushFdBuffer
  split
  · exact (fflush_keeps accepts room).trans (keeps_setBuffer rfl)
  · exact Keeps.refl

theorem copyUnread_writeBuffer (n : Nat) (fb : FileBuffer) :
    (copyUnread n fb).2.writeBuffer = fb.writeBuffer := by rw [copyUnread_copies]

/-- The flush in front of a read. -/
theorem flushPending_keeps (accepts : AcceptsAll sys) (room : Room s) (fd : Int) : Keeps s
    (if 0 < (s.fdBuffers fd).writeBuffer.length then (fflush (recording sys) s fd).2 else s) := by
  split
  · exact fflush_keeps accepts room
  · exact Keeps.refl

theorem read_keeps (accepts : AcceptsAll sys) (room : Room s) :
    Keeps s (StdioBuffers.read (recording sys) s fd count).2 := by
  unfold StdioBuffers.read
  split
  · exact Keeps.refl
  · split
    · exact keeps_of_same rfl fun _ => rfl
    · refine (flushPending_keeps accepts room fd).trans ?_
      generalize (if 0 < (s.fdBuffers fd).writeBuffer.length then (fflush (recording sys) s fd).2 else s) = flushed
      have copied := copyUnread_writeBuffer count (flushed.fdBuffers fd)
      dsimp only
      generalize copyUnread count (flushed.fdBuffers fd) = fetched at *
      have base : Keeps flushed (flushed.setBuffer fd fetched.2) := keeps_setBuffer copied
      split
      · exact base
      · split
        · split
          · exact base.trans (keeps_of_same rfl fun _ => rfl)
          · split <;> exact base.trans (keeps_of_same rfl fun _ => rfl)
        · split
          · have buffer : ((flushed.setBuffer fd fetched.2).fdBuffers fd).writeBuffer = fetched.2.writeBuffer := by
              simp [Libc.setBuffer]
            split
            · exact base.trans (keeps_answer rfl buffer.symm)
            · exact base.trans (keeps_answer rfl ((copyUnread_writeBuffer _ _).trans buffer.symm))
          · exact base

theorem fgetc_keeps (accepts : AcceptsAll sys) (room : Room s) : Keeps s (fgetc (recording sys) s fd).2 := by
  unfold fgetc
  split
  · exact keeps_of_same rfl fun _ => rfl
  · refine (flushPending_keeps accepts room fd).trans ?_
    generalize (if 0 < (s.fdBuffers fd).writeBuffer.length then (fflush (recording sys) s fd).2 else s) = flushed
    dsimp only
    split
    · exact keeps_setBuffer rfl
    · split
      · exact Keeps.refl
      · split
        · exact keeps_answer rfl rfl
        · exact keeps_answer rfl rfl

theorem lseek_keeps (accepts : AcceptsAll sys) (room : Room s) :
    Keeps s (lseek (recording sys) s fd offset whence).2 := by
  unfold lseek
  split
  · have flushed : Keeps s (fflush (recording sys) s fd).2 := fflush_keeps accepts room
    have dropped : Keeps (fflush (recording sys) s fd).2 ((fflush (recording sys) s fd).2.setBuffer fd
        ((fflush (recording sys) s fd).2.fdBuffers fd).dropRead) := keeps_setBuffer rfl
    exact (flushed.trans dropped).trans (keeps_of_same rfl fun _ => rfl)
  · exact keeps_of_same rfl fun _ => rfl

theorem openFile_keeps (accepts : AcceptsAll sys) (room : Room s) :
    Keeps s (openFile (recording sys) s pathname).2 := by
  unfold openFile
  have opened : Keeps s { s with kernel := ((recording sys).sysOpen s.kernel pathname).2 } :=
    keeps_of_same rfl fun _ => rfl
  dsimp only
  split
  · exact opened.trans (flushFdBuffer_keeps accepts (opened.room room))
  · exact opened

theorem quietCall_keeps (accepts : AcceptsAll sys) (room : Room s) (c : Call κ) :
    Keeps s (quietCall sys s c) := by
  cases c with
  | write fd buf => exact Keeps.refl
  | read fd count => exact read_keeps accepts room
  | fgetc fd => exact fgetc_keeps accepts room
  | lseek fd offset whence => exact lseek_keeps accepts room
  | fflush fd => exact fflush_keeps accepts room
  | openFile pathname => exact openFile_keeps accepts room
  | close fd => exact (flushFdBuffer_keeps accepts room).trans (keeps_of_same rfl fun _ => rfl)
  | dup oldfd => exact keeps_of_same rfl fun _ => rfl
  | dup2 oldfd newfd => exact (flushFdBuffer_keeps accepts room).trans (keeps_of_same rfl fun _ => rfl)
  | system effect => exact keeps_of_same rfl fun _ => rfl

/-- A `write` puts the caller's bytes behind those sent before. -/
theorem write_sent (accepts : AcceptsAll sys) (room : Room s) (fd : Int) (buf : Buffer) :
    ∃ ret t, StdioBuffers.write (recording sys) s fd buf = some (ret, t) ∧ Room t ∧
      (∀ f, sent t f = if f = fd then sent s f ++ buf.1 else sent s f) ∧
      (buf.1.length < 2 ^ 31 → ret = buf.1.length) := by
  unfold StdioBuffers.write
  by_cases none : buf.1.length = 0
  · have empty : buf.1 = [] := List.length_eq_zero_iff.mp none
    exact ⟨0, s, if_pos none, room, by simp [empty], fun _ => by simp [none]⟩
  · rw [if_neg none]
    by_cases direct : fd ≤ 2 ∨ libcMaxFds ≤ fd
    · have unused := room.unused fd direct
      have kernel : (⟨((recording sys).sysWrite s.kernel fd buf.1).2, s.fdBuffers⟩ : Libc (κ × Log)) =
          s.passed (recording sys) fd [buf.1] [] := by
        unfold Libc.passed
        rw [← unused, Function.update_eq_self]
        rfl
      rw [if_pos direct]
      refine ⟨_, _, rfl, ?_, fun f => ?_, fun small => ?_⟩
      · simp only [kernel]
        exact room_passed room (by decide) fun _ => rfl
      · simp only [kernel, sent_passed]
        split
        · rename_i here
          subst here
          simp [sent, unused]
        · rfl
      · rw [accepts_recording accepts _ _ _ buf.2]
        exact toInt_of_lt small
    · have buffered : Buffered fd := by
        unfold libcMaxFds at *
        unfold Buffered libcMaxFds
        omega
      rw [if_neg direct]
      obtain ⟨chunks, rest, ret, ran, kept, short, value⟩ := writeLoop_passed (accepts_recording accepts)
        buffered s buf.1 0 buf.2 (room.short fd) (Nat.lt_succ_self _)
      refine ⟨ret, _, ran, room_passed room short fun outside => absurd outside direct, fun f => ?_, ?_⟩
      · rw [sent_passed, kept]
        split
        · rename_i here
          subst here
          rw [sent, List.append_assoc]
        · rfl
      · intro small
        simpa using value (by omega)

end

/-! ## Runs -/

section
variable {sys : Kernel κ} {p q : Process κ}

/-- The bytes of every accepted write have been sent, in order. -/
structure Accounted (p : Process κ) : Prop where
  room : Room p.libc
  within : ∀ fd, (p.accepted fd).Sublist (sent p.libc fd)

/-- Each write is of a size that an `int` can report. -/
def Reportable : Call κ → Prop
  | .write _ buf => buf.1.length < 2 ^ 31
  | _ => True

def Exact (p : Process κ) : Prop := ∀ fd, p.accepted fd = sent p.libc fd

theorem call_accounted (accepts : AcceptsAll sys) (before : Accounted p) (c : Call κ) :
    ∃ q, call sys p c = some q ∧ Accounted q ∧ (Reportable c → Exact p → Exact q) := by
  have quiet := quietCall_keeps accepts before.room c
  have other : Accounted { p with libc := quietCall sys p.libc c } ∧
      (Exact p → Exact { p with libc := quietCall sys p.libc c }) := by
    refine ⟨⟨quiet.room before.room, fun fd => ?_⟩, fun exact fd => ?_⟩
    · rw [quiet.sent]
      exact before.within fd
    · rw [quiet.sent]
      exact exact fd
  cases c with
  | write fd buf =>
    obtain ⟨ret, t, ran, room, moved, value⟩ := write_sent accepts before.room fd buf
    refine ⟨⟨t, p.accepted.add fd (buf.1.take ret.toNat)⟩, by simp [call, ran], ⟨room, fun f => ?_⟩, ?_⟩
    · rw [moved]
      by_cases here : f = fd
      · subst here
        simpa [Log.add] using (before.within f).append (List.take_sublist _ _)
      · simpa [Log.add, here] using before.within f
    · intro small exact f
      simp only [moved, value small, Int.toNat_natCast, List.take_length]
      by_cases here : f = fd
      · subst here
        simp [Log.add, exact f]
      · simp [Log.add, here, exact f]
  | read fd count => exact ⟨_, rfl, other.1, fun _ => other.2⟩
  | fgetc fd => exact ⟨_, rfl, other.1, fun _ => other.2⟩
  | lseek fd offset whence => exact ⟨_, rfl, other.1, fun _ => other.2⟩
  | fflush fd => exact ⟨_, rfl, other.1, fun _ => other.2⟩
  | openFile pathname => exact ⟨_, rfl, other.1, fun _ => other.2⟩
  | close fd => exact ⟨_, rfl, other.1, fun _ => other.2⟩
  | dup oldfd => exact ⟨_, rfl, other.1, fun _ => other.2⟩
  | dup2 oldfd newfd => exact ⟨_, rfl, other.1, fun _ => other.2⟩
  | system effect => exact ⟨_, rfl, other.1, fun _ => other.2⟩

theorem runCalls_accounted (accepts : AcceptsAll sys) (before : Accounted p) (calls : List (Call κ)) :
    ∃ q, runCalls sys p calls = some q ∧ Accounted q ∧
    ((∀ c ∈ calls, Reportable c) → Exact p → Exact q) := by
  induction calls generalizing p with
  | nil => exact ⟨p, rfl, before, fun _ => id⟩
  | cons c rest ih =>
    obtain ⟨q, stepped, accounted, exact⟩ := call_accounted accepts before c
    obtain ⟨r, ran, last, exactRest⟩ := ih accounted
    refine ⟨r, by rw [runCalls, stepped]; exact ran, last, fun small before => ?_⟩
    exact exactRest (fun d member => small d (List.mem_cons_of_mem _ member))
      (exact (small c List.mem_cons_self) before)

theorem runCalls_append (p : Process κ) (first more : List (Call κ)) : runCalls sys p (first ++ more) =
    match runCalls sys p first with
    | none => none
    | some q => runCalls sys q more := by
  induction first generalizing p with
  | nil => rfl
  | cons c rest ih =>
    simp only [List.cons_append, runCalls]
    cases call sys p c with
    | none => rfl
    | some q => exact ih q

theorem start_accounted (k : κ) : Accounted (Process.start k) :=
  ⟨⟨fun _ => (by decide : 0 < stdioBufSize), fun _ _ => rfl⟩, fun _ => List.Sublist.refl _⟩

/-! ## At the end -/

/-- Every byte for which `write` reported success has been passed to
`sys_write` on its descriptor, in order. -/
def Delivered (p : Process κ) : Prop := ∀ fd, (p.accepted fd).Sublist (p.libc.kernel.2 fd)

/-- All write buffers are empty. -/
def NothingWaits (p : Process κ) : Prop := ∀ fd, (p.libc.fdBuffers fd).writeBuffer = []

theorem delivered_of_nothingWaits (accounted : Accounted p) (empty : NothingWaits p) : Delivered p := by
  intro fd
  have within := accounted.within fd
  rwa [sent, empty fd, List.append_nil] at within

theorem nothingWaits_of_delivered (exact : Exact p) (delivered : Delivered p) : NothingWaits p := by
  intro fd
  have short := (delivered fd).length_le
  rw [exact fd, sent, List.length_append] at short
  exact List.length_eq_zero_iff.mp (by omega)

theorem startProgram_runs (constructors : List (List (Call κ))) (main : List (Call κ))
    (ran : runCalls sys (Process.start k) (constructors.flatten ++ main ++ destructors.reverse.flatten) = some p) :
    startProgram sys k constructors main destructors status = some (sysExit sys p status) := by
  rw [runCalls_append] at ran
  unfold startProgram exit fini
  split at ran
  · cases ran
  · rename_i q reached
    simp only [ran]

/-- A program that ends has lost a byte exactly when a buffer holds one. -/
theorem exit_delivers_iff (accepts : AcceptsAll sys) (k : κ) (constructors : List (List (Call κ)))
    (main : List (Call κ)) (destructors : List (List (Call κ))) (status : Int) :
    ∃ p, startProgram sys k constructors main destructors status = some p ∧
      (NothingWaits p → Delivered p) ∧
      ((∀ c ∈ constructors.flatten ++ main ++ destructors.reverse.flatten, Reportable c) →
        Delivered p → NothingWaits p) := by
  obtain ⟨p, ran, accounted, exact⟩ := runCalls_accounted accepts (start_accounted k)
    (constructors.flatten ++ main ++ destructors.reverse.flatten)
  have enough : NothingWaits p → Delivered p := delivered_of_nothingWaits accounted
  refine ⟨sysExit sys p status, startProgram_runs constructors main ran, enough, fun small delivered => ?_⟩
  have needed : NothingWaits p := nothingWaits_of_delivered (exact small fun _ => rfl) delivered
  exact needed

/-- What a program can do before it ends: flush every descriptor. -/
def flushAll : List (Call κ) := (List.range 32).map fun fd : Nat => .fflush fd

theorem fflush_writeBuffer (accepts : AcceptsAll sys) (room : Room s) (buffered : Buffered fd) (f : Int) :
    ((fflush (recording sys) s fd).2.fdBuffers f).writeBuffer =
      if f = fd then [] else (s.fdBuffers f).writeBuffer := by
  rw [fflush_passed (accepts_recording accepts) buffered (Nat.le_of_lt (room.short fd))]
  by_cases here : f = fd
  · subst here
    simp
  · simp [Libc.passed, here]

theorem runCalls_flushes (accepts : AcceptsAll sys) (accounted : Accounted p) (fds : List Nat)
    (table : ∀ fd ∈ fds, fd < 32) :
    ∃ q, runCalls sys p (fds.map fun fd : Nat => .fflush fd) = some q ∧ Accounted q ∧
      ∀ f : Int, (∃ fd ∈ fds, f = (fd : Int)) ∨ (p.libc.fdBuffers f).writeBuffer = [] →
        (q.libc.fdBuffers f).writeBuffer = [] := by
  induction fds generalizing p with
  | nil => exact ⟨p, rfl, accounted, fun f held => held.resolve_left (by simp)⟩
  | cons fd rest ih =>
    have buffered : Buffered fd := by
      have := table fd List.mem_cons_self
      unfold Buffered libcMaxFds
      omega
    have emptied := fflush_writeBuffer accepts accounted.room buffered
    obtain ⟨r, stepped, accountedR, -⟩ := call_accounted accepts accounted (.fflush fd)
    obtain rfl := Option.some.inj stepped
    obtain ⟨q, ran, accountedQ, last⟩ := ih accountedR fun f member => table f (List.mem_cons_of_mem _ member)
    refine ⟨q, ran, accountedQ, fun f held => last f ?_⟩
    rcases held with ⟨g, member, rfl⟩ | empty
    · rcases List.mem_cons.mp member with here | later
      · exact Or.inr ((emptied g).trans (if_pos (by rw [here])))
      · exact Or.inl ⟨g, later, rfl⟩
    · refine Or.inr ((emptied f).trans ?_)
      rw [empty, ite_self]

/-- Flushing every descriptor last is enough. -/
theorem flushAll_nothingWaits (accepts : AcceptsAll sys) (accounted : Accounted p) :
    ∃ q, runCalls sys p flushAll = some q ∧ NothingWaits q := by
  obtain ⟨q, ran, -, empty⟩ := runCalls_flushes accepts accounted (List.range 32)
    fun fd member => List.mem_range.mp member
  refine ⟨q, ran, fun f => empty f ?_⟩
  by_cases buffered : 0 ≤ f ∧ f < 32
  · exact Or.inl ⟨f.toNat, List.mem_range.mpr (by omega), by omega⟩
  · refine Or.inr (accounted.room.unused f ?_)
    unfold libcMaxFds
    omega

/-- A kernel that takes every write and does nothing else. -/
def sink : Kernel Unit where
  sysRead _ _ _ := ((0, []), ())
  sysWrite _ _ bytes := (toInt bytes.length, ())
  sysLseek _ _ _ _ := (0, ())
  sysOpen _ _ := (3, ())
  sysClose _ _ := (0, ())
  sysDup _ _ := (4, ())
  sysDup2 _ _ newfd := (newfd, ())
  sysExit _ _ := ()

theorem sink_accepts : AcceptsAll sink := by
  intro k fd bytes fits
  simp only [sink]

/-- The letter A. -/
def letter : Buffer := ⟨[65], by decide⟩

theorem exit_delivers_iff_sink : ∃ p, startProgram sink () [] [.write 3 letter] [flushAll] 0 = some p ∧
    Delivered p := by
  obtain ⟨p, ran, delivers, -⟩ := exit_delivers_iff sink_accepts () [] [.write 3 letter] [flushAll] 0
  obtain ⟨q, wrote, accounted, -⟩ := runCalls_accounted sink_accepts (start_accounted ()) [.write 3 letter]
  obtain ⟨r, flushed, empty⟩ := flushAll_nothingWaits sink_accepts accounted
  have all : runCalls sink (Process.start ()) (([] : List (List (Call Unit))).flatten ++ [.write 3 letter] ++
      [flushAll].reverse.flatten) = some r := by
    rw [runCalls_append, List.flatten_nil, List.nil_append, wrote]
    simpa using flushed
  rw [startProgram_runs [] [.write 3 letter] all, Option.some.injEq] at ran
  subst ran
  exact ⟨_, startProgram_runs [] [.write 3 letter] all, delivers empty⟩

/-- A byte written to a file's descriptor is lost when `main` returns. -/
theorem exit_loses_buffer : ¬ ∀ (κ : Type) (sys : Kernel κ) (k : κ) (constructors : List (List (Call κ)))
    (main : List (Call κ)) (destructors : List (List (Call κ))) (status : Int) (p : Process κ),
    AcceptsAll sys → startProgram sys k constructors main destructors status = some p → Delivered p := by
  intro claim
  obtain ⟨p, ran, -⟩ := exit_delivers_iff sink_accepts () [] [.write 3 letter] [] 0
  have lost := claim _ _ _ _ _ _ 0 p sink_accepts ran 3
  rw [← Option.some.inj ran] at lost
  exact absurd lost (by decide)

end

end MeowMeowOS.ExitBuffers

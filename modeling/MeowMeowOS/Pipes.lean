import MeowMeowOS.GuardedRuns
import MeowMeowOS.RingQueue
import Mathlib.Data.UInt

/-! A pipe and the calls on its two ends. A call is split at its critical
sections, each of which moves one byte, ends the call or lets it try again;
the sections of all calls may follow each other in any order. -/
namespace MeowMeowOS.Pipes
open GuardedRuns RingQueue

def pipeBufferSize : Nat := 4096

structure PipeRing where
  buffer : Nat → UInt8
  head : Nat
  tail : Nat
  availableBytes : Nat
  readClosed : Bool
  writeClosed : Bool

/-- A `pipe_vfs_read` in progress: `buffer` holds the bytes it has read, and
`stopped` is set once it has left its loop by a `break`. -/
structure ReadCall where
  size : Nat
  buffer : List UInt8
  stopped : Bool

/-- A `pipe_vfs_write` in progress. -/
structure WriteCall where
  data : List UInt8
  bytesWritten : Nat
  stopped : Bool

def ReadCall.Running (call : ReadCall) : Prop := call.stopped = false ∧ call.buffer.length < call.size

instance (call : ReadCall) : Decidable call.Running := inferInstanceAs (Decidable (_ ∧ _))

def WriteCall.Running (call : WriteCall) : Prop := call.stopped = false ∧ call.bytesWritten < call.data.length

instance (call : WriteCall) : Decidable call.Running := inferInstanceAs (Decidable (_ ∧ _))

/-- One critical section of `pipe_vfs_read`. -/
def readSection (pipe : PipeRing) (call : ReadCall) : PipeRing × ReadCall :=
  if 0 < pipe.availableBytes then
    ({ pipe with
        head := (pipe.head + 1) % pipeBufferSize
        availableBytes := pipe.availableBytes - 1 },
      { call with buffer := call.buffer ++ [pipe.buffer pipe.head] })
  else if 0 < call.buffer.length then (pipe, { call with stopped := true })
  else if pipe.writeClosed then (pipe, { call with stopped := true })
  else (pipe, call)

/-- One critical section of `pipe_vfs_write`. -/
def writeSection (pipe : PipeRing) (call : WriteCall) : PipeRing × WriteCall :=
  if pipe.readClosed then (pipe, { call with stopped := true })
  else if pipe.availableBytes < pipeBufferSize then
    ({ pipe with
        buffer := Function.update pipe.buffer pipe.tail (call.data.getD call.bytesWritten 0)
        tail := (pipe.tail + 1) % pipeBufferSize
        availableBytes := pipe.availableBytes + 1 },
      { call with bytesWritten := call.bytesWritten + 1 })
  else (pipe, call)

/-- The pipe with the calls in progress on it, and the bytes that critical
sections have written and read so far. -/
structure PipeSystem where
  pipe : PipeRing
  readers : Nat → Option ReadCall
  writers : Nat → Option WriteCall
  written : List UInt8
  taken : List UInt8

/-- The state that `pipe_create` leaves. -/
def pipeCreate : PipeSystem :=
  ⟨⟨fun _ => 0, 0, 0, 0, false, false⟩, fun _ => none, fun _ => none, [], []⟩

inductive Event where
  | callRead (caller size : Nat)
  | callWrite (caller : Nat) (data : List UInt8)
  | sectionRead (caller : Nat)
  | sectionWrite (caller : Nat)
  | returnRead (caller bytesRead : Nat)
  | returnWrite (caller bytesWritten : Nat)
  | closeRead
  | closeWrite

/-- An end is closed only when no call on it is in progress, and no call on it
follows. -/
inductive Step : PipeSystem → Event → PipeSystem → Prop where
  | callRead (s : PipeSystem) (caller size : Nat) (idle : s.readers caller = none)
      (opened : s.pipe.readClosed = false) :
      Step s (.callRead caller size) { s with readers := Function.update s.readers caller (some ⟨size, [], false⟩) }
  | callWrite (s : PipeSystem) (caller : Nat) (data : List UInt8) (idle : s.writers caller = none)
      (opened : s.pipe.writeClosed = false) :
      Step s (.callWrite caller data) { s with writers := Function.update s.writers caller (some ⟨data, 0, false⟩) }
  | sectionRead (s : PipeSystem) (caller : Nat) (call : ReadCall) (held : s.readers caller = some call)
      (running : call.Running) :
      Step s (.sectionRead caller) { s with
        pipe := (readSection s.pipe call).1
        readers := Function.update s.readers caller (some (readSection s.pipe call).2)
        taken := s.taken ++ (readSection s.pipe call).2.buffer.drop call.buffer.length }
  | sectionWrite (s : PipeSystem) (caller : Nat) (call : WriteCall) (held : s.writers caller = some call)
      (running : call.Running) :
      Step s (.sectionWrite caller) { s with
        pipe := (writeSection s.pipe call).1
        writers := Function.update s.writers caller (some (writeSection s.pipe call).2)
        written := s.written ++
          (call.data.drop call.bytesWritten).take ((writeSection s.pipe call).2.bytesWritten - call.bytesWritten) }
  | returnRead (s : PipeSystem) (caller : Nat) (call : ReadCall) (held : s.readers caller = some call)
      (ended : ¬ call.Running) :
      Step s (.returnRead caller call.buffer.length) { s with readers := Function.update s.readers caller none }
  | returnWrite (s : PipeSystem) (caller : Nat) (call : WriteCall) (held : s.writers caller = some call)
      (ended : ¬ call.Running) :
      Step s (.returnWrite caller call.bytesWritten) { s with writers := Function.update s.writers caller none }
  | closeRead (s : PipeSystem) (idle : ∀ caller, s.readers caller = none) :
      Step s .closeRead { s with pipe := { s.pipe with readClosed := true } }
  | closeWrite (s : PipeSystem) (idle : ∀ caller, s.writers caller = none) :
      Step s .closeWrite { s with pipe := { s.pipe with writeClosed := true } }

/-- The pipe as a queue: what has been written is what has been read, then what
the ring holds. -/
structure Fifo (s : PipeSystem) : Prop where
  taken : s.taken <+: s.written
  count : s.pipe.availableBytes = s.written.length - s.taken.length ∧ s.pipe.availableBytes ≤ pipeBufferSize
  tail : (s.pipe.head + s.pipe.availableBytes) % pipeBufferSize = s.pipe.tail

/-- The ring holds the bytes that are written and not yet read. -/
structure Flow (s : PipeSystem) (pending : List UInt8) : Prop where
  written : s.written = s.taken ++ pending
  held : Holds pipeBufferSize s.pipe.buffer s.pipe.head pending
  count : s.pipe.availableBytes = pending.length ∧ pending.length ≤ pipeBufferSize
  head : s.pipe.head < pipeBufferSize
  tail : s.pipe.tail = (s.pipe.head + pending.length) % pipeBufferSize

/-- What is known of the calls in progress and of the ends that are closed. -/
structure Calls (s : PipeSystem) : Prop where
  readers : ∀ caller call, s.readers caller = some call → call.stopped = true → call.buffer = [] →
    s.pipe.writeClosed = true ∧ s.pipe.availableBytes = 0
  writers : ∀ caller call, s.writers caller = some call → call.stopped = true → s.pipe.readClosed = true
  readClosed : s.pipe.readClosed = true → ∀ caller, s.readers caller = none
  writeClosed : s.pipe.writeClosed = true → ∀ caller, s.writers caller = none

section
variable {s t : PipeSystem} {pending : List UInt8}

theorem flow_fifo (flow : Flow s pending) : Fifo s := by
  obtain ⟨count, room⟩ := flow.count
  refine ⟨⟨pending, flow.written.symm⟩, ⟨?_, by omega⟩, ?_⟩
  · rw [flow.written, List.length_append, count]
    omega
  · rw [count, flow.tail]

theorem flow_congr (flow : Flow s pending) (pipe : t.pipe = s.pipe) (written : t.written = s.written)
    (taken : t.taken = s.taken) : Flow t pending := by
  refine ⟨?_, ?_, ?_, ?_, ?_⟩
  · rw [written, taken]
    exact flow.written
  · rw [pipe]
    exact flow.held
  · rw [pipe]
    exact flow.count
  · rw [pipe]
    exact flow.head
  · rw [pipe]
    exact flow.tail

theorem flow_start : Flow pipeCreate [] :=
  ⟨rfl, holds_nil, ⟨rfl, Nat.zero_le _⟩, by decide, rfl⟩

theorem calls_start : Calls pipeCreate := by
  refine ⟨?_, ?_, ?_, ?_⟩ <;> simp [pipeCreate]

/-! ## What one critical section does -/

theorem readSection_cases (pipe : PipeRing) (call : ReadCall) :
    (0 < pipe.availableBytes ∧ readSection pipe call =
      ({ pipe with head := (pipe.head + 1) % pipeBufferSize, availableBytes := pipe.availableBytes - 1 },
        { call with buffer := call.buffer ++ [pipe.buffer pipe.head] })) ∨
      (pipe.availableBytes = 0 ∧ (call.buffer ≠ [] ∨ pipe.writeClosed = true) ∧
        readSection pipe call = (pipe, { call with stopped := true })) ∨
      readSection pipe call = (pipe, call) := by
  unfold readSection
  split
  · rename_i some
    exact Or.inl ⟨some, rfl⟩
  · rename_i none
    have empty : pipe.availableBytes = 0 := by omega
    split
    · rename_i collected
      exact Or.inr (Or.inl ⟨empty, Or.inl (List.ne_nil_of_length_pos collected), rfl⟩)
    · split
      · rename_i closed
        exact Or.inr (Or.inl ⟨empty, Or.inr closed, rfl⟩)
      · exact Or.inr (Or.inr rfl)

theorem writeSection_cases (pipe : PipeRing) (call : WriteCall) :
    (pipe.availableBytes < pipeBufferSize ∧ writeSection pipe call =
      ({ pipe with
          buffer := Function.update pipe.buffer pipe.tail (call.data.getD call.bytesWritten 0)
          tail := (pipe.tail + 1) % pipeBufferSize
          availableBytes := pipe.availableBytes + 1 },
        { call with bytesWritten := call.bytesWritten + 1 })) ∨
      (pipe.readClosed = true ∧ writeSection pipe call = (pipe, { call with stopped := true })) ∨
      writeSection pipe call = (pipe, call) := by
  unfold writeSection
  split
  · rename_i closed
    exact Or.inr (Or.inl ⟨closed, rfl⟩)
  · split
    · rename_i room
      exact Or.inl ⟨room, rfl⟩
    · exact Or.inr (Or.inr rfl)

/-- A section of a read takes the oldest byte of the ring, or none. -/
theorem flow_read (flow : Flow s pending) (call : ReadCall) (readers : Nat → Option ReadCall) :
    ∃ rest, Flow { s with
      pipe := (readSection s.pipe call).1
      readers := readers
      taken := s.taken ++ (readSection s.pipe call).2.buffer.drop call.buffer.length } rest := by
  obtain ⟨count, room⟩ := flow.count
  rcases readSection_cases s.pipe call with ⟨some, same⟩ | ⟨-, -, same⟩ | same
  · cases pending with
    | nil =>
      rw [count] at some
      contradiction
    | cons x rest =>
      have first : s.pipe.buffer s.pipe.head = x := by
        have := holds_first flow.held
        rwa [Nat.mod_eq_of_lt flow.head] at this
      rw [List.length_cons] at count room
      refine ⟨rest, ?_, ?_, ?_, ?_, ?_⟩
      · rw [same, first, flow.written]
        simp
      · rw [same]
        exact holds_pop flow.held
      · rw [same]
        dsimp only
        omega
      · rw [same]
        exact Nat.mod_lt _ (by decide)
      · rw [same]
        dsimp only
        rw [flow.tail, List.length_cons, Nat.mod_add_mod]
        congr 1
        omega
  · rw [same, List.drop_length, List.append_nil]
    exact ⟨pending, flow_congr flow rfl rfl rfl⟩
  · rw [same, List.drop_length, List.append_nil]
    exact ⟨pending, flow_congr flow rfl rfl rfl⟩

/-- A section of a write adds the next byte of its data behind the others, or
none. -/
theorem flow_write (flow : Flow s pending) (call : WriteCall) (more : call.bytesWritten < call.data.length)
    (writers : Nat → Option WriteCall) :
    ∃ rest, Flow { s with
      pipe := (writeSection s.pipe call).1
      writers := writers
      written := s.written ++
        (call.data.drop call.bytesWritten).take ((writeSection s.pipe call).2.bytesWritten - call.bytesWritten) }
        rest := by
  obtain ⟨count, room⟩ := flow.count
  rcases writeSection_cases s.pipe call with ⟨free, same⟩ | ⟨-, same⟩ | same
  · rw [count] at free
    have next : (call.data.drop call.bytesWritten).take (call.bytesWritten + 1 - call.bytesWritten) =
        [call.data.getD call.bytesWritten 0] := by
      rw [Nat.add_sub_cancel_left, List.drop_eq_getElem_cons more, List.take_succ_cons, List.take_zero,
        List.getD_eq_getElem?_getD, List.getElem?_eq_getElem more, Option.getD_some]
    refine ⟨pending ++ [call.data.getD call.bytesWritten 0], ?_, ?_, ?_, ?_, ?_⟩
    · rw [same]
      dsimp only
      rw [next, flow.written, List.append_assoc]
    · rw [same]
      dsimp only
      rw [flow.tail]
      exact holds_push flow.held free _
    · rw [same, List.length_append, List.length_singleton]
      dsimp only
      omega
    · rw [same]
      exact flow.head
    · rw [same, List.length_append, List.length_singleton]
      dsimp only
      rw [flow.tail, Nat.mod_add_mod, Nat.add_assoc]
  · rw [same, Nat.sub_self, List.take_zero, List.append_nil]
    exact ⟨pending, flow_congr flow rfl rfl rfl⟩
  · rw [same, Nat.sub_self, List.take_zero, List.append_nil]
    exact ⟨pending, flow_congr flow rfl rfl rfl⟩

theorem step_flow (flow : Flow s pending) (step : Step s e t) : ∃ rest, Flow t rest := by
  cases step with
  | callRead caller size idle opened => exact ⟨pending, flow_congr flow rfl rfl rfl⟩
  | callWrite caller data idle opened => exact ⟨pending, flow_congr flow rfl rfl rfl⟩
  | sectionRead caller call held running => exact flow_read flow call _
  | sectionWrite caller call held running => exact flow_write flow call running.2 _
  | returnRead caller call held ended => exact ⟨pending, flow_congr flow rfl rfl rfl⟩
  | returnWrite caller call held ended => exact ⟨pending, flow_congr flow rfl rfl rfl⟩
  | closeRead idle => exact ⟨pending, flow.written, flow.held, flow.count, flow.head, flow.tail⟩
  | closeWrite idle => exact ⟨pending, flow.written, flow.held, flow.count, flow.head, flow.tail⟩

/-! ## The calls -/

/-- A call that is known after one was entered or changed. -/
theorem update_some {α : Type} {call new : α} {f : Nat → Option α}
    (held : Function.update f caller (some new) other = some call) :
    (other = caller ∧ call = new) ∨ f other = some call := by
  by_cases same : other = caller
  · subst same
    rw [Function.update_self] at held
    exact Or.inl ⟨rfl, (Option.some.inj held).symm⟩
  · rw [Function.update_of_ne same] at held
    exact Or.inr held

theorem update_none {α : Type} {call : α} {f : Nat → Option α}
    (held : Function.update f caller none other = some call) :
    f other = some call := by
  by_cases same : other = caller
  · subst same
    rw [Function.update_self] at held
    contradiction
  · rwa [Function.update_of_ne same] at held

theorem calls_reader (calls : Calls s) (opened : s.pipe.readClosed = false) (size : Nat) :
    Calls { s with readers := Function.update s.readers caller (some ⟨size, [], false⟩) } := by
  refine ⟨fun other call held stopped => ?_, calls.writers, fun closed => ?_, calls.writeClosed⟩
  · rcases update_some held with ⟨-, rfl⟩ | before
    · contradiction
    · exact calls.readers other call before stopped
  · rw [opened] at closed
    contradiction

theorem calls_writer (calls : Calls s) (opened : s.pipe.writeClosed = false) (data : List UInt8) :
    Calls { s with writers := Function.update s.writers caller (some ⟨data, 0, false⟩) } := by
  refine ⟨calls.readers, fun other call held stopped => ?_, calls.readClosed, fun closed => ?_⟩
  · rcases update_some held with ⟨-, rfl⟩ | before
    · contradiction
    · exact calls.writers other call before stopped
  · rw [opened] at closed
    contradiction

theorem calls_readSection (calls : Calls s) (held : s.readers caller = some call) (running : call.Running)
    (taken : List UInt8) :
    Calls { s with
      pipe := (readSection s.pipe call).1
      readers := Function.update s.readers caller (some (readSection s.pipe call).2)
      taken := taken } := by
  have opened : s.pipe.readClosed = false := by
    cases closed : s.pipe.readClosed with
    | false => rfl
    | true =>
      rw [calls.readClosed closed caller] at held
      contradiction
  have flags : (readSection s.pipe call).1.readClosed = s.pipe.readClosed ∧
      (readSection s.pipe call).1.writeClosed = s.pipe.writeClosed ∧
      (s.pipe.availableBytes = 0 → (readSection s.pipe call).1.availableBytes = 0) := by
    rcases readSection_cases s.pipe call with ⟨some, same⟩ | ⟨-, -, same⟩ | same
    · rw [same]
      exact ⟨rfl, rfl, fun none => by omega⟩
    · rw [same]
      exact ⟨rfl, rfl, fun none => none⟩
    · rw [same]
      exact ⟨rfl, rfl, fun none => none⟩
  obtain ⟨readFlag, writeFlag, drained⟩ := flags
  refine ⟨fun other next heldNext stopped empty => ?_, fun other next heldNext stopped => ?_, fun closed => ?_,
    fun closed => ?_⟩
  · rcases update_some heldNext with ⟨-, rfl⟩ | before
    · rcases readSection_cases s.pipe call with ⟨-, moved⟩ | ⟨none, why, moved⟩ | moved
      · rw [moved] at stopped
        rw [running.1] at stopped
        contradiction
      · rw [moved] at empty ⊢
        exact ⟨why.resolve_left (not_not.mpr empty), none⟩
      · rw [moved] at stopped
        rw [running.1] at stopped
        contradiction
    · obtain ⟨closed, none⟩ := calls.readers other next before stopped empty
      exact ⟨writeFlag.trans closed, drained none⟩
  · exact readFlag.trans (calls.writers other next heldNext stopped)
  · rw [readFlag, opened] at closed
    contradiction
  · exact calls.writeClosed (writeFlag.symm.trans closed)

theorem calls_writeSection (calls : Calls s) (held : s.writers caller = some call) (running : call.Running)
    (written : List UInt8) :
    Calls { s with
      pipe := (writeSection s.pipe call).1
      writers := Function.update s.writers caller (some (writeSection s.pipe call).2)
      written := written } := by
  have opened : s.pipe.writeClosed = false := by
    cases closed : s.pipe.writeClosed with
    | false => rfl
    | true =>
      rw [calls.writeClosed closed caller] at held
      contradiction
  have flags : (writeSection s.pipe call).1.readClosed = s.pipe.readClosed ∧
      (writeSection s.pipe call).1.writeClosed = s.pipe.writeClosed := by
    rcases writeSection_cases s.pipe call with ⟨-, same⟩ | ⟨-, same⟩ | same
    · rw [same]
      exact ⟨rfl, rfl⟩
    · rw [same]
      exact ⟨rfl, rfl⟩
    · rw [same]
      exact ⟨rfl, rfl⟩
  obtain ⟨readFlag, writeFlag⟩ := flags
  refine ⟨fun other next heldNext stopped empty => ?_, fun other next heldNext stopped => ?_, fun closed => ?_,
    fun closed => ?_⟩
  · -- no write is in progress once the write end is closed
    have closed := (calls.readers other next heldNext stopped empty).1
    rw [opened] at closed
    contradiction
  · rcases update_some heldNext with ⟨-, rfl⟩ | before
    · rcases writeSection_cases s.pipe call with ⟨-, moved⟩ | ⟨closed, moved⟩ | moved
      · rw [moved] at stopped
        rw [running.1] at stopped
        contradiction
      · exact readFlag.trans closed
      · rw [moved] at stopped
        rw [running.1] at stopped
        contradiction
    · exact readFlag.trans (calls.writers other next before stopped)
  · exact calls.readClosed (readFlag.symm.trans closed)
  · rw [writeFlag, opened] at closed
    contradiction

theorem step_calls (calls : Calls s) (step : Step s e t) : Calls t := by
  cases step with
  | callRead caller size idle opened => exact calls_reader calls opened size
  | callWrite caller data idle opened => exact calls_writer calls opened data
  | sectionRead caller call held running => exact calls_readSection calls held running _
  | sectionWrite caller call held running => exact calls_writeSection calls held running _
  | returnRead caller call held ended =>
    refine ⟨fun other next heldNext => calls.readers other next (update_none heldNext), calls.writers, ?_,
      calls.writeClosed⟩
    intro closed other
    rw [calls.readClosed closed caller] at held
    contradiction
  | returnWrite caller call held ended =>
    refine ⟨calls.readers, fun other next heldNext => calls.writers other next (update_none heldNext),
      calls.readClosed, ?_⟩
    intro closed other
    rw [calls.writeClosed closed caller] at held
    contradiction
  | closeRead idle => exact ⟨calls.readers, fun _ _ _ _ => rfl, fun _ => idle, calls.writeClosed⟩
  | closeWrite idle =>
    refine ⟨fun caller call held stopped empty => ⟨rfl, ?_⟩, calls.writers, calls.readClosed, fun _ => idle⟩
    exact (calls.readers caller call held stopped empty).2

/-! ## Every run -/

/-- What the claims of a pipe's user come to: the bytes come out in the order
they went in, none is lost, and the two short results mean what they say. -/
theorem pipe_lossless (run : Run (fun _ _ => True) Step pipeCreate s) :
    Fifo s ∧
      (∀ caller n t call, s.readers caller = some call → Step s (.returnRead caller n) t → 0 < call.size →
      n = 0 →
        s.pipe.writeClosed = true ∧ s.taken = s.written) ∧
      ∀ caller n t call, s.writers caller = some call → Step s (.returnWrite caller n) t →
      n < call.data.length →
        s.pipe.readClosed = true := by
  obtain ⟨⟨pending, flow⟩, calls⟩ := run_invariant (fun s => (∃ pending, Flow s pending) ∧ Calls s) run
    ⟨⟨[], flow_start⟩, calls_start⟩
    (fun s e t ⟨⟨_, flow⟩, calls⟩ _ step => ⟨step_flow flow step, step_calls calls step⟩)
  refine ⟨flow_fifo flow, ?_, ?_⟩
  · intro caller n t call held step positive zero
    cases step with
    | returnRead _ same heldSame ended =>
      obtain rfl := Option.some.inj (held.symm.trans heldSame)
      have empty := List.eq_nil_of_length_eq_zero zero
      have stopped : call.stopped = true := by
        cases flag : call.stopped with
        | true => rfl
        | false => exact absurd ⟨flag, by omega⟩ ended
      obtain ⟨closed, none⟩ := calls.readers caller call held stopped empty
      have drained := List.eq_nil_of_length_eq_zero (flow.count.1.symm.trans none)
      exact ⟨closed, by rw [flow.written, drained, List.append_nil]⟩
  · intro caller n t call held step short
    cases step with
    | returnWrite _ same heldSame ended =>
      obtain rfl := Option.some.inj (held.symm.trans heldSame)
      cases flag : call.stopped with
      | true => exact calls.writers caller call held flag
      | false => exact absurd ⟨flag, short⟩ ended

/-- Two bytes go through while the write is in progress, and the next read finds
the closed end. -/
theorem pipe_lossless_closed : ∃ s t, Run (fun _ _ => True) Step pipeCreate s ∧ s.written = [7, 8] ∧ Fifo s ∧
    Step s (.returnRead 1 0) t ∧ s.pipe.writeClosed = true ∧ s.taken = s.written := by
  have called : Run (fun _ _ => True) Step pipeCreate _ :=
    run_then .refl trivial (Step.callWrite pipeCreate 0 [7, 8] rfl rfl)
  have first := run_then called trivial (Step.sectionWrite _ 0 ⟨[7, 8], 0, false⟩ rfl (by decide))
  have reads := run_then first trivial (Step.callRead _ 1 4 rfl rfl)
  have taken := run_then reads trivial (Step.sectionRead _ 1 ⟨4, [], false⟩ rfl (by decide))
  have second := run_then taken trivial (Step.sectionWrite _ 0 ⟨[7, 8], 1, false⟩ rfl (by decide))
  have wrote := run_then second trivial (Step.returnWrite _ 0 ⟨[7, 8], 2, false⟩ rfl (by decide))
  have closed := run_then wrote trivial (Step.closeWrite _ fun caller => by
    by_cases same : caller = 0 <;> simp [Function.update, pipeCreate, same])
  have other := run_then closed trivial (Step.sectionRead _ 1 ⟨4, [7], false⟩ rfl (by decide))
  have ended := run_then other trivial (Step.sectionRead _ 1 ⟨4, [7, 8], false⟩ rfl (by decide))
  have result := run_then ended trivial (Step.returnRead _ 1 ⟨4, [7, 8], true⟩ rfl (by decide))
  have again := run_then result trivial (Step.callRead _ 1 4 rfl rfl)
  have empty := run_then again trivial (Step.sectionRead _ 1 ⟨4, [], false⟩ rfl (by decide))
  obtain ⟨fifo, read, -⟩ := pipe_lossless empty
  exact ⟨_, _, empty, rfl, fifo, Step.returnRead _ 1 ⟨4, [], true⟩ rfl (by decide),
    read 1 0 _ ⟨4, [], true⟩ rfl (Step.returnRead _ 1 ⟨4, [], true⟩ rfl (by decide)) (by decide) rfl⟩

end

end MeowMeowOS.Pipes

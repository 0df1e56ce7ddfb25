import MeowMeowOS.LatestRing

/-! The ring of `logger.c`, which keeps the latest text of the log for the
reader of the system log. -/
namespace MeowMeowOS.SystemLog

open LatestRing

def ringBufferSize : Nat := 16384

/-- `log_buffer`, `log_head`, `log_wrapped` and the active output device, a
function over a context of its own. -/
structure Logger (κ : Type*) where
  logBuffer : Nat → UInt8
  logHead : Nat
  logWrapped : Bool
  outputFunc : Option (UInt8 → κ → κ)
  context : κ

section
variable {κ : Type*}

/-- The static buffer, with an output device set or none. -/
def Logger.start (outputFunc : Option (UInt8 → κ → κ)) (context : κ) : Logger κ :=
  ⟨fun _ => 0, 0, false, outputFunc, context⟩

def logPutchar (log : Logger κ) (c : UInt8) : Logger κ :=
  let log := match log.outputFunc with
    | some outputFunc => { log with context := outputFunc c log.context }
    | none => log
  let log := { log with logBuffer := Function.update log.logBuffer log.logHead c, logHead := log.logHead + 1 }
  if ringBufferSize ≤ log.logHead then { log with logHead := 0, logWrapped := true } else log

def writeString (log : Logger κ) (str : List UInt8) : Logger κ := str.foldl logPutchar log

/-- The bytes the ring holds. -/
def Logger.held (log : Logger κ) : Nat := if log.logWrapped then ringBufferSize else log.logHead

/-- `for (i = 0; i < total_size; i++)`, with `copied` the same as `i`. -/
def copyOut (log : Logger κ) : Nat → Nat → Nat → (Nat → UInt8) → Nat × (Nat → UInt8)
  | 0, i, _, userBuf => (i, userBuf)
  | n + 1, i, readPtr, userBuf =>
    copyOut log n (i + 1) ((readPtr + 1) % ringBufferSize) (Function.update userBuf i (log.logBuffer readPtr))

/-- The bytes copied and the user's buffer. -/
def loggerReadLog (log : Logger κ) (userBuf : Nat → UInt8) (maxSize : Nat) : Nat × (Nat → UInt8) :=
  let totalSize := if maxSize < log.held then maxSize else log.held
  if totalSize = 0 then (0, userBuf)
  else
    let readPtr := if log.logWrapped then log.logHead else 0
    let readPtr :=
      if maxSize < log.held then
        if log.logWrapped then (log.logHead + (ringBufferSize - maxSize)) % ringBufferSize else log.logHead - maxSize
      else readPtr
    copyOut log totalSize 0 readPtr userBuf

/-! ## What the ring holds -/

/-- The ring after the text `written`. -/
structure Holds (log : Logger κ) (written : List UInt8) : Prop where
  head : log.logHead = written.length % ringBufferSize
  wrapped : log.logWrapped = decide (ringBufferSize ≤ written.length)
  kept : Keeps ringBufferSize log.logBuffer written

variable {log : Logger κ} {written : List UInt8}

theorem start_holds (outputFunc : Option (UInt8 → κ → κ)) (context : κ) :
    Holds (Logger.start outputFunc context) [] :=
  ⟨rfl, rfl, keeps_nil⟩

/-- The output device only has its context changed. -/
theorem logPutchar_ring (log : Logger κ) (c : UInt8) :
    (logPutchar log c).logBuffer = Function.update log.logBuffer log.logHead c ∧
      (logPutchar log c).logHead = (if ringBufferSize ≤ log.logHead + 1 then 0 else log.logHead + 1) ∧
      (logPutchar log c).logWrapped = (if ringBufferSize ≤ log.logHead + 1 then true else log.logWrapped) := by
  unfold logPutchar
  cases log.outputFunc <;> dsimp only <;> split <;> exact ⟨rfl, rfl, rfl⟩

theorem logPutchar_holds (holds : Holds log written) (c : UInt8) : Holds (logPutchar log c) (written ++ [c]) := by
  obtain ⟨buffer, head, wrapped⟩ := logPutchar_ring log c
  have below : written.length % ringBufferSize < ringBufferSize := Nat.mod_lt _ (by decide)
  have step : (written ++ [c]).length = written.length + 1 := List.length_append
  unfold ringBufferSize at below
  refine ⟨?_, ?_, ?_⟩
  · rw [head, holds.head, step]
    unfold ringBufferSize
    split <;> omega
  · rw [wrapped, holds.head, holds.wrapped, step]
    unfold ringBufferSize
    split <;> simp <;> omega
  · rw [buffer, holds.head]
    exact keeps_push holds.kept c

theorem writeString_holds (holds : Holds log written) (str : List UInt8) :
    Holds (writeString log str) (written ++ str) := by
  induction str generalizing log written with
  | nil => rwa [List.append_nil]
  | cons c str ih =>
    have rest := ih (logPutchar_holds holds c)
    rwa [List.append_assoc] at rest

theorem Holds.held_eq (holds : Holds log written) : log.held = min written.length ringBufferSize := by
  unfold Logger.held
  rw [holds.wrapped, holds.head]
  by_cases full : ringBufferSize ≤ written.length
  · simp [full]
  · simp [full, Nat.mod_eq_of_lt (Nat.lt_of_not_le full), Nat.le_of_not_le full]

/-! ## Reading it -/

/-- The loop stores the bytes from `readPtr` on, around the end of the ring. -/
theorem copyOut_stores (log : Logger κ) (n i : Nat) (userBuf : Nat → UInt8) (inRing : readPtr < ringBufferSize) :
    (copyOut log n i readPtr userBuf).1 = i + n ∧
      ∀ j, (copyOut log n i readPtr userBuf).2 j =
        if i ≤ j ∧ j < i + n then log.logBuffer ((readPtr + (j - i)) % ringBufferSize) else userBuf j := by
  induction n generalizing i readPtr userBuf with
  | zero => exact ⟨rfl, fun j => (if_neg (by omega)).symm⟩
  | succ n ih =>
    obtain ⟨count, stored⟩ := ih (i + 1) (Function.update userBuf i (log.logBuffer readPtr))
      (Nat.mod_lt (readPtr + 1) (by decide))
    refine ⟨by rw [copyOut, count]; omega, fun j => ?_⟩
    rw [copyOut, stored j]
    by_cases first : j = i
    · subst first
      simp [Nat.mod_eq_of_lt inRing]
    · rw [Function.update_of_ne first]
      by_cases inside : i + 1 ≤ j ∧ j < i + 1 + n
      · have next : readPtr + 1 + (j - (i + 1)) = readPtr + (j - i) := by omega
        rw [if_pos inside, if_pos (by omega), Nat.mod_add_mod, next]
      · rw [if_neg inside, if_neg (by omega)]

/-- The loop from the slot of an item on stores the items in order. -/
theorem copyOut_last (holds : Holds log written) (few : n ≤ written.length) (fits : n ≤ ringBufferSize)
    (start : readPtr = (written.length - n) % ringBufferSize) (userBuf : Nat → UInt8) :
    (copyOut log n 0 readPtr userBuf).1 = n ∧
      (List.range n).map (copyOut log n 0 readPtr userBuf).2 = written.rtake n ∧
      ∀ j, n ≤ j → (copyOut log n 0 readPtr userBuf).2 j = userBuf j := by
  obtain ⟨count, stored⟩ := copyOut_stores log n 0 userBuf (start ▸ Nat.mod_lt _ (by decide))
  refine ⟨by rw [count, Nat.zero_add], ?_, fun j beyond => by rw [stored j, if_neg (by omega)]⟩
  rw [← keeps_last holds.kept few fits]
  refine List.map_congr_left fun j inside => ?_
  have small := List.mem_range.mp inside
  rw [stored j, if_pos ⟨Nat.zero_le _, by omega⟩, start, Nat.mod_add_mod, Nat.sub_zero]

theorem Holds.readLog (holds : Holds log written) (userBuf : Nat → UInt8) (maxSize : Nat) :
    let n := min maxSize (min written.length ringBufferSize)
    (loggerReadLog log userBuf maxSize).1 = n ∧
      (List.range n).map (loggerReadLog log userBuf maxSize).2 = written.rtake n ∧
      ∀ j, n ≤ j → (loggerReadLog log userBuf maxSize).2 j = userBuf j := by
  intro n
  have total : (if maxSize < log.held then maxSize else log.held) = n := by
    rw [holds.held_eq]
    split <;> omega
  have few : n ≤ written.length := by omega
  have fits : n ≤ ringBufferSize := by omega
  unfold loggerReadLog
  dsimp only
  rw [total]
  by_cases none : n = 0
  · rw [if_pos none, none]
    exact ⟨rfl, by simp, fun _ _ => rfl⟩
  · rw [if_neg none]
    refine copyOut_last holds few fits ?_ userBuf
    rw [holds.held_eq, holds.wrapped, holds.head]
    by_cases full : ringBufferSize ≤ written.length
    · simp only [full, decide_true, if_true]
      split
      · have cut : n = maxSize := by omega
        rw [cut]
        exact slot_back (by omega) (by omega)
      · have whole : n = ringBufferSize := by omega
        rw [whole, ← slot_back full le_rfl]
        simp
    · simp only [full, decide_false, if_false, Bool.false_eq_true]
      rw [Nat.mod_eq_of_lt (Nat.lt_of_not_le full)]
      split
      · have cut : n = maxSize := by omega
        rw [cut, Nat.mod_eq_of_lt (by omega)]
      · have whole : n = written.length := by omega
        rw [whole, Nat.sub_self, Nat.zero_mod]

/-- After any text the reader gets the last of it, as much as it asks for and
the ring can hold, in the order it was written. -/
theorem readLog_latest (outputFunc : Option (UInt8 → κ → κ)) (context : κ) (written : List UInt8)
    (userBuf : Nat → UInt8) (maxSize : Nat) :
    ∃ count done, loggerReadLog (written.foldl logPutchar (Logger.start outputFunc context)) userBuf maxSize =
        (count, done) ∧
      count = min maxSize (min written.length ringBufferSize) ∧
      (List.range count).map done = written.rtake count ∧ ∀ j, count ≤ j → done j = userBuf j := by
  obtain ⟨count, last, behind⟩ :=
    (writeString_holds (start_holds outputFunc context) written).readLog userBuf maxSize
  refine ⟨_, _, rfl, count, ?_, fun j beyond => ?_⟩
  · exact count.symm ▸ last
  · exact behind j (count ▸ beyond)

end

end MeowMeowOS.SystemLog

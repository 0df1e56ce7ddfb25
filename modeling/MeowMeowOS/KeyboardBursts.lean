import MeowMeowOS.KeyDecoding

/-! Bursts on the keyboard that overflow its ring. A key behind the prefix takes
two bytes, each of which is dropped or stored by itself. -/
namespace MeowMeowOS.KeyboardBursts

open GuardedRuns Keyboard RingQueue KeyDecoding

/-- Where a call of `keyboard_read_keycode` is: outside, with a plain scancode
whose modifiers are still to be updated, or behind a marker. -/
inductive Reader where
  | idle
  | taken (scancode : UInt8)
  | prefixed

/-- `typed` are the scancodes received, `taken` the bytes that the readers have
taken out of the ring, and `readings` what these were read as. -/
structure Queue where
  driver : Driver
  readers : Nat → Reader
  typed : List UInt8
  taken : List UInt8
  readings : List Key

inductive Action where
  | interrupt (foregroundPid : Nat) (scancode : UInt8)
  | read (reader : Nat)
  | update (reader : Nat)
  | readSecond (reader : Nat)

def interrupt (s : Queue) (foregroundPid : Nat) (scancode : UInt8) : Queue :=
  { s with
    driver := (keyboardIsr foregroundPid s.driver scancode).driver
    typed := s.typed ++ [scancode] }

/-- A byte is taken; an empty ring is tried again later. -/
def read (s : Queue) (reader : Nat) : Queue :=
  match keyboardBufferRead s.driver with
  | none => s
  | some (b, k) =>
    if b = 0xE0 then
      { s with
        driver := k
        readers := Function.update s.readers reader .prefixed
        taken := s.taken ++ [b] }
    else
      { s with
        driver := k
        readers := Function.update s.readers reader (.taken b)
        taken := s.taken ++ [b]
        readings := s.readings ++ [.plain b] }

def update (s : Queue) (reader : Nat) (b : UInt8) : Queue :=
  { s with
    driver := { s.driver with
      modifiers := updateModifierState s.driver.modifiers (getMakeCode b) (!isBreakCode b) }
    readers := Function.update s.readers reader .idle }

def readSecond (s : Queue) (reader : Nat) : Queue :=
  match keyboardBufferRead s.driver with
  | none => s
  | some (b, k) =>
    { s with
      driver := k
      readers := Function.update s.readers reader .idle
      taken := s.taken ++ [b]
      readings := s.readings ++ [.extended b] }

/-- Any reader moves, or a scancode comes, but no Ctrl+C. -/
def Step (s : Queue) : Action → Queue → Prop
  | .interrupt foregroundPid b, s' =>
    (b ≠ 0xE0 → ¬ Intercepted (typist s.typed).modifiers b) ∧ s' = interrupt s foregroundPid b
  | .read r, s' => s.readers r = .idle ∧ s' = read s r
  | .update r, s' => ∃ b, s.readers r = .taken b ∧ s' = update s r b
  | .readSecond r, s' => s.readers r = .prefixed ∧ s' = readSecond s r

def start : Queue := ⟨keyboardInitialize, fun _ => .idle, [], [], []⟩

/-! ## The events -/

def typeEvent (t : Bool × List Key) (b : UInt8) : Bool × List Key :=
  if b = 0xE0 then (true, t.2) else (false, t.2 ++ [keyFor t.1 b])

/-- Whether a prefix has come last, and the events before it. -/
def typeEvents (typed : List UInt8) : Bool × List Key := typed.foldl typeEvent (false, [])

/-- The bytes taken are those of some of the events typed, in their order and
each event whole but for the last one, and they have been read as these. -/
def Faithful (s : Queue) : Prop :=
  ∃ keys, keys.Sublist (typeEvents s.typed).2 ∧ s.taken <+: keys.flatMap Key.encode ∧ s.readings <+: keys

/-- The ring has room for one byte and no more. -/
def OnePlace (k : Driver) : Prop :=
  ¬ keyboardIsBufferFull k ∧ keyboardIsBufferFull (keyboardBufferWrite k 0xE0)

instance (k : Driver) : Decidable (OnePlace k) := inferInstanceAs (Decidable (_ ∧ _))

/-- An event behind the prefix comes when the ring has not just one place left and
is not taken for Ctrl+C, and while a reader waits behind a marker no other one
takes a byte. -/
def Guard (s : Queue) : Action → Prop
  | .interrupt _ b => b ≠ 0xE0 → s.driver.extendedScancode = true →
      ¬ OnePlace s.driver ∧ ¬ Intercepted s.driver.modifiers b
  | .read _ => ∀ r, s.readers r ≠ .prefixed
  | _ => True

/-! ## Events whole in the ring -/

section
variable {s s' : Queue} {k : Driver} {b : UInt8} {bytes : List UInt8} {keys rest : List Key}

theorem typeEvents_snoc (typed : List UInt8) (b : UInt8) :
    typeEvents (typed ++ [b]) = typeEvent (typeEvents typed) b := by
  unfold typeEvents
  rw [List.foldl_append]
  rfl

/-- No event is a plain `0xE0`. -/
theorem typeEvents_plain (typed : List UInt8) : ∀ b, .plain b ∈ (typeEvents typed).2 → b ≠ 0xE0 := by
  induction typed using List.reverseRecOn with
  | nil => exact fun b member => absurd member List.not_mem_nil
  | append_singleton typed c ih =>
    rw [typeEvents_snoc, typeEvent]
    split
    · exact ih
    · rename_i other
      intro b member
      rcases List.mem_append.mp member with before | last
      · exact ih b before
      · have same := List.mem_singleton.mp last
        unfold keyFor at same
        split at same
        · cases same
        · injection same with same
          rwa [same]

/-- Where the bytes of the ring and those taken from it lie among the events:
`read` have been read, `waiting` says who waits behind a marker and for which
scancode, and `rest` follow. -/
structure Whole (s : Queue) (read : List Key) (waiting : Option (Nat × UInt8)) (rest : List Key) : Prop where
  flag : s.driver.extendedScancode = (typeEvents s.typed).1
  events : (read ++ (waiting.map fun w => Key.extended w.2).toList ++ rest).Sublist (typeEvents s.typed).2
  stored : Stored s.driver ((waiting.map (·.2)).toList ++ rest.flatMap Key.encode)
  taken : s.taken = read.flatMap Key.encode ++ (waiting.map fun _ => 0xE0).toList
  readings : s.readings = read
  readers : ∀ r, s.readers r = .prefixed ↔ waiting.map (·.1) = some r

theorem whole_start : Whole start [] none [] :=
  ⟨rfl, List.Sublist.refl _, ⟨holds_nil, by decide, rfl, by decide⟩, rfl, rfl, fun _ => ⟨nofun, nofun⟩⟩

theorem whole_faithful (whole : Whole s keys waiting rest) : Faithful s := by
  refine ⟨_, whole.events, ?_, ?_⟩
  · rw [whole.taken]
    cases waiting with
    | none => simp
    | some w => simp [Key.encode]
  · rw [whole.readings]
    exact ⟨_, (List.append_assoc _ _ _).symm⟩

theorem write_full (full : keyboardIsBufferFull k) (b : UInt8) : keyboardBufferWrite k b = k := if_pos full

/-- A full ring takes nothing of an event. -/
theorem store_full (full : keyboardIsBufferFull k) (b : UInt8) : store k b = { k with extendedScancode := false } := by
  unfold store
  rw [write_full full, write_full full]
  cases extended : k.extendedScancode
  · rw [if_neg Bool.false_ne_true, ← extended]
  · rw [if_pos rfl]

/-- The ring takes both bytes of an event or none. -/
theorem isr_whole (stored : Stored k bytes) (plain : b ≠ 0xE0)
    (calm : k.extendedScancode = true → ¬ OnePlace k ∧ ¬ Intercepted k.modifiers b) (foregroundPid : Nat) :
    ∃ added, (added = [] ∨ added = [keyFor k.extendedScancode b]) ∧
      Stored (keyboardIsr foregroundPid k b).driver (bytes ++ added.flatMap Key.encode) ∧
      (keyboardIsr foregroundPid k b).driver.extendedScancode = false := by
  by_cases hit : Intercepted k.modifiers b
  · have first : k.extendedScancode = false := Bool.eq_false_iff.mpr fun extended => (calm extended).2 hit
    refine ⟨[], .inl rfl, ?_, ?_⟩
    · rw [keyboardIsr, if_neg plain, if_pos (intercepted_update.mpr hit), List.flatMap_nil, List.append_nil]
      exact ⟨stored.holds, stored.tail, stored.head, stored.short⟩
    · rw [keyboardIsr, if_neg plain, if_pos (intercepted_update.mpr hit)]
      exact first
  · by_cases fits : Fits k
    · obtain ⟨both, -, extended⟩ := isr_stored stored fits plain hit foregroundPid
      exact ⟨[keyFor k.extendedScancode b], .inr rfl, by simpa using both, extended⟩
    · have full : keyboardIsBufferFull k := by
        by_contra room
        refine fits ⟨room, fun extended second => (calm extended).1 ⟨room, second⟩⟩
      let k' := { k with modifiers := updateModifierState k.modifiers (getMakeCode b) (!isBreakCode b) }
      have fullNext : keyboardIsBufferFull k' := full
      have same : store k' b = { k' with extendedScancode := false } := store_full fullNext b
      have served : (keyboardIsr foregroundPid k b).driver =
          { k' with extendedScancode := false, keyboardWaitingTask := 0 } := by
        rw [keyboardIsr, if_neg plain, if_neg fun held => hit (intercepted_update.mp held)]
        dsimp only
        rw [same]
      refine ⟨[], .inl rfl, ?_, by rw [served]⟩
      rw [served, List.flatMap_nil, List.append_nil]
      exact ⟨stored.holds, stored.tail, stored.head, stored.short⟩

/-! ## One step -/

theorem whole_interrupt (whole : Whole s keys waiting rest) (guard : Guard s (.interrupt foregroundPid b)) :
    ∃ rest, Whole (interrupt s foregroundPid b) keys waiting rest := by
  have next : typeEvents (s.typed ++ [b]) = typeEvent (typeEvents s.typed) b := typeEvents_snoc s.typed b
  by_cases mark : b = 0xE0
  · subst mark
    rw [typeEvent, if_pos rfl] at next
    obtain ⟨-, events, ⟨holds, tail, head, short⟩, taken, readings, readers⟩ := whole
    refine ⟨rest, (congrArg Prod.fst next).symm, ?_, ⟨holds, tail, head, short⟩, taken, readings, readers⟩
    dsimp only [interrupt]
    rw [next]
    exact events
  · rw [typeEvent, if_neg mark] at next
    obtain ⟨flag, events, stored, taken, readings, readers⟩ := whole
    obtain ⟨added, one, storedNext, first⟩ := isr_whole stored mark (guard mark) foregroundPid
    have within : added.Sublist [keyFor (typeEvents s.typed).1 b] := by
      rw [← flag]
      rcases one with rfl | rfl
      · exact List.nil_sublist _
      · exact List.Sublist.refl _
    refine ⟨rest ++ added, first.trans (congrArg Prod.fst next).symm, ?_, ?_, taken, readings, readers⟩
    · dsimp only [interrupt]
      rw [next, ← List.append_assoc]
      exact events.append within
    · rw [List.flatMap_append, ← List.append_assoc]
      exact storedNext

/-- A call begins with the marker of an event or with a plain one. -/
theorem whole_read (whole : Whole s keys waiting rest) (guard : Guard s (.read r)) :
    ∃ keys waiting rest, Whole (read s r) keys waiting rest := by
  have nobody : waiting = none := by
    cases waiting with
    | none => rfl
    | some w => exact absurd ((whole.readers w.1).mpr rfl) (guard w.1)
  subst nobody
  obtain ⟨flag, events, stored, taken, readings, readers⟩ := whole
  cases rest with
  | nil =>
    have empty := read_nil stored
    rw [read, empty]
    exact ⟨keys, none, [], flag, events, stored, taken, readings, readers⟩
  | cons key rest =>
    cases key with
    | plain b =>
      have plain : b ≠ 0xE0 := typeEvents_plain s.typed b (events.subset (by simp))
      obtain ⟨k, got, storedNext, -, extended⟩ := read_cons b (rest.flatMap Key.encode) stored
      rw [read, got]
      dsimp only
      rw [if_neg plain]
      refine ⟨keys ++ [.plain b], none, rest, extended.trans flag, by simpa using events, storedNext, ?_,
        ?_, fun r' => ?_⟩
      · simp [taken, Key.encode]
      · rw [readings]
      · by_cases same : r' = r
        · subst same
          simp
        · simpa [same] using readers r'
    | extended b =>
      obtain ⟨k, got, storedNext, -, extended⟩ :=
        read_cons 0xE0 (b :: rest.flatMap Key.encode) stored
      rw [read, got]
      dsimp only
      rw [if_pos rfl]
      refine ⟨keys, some (r, b), rest, extended.trans flag, by simpa using events, storedNext, ?_, readings,
        fun r' => ?_⟩
      · simp [taken]
      · by_cases same : r' = r
        · subst same
          simp
        · have other := readers r'
          simpa [same, Ne.symm same] using other

theorem whole_update (whole : Whole s keys waiting rest) (phase : s.readers r = .taken b) :
    Whole (update s r b) keys waiting rest := by
  obtain ⟨flag, events, ⟨holds, tail, head, short⟩, taken, readings, readers⟩ := whole
  refine ⟨flag, events, ⟨holds, tail, head, short⟩, taken, readings, fun r' => ?_⟩
  have before := readers r'
  by_cases same : r' = r
  · subst same
    rw [phase] at before
    simpa [update] using before
  · simpa [update, same] using before

/-- The second byte is that of the marker's own event. -/
theorem whole_second (whole : Whole s keys waiting rest) (phase : s.readers r = .prefixed) :
    ∃ keys, Whole (readSecond s r) keys none rest := by
  have mine := (whole.readers r).mp phase
  obtain ⟨w, rfl, first⟩ := Option.map_eq_some_iff.mp mine
  obtain ⟨r', b⟩ := w
  have same : r' = r := first
  subst same
  obtain ⟨flag, events, stored, taken, readings, readers⟩ := whole
  obtain ⟨k, got, storedNext, -, extended⟩ := read_cons b (rest.flatMap Key.encode) stored
  rw [readSecond, got]
  refine ⟨keys ++ [.extended b], extended.trans flag, by simpa using events, storedNext, ?_, ?_, fun other => ?_⟩
  · simp [taken, Key.encode]
  · rw [readings]
  · by_cases here : other = r'
    · subst here
      simp
    · have before := readers other
      simpa [here, Ne.symm here] using before

/-! ## Any run -/

/-- What every guarded step keeps. -/
def Ordered (s : Queue) : Prop := ∃ keys waiting rest, Whole s keys waiting rest

theorem ordered_step {action : Action} (ordered : Ordered s) (guard : Guard s action) (step : Step s action s') :
    Ordered s' := by
  obtain ⟨keys, waiting, rest, whole⟩ := ordered
  cases action with
  | interrupt foregroundPid b =>
    obtain ⟨-, rfl⟩ := step
    obtain ⟨rest, next⟩ := whole_interrupt whole guard
    exact ⟨keys, waiting, rest, next⟩
  | read r =>
    obtain ⟨-, rfl⟩ := step
    exact whole_read whole guard
  | update r =>
    obtain ⟨b, phase, rfl⟩ := step
    exact ⟨keys, waiting, rest, whole_update whole phase⟩
  | readSecond r =>
    obtain ⟨phase, rfl⟩ := step
    obtain ⟨keys, next⟩ := whole_second whole phase
    exact ⟨keys, none, rest, next⟩

/-- The bytes taken out of the ring are whole events, read as what they are, in
every run of guarded steps. -/
theorem bursts_faithful (run : Run Guard Step start s) : Faithful s := by
  obtain ⟨keys, waiting, rest, whole⟩ :=
    run_invariant Ordered run ⟨[], none, [], whole_start⟩ fun _ _ _ ordered guard step =>
      ordered_step ordered guard step
  exact whole_faithful whole

variable {guard : Queue → Action → Prop}

theorem run_interrupt (run : Run guard Step start s) (calm : guard s (.interrupt foregroundPid b))
    (typed : b ≠ 0xE0 → ¬ Intercepted (typist s.typed).modifiers b) :
    Run guard Step start (interrupt s foregroundPid b) :=
  run_then run calm ⟨typed, rfl⟩

theorem run_read (run : Run guard Step start s) (calm : guard s (.read r)) (phase : s.readers r = .idle) :
    Run guard Step start (read s r) :=
  run_then run calm ⟨phase, rfl⟩

theorem run_update (run : Run guard Step start s) (calm : guard s (.update r)) (phase : s.readers r = .taken b) :
    Run guard Step start (update s r b) :=
  run_then run calm ⟨b, phase, rfl⟩

theorem run_second (run : Run guard Step start s) (calm : guard s (.readSecond r)) (phase : s.readers r = .prefixed) :
    Run guard Step start (readSecond s r) :=
  run_then run calm ⟨phase, rfl⟩

/-- The arrow up is pressed and its key read. -/
def arrowRead : Queue := readSecond (read (interrupt (interrupt start 0 0xE0) 0 0x48) 0) 0

theorem bursts_faithful_arrow : Faithful arrowRead := by
  have prefixed : Run Guard Step start (interrupt start 0 0xE0) :=
    run_interrupt .refl (fun other => absurd rfl other) (fun other => absurd rfl other)
  have pressed : Run Guard Step start (interrupt (interrupt start 0 0xE0) 0 0x48) :=
    run_interrupt prefixed (fun _ _ => ⟨by decide, by decide⟩) (fun _ => by decide)
  have marked : Run Guard Step start (read (interrupt (interrupt start 0 0xE0) 0 0x48) 0) :=
    run_read pressed (fun _ => nofun) rfl
  exact bursts_faithful (run_second marked trivial rfl)

/-! ## One place left -/

/-- No reader is at work, and these bytes, events and bytes taken are there. -/
structure At (s : Queue) (bytes : List UInt8) (events : List Key) (taken : List UInt8) : Prop where
  run : Run (fun _ _ => True) Step start s
  stored : Stored s.driver bytes
  flag : s.driver.extendedScancode = false
  typed : typeEvents s.typed = (false, events)
  got : s.taken = taken
  idle : ∀ r, s.readers r = .idle

theorem stored_notFull (stored : Stored k bytes) (room : bytes.length < 255) : ¬ keyboardIsBufferFull k := by
  obtain ⟨-, tail, head, -⟩ := stored
  unfold keyboardIsBufferFull keyboardBufferSize at *
  omega

theorem stored_isFull (stored : Stored k bytes) (filled : bytes.length = 255) : keyboardIsBufferFull k := by
  obtain ⟨-, tail, head, -⟩ := stored
  unfold keyboardIsBufferFull keyboardBufferSize at *
  omega

theorem not_intercepted (m : Modifiers) (other : getMakeCode b ≠ 0x2E) : ¬ Intercepted m b :=
  fun hit => other hit.2.1

theorem at_press (here : At s bytes events taken) (room : bytes.length < 255) :
    At (interrupt s 0 0x1E) (bytes ++ [0x1E]) (events ++ [.plain 0x1E]) taken := by
  obtain ⟨run, stored, flag, typed, tk, idle⟩ := here
  have free : Fits s.driver :=
    ⟨stored_notFull stored room, fun extended => by rw [flag] at extended; cases extended⟩
  obtain ⟨next, -, first⟩ := isr_stored (b := 0x1E) stored free (by decide) (not_intercepted _ (by decide)) 0
  rw [flag] at next
  refine ⟨run_interrupt run trivial fun _ => not_intercepted _ (by decide), next, first, ?_, tk, idle⟩
  exact (typeEvents_snoc s.typed 0x1E).trans (by rw [typed]; rfl)

theorem at_pressMany (n : Nat) (room : n < 255) :
    ∃ s, At s (List.replicate n 0x1E) (List.replicate n (.plain 0x1E)) [] := by
  induction n with
  | zero => exact ⟨start, .refl, ⟨holds_nil, by decide, rfl, by decide⟩, rfl, rfl, rfl, fun _ => rfl⟩
  | succ n ih =>
    obtain ⟨s, here⟩ := ih (by omega)
    have next := at_press here (by simpa using Nat.lt_of_succ_lt room)
    rw [← List.replicate_succ', ← List.replicate_succ'] at next
    exact ⟨_, next⟩

theorem at_take (here : At s (0x1E :: bytes) events taken) :
    ∃ s', At s' bytes events (taken ++ [0x1E]) := by
  obtain ⟨run, stored, flag, typed, tk, idle⟩ := here
  obtain ⟨k, got, next, -, extended⟩ := read_cons _ _ stored
  have shape : read s 0 = { s with
      driver := k
      readers := Function.update s.readers 0 (.taken 0x1E)
      taken := s.taken ++ [0x1E]
      readings := s.readings ++ [.plain 0x1E] } := by
    rw [read, got]
    rfl
  have held : (read s 0).readers 0 = .taken 0x1E := by rw [shape]; simp
  refine ⟨update (read s 0) 0 0x1E, run_update (run_read run trivial (idle 0)) trivial held, ?_, ?_, ?_, ?_,
    fun r => ?_⟩
  · rw [shape]
    exact ⟨next.holds, next.tail, next.head, next.short⟩
  · rw [shape]
    exact extended.trans flag
  · rw [shape]
    exact typed
  · rw [shape]
    exact congrArg (· ++ [0x1E]) tk
  · by_cases first : r = 0
    · simp [update, first]
    · simp [update, shape, first, idle r]

theorem at_takeMany (n : Nat) (here : At s (List.replicate n 0x1E ++ bytes) events taken) :
    ∃ s', At s' bytes events (taken ++ List.replicate n 0x1E) := by
  induction n generalizing s taken with
  | zero => exact ⟨s, by simpa using here⟩
  | succ n ih =>
    rw [List.replicate_succ, List.cons_append] at here
    obtain ⟨s', next⟩ := at_take here
    obtain ⟨last, done⟩ := ih next
    rw [List.append_assoc, List.singleton_append, ← List.replicate_succ] at done
    exact ⟨last, done⟩

/-- The marker of an event takes the last place, and its scancode is dropped. -/
theorem at_onePlace (here : At s bytes events taken) (one : bytes.length = 254) :
    At (interrupt (interrupt s 0 0xE0) 0 0x48) (bytes ++ [0xE0]) (events ++ [.extended 0x48]) taken := by
  obtain ⟨run, stored, flag, typed, tk, idle⟩ := here
  have marked : Run (fun _ _ => True) Step start (interrupt s 0 0xE0) :=
    run_interrupt run trivial fun other => absurd rfl other
  let k : Driver := { s.driver with
    modifiers := updateModifierState s.driver.modifiers (getMakeCode 0x48) (!isBreakCode 0x48)
    extendedScancode := true }
  have storedNext : Stored k bytes := ⟨stored.holds, stored.tail, stored.head, stored.short⟩
  have first := stored_write storedNext (stored_notFull storedNext (by omega)) 0xE0
  have full : keyboardIsBufferFull (keyboardBufferWrite k 0xE0) :=
    stored_isFull first (by rw [List.length_append, one]; rfl)
  have served : (keyboardIsr 0 (interrupt s 0 0xE0).driver 0x48).driver =
      { keyboardBufferWrite k 0xE0 with extendedScancode := false, keyboardWaitingTask := 0 } := by
    have kept : (interrupt s 0 0xE0).driver = { s.driver with extendedScancode := true } := rfl
    rw [kept, keyboardIsr, if_neg (by decide), if_neg (not_intercepted _ (by decide))]
    change ({ store k 0x48 with keyboardWaitingTask := 0 } : Driver) = _
    rw [store, if_pos rfl, write_full full]
  refine ⟨run_interrupt marked trivial fun _ => not_intercepted _ (by decide), ?_, ?_, ?_, tk, idle⟩
  · dsimp only [interrupt] at served ⊢
    rw [served]
    exact ⟨first.holds, first.tail, first.head, first.short⟩
  · dsimp only [interrupt] at served ⊢
    rw [served]
  · have marker := typeEvents_snoc s.typed 0xE0
    have code := typeEvents_snoc (s.typed ++ [0xE0]) 0x48
    rw [marker, typed] at code
    exact code

/-- Behind a marker the next byte is taken for its scancode. -/
theorem at_takeMarked (here : At s (0xE0 :: b :: bytes) events taken) :
    ∃ s', Run (fun _ _ => True) Step start s' ∧ typeEvents s'.typed = (false, events) ∧
    s'.taken = taken ++ [0xE0, b] := by
  obtain ⟨run, stored, flag, typed, tk, idle⟩ := here
  obtain ⟨k, got, next, -, -⟩ := read_cons _ _ stored
  obtain ⟨last, second, -, -, -⟩ := read_cons _ _ next
  have shape : read s 0 = { s with
      driver := k
      readers := Function.update s.readers 0 .prefixed
      taken := s.taken ++ [0xE0] } := by
    rw [read, got]
    rfl
  have held : (read s 0).readers 0 = .prefixed := by rw [shape]; simp
  have taker : (read s 0).driver = k := by rw [shape]
  refine ⟨readSecond (read s 0) 0, run_second (run_read run trivial (idle 0)) trivial held, ?_, ?_⟩
  · rw [readSecond, taker, second, shape]
    exact typed
  · rw [readSecond, taker, second, shape, ← tk]
    exact List.append_assoc _ _ _

theorem parse_plain (plain : b ≠ 0xE0) (bytes : List UInt8) : parse (b :: bytes) = .plain b :: parse bytes := by
  rw [parse.eq_def]
  exact if_neg plain

theorem parse_replicate (n : Nat) (bytes : List UInt8) :
    parse (List.replicate n 0x1E ++ bytes) = List.replicate n (.plain 0x1E) ++ parse bytes := by
  induction n with
  | zero => rfl
  | succ n ih => rw [List.replicate_succ, List.cons_append, parse_plain (by decide), ih, List.replicate_succ,
      List.cons_append]

/-- Bytes with a marker in front of a scancode are those of events with that
extended event among them. -/
theorem marker_event (events : ∀ b, .plain b ∈ keys → b ≠ 0xE0)
    (taken : List.replicate n 0x1E ++ [0xE0, b] <+: keys.flatMap Key.encode) : .extended b ∈ keys := by
  obtain ⟨later, whole⟩ := taken
  have parsed := parse_encode events
  rw [← whole, List.append_assoc, parse_replicate] at parsed
  rw [← parsed]
  exact List.mem_append_right _ List.mem_cons_self

theorem burst_events {key : Key}
    (member : key ∈ List.replicate n (.plain 0x1E) ++ [.extended 0x48] ++ [.plain 0x1E]) :
    key = .plain 0x1E ∨ key = .extended 0x48 := by
  rcases List.mem_append.mp member with before | last
  · rcases List.mem_append.mp before with same | arrow
    · exact .inl (List.eq_of_mem_replicate same)
    · exact .inr (List.mem_singleton.mp arrow)
  · exact .inl (List.mem_singleton.mp last)

/-- After 254 keys the arrow up leaves its marker in the ring, and the next key is
read behind it. -/
theorem marker_misleads : ¬ ∀ s, Run (fun _ _ => True) Step start s → Faithful s := by
  intro all
  obtain ⟨s, here⟩ := at_pressMany 254 (by decide)
  have marked := at_onePlace here List.length_replicate
  rw [show List.replicate 254 (0x1E : UInt8) = 0x1E :: List.replicate 253 0x1E from List.replicate_succ,
    List.cons_append] at marked
  obtain ⟨one, room⟩ := at_take marked
  have pressed := at_press room (by rw [List.length_append, List.length_replicate]; decide)
  rw [List.append_assoc] at pressed
  obtain ⟨last, rest⟩ := at_takeMany 253 pressed
  obtain ⟨final, run, typed, taken⟩ := at_takeMarked rest
  obtain ⟨keys, among, bytes, -⟩ := all final run
  rw [typed] at among
  rw [taken, List.nil_append, List.singleton_append, ← List.replicate_succ] at bytes
  have plain : ∀ b, .plain b ∈ keys → b ≠ 0xE0 := by
    intro b member
    rcases burst_events (among.subset member) with same | arrow
    · injection same with same
      rw [same]
      decide
    · cases arrow
  rcases burst_events (among.subset (marker_event plain bytes)) with same | arrow
  · cases same
  · injection arrow with arrow
    exact absurd arrow (by decide)

end

end MeowMeowOS.KeyboardBursts

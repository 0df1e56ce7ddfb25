import MeowMeowOS.GuardedRuns
import MeowMeowOS.Keyboard
import MeowMeowOS.RingQueue

/-! What `keyboard_read_keycode` makes of the scancodes that the interrupt puts
into the ring, however far it lags behind. Both sides change the modifiers, so
what they type and what they read agree only while neither disturbs the other. -/
namespace MeowMeowOS.KeyDecoding
open GuardedRuns Keyboard RingQueue

/-! ## The bits of the modifiers -/

section
variable {m : Modifiers} {k : Driver} {b : UInt8} {pressed : Bool} {bytes rest : List UInt8}

theorem hold_shift (m : UInt8) : ((m ||| 0x01) &&& 0x01 != 0) = true ∧ (m &&& ~~~0x01) &&& 0x01 = 0 := by
  obtain ⟨v⟩ := m
  revert v
  decide

theorem hold_other (m : UInt8) : (m ||| 0x02) &&& 0x01 = m &&& 0x01 ∧ (m &&& ~~~0x02) &&& 0x01 = m &&& 0x01 ∧
    (m ||| 0x04) &&& 0x01 = m &&& 0x01 ∧ (m &&& ~~~0x04) &&& 0x01 = m &&& 0x01 := by
  obtain ⟨v⟩ := m
  revert v
  decide

theorem toggle_caps (m : UInt8) : (m ^^^ 0x10) &&& 0x08 = m &&& 0x08 ∧ (m ^^^ 0x20) &&& 0x08 = m &&& 0x08 := by
  obtain ⟨v⟩ := m
  revert v
  decide

/-- Only the two Shift keys change the Shift bit. -/
theorem update_shift :
    (updateModifierState m b pressed).shift = if b = 0x2A ∨ b = 0x36 then pressed else m.shift := by
  obtain ⟨set, cleared⟩ := hold_shift m.modifierState
  obtain ⟨ctrlSet, ctrlCleared, altSet, altCleared⟩ := hold_other m.modifierState
  unfold updateModifierState
  split
  · unfold Modifiers.shift hold modifierShift
    cases pressed
    · simp [cleared]
    · simpa using set
  · split
    · unfold Modifiers.shift hold modifierShift modifierCtrl
      cases pressed
      · simp [ctrlCleared]
      · simp [ctrlSet]
    · split
      · unfold Modifiers.shift hold modifierShift modifierAlt
        cases pressed
        · simp [altCleared]
        · simp [altSet]
      · unfold toggle Modifiers.shift
        cases pressed
        · simp
        · simp only [if_true]
          split
          · rfl
          · split
            · rfl
            · split <;> rfl

/-- Only a press of CapsLock changes the CapsLock bit. -/
theorem update_caps (quiet : ¬ (b = 0x3A ∧ pressed = true)) :
    (updateModifierState m b pressed).capsLock = m.capsLock := by
  obtain ⟨num, scroll⟩ := toggle_caps m.lockState
  unfold updateModifierState
  split
  · rfl
  · split
    · rfl
    · split
      · rfl
      · split
        · rename_i caps
          have up : pressed = false := by simpa [caps] using quiet
          rw [up]
          rfl
        · split
          · unfold toggle Modifiers.capsLock modifierCapsLock modifierNumLock
            cases pressed
            · rfl
            · simp [num]
          · split
            · unfold toggle Modifiers.capsLock modifierCapsLock modifierScrollLock
              cases pressed
              · rfl
              · simp [scroll]
            · rfl

/-! ## The bytes in the ring -/

/-- The ring holds these bytes and has room left. -/
structure Stored (k : Driver) (bytes : List UInt8) : Prop where
  holds : Holds keyboardBufferSize k.data k.tail bytes
  tail : k.tail < keyboardBufferSize
  head : k.head = (k.tail + bytes.length) % keyboardBufferSize
  short : bytes.length < keyboardBufferSize

theorem stored_room (stored : Stored k bytes) (room : ¬ keyboardIsBufferFull k) :
    bytes.length + 1 < keyboardBufferSize := by
  obtain ⟨-, tail, head, short⟩ := stored
  by_contra full
  refine room ?_
  unfold keyboardIsBufferFull keyboardBufferSize at *
  omega

theorem write_positions (room : ¬ keyboardIsBufferFull k) :
    (keyboardBufferWrite k b).head = (k.head + 1) % keyboardBufferSize ∧ (keyboardBufferWrite k b).tail = k.tail := by
  unfold keyboardBufferWrite
  rw [if_neg room]
  exact ⟨rfl, rfl⟩

theorem stored_write (stored : Stored k bytes) (room : ¬ keyboardIsBufferFull k) (b : UInt8) :
    Stored (keyboardBufferWrite k b) (bytes ++ [b]) := by
  have spare := stored_room stored room
  obtain ⟨holds, tail, head, short⟩ := stored
  unfold keyboardBufferWrite
  rw [if_neg room]
  refine ⟨?_, tail, ?_, ?_⟩
  · dsimp only
    rw [head]
    exact holds_push holds short b
  · dsimp only
    rw [head, List.length_append, List.length_singleton, Nat.mod_add_mod, Nat.add_assoc]
  · rw [List.length_append, List.length_singleton]
    exact spare

theorem read_nil (stored : Stored k []) : keyboardBufferRead k = none := by
  have same : keyboardIsBufferEmpty k := by
    rw [keyboardIsBufferEmpty, stored.head, List.length_nil, Nat.add_zero, Nat.mod_eq_of_lt stored.tail]
  unfold keyboardBufferRead
  rw [if_pos same]

theorem stored_filled (stored : Stored k (b :: rest)) : ¬ keyboardIsBufferEmpty k := by
  obtain ⟨-, tail, head, short⟩ := stored
  intro same
  unfold keyboardIsBufferEmpty keyboardBufferSize at *
  rw [List.length_cons] at head short
  omega

theorem read_cons (b : UInt8) (rest : List UInt8) (stored : Stored k (b :: rest)) :
    ∃ k', keyboardBufferRead k = some (b, k') ∧ Stored k' rest ∧ k'.modifiers = k.modifiers ∧
      k'.extendedScancode = k.extendedScancode := by
  have filled := stored_filled stored
  obtain ⟨holds, tail, head, short⟩ := stored
  have first := holds_first holds
  rw [Nat.mod_eq_of_lt tail] at first
  refine ⟨{ k with tail := (k.tail + 1) % keyboardBufferSize }, ?_,
    ⟨holds_pop holds, Nat.mod_lt _ (by decide), ?_, ?_⟩,
    rfl, rfl⟩
  · unfold keyboardBufferRead
    rw [if_neg filled, first]
  · dsimp only
    rw [head, List.length_cons, Nat.mod_add_mod, Nat.add_assoc, Nat.add_comm 1]
  · exact Nat.lt_of_succ_lt short

/-- The bytes of the ring that have not been read. -/
def contents (k : Driver) : List UInt8 :=
  (List.range ((k.head + keyboardBufferSize - k.tail) % keyboardBufferSize)).map fun i =>
    k.data ((k.tail + i) % keyboardBufferSize)

theorem contents_eq (stored : Stored k bytes) : contents k = bytes := by
  obtain ⟨holds, tail, head, short⟩ := stored
  have count : (k.head + keyboardBufferSize - k.tail) % keyboardBufferSize = bytes.length := by
    unfold keyboardBufferSize at *
    omega
  unfold contents
  rw [count]
  refine List.ext_getElem (by simp) fun i _ small => ?_
  rw [List.getElem_map, List.getElem_range]
  exact holds i small

end

/-! ## The keys that are not read yet -/

/-- A scancode of the ring, with or without the prefix `0xE0`. -/
inductive Key where
  | plain (scancode : UInt8)
  | extended (scancode : UInt8)

def Key.encode : Key → List UInt8
  | .plain b => [b]
  | .extended b => [0xE0, b]

def parse : List UInt8 → List Key
  | [] => []
  | b :: rest =>
    if b = 0xE0 then
      match rest with
      | [] => []
      | c :: rest => .extended c :: parse rest
    else .plain b :: parse rest

def IsShift (b : UInt8) : Prop := getMakeCode b = 0x2A ∨ getMakeCode b = 0x36

instance (b : UInt8) : Decidable (IsShift b) := inferInstanceAs (Decidable (_ ∨ _))

/-- The keycodes that count: the reader returns 0 for a byte without one. -/
def nonzero (keycode : UInt16) : List UInt16 := if keycode = 0 then [] else [keycode]

/-- The keycode of a byte while CapsLock is off. -/
def keycodeOf (shift : Bool) (b : UInt8) : UInt16 := plainKeycode ⟨if shift then modifierShift else 0, 0⟩ b

/-- Shift as the reader leaves it behind a key. -/
def press (shift : Bool) : Key → Bool
  | .plain b => if IsShift b then !isBreakCode b else shift
  | .extended _ => shift

def outcome (shift : Bool) : Key → List UInt16
  | .plain b => nonzero (keycodeOf shift b)
  | .extended b => nonzero (extendedKeycode b)

/-- What the reader makes of the keys when no more interrupts come. -/
def decodeAll (shift : Bool) : List Key → List UInt16
  | [] => []
  | key :: rest => outcome (press shift key) key ++ decodeAll (press shift key) rest

def Neutral : Key → Prop
  | .plain b => keycodeOf true b = keycodeOf false b
  | .extended _ => True

def Key.IsShift : Key → Prop
  | .plain b => KeyDecoding.IsShift b
  | .extended _ => False

/-- The keys before the first Shift key give the same keycodes with Shift and
without. -/
def Settled : List Key → Prop
  | [] => True
  | key :: rest => key.IsShift ∨ (Neutral key ∧ Settled rest)

/-! ## Both sides -/

/-- Where a call of `keyboard_read_keycode` is. -/
inductive Phase where
  | idle
  | taken (scancode : UInt8)
  | updated (scancode : UInt8)
  | prefixed

structure Session where
  driver : Driver
  phase : Phase
  typed : List UInt8
  returned : List UInt16

/-- The keyboard as it is typed on: each key is decoded when its scancode comes.
The codes of the Shift keys behind a prefix belong to no Shift key. -/
structure Typist where
  modifiers : Modifiers
  prefixed : Bool
  keycodes : List UInt16

def typeKey (t : Typist) (b : UInt8) : Typist :=
  if b = 0xE0 then { t with prefixed := true }
  else
    let updated := updateModifierState t.modifiers (getMakeCode b) (!isBreakCode b)
    if t.prefixed then
      ⟨if IsShift b then t.modifiers else updated, false, t.keycodes ++ nonzero (extendedKeycode b)⟩
    else ⟨updated, false, t.keycodes ++ nonzero (plainKeycode updated b)⟩

def typist (typed : List UInt8) : Typist := typed.foldl typeKey ⟨⟨0, 0⟩, false, []⟩

inductive Event where
  | interrupt (foregroundPid : Nat) (scancode : UInt8)
  | read
  | update
  | decode
  | readSecond

def interrupt (s : Session) (foregroundPid : Nat) (scancode : UInt8) : Session :=
  { s with
    driver := (keyboardIsr foregroundPid s.driver scancode).driver
    typed := s.typed ++ [scancode] }

def read (s : Session) : Session :=
  match keyboardBufferRead s.driver with
  | none => s
  | some (b, k) => { s with driver := k, phase := if b = 0xE0 then .prefixed else .taken b }

def update (s : Session) (b : UInt8) : Session :=
  { s with
    driver := { s.driver with
      modifiers := updateModifierState s.driver.modifiers (getMakeCode b) (!isBreakCode b) }
    phase := if isBreakCode b then .idle else .updated b }

def decode (s : Session) (b : UInt8) : Session :=
  { s with phase := .idle, returned := s.returned ++ nonzero (plainKeycode s.driver.modifiers b) }

def readSecond (s : Session) : Session :=
  match keyboardBufferRead s.driver with
  | none => s
  | some (b, k) =>
    { s with driver := k, phase := .idle, returned := s.returned ++ nonzero (extendedKeycode b) }

/-- The ring takes what the interrupt writes. -/
def Fits (k : Driver) : Prop :=
  ¬ keyboardIsBufferFull k ∧ (k.extendedScancode = true → ¬ keyboardIsBufferFull (keyboardBufferWrite k 0xE0))

/-- Nothing overflows the ring, and no Ctrl+C is typed. -/
def Step (s : Session) : Event → Session → Prop
  | .interrupt foregroundPid b, s' =>
    (b ≠ 0xE0 → Fits s.driver ∧ ¬ Intercepted (typist s.typed).modifiers b) ∧ s' = interrupt s foregroundPid b
  | .read, s' => s.phase = .idle ∧ s' = read s
  | .update, s' => ∃ b, s.phase = .taken b ∧ s' = update s b
  | .decode, s' => ∃ b, s.phase = .updated b ∧ s' = decode s b
  | .readSecond, s' => s.phase = .prefixed ∧ s' = readSecond s

/-- The keys that are still to be decoded, but for one whose modifiers have been
updated. -/
def unread (s : Session) : List Key :=
  match s.phase with
  | .idle | .updated _ => parse (contents s.driver)
  | .taken b => .plain b :: parse (contents s.driver)
  | .prefixed => parse (0xE0 :: contents s.driver)

/-- CapsLock is not pressed, the driver takes no C for Ctrl+C, and Shift changes
through a Shift key only, at a moment when nothing that is still to be decoded
depends on it. -/
def Guard (s : Session) : Event → Prop
  | .interrupt _ b => b ≠ 0xE0 → ¬ (getMakeCode b = 0x3A ∧ isBreakCode b = false) ∧
      ¬ Intercepted s.driver.modifiers b ∧
      ((updateModifierState s.driver.modifiers (getMakeCode b) (!isBreakCode b)).shift ≠ s.driver.modifiers.shift →
        s.driver.extendedScancode = false ∧ (∀ c, s.phase = .updated c → Neutral (.plain c)) ∧
        Settled (unread s))
  | _ => True

def start : Session := ⟨keyboardInitialize, .idle, [], []⟩

/-! ## Decoding -/

section
variable {s s' : Session} {m n : Modifiers} {b : UInt8} {shift : Bool} {key : Key} {keys : List Key}
  {bytes : List UInt8} {now : Option UInt8}

def CapsPress (b : UInt8) : Prop := getMakeCode b = 0x3A ∧ isBreakCode b = false

theorem plainKeycode_congr (shift : m.shift = n.shift) (caps : m.capsLock = n.capsLock) :
    plainKeycode m b = plainKeycode n b := by
  unfold plainKeycode keyboardScancodeToChar
  rw [shift, caps]

theorem plainKeycode_off (off : m.capsLock = false) : plainKeycode m b = keycodeOf m.shift b := by
  have unlocked : ((0 : UInt8) &&& modifierCapsLock != 0) = false := by decide
  refine plainKeycode_congr ?_ (off.trans unlocked.symm)
  cases m.shift <;> rfl

theorem keycodeOf_break (up : isBreakCode b = true) : keycodeOf shift b = 0 := by
  unfold keycodeOf plainKeycode keyboardScancodeToChar
  dsimp only
  rw [if_pos up, if_neg]
  · rfl
  · rintro rfl
    revert up
    decide

theorem update_press : (updateModifierState m (getMakeCode b) (!isBreakCode b)).shift = press m.shift (.plain b) :=
  update_shift

theorem press_settled {k : Key} (isShift : k.IsShift) : press shift k = press false k := by
  cases k with
  | plain b =>
    have held : IsShift b := isShift
    unfold press
    dsimp only
    rw [if_pos held, if_pos held]
  | extended b => exact isShift.elim

theorem press_other {k : Key} (other : ¬ k.IsShift) : press shift k = shift := by
  cases k with
  | plain b => exact if_neg other
  | extended b => rfl

theorem neutral_outcome {k : Key} (neutral : Neutral k) (shift : Bool) : outcome shift k = outcome false k := by
  cases k with
  | plain b =>
    cases shift
    · rfl
    · exact congrArg nonzero neutral
  | extended b => rfl

/-- Shift makes no difference to settled keys. -/
theorem settled_decode (settled : Settled keys) (shift : Bool) : decodeAll shift keys = decodeAll false keys := by
  induction keys with
  | nil => rfl
  | cons key rest ih =>
    unfold decodeAll
    by_cases isShift : key.IsShift
    · rw [press_settled isShift]
    · obtain ⟨neutral, settledRest⟩ := settled.resolve_left isShift
      rw [press_other isShift, press_other isShift, neutral_outcome neutral, ih settledRest]

theorem decodeAll_append (shift : Bool) (keys : List Key) (key : Key) : decodeAll shift (keys ++ [key]) =
    decodeAll shift keys ++ outcome (press (keys.foldl press shift) key) key := by
  induction keys generalizing shift with
  | nil => simp [decodeAll]
  | cons first rest ih =>
    simp only [List.cons_append, decodeAll, List.foldl_cons]
    rw [ih, List.append_assoc]

theorem parse_encode (plain : ∀ b, .plain b ∈ keys → b ≠ 0xE0) : parse (keys.flatMap Key.encode) = keys := by
  induction keys with
  | nil => rfl
  | cons key rest ih =>
    have tail := ih fun b member => plain b (List.mem_cons_of_mem _ member)
    rw [List.flatMap_cons]
    cases key with
    | plain b =>
      change parse (b :: rest.flatMap Key.encode) = _
      unfold parse
      rw [if_neg (plain b List.mem_cons_self), tail]
    | extended b =>
      change parse (0xE0 :: b :: rest.flatMap Key.encode) = _
      unfold parse
      rw [if_pos rfl]
      dsimp only
      rw [tail]

/-! ## What the reader still has to do -/

/-- The bytes in the ring, the byte whose modifiers have been updated, and the
keys after it. -/
inductive Ahead : Phase → List UInt8 → Option UInt8 → List Key → Prop where
  | idle (keys : List Key) : Ahead .idle (keys.flatMap Key.encode) none keys
  | taken (b : UInt8) (keys : List Key) : Ahead (.taken b) (keys.flatMap Key.encode) none (.plain b :: keys)
  | updated (b : UInt8) (keys : List Key) : Ahead (.updated b) (keys.flatMap Key.encode) (some b) keys
  | prefixed (b : UInt8) (keys : List Key) :
    Ahead .prefixed (b :: keys.flatMap Key.encode) none (.extended b :: keys)

/-- The keycodes that the reader is going to return. -/
def due (shift : Bool) (now : Option UInt8) (keys : List Key) : List UInt16 :=
  (now.elim [] fun b => nonzero (keycodeOf shift b)) ++ decodeAll shift keys

/-- What was returned and what is due make up what was typed. -/
structure Agrees (s : Session) (bytes : List UInt8) (now : Option UInt8) (keys : List Key) : Prop where
  stored : Stored s.driver bytes
  ahead : Ahead s.phase bytes now keys
  plain : ∀ b, .plain b ∈ keys → b ≠ 0xE0 ∧ ¬ CapsPress b
  marked : s.driver.extendedScancode = (typist s.typed).prefixed
  caps : s.driver.modifiers.capsLock = false ∧ (typist s.typed).modifiers.capsLock = false
  pressed : ∀ b ∈ s.typed, ¬ CapsPress b
  shift : (typist s.typed).modifiers.shift = keys.foldl press s.driver.modifiers.shift
  keycodes : (typist s.typed).keycodes = s.returned ++ due s.driver.modifiers.shift now keys

theorem ahead_snoc {phase : Phase} (ahead : Ahead phase bytes now keys) (key : Key) :
    Ahead phase (bytes ++ key.encode) now (keys ++ [key]) := by
  have grown : ∀ keys : List Key, keys.flatMap Key.encode ++ key.encode = (keys ++ [key]).flatMap Key.encode := by
    intro keys
    simp
  cases ahead with
  | idle => exact grown keys ▸ .idle _
  | taken b keys => exact grown keys ▸ .taken b _
  | updated b => exact grown keys ▸ .updated b _
  | prefixed b keys =>
    rw [List.cons_append, grown keys]
    exact .prefixed b _

theorem unread_keys (agrees : Agrees s bytes now keys) : unread s = keys := by
  obtain ⟨stored, ahead, plain, -⟩ := agrees
  have content := contents_eq stored
  unfold unread
  generalize s.phase = phase at ahead
  rw [content]
  cases ahead with
  | idle => exact parse_encode fun b member => (plain b member).1
  | taken b keys =>
    dsimp only
    rw [parse_encode fun c member => (plain c (List.mem_cons_of_mem _ member)).1]
  | updated b => exact parse_encode fun c member => (plain c member).1
  | prefixed b keys =>
    dsimp only
    unfold parse
    rw [if_pos rfl]
    dsimp only
    rw [parse_encode fun c member => (plain c (List.mem_cons_of_mem _ member)).1]

/-! ## The interrupt -/

theorem intercepted_update : Intercepted (updateModifierState m (getMakeCode b) (!isBreakCode b)) b ↔
    Intercepted m b := by
  unfold Intercepted
  by_cases c : getMakeCode b = 0x2E
  · rw [c]
    rfl
  · simp [c]

theorem keyboardBufferWrite_fields (k : Driver) (b : UInt8) : (keyboardBufferWrite k b).modifiers = k.modifiers ∧
    (keyboardBufferWrite k b).extendedScancode = k.extendedScancode := by
  unfold keyboardBufferWrite
  split <;> exact ⟨rfl, rfl⟩

/-- The key that a scancode makes, depending on the prefix before it. -/
def keyFor (extended : Bool) (b : UInt8) : Key := if extended then .extended b else .plain b

theorem store_stored {k : Driver} (stored : Stored k bytes) (fits : Fits k) (b : UInt8) :
    Stored (store k b) (bytes ++ (keyFor k.extendedScancode b).encode) ∧ (store k b).modifiers = k.modifiers ∧
      (store k b).extendedScancode = false := by
  unfold store keyFor
  by_cases extended : k.extendedScancode = true
  · rw [if_pos extended, if_pos extended]
    obtain ⟨holds, tail, head, short⟩ := stored_write (stored_write stored fits.1 0xE0) (fits.2 extended) b
    rw [List.append_assoc] at holds head short
    refine ⟨⟨holds, tail, head, short⟩, ?_, rfl⟩
    exact (keyboardBufferWrite_fields _ _).1.trans (keyboardBufferWrite_fields _ _).1
  · rw [if_neg extended, if_neg extended]
    refine ⟨stored_write stored fits.1 b, (keyboardBufferWrite_fields _ _).1, ?_⟩
    exact (keyboardBufferWrite_fields _ _).2.trans (Bool.eq_false_iff.mpr extended)

theorem isr_stored {k : Driver} (stored : Stored k bytes) (fits : Fits k) (plain : b ≠ 0xE0)
    (passed : ¬ Intercepted k.modifiers b) (foregroundPid : Nat) :
    Stored (keyboardIsr foregroundPid k b).driver (bytes ++ (keyFor k.extendedScancode b).encode) ∧
      (keyboardIsr foregroundPid k b).driver.modifiers =
        updateModifierState k.modifiers (getMakeCode b) (!isBreakCode b) ∧
      (keyboardIsr foregroundPid k b).driver.extendedScancode = false := by
  unfold keyboardIsr
  rw [if_neg plain]
  dsimp only
  rw [if_neg (fun held => passed (intercepted_update.mp held))]
  let k' := { k with modifiers := updateModifierState k.modifiers (getMakeCode b) (!isBreakCode b) }
  have storedNext : Stored k' bytes := ⟨stored.holds, stored.tail, stored.head, stored.short⟩
  have fitsNext : Fits k' := by
    obtain ⟨room, second⟩ := fits
    have roomNext : ¬ keyboardIsBufferFull k' := room
    refine ⟨room, fun extended => ?_⟩
    have apart := second extended
    rw [keyboardIsBufferFull, (write_positions room).1, (write_positions room).2] at apart
    rw [keyboardIsBufferFull, (write_positions roomNext).1, (write_positions roomNext).2]
    exact apart
  obtain ⟨⟨holds, tail, head, short⟩, modifiers, extended⟩ := store_stored storedNext fitsNext b
  exact ⟨⟨holds, tail, head, short⟩, modifiers, extended⟩

theorem typist_snoc (typed : List UInt8) (b : UInt8) : typist (typed ++ [b]) = typeKey (typist typed) b := by
  unfold typist
  rw [List.foldl_append]
  rfl

theorem agrees_prefix (agrees : Agrees s bytes now keys) (foregroundPid : Nat) :
    Agrees (interrupt s foregroundPid 0xE0) bytes now keys := by
  obtain ⟨⟨holds, tail, head, short⟩, ahead, plain, -, caps, pressed, shift, keycodes⟩ := agrees
  have next : typist (s.typed ++ [0xE0]) = { typist s.typed with prefixed := true } := by
    rw [typist_snoc, typeKey, if_pos rfl]
  refine ⟨⟨holds, tail, head, short⟩, ahead, plain, ?_, ⟨caps.1, ?_⟩, fun b member => ?_, ?_, ?_⟩
  · exact (congrArg Typist.prefixed next).symm
  · exact (congrArg (fun t => t.modifiers.capsLock) next).trans caps.2
  · rcases List.mem_append.mp member with old | last
    · exact pressed b old
    · rw [List.mem_singleton.mp last]
      unfold CapsPress
      decide
  · exact (congrArg (fun t => t.modifiers.shift) next).trans shift
  · exact (congrArg Typist.keycodes next).trans keycodes

/-- A change of Shift disturbs nothing that is due. -/
theorem due_settled (agrees : Agrees s bytes now keys)
    (changes : (updateModifierState s.driver.modifiers (getMakeCode b) (!isBreakCode b)).shift ≠
      s.driver.modifiers.shift → (∀ c, s.phase = .updated c → Neutral (.plain c)) ∧ Settled (unread s)) :
    due (updateModifierState s.driver.modifiers (getMakeCode b) (!isBreakCode b)).shift now keys =
      due s.driver.modifiers.shift now keys := by
  by_cases same : (updateModifierState s.driver.modifiers (getMakeCode b) (!isBreakCode b)).shift =
      s.driver.modifiers.shift
  · rw [same]
  · obtain ⟨neutral, settled⟩ := changes same
    rw [unread_keys agrees] at settled
    have first : ∀ shift, (now.elim [] fun b => nonzero (keycodeOf shift b)) =
        now.elim [] fun b => nonzero (keycodeOf false b) := by
      intro shift
      obtain ⟨-, ahead, -⟩ := agrees
      generalize s.phase = phase at ahead neutral
      cases ahead with
      | updated c keys => exact neutral_outcome (k := .plain c) (neutral c rfl) shift
      | idle => rfl
      | taken b keys => rfl
      | prefixed b keys => rfl
    have unmoved : ∀ shift, due shift now keys = due false now keys := by
      intro shift
      unfold due
      rw [first, settled_decode settled]
    rw [unmoved, unmoved s.driver.modifiers.shift]

theorem typeKey_plain {t : Typist} (plain : b ≠ 0xE0) (first : t.prefixed = false) : typeKey t b =
    ⟨updateModifierState t.modifiers (getMakeCode b) (!isBreakCode b), false,
      t.keycodes ++ nonzero (plainKeycode (updateModifierState t.modifiers (getMakeCode b) (!isBreakCode b)) b)⟩ := by
  unfold typeKey
  rw [if_neg plain]
  dsimp only
  rw [first, if_neg nofun]

theorem typeKey_extended {t : Typist} (plain : b ≠ 0xE0) (second : t.prefixed = true) : typeKey t b =
    ⟨if IsShift b then t.modifiers else updateModifierState t.modifiers (getMakeCode b) (!isBreakCode b), false,
      t.keycodes ++ nonzero (extendedKeycode b)⟩ := by
  unfold typeKey
  rw [if_neg plain]
  dsimp only
  rw [second, if_pos rfl]

theorem due_append (shift : Bool) (now : Option UInt8) (keys : List Key) (key : Key) : due shift now (keys ++ [key]) =
    due shift now keys ++ outcome (press (keys.foldl press shift) key) key := by
  unfold due
  rw [decodeAll_append, List.append_assoc]

theorem agrees_interrupt (agrees : Agrees s bytes now keys) (foregroundPid : Nat) (plainByte : b ≠ 0xE0)
    (fits : Fits s.driver) (guard : Guard s (.interrupt foregroundPid b)) :
    ∃ key, Agrees (interrupt s foregroundPid b) (bytes ++ key.encode) now (keys ++ [key]) := by
  obtain ⟨noCaps, passed, changes⟩ := guard plainByte
  have settled := due_settled agrees fun changed => (changes changed).2
  obtain ⟨stored, ahead, plain, marked, ⟨caps, capsTyped⟩, pressed, shift, keycodes⟩ := agrees
  obtain ⟨storedNext, modifiers, extended⟩ := isr_stored stored fits plainByte passed foregroundPid
  have quiet : ¬ (getMakeCode b = 0x3A ∧ (!isBreakCode b) = true) := by simpa using noCaps
  have capsNext : (updateModifierState s.driver.modifiers (getMakeCode b) (!isBreakCode b)).capsLock = false :=
    (update_caps quiet).trans caps
  have capsUpdated : (updateModifierState (typist s.typed).modifiers (getMakeCode b) (!isBreakCode b)).capsLock =
    false :=
    (update_caps quiet).trans capsTyped
  have pressedNext : ∀ c ∈ s.typed ++ [b], ¬ CapsPress c := by
    intro c member
    rcases List.mem_append.mp member with old | last
    · exact pressed c old
    · rw [List.mem_singleton.mp last]
      exact noCaps
  cases prefixed : s.driver.extendedScancode with
  | false =>
    have next := typeKey_plain plainByte (marked.symm.trans prefixed)
    rw [← typist_snoc] at next
    rw [prefixed] at storedNext
    have shiftNext : (typist (s.typed ++ [b])).modifiers.shift =
        press (keys.foldl press (updateModifierState s.driver.modifiers (getMakeCode b) (!isBreakCode b)).shift)
          (.plain b) := by
      rw [next, update_press, shift, update_press]
      by_cases isShift : IsShift b
      · exact (press_settled (k := .plain b) isShift).trans (press_settled (k := .plain b) isShift).symm
      · rw [press_other (k := .plain b) isShift, press_other (k := .plain b) isShift,
          press_other (k := .plain b) isShift]
    refine ⟨.plain b, storedNext, ahead_snoc ahead _, fun c member => ?_, ?_,
      ⟨(congrArg Modifiers.capsLock modifiers).trans capsNext, ?_⟩, pressedNext, ?_, ?_⟩
    · rcases List.mem_append.mp member with old | last
      · exact plain c old
      · obtain ⟨rfl⟩ := List.mem_singleton.mp last
        exact ⟨plainByte, noCaps⟩
    · exact extended.trans (congrArg Typist.prefixed next).symm
    · exact (congrArg (fun t => t.modifiers.capsLock) next).trans capsUpdated
    · change (typist (s.typed ++ [b])).modifiers.shift = _
      rw [List.foldl_append]
      change _ = press (keys.foldl press (keyboardIsr foregroundPid s.driver b).driver.modifiers.shift) (.plain b)
      rw [modifiers]
      exact shiftNext
    · change (typist (s.typed ++ [b])).keycodes = s.returned ++ due
        (keyboardIsr foregroundPid s.driver b).driver.modifiers.shift now (keys ++ [.plain b])
      rw [modifiers, due_append, settled, ← shiftNext, ← List.append_assoc, ← keycodes, next]
      dsimp only
      rw [plainKeycode_off capsUpdated]
      rfl
  | true =>
    have next := typeKey_extended plainByte (marked.symm.trans prefixed)
    rw [← typist_snoc] at next
    rw [prefixed] at storedNext
    -- a scancode behind a prefix leaves the Shift bit alone
    have steady : (updateModifierState s.driver.modifiers (getMakeCode b) (!isBreakCode b)).shift =
        s.driver.modifiers.shift := by
      by_contra changed
      have first := (changes changed).1
      rw [prefixed] at first
      cases first
    have shiftNext : (typist (s.typed ++ [b])).modifiers.shift = (typist s.typed).modifiers.shift := by
      rw [next]
      dsimp only
      split
      · rfl
      · rename_i other
        exact update_press.trans (press_other (k := .plain b) other)
    refine ⟨.extended b, storedNext, ahead_snoc ahead _, fun c member => ?_, ?_,
      ⟨(congrArg Modifiers.capsLock modifiers).trans capsNext, ?_⟩, pressedNext, ?_, ?_⟩
    · rcases List.mem_append.mp member with old | last
      · exact plain c old
      · cases List.mem_singleton.mp last
    · exact extended.trans (congrArg Typist.prefixed next).symm
    · refine (congrArg (fun t => t.modifiers.capsLock) next).trans ?_
      dsimp only
      split
      · exact capsTyped
      · exact capsUpdated
    · change (typist (s.typed ++ [b])).modifiers.shift = _
      rw [List.foldl_append]
      change _ = keys.foldl press (keyboardIsr foregroundPid s.driver b).driver.modifiers.shift
      rw [modifiers, steady, shiftNext]
      exact shift
    · change (typist (s.typed ++ [b])).keycodes = s.returned ++ due
        (keyboardIsr foregroundPid s.driver b).driver.modifiers.shift now (keys ++ [.extended b])
      rw [modifiers, due_append, settled, ← List.append_assoc, ← keycodes, next]
      rfl

/-! ## The reader -/

theorem agrees_read (agrees : Agrees s bytes now keys) (idle : s.phase = .idle) :
    ∃ bytes, Agrees (read s) bytes now keys := by
  obtain ⟨stored, ahead, plain, marked, caps, pressed, shift, keycodes⟩ := agrees
  rw [idle] at ahead
  cases ahead
  cases keys with
  | nil =>
    have empty := read_nil stored
    unfold read
    rw [empty]
    exact ⟨_, stored, idle ▸ .idle [], plain, marked, caps, pressed, shift, keycodes⟩
  | cons key rest =>
    unfold read
    cases key with
    | plain b =>
      obtain ⟨k, found, storedNext, modifiers, extended⟩ := read_cons _ _ stored
      rw [found]
      dsimp only
      rw [if_neg (plain b List.mem_cons_self).1]
      refine ⟨_, storedNext, .taken b rest, plain, extended.trans marked, ?_, pressed, ?_, ?_⟩
      · exact ⟨(congrArg Modifiers.capsLock modifiers).trans caps.1, caps.2⟩
      · dsimp only
        rw [modifiers]
        exact shift
      · dsimp only
        rw [modifiers]
        exact keycodes
    | extended b =>
      obtain ⟨k, found, storedNext, modifiers, extended⟩ := read_cons _ _ stored
      rw [found]
      dsimp only
      rw [if_pos rfl]
      refine ⟨_, storedNext, .prefixed b rest, plain, extended.trans marked, ?_, pressed, ?_, ?_⟩
      · exact ⟨(congrArg Modifiers.capsLock modifiers).trans caps.1, caps.2⟩
      · dsimp only
        rw [modifiers]
        exact shift
      · dsimp only
        rw [modifiers]
        exact keycodes

theorem agrees_update (agrees : Agrees s bytes now keys) (taken : s.phase = .taken b) :
    ∃ now keys, Agrees (update s b) bytes now keys := by
  obtain ⟨⟨holds, tail, head, short⟩, ahead, plain, marked, caps, pressed, shift, keycodes⟩ := agrees
  rw [taken] at ahead
  cases ahead with
  | taken _ rest =>
    have quiet : ¬ (getMakeCode b = 0x3A ∧ (!isBreakCode b) = true) := by
      have kept := (plain b List.mem_cons_self).2
      unfold CapsPress at kept
      simpa using kept
    have plainRest : ∀ c, .plain c ∈ rest → c ≠ 0xE0 ∧ ¬ CapsPress c :=
      fun c member => plain c (List.mem_cons_of_mem _ member)
    have capsNext := (update_caps (m := s.driver.modifiers) quiet).trans caps.1
    have next := update_press (m := s.driver.modifiers) (b := b)
    unfold update
    by_cases up : isBreakCode b = true
    · refine ⟨none, rest, ⟨holds, tail, head, short⟩, ?_, plainRest, marked, ⟨capsNext, caps.2⟩, pressed, ?_,
        ?_⟩
      · dsimp only
        rw [if_pos up]
        exact .idle rest
      · dsimp only
        rw [next]
        exact shift
      · have silent : outcome (press s.driver.modifiers.shift (.plain b)) (.plain b) = [] := by
          unfold outcome
          dsimp only
          rw [keycodeOf_break up]
          rfl
        have first : due s.driver.modifiers.shift none (.plain b :: rest) =
            decodeAll (press s.driver.modifiers.shift (.plain b)) rest := by
          change outcome _ _ ++ _ = _
          rw [silent, List.nil_append]
        rw [keycodes, first]
        dsimp only
        rw [next]
        rfl
    · refine ⟨some b, rest, ⟨holds, tail, head, short⟩, ?_, plainRest, marked,
        ⟨capsNext, caps.2⟩, pressed, ?_, ?_⟩
      · dsimp only
        rw [if_neg up]
        exact .updated b rest
      · dsimp only
        rw [next]
        exact shift
      · rw [keycodes]
        dsimp only
        rw [next]
        rfl

theorem agrees_decode (agrees : Agrees s bytes now keys) (updated : s.phase = .updated b) :
    Agrees (decode s b) bytes none keys := by
  obtain ⟨⟨holds, tail, head, short⟩, ahead, plain, marked, caps, pressed, shift, keycodes⟩ := agrees
  rw [updated] at ahead
  cases ahead with
  | updated _ keys =>
    refine ⟨⟨holds, tail, head, short⟩, .idle keys, plain, marked, caps, pressed, shift, ?_⟩
    unfold decode
    dsimp only
    rw [keycodes, plainKeycode_off caps.1, List.append_assoc]
    rfl

theorem agrees_second (agrees : Agrees s bytes now keys) (prefixed : s.phase = .prefixed) :
    ∃ bytes keys, Agrees (readSecond s) bytes none keys := by
  obtain ⟨stored, ahead, plain, marked, caps, pressed, shift, keycodes⟩ := agrees
  rw [prefixed] at ahead
  cases ahead with
  | prefixed b rest =>
    obtain ⟨k, found, storedNext, modifiers, extended⟩ := read_cons _ _ stored
    unfold readSecond
    rw [found]
    refine ⟨_, rest, storedNext, .idle rest, fun c member => plain c (List.mem_cons_of_mem _ member),
      extended.trans marked, ?_, pressed, ?_, ?_⟩
    · exact ⟨(congrArg Modifiers.capsLock modifiers).trans caps.1, caps.2⟩
    · dsimp only
      rw [modifiers]
      exact shift
    · dsimp only
      rw [keycodes, modifiers, List.append_assoc]
      rfl

/-! ## Every run -/

theorem agrees_start : Agrees start [] none [] :=
  ⟨⟨holds_nil, by decide, rfl, by decide⟩, .idle [], nofun, rfl, ⟨by decide, by decide⟩, nofun, rfl, rfl⟩

theorem agrees_step {event : Event} (agrees : Agrees s bytes now keys) (guard : Guard s event)
    (step : Step s event s') :
    ∃ bytes now keys, Agrees s' bytes now keys := by
  cases event with
  | interrupt foregroundPid b =>
    obtain ⟨domain, rfl⟩ := step
    by_cases plain : b = 0xE0
    · exact ⟨bytes, now, keys, plain ▸ agrees_prefix agrees foregroundPid⟩
    · obtain ⟨key, next⟩ := agrees_interrupt agrees foregroundPid plain (domain plain).1 guard
      exact ⟨_, _, _, next⟩
  | read =>
    obtain ⟨idle, rfl⟩ := step
    obtain ⟨bytes, next⟩ := agrees_read agrees idle
    exact ⟨_, _, _, next⟩
  | update =>
    obtain ⟨b, taken, rfl⟩ := step
    obtain ⟨now, keys, next⟩ := agrees_update agrees taken
    exact ⟨_, _, _, next⟩
  | decode =>
    obtain ⟨b, updated, rfl⟩ := step
    exact ⟨_, _, _, agrees_decode agrees updated⟩
  | readSecond =>
    obtain ⟨prefixed, rfl⟩ := step
    obtain ⟨bytes, keys, next⟩ := agrees_second agrees prefixed
    exact ⟨_, _, _, next⟩

/-- Everything typed so far has been read, and the last call is back. -/
def Drained (s : Session) : Prop := s.phase = .idle ∧ keyboardIsBufferEmpty s.driver

instance (b : UInt8) : Decidable (CapsPress b) := inferInstanceAs (Decidable (_ ∧ _))

/-- The keycodes returned are those of the keys as they were typed, and CapsLock
is on after an odd number of presses. -/
def Faithful (s : Session) : Prop :=
  s.returned <+: (typist s.typed).keycodes ∧ (Drained s → s.returned = (typist s.typed).keycodes ∧
    (s.driver.modifiers.capsLock = true ↔ s.typed.countP (CapsPress ·) % 2 = 1))

theorem decoding_faithful (run : Run Guard Step start s) : Faithful s := by
  obtain ⟨bytes, now, keys, agrees⟩ := run_invariant (fun s => ∃ bytes now keys, Agrees s bytes now keys) run
    ⟨_, _, _, agrees_start⟩ fun _ _ _ ⟨_, _, _, agrees⟩ guard step => agrees_step agrees guard step
  obtain ⟨stored, ahead, -, -, caps, pressed, -, keycodes⟩ := agrees
  refine ⟨⟨_, keycodes.symm⟩, fun ⟨idle, empty⟩ => ⟨?_, ?_⟩⟩
  · rw [idle] at ahead
    cases ahead
    cases keys with
    | nil =>
      rw [keycodes]
      exact (List.append_nil _).symm
    | cons key rest =>
      cases key with
      | plain b => exact absurd empty (stored_filled stored)
      | extended b => exact absurd empty (stored_filled stored)
  · have none : s.typed.countP (CapsPress ·) = 0 := by
      rw [List.countP_eq_zero]
      intro b member
      simpa using pressed b member
    rw [none, caps.1]
    simp

/-- The scancode comes, and a call reads it at once. -/
def typeOne (s : Session) (b : UInt8) : Session := decode (update (read (interrupt s 0 b)) b) b

theorem typeOne_run {guard : Session → Event → Prop} (run : Run guard Step start s)
    (comes : guard s (.interrupt 0 b))
    (free : ∀ t event, (∀ pid c, event ≠ .interrupt pid c) → guard t event) (fits : Fits s.driver)
    (harmless : ¬ Intercepted (typist s.typed).modifiers b) (idle : s.phase = .idle)
    (taken : (read (interrupt s 0 b)).phase = .taken b)
    (updated : (update (read (interrupt s 0 b)) b).phase = .updated b) : Run guard Step start (typeOne s b) := by
  have typed : Step s (.interrupt 0 b) (interrupt s 0 b) := ⟨fun _ => ⟨fits, harmless⟩, rfl⟩
  have reads : Step (interrupt s 0 b) .read (read (interrupt s 0 b)) := ⟨idle, rfl⟩
  have updates : Step (read (interrupt s 0 b)) .update (update (read (interrupt s 0 b)) b) := ⟨b, taken, rfl⟩
  have decodes : Step (update (read (interrupt s 0 b)) b) .decode (typeOne s b) := ⟨b, updated, rfl⟩
  have run := run_then run comes typed
  have run := run_then run (free _ _ fun _ _ held => Event.noConfusion held) reads
  have run := run_then run (free _ _ fun _ _ held => Event.noConfusion held) updates
  exact run_then run (free _ _ fun _ _ held => Event.noConfusion held) decodes

/-- Shift, A and the arrow up. -/
def shiftedArrow : Session :=
  readSecond (read (interrupt (interrupt (typeOne (typeOne start 0x2A) 0x1E) 0 0xE0) 0 0x48))

theorem decoding_faithful_shifted : Faithful shiftedArrow ∧ Drained shiftedArrow ∧
    shiftedArrow.returned = (typist [0x2A, 0x1E, 0xE0, 0x48]).keycodes := by
  have free : ∀ t event, (∀ pid c, event ≠ .interrupt pid c) → Guard t event := by
    intro t event other
    cases event with
    | interrupt pid c => exact absurd rfl (other pid c)
    | read => trivial
    | update => trivial
    | decode => trivial
    | readSecond => trivial
  have shift : Guard start (.interrupt 0 0x2A) :=
    fun _ => ⟨by decide, by decide, fun _ => ⟨rfl, nofun, trivial⟩⟩
  have letter : Guard (typeOne start 0x2A) (.interrupt 0 0x1E) :=
    fun _ => ⟨by decide, by decide, fun changed => absurd (by decide) changed⟩
  have mark : Guard (typeOne (typeOne start 0x2A) 0x1E) (.interrupt 0 0xE0) := fun other => absurd rfl other
  have arrow : Guard (interrupt (typeOne (typeOne start 0x2A) 0x1E) 0 0xE0) (.interrupt 0 0x48) :=
    fun _ => ⟨by decide, by decide, fun changed => absurd (by decide) changed⟩
  have first := typeOne_run .refl shift free ⟨by decide, nofun⟩ (by decide) rfl rfl rfl
  have second := typeOne_run first letter free ⟨by decide, nofun⟩ (by decide) rfl rfl rfl
  have third := run_then second mark (show Step _ (.interrupt 0 0xE0) _ from ⟨fun other => absurd rfl other, rfl⟩)
  have fourth := run_then third arrow
    (show Step _ (.interrupt 0 0x48) _ from ⟨fun _ => ⟨⟨by decide, fun _ => by decide⟩, by decide⟩, rfl⟩)
  have fifth :=
    run_then fourth (free _ _ fun _ _ held => Event.noConfusion held) (show Step _ .read _ from ⟨rfl, rfl⟩)
  have sixth := run_then fifth (free _ _ fun _ _ held => Event.noConfusion held)
    (show Step _ .readSecond _ from ⟨rfl, rfl⟩)
  have faithful := decoding_faithful sixth
  have drained : Drained shiftedArrow := ⟨rfl, by decide⟩
  exact ⟨faithful, drained, (faithful.2 drained).1⟩

/-- CapsLock and then A, each read at once, give a small letter. -/
theorem caps_lock_undone : ¬ ∀ s, Run (fun _ _ => True) Step start s → Faithful s := by
  intro all
  have first : Run (fun _ _ => True) Step start (typeOne start 0x3A) :=
    typeOne_run .refl trivial (fun _ _ _ => trivial) ⟨by decide, nofun⟩ (by decide) rfl rfl rfl
  have second : Run (fun _ _ => True) Step start (typeOne (typeOne start 0x3A) 0x1E) :=
    typeOne_run first trivial (fun _ _ _ => trivial) ⟨by decide, nofun⟩ (by decide) rfl rfl rfl
  obtain ⟨-, drained⟩ := all _ second
  have returned : (typeOne (typeOne start 0x3A) 0x1E).returned = [0x61] := by decide
  obtain ⟨same, -⟩ := drained ⟨rfl, by decide⟩
  rw [returned] at same
  revert same
  decide

end

end MeowMeowOS.KeyDecoding

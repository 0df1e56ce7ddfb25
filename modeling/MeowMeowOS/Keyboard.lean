import Mathlib.Data.UInt
import Mathlib.Logic.Function.Basic

/-! The keyboard driver: the ring of scancodes, the interrupt that fills it, and
the state of the modifier and lock keys. -/
namespace MeowMeowOS.Keyboard

/-- `modifier_state` and `lock_state`. -/
structure Modifiers where
  modifierState : UInt8
  lockState : UInt8
  deriving DecidableEq

structure Driver where
  data : Nat → UInt8
  head : Nat
  tail : Nat
  modifiers : Modifiers
  extendedScancode : Bool
  keyboardWaitingTask : Nat

def keyboardBufferSize : Nat := 256

def modifierShift : UInt8 := 0x01
def modifierCtrl : UInt8 := 0x02
def modifierAlt : UInt8 := 0x04
def modifierCapsLock : UInt8 := 0x08
def modifierNumLock : UInt8 := 0x10
def modifierScrollLock : UInt8 := 0x20

def keyTab : UInt16 := 0x09

def scancodeToAsciiNormal : List Char := [
  '\x00', '\x00', '1', '2', '3', '4', '5', '6', '7', '8', '9', '0', '-', '=',
  '\x08', '\t', 'q', 'w', 'e', 'r', 't', 'y', 'u', 'i', 'o', 'p', '[', ']',
  '\n', '\x00', 'a', 's', 'd', 'f', 'g', 'h', 'j', 'k', 'l', ';', '\x27', '\x60',
  '\x00', '\x5c', 'z', 'x', 'c', 'v', 'b', 'n', 'm', ',', '.', '/', '\x00', '*',
  '\x00', ' ', '\x00', '\x00', '\x00', '\x00', '\x00', '\x00', '\x00', '\x00', '\x00', '\x00', '\x00', '\x00',
  '\x00', '\x00', '\x00', '\x00', '\x00', '\x00', '\x00', '\x00', '\x00', '\x00']

def scancodeToAsciiShift : List Char := [
  '\x00', '\x00', '!', '@', '#', '$', '%', '^', '&', '*', '(', ')', '_', '+',
  '\x08', '\t', 'Q', 'W', 'E', 'R', 'T', 'Y', 'U', 'I', 'O', 'P', '\x7b', '\x7d',
  '\n', '\x00', 'A', 'S', 'D', 'F', 'G', 'H', 'J', 'K', 'L', ':', '\x22', '~',
  '\x00', '|', 'Z', 'X', 'C', 'V', 'B', 'N', 'M', '<', '>', '?', '\x00', '*',
  '\x00', ' ', '\x00', '\x00', '\x00', '\x00', '\x00', '\x00', '\x00', '\x00', '\x00', '\x00', '\x00', '\x00',
  '\x00', '\x00', '\x00', '\x00', '\x00', '\x00', '\x00', '\x00', '\x00', '\x00']

def extendedScancodeMap : Nat → UInt16
  | 0x48 => 0xE000
  | 0x50 => 0xE001
  | 0x4B => 0xE002
  | 0x4D => 0xE003
  | 0x47 => 0xE004
  | 0x4F => 0xE005
  | 0x49 => 0xE006
  | 0x51 => 0xE007
  | 0x52 => 0xE008
  | 0x53 => 0x7F
  | _ => 0

/-! ## The ring -/

def keyboardIsBufferEmpty (k : Driver) : Prop := k.head = k.tail

instance (k : Driver) : Decidable (keyboardIsBufferEmpty k) := inferInstanceAs (Decidable (_ = _))

def keyboardIsBufferFull (k : Driver) : Prop := (k.head + 1) % keyboardBufferSize = k.tail

instance (k : Driver) : Decidable (keyboardIsBufferFull k) := inferInstanceAs (Decidable (_ = _))

def keyboardBufferWrite (k : Driver) (scancode : UInt8) : Driver :=
  if keyboardIsBufferFull k then k
  else { k with data := Function.update k.data k.head scancode, head := (k.head + 1) % keyboardBufferSize }

def keyboardBufferRead (k : Driver) : Option (UInt8 × Driver) :=
  if keyboardIsBufferEmpty k then none
  else some (k.data k.tail, { k with tail := (k.tail + 1) % keyboardBufferSize })

/-! ## Modifiers and keycodes -/

def isBreakCode (scancode : UInt8) : Bool := scancode &&& 0x80 != 0

def getMakeCode (scancode : UInt8) : UInt8 := scancode &&& 0x7F

/-- Sets or clears one bit of `modifier_state`. -/
def hold (m : Modifiers) (modifier : UInt8) (isPressed : Bool) : Modifiers :=
  { m with modifierState := if isPressed then m.modifierState ||| modifier else m.modifierState &&& ~~~modifier }

/-- Flips one bit of `lock_state` when the key goes down. -/
def toggle (m : Modifiers) (lock : UInt8) (isPressed : Bool) : Modifiers :=
  if isPressed then { m with lockState := m.lockState ^^^ lock } else m

def updateModifierState (m : Modifiers) (scancode : UInt8) (isPressed : Bool) : Modifiers :=
  if scancode = 0x2A ∨ scancode = 0x36 then hold m modifierShift isPressed
  else if scancode = 0x1D then hold m modifierCtrl isPressed
  else if scancode = 0x38 then hold m modifierAlt isPressed
  else if scancode = 0x3A then toggle m modifierCapsLock isPressed
  else if scancode = 0x45 then toggle m modifierNumLock isPressed
  else if scancode = 0x46 then toggle m modifierScrollLock isPressed
  else m

def Modifiers.shift (m : Modifiers) : Bool := m.modifierState &&& modifierShift != 0

def Modifiers.ctrl (m : Modifiers) : Bool := m.modifierState &&& modifierCtrl != 0

def Modifiers.capsLock (m : Modifiers) : Bool := m.lockState &&& modifierCapsLock != 0

/-- The two tables, read with Shift held or not. -/
def asciiOf (shiftActive : Bool) (makeCode : Nat) : Char :=
  if shiftActive ∧ makeCode < scancodeToAsciiShift.length then scancodeToAsciiShift.getD makeCode '\x00'
  else if makeCode < scancodeToAsciiNormal.length then scancodeToAsciiNormal.getD makeCode '\x00'
  else '\x00'

def keyboardScancodeToChar (m : Modifiers) (scancode : UInt8) : Char :=
  let makeCode := (getMakeCode scancode).toNat
  if isBreakCode scancode then '\x00'
  else if 0x10 ≤ makeCode ∧ makeCode ≤ 0x2F then asciiOf (m.shift != m.capsLock) makeCode
  else asciiOf m.shift makeCode

/-- The end of `keyboard_read_keycode` for a key that went down. -/
def plainKeycode (m : Modifiers) (scancode : UInt8) : UInt16 :=
  if scancode = 0x0F then keyTab else UInt16.ofNat (keyboardScancodeToChar m scancode).toNat

/-- What `keyboard_read_keycode` returns for the byte after `0xE0`. -/
def extendedKeycode (scancode : UInt8) : UInt16 :=
  if isBreakCode scancode then 0 else extendedScancodeMap (getMakeCode scancode).toNat

/-! ## The interrupt -/

/-- The byte is a press of C with Ctrl held, which never reaches the ring. -/
def Intercepted (m : Modifiers) (scancode : UInt8) : Prop :=
  m.ctrl ∧ getMakeCode scancode = 0x2E ∧ isBreakCode scancode = false

instance (m : Modifiers) (scancode : UInt8) : Decidable (Intercepted m scancode) :=
  inferInstanceAs (Decidable (_ ∧ _))

/-- The part of `keyboard_isr` that stores the scancode. -/
def store (k : Driver) (scancode : UInt8) : Driver :=
  if k.extendedScancode then
    { keyboardBufferWrite (keyboardBufferWrite k 0xE0) scancode with extendedScancode := false }
  else keyboardBufferWrite k scancode

/-- What one interrupt leaves behind: the driver, the task that was sent
`SIGINT` and the one that was unblocked, 0 for none. -/
structure Served where
  driver : Driver
  signalled : Nat
  unblocked : Nat

def keyboardIsr (foregroundPid : Nat) (k : Driver) (scancode : UInt8) : Served :=
  if scancode = 0xE0 then ⟨{ k with extendedScancode := true }, 0, 0⟩
  else
    let k := { k with
      modifiers := updateModifierState k.modifiers (getMakeCode scancode) (!isBreakCode scancode) }
    if Intercepted k.modifiers scancode then ⟨k, foregroundPid, 0⟩
    else
      let k := store k scancode
      ⟨{ k with keyboardWaitingTask := 0 }, 0, k.keyboardWaitingTask⟩

def keyboardInitialize : Driver := ⟨fun _ => 0, 0, 0, ⟨0, 0⟩, false, 0⟩

section
variable {k : Driver} {b : UInt8}

@[simp] theorem keyboardBufferWrite_waiting :
  (keyboardBufferWrite k b).keyboardWaitingTask = k.keyboardWaitingTask := by
  unfold keyboardBufferWrite
  split <;> rfl

@[simp] theorem store_waiting : (store k b).keyboardWaitingTask = k.keyboardWaitingTask := by
  unfold store
  split <;> simp

end

end MeowMeowOS.Keyboard

import MeowMeowOS.ByteMemory
import Mathlib.Algebra.Group.Int.Defs
import Mathlib.Data.List.Range
import Mathlib.Logic.Function.Basic

/-! The console in a linear framebuffer: text, its cursor, scrolling, and the sprite
of the mouse with the pixels that it covers. All is as after `kscreen_initialize`,
so `fb` is not `NULL`; its memory is numbered from there. -/
namespace MeowMeowOS.FramebufferConsole
open ByteMemory

/-- What the video mode says, in 16 bits each. -/
structure Screen where
  width : Nat
  height : Nat
  pitch : Nat
  bpp : Nat
  depth : bpp = 24 ∨ bpp = 32
  rows : width * (bpp / 8) ≤ pitch
  words : pitch < 2 ^ 16 ∧ height < 2 ^ 16

/-- The framebuffer and where text goes. -/
structure Graphics where
  fb : Mem
  cursorX : Nat
  cursorY : Nat
  fgColor : Nat
  bgColor : Nat
  cursorBlinkCounter : Nat
  cursorIsVisible : Bool

/-- The sprite, and the pixels under it. -/
structure Mouse where
  bgBackup : Nat → Nat
  savedX : Int
  savedY : Int
  savedW : Nat
  savedH : Nat
  rendered : Bool

structure Console where
  graphics : Graphics
  mouse : Mouse

def cursorSpriteWidth : Nat := 12
def cursorSpriteHeight : Nat := 19

/-- The glyphs of the characters from the blank on. -/
def font8x16 : List (List Nat) :=
  [[0x00, 0x00, 0x00, 0x00, 0x00, 0x00, 0x00, 0x00, 0x00, 0x00, 0x00, 0x00, 0x00, 0x00, 0x00, 0x00],
   [0x00, 0x00, 0x18, 0x3C, 0x3C, 0x18, 0x18, 0x18, 0x18, 0x00, 0x18, 0x18, 0x00, 0x00, 0x00, 0x00],
   [0x00, 0x66, 0x66, 0x66, 0x24, 0x00, 0x00, 0x00, 0x00, 0x00, 0x00, 0x00, 0x00, 0x00, 0x00, 0x00],
   [0x00, 0x00, 0x00, 0x6C, 0x6C, 0xF0, 0x6C, 0x6C, 0x6C, 0xFE, 0x6C, 0x6C, 0x00, 0x00, 0x00, 0x00],
   [0x18, 0x18, 0x7C, 0xC6, 0xC2, 0xC0, 0x7C, 0x06, 0x06, 0x86, 0xC6, 0x7C, 0x18, 0x18, 0x00, 0x00],
   [0x00, 0x00, 0x00, 0x00, 0xC2, 0xC6, 0x0C, 0x18, 0x30, 0x60, 0xC6, 0x86, 0x00, 0x00, 0x00, 0x00],
   [0x00, 0x00, 0x38, 0x6C, 0x6C, 0x38, 0x70, 0xDC, 0xCC, 0xCC, 0xCC, 0x76, 0x00, 0x00, 0x00, 0x00],
   [0x00, 0x30, 0x30, 0x30, 0x60, 0x00, 0x00, 0x00, 0x00, 0x00, 0x00, 0x00, 0x00, 0x00, 0x00, 0x00],
   [0x00, 0x00, 0x0C, 0x18, 0x30, 0x30, 0x30, 0x30, 0x30, 0x30, 0x30, 0x18, 0x0C, 0x00, 0x00, 0x00],
   [0x00, 0x00, 0x30, 0x18, 0x0C, 0x0C, 0x0C, 0x0C, 0x0C, 0x0C, 0x0C, 0x18, 0x30, 0x00, 0x00, 0x00],
   [0x00, 0x00, 0x00, 0x00, 0x00, 0x18, 0x7E, 0x3C, 0x7E, 0x18, 0x00, 0x00, 0x00, 0x00, 0x00, 0x00],
   [0x00, 0x00, 0x00, 0x00, 0x18, 0x18, 0x18, 0xFF, 0x18, 0x18, 0x18, 0x00, 0x00, 0x00, 0x00, 0x00],
   [0x00, 0x00, 0x00, 0x00, 0x00, 0x00, 0x00, 0x00, 0x00, 0x00, 0x18, 0x18, 0x18, 0x30, 0x00, 0x00],
   [0x00, 0x00, 0x00, 0x00, 0x00, 0x00, 0x00, 0xFF, 0x00, 0x00, 0x00, 0x00, 0x00, 0x00, 0x00, 0x00],
   [0x00, 0x00, 0x00, 0x00, 0x00, 0x00, 0x00, 0x00, 0x00, 0x00, 0x18, 0x18, 0x00, 0x00, 0x00, 0x00],
   [0x00, 0x00, 0x00, 0x06, 0x0C, 0x18, 0x30, 0x60, 0xC0, 0x80, 0x00, 0x00, 0x00, 0x00, 0x00, 0x00],
   [0x00, 0x00, 0x38, 0x6C, 0xC6, 0xC6, 0xC6, 0xC6, 0xC6, 0xC6, 0xC6, 0x6C, 0x38, 0x00, 0x00, 0x00],
   [0x00, 0x00, 0x18, 0x38, 0x78, 0x18, 0x18, 0x18, 0x18, 0x18, 0x18, 0x18, 0x7E, 0x00, 0x00, 0x00],
   [0x00, 0x00, 0x7C, 0xC6, 0x06, 0x0C, 0x18, 0x30, 0x60, 0xC0, 0xC0, 0xC6, 0xFE, 0x00, 0x00, 0x00],
   [0x00, 0x00, 0x7C, 0xC6, 0x06, 0x06, 0x3C, 0x06, 0x06, 0x06, 0x06, 0xC6, 0x7C, 0x00, 0x00, 0x00],
   [0x00, 0x00, 0x0C, 0x1C, 0x3C, 0x6C, 0xCC, 0xFE, 0x0C, 0x0C, 0x0C, 0x0C, 0x1E, 0x00, 0x00, 0x00],
   [0x00, 0x00, 0xFE, 0xC0, 0xC0, 0xC0, 0xFC, 0x06, 0x06, 0x06, 0x06, 0xC6, 0x7C, 0x00, 0x00, 0x00],
   [0x00, 0x00, 0x38, 0x60, 0xC0, 0xC0, 0xFC, 0xC6, 0xC6, 0xC6, 0xC6, 0xC6, 0x7C, 0x00, 0x00, 0x00],
   [0x00, 0x00, 0xFE, 0xC6, 0x06, 0x06, 0x0C, 0x18, 0x30, 0x30, 0x30, 0x30, 0x30, 0x00, 0x00, 0x00],
   [0x00, 0x00, 0x7C, 0xC6, 0xC6, 0xC6, 0x7C, 0xC6, 0xC6, 0xC6, 0xC6, 0xC6, 0x7C, 0x00, 0x00, 0x00],
   [0x00, 0x00, 0x7C, 0xC6, 0xC6, 0xC6, 0xC6, 0xC6, 0x7E, 0x06, 0x06, 0x0C, 0x78, 0x00, 0x00, 0x00],
   [0x00, 0x00, 0x00, 0x00, 0x18, 0x18, 0x00, 0x00, 0x00, 0x18, 0x18, 0x00, 0x00, 0x00, 0x00, 0x00],
   [0x00, 0x00, 0x00, 0x00, 0x18, 0x18, 0x00, 0x00, 0x00, 0x18, 0x18, 0x30, 0x00, 0x00, 0x00, 0x00],
   [0x00, 0x00, 0x00, 0x06, 0x0C, 0x18, 0x30, 0x60, 0x30, 0x18, 0x0C, 0x06, 0x00, 0x00, 0x00, 0x00],
   [0x00, 0x00, 0x00, 0x00, 0x00, 0x7E, 0x00, 0x00, 0x7E, 0x00, 0x00, 0x00, 0x00, 0x00, 0x00, 0x00],
   [0x00, 0x00, 0x00, 0x60, 0x30, 0x18, 0x0C, 0x06, 0x0C, 0x18, 0x30, 0x60, 0x00, 0x00, 0x00, 0x00],
   [0x00, 0x00, 0x7C, 0xC6, 0xC6, 0x06, 0x0C, 0x18, 0x18, 0x00, 0x18, 0x18, 0x00, 0x00, 0x00, 0x00],
   [0x00, 0x00, 0x7C, 0xC6, 0xC6, 0xDE, 0xDE, 0xDE, 0xDE, 0xC0, 0xC0, 0xC6, 0x7C, 0x00, 0x00, 0x00],
   [0x00, 0x00, 0x10, 0x38, 0x6C, 0xC6, 0xC6, 0xFE, 0xC6, 0xC6, 0xC6, 0xC6, 0x00, 0x00, 0x00, 0x00],
   [0x00, 0x00, 0xFC, 0x66, 0x66, 0x66, 0x7C, 0x66, 0x66, 0x66, 0x66, 0xFC, 0x00, 0x00, 0x00, 0x00],
   [0x00, 0x00, 0x3C, 0x66, 0xC2, 0xC0, 0xC0, 0xC0, 0xC0, 0xC2, 0x66, 0x3C, 0x00, 0x00, 0x00, 0x00],
   [0x00, 0x00, 0xF8, 0x6C, 0x66, 0x66, 0x66, 0x66, 0x66, 0x66, 0x6C, 0xF8, 0x00, 0x00, 0x00, 0x00],
   [0x00, 0x00, 0xFE, 0x62, 0x60, 0x64, 0x7C, 0x64, 0x60, 0x60, 0x62, 0xFE, 0x00, 0x00, 0x00, 0x00],
   [0x00, 0x00, 0xFE, 0x62, 0x60, 0x64, 0x7C, 0x64, 0x60, 0x60, 0x60, 0xF0, 0x00, 0x00, 0x00, 0x00],
   [0x00, 0x00, 0x3C, 0x66, 0xC2, 0xC0, 0xC0, 0xCE, 0xC6, 0xC6, 0x66, 0x3E, 0x00, 0x00, 0x00, 0x00],
   [0x00, 0x00, 0xC6, 0xC6, 0xC6, 0xC6, 0xFE, 0xC6, 0xC6, 0xC6, 0xC6, 0xC6, 0x00, 0x00, 0x00, 0x00],
   [0x00, 0x00, 0x3E, 0x1C, 0x1C, 0x1C, 0x1C, 0x1C, 0x1C, 0x1C, 0x1C, 0x3E, 0x00, 0x00, 0x00, 0x00],
   [0x00, 0x00, 0x0E, 0x06, 0x06, 0x06, 0x06, 0x06, 0x06, 0x06, 0x66, 0x3C, 0x00, 0x00, 0x00, 0x00],
   [0x00, 0x00, 0xE6, 0x66, 0x6C, 0x78, 0x70, 0x78, 0x6C, 0x66, 0x66, 0xE6, 0x00, 0x00, 0x00, 0x00],
   [0x00, 0x00, 0xF0, 0x60, 0x60, 0x60, 0x60, 0x60, 0x60, 0x60, 0x62, 0xFE, 0x00, 0x00, 0x00, 0x00],
   [0x00, 0x00, 0xC6, 0xEE, 0xFE, 0xFE, 0xD6, 0xC6, 0xC6, 0xC6, 0xC6, 0xC6, 0x00, 0x00, 0x00, 0x00],
   [0x00, 0x00, 0xC6, 0xE6, 0xF6, 0xFE, 0xDE, 0xCE, 0xC6, 0xC6, 0xC6, 0xC6, 0x00, 0x00, 0x00, 0x00],
   [0x00, 0x00, 0x38, 0x6C, 0xC6, 0xC6, 0xC6, 0xC6, 0xC6, 0xC6, 0x6C, 0x38, 0x00, 0x00, 0x00, 0x00],
   [0x00, 0x00, 0xFC, 0x66, 0x66, 0x66, 0x7C, 0x60, 0x60, 0x60, 0x60, 0xF0, 0x00, 0x00, 0x00, 0x00],
   [0x00, 0x00, 0x38, 0x6C, 0xC6, 0xC6, 0xC6, 0xC6, 0xC6, 0xDA, 0xEC, 0x7E, 0x06, 0x00, 0x00, 0x00],
   [0x00, 0x00, 0xFC, 0x66, 0x66, 0x66, 0x7C, 0x6C, 0x66, 0x66, 0x66, 0xE6, 0x00, 0x00, 0x00, 0x00],
   [0x00, 0x00, 0x7C, 0xC6, 0xC6, 0x60, 0x38, 0x0C, 0x06, 0xC6, 0xC6, 0x7C, 0x00, 0x00, 0x00, 0x00],
   [0x00, 0x00, 0xFE, 0x7C, 0x38, 0x38, 0x38, 0x38, 0x38, 0x38, 0x38, 0x38, 0x00, 0x00, 0x00, 0x00],
   [0x00, 0x00, 0xC6, 0xC6, 0xC6, 0xC6, 0xC6, 0xC6, 0xC6, 0xC6, 0xC6, 0x7C, 0x00, 0x00, 0x00, 0x00],
   [0x00, 0x00, 0xC6, 0xC6, 0xC6, 0xC6, 0xC6, 0xC6, 0xC6, 0x6C, 0x38, 0x10, 0x00, 0x00, 0x00, 0x00],
   [0x00, 0x00, 0xC6, 0xC6, 0xC6, 0xC6, 0xC6, 0xD6, 0xFE, 0xFE, 0xEE, 0xC6, 0x00, 0x00, 0x00, 0x00],
   [0x00, 0x00, 0xC6, 0xC6, 0x6C, 0x38, 0x38, 0x6C, 0xC6, 0xC6, 0xC6, 0xC6, 0x00, 0x00, 0x00, 0x00],
   [0x00, 0x00, 0xC6, 0xC6, 0xC6, 0x6C, 0x38, 0x38, 0x38, 0x38, 0x38, 0x38, 0x00, 0x00, 0x00, 0x00],
   [0x00, 0x00, 0xFE, 0x06, 0x0C, 0x18, 0x30, 0x60, 0xC0, 0xC0, 0xC0, 0xFE, 0x00, 0x00, 0x00, 0x00],
   [0x00, 0x00, 0x3C, 0x30, 0x30, 0x30, 0x30, 0x30, 0x30, 0x30, 0x30, 0x3C, 0x00, 0x00, 0x00, 0x00],
   [0x00, 0x00, 0x00, 0x80, 0xC0, 0x60, 0x30, 0x18, 0x0C, 0x06, 0x00, 0x00, 0x00, 0x00, 0x00, 0x00],
   [0x00, 0x00, 0x3C, 0x0C, 0x0C, 0x0C, 0x0C, 0x0C, 0x0C, 0x0C, 0x0C, 0x3C, 0x00, 0x00, 0x00, 0x00],
   [0x00, 0x00, 0x18, 0x3C, 0x66, 0x00, 0x00, 0x00, 0x00, 0x00, 0x00, 0x00, 0x00, 0x00, 0x00, 0x00],
   [0x00, 0x00, 0x00, 0x00, 0x00, 0x00, 0x00, 0x00, 0x00, 0x00, 0x00, 0x00, 0xFF, 0x00, 0x00, 0x00],
   [0x00, 0x00, 0x60, 0x60, 0x30, 0x00, 0x00, 0x00, 0x00, 0x00, 0x00, 0x00, 0x00, 0x00, 0x00, 0x00],
   [0x00, 0x00, 0x00, 0x00, 0x00, 0x78, 0x0C, 0x7C, 0xCC, 0xCC, 0xCC, 0x76, 0x00, 0x00, 0x00, 0x00],
   [0x00, 0x00, 0xE0, 0x60, 0x60, 0x78, 0x6C, 0x66, 0x66, 0x66, 0x66, 0x7C, 0x00, 0x00, 0x00, 0x00],
   [0x00, 0x00, 0x00, 0x00, 0x00, 0x3C, 0x66, 0xC0, 0xC0, 0xC0, 0x66, 0x3C, 0x00, 0x00, 0x00, 0x00],
   [0x00, 0x00, 0x0E, 0x06, 0x06, 0x3E, 0x66, 0xC6, 0xC6, 0xC6, 0xC6, 0x7E, 0x00, 0x00, 0x00, 0x00],
   [0x00, 0x00, 0x00, 0x00, 0x00, 0x3C, 0x66, 0xFE, 0xC0, 0xC0, 0x66, 0x3C, 0x00, 0x00, 0x00, 0x00],
   [0x00, 0x00, 0x1C, 0x36, 0x30, 0x78, 0x30, 0x30, 0x30, 0x30, 0x30, 0x78, 0x00, 0x00, 0x00, 0x00],
   [0x00, 0x00, 0x00, 0x00, 0x00, 0x3E, 0x66, 0xC6, 0xC6, 0xC6, 0x7E, 0x06, 0x0C, 0x38, 0x00, 0x00],
   [0x00, 0x00, 0xE0, 0x60, 0x60, 0x78, 0x6C, 0x66, 0x66, 0x66, 0x66, 0xE6, 0x00, 0x00, 0x00, 0x00],
   [0x00, 0x00, 0x18, 0x18, 0x00, 0x38, 0x18, 0x18, 0x18, 0x18, 0x18, 0x3C, 0x00, 0x00, 0x00, 0x00],
   [0x00, 0x00, 0x06, 0x06, 0x00, 0x0E, 0x06, 0x06, 0x06, 0x06, 0x06, 0x06, 0x66, 0x3C, 0x00, 0x00],
   [0x00, 0x00, 0xE0, 0x60, 0x60, 0x66, 0x6C, 0x78, 0x78, 0x6C, 0x66, 0xE6, 0x00, 0x00, 0x00, 0x00],
   [0x00, 0x00, 0x38, 0x18, 0x18, 0x18, 0x18, 0x18, 0x18, 0x18, 0x18, 0x3C, 0x00, 0x00, 0x00, 0x00],
   [0x00, 0x00, 0x00, 0x00, 0x00, 0xEC, 0xFE, 0xD6, 0xD6, 0xD6, 0xD6, 0xC6, 0x00, 0x00, 0x00, 0x00],
   [0x00, 0x00, 0x00, 0x00, 0x00, 0xDC, 0x66, 0x66, 0x66, 0x66, 0x66, 0x66, 0x00, 0x00, 0x00, 0x00],
   [0x00, 0x00, 0x00, 0x00, 0x00, 0x3C, 0x66, 0xC6, 0xC6, 0xC6, 0x66, 0x3C, 0x00, 0x00, 0x00, 0x00],
   [0x00, 0x00, 0x00, 0x00, 0x00, 0xDC, 0x66, 0x66, 0x66, 0x66, 0x7C, 0x60, 0x60, 0xF0, 0x00, 0x00],
   [0x00, 0x00, 0x00, 0x00, 0x00, 0x3E, 0x66, 0xC6, 0xC6, 0xC6, 0x7E, 0x06, 0x06, 0x0F, 0x00, 0x00],
   [0x00, 0x00, 0x00, 0x00, 0x00, 0xDC, 0x66, 0x60, 0x60, 0x60, 0x60, 0xF0, 0x00, 0x00, 0x00, 0x00],
   [0x00, 0x00, 0x00, 0x00, 0x00, 0x3E, 0x60, 0x3C, 0x06, 0x06, 0x66, 0x3C, 0x00, 0x00, 0x00, 0x00],
   [0x00, 0x00, 0x10, 0x30, 0x30, 0xFC, 0x30, 0x30, 0x30, 0x30, 0x34, 0x18, 0x00, 0x00, 0x00, 0x00],
   [0x00, 0x00, 0x00, 0x00, 0x00, 0xCC, 0xCC, 0xCC, 0xCC, 0xCC, 0xCC, 0x76, 0x00, 0x00, 0x00, 0x00],
   [0x00, 0x00, 0x00, 0x00, 0x00, 0xC6, 0xC6, 0xC6, 0x6C, 0x38, 0x38, 0x10, 0x00, 0x00, 0x00, 0x00],
   [0x00, 0x00, 0x00, 0x00, 0x00, 0xC6, 0xD6, 0xD6, 0xD6, 0xFE, 0xEE, 0x44, 0x00, 0x00, 0x00, 0x00],
   [0x00, 0x00, 0x00, 0x00, 0x00, 0xC6, 0x6C, 0x38, 0x38, 0x6C, 0xC6, 0xC6, 0x00, 0x00, 0x00, 0x00],
   [0x00, 0x00, 0x00, 0x00, 0x00, 0xC6, 0xC6, 0xC6, 0xC6, 0x7E, 0x06, 0x0C, 0x38, 0x00, 0x00, 0x00],
   [0x00, 0x00, 0x00, 0x00, 0x00, 0xFE, 0x0C, 0x18, 0x30, 0x60, 0xC0, 0xFE, 0x00, 0x00, 0x00, 0x00],
   [0x00, 0x00, 0x0E, 0x18, 0x18, 0x18, 0x70, 0x18, 0x18, 0x18, 0x18, 0x0E, 0x00, 0x00, 0x00, 0x00],
   [0x00, 0x00, 0x18, 0x18, 0x18, 0x18, 0x18, 0x18, 0x18, 0x18, 0x18, 0x18, 0x00, 0x00, 0x00, 0x00],
   [0x00, 0x00, 0x70, 0x18, 0x18, 0x18, 0x0E, 0x18, 0x18, 0x18, 0x18, 0x70, 0x00, 0x00, 0x00, 0x00],
   [0x00, 0x00, 0x76, 0xDC, 0x00, 0x00, 0x00, 0x00, 0x00, 0x00, 0x00, 0x00, 0x00, 0x00, 0x00, 0x00],
   [0x00, 0x00, 0x00, 0x00, 0x00, 0x00, 0x00, 0x00, 0x00, 0x00, 0x00, 0x00, 0x00, 0x00, 0x00, 0x00]]

def mousePointerSprite : List String :=
  ["B...........",
   "BB..........",
   "BWB.........",
   "BWWb........",
   "BWWWB.......",
   "BWWWWb......",
   "BWWWWWB.....",
   "BWWWWWWB....",
   "BWWWWWWWB...",
   "BWWWWWWWWB..",
   "BWWWWWWWWWB.",
   "BWWWWWWWWWB.",
   "BWWWWBBBBBB.",
   "BWWWB.......",
   "BWWB........",
   "BWB.........",
   "BB..........",
   "B...........",
   "............"]

/-! ## Pixels -/

/-- An `int` where the code takes it for a `uint32_t`. -/
def word (i : Int) : Nat := (i % 2 ^ 32).toNat

def pixelOffset (g : Screen) (x y : Nat) : Nat := (y * g.pitch + x * (g.bpp / 8)) % 2 ^ 32

def fbGetPixel (g : Screen) (fb : Mem) (x y : Nat) : Nat :=
  if g.width ≤ x ∨ g.height ≤ y then 0
  else
    let offset := pixelOffset g x y
    if g.bpp = 32 then readWord fb offset
    else if g.bpp = 24 then (fb offset).toNat + (fb (offset + 1)).toNat * 256 + (fb (offset + 2)).toNat * 65536
    else 0

def fbPutPixel (g : Screen) (fb : Mem) (x y color : Nat) : Mem :=
  if g.width ≤ x ∨ g.height ≤ y then fb
  else
    let offset := pixelOffset g x y
    if g.bpp = 32 then writeWord fb offset color
    else if g.bpp = 24 then
      let fb := writeByte (writeByte fb offset (UInt8.ofNat color)) (offset + 1) (UInt8.ofNat (color / 256))
      writeByte fb (offset + 2) (UInt8.ofNat (color / 65536))
    else fb

/-- The columns and rows of a rectangle, row after row. -/
def cells (w h : Nat) : List (Nat × Nat) := (List.range h).flatMap fun dy => (List.range w).map fun dx => (dx, dy)

/-- The two loops around `fb_put_pixel(x + cx, y + cy, …)`. -/
def fbFill (g : Screen) (fb : Mem) (x y w h : Nat) (color : Nat → Nat → Nat) : Mem :=
  (cells w h).foldl (fun fb cell =>
    fbPutPixel g fb ((x + cell.1) % 2 ^ 32) ((y + cell.2) % 2 ^ 32) (color cell.1 cell.2)) fb

/-! ## Text -/

def fbDrawCursor (g : Screen) (s : Graphics) (visible : Bool) : Graphics :=
  { s with fb := fbFill g s.fb s.cursorX (s.cursorY + 14) 8 2 fun _ _ => if visible then s.fgColor else s.bgColor }

def fbScroll (g : Screen) (s : Graphics) : Graphics :=
  let s := fbDrawCursor g s false
  let scrollBytes := g.pitch * 16 % 2 ^ 32
  let totalBytes := g.pitch * g.height % 2 ^ 32
  let bytesToMove := (totalBytes + 2 ^ 32 - scrollBytes) % 2 ^ 32
  let fb := (List.range bytesToMove).foldl (fun m i => writeByte m i (m (scrollBytes + i))) s.fb
  let fb := (List.range scrollBytes).foldl (fun m i => writeByte m (bytesToMove + i) 0) fb
  let s := { s with fb := fb, cursorY := (s.cursorY + 2 ^ 32 - 16) % 2 ^ 32 }
  fbDrawCursor g s s.cursorIsVisible

def moveTo (s : Graphics) (place : Nat × Nat) : Graphics := { s with cursorX := place.1, cursorY := place.2 }

/-- Where the text cursor goes back to. -/
def stepBack (g : Screen) (s : Graphics) : Nat × Nat :=
  if 8 ≤ s.cursorX then (s.cursorX - 8, s.cursorY)
  else if 16 ≤ s.cursorY then ((g.width + 2 ^ 32 - 8) % 2 ^ 32, s.cursorY - 16)
  else (s.cursorX, s.cursorY)

def eraseCell (g : Screen) (s : Graphics) : Graphics :=
  { s with fb := fbFill g s.fb s.cursorX s.cursorY 8 16 fun _ _ => s.bgColor }

def kbackspace (g : Screen) (s : Graphics) : Graphics :=
  let s := fbDrawCursor g s false
  let s := eraseCell g (moveTo s (stepBack g s))
  fbDrawCursor g s s.cursorIsVisible

def newline : UInt8 := 0x0A
def carriageReturn : UInt8 := 0x0D
def tab : UInt8 := 0x09
def backspace : UInt8 := 0x08

/-- `c >= 32 && c <= 126`, where `char` is signed. -/
abbrev IsPrintable (c : UInt8) : Prop := 0x20 ≤ c ∧ c ≤ 0x7E

/-- The column, or the first one of the next line behind the right edge. -/
def wrapLine (g : Screen) (x y : Nat) : Nat × Nat := if g.width ≤ x then (0, (y + 16) % 2 ^ 32) else (x, y)

/-- Where the text cursor goes on, before anything scrolls. -/
def advance (g : Screen) (s : Graphics) (c : UInt8) : Nat × Nat :=
  if c = newline then (0, (s.cursorY + 16) % 2 ^ 32)
  else if c = carriageReturn then (0, s.cursorY)
  else if c = tab then wrapLine g ((s.cursorX / 32 + 1) * 32 % 2 ^ 32) s.cursorY
  else if IsPrintable c then wrapLine g ((s.cursorX + 8) % 2 ^ 32) s.cursorY
  else (s.cursorX, s.cursorY)

/-- `row & (0x80 >> cx)` -/
def glyphBit (c : UInt8) (cx cy : Nat) : Bool := ((font8x16.getD (c.toNat - 0x20) []).getD cy 0).testBit (7 - cx)

def drawGlyph (g : Screen) (s : Graphics) (c : UInt8) : Graphics :=
  if IsPrintable c then
    let color := fun cx cy => if glyphBit c cx cy then s.fgColor else s.bgColor
    { s with fb := fbFill g s.fb s.cursorX s.cursorY 8 16 color }
  else s

def kputChar (g : Screen) (s : Graphics) (c : UInt8) : Graphics :=
  let s := fbDrawCursor g s false
  if c = backspace then kbackspace g s
  else
    let s := drawGlyph g s c
    let s := moveTo s (advance g s c)
    let s := if g.height < (s.cursorY + 16) % 2 ^ 32 then fbScroll g s else s
    fbDrawCursor g { s with cursorIsVisible := true, cursorBlinkCounter := 0 } true

/-! ## The mouse -/

def kconsoleRestoreMouseCursor (g : Screen) (s : Console) : Console :=
  let mouse := s.mouse
  if mouse.rendered = false ∨ mouse.savedX < 0 ∨ mouse.savedY < 0 then s
  else
    let fb := (cells mouse.savedW mouse.savedH).foldl (fun fb cell =>
      let px := word (mouse.savedX + cell.1)
      let py := word (mouse.savedY + cell.2)
      if px < g.width ∧ py < g.height then
        fbPutPixel g fb px py (mouse.bgBackup (cell.2 * cursorSpriteWidth + cell.1))
      else fb) s.graphics.fb
    ⟨{ s.graphics with fb := fb }, { mouse with rendered := false }⟩

/-- The colour of a character of the sprite. -/
def spriteColor (pixel : Char) : Option Nat :=
  if pixel = 'B' ∨ pixel = 'b' then some 0x00000000 else if pixel = 'W' ∨ pixel = 'w' then some 0x00FFFFFF else none

def spritePixel (dx dy : Nat) : Char := (mousePointerSprite.getD dy "").toList.getD dx '.'

def kconsoleDrawMouseCursor (g : Screen) (s : Console) (x y : Int) : Console :=
  if g.width = 0 ∨ g.height = 0 then s
  else
    let s := if s.mouse.rendered then kconsoleRestoreMouseCursor g s else s
    let w := if x + cursorSpriteWidth > g.width then word (g.width - x) else cursorSpriteWidth
    let h := if y + cursorSpriteHeight > g.height then word (g.height - y) else cursorSpriteHeight
    let bgBackup := (cells w h).foldl (fun backup cell =>
      Function.update backup (cell.2 * cursorSpriteWidth + cell.1)
        (fbGetPixel g s.graphics.fb (word (x + cell.1)) (word (y + cell.2)))) s.mouse.bgBackup
    let fb := (cells w h).foldl (fun fb cell =>
      match spriteColor (spritePixel cell.1 cell.2) with
      | some color => fbPutPixel g fb (word (x + cell.1)) (word (y + cell.2)) color
      | none => fb) s.graphics.fb
    ⟨{ s.graphics with fb := fb }, ⟨bgBackup, x, y, w, h, true⟩⟩

end MeowMeowOS.FramebufferConsole

import Mathlib.Algebra.Ring.Int.Defs
import MeowMeowOS.Fat16Disk

/-! File names on a FAT16 volume: the 11-byte short name and the chain of
long-name entries that carries 13 characters each. -/
namespace MeowMeowOS.Fat16Names
open ByteMemory

/-- A C string, without its final zero. -/
abbrev CString := List UInt8

/-- The 32 bytes of a directory entry. -/
abbrev Slot := Mem

/-- `'A'..'Z'` to lower case and back. -/
def toLower (c : UInt8) : UInt8 := if 0x41 ≤ c ∧ c ≤ 0x5A then c + 32 else c

def toUpper (c : UInt8) : UInt8 := if 0x61 ≤ c ∧ c ≤ 0x7A then c - 32 else c

/-- `fat16_strcasecmp(s1, s2) == 0` -/
def fat16Strcasecmp (s1 s2 : CString) : Bool := s1.map toLower == s2.map toLower

/-- `n` bytes, the string in front and spaces behind it. -/
def padded (n : Nat) (s : CString) : List UInt8 := (s ++ List.replicate n 0x20).take n

def dotName : List UInt8 := padded 11 [0x2E]

def dotDotName : List UInt8 := padded 11 [0x2E, 0x2E]

def formatFilenameToFat (input : CString) : List UInt8 :=
  if input = [0x2E] then dotName
  else if input = [0x2E, 0x2E] then dotDotName
  else
    let base := input.takeWhile (· ≠ 0x2E)
    let rest := (input.dropWhile (· ≠ 0x2E)).drop 1
    padded 8 ((base.take 8).map toUpper) ++ padded 3 ((rest.take 3).map toUpper)

def lfnChecksum (shortName : List UInt8) : UInt8 :=
  shortName.foldl (fun sum c => (if sum &&& 1 ≠ 0 then (0x80 : UInt8) else 0) + (sum >>> 1) + c) 0

/-- `char` is signed. -/
def charValue (c : UInt8) : Int := if c < 0x80 then c.toNat else (c.toNat : Int) - 256

/-- The characters that a generated short name leaves out: space and `+ , ; = [ ]`. -/
def leftOut (c : UInt8) : Bool := c ∈ [0x20, 0x2B, 0x2C, 0x3B, 0x3D, 0x5B, 0x5D]

/-- What follows the last dot, unless that dot comes first or there is none. -/
def extensionOf (name : CString) : CString :=
  let ext := (name.reverse.takeWhile (· ≠ 0x2E)).reverse
  if ext.length + 1 < name.length then ext else []

def generateShortName (longName : CString) : List UInt8 :=
  let body := longName.dropWhile fun c => c = 0x2E ∨ c = 0x20
  let base := (((body.takeWhile (· ≠ 0x2E)).map toUpper).filter (!leftOut ·)).take 6
  let hash := (longName.map charValue).sum
  let digit := UInt8.ofNat (0x31 + hash.tmod 9).toNat
  padded 8 (base ++ [0x7E, digit]) ++ padded 3 (((extensionOf longName).map toUpper).take 3)

/-! ## Long-name entries -/

/-- Where the `k`-th of an entry's 13 characters lies: `name1`, `name2`, `name3`. -/
def charOffset (k : Nat) : Nat :=
  if k < 5 then 1 + 2 * k else if k < 11 then 14 + 2 * (k - 5) else 28 + 2 * (k - 11)

def lfnChar (e : Slot) (k : Nat) : Nat := readHalf e (charOffset k)

/-- `lfn_buf[idx] = c`. The buffer has 256 bytes; a character that an entry
numbers behind them is outside what the code defines and is dropped here. -/
def putChar (buf : Mem) (idx : Nat) (c : UInt8) : Mem :=
  if idx < 256 then writeByte buf idx c else buf

def extractFrom (e : Slot) (idx : Nat) : Nat → Nat → Mem → Mem
  | 0, _, buf => buf
  | n + 1, k, buf =>
    let c := lfnChar e k
    if c = 0x0000 ∨ c = 0xFFFF then putChar buf (idx + k) 0
    else extractFrom e idx n (k + 1) (putChar buf (idx + k) (UInt8.ofNat c))

def extractLfnChars (e : Slot) (lfnBuf : Mem) : Mem :=
  let order := (e 0).toNat % 32
  if order = 0 then lfnBuf else extractFrom e ((order - 1) * 13) 13 0 lfnBuf

def lfnString (lfnBuf : Mem) : CString := ((List.range 256).map lfnBuf).takeWhile (· ≠ 0)

/-- The 16-bit unit for position `i` of a name: a sign-extended `char`, one
zero behind the last, then 0xFFFF. -/
def nameUnit (name : CString) (i : Nat) : Nat :=
  match name[i]? with
  | some c => if c < 0x80 then c.toNat else 0xFF00 + c.toNat
  | none => if i = name.length then 0x0000 else 0xFFFF

def populateLfnEntry (longName : CString) (order : Nat) (checksum : UInt8) (isLast : Bool) : Slot :=
  let e : Slot := fun _ => 0xFF
  let e := writeByte e 0 (UInt8.ofNat (order ||| if isLast then 0x40 else 0x00))
  let e := writeByte e 11 0x0F
  let e := writeByte e 12 0
  let e := writeByte e 13 checksum
  let e := writeHalf e 26 0
  (List.range 13).foldl
    (fun e k => writeHalf e (charOffset k) (nameUnit longName ((order - 1) * 13 + k))) e

/-- Names that get long-name entries: longer than 12, with a lower-case
letter, or with a space before the last character. -/
def needLfn (name : CString) : Bool :=
  12 < name.length ∨ name.any (fun c => 0x61 ≤ c ∧ c ≤ 0x7A) ∨ 0x20 ∈ name.dropLast

def shortNameFor (name : CString) : List UInt8 :=
  if needLfn name then generateShortName name else formatFilenameToFat name

end MeowMeowOS.Fat16Names

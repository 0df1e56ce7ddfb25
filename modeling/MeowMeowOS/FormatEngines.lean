import MeowMeowOS.ByteMemory
import MeowMeowOS.NumberText
import MeowMeowOS.SystemLog

/-! The four formatters: `vsnprintf` of the C library, `snprintf` and `kprintf` of
the kernel, and the messages of its logger. The engine that `vsnprintf` and `kprintf`
share runs on the bytes of its buffer and of its format. A store behind the buffer, a
read behind the format's zero byte and a number that does not fit into `numbuf` have
no result. -/
namespace MeowMeowOS.FormatEngines

open ByteMemory Numerals NumberText SystemLog

/-- A word of the argument list, and the string at that address where it is
taken for one; `NULL` has none. -/
structure Arg where
  word : BitVec 32
  text : Option (List UInt8)

def percent : UInt8 := 0x25
def space : UInt8 := 0x20
def zero : UInt8 := 0x30

/-- `while (…[i] != '\0' && len < size - 1)` -/
def put (size : Nat) : List UInt8 → List UInt8 → List UInt8
  | str, [] => str
  | str, c :: text => if str.length < size - 1 then put size (str ++ [c]) text else str

/-! ## Kernel converters -/

namespace Kernel

/-- `digits` is a literal of the 16 characters. The loop of a base that the
kernel uses has at most 32 rounds. -/
def itoa (n : BitVec 32) (base : Nat) : Option (List UInt8) :=
  if n = 0 then some [zero]
  else
    let isNegative := n.toInt < 0 ∧ base = 10
    let n := if isNegative then -n else n
    (collectPositive base 32 n.toNat).map fun digits =>
      let str := digits.map fun d => (ascii "0123456789ABCDEF").getD d 0
      let str := if isNegative then str ++ [minus] else str
      str.reverse

/-- One conversion of `snprintf`. -/
def convert (size : Nat) (str : List UInt8) (c : UInt8) (args : List Arg) : Option (List UInt8 × List Arg) :=
  let arg := args.headD ⟨0, none⟩
  if c = 0x73 then some (put size str (arg.text.getD (ascii "(null)")), args.tail)
  else if c = 0x64 ∨ c = 0x69 then (itoa arg.word 10).map fun buf => (put size str buf, args.tail)
  else if c = 0x75 then (itoa arg.word 10).map fun buf => (put size str buf, args.tail)
  else if c = 0x78 ∨ c = 0x58 then (itoa arg.word 16).map fun buf => (put size str buf, args.tail)
  else if c = percent then some (str ++ [percent], args)
  else some (str, args)

/-- `while (*p != '\0' && dest_idx < size - 1)` -/
def snprintfLoop (size : Nat) : List UInt8 → List Arg → List UInt8 → Option (List UInt8)
  | [], _, str => some str
  | [c], _, str => if str.length < size - 1 then some (if c = percent then str else str ++ [c]) else some str
  | c :: d :: p, args, str =>
    if str.length < size - 1 then
      if c ≠ percent then snprintfLoop size (d :: p) args (str ++ [c])
      else do
        let (str, args) ← convert size str d args
        snprintfLoop size p args str
    else some str

/-- The string stored; nothing for a buffer of no bytes. -/
def snprintf (size : Nat) (format : List UInt8) (args : List Arg) : Option (List UInt8) :=
  if size = 0 then some [] else snprintfLoop size format args []

end Kernel

/-! ## The engine with widths -/

/-- The memory from `str` on, and `len`. -/
structure Output where
  str : Mem
  len : Nat

/-- `str[len++] = c;` -/
def Output.put (size : Nat) (c : UInt8) (out : Output) : Option Output :=
  if out.len < size then some ⟨writeByte out.str out.len c, out.len + 1⟩ else none

/-- The loops that store one character after the other, `while (… && len < size - 1)`. -/
def copy (size : Nat) : List UInt8 → Output → Option Output
  | [], out => some out
  | c :: text, out => if out.len < size - 1 then (out.put size c).bind (copy size text) else some out

/-- `for (int i = 0; i < count && len < size - 1; i++) str[len++] = c;` -/
def pad (size : Nat) (count : BitVec 32) (c : UInt8) (out : Output) : Option Output :=
  copy size (List.replicate count.toInt.toNat c) out

/-- A text in a field: padding in front of it, or spaces behind it. -/
def padded (size : Nat) (leftAlign : Bool) (width : BitVec 32) (padChar : UInt8) (text : List UInt8) (out : Output) :
    Option Output := do
  let slen := BitVec.ofNat 32 text.length
  let wider := slen.toInt < width.toInt
  let out ← (if leftAlign = false ∧ wider then pad size (width - slen) padChar out else some out)
  let out ← copy size text out
  if leftAlign = true ∧ wider then pad size (width - slen) space out else some out

/-- `while (*p == '0' || *p == '-')`: `pad_zero`, `left_align` and `p`. Of the format there is
what `p` points at, up to and with its zero byte. -/
def flags : Bool → Bool → List UInt8 → Option (Bool × Bool × List UInt8)
  | _, _, [] => none
  | padZero, leftAlign, c :: p =>
    if c = zero ∨ c = minus then flags (padZero || c == zero) (leftAlign || c == minus) p
    else some (padZero, leftAlign, c :: p)

/-- `while (*p >= '0' && *p <= '9')`, in an `int` that wraps. -/
def widthOf : BitVec 32 → List UInt8 → Option (BitVec 32 × List UInt8)
  | _, [] => none
  | width, c :: p =>
    if zero ≤ c ∧ c ≤ 0x39 then widthOf (width * 10 + BitVec.ofNat 32 (c.toNat - 0x30)) p
    else some (width, c :: p)

section
variable (itoa : BitVec 32 → Nat → Option (List UInt8)) (size : Nat)

/-- `itoa(val, numbuf, base)` with 32 bytes at `numbuf`. -/
def toNumbuf (val : BitVec 32) (base : Nat) : Option (List UInt8) :=
  (itoa val base).bind fun text => if text.length < 32 then some text else none

/-- The `switch` of `vsnprintf` and of `kprintf`, over the converter of each. Arguments that
are missing are read as 0. -/
def convert (padZero leftAlign : Bool) (width : BitVec 32) (c : UInt8) (args : List Arg) (out : Output) :
    Option (Output × List Arg) := do
  let arg := args.headD ⟨0, none⟩
  let padChar := if padZero then zero else space
  if c = 0x63 then
    let out ← padded size leftAlign width space [arg.word.toNat.toUInt8] out
    some (out, args.tail)
  else if c = 0x73 then
    let out ← padded size leftAlign width space (arg.text.getD (ascii "(null)")) out
    some (out, args.tail)
  else if c = 0x64 ∨ c = 0x69 then
    let numbuf ← toNumbuf itoa arg.word 10
    if arg.word.toInt < 0 ∧ padZero = true then
      let out ← copy size [minus] out
      let out ← pad size (width - BitVec.ofNat 32 numbuf.length) zero out
      let out ← copy size (numbuf.drop 1) out
      some (out, args.tail)
    else
      let out ← padded size leftAlign width padChar numbuf out
      some (out, args.tail)
  else if c = 0x75 then
    let numbuf ← toNumbuf itoa arg.word 10
    let out ← padded size leftAlign width padChar numbuf out
    some (out, args.tail)
  else if c = 0x78 ∨ c = 0x58 ∨ c = 0x70 then
    let numbuf ← toNumbuf itoa arg.word 16
    let numbuf :=
      if c = 0x58 then numbuf.map fun d => if 0x61 ≤ d ∧ d ≤ 0x66 then d - 0x61 + 0x41 else d else numbuf
    let out ← (if c = 0x70 ∧
      out.len + 2 < size - 1 then (out.put size zero).bind (Output.put size 0x78) else some out)
    let out ← padded size leftAlign width padChar numbuf out
    some (out, args.tail)
  else if c = percent then
    let out ← out.put size percent
    some (out, args)
  else
    let out ← out.put size percent
    let out ← copy size [c] out
    some (out, args)

/-- `for (p = fmt; *p != '\0' && len < size - 1; p++)` with at most so many rounds. -/
def formatLoop : Nat → List UInt8 → List Arg → Output → Option Output
  | 0, _, _, _ => none
  | _ + 1, [], _, _ => none
  | fuel + 1, c :: p, args, out =>
    if c = 0 ∨ ¬ out.len < size - 1 then some out
    else if c ≠ percent then (out.put size c).bind (formatLoop fuel p args)
    else do
      let (padZero, leftAlign, p) ← flags false false p
      let (width, p) ← widthOf 0 p
      match p with
      | [] => none
      | c :: p =>
        if c = 0 then some out
        else
          let (out, args) ← convert itoa size (padZero && !leftAlign) leftAlign width c args out
          formatLoop fuel p args out

/-- The engine in a buffer of at least one byte: the memory with the zero byte behind the
text, and `len`. -/
def format (fmt : List UInt8) (args : List Arg) (str : Mem) : Option Output := do
  let out ← formatLoop itoa size (fmt.length + 1) (fmt ++ [0]) args ⟨str, 0⟩
  let ended ← out.put size 0
  some ⟨ended.str, out.len⟩

end

/-- The value returned and the memory at `str`, which is not `NULL`. -/
def vsnprintf (size : Nat) (fmt : List UInt8) (args : List Arg) (str : Mem) : Option (BitVec 32 × Mem) :=
  if size = 0 then some (0, str)
  else (format (fun val base => itoa val base) size fmt args str).map fun out => (BitVec.ofNat 32 out.len, out.str)

/-- What becomes of `buffer`, whose string goes to `kout_str`. -/
def kprintf (fmt : List UInt8) (args : List Arg) (buffer : Mem) : Option Mem :=
  (format Kernel.itoa 2048 fmt args buffer).map Output.str

/-! ## The logger -/

inductive LogLevel where
  | none | error | warning | info | debug | trace
  deriving DecidableEq

/-- `log_level_t` as a number. -/
def LogLevel.toNat : LogLevel → Nat
  | .none => 0
  | .error => 1
  | .warning => 2
  | .info => 3
  | .debug => 4
  | .trace => 5

/-- `level_str` -/
def LogLevel.str : LogLevel → List UInt8
  | .none => ascii "NONE"
  | .error => ascii "ERROR"
  | .warning => ascii "WARN"
  | .info => ascii "INFO"
  | .debug => ascii "DEBUG"
  | .trace => ascii "TRACE"

/-- The color that a level sets; `LOG_LEVEL_NONE` leaves the one before. -/
def LogLevel.look (color : List UInt8) : LogLevel → List UInt8
  | .none => color
  | .error => ascii "\x1b[1;91m"
  | .warning => ascii "\x1b[33m"
  | .info => ascii "\x1b[32m"
  | .debug => ascii "\x1b[36m"
  | .trace => ascii "\x1b[35m"

def resetLook : List UInt8 := ascii "\x1b[0m"

/-- `min_level` and `color` of `g_logger`. -/
structure LoggerConfig where
  minLevel : LogLevel
  color : List UInt8

structure RtcTime where
  second : UInt8
  minute : UInt8
  hour : UInt8
  day : UInt8
  month : UInt8
  year : UInt16

/-- `for (i = 28; i >= 0; i -= 4)` -/
def hexLoop (num : BitVec 32) : List Nat → Bool → List UInt8
  | [], _ => []
  | i :: shifts, started =>
    let nibble := (num >>> i).toNat % 16
    if nibble ≠ 0 ∨ started ∨ i = 0 then
      (ascii "0123456789ABCDEF").getD nibble 0 :: hexLoop num shifts true
    else hexLoop num shifts started

def writeHex (num : BitVec 32) : List UInt8 :=
  ascii "0x" ++ if num = 0 then [zero] else hexLoop num [28, 24, 20, 16, 12, 8, 4, 0] false

/-- The digits collected in `buffer` and written from the last on. -/
def writeUint (num : BitVec 32) : Option (List UInt8) :=
  if num = 0 then some [zero]
  else (collectPositive 10 12 num.toNat).map fun buffer => (buffer.map fun d => zero + UInt8.ofNat d).reverse

/-- One conversion of a message: the characters for `log_putchar`. -/
def logConvert (c : UInt8) (args : List Arg) : Option (List UInt8 × List Arg) :=
  let arg := args.headD ⟨0, none⟩
  if c = 0x73 then some (arg.text.getD (ascii "(null)"), args.tail)
  else if c = 0x64 then (Kernel.itoa arg.word 10).map fun buffer => (buffer, args.tail)
  else if c = 0x75 then (writeUint arg.word).map fun digits => (digits, args.tail)
  else if c = 0x78 ∨ c = 0x58 then some (writeHex arg.word, args.tail)
  else if c = 0x63 then some ([arg.word.toNat.toUInt8], args.tail)
  else if c = percent then some ([percent], args)
  else some ([percent, c], args)

/-- `for (p = fmt; *p != '\0'; p++)` -/
def logFormat : List UInt8 → List Arg → Option (List UInt8)
  | [], _ => some []
  | [c], _ => some [c]
  | c :: d :: p, args =>
    if c = percent then do
      let (text, args) ← logConvert d args
      let rest ← logFormat p args
      some (text ++ rest)
    else do
      let rest ← logFormat (d :: p) args
      some (c :: rest)

/-- A field of the date, with a leading 0 when it is below 10. -/
def twoDigits (n : UInt8) : Option (List UInt8) :=
  (Kernel.itoa (BitVec.ofNat 32 n.toNat) 10).map fun buf => (if n < 10 then [zero] else []) ++ buf

/-- What a message begins with. -/
def logHeader (color : List UInt8) (level : LogLevel) (module : Option (List UInt8)) (ticks : BitVec 32)
    (rtc : RtcTime) : Option (List UInt8) := do
  let year ← Kernel.itoa (BitVec.ofNat 32 rtc.year.toNat) 10
  let month ← twoDigits rtc.month
  let day ← twoDigits rtc.day
  let hour ← twoDigits rtc.hour
  let minute ← twoDigits rtc.minute
  let second ← twoDigits rtc.second
  let tick ← Kernel.itoa ticks 10
  some (color ++ ascii "[" ++ level.str ++ ascii "] " ++ resetLook ++
    (match module with
      | some module => module ++ ascii ": "
      | none => []) ++
    ascii "[" ++ year ++ ascii "-" ++ month ++ ascii "-" ++ day ++ ascii " " ++
    hour ++ ascii ":" ++ minute ++ ascii ":" ++ second ++ ascii "] " ++
    ascii "Tick: [" ++ tick ++ ascii "] ")

/-- The logger and its configuration after a message, for the ticks and the time
that it reads. -/
def logMessage (log : Logger κ) (config : LoggerConfig) (level : LogLevel) (module : Option (List UInt8))
    (fmt : List UInt8) (args : List Arg) (ticks : BitVec 32) (rtc : RtcTime) : Option (Logger κ × LoggerConfig) :=
  if config.minLevel.toNat < level.toNat then some (log, config)
  else do
    let color := level.look config.color
    let header ← logHeader color level module ticks rtc
    let text ← logFormat fmt args
    let log := writeString (writeString log header) text
    some (logPutchar log 0x0A, { config with color := color })

end MeowMeowOS.FormatEngines

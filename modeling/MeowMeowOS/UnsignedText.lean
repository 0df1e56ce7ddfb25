import MeowMeowOS.FormatBounds

/-! What the four formatters print for `%u`. Three of them go through a converter
of signed numbers. -/
namespace MeowMeowOS.UnsignedText

open ByteMemory Numerals NumberText SystemLog FormatEngines FormatBounds

/-- The decimal representation of a number. -/
def decimal (n : Nat) : List UInt8 := (numeral 10 n).map digitChar

/-- The format `%u`. -/
def percentU : List UInt8 := ascii "%u"

/-- `vsnprintf` stores the text and returns its length. -/
def Written (text : List UInt8) (result : Option (BitVec 32 × Mem)) : Prop :=
  ∃ after, result = some (BitVec.ofNat 32 text.length, after) ∧ Stores text after

/-- `kprintf` leaves the text in its buffer. -/
def Printed (text : List UInt8) (result : Option Mem) : Prop := ∃ after, result = some after ∧ Stores text after

/-- A message of the logger with that format is its header, the text and the end
of the line. -/
def LogsText (fmt : List UInt8) (args : List Arg) (text : List UInt8) : Prop :=
  ∀ (κ : Type) (log : Logger κ) (config : LoggerConfig) (level : LogLevel) (module : Option (List UInt8))
    (ticks : BitVec 32) (rtc : RtcTime), level.toNat ≤ config.minLevel.toNat →
    ∃ header, logHeader (level.look config.color) level module ticks rtc = some header ∧
      logMessage log config level module fmt args ticks rtc =
        some (writeString log (header ++ text ++ [0x0A]), { config with color := level.look config.color })

section
variable {v n : BitVec 32} {size : Nat} {text : List UInt8}

/-! ## The converters -/

/-- What a converter of signed numbers prints. -/
def signedText (v : BitVec 32) : List UInt8 :=
  if v.toInt < 0 then minus :: decimal (-v).toNat else decimal v.toNat

theorem itoa_decimal (v : BitVec 32) : itoa v 10 = some (signedText v) := by
  have shape := itoa_text 10 (by decide) (by decide) v
  rw [Nat.cast_ofNat] at shape
  rw [shape, signedText]
  by_cases signed : v.toInt < 0
  · simp [signed, magnitude, decimal]
  · simp [signed, magnitude, decimal]

theorem decimal_digits (n : Nat) (f : Nat → UInt8) (same : ∀ d < 10, f d = digitChar d) :
    (numeral 10 n).map f = decimal n :=
  List.map_congr_left fun d member => same d (numeral_lt (by decide) d member)

theorem kernelItoa_decimal (v : BitVec 32) : Kernel.itoa v 10 = some (signedText v) := by
  have char : ∀ d < 10, (ascii "0123456789ABCDEF").getD d 0 = digitChar d := by decide
  by_cases none : v = 0
  · subst none
    decide
  · have collected : ∀ n : BitVec 32, n ≠ 0 →
      collectPositive 10 32 n.toNat = some (numeral 10 n.toNat).reverse := by
      intro n some
      refine collectPositive_numeral (by decide) 32 (n.isLt.trans (by decide)) (Nat.pos_of_ne_zero fun zero => some ?_)
      exact BitVec.eq_of_toNat_eq zero
    rw [Kernel.itoa, if_neg none, signedText]
    by_cases signed : v.toInt < 0
    · have some : -v ≠ 0 := by simpa using none
      simp only [signed, and_self, if_true, collected _ some, Option.map_some]
      rw [List.map_reverse, decimal_digits _ _ char]
      simp
    · simp only [signed, false_and, if_false, collected _ none, Option.map_some]
      rw [List.map_reverse, decimal_digits _ _ char, List.reverse_reverse]

theorem writeUint_decimal (v : BitVec 32) : writeUint v = some (decimal v.toNat) := by
  have char : ∀ d < 10, zero + UInt8.ofNat d = digitChar d := by decide
  by_cases none : v = 0
  · subst none
    decide
  · have some : 0 < v.toNat := Nat.pos_of_ne_zero fun zero => none (BitVec.eq_of_toNat_eq zero)
    rw [writeUint, if_neg none, collectPositive_numeral (by decide) 12 (v.isLt.trans (by decide)) some, Option.map_some,
      List.map_reverse, decimal_digits _ _ char, List.reverse_reverse]

theorem decimal_length (v : BitVec 32) : (decimal v.toNat).length ≤ 10 := by
  rw [decimal, List.length_map]
  exact numeral_length (by decide) (by decide) (v.isLt.trans (by decide))

theorem signedText_length (v : BitVec 32) : (signedText v).length < 32 := by
  have magnitude := decimal_length (-v)
  have value := decimal_length v
  unfold signedText
  split
  · rw [List.length_cons]
    omega
  · omega

/-! ## The engines -/

/-- What fits into a buffer behind its text. -/
theorem put_eq (size : Nat) (str text : List UInt8) (inside : str.length ≤ size - 1) :
    put size str text = str ++ text.take (size - 1 - str.length) := by
  induction text generalizing str with
  | nil => simp [put]
  | cons c text ih =>
    rw [put]
    by_cases room : str.length < size - 1
    · obtain ⟨n, left⟩ : ∃ n, size - 1 - str.length = n + 1 := ⟨size - 1 - str.length - 1, by omega⟩
      rw [if_pos room, ih _ (by simpa using room), left, List.take_succ_cons, List.length_append,
        List.length_singleton, Nat.sub_add_eq, left]
      simp
    · rw [if_neg room, show size - 1 - str.length = 0 by omega]
      simp

theorem put_whole (size : Nat) (text : List UInt8) : put size [] text = text.take (size - 1) := by
  rw [put_eq size [] text (Nat.zero_le _)]
  simp

theorem percentU_eq : percentU = [percent, 0x75] := by decide

theorem convert_unsigned {itoa : BitVec 32 → Nat → Option (List UInt8)} {arg : Arg} (short : text.length < 32)
    (converted : itoa arg.word 10 = some text) (out : Output) :
    FormatEngines.convert itoa size false false 0 0x75 [arg] out = (copy size text out).map fun out => (out, []) := by
  have numbuf : toNumbuf itoa arg.word 10 = some text := by
    rw [toNumbuf, converted]
    exact if_pos short
  have narrow : ¬ (BitVec.ofNat 32 text.length).toInt < (0 : BitVec 32).toInt := by
    rw [toInt_len (by omega)]
    exact Int.not_lt.mpr (Int.natCast_nonneg _)
  have field : padded size false 0 space text out = copy size text out := by
    unfold padded
    dsimp only [Option.bind_eq_bind]
    rw [if_neg fun both => narrow both.2, Option.bind_some]
    cases copy size text out with
    | none => rfl
    | some out =>
      rw [Option.bind_some]
      exact if_neg fun both => Bool.false_ne_true both.1
  unfold FormatEngines.convert
  simp only [List.headD_cons, numbuf, Bool.false_eq_true, ↓reduceIte, Option.bind_eq_bind, Option.bind_some, field]
  cases copy size text out with
  | none => rfl
  | some out => rfl

/-- The engine with widths stores what its converter gives. -/
theorem format_unsigned {itoa : BitVec 32 → Nat → Option (List UInt8)} {arg : Arg} (fits : 2 ≤ size)
    (short : text.length < 32) (converted : itoa arg.word 10 = some text) (str : Mem) :
    ∃ after, format itoa size percentU [arg] str = some ⟨after, (text.take (size - 1)).length⟩ ∧
      Stores (text.take (size - 1)) after := by
  have noFlags : flags false false [0x75, 0] = some (false, false, [0x75, 0]) := by decide
  have noWidth : widthOf 0 [0x75, 0] = some (0, [0x75, 0]) := by decide
  have wide : (⟨str, 0⟩ : Output).len < size - 1 := Nat.lt_sub_of_add_lt fits
  have room : ¬ (percent = 0 ∨ ¬ (⟨str, 0⟩ : Output).len < size - 1) :=
    not_or.mpr ⟨by decide, not_not.mpr wide⟩
  refine format_stores (Nat.le_of_succ_le fits) ?_
  rw [percentU_eq, List.length_cons, List.length_singleton, List.cons_append, List.cons_append, List.nil_append,
    formatLoop, if_neg room, if_neg (not_not.mpr rfl), noFlags]
  dsimp only [Option.bind_eq_bind, Option.bind_some]
  rw [noWidth]
  dsimp only [Option.bind_some]
  rw [if_neg (by decide)]
  simp only [Bool.not_false, Bool.and_true]
  rw [convert_unsigned short converted]
  cases copy size text ⟨str, 0⟩ with
  | none => rfl
  | some out =>
    rw [Option.map_some, Option.bind_some]
    exact if_pos (Or.inl rfl)

theorem vsnprintf_unsigned (fits : 2 ≤ size) (arg : Arg) (str : Mem) :
    Written ((signedText arg.word).take (size - 1)) (vsnprintf size percentU [arg] str) := by
  obtain ⟨after, ran, stored⟩ :=
    @format_unsigned size _ (fun val base => itoa val base) arg fits (signedText_length arg.word)
      (itoa_decimal arg.word) str
  refine ⟨after, ?_, stored⟩
  rw [vsnprintf, if_neg (by omega), ran]
  rfl

theorem kprintf_unsigned (arg : Arg) (buffer : Mem) :
    Printed ((signedText arg.word).take 2047) (kprintf percentU [arg] buffer) := by
  obtain ⟨after, ran, stored⟩ := @format_unsigned 2048 _ Kernel.itoa arg (by decide) (signedText_length arg.word)
    (kernelItoa_decimal arg.word) buffer
  refine ⟨after, ?_, stored⟩
  rw [kprintf, ran]
  rfl

theorem snprintf_unsigned (fits : 2 ≤ size) (arg : Arg) :
    Kernel.snprintf size percentU [arg] = some ((signedText arg.word).take (size - 1)) := by
  have room : 0 < size - 1 := by omega
  have some : size ≠ 0 := by omega
  rw [percentU_eq, Kernel.snprintf, if_neg some, Kernel.snprintfLoop, if_pos (by simpa using room)]
  simp [Kernel.convert, kernelItoa_decimal, Kernel.snprintfLoop, put_whole]

theorem logFormat_unsigned (arg : Arg) : logFormat percentU [arg] = some (decimal arg.word.toNat) := by
  rw [percentU_eq, logFormat]
  simp [logConvert, writeUint_decimal, logFormat]

/-! ## The logger's message -/

theorem twoDigits_some (n : UInt8) : ∃ text, twoDigits n = some text := by
  rw [twoDigits, kernelItoa_decimal]
  exact ⟨_, rfl⟩

theorem logHeader_some (color : List UInt8) (level : LogLevel) (module : Option (List UInt8)) (ticks : BitVec 32)
    (rtc : RtcTime) : ∃ header, logHeader color level module ticks rtc = some header := by
  obtain ⟨month, monthEq⟩ := twoDigits_some rtc.month
  obtain ⟨day, dayEq⟩ := twoDigits_some rtc.day
  obtain ⟨hour, hourEq⟩ := twoDigits_some rtc.hour
  obtain ⟨minute, minuteEq⟩ := twoDigits_some rtc.minute
  obtain ⟨second, secondEq⟩ := twoDigits_some rtc.second
  unfold logHeader
  rw [kernelItoa_decimal, kernelItoa_decimal, monthEq, dayEq, hourEq, minuteEq, secondEq]
  exact ⟨_, rfl⟩

/-- A message logs what its format gives. -/
theorem logsText_of_format {fmt : List UInt8} {args : List Arg} (formatted : logFormat fmt args = some text) :
    LogsText fmt args text := by
  intro κ log config level module ticks rtc enabled
  obtain ⟨header, headerEq⟩ := logHeader_some (level.look config.color) level module ticks rtc
  refine ⟨header, headerEq, ?_⟩
  rw [logMessage, if_neg (by omega)]
  dsimp only
  rw [headerEq, formatted]
  simp [writeString]

/-! ## All four -/

/-- A text that begins with a sign is no decimal representation. -/
theorem decimal_unsigned (n : Nat) : (decimal n).head? ≠ some minus := by
  intro signed
  obtain ⟨d, member, same⟩ := List.mem_map.mp (List.mem_of_mem_head? signed)
  have small := numeral_lt (by decide) d member
  exact (digitChar_apart (d := d) (by omega)).2.2.1 same

/-- A buffer that begins with a sign stores no decimal representation. -/
theorem signed_not_decimal {after : Mem} {k : Nat} (negative : v.toInt < 0) (room : 0 < k)
    (stored : Stores ((signedText v).take k) after) (n : Nat) : ¬ Stores (decimal n) after := by
  intro unsigned
  obtain ⟨k, rfl⟩ := Nat.exists_eq_succ_of_ne_zero room.ne'
  rw [signedText, if_pos negative, List.take_succ_cons] at stored
  have sign : after 0 = minus := stored.1 0 minus rfl
  cases text : decimal n with
  | nil =>
    rw [text] at unsigned
    have ended : after 0 = 0 := unsigned.2
    rw [sign] at ended
    cases ended
  | cons c rest =>
    rw [text] at unsigned
    have first : after 0 = c := unsigned.1 0 c rfl
    refine decimal_unsigned n ?_
    rw [text, List.head?_cons, ← first, sign]

/-- The four formatters print the same text for `%u`, and that the decimal
representation, exactly for the numbers an `int` holds too. -/
theorem formatters_agree_iff (arg : Arg) (size ksize : Nat) (str buffer : Mem) (fits : 11 ≤ size)
    (kernelFits : 11 ≤ ksize) :
    (Written (decimal arg.word.toNat) (vsnprintf size percentU [arg] str) ∧
      Kernel.snprintf ksize percentU [arg] = some (decimal arg.word.toNat) ∧
      Printed (decimal arg.word.toNat) (kprintf percentU [arg] buffer) ∧
      LogsText percentU [arg] (decimal arg.word.toNat)) ↔ arg.word.toNat < 2 ^ 31 := by
  have logged := logsText_of_format (logFormat_unsigned arg)
  have length := decimal_length arg.word
  have written := @vsnprintf_unsigned size (by omega) arg str
  have printed := kprintf_unsigned arg buffer
  rw [snprintf_unsigned (by omega)]
  by_cases small : arg.word.toNat < 2 ^ 31
  · have positive : ¬ arg.word.toInt < 0 := by
      rw [BitVec.toInt_eq_toNat_cond]
      omega
    rw [signedText, if_neg positive, List.take_of_length_le (by omega)] at written printed
    rw [signedText, if_neg positive, List.take_of_length_le (by omega)]
    exact ⟨fun _ => small, fun _ => ⟨written, rfl, printed, logged⟩⟩
  · have negative : arg.word.toInt < 0 := by
      have word := arg.word.isLt
      rw [BitVec.toInt_eq_toNat_cond]
      omega
    refine ⟨fun agree => ?_, fun held => absurd held small⟩
    obtain ⟨after, ran, stored⟩ := written
    obtain ⟨after', ran', stored'⟩ := agree.1
    rw [ran] at ran'
    cases (Prod.mk.inj (Option.some.inj ran')).2
    exact absurd stored' (signed_not_decimal negative (by omega) stored _)

def largestInt : Arg := ⟨0x7FFFFFFF, none⟩

theorem formatters_agree_iff_largestInt :
    Written (decimal 0x7FFFFFFF) (vsnprintf 11 percentU [largestInt] fun _ => 0xAA) ∧
      Kernel.snprintf 11 percentU [largestInt] = some (decimal 0x7FFFFFFF) ∧
      Printed (decimal 0x7FFFFFFF) (kprintf percentU [largestInt] fun _ => 0) ∧
      LogsText percentU [largestInt] (decimal 0x7FFFFFFF) :=
  (formatters_agree_iff largestInt 11 11 (fun _ => 0xAA) (fun _ => 0) (by decide) (by decide)).mpr (by decide)

/-- `vsnprintf` prints 0xFFFFFFFF as -1. -/
theorem formatters_disagree : ¬ ∀ (arg : Arg) (size ksize : Nat) (str buffer : Mem), 32 ≤ size → 32 ≤ ksize →
    Written (decimal arg.word.toNat) (vsnprintf size percentU [arg] str) ∧
      Kernel.snprintf ksize percentU [arg] = some (decimal arg.word.toNat) ∧
      Printed (decimal arg.word.toNat) (kprintf percentU [arg] buffer) ∧
      LogsText percentU [arg] (decimal arg.word.toNat) := by
  intro all
  obtain ⟨after, ran, stored⟩ :=
    (all ⟨0xFFFFFFFF, none⟩ 32 32 (fun _ => 0) (fun _ => 0) (by decide) (by decide)).1
  obtain ⟨after', ran', stored'⟩ := @vsnprintf_unsigned 32 (by decide) ⟨0xFFFFFFFF, none⟩ fun _ => 0
  rw [ran] at ran'
  cases (Prod.mk.inj (Option.some.inj ran')).2
  exact signed_not_decimal (by decide) (by decide) stored' _ stored

end

end MeowMeowOS.UnsignedText

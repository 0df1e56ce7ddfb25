import MeowMeowOS.FormatEngines

/-! What the engine of `vsnprintf` stores. It stays in its buffer and in its format, and a
text that it copies stands in the buffer as far as there is room. -/
namespace MeowMeowOS.FormatBounds
open ByteMemory Numerals NumberText FormatEngines

/-- `len` has not passed the place of the zero byte, and behind the buffer nothing has changed. -/
def Within (size : Nat) (str : Mem) (out : Output) : Prop :=
  out.len ≤ size - 1 ∧ ∀ i, size ≤ i → out.str i = str i

/-- A converter whose numbers fit into `numbuf`. -/
def Converts (itoa : BitVec 32 → Nat → Option (List UInt8)) : Prop :=
  ∀ val, (∃ text, toNumbuf itoa val 10 = some text) ∧ ∃ text, toNumbuf itoa val 16 = some text

section
variable {itoa : BitVec 32 → Nat → Option (List UInt8)} {size : Nat} {str : Mem} {out : Output}

/-! ## Stores -/

/-- Before the last place there is room for a character. -/
theorem put_within (within : Within size str out) (room : out.len < size - 1) (c : UInt8) :
    ∃ out', out.put size c = some out' ∧ Within size str out' ∧ out'.len = out.len + 1 := by
  refine ⟨_, if_pos (by omega), ⟨?_, fun i behind => ?_⟩, rfl⟩
  · dsimp only
    omega
  · exact (if_neg (by omega)).trans (within.2 i behind)

theorem copy_within (within : Within size str out) (text : List UInt8) :
    ∃ out', copy size text out = some out' ∧ Within size str out' := by
  induction text generalizing out with
  | nil => exact ⟨out, rfl, within⟩
  | cons c text ih =>
    rw [copy]
    split
    · rename_i room
      obtain ⟨next, stored, inside, -⟩ := put_within within room c
      rw [stored]
      exact ih inside
    · exact ⟨out, rfl, within⟩

theorem pad_within (within : Within size str out) (count : BitVec 32) (c : UInt8) :
    ∃ out', pad size count c out = some out' ∧ Within size str out' := copy_within within _

theorem padded_within (within : Within size str out) (leftAlign : Bool) (width : BitVec 32) (padChar : UInt8)
    (text : List UInt8) : ∃ out', padded size leftAlign width padChar text out = some out' ∧
    Within size str out' := by
  have optional : ∀ {out : Output} (p : Prop) [Decidable p] (c : UInt8), Within size str out → ∃ out',
      (if p then pad size (width - BitVec.ofNat 32 text.length) c out else some out) = some out' ∧
      Within size str out' := by
    intro out p _ c within
    split
    · exact pad_within within _ c
    · exact ⟨out, rfl, within⟩
  obtain ⟨first, front, within1⟩ :=
    optional (leftAlign = false ∧ (BitVec.ofNat 32 text.length).toInt < width.toInt)
    padChar within
  obtain ⟨second, middle, within2⟩ := copy_within within1 text
  obtain ⟨third, back, within3⟩ := optional (leftAlign = true ∧ (BitVec.ofNat 32 text.length).toInt < width.toInt)
    space within2
  refine ⟨third, ?_, within3⟩
  unfold padded
  dsimp only
  rw [front, Option.bind_eq_bind, Option.bind_some, middle, Option.bind_some, back]

/-! ## One conversion -/

theorem convert_within (converts : Converts itoa) (within : Within size str out) (room : out.len < size - 1)
    (padZero leftAlign : Bool) (width : BitVec 32) (c : UInt8) (args : List Arg) :
    ∃ out' args', convert itoa size padZero leftAlign width c args out = some (out', args') ∧
    Within size str out' := by
  have field : ∀ {out : Output} (padChar : UInt8) (text : List UInt8), Within size str out → ∃ out' args',
      ((padded size leftAlign width padChar text out).bind fun out => some (out, args.tail)) = some (out', args') ∧
        Within size str out' := by
    intro out padChar text within
    obtain ⟨out', ran, inside⟩ := padded_within within leftAlign width padChar text
    exact ⟨out', args.tail, by rw [ran]; rfl, inside⟩
  obtain ⟨⟨decimal, ten⟩, hex, sixteen⟩ := converts (args.headD ⟨0, none⟩).word
  obtain ⟨next, stored, inside, -⟩ := put_within within room percent
  unfold convert
  dsimp only [Option.bind_eq_bind]
  rw [ten, sixteen]
  dsimp only [Option.bind_some]
  by_cases character : c = 0x63
  · rw [if_pos character]
    exact field _ _ within
  by_cases string : c = 0x73
  · rw [if_neg character, if_pos string]
    exact field _ _ within
  rw [if_neg character, if_neg string]
  by_cases signed : c = 0x64 ∨ c = 0x69
  · rw [if_pos signed]
    by_cases negative : (args.headD ⟨0, none⟩).word.toInt < 0 ∧ padZero = true
    · obtain ⟨signed, sign, within1⟩ := copy_within within [minus]
      obtain ⟨zeros, front, within2⟩ := pad_within within1 (width - BitVec.ofNat 32 decimal.length) zero
      obtain ⟨digits, back, within3⟩ := copy_within within2 (decimal.drop 1)
      refine ⟨digits, args.tail, ?_, within3⟩
      rw [if_pos negative, sign, Option.bind_some, front, Option.bind_some, back, Option.bind_some]
    · rw [if_neg negative]
      exact field _ _ within
  rw [if_neg signed]
  by_cases unsigned : c = 0x75
  · rw [if_pos unsigned]
    exact field _ _ within
  rw [if_neg unsigned]
  by_cases hexadecimal : c = 0x78 ∨ c = 0x58 ∨ c = 0x70
  · -- the two characters in front of a pointer
    have marked : ∃ out', (if c = 0x70 ∧ out.len + 2 < size - 1 then (out.put size zero).bind (Output.put size 0x78)
        else some out) = some out' ∧ Within size str out' := by
      split
      · rename_i wide
        obtain ⟨first, zeroStored, within1, length⟩ := put_within within room zero
        obtain ⟨second, stored2, within2, -⟩ := put_within within1 (by omega) 0x78
        exact ⟨second, by rw [zeroStored, Option.bind_some, stored2], within2⟩
      · exact ⟨out, rfl, within⟩
    obtain ⟨prefixed, ran, within1⟩ := marked
    rw [if_pos hexadecimal, ran, Option.bind_some]
    exact field _ _ within1
  rw [if_neg hexadecimal, stored]
  by_cases sign : c = percent
  · rw [if_pos sign]
    exact ⟨next, args, rfl, inside⟩
  · obtain ⟨last, ran, within1⟩ := copy_within inside [c]
    rw [if_neg sign, Option.bind_some, ran]
    exact ⟨last, args, rfl, within1⟩

/-! ## The format -/

/-- What is left of the format, which ends with its zero byte. -/
def Ends (p : List UInt8) : Prop := p.getLast? = some 0

theorem ends_tail {c : UInt8} {p : List UInt8} (ends : Ends (c :: p)) (nonzero : c ≠ 0) : Ends p := by
  cases p with
  | nil =>
    unfold Ends at ends
    simp_all
  | cons d p => rwa [Ends, List.getLast?_cons_cons] at ends

/-- The flags end before the zero byte. -/
theorem flags_within {p : List UInt8} (ends : Ends p) (padZero leftAlign : Bool) :
    ∃ z l q, flags padZero leftAlign p = some (z, l, q) ∧ Ends q ∧ q.length ≤ p.length := by
  induction p generalizing padZero leftAlign with
  | nil => cases ends
  | cons c p ih =>
    rw [flags]
    split
    · rename_i flag
      have nonzero : c ≠ 0 := by
        rintro rfl
        revert flag
        decide
      obtain ⟨z, l, q, ran, ends', short⟩ :=
        ih (ends_tail ends nonzero) (padZero || c == zero) (leftAlign || c == minus)
      exact ⟨z, l, q, ran, ends', Nat.le_succ_of_le short⟩
    · exact ⟨_, _, _, rfl, ends, Nat.le_refl _⟩

theorem widthOf_within {p : List UInt8} (ends : Ends p) (width : BitVec 32) :
    ∃ w q, widthOf width p = some (w, q) ∧ Ends q ∧ q.length ≤ p.length := by
  induction p generalizing width with
  | nil => cases ends
  | cons c p ih =>
    rw [widthOf]
    split
    · rename_i digit
      have nonzero : c ≠ 0 := by
        rintro rfl
        revert digit
        decide
      obtain ⟨w, q, ran, ends', short⟩ :=
        ih (ends_tail ends nonzero) (width * 10 + BitVec.ofNat 32 (c.toNat - 0x30))
      exact ⟨w, q, ran, ends', Nat.le_succ_of_le short⟩
    · exact ⟨_, _, rfl, ends, Nat.le_refl _⟩

/-- The loop ends within the buffer and within the format. -/
theorem formatLoop_within (converts : Converts itoa) (within : Within size str out) {p : List UInt8} (ends : Ends p)
    {fuel : Nat}
    (enough : p.length ≤ fuel) (args : List Arg) :
    ∃ out', formatLoop itoa size fuel p args out = some out' ∧ Within size str out' := by
  induction fuel generalizing p args out with
  | zero =>
    obtain rfl := List.length_eq_zero_iff.mp (Nat.le_zero.mp enough)
    cases ends
  | succ fuel ih =>
    cases p with
    | nil => cases ends
    | cons c p =>
      rw [List.length_cons] at enough
      rw [formatLoop]
      split
      · exact ⟨out, rfl, within⟩
      · rename_i goesOn
        obtain ⟨nonzero, room⟩ := not_or.mp goesOn
        have rest := ends_tail ends nonzero
        split
        · obtain ⟨next, stored, inside, -⟩ := put_within within (not_not.mp room) c
          rw [stored]
          exact ih inside rest (by omega) args
        · obtain ⟨padZero, leftAlign, q, flagged, endsQ, shortQ⟩ := flags_within rest false false
          obtain ⟨width, r, counted, endsR, shortR⟩ := widthOf_within endsQ 0
          rw [flagged]
          dsimp only [Option.bind_eq_bind, Option.bind_some]
          rw [counted]
          dsimp only [Option.bind_some]
          cases r with
          | nil => cases endsR
          | cons d r =>
            rw [List.length_cons] at shortR
            dsimp only
            split
            · exact ⟨out, rfl, within⟩
            · rename_i letter
              obtain ⟨next, left, ran, inside⟩ :=
                convert_within converts within (not_not.mp room) (padZero && !leftAlign) leftAlign width d args
              rw [ran]
              exact ih inside (ends_tail endsR letter) (by omega) left

/-- The engine ends with its zero byte in the buffer. -/
theorem format_within (converts : Converts itoa) (positive : 1 ≤ size) (fmt : List UInt8) (args : List Arg)
    (str : Mem) :
    ∃ out, format itoa size fmt args str = some out ∧ out.len < size ∧ out.str out.len = 0 ∧
      ∀ i, size ≤ i → out.str i = str i := by
  have start : Within size str ⟨str, 0⟩ := ⟨Nat.zero_le _, fun _ _ => rfl⟩
  have ends : Ends (fmt ++ [0]) := List.getLast?_append_of_ne_nil _ (List.cons_ne_nil 0 [])
  have enough : (fmt ++ [0]).length ≤ fmt.length + 1 := by simp
  obtain ⟨out, ran, below, kept⟩ := formatLoop_within converts start ends enough args
  have room : out.len < size := by omega
  refine ⟨⟨writeByte out.str out.len 0, out.len⟩, ?_, room, if_pos rfl, fun i behind => ?_⟩
  · unfold format
    rw [ran]
    dsimp only [Option.bind_eq_bind, Option.bind_some]
    rw [Output.put, if_pos room]
    rfl
  · exact (if_neg (Nat.ne_of_gt (Nat.lt_of_lt_of_le room behind))).trans (kept i behind)

/-- The number that `len` is returned as. -/
theorem toInt_len {len : Nat} (small : len < 2 ^ 31) : (BitVec.ofNat 32 len).toInt = len := by
  have value : (BitVec.ofNat 32 len).toNat = len := by
    rw [BitVec.toNat_ofNat, Nat.mod_eq_of_lt (by omega)]
  rw [BitVec.toInt_eq_toNat_of_lt (by omega), value]

/-- A number fits into `numbuf`. -/
theorem toNumbuf_some (val : BitVec 32) (base : Nat) (low : 2 ≤ base) (high : base ≤ 36)
    (room : 2 ^ 32 ≤ base ^ 30) :
    ∃ text, toNumbuf (fun val base => NumberText.itoa val base) val base = some text := by
  have short : (numeral base (magnitude val base).toNat).length ≤ 30 :=
    numeral_length (by omega) (by decide) (Nat.lt_of_lt_of_le (magnitude val base).isLt room)
  unfold toNumbuf
  beta_reduce
  rw [itoa_text base low high]
  refine ⟨_, if_pos ?_⟩
  split
  · rw [List.length_cons, List.length_map]
    omega
  · rw [List.length_map]
    omega

theorem converts_itoa : Converts fun val base => NumberText.itoa val base := fun val =>
  ⟨toNumbuf_some val 10 (by decide) (by decide) (by decide),
    toNumbuf_some val 16 (by decide) (by decide) (by decide)⟩

/-- Every call stays inside its buffer and its format, and the index that it returns
is that of the zero byte. -/
theorem vsnprintf_within (positive : 1 ≤ size) (small : size < 2 ^ 31) (fmt : List UInt8) (args : List Arg)
    (str : Mem) :
    ∃ ret after, vsnprintf size fmt args str = some (ret, after) ∧ 0 ≤ ret.toInt ∧ ret.toInt < size ∧
      after ret.toInt.toNat = 0 ∧ ∀ i, size ≤ i → after i = str i := by
  obtain ⟨out, ran, room, ended, kept⟩ := format_within converts_itoa positive fmt args str
  have value := toInt_len (Nat.lt_trans room small)
  refine ⟨BitVec.ofNat 32 out.len, out.str, ?_, by omega, by omega, ?_, kept⟩
  · unfold vsnprintf
    rw [if_neg (by omega), ran]
    rfl
  · rw [value, Int.toNat_natCast]
    exact ended

/-- A field of 2^32 + 5 characters, and a string that the buffer cuts. -/
def wideFormat : List UInt8 := ascii "%4294967301d|%s"

theorem vsnprintf_within_wide :
    (vsnprintf 12 wideFormat [⟨-7, none⟩, ⟨1, some (ascii "purring")⟩] fun _ => 0xAA).map
      (fun result => (result.1, (List.range 13).map result.2)) = some (11, ascii "   -7|purri" ++ [0, 0xAA]) ∧
    ∃ ret after, vsnprintf 12 wideFormat [⟨-7, none⟩, ⟨1, some (ascii "purring")⟩] (fun _ => 0xAA) =
    some (ret, after) ∧
      0 ≤ ret.toInt ∧ ret.toInt < 12 ∧ after ret.toInt.toNat = 0 ∧ ∀ i, 12 ≤ i → after i = 0xAA :=
  ⟨by decide, vsnprintf_within (by decide) (by decide) wideFormat _ _⟩

/-! ## The text that is stored -/

/-- A string stands at the start of the memory. -/
def Stores (text : List UInt8) (after : Mem) : Prop :=
  (∀ i c, text[i]? = some c → after i = c) ∧ after text.length = 0

/-- What has room in front of the zero byte is copied, and what stands in front of it stays. -/
theorem copy_stores (text : List UInt8) {out : Output} (room : out.len ≤ size - 1) :
    ∃ out', copy size text out = some out' ∧ out'.len = out.len + min text.length (size - 1 - out.len) ∧
      (∀ i < out.len, out'.str i = out.str i) ∧
      ∀ i c, text[i]? = some c → out.len + i < size - 1 → out'.str (out.len + i) = c := by
  induction text generalizing out with
  | nil => exact ⟨out, rfl, by simp, fun _ _ => rfl, fun _ _ found => by simp at found⟩
  | cons c text ih =>
    rw [copy]
    split
    · rename_i wide
      rw [Output.put, if_pos (by omega)]
      have next : out.len + 1 ≤ size - 1 := wide
      obtain ⟨out', ran, length, kept, stored⟩ := @ih ⟨writeByte out.str out.len c, out.len + 1⟩ next
      dsimp only at length kept stored
      refine ⟨out', ran, ?_, fun i before => ?_, fun i d found inside => ?_⟩
      · rw [length, List.length_cons]
        omega
      · exact (kept i (by omega)).trans (if_neg (by omega))
      · cases i with
        | zero => exact (kept out.len (by omega)).trans ((if_pos rfl).trans (Option.some.inj found))
        | succ i =>
          rw [List.getElem?_cons_succ] at found
          have later := stored i d found (by omega)
          rwa [Nat.add_right_comm] at later
    · exact ⟨out, rfl, by omega, fun _ _ => rfl, fun i d found inside => absurd inside (by omega)⟩

/-- A format that comes to the copy of a text leaves what has room of it. -/
theorem format_stores {text fmt : List UInt8} {args : List Arg} (positive : 1 ≤ size)
    (copied : formatLoop itoa size (fmt.length + 1) (fmt ++ [0]) args ⟨str, 0⟩ = copy size text ⟨str, 0⟩) :
    ∃ after, format itoa size fmt args str = some ⟨after, (text.take (size - 1)).length⟩ ∧
      Stores (text.take (size - 1)) after := by
  obtain ⟨out, ran, length, -, stored⟩ := @copy_stores size text ⟨str, 0⟩ (Nat.zero_le _)
  dsimp only at length stored
  have taken : out.len = (text.take (size - 1)).length := by
    rw [length, List.length_take]
    omega
  have room : out.len < size := by
    rw [taken, List.length_take]
    omega
  refine ⟨writeByte out.str out.len 0, ?_, fun i c found => ?_, ?_⟩
  · unfold format
    rw [copied, ran]
    dsimp only [Option.bind_eq_bind, Option.bind_some]
    rw [Output.put, if_pos room, ← taken]
    rfl
  · obtain ⟨inside, -⟩ := List.getElem?_eq_some_iff.mp found
    rw [← taken] at inside
    rw [List.getElem?_take_of_lt (by omega)] at found
    have byte := stored i c found (by omega)
    rw [Nat.zero_add] at byte
    exact (if_neg (Nat.ne_of_lt inside)).trans byte
  · rw [← taken]
    exact if_pos rfl

/-- A format without conversions is copied. -/
theorem formatLoop_plain {text : List UInt8} (plain : ∀ c ∈ text, c ≠ 0 ∧ c ≠ percent) (args : List Arg)
    {fuel : Nat}
    (enough : text.length < fuel) (out : Output) :
    formatLoop itoa size fuel (text ++ [0]) args out = copy size text out := by
  induction text generalizing fuel out with
  | nil =>
    cases fuel with
    | zero => cases enough
    | succ fuel => exact if_pos (Or.inl rfl)
  | cons c text ih =>
    obtain ⟨⟨nonzero, letter⟩, rest⟩ := List.forall_mem_cons.mp plain
    cases fuel with
    | zero => cases enough
    | succ fuel =>
      rw [List.cons_append, formatLoop, copy]
      by_cases room : out.len < size - 1
      · rw [if_neg (not_or.mpr ⟨nonzero, not_not.mpr room⟩), if_pos letter, if_pos room]
        exact congrArg _ (funext fun out => ih rest (Nat.lt_of_succ_lt_succ enough) out)
      · rw [if_pos (Or.inr room), if_neg room]

theorem vsnprintf_plain {text : List UInt8} (plain : ∀ c ∈ text, c ≠ 0 ∧ c ≠ percent)
    (fits : text.length < size)
    (args : List Arg) (str : Mem) :
    ∃ after, vsnprintf size text args str = some (BitVec.ofNat 32 text.length, after) ∧ Stores text after := by
  obtain ⟨after, ran, stored⟩ := @format_stores (fun val base => NumberText.itoa val base) size str text text args
    (by omega) (formatLoop_plain plain args (Nat.lt_succ_self _) _)
  rw [List.take_of_length_le (by omega)] at ran stored
  refine ⟨after, ?_, stored⟩
  rw [vsnprintf, if_neg (by omega), ran]
  rfl

end

end MeowMeowOS.FormatBounds

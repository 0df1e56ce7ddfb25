import MeowMeowOS.FormatEngines

/-! `rtc_get_time` and a clock that goes on while its registers are read, one after the
other. Two rounds that agree leave no room for a tick between the registers. -/
namespace MeowMeowOS.ClockReadings
open FormatEngines (RtcTime)

/-! ## The function -/

/-- What the registers of the time hold. -/
structure Registers where
  second : UInt8
  minute : UInt8
  hour : UInt8
  day : UInt8
  month : UInt8
  year : UInt8
  deriving DecidableEq

/-- The clock at its ports: its registers after so many seconds, the seconds that have
passed at each access, and the flag that an access would see. -/
structure Rtc where
  clock : Nat → Registers
  ticks : Nat → Nat
  updating : Nat → Bool
  registerB : UInt8

section
variable (r : Rtc)

/-- `while (get_update_in_progress_flag());` and the number of the next access. -/
def waitForUpdate : Nat → Nat → Option Nat
  | 0, _ => none
  | fuel + 1, n => if r.updating n then waitForUpdate fuel (n + 1) else some (n + 1)

/-- The six reads that begin with access `n`. -/
def readAll (n : Nat) : Registers where
  second := (r.clock (r.ticks n)).second
  minute := (r.clock (r.ticks (n + 1))).minute
  hour := (r.clock (r.ticks (n + 2))).hour
  day := (r.clock (r.ticks (n + 3))).day
  month := (r.clock (r.ticks (n + 4))).month
  year := (r.clock (r.ticks (n + 5))).year

def readRound (fuel n : Nat) : Option (Registers × Nat) :=
  (waitForUpdate r fuel n).map fun n => (readAll r n, n + 6)

/-- The `do` loop, with the time that was read last. -/
def compareLoop : Nat → Registers → Nat → Option (Registers × Nat)
  | 0, _, _ => none
  | fuel + 1, last, n =>
    match readRound r (fuel + 1) n with
    | none => none
    | some (time, n) => if time = last then some (time, n) else compareLoop fuel time n

end

/-- `(x & 0x0F) + ((x / 16) * 10)` -/
def fromBcd (x : UInt8) : UInt8 := (x &&& 0x0F) + x / 16 * 10

/-- The same with the mark of the afternoon kept. -/
def fromBcdHour (x : UInt8) : UInt8 := ((x &&& 0x0F) + (x &&& 0x70) / 16 * 10) ||| (x &&& 0x80)

/-- The hour of a clock that counts to twelve. -/
def fromTwelve (x : UInt8) : UInt8 := if x &&& 0x80 ≠ 0 then ((x &&& 0x7F) + 12) % 24 else x

/-- What `rtc_get_time` makes of the registers. -/
def convert (registerB : UInt8) (time : Registers) : RtcTime :=
  let decimal := if registerB &&& 0x04 = 0 then fromBcd else id
  let hour := if registerB &&& 0x04 = 0 then fromBcdHour time.hour else time.hour
  { second := decimal time.second
    minute := decimal time.minute
    hour := if registerB &&& 0x02 = 0 then fromTwelve hour else hour
    day := decimal time.day
    month := decimal time.month
    year := (decimal time.year).toUInt16 + 2000 }

/-- The time, and the number of the access behind the last. -/
def rtcGetTime (r : Rtc) (fuel n : Nat) : Option (RtcTime × Nat) := do
  let (time, n) ← readRound r fuel n
  let (time, n) ← compareLoop r fuel time n
  return (convert r.registerB time, n + 1)

/-! ## A clock that is right -/

structure Moment where
  second : Nat
  minute : Nat
  hour : Nat
  day : Nat
  month : Nat
  year : Nat

structure Moment.Valid (m : Moment) : Prop where
  second : m.second < 60
  minute : m.minute < 60
  hour : m.hour < 24
  day : m.day < 32
  month : m.month < 13
  year : m.year < 100

def toBcd (n : Nat) : UInt8 := UInt8.ofNat (n / 10 * 16 + n % 10)

/-- The registers in the form that register B names: decimal digits or a number, hours to
twelve with a mark in the afternoon or to twenty-four. -/
def encode (registerB : UInt8) (m : Moment) : Registers :=
  let form := if registerB &&& 0x04 = 0 then toBcd else UInt8.ofNat
  { second := form m.second
    minute := form m.minute
    hour :=
      if registerB &&& 0x02 = 0 then
        form (if m.hour % 12 = 0 then 12 else m.hour % 12) ||| (if 12 ≤ m.hour then 0x80 else 0)
      else form m.hour
    day := form m.day
    month := form m.month
    year := form m.year }

/-- In the form to twelve, noon and midnight change places. -/
def shownHour (registerB : UInt8) (hour : Nat) : Nat :=
  if registerB &&& 0x02 = 0 ∧ hour % 12 = 0 then 12 - hour else hour

def shown (registerB : UInt8) (m : Moment) : RtcTime where
  second := UInt8.ofNat m.second
  minute := UInt8.ofNat m.minute
  hour := UInt8.ofNat (shownHour registerB m.hour)
  day := UInt8.ofNat m.day
  month := UInt8.ofNat m.month
  year := UInt16.ofNat (2000 + m.year)

/-- The registers hold the moment, whose seconds go round, and time does not go back. -/
structure Running (r : Rtc) (moment : Nat → Moment) : Prop where
  encoded : ∀ k, r.clock k = encode r.registerB (moment k)
  valid : ∀ k, (moment k).Valid
  next : ∀ k, (moment (k + 1)).second = ((moment k).second + 1) % 60
  forward : ∀ n, r.ticks n ≤ r.ticks (n + 1)

/-! ## The conversion -/

theorem fromBcd_toBcd : ∀ n < 100, fromBcd (toBcd n) = UInt8.ofNat n := by decide

theorem bcdHour : ∀ h < 24, fromBcdHour (toBcd h) = UInt8.ofNat h ∧
    fromTwelve (fromBcdHour (toBcd (if h % 12 = 0 then 12 else h % 12) ||| (if 12 ≤ h then 0x80 else 0))) =
      UInt8.ofNat (if h % 12 = 0 then 12 - h else h) := by decide

theorem binaryHour :
    ∀ h < 24, fromTwelve (UInt8.ofNat (if h % 12 = 0 then 12 else h % 12) ||| (if 12 ≤ h then 0x80 else 0)) =
    UInt8.ofNat (if h % 12 = 0 then 12 - h else h) := by decide

theorem fullYear : ∀ y < 100, (UInt8.ofNat y).toUInt16 + 2000 = UInt16.ofNat (2000 + y) := by decide

theorem decimal_form (registerB : UInt8) {n : Nat} (small : n < 100) :
    (if registerB &&& 0x04 = 0 then fromBcd else id) ((if registerB &&& 0x04 = 0 then toBcd else UInt8.ofNat) n) =
      UInt8.ofNat n := by
  by_cases decimal : registerB &&& 0x04 = 0
  · rw [if_pos decimal, if_pos decimal, fromBcd_toBcd n small]
  · rw [if_neg decimal, if_neg decimal, id]

theorem hour_form (registerB : UInt8) {m : Moment} (small : m.hour < 24) :
    (convert registerB (encode registerB m)).hour = UInt8.ofNat (shownHour registerB m.hour) := by
  have bcd := bcdHour m.hour small
  have binary := binaryHour m.hour small
  unfold convert encode shownHour
  by_cases decimal : registerB &&& 0x04 = 0
  · by_cases twelve : registerB &&& 0x02 = 0
    · simp only [decimal, twelve, if_true, true_and, bcd.2]
    · simp only [decimal, twelve, if_true, if_false, false_and, bcd.1]
  · by_cases twelve : registerB &&& 0x02 = 0
    · simp only [decimal, twelve, if_true, if_false, true_and, binary]
    · simp only [decimal, twelve, if_false, false_and]

theorem convert_encode (registerB : UInt8) {m : Moment} (valid : m.Valid) :
    convert registerB (encode registerB m) = shown registerB m := by
  have hour := hour_form registerB valid.hour
  have second := decimal_form registerB (Nat.lt_trans valid.second (by decide : 60 < 100))
  have minute := decimal_form registerB (Nat.lt_trans valid.minute (by decide : 60 < 100))
  have day := decimal_form registerB (Nat.lt_trans valid.day (by decide : 32 < 100))
  have month := decimal_form registerB (Nat.lt_trans valid.month (by decide : 13 < 100))
  have year := decimal_form registerB valid.year
  unfold convert encode at hour
  unfold convert encode shown
  dsimp only at hour ⊢
  rw [hour, second, minute, day, month, year, fullYear m.year valid.year]

/-! ## Two rounds that agree -/

section
variable {r : Rtc} {moment : Nat → Moment} {n p q stop fuel b k j : Nat} {time last : Registers}

theorem ticks_mono (running : Running r moment) (le : p ≤ q) : r.ticks p ≤ r.ticks q := by
  induction le with
  | refl => exact Nat.le_refl _
  | step _ ih => exact Nat.le_trans ih (running.forward _)

theorem second_add (running : Running r moment) (j : Nat) :
    (moment (k + j)).second = ((moment k).second + j) % 60 := by
  induction j with
  | zero => exact (Nat.mod_eq_of_lt (running.valid k).second).symm
  | succ j ih =>
    rw [← Nat.add_assoc, running.next, ih]
    omega

/-- The register of the seconds tells the seconds apart. -/
theorem second_register (running : Running r moment) (same : (r.clock k).second = (r.clock j).second) :
    (moment k).second = (moment j).second := by
  have left := (running.valid k).second
  have right := (running.valid j).second
  have shown := congrArg RtcTime.second (convert_encode r.registerB (running.valid k))
  have shown' := congrArg RtcTime.second (convert_encode r.registerB (running.valid j))
  rw [← running.encoded] at shown shown'
  have values : UInt8.ofNat (moment k).second = UInt8.ofNat (moment j).second := by
    refine shown.symm.trans (Eq.trans ?_ shown')
    unfold convert
    dsimp only
    rw [same]
  have numbers := congrArg UInt8.toNat values
  rw [UInt8.toNat_ofNat', UInt8.toNat_ofNat'] at numbers
  omega

/-- Less than a minute apart, equal seconds belong to one second. -/
theorem one_second (running : Running r moment) (le : k ≤ j) (near : j < k + 60)
    (same : (r.clock k).second = (r.clock j).second) : k = j := by
  have equal := second_register running same
  have small := (running.valid k).second
  obtain ⟨d, rfl⟩ := Nat.exists_eq_add_of_le le
  rw [second_add running d] at equal
  omega

/-- No tick falls into a round: it reads what the clock shows. -/
theorem readAll_still (running : Running r moment) (still : r.ticks (p + 5) = r.ticks p) :
    readAll r p = r.clock (r.ticks p) := by
  have at' : ∀ i ≤ 5, r.ticks (p + i) = r.ticks p := by
    intro i small
    have low := ticks_mono running (Nat.le_add_right p i)
    have high := ticks_mono running (show p + i ≤ p + 5 by omega)
    omega
  unfold readAll
  rw [at' 1 (by decide), at' 2 (by decide), at' 3 (by decide), at' 4 (by decide), still]

/-! ## The loop -/

theorem waitForUpdate_after (ran : waitForUpdate r fuel n = some q) : n < q := by
  induction fuel generalizing n with
  | zero => cases ran
  | succ fuel ih =>
    rw [waitForUpdate] at ran
    split at ran
    · exact Nat.lt_of_succ_lt (ih ran)
    · exact Nat.lt_of_lt_of_eq (Nat.lt_succ_self n) (Option.some.inj ran)

theorem readRound_some (ran : readRound r fuel n = some (time, stop)) :
    ∃ q, n < q ∧ time = readAll r q ∧ stop = q + 6 := by
  obtain ⟨q, waited, same⟩ := Option.map_eq_some_iff.mp ran
  obtain ⟨rfl, rfl⟩ := Prod.mk.inj same
  exact ⟨q, waitForUpdate_after waited, rfl, rfl⟩

/-- The loop ends behind two rounds that read the same. -/
theorem compareLoop_twice (read : last = readAll r p) (before : p + 6 ≤ n)
    (ran : compareLoop r fuel last n = some (time, stop)) :
    ∃ p' q, p ≤ p' ∧ p' + 6 ≤ q ∧ stop = q + 6 ∧ time = readAll r p' ∧ time = readAll r q := by
  induction fuel generalizing last p n with
  | zero => cases ran
  | succ fuel ih =>
    rw [compareLoop] at ran
    cases round : readRound r (fuel + 1) n with
    | none =>
      rw [round] at ran
      cases ran
    | some result =>
      obtain ⟨found, m⟩ := result
      obtain ⟨q, after, reads, rfl⟩ := readRound_some round
      rw [round] at ran
      dsimp only at ran
      split at ran
      · rename_i agree
        obtain ⟨rfl, rfl⟩ := Prod.mk.inj (Option.some.inj ran)
        exact ⟨p, q, Nat.le_refl p, by omega, rfl, agree.trans read, reads⟩
      · obtain ⟨p', q', above, rest⟩ := ih reads (Nat.le_refl _) ran
        exact ⟨p', q', by omega, rest⟩

theorem time_shown (running : Running r moment) {found : RtcTime} (ran : rtcGetTime r fuel n = some (found, stop))
    (short : r.ticks stop < r.ticks n + 60) :
    ∃ k, r.ticks n ≤ k ∧ k ≤ r.ticks stop ∧ found = shown r.registerB (moment k) := by
  unfold rtcGetTime at ran
  simp only [Option.bind_eq_bind, Option.bind_eq_some_iff, Prod.exists] at ran
  obtain ⟨first, m, round, time, m', looped, same⟩ := ran
  obtain ⟨rfl, rfl⟩ := Prod.mk.inj (Option.some.inj same)
  obtain ⟨p, after, reads, rfl⟩ := readRound_some round
  obtain ⟨p', q, above, apart, rfl, once, twice⟩ := compareLoop_twice reads (Nat.le_refl _) looped
  have start := ticks_mono running (show n ≤ p' by omega)
  have middle := ticks_mono running (show p' ≤ q by omega)
  have ending := ticks_mono running (show q ≤ q + 6 + 1 by omega)
  have seconds := congrArg Registers.second (once.symm.trans twice)
  have still := one_second running middle (by omega) seconds
  have inside := ticks_mono running (show p' ≤ p' + 5 by omega)
  have within := ticks_mono running (show p' + 5 ≤ q by omega)
  refine ⟨r.ticks p', start, by omega, ?_⟩
  rw [once, readAll_still running (by omega), running.encoded, convert_encode _ (running.valid _)]

/-! ## The loop ends -/

/-- The flag is never seen set more than `b` times in a row. -/
def Polls (r : Rtc) (b : Nat) : Prop := ∀ n, ∃ i ≤ b, r.updating (n + i) = false

theorem waitForUpdate_returns {i : Nat} (clear : r.updating (n + i) = false) (enough : i < fuel) :
    ∃ j ≤ i, waitForUpdate r fuel n = some (n + j + 1) := by
  induction fuel generalizing n i with
  | zero => cases enough
  | succ fuel ih =>
    rw [waitForUpdate]
    by_cases set : r.updating n = true
    · rw [if_pos set]
      cases i with
      | zero =>
        rw [Nat.add_zero, set] at clear
        cases clear
      | succ i =>
        obtain ⟨j, le, ran⟩ :=
          ih (n := n + 1) (by rw [Nat.add_assoc, Nat.add_comm 1]; exact clear) (Nat.lt_of_succ_lt_succ enough)
        exact ⟨j + 1, Nat.succ_le_succ le, by rw [ran, Nat.add_assoc n 1, Nat.add_comm 1]⟩
    · rw [if_neg set]
      exact ⟨0, Nat.zero_le i, rfl⟩

theorem readRound_returns (polls : Polls r b) (enough : b < fuel) (n : Nat) :
    ∃ q, n < q ∧ q ≤ n + b + 1 ∧ readRound r fuel n = some (readAll r q, q + 6) := by
  obtain ⟨i, le, clear⟩ := polls n
  obtain ⟨j, le', ran⟩ := waitForUpdate_returns clear (Nat.lt_of_le_of_lt le enough)
  refine ⟨n + j + 1, by omega, by omega, ?_⟩
  unfold readRound
  rw [ran]
  rfl

/-- Rounds without a tick from the first to the last read the same. -/
theorem readAll_same (running : Running r moment) (le : p ≤ q) (still : r.ticks (q + 5) = r.ticks p) :
    readAll r q = readAll r p := by
  have first := ticks_mono running (show p ≤ p + 5 by omega)
  have second := ticks_mono running (show p + 5 ≤ q + 5 by omega)
  have third := ticks_mono running le
  have fourth := ticks_mono running (show q ≤ q + 5 by omega)
  rw [readAll_still running (p := q) (by omega), readAll_still running (p := p) (by omega),
    show r.ticks q = r.ticks p by omega]

/-- Four rounds see one tick at most. -/
def Calm (r : Rtc) (b : Nat) : Prop := ∀ n, r.ticks (n + 4 * (b + 7)) ≤ r.ticks n + 1

theorem rtcGetTime_returns (running : Running r moment) (polls : Polls r b) (calm : Calm r b) (enough : b + 3 < fuel)
    (n : Nat) :
    ∃ found stop, rtcGetTime r fuel n = some (found, stop) ∧ stop ≤ n + 4 * (b + 7) + 1 := by
  obtain ⟨fuel, rfl⟩ := Nat.exists_eq_add_of_le (show 3 ≤ fuel by omega)
  rw [Nat.add_comm 3] at enough ⊢
  obtain ⟨q0, after0, bound0, round0⟩ := readRound_returns polls (show b < fuel + 3 by omega) n
  obtain ⟨q1, after1, bound1, round1⟩ := readRound_returns polls (show b < fuel + 2 + 1 by omega) (q0 + 6)
  obtain ⟨q2, after2, bound2, round2⟩ := readRound_returns polls (show b < fuel + 1 + 1 by omega) (q1 + 6)
  obtain ⟨q3, after3, bound3, round3⟩ := readRound_returns polls (show b < fuel + 1 by omega) (q2 + 6)
  have one := calm n
  have t0 := ticks_mono running (show n ≤ q0 by omega)
  have t1 := ticks_mono running (show q0 ≤ q1 + 5 by omega)
  have t2 := ticks_mono running (show q1 + 5 ≤ q2 by omega)
  have t3 := ticks_mono running (show q2 ≤ q3 + 5 by omega)
  have t4 := ticks_mono running (show q3 + 5 ≤ n + 4 * (b + 7) by omega)
  unfold rtcGetTime
  rw [round0]
  simp only [Option.bind_eq_bind, Option.bind_some]
  rw [show fuel + 3 = fuel + 2 + 1 from rfl, compareLoop, round1]
  dsimp only
  by_cases same1 : readAll r q1 = readAll r q0
  · rw [if_pos same1]
    exact ⟨_, _, rfl, by omega⟩
  · rw [if_neg same1, show fuel + 2 = fuel + 1 + 1 from rfl, compareLoop, round2]
    dsimp only
    by_cases same2 : readAll r q2 = readAll r q1
    · rw [if_pos same2]
      exact ⟨_, _, rfl, by omega⟩
    · -- the tick fell into the first two rounds
      have ticked : r.ticks (q1 + 5) ≠ r.ticks q0 := fun still => same1 (readAll_same running (by omega) still)
      rw [if_neg same2, compareLoop, round3]
      dsimp only
      rw [if_pos (readAll_same running (by omega) (by omega))]
      exact ⟨_, _, rfl, by omega⟩

/-- A call of less than a minute gives a time that the clock showed meanwhile, not one put
together from two; and where the clock does not tick within a few rounds it returns. -/
theorem rtcGetTime_shows (running : Running r moment) :
    (∀ fuel n found stop, rtcGetTime r fuel n = some (found, stop) → r.ticks stop < r.ticks n + 60 →
      ∃ k, r.ticks n ≤ k ∧ k ≤ r.ticks stop ∧ found = shown r.registerB (moment k)) ∧
    ∀ b, Polls r b → Calm r b → ∀ fuel n, b + 3 < fuel →
      ∃ found stop, rtcGetTime r fuel n = some (found, stop) ∧ stop ≤ n + 4 * (b + 7) + 1 :=
  ⟨fun _ _ _ _ ran short => time_shown running ran short,
    fun _ polls calm _ n enough => rtcGetTime_returns running polls calm enough n⟩

end

/-! ## A clock of a hundred accesses a second -/

def fromMidnight (k : Nat) : Moment := ⟨k % 60, k / 60 % 60, k / 3600 % 24, 1, 1, 26⟩

def hundredth : Rtc where
  clock k := encode 0x02 (fromMidnight k)
  ticks n := n / 100
  updating n := n % 100 = 99
  registerB := 0x02

/-- A call shortly before the tick. -/
theorem rtcGetTime_shows_hundredth : ∃ found stop k, rtcGetTime hundredth 10 95 = some (found, stop) ∧ k ≤ 1 ∧
    found = shown 0x02 (fromMidnight k) := by
  have running : Running hundredth fromMidnight := by
    refine ⟨fun k => rfl, fun k => ⟨?_, ?_, ?_, ?_, ?_, ?_⟩, fun k => ?_, fun n => ?_⟩
    · exact Nat.mod_lt _ (by decide)
    · exact Nat.mod_lt _ (by decide)
    · exact Nat.mod_lt _ (by decide)
    · exact (by decide : 1 < 32)
    · exact (by decide : 1 < 13)
    · exact (by decide : 26 < 100)
    · change (k + 1) % 60 = (k % 60 + 1) % 60
      omega
    · exact Nat.div_le_div_right (Nat.le_succ n)
  have polls : Polls hundredth 1 := by
    intro n
    by_cases set : n % 100 = 99
    · exact ⟨1, Nat.le_refl 1, decide_eq_false (by omega)⟩
    · exact ⟨0, Nat.zero_le 1, decide_eq_false set⟩
  have calm : Calm hundredth 1 := by
    intro n
    change (n + 32) / 100 ≤ n / 100 + 1
    omega
  obtain ⟨shows, returns⟩ := rtcGetTime_shows running
  obtain ⟨found, stop, ran, bound⟩ := returns 1 polls calm 10 95 (by decide)
  have early : hundredth.ticks stop ≤ 1 := by
    change stop / 100 ≤ 1
    omega
  obtain ⟨k, -, le, same⟩ := shows 10 95 found stop ran (Nat.lt_of_le_of_lt early (by decide))
  exact ⟨found, stop, k, ran, Nat.le_trans le early, same⟩

end MeowMeowOS.ClockReadings

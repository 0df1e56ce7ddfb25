import MeowMeowOS.GuardedRuns
import MeowMeowOS.Network

/-! A run of `net_ping`, statement by statement, with incoming packets between
any two of them. What it returns rests on a flag that every echo reply sets. -/
namespace MeowMeowOS.Ping
open ByteBuffer GuardedRuns Network

/-- The statement of `net_ping` that comes next. -/
inductive Phase where
  | lookup
  | clearArp
  | requestArp
  | waitArp (timeout : Option Nat)
  | lookupAgain
  | clearIcmp (entry : Nat)
  | takeStart (entry : Nat)
  | sendEcho (entry start : Nat)
  | waitEcho (start : Nat) (timeout : Option Nat)
  | check (start : Nat)
  | done (result : Int) (latency : Option Nat)

/-- `sent` is the echo request once it was handed to the driver, and `answered`
says that a reply to it has come since. -/
structure PingRun where
  net : Net
  ticks : Nat
  phase : Phase
  sent : Option (List UInt8)
  answered : Bool

def masked (ip : List UInt8) : List UInt8 := List.zipWith (· &&& ·) ip myNetmask

def nextHop (targetIp : List UInt8) : List UInt8 := if masked targetIp ≠ masked myIp then myGateway else targetIp

/-- The entry that `arp_lookup` returns a pointer into. -/
def entryOf (net : Net) (ip : List UInt8) : Option Nat :=
  net.arpCache.findIdx? fun entry => entry.valid ∧ entry.ip = ip

def ipv4Header (totalLength : Nat) (targetIp checksum : List UInt8) : List UInt8 :=
  [0x45, 0, UInt8.ofNat (totalLength / 256), UInt8.ofNat totalLength, 0x12, 0x34, 0, 0, 64, 1] ++ checksum ++ myIp ++
    targetIp

def icmpHeader (checksum : List UInt8) : List UInt8 := [8, 0] ++ checksum ++ [0x12, 0x34, 0, 1]

/-- The packet of `icmp_send_echo_request` with identifier 0x1234 and sequence
number 1. -/
def echoRequest (targetIp : List UInt8) : List UInt8 :=
  ipv4Header 28 targetIp (half (netChecksum (ipv4Header 28 targetIp (half 0)))) ++
    icmpHeader (half (netChecksum (icmpHeader (half 0))))

def sendEchoRequest (allocated : Bool) (net : Net) (targetIp : List UInt8) (entry : Nat) : Option (List UInt8) :=
  if allocated then
    some ((net.arpCache.getD entry ⟨[], [], false⟩).mac ++ net.myMac.toList ++ [0x08, 0x00] ++ echoRequest targetIp)
  else none

/-- `timeout` is set in the statement before the loop that looks at it. -/
def later (ticks wait : Nat) : Nat := (ticks + wait) % 2 ^ 32

/-- The next statement; the allocations of the frames may fail. -/
def advance (targetIp : List UInt8) (allocated : Bool) (p : PingRun) : PingRun :=
  match p.phase with
  | .lookup =>
    match entryOf p.net (nextHop targetIp) with
    | none => { p with phase := .clearArp }
    | some entry => { p with phase := .clearIcmp entry }
  | .clearArp => { p with net := { p.net with arpReceivedFlag := false }, phase := .requestArp }
  | .requestArp => { p with phase := .waitArp none }
  | .waitArp none => { p with phase := .waitArp (some (later p.ticks 1000)) }
  | .waitArp (some timeout) =>
    if p.net.arpReceivedFlag = false ∧ p.ticks < timeout then p else { p with phase := .lookupAgain }
  | .lookupAgain =>
    match entryOf p.net (nextHop targetIp) with
    | none => { p with phase := .done (-1) none }
    | some entry => { p with phase := .clearIcmp entry }
  | .clearIcmp entry => { p with net := { p.net with icmpReceivedFlag := false }, phase := .takeStart entry }
  | .takeStart entry => { p with phase := .sendEcho entry p.ticks }
  | .sendEcho entry start =>
    { p with sent := sendEchoRequest allocated p.net targetIp entry, phase := .waitEcho start none }
  | .waitEcho start none => { p with phase := .waitEcho start (some (later p.ticks 2000)) }
  | .waitEcho start (some timeout) =>
    if p.net.icmpReceivedFlag = false ∧ p.ticks < timeout then p else { p with phase := .check start }
  | .check start =>
    if p.net.icmpReceivedFlag then { p with phase := .done 0 (some ((p.ticks + 2 ^ 32 - start) % 2 ^ 32)) }
    else { p with phase := .done (-2) none }
  | .done _ _ => p

/-- What the handler takes for an echo reply. -/
def TakenForReply (data : List UInt8) : Prop :=
  be16 data 12 = 0x0800 ∧ (data.drop 30).take 4 = myIp ∧ byteAt data 23 = 1 ∧ byteAt data (messageAt data) = 0

/-- The frame is the reply to the echo request. -/
def IsReply (targetIp data : List UInt8) : Prop :=
  TakenForReply data ∧ (data.drop 26).take 4 = targetIp ∧ messageAt data + 8 ≤ data.length ∧
    be16 data (messageAt data + 4) = 0x1234 ∧ be16 data (messageAt data + 6) = 1

instance (data : List UInt8) : Decidable (TakenForReply data) := inferInstanceAs (Decidable (_ ∧ _))

instance (targetIp data : List UInt8) : Decidable (IsReply targetIp data) := inferInstanceAs (Decidable (_ ∧ _))

/-- Whether the request has been answered once a frame has come. -/
def answeredBy (targetIp data : List UInt8) (p : PingRun) : Bool :=
  p.answered || decide (p.sent ≠ none ∧ IsReply targetIp data)

/-- A packet comes with what lies behind it in memory. -/
inductive Event where
  | tick
  | advance (allocated : Bool)
  | packet (allocated : Bool) (data behind : List UInt8)

def Step (targetIp : List UInt8) (p : PingRun) : Event → PingRun → Prop
  | .tick, q => q = { p with ticks := (p.ticks + 1) % 2 ^ 32 }
  | .advance allocated, q => q = advance targetIp allocated p
  | .packet allocated data behind, q => ∃ net reply,
      netHandlePacket allocated p.net (data ++ behind) data.length = some (net, reply) ∧
        q = { p with net := net, answered := answeredBy targetIp data p }

/-- The flag has been cleared for this run and not been looked at for the last
time. -/
def Listening : Phase → Prop
  | .takeStart _ | .sendEcho _ _ | .waitEcho _ _ | .check _ => True
  | _ => False

/-- Until the reply has come, nothing else that the handler takes for an echo
reply comes once the flag has been cleared. -/
def Guard (targetIp : List UInt8) (p : PingRun) : Event → Prop
  | .packet _ data behind => Listening p.phase → p.answered = false → ethHeader ≤ data.length →
      TakenForReply (data ++ behind) → p.sent ≠ none ∧ IsReply targetIp data
  | _ => True

def start (net : Net) (ticks : Nat) : PingRun := ⟨net, ticks, .lookup, none, false⟩

/-! ## What a packet does to the flag -/

/-- Whatever the program returns is as required. -/
def Yields (Q : α → Prop) (r : Option α) : Prop := ∀ x, r = some x → Q x

section
variable {targetIp data behind : List UInt8} {net : Net} {allocated : Bool} {p q : PingRun} {α β : Type} {Q : β →
  Prop}

theorem yields_bind {r : Option α} {f : α → Option β} (rest : ∀ x, r = some x → Yields Q (f x)) :
    Yields Q (r >>= f) := by
  intro y found
  obtain ⟨x, first, second⟩ := Option.bind_eq_some_iff.mp found
  exact rest x first y second

theorem yields_some {x : β} (holds : Q x) : Yields Q (some x) := by
  intro y same
  cases same
  exact holds

/-- The handler leaves the flag of the ping alone. -/
def Silent (net : Net) (result : Net × Option (List UInt8)) : Prop :=
  result.1.icmpReceivedFlag = net.icmpReceivedFlag

theorem silent_arpReply : Yields (Silent net) (arpReply allocated net data) := by
  unfold arpReply
  repeat refine yields_bind fun _ _ => ?_
  exact yields_some rfl

theorem silent_arpLearn : Yields (Silent net) (arpLearn net data) := by
  unfold arpLearn
  refine yields_bind fun _ _ => ?_
  split
  · refine yields_bind fun _ _ => yields_bind fun _ _ => yields_some rfl
  · exact yields_some rfl

theorem silent_arp : Yields (Silent net) (handleArp allocated net data) := by
  unfold handleArp
  refine yields_bind fun _ _ => ?_
  split
  · refine yields_bind fun _ _ => ?_
    split
    · exact silent_arpReply
    · exact silent_arpLearn
  · exact silent_arpLearn

theorem silent_icmpReply (icmp : Nat) : Yields (Silent net) (icmpReply allocated net data icmp) := by
  unfold icmpReply
  repeat refine yields_bind fun _ _ => ?_
  exact yields_some rfl

theorem silent_dns (payload len : Nat) : Yields (fun after => after.icmpReceivedFlag = net.icmpReceivedFlag)
    (dnsHandlePacket net data payload len) := by
  unfold dnsHandlePacket
  split
  · exact yields_some rfl
  · refine yields_bind fun _ _ => ?_
    split
    · exact yields_some rfl
    · refine yields_bind fun _ _ => ?_
      split
      · exact yields_some rfl
      · refine yields_bind fun _ _ => yields_bind fun _ _ => yields_bind fun found _ => ?_
        cases found with
        | none => exact yields_some rfl
        | some address => exact yields_some rfl

theorem silent_udp : Yields (Silent net) (handleUdp net data) := by
  unfold handleUdp
  refine yields_bind fun _ _ => yields_bind fun _ _ => yields_bind fun _ _ => ?_
  split
  · exact yields_bind fun after handled => yields_some (silent_dns _ _ after handled)
  · exact yields_some rfl

/-- Only what the handler takes for an echo reply sets the flag. -/
def Marks (net : Net) (data : List UInt8) (result : Net × Option (List UInt8)) : Prop :=
  result.1.icmpReceivedFlag = true → net.icmpReceivedFlag = true ∨ TakenForReply data

theorem silent_marks {r : Option (Net × Option (List UInt8))} (silent : Yields (Silent net) r) :
    Yields (Marks net data) r := fun result found flag => Or.inl ((silent result found).symm.trans flag)

theorem marks_unchanged : Yields (Marks net data) (some (net, none)) := silent_marks (yields_some rfl)

theorem ipv4_marks (ip : be16 data 12 = 0x0800) : Yields (Marks net data) (handleIpv4 allocated net data) := by
  unfold handleIpv4
  refine yields_bind fun destIp readDest => ?_
  split
  · rename_i mine
    refine yields_bind fun protocol readProtocol => ?_
    split
    · rename_i icmp
      unfold handleIcmp
      refine yields_bind fun versionIhl readVersion => yields_bind fun type readType => ?_
      obtain ⟨-, rfl⟩ := readByte_found readVersion
      split
      · exact silent_marks (silent_icmpReply _)
      · split
        · rename_i reply
          refine yields_some fun _ => Or.inr ⟨ip, ?_, ?_, ?_⟩
          · rw [readBytes_found readDest, mine]
          · rw [(readByte_found readProtocol).2, icmp]
          · exact (readByte_found readType).2.trans reply
        · exact marks_unchanged
    · split
      · exact silent_marks silent_udp
      · exact marks_unchanged
  · exact marks_unchanged

theorem packet_marks (len : Nat) : Yields (fun result => result.1.icmpReceivedFlag = true →
    net.icmpReceivedFlag = true ∨ (ethHeader ≤ len ∧ TakenForReply data))
    (netHandlePacket allocated net data len) := by
  have strong : ∀ r, Yields (Marks net data) r → ethHeader ≤ len → Yields (fun result =>
      result.1.icmpReceivedFlag = true → net.icmpReceivedFlag = true ∨ (ethHeader ≤ len ∧ TakenForReply data))
        r :=
    fun r marks long result found flag => (marks result found flag).imp_right fun taken => ⟨long, taken⟩
  unfold netHandlePacket
  split
  · intro result same
    cases same
    exact Or.inl
  · rename_i long
    refine strong _ ?_ (Nat.not_lt.mp long)
    refine yields_bind fun ethtype readType => ?_
    split
    · exact silent_marks silent_arp
    · split
      · rename_i ip
        exact ipv4_marks ((readBe16_found readType).trans ip)
      · exact marks_unchanged

/-- What is taken for an echo reply sets the flag, whoever sent it. -/
theorem reply_handled (taken : TakenForReply data) (header : 34 ≤ data.length)
    (inside : messageAt data < data.length) :
    netHandlePacket allocated net data data.length = some ({ net with icmpReceivedFlag := true }, none) := by
  obtain ⟨ip, mine, icmp, reply⟩ := taken
  have long : ¬ data.length < ethHeader := by
    unfold ethHeader
    omega
  have first : ethHeader < data.length := by
    unfold ethHeader
    omega
  unfold netHandlePacket
  rw [if_neg long, readBe16_inside (by omega), Option.bind_eq_bind, Option.bind_some, ip,
    if_neg (by decide), if_pos rfl]
  unfold handleIpv4
  rw [readBytes_inside (by omega), Option.bind_eq_bind, Option.bind_some, if_pos mine, readByte_inside (by omega),
    Option.bind_eq_bind, Option.bind_some, if_pos icmp]
  unfold handleIcmp
  rw [readByte_inside first, Option.bind_eq_bind, Option.bind_some]
  change (readByte data (messageAt data) >>= _) = _
  rw [readByte_inside inside, Option.bind_eq_bind, Option.bind_some, reply, if_neg (by decide), if_pos rfl]

/-! ## Every run -/

/-- The flag stands for a reply, as long as it is this run's. -/
structure Honest (p : PingRun) : Prop where
  flag : Listening p.phase → p.net.icmpReceivedFlag = true → p.answered = true
  done : ∀ latency, p.phase = .done 0 latency → p.answered = true

theorem honest_deaf {phase : Phase} {ticks : Nat} {sent : Option (List UInt8)} {answered : Bool}
    (deaf : ¬ Listening phase) (unsuccessful : ∀ latency, phase ≠ .done 0 latency) :
    Honest ⟨net, ticks, phase, sent, answered⟩ :=
  ⟨fun listening => absurd listening deaf, fun latency same => absurd same (unsuccessful latency)⟩

theorem honest_listening {phase : Phase} {ticks : Nat} {sent : Option (List UInt8)} {answered : Bool}
    (flag : net.icmpReceivedFlag = true → answered = true) (unsuccessful : ∀ latency, phase ≠ .done 0 latency) :
    Honest ⟨net, ticks, phase, sent, answered⟩ :=
  ⟨fun _ => flag, fun latency same => absurd same (unsuccessful latency)⟩

theorem honest_advance (honest : Honest p) : Honest (advance targetIp allocated p) := by
  obtain ⟨net, ticks, phase, sent, answered⟩ := p
  obtain ⟨flag, done⟩ := honest
  unfold advance
  cases phase with
  | lookup =>
    dsimp only
    split
    · exact honest_deaf id nofun
    · exact honest_deaf id nofun
  | clearArp => exact honest_deaf id nofun
  | requestArp => exact honest_deaf id nofun
  | waitArp timeout =>
    cases timeout with
    | none => exact honest_deaf id nofun
    | some timeout =>
      dsimp only
      split
      · exact honest_deaf id nofun
      · exact honest_deaf id nofun
  | lookupAgain =>
    dsimp only
    split
    · refine honest_deaf id fun latency same => ?_
      cases same
    · exact honest_deaf id nofun
  | clearIcmp entry => exact honest_listening nofun nofun
  | takeStart entry => exact honest_listening (flag trivial) nofun
  | sendEcho entry start => exact honest_listening (flag trivial) nofun
  | waitEcho start timeout =>
    cases timeout with
    | none => exact honest_listening (flag trivial) nofun
    | some timeout =>
      dsimp only
      split
      · exact honest_listening (flag trivial) nofun
      · exact honest_listening (flag trivial) nofun
  | check start =>
    dsimp only
    split
    · rename_i received
      exact ⟨fun listening => absurd listening id, fun _ _ => flag trivial received⟩
    · refine honest_deaf id fun latency same => ?_
      cases same
  | done result latency => exact ⟨flag, done⟩

theorem honest_step {event : Event} (honest : Honest p) (guard : Guard targetIp p event)
    (step : Step targetIp p event q) : Honest q := by
  cases event with
  | tick =>
    obtain rfl := step
    exact ⟨honest.flag, honest.done⟩
  | advance allocated =>
    obtain rfl := step
    exact honest_advance honest
  | packet allocated data behind =>
    obtain ⟨after, reply, handled, rfl⟩ := step
    refine ⟨fun listening flag => ?_, fun latency same => ?_⟩
    · dsimp only
      unfold answeredBy
      cases before : p.answered with
      | true => rfl
      | false =>
        rcases packet_marks data.length (after, reply) handled flag with set | ⟨long, taken⟩
        · rw [honest.flag listening set] at before
          cases before
        · have answers := guard listening before long taken
          simp [answers.1, answers.2]
    · dsimp only
      unfold answeredBy
      rw [honest.done latency same]
      rfl

/-- A ping that succeeds has been answered: the reply to its request has come
after the request was sent. -/
theorem ping_answered {ticks : Nat} (run : Run (Guard targetIp) (Step targetIp) (start net ticks) p)
    (success : p.phase = .done 0 latency) : p.answered = true := by
  have honest := run_invariant Honest run (honest_deaf id nofun) fun _ _ _ => honest_step
  exact honest.done latency success

/-- A host with the gateway in its cache. -/
def knownGateway : Net :=
  ⟨Vector.replicate 6 0x52, [⟨myGateway, [1, 2, 3, 4, 5, 6], true⟩], false, false, false, [], 0x4D4F, 53123⟩

/-- An echo reply from an address, for an identifier and sequence number 1. -/
def replyFrom (srcIp : List UInt8) (high low : UInt8) : List UInt8 :=
  List.replicate 12 0x52 ++ [0x08, 0x00, 0x45, 0x00, 0x00, 0x1C, 0, 0, 0, 0, 64, 1, 0, 0] ++ srcIp ++ myIp ++
    [0, 0, 0, 0, high, low, 0, 1]

def advances (targetIp : List UInt8) : Nat → PingRun → PingRun
  | 0, p => p
  | n + 1, p => advances targetIp n (advance targetIp true p)

theorem advances_run {guard : PingRun → Event → Prop} {s : PingRun} (free : ∀ p, guard p (.advance true))
    (n : Nat)
    (run : Run guard (Step targetIp) s p) : Run guard (Step targetIp) s (advances targetIp n p) := by
  induction n generalizing p with
  | zero => exact run
  | succ n ih =>
    have advanced : Step targetIp p (.advance true) (advance targetIp true p) := rfl
    exact ih (run_then run (free p) advanced)

/-- The request has been sent, and a packet is handled. -/
def receive (data : List UInt8) : PingRun :=
  let waiting := advances myGateway 5 (start knownGateway 0)
  { waiting with
    net := { waiting.net with icmpReceivedFlag := true }
    answered := answeredBy myGateway data waiting }

theorem receive_run {guard : PingRun → Event → Prop} (free : ∀ p, guard p (.advance true))
    (comes : guard (advances myGateway 5 (start knownGateway 0)) (.packet true data []))
    (taken : TakenForReply data) (header : 34 ≤ data.length) (inside : messageAt data < data.length) :
    Run guard (Step myGateway) (start knownGateway 0) (advances myGateway 2 (receive data)) := by
  have came : Step myGateway (advances myGateway 5 (start knownGateway 0)) (.packet true data []) (receive data) := by
    refine ⟨_, none, ?_, rfl⟩
    rw [List.append_nil]
    exact reply_handled taken header inside
  exact advances_run free 2 (run_then (advances_run free 5 .refl) comes came)

theorem ping_answered_gateway : (advances myGateway 2 (receive (replyFrom myGateway 0x12 0x34))).answered = true := by
  have expected : Guard myGateway (advances myGateway 5 (start knownGateway 0))
      (.packet true (replyFrom myGateway 0x12 0x34) []) := fun _ _ _ _ => ⟨nofun, by decide⟩
  have run : Run (Guard myGateway) (Step myGateway) (start knownGateway 0)
      (advances myGateway 2 (receive (replyFrom myGateway 0x12 0x34))) :=
    receive_run (fun _ => trivial) expected (by decide) (by decide) (by decide)
  have success : (advances myGateway 2 (receive (replyFrom myGateway 0x12 0x34))).phase = .done 0 (some 0) := rfl
  exact ping_answered run success

/-- Another host's reply to another identifier makes the ping succeed. -/
theorem stray_reply_counts :
    ¬ ∀ (targetIp : List UInt8) (net : Net) (ticks : Nat) (p : PingRun) (latency : Option Nat),
    Run (fun _ _ => True) (Step targetIp) (start net ticks) p → p.phase = .done 0 latency → p.answered = true := by
  intro all
  have run : Run (fun _ _ => True) (Step myGateway) (start knownGateway 0)
      (advances myGateway 2 (receive (replyFrom [10, 0, 2, 99] 0x77 0x77))) :=
    receive_run (fun _ => trivial) trivial (by decide) (by decide) (by decide)
  have answered := all myGateway knownGateway 0 _ (some 0) run rfl
  have stray : ¬ IsReply myGateway (replyFrom [10, 0, 2, 99] 0x77 0x77) := by decide
  have unanswered : answeredBy myGateway (replyFrom [10, 0, 2, 99] 0x77 0x77)
      (advances myGateway 5 (start knownGateway 0)) = false := by
    unfold answeredBy
    rw [decide_eq_false fun held => stray held.2]
    rfl
  have same : (advances myGateway 2 (receive (replyFrom [10, 0, 2, 99] 0x77 0x77))).answered =
      answeredBy myGateway (replyFrom [10, 0, 2, 99] 0x77 0x77) (advances myGateway 5 (start knownGateway 0)) := rfl
  rw [same, unanswered] at answered
  cases answered

end

end MeowMeowOS.Ping

import MeowMeowOS.Network

/-! Which frames the handler reads past their end. Every length that a header
claims counts, and only the first header is checked against the frame. -/
namespace MeowMeowOS.PacketBounds
open ByteBuffer Network

/-! ## The frames that hold what they claim -/

section
variable (data : List UInt8) (payload len : Nat)

def labelAt (pos : Nat) : UInt8 := byteAt data (payload + pos)

/-- The labels of a name, up to the first empty one or the claimed end, are in
the frame. -/
def NameWithin (pos : Nat) : Prop :=
  if pos < len then payload + pos < data.length ∧
    (labelAt data payload pos = 0 ∨ NameWithin (pos + (labelAt data payload pos).toNat + 1))
  else True
termination_by len - pos

def nameEnd (pos : Nat) : Nat :=
  if pos < len then
    if labelAt data payload pos = 0 then pos else nameEnd (pos + (labelAt data payload pos).toNat + 1)
  else pos
termination_by len - pos

def QuestionsWithin : Nat → Nat → Prop
  | 0, _ => True
  | qdcount + 1, pos =>
    NameWithin data payload len pos ∧ QuestionsWithin qdcount (nameEnd data payload len pos + 1 + 4)

def questionsEnd : Nat → Nat → Nat
  | 0, pos => pos
  | qdcount + 1, pos => questionsEnd qdcount (nameEnd data payload len pos + 1 + 4)

def Pointer (pos : Nat) : Prop := labelAt data payload pos &&& 0xC0 = 0xC0

instance (pos : Nat) : Decidable (Pointer data payload pos) := inferInstanceAs (Decidable (_ = _))

def ownerEnd (pos : Nat) : Nat := if Pointer data payload pos then pos + 2 else nameEnd data payload len pos + 1

def HasAddress (pos : Nat) : Prop :=
  be16 data (payload + pos) = 1 ∧ be16 data (payload + pos + 2) = 1 ∧ be16 data (payload + pos + 8) = 4 ∧
    pos + 10 + 4 ≤ len

instance (pos : Nat) : Decidable (HasAddress data payload len pos) := inferInstanceAs (Decidable (_ ∧ _))

/-- The answers are in the frame, up to the first address or the claimed end. -/
def AnswersWithin : Nat → Nat → Prop
  | 0, _ => True
  | ancount + 1, pos => pos < len →
    (payload + pos < data.length ∧ (Pointer data payload pos ∨ NameWithin data payload len pos)) ∧
    (ownerEnd data payload len pos + 10 ≤ len →
      payload + ownerEnd data payload len pos + 10 ≤ data.length ∧
      if HasAddress data payload len (ownerEnd data payload len pos) then
        payload + ownerEnd data payload len pos + 10 + 4 ≤ data.length
      else AnswersWithin ancount (ownerEnd data payload len pos + 10 +
        be16 data (payload + ownerEnd data payload len pos + 8)))

end

def DnsWithin (net : Net) (data : List UInt8) (payload len : Nat) : Prop :=
  dnsHeader ≤ len → payload + 2 ≤ data.length ∧ (be16 data payload = net.dnsQueryId →
    payload + 8 ≤ data.length ∧ (be16 data (payload + 6) ≠ 0 →
      QuestionsWithin data payload len (be16 data (payload + 4)) dnsHeader ∧
      AnswersWithin data payload len (be16 data (payload + 6))
        (questionsEnd data payload len (be16 data (payload + 4)) dnsHeader)))

def ArpWithin (data : List UInt8) : Prop :=
  22 ≤ data.length ∧ (be16 data 20 = 1 → 42 ≤ data.length) ∧ (be16 data 20 = 2 → 32 ≤ data.length)

/-- An echo request is at least as long as its headers, and in the frame. -/
def IcmpWithin (data : List UInt8) : Prop :=
  messageAt data < data.length ∧ (byteAt data (messageAt data) = 8 →
    messageAt data + 4 ≤ data.length ∧ headerLength (byteAt data ethHeader) ≤ be16 data 16 ∧
      ethHeader + be16 data 16 ≤ data.length)

def UdpWithin (net : Net) (data : List UInt8) : Prop :=
  messageAt data + 6 ≤ data.length ∧
    (udpHeader ≤ be16 data (messageAt data + 4) → be16 data (messageAt data + 2) = net.dnsClientPort →
      DnsWithin net data (messageAt data + udpHeader) (be16 data (messageAt data + 4) - udpHeader))

def Ipv4Within (net : Net) (data : List UInt8) : Prop :=
  34 ≤ data.length ∧ ((data.drop 30).take 4 = myIp →
    (byteAt data 23 = 1 → IcmpWithin data) ∧ (byteAt data 23 = 17 → UdpWithin net data))

/-- The frame holds all that its headers make the handler look at. -/
def Within (net : Net) (data : List UInt8) : Prop :=
  ethHeader ≤ data.length →
    (be16 data 12 = 0x0806 → ArpWithin data) ∧ (be16 data 12 = 0x0800 → Ipv4Within net data)

/-- A frame that is sent is no longer than the one it answers. -/
def Fitting (data : List UInt8) (result : Net × Option (List UInt8)) : Prop :=
  ∀ frame, result.2 = some frame → frame.length ≤ data.length

section
variable {data : List UInt8} {payload len pos : Nat} {net : Net} {allocated : Bool} {α : Type} {Q : α → Prop}

/-! ## DNS -/

theorem read_label {label : UInt8} (found : readByte data (payload + pos) = some label) :
    payload + pos < data.length ∧ labelAt data payload pos = label := readByte_found found

theorem succeeds_skipName {f : Nat → Option α} (pos : Nat) : Succeeds Q (skipName data payload len pos >>= f) ↔
    NameWithin data payload len pos ∧ Succeeds Q (f (nameEnd data payload len pos)) := by
  fun_induction skipName data payload len pos with
  | case1 pos small missing =>
    rw [NameWithin, if_pos small]
    refine iff_of_false succeeds_none fun held => ?_
    rw [readByte_inside held.1.1] at missing
    cases missing
  | case2 pos small found =>
    obtain ⟨inside, empty⟩ := read_label found
    rw [NameWithin, if_pos small, nameEnd, if_pos small, if_pos empty]
    exact (and_iff_right ⟨inside, Or.inl empty⟩).symm
  | case3 pos small label found more ih =>
    obtain ⟨inside, rfl⟩ := read_label found
    rw [NameWithin, if_pos small, nameEnd, if_pos small, if_neg more, ih]
    exact and_congr_left fun _ => ⟨fun held => ⟨inside, Or.inr held⟩, fun held => held.2.resolve_left more⟩
  | case4 pos claimed =>
    rw [NameWithin, if_neg claimed, nameEnd, if_neg claimed]
    exact (and_iff_right trivial).symm

theorem succeeds_skipQuestions {f : Nat → Option α} (qdcount pos : Nat) :
    Succeeds Q (skipQuestions data payload len qdcount pos >>= f) ↔
      QuestionsWithin data payload len qdcount pos ∧ Succeeds Q (f (questionsEnd data payload len qdcount pos)) := by
  induction qdcount generalizing pos with
  | zero => exact (and_iff_right trivial).symm
  | succ qdcount ih =>
    unfold skipQuestions QuestionsWithin questionsEnd
    rw [bind_assoc, succeeds_skipName, ih, and_assoc]

theorem succeeds_skipOwner {f : Nat → Option α} (pos : Nat) : Succeeds Q (skipOwner data payload len pos >>= f) ↔
    (payload + pos < data.length ∧ (Pointer data payload pos ∨ NameWithin data payload len pos)) ∧
      Succeeds Q (f (ownerEnd data payload len pos)) := by
  unfold skipOwner ownerEnd
  rw [bind_assoc, succeeds_readByte, and_assoc]
  refine and_congr_right fun _ => ?_
  by_cases pointer : Pointer data payload pos
  · have held : byteAt data (payload + pos) &&& 0xC0 = 0xC0 := pointer
    rw [if_pos held, if_pos pointer]
    exact (and_iff_right (Or.inl pointer)).symm
  · have free : ¬ byteAt data (payload + pos) &&& 0xC0 = 0xC0 := pointer
    rw [if_neg free, if_neg pointer, bind_assoc, succeeds_skipName]
    exact and_congr_left fun _ => (or_iff_right pointer).symm

/-- The search for an address succeeds with any result, or not at all. -/
theorem succeeds_findAddress {f : Option (List UInt8) → Option α} (ancount pos : Nat)
    (goesOn : ∀ found, Succeeds Q (f found)) :
    Succeeds Q (findAddress data payload len ancount pos >>= f) ↔ AnswersWithin data payload len ancount pos := by
  induction ancount generalizing pos with
  | zero => exact iff_of_true (goesOn none) trivial
  | succ ancount ih =>
    unfold findAddress AnswersWithin
    by_cases small : pos < len
    · rw [if_pos small, bind_assoc, succeeds_skipOwner]
      simp only [small, true_implies]
      refine and_congr_right fun _ => ?_
      generalize ownerEnd data payload len pos = pos
      by_cases short : len < pos + 10
      · rw [if_pos short]
        exact iff_of_true (goesOn none) fun held => absurd held (Nat.not_le.mpr short)
      · rw [if_neg short]
        simp only [Nat.not_lt.mp short, true_implies]
        simp only [bind_assoc]
        rw [succeeds_readBe16, succeeds_readBe16, succeeds_readBe16]
        have header : ∀ P : Prop, (payload + pos + 2 ≤ data.length ∧ payload + pos + 2 + 2 ≤ data.length ∧
            payload + pos + 8 + 2 ≤ data.length ∧ P) ↔ payload + pos + 10 ≤ data.length ∧ P := by
          intro P
          constructor
          · exact fun held => ⟨held.2.2.1, held.2.2.2⟩
          · exact fun held => ⟨by omega, by omega, held.1, held.2⟩
        rw [header]
        refine and_congr_right fun _ => ?_
        change Succeeds Q ((if HasAddress data payload len pos then _ else _) >>= f) ↔ _
        by_cases has : HasAddress data payload len pos
        · rw [if_pos has, if_pos has, bind_assoc, succeeds_readBytes]
          exact and_iff_left (goesOn _)
        · rw [if_neg has, if_neg has]
          exact ih _
    · rw [if_neg small]
      exact iff_of_true (goesOn none) fun held => absurd held small

theorem succeeds_dnsHandlePacket {f : Net → Option α} (goesOn : ∀ net, Succeeds Q (f net)) :
    Succeeds Q (dnsHandlePacket net data payload len >>= f) ↔ DnsWithin net data payload len := by
  unfold dnsHandlePacket DnsWithin
  by_cases short : len < dnsHeader
  · rw [if_pos short]
    exact iff_of_true (goesOn net) fun held => absurd held (Nat.not_le.mpr short)
  · rw [if_neg short, bind_assoc, succeeds_readBe16]
    simp only [Nat.not_lt.mp short, true_implies]
    refine and_congr_right fun _ => ?_
    by_cases other : be16 data payload ≠ net.dnsQueryId
    · rw [if_pos other]
      exact iff_of_true (goesOn net) fun held => absurd held other
    · rw [if_neg other, bind_assoc, succeeds_readBe16]
      simp only [not_not.mp other, true_implies]
      refine and_congr_right fun held => ?_
      by_cases none : be16 data (payload + 6) = 0
      · rw [if_pos none]
        exact iff_of_true (goesOn net) fun held => absurd none held
      · rw [if_neg none, bind_assoc, succeeds_readBe16]
        have inside : payload + 4 + 2 ≤ data.length := by omega
        simp only [inside, true_and]
        rw [bind_assoc, succeeds_skipQuestions, bind_assoc, succeeds_findAddress]
        · exact ⟨fun held _ => held, fun held => held none⟩
        · intro found
          cases found with
          | none => exact goesOn _
          | some address => exact goesOn _

/-! ## The other protocols -/

theorem fitting_silent : Fitting data (net, none) := nofun

theorem udp_within (header : 34 ≤ data.length) : Succeeds (Fitting data) (handleUdp net data) ↔
    UdpWithin net data := by
  have first : ethHeader < data.length := by
    unfold ethHeader
    omega
  unfold handleUdp UdpWithin messageAt
  rw [succeeds_readByte, and_iff_right first]
  dsimp only
  generalize ethHeader + headerLength (byteAt data ethHeader) = udp
  rw [succeeds_readBe16, succeeds_readBe16]
  have both : ∀ P : Prop, (udp + 2 + 2 ≤ data.length ∧ udp + 4 + 2 ≤ data.length ∧ P) ↔
      udp + 6 ≤ data.length ∧ P := fun P =>
    ⟨fun held => ⟨held.2.1, held.2.2⟩, fun held => ⟨by omega, held.1, held.2⟩⟩
  refine (both _).trans (and_congr_right fun _ => ?_)
  by_cases taken : udpHeader ≤ be16 data (udp + 4) ∧ be16 data (udp + 2) = net.dnsClientPort
  · rw [if_pos taken, succeeds_dnsHandlePacket]
    · simp only [taken.1, taken.2, true_implies]
    · exact fun net => succeeds_some.mpr fitting_silent
  · rw [if_neg taken]
    exact iff_of_true (succeeds_some.mpr fitting_silent) fun long port => absurd ⟨long, port⟩ taken

theorem succeeds_netSendPacket {f : Option (List UInt8) → Option (Net × Option (List UInt8))}
    {destMac ethertype bytes : List UInt8} {off n : Nat} (inside : off + n ≤ bytes.length)
    (goesOn : ∀ sent, (∀ frame, sent = some frame → frame.length = destMac.length + 6 + ethertype.length + n) →
      Succeeds (Fitting data) (f sent)) :
    Succeeds (Fitting data) (netSendPacket allocated net destMac ethertype bytes off n >>= f) := by
  unfold netSendPacket
  cases allocated with
  | false =>
    rw [if_neg nofun]
    exact goesOn none nofun
  | true =>
    rw [if_pos rfl, bind_assoc, succeeds_readBytes]
    refine ⟨inside, goesOn _ fun frame same => ?_⟩
    cases same
    have length := readBytes_length (readBytes_inside inside)
    simp only [List.length_append, Vector.length_toList, length]

theorem write_goesOn {f : List UInt8 → Option α} {buffer bytes : List UInt8} {off : Nat}
    (inside : off + bytes.length ≤ buffer.length)
    (goesOn : ∀ next, next.length = buffer.length →
      (∀ i, i < off ∨ off + bytes.length ≤ i → byteAt next i = byteAt buffer i) → Succeeds Q (f next)) :
    Succeeds Q (writeBytes buffer off bytes >>= f) :=
  succeeds_writeBytes.mpr ⟨inside, goesOn _ (overwrite_length inside) fun _ apart =>
    byteAt_overwrite_apart inside apart⟩

theorem read_goesOn {f : List UInt8 → Option α} {buffer : List UInt8} {off n : Nat}
    (inside : off + n ≤ buffer.length)
    (goesOn : ∀ bytes, bytes.length = n → Succeeds Q (f bytes)) : Succeeds Q (readBytes buffer off n >>= f) :=
  succeeds_readBytes.mpr ⟨inside, goesOn _ (readBytes_length (readBytes_inside inside))⟩

theorem arpReply_within (whole : 42 ≤ data.length) : Succeeds (Fitting data) (arpReply allocated net data) := by
  unfold arpReply
  refine write_goesOn (by simp; omega) fun d1 length1 _ => ?_
  refine read_goesOn (by omega) fun senderMac macLength => ?_
  refine write_goesOn (by omega) fun d2 length2 _ => ?_
  refine read_goesOn (by omega) fun senderIp ipLength => ?_
  refine write_goesOn (by omega) fun d3 length3 _ => ?_
  refine write_goesOn (by simp; omega) fun d4 length4 _ => ?_
  refine write_goesOn (by simp [myIp]; omega) fun d5 length5 _ => ?_
  refine read_goesOn (by omega) fun targetMac targetLength => ?_
  refine succeeds_netSendPacket (by unfold ethHeader arpHeader; omega) fun sent fits => succeeds_some.mpr ?_
  intro frame same
  rw [fits frame same, targetLength]
  unfold arpHeader
  simp only [List.length_cons, List.length_nil]
  omega

theorem arpLearn_within (opcode : 22 ≤ data.length) : Succeeds (Fitting data) (arpLearn net data) ↔
    (be16 data 20 = 2 → 32 ≤ data.length) := by
  unfold arpLearn
  rw [succeeds_readBe16, and_iff_right opcode]
  by_cases reply : be16 data 20 = 2
  · rw [if_pos reply, succeeds_readBytes, succeeds_readBytes]
    simp only [reply, true_implies]
    exact ⟨fun held => held.1, fun held => ⟨held, by omega, succeeds_some.mpr fitting_silent⟩⟩
  · rw [if_neg reply]
    exact iff_of_true (succeeds_some.mpr fitting_silent) fun held => absurd held reply

theorem arp_within : Succeeds (Fitting data) (handleArp allocated net data) ↔ ArpWithin data := by
  unfold handleArp ArpWithin
  rw [succeeds_readBe16]
  refine and_congr_right fun opcode => ?_
  by_cases request : be16 data 20 = 1
  · rw [if_pos request, succeeds_readBytes]
    simp only [request, true_implies]
    have noReply : ¬ (1 = 2) := by decide
    refine ⟨fun held => ⟨held.1, fun held => absurd held noReply⟩, fun held => ⟨held.1, ?_⟩⟩
    split
    · exact arpReply_within held.1
    · refine (arpLearn_within opcode).mpr fun reply => ?_
      rw [request] at reply
      cases reply
  · rw [if_neg request, arpLearn_within opcode]
    exact ⟨fun held => ⟨fun held => absurd held request, held⟩, fun held => held.2⟩

/-- The header of an echo request ends behind its length field: were it empty,
the type of the message would be its own first byte. -/
theorem request_behind (request : byteAt data (messageAt data) = 8) : 18 ≤ messageAt data := by
  by_contra early
  have empty : headerLength (byteAt data ethHeader) = 0 := by
    unfold messageAt headerLength ethHeader at *
    omega
  have first : messageAt data = ethHeader := by
    unfold messageAt
    rw [empty]
    rfl
  rw [← first, request] at empty
  revert empty
  decide

/-- The difference of the two lengths, taken as 32-bit numbers. -/
theorem message_inside {icmp ihl total size : Nat} (start : icmp = ethHeader + ihl) (short : size < 2 ^ 32)
    (small : ihl < 2 ^ 16 ∧ total < 2 ^ 16) :
    icmp + (total + 2 ^ 32 - ihl) % 2 ^ 32 ≤ size ↔ ihl ≤ total ∧ ethHeader + total ≤ size := by
  unfold ethHeader at *
  by_cases ordered : ihl ≤ total
  · have difference : (total + 2 ^ 32 - ihl) % 2 ^ 32 = total - ihl := by omega
    rw [difference]
    omega
  · have wrapped : (total + 2 ^ 32 - ihl) % 2 ^ 32 = total + 2 ^ 32 - ihl := by omega
    rw [wrapped]
    omega

theorem be16_lt (data : List UInt8) (off : Nat) : be16 data off < 2 ^ 16 := by
  have high := (byteAt data off).toNat_lt
  have low := (byteAt data (off + 1)).toNat_lt
  unfold be16
  omega

theorem headerLength_le (versionIhl : UInt8) : headerLength versionIhl ≤ 60 := by
  unfold headerLength
  omega

theorem be16_congr {left right : List UInt8} {off : Nat} (first : byteAt left off = byteAt right off)
    (second : byteAt left (off + 1) = byteAt right (off + 1)) : be16 left off = be16 right off := by
  unfold be16
  rw [first, second]

theorem icmpReply_within (header : 34 ≤ data.length) (short : data.length < 2 ^ 32)
    (inside : messageAt data < data.length) (request : byteAt data (messageAt data) = 8) :
    Succeeds (Fitting data) (icmpReply allocated net data (messageAt data)) ↔
      messageAt data + 4 ≤ data.length ∧ headerLength (byteAt data ethHeader) ≤ be16 data 16 ∧
        ethHeader + be16 data 16 ≤ data.length := by
  have behind := request_behind request
  have start : messageAt data = ethHeader + headerLength (byteAt data ethHeader) := rfl
  unfold icmpReply
  generalize messageAt data = icmp at *
  have first : icmp + [(0 : UInt8)].length ≤ data.length := inside
  rw [succeeds_writeBytes, and_iff_right first, succeeds_writeBytes]
  have length1 : (overwrite data icmp [0]).length = data.length := overwrite_length inside
  rw [length1, half_length]
  refine and_congr_right fun checksum => ?_
  have inside2 : icmp + 2 + (half 0).length ≤ (overwrite data icmp [0]).length := length1 ▸ checksum
  have length2 := (overwrite_length inside2).trans length1
  have same2 : ∀ i, i < icmp →
    byteAt (overwrite (overwrite data icmp [0]) (icmp + 2) (half 0)) i = byteAt data i := by
    intro i before
    rw [byteAt_overwrite_apart inside2 (Or.inl (by omega)), byteAt_overwrite_apart inside (Or.inl before)]
  generalize overwrite (overwrite data icmp [0]) (icmp + 2) (half 0) = d2 at *
  have total2 : be16 d2 16 = be16 data 16 := be16_congr (same2 16 (by omega)) (same2 17 (by omega))
  have version2 : byteAt d2 ethHeader = byteAt data ethHeader := same2 14 (by omega)
  rw [succeeds_readBe16, and_iff_right (by omega), succeeds_readByte, and_iff_right (by unfold ethHeader; omega),
    succeeds_readBytes, total2, version2, length2]
  have small := headerLength_le (byteAt data ethHeader)
  have bound := be16_lt data 16
  rw [message_inside start short ⟨by omega, bound⟩, and_assoc]
  refine and_congr_right fun ordered => ?_
  refine and_iff_left_of_imp fun whole => ?_
  refine write_goesOn (by rw [half_length]; omega) fun d3 length3 same3 => ?_
  refine read_goesOn (by omega) fun srcIp ipLength => ?_
  refine write_goesOn (by simp [myIp]; omega) fun d4 length4 same4 => ?_
  refine write_goesOn (by omega) fun d5 length5 same5 => ?_
  refine write_goesOn (by rw [half_length]; omega) fun d6 length6 same6 => ?_
  have same : ∀ i, i < 18 → byteAt d6 i = byteAt data i := by
    intro i before
    rw [same6 i (Or.inl (by omega)), same5 i (Or.inl (by omega)), same4 i (Or.inl (by omega)),
      same3 i (Or.inl (by omega)), same2 i (by omega)]
  rw [succeeds_readByte]
  refine ⟨by unfold ethHeader; omega, ?_⟩
  rw [same ethHeader (by decide)]
  refine read_goesOn (by omega) fun headerBytes _ => ?_
  refine write_goesOn (by rw [half_length]; omega) fun d7 length7 same7 => ?_
  refine read_goesOn (by omega) fun srcMac macLength => ?_
  rw [succeeds_readBe16]
  refine ⟨by omega, ?_⟩
  have total7 : be16 d7 16 = be16 data 16 := be16_congr
    ((same7 16 (Or.inl (by omega))).trans (same 16 (by omega)))
      ((same7 17 (Or.inl (by omega))).trans (same 17 (by omega)))
  rw [total7]
  refine succeeds_netSendPacket (by omega) fun sent fits => succeeds_some.mpr fun frame found => ?_
  rw [fits frame found, macLength]
  unfold ethHeader at whole
  simp only [List.length_cons, List.length_nil]
  omega

theorem icmp_within (header : 34 ≤ data.length) (short : data.length < 2 ^ 32) :
    Succeeds (Fitting data) (handleIcmp allocated net data) ↔ IcmpWithin data := by
  have first : ethHeader < data.length := by
    unfold ethHeader
    omega
  unfold handleIcmp IcmpWithin
  rw [succeeds_readByte, and_iff_right first]
  change Succeeds _ (readByte data (messageAt data) >>= _) ↔ _
  rw [succeeds_readByte]
  refine and_congr_right fun inside => ?_
  by_cases request : byteAt data (messageAt data) = 8
  · rw [if_pos request]
    refine (icmpReply_within header short inside request).trans ?_
    exact ⟨fun held _ => held, fun held => held request⟩
  · rw [if_neg request]
    refine iff_of_true ?_ fun held => absurd held request
    split
    · exact succeeds_some.mpr fitting_silent
    · exact succeeds_some.mpr fitting_silent

theorem ipv4_within (short : data.length < 2 ^ 32) :
    Succeeds (Fitting data) (handleIpv4 allocated net data) ↔ Ipv4Within net data := by
  unfold handleIpv4 Ipv4Within
  rw [succeeds_readBytes]
  refine and_congr_right fun header => ?_
  by_cases mine : (data.drop 30).take 4 = myIp
  · rw [if_pos mine, succeeds_readByte, and_iff_right (by omega)]
    simp only [mine, true_implies]
    by_cases icmp : byteAt data 23 = 1
    · have notUdp : byteAt data 23 ≠ 17 := by
        rw [icmp]
        decide
      rw [if_pos icmp, icmp_within header short]
      exact ⟨fun held => ⟨fun _ => held, fun udp => absurd udp notUdp⟩, fun held => held.1 icmp⟩
    · rw [if_neg icmp]
      by_cases udp : byteAt data 23 = 17
      · rw [if_pos udp, udp_within header]
        exact ⟨fun held => ⟨fun held => absurd held icmp, fun _ => held⟩, fun held => held.2 udp⟩
      · rw [if_neg udp]
        exact iff_of_true (succeeds_some.mpr fitting_silent) ⟨fun held => absurd held icmp,
          fun held => absurd held udp⟩
  · rw [if_neg mine]
    exact iff_of_true (succeeds_some.mpr fitting_silent) fun held => absurd held mine

/-- The handler stays in the frame, and sends nothing longer, exactly when the
frame holds what its headers claim. -/
theorem packet_within (short : data.length < 2 ^ 32) :
    Succeeds (Fitting data) (netHandlePacket allocated net data data.length) ↔ Within net data := by
  unfold netHandlePacket Within
  by_cases tiny : data.length < ethHeader
  · rw [if_pos tiny]
    exact iff_of_true (succeeds_some.mpr fitting_silent) fun held => absurd held (Nat.not_le.mpr tiny)
  · have header : 12 + 2 ≤ data.length := Nat.not_lt.mp tiny
    rw [if_neg tiny, succeeds_readBe16, and_iff_right header]
    simp only [Nat.not_lt.mp tiny, true_implies]
    by_cases arp : be16 data 12 = 0x0806
    · have notIp : be16 data 12 ≠ 0x0800 := by omega
      rw [if_pos arp, arp_within]
      exact ⟨fun held => ⟨fun _ => held, fun ip => absurd ip notIp⟩, fun held => held.1 arp⟩
    · rw [if_neg arp]
      by_cases ip : be16 data 12 = 0x0800
      · rw [if_pos ip, ipv4_within short]
        exact ⟨fun held => ⟨fun held => absurd held arp, fun _ => held⟩, fun held => held.2 ip⟩
      · rw [if_neg ip]
        exact iff_of_true (succeeds_some.mpr fitting_silent) ⟨fun held => absurd held arp,
          fun held => absurd held ip⟩

def quietNet : Net := ⟨Vector.replicate 6 0x52, [], false, false, false, [], 0x4D4F, 53123⟩

/-- An ARP request for 10.0.2.15, from 10.0.2.2. -/
def arpRequest : List UInt8 :=
  List.replicate 6 0xFF ++ List.replicate 6 0x55 ++ [0x08, 0x06, 0, 1, 0x08, 0, 6, 4, 0, 1] ++ List.replicate 6 0x55 ++
    [10, 0, 2, 2] ++ List.replicate 6 0 ++ [10, 0, 2, 15]

theorem arpRequest_within : Within quietNet arpRequest :=
  fun _ => ⟨fun _ => ⟨by decide, fun _ => by decide, fun reply => absurd reply (by decide)⟩,
    fun ip => absurd ip (by decide)⟩

theorem packet_within_request : Within quietNet arpRequest ∧
    Succeeds (Fitting arpRequest) (netHandlePacket true quietNet arpRequest arpRequest.length) ∧
    (netHandlePacket true quietNet arpRequest arpRequest.length).map (fun result => result.2.map List.length) =
      some (some 42) :=
  ⟨arpRequest_within, (packet_within (by decide)).mpr arpRequest_within, by decide⟩

/-- An echo request of 60 bytes whose header claims 1500. -/
def longPing : List UInt8 :=
  List.replicate 12 0x52 ++ [0x08, 0x00, 0x45, 0x00, 0x05, 0xDC, 0, 0, 0, 0, 64, 1, 0, 0, 10, 0, 2, 2, 10, 0, 2, 15,
    8, 0, 0, 0] ++ List.replicate 22 0

theorem ping_overruns : ¬ ∀ (allocated : Bool) (net : Net) (data : List UInt8), data.length < 2 ^ 32 →
    Succeeds (Fitting data) (netHandlePacket allocated net data data.length) := by
  intro all
  have overrun : netHandlePacket true quietNet longPing longPing.length = none := by decide
  have handled := all true quietNet longPing (by decide)
  rw [overrun] at handled
  exact succeeds_none handled

end

end MeowMeowOS.PacketBounds

import MeowMeowOS.ArpCache
import MeowMeowOS.Checksums
import MeowMeowOS.PacketBounds

/-! What the machine answers. Whoever sends it a whole echo request gets it back as a reply
with checksums that a receiver accepts, and whoever asks for its hardware address gets that. A
frame whose headers name neither of the two is never answered. -/
namespace MeowMeowOS.EchoAnswers
open ArpCache ByteBuffer Checksums Network PacketBounds

section
variable {data bytes left right : List UInt8} {off a n i : Nat}

/-! ## Windows of a buffer -/

/-- The bytes from an offset on. -/
def window (data : List UInt8) (a n : Nat) : List UInt8 := (data.drop a).take n

theorem window_length (inside : a + n ≤ data.length) : (window data a n).length = n := by
  rw [window, List.length_take, List.length_drop]
  omega

theorem byteAt_window (small : i < n) : byteAt (window data a n) i = byteAt data (a + i) := by
  unfold byteAt window
  rw [List.getD_eq_getElem?_getD, List.getD_eq_getElem?_getD, List.getElem?_take_of_lt small, List.getElem?_drop]

theorem byteAt_overwrite_inside (inside : off + bytes.length ≤ data.length) (above : off ≤ i)
    (below : i < off + bytes.length) :
    byteAt (overwrite data off bytes) i = byteAt bytes (i - off) := by
  have front : (data.take off).length = off := List.length_take_of_le (by omega)
  unfold byteAt overwrite
  rw [List.getD_eq_getElem?_getD, List.getD_eq_getElem?_getD, List.append_assoc, List.getElem?_append_right (by omega),
    front,
    List.getElem?_append_left (by omega)]

theorem bytes_ext (lengths : left.length = right.length) (same : ∀ i < left.length, byteAt left i = byteAt right i) :
    left = right := by
  refine List.ext_getElem lengths fun i inside inside' => ?_
  have byte := same i inside
  unfold byteAt at byte
  rw [List.getD_eq_getElem?_getD, List.getD_eq_getElem?_getD, List.getElem?_eq_getElem inside,
    List.getElem?_eq_getElem inside'] at byte
  exact byte

/-- A field that the window covers is overwritten in it. -/
theorem window_overwrite (inside : a + n ≤ data.length) (above : a ≤ off) (below : off + bytes.length ≤ a + n) :
    window (overwrite data off bytes) a n = overwrite (window data a n) (off - a) bytes := by
  have whole : (overwrite data off bytes).length = data.length := overwrite_length (by omega)
  have part : (window data a n).length = n := window_length inside
  have fits : off - a + bytes.length ≤ (window data a n).length := by omega
  refine bytes_ext ?_ fun i small => ?_
  · rw [window_length (by omega), overwrite_length fits, part]
  · rw [window_length (by omega)] at small
    rw [byteAt_window small]
    by_cases here : off ≤ a + i ∧ a + i < off + bytes.length
    · rw [byteAt_overwrite_inside (by omega) here.1 here.2, byteAt_overwrite_inside fits (by omega) (by omega),
        show a + i - off = i - (off - a) by omega]
    · rw [byteAt_overwrite_apart (by omega) (by omega), byteAt_overwrite_apart fits (by omega), byteAt_window small]

/-- A field outside of the window is not seen in it. -/
theorem window_apart (inside : off + bytes.length ≤ data.length) (within : a + n ≤ data.length)
    (apart : off + bytes.length ≤ a ∨ a + n ≤ off) : window (overwrite data off bytes) a n = window data a n := by
  have whole : (overwrite data off bytes).length = data.length := overwrite_length inside
  refine bytes_ext (by rw [window_length (by omega), window_length within]) fun i small => ?_
  rw [window_length (by omega)] at small
  rw [byteAt_window small, byteAt_window small, byteAt_overwrite_apart inside (by omega)]

theorem window_congr (inside : a + n ≤ left.length) (inside' : a + n ≤ right.length)
    (same : ∀ i, a ≤ i → i < a + n → byteAt left i = byteAt right i) : window left a n = window right a n := by
  refine bytes_ext (by rw [window_length inside, window_length inside']) fun i small => ?_
  rw [window_length inside] at small
  rw [byteAt_window small, byteAt_window small, same (a + i) (by omega) (by omega)]

/-- The last of two values of a field stands. -/
theorem overwrite_overwrite {bytes' : List UInt8} (inside : off + bytes.length ≤ data.length)
    (lengths : bytes'.length = bytes.length) :
    overwrite (overwrite data off bytes) off bytes' = overwrite data off bytes' := by
  have whole : (overwrite data off bytes).length = data.length := overwrite_length inside
  refine bytes_ext ?_ fun i small => ?_
  · rw [overwrite_length (by omega), whole, overwrite_length (by omega)]
  · by_cases here : off ≤ i ∧ i < off + bytes'.length
    · rw [byteAt_overwrite_inside (by omega) here.1 here.2, byteAt_overwrite_inside (by omega) here.1 here.2]
    · rw [byteAt_overwrite_apart (by omega) (by omega), byteAt_overwrite_apart inside (by omega),
        byteAt_overwrite_apart (by omega) (by omega)]

theorem window_split (data : List UInt8) (a n m : Nat) :
    window data a (n + m) = window data a n ++ window data (a + n) m := by
  unfold window
  rw [List.take_add, List.drop_drop]

theorem window_middle {front middle rest : List UInt8} (start : front.length = a) (size : middle.length = n) :
    window (front ++ (middle ++ rest)) a n = middle := by
  unfold window
  rw [List.drop_left' start, List.take_left' size]

theorem be16_window (data : List UInt8) (a : Nat) : be16 (window data a 2) 0 = be16 data a := by
  unfold be16
  rw [byteAt_window (Nat.succ_pos 1), byteAt_window (Nat.lt_succ_self 1)]
  rfl

theorem window_same (inside : off + bytes.length ≤ data.length) (size : bytes.length = n) :
    window (overwrite data off bytes) off n = bytes := by
  have whole : (overwrite data off bytes).length = data.length := overwrite_length inside
  subst size
  refine bytes_ext (window_length (by omega)) fun i small => ?_
  rw [window_length (by omega)] at small
  rw [byteAt_window small, byteAt_overwrite_inside inside (by omega) (by omega), Nat.add_sub_cancel_left]

end

/-! ## Requests and answers -/

/-- The length of the IPv4 header of a frame. -/
abbrev ihl (data : List UInt8) : Nat := headerLength (byteAt data ethHeader)

/-- An echo request to this machine, wholly in its frame. -/
structure EchoAsked (data : List UInt8) : Prop where
  ethertype : be16 data 12 = 0x0800
  version : 20 ≤ ihl data
  message : ihl data + 8 ≤ be16 data 16
  whole : ethHeader + be16 data 16 ≤ data.length
  protocol : byteAt data 23 = 1
  destIp : window data 30 4 = myIp
  request : byteAt data (messageAt data) = 8

/-- The fields that differ in the reply: the checksum and the addresses of the header, the
type and the checksum of the message. -/
def changed (data : List UInt8) (i : Nat) : Prop :=
  24 ≤ i ∧ i < 34 ∨ i = messageAt data ∨ i = messageAt data + 2 ∨ i = messageAt data + 3

structure EchoAnswer (net : Net) (data reply : List UInt8) : Prop where
  length : reply.length = ethHeader + be16 data 16
  destMac : window reply 0 6 = window data 6 6
  srcMac : window reply 6 6 = net.myMac.toList
  ethertype : be16 reply 12 = 0x0800
  srcIp : window reply 26 4 = myIp
  destIp : window reply 30 4 = window data 26 4
  type : byteAt reply (messageAt data) = 0
  headerChecksum : Verifies (window reply ethHeader (ihl data))
  messageChecksum : Verifies (reply.drop (messageAt data))
  rest : ∀ i, ethHeader ≤ i → i < reply.length → ¬ changed data i → byteAt reply i = byteAt data i

/-- A request for the hardware address of this machine. -/
structure ArpAsked (data : List UInt8) : Prop where
  ethertype : be16 data 12 = 0x0806
  opcode : be16 data 20 = 1
  targetIp : window data 38 4 = myIp
  whole : ethHeader + arpHeader ≤ data.length

def arpAnswer (net : Net) (data : List UInt8) : List UInt8 :=
  window data 22 6 ++ net.myMac.toList ++ [0x08, 0x06] ++ window data 14 6 ++ [0, 2] ++ net.myMac.toList ++ myIp ++
    window data 22 6 ++ window data 28 4

section
variable {net net' : Net} {data reply : List UInt8}

/-- The message with no checksum and the new type, and the buffer with its checksum. -/
def cleared (data : List UInt8) : List UInt8 :=
  overwrite (overwrite data (messageAt data) [0]) (messageAt data + 2) (half 0)

def summed (data : List UInt8) : List UInt8 :=
  overwrite (cleared data) (messageAt data + 2)
    (half (netChecksum (window (cleared data) (messageAt data) (be16 data 16 - ihl data))))

/-- The header with the addresses swapped and no checksum, and the buffer as it is sent. -/
def swapped (data : List UInt8) : List UInt8 :=
  overwrite (overwrite (overwrite (summed data) 26 myIp) 30 (window data 26 4)) 24 (half 0)

def answered (data : List UInt8) : List UInt8 :=
  overwrite (swapped data) 24 (half (netChecksum (window (swapped data) ethHeader (ihl data))))

theorem EchoAsked.place (asked : EchoAsked data) :
    34 ≤ messageAt data ∧ messageAt data + 8 ≤ data.length ∧ messageAt data = 14 + ihl data := by
  have version := asked.version
  have message := asked.message
  have whole := asked.whole
  have start : messageAt data = 14 + ihl data := rfl
  unfold ethHeader at whole
  omega

theorem cleared_length (asked : EchoAsked data) : (cleared data).length = data.length := by
  obtain ⟨-, place, -⟩ := asked.place
  have type : (overwrite data (messageAt data) [0]).length = data.length := overwrite_length (by simp; omega)
  unfold cleared
  rw [overwrite_length (by rw [half_length]; omega), type]

theorem summed_length (asked : EchoAsked data) : (summed data).length = data.length := by
  have length := cleared_length asked
  obtain ⟨-, place, -⟩ := asked.place
  unfold summed
  rw [overwrite_length (by rw [half_length]; omega), length]

theorem summed_before (asked : EchoAsked data) {i : Nat} (before : i < messageAt data) :
    byteAt (summed data) i = byteAt data i := by
  have length := cleared_length asked
  obtain ⟨-, place, -⟩ := asked.place
  have type : (overwrite data (messageAt data) [0]).length = data.length := overwrite_length (by simp; omega)
  unfold summed
  rw [byteAt_overwrite_apart (by rw [half_length]; omega) (by omega)]
  unfold cleared
  rw [byteAt_overwrite_apart (by rw [half_length]; omega) (by omega),
    byteAt_overwrite_apart (by simp; omega) (by omega)]

theorem addresses_length (asked : EchoAsked data) :
    (overwrite (summed data) 26 myIp).length = data.length ∧
      (overwrite (overwrite (summed data) 26 myIp) 30 (window data 26 4)).length = data.length := by
  have length := summed_length asked
  obtain ⟨header, place, -⟩ := asked.place
  have srcIp : (window data 26 4).length = 4 := window_length (by omega)
  have first : (overwrite (summed data) 26 myIp).length = data.length := by
    rw [overwrite_length (by simp [myIp]; omega), length]
  exact ⟨first, by rw [overwrite_length (by omega), first]⟩

theorem swapped_length (asked : EchoAsked data) : (swapped data).length = data.length := by
  obtain ⟨first, second⟩ := addresses_length asked
  obtain ⟨header, place, -⟩ := asked.place
  unfold swapped
  rw [overwrite_length (by rw [half_length]; omega), second]

theorem swapped_outside (asked : EchoAsked data) {i : Nat} (outside : i < 24 ∨ 34 ≤ i) :
    byteAt (swapped data) i = byteAt (summed data) i := by
  obtain ⟨first, second⟩ := addresses_length asked
  have length := summed_length asked
  obtain ⟨header, place, -⟩ := asked.place
  have srcIp : (window data 26 4).length = 4 := window_length (by omega)
  have four : myIp.length = 4 := rfl
  unfold swapped
  rw [byteAt_overwrite_apart (by rw [half_length]; omega) (by rw [half_length]; omega),
    byteAt_overwrite_apart (by omega) (by omega), byteAt_overwrite_apart (by omega) (by omega)]

theorem answered_length (asked : EchoAsked data) : (answered data).length = data.length := by
  have length := swapped_length asked
  obtain ⟨header, place, -⟩ := asked.place
  unfold answered
  rw [overwrite_length (by rw [half_length]; omega), length]

theorem answered_apart (asked : EchoAsked data) {i : Nat} (apart : i < 24 ∨ 26 ≤ i) :
    byteAt (answered data) i = byteAt (swapped data) i := by
  have length := swapped_length asked
  obtain ⟨header, place, -⟩ := asked.place
  unfold answered
  rw [byteAt_overwrite_apart (by rw [half_length]; omega) (by rw [half_length]; omega)]

/-- The frame that goes back. -/
def echoReply (net : Net) (data : List UInt8) : List UInt8 :=
  window data 6 6 ++ net.myMac.toList ++ [0x08, 0x00] ++ window (answered data) ethHeader (be16 data 16)

theorem icmpReply_answered (asked : EchoAsked data) :
    Succeeds (· = (net, some (echoReply net data))) (icmpReply true net data (messageAt data)) := by
  obtain ⟨header, place, start⟩ := asked.place
  have version := asked.version
  have ordered := asked.message
  have whole : 14 + be16 data 16 ≤ data.length := asked.whole
  have bound := be16_lt data 16
  have headerBytes : headerLength (byteAt data ethHeader) = ihl data := rfl
  have type : (overwrite data (messageAt data) [0]).length = data.length := overwrite_length (by simp; omega)
  have before : ∀ i < messageAt data, byteAt (cleared data) i = byteAt data i := by
    intro i early
    unfold cleared
    rw [byteAt_overwrite_apart (by rw [half_length]; omega) (by omega),
      byteAt_overwrite_apart (by simp; omega) (by omega)]
  unfold icmpReply
  rw [succeeds_writeBytes]
  refine ⟨by simp; omega, ?_⟩
  rw [succeeds_writeBytes]
  refine ⟨by rw [half_length]; omega, ?_⟩
  rw [show overwrite (overwrite data (messageAt data) [0]) (messageAt data + 2) (half 0) = cleared data from rfl]
  rw [succeeds_readBe16]
  refine ⟨by rw [cleared_length asked]; omega, ?_⟩
  rw [succeeds_readByte]
  refine ⟨by rw [cleared_length asked, ethHeader]; omega, ?_⟩
  rw [before ethHeader (by rw [ethHeader]; omega), be16_congr (before 16 (by omega)) (before 17 (by omega)),
    headerBytes, show (be16 data 16 + 2 ^ 32 - ihl data) % 2 ^ 32 = be16 data 16 - ihl data by omega]
  rw [succeeds_readBytes]
  refine ⟨by rw [cleared_length asked]; omega, ?_⟩
  rw [succeeds_writeBytes]
  refine ⟨by rw [cleared_length asked, half_length]; omega, ?_⟩
  rw [show overwrite (cleared data) (messageAt data + 2) (half (netChecksum (((cleared data).drop (messageAt data)).take
    (be16 data 16 - ihl data)))) = summed data from rfl]
  rw [succeeds_readBytes]
  refine ⟨by rw [summed_length asked]; omega, ?_⟩
  have srcIp : window (summed data) 26 4 = window data 26 4 :=
    window_congr (by rw [summed_length asked]; omega) (by omega) fun i _ below => summed_before asked (by omega)
  rw [show ((summed data).drop 26).take 4 = window data 26 4 from srcIp]
  obtain ⟨first, second⟩ := addresses_length asked
  have four : (window data 26 4).length = 4 := window_length (by omega)
  rw [succeeds_writeBytes]
  refine ⟨by rw [summed_length asked]; simp [myIp]; omega, ?_⟩
  rw [succeeds_writeBytes]
  refine ⟨by omega, ?_⟩
  rw [succeeds_writeBytes]
  refine ⟨by rw [half_length]; omega, ?_⟩
  rw [show overwrite (overwrite (overwrite (summed data) 26 myIp) 30 (window data 26 4)) 24 (half 0) =
    swapped data from rfl]
  have early : ∀ i < 24, byteAt (swapped data) i = byteAt data i := fun i small =>
    (swapped_outside asked (Or.inl small)).trans (summed_before asked (by omega))
  rw [succeeds_readByte]
  refine ⟨by rw [swapped_length asked, ethHeader]; omega, ?_⟩
  rw [early ethHeader (by decide), headerBytes, succeeds_readBytes]
  refine ⟨by rw [swapped_length asked, ethHeader]; omega, ?_⟩
  rw [succeeds_writeBytes]
  refine ⟨by rw [swapped_length asked, half_length]; omega, ?_⟩
  rw [show overwrite (swapped data) 24 (half (netChecksum (((swapped data).drop ethHeader).take (ihl data)))) =
    answered data from rfl]
  have early' : ∀ i < 24, byteAt (answered data) i = byteAt data i := fun i small =>
    (answered_apart asked (Or.inl small)).trans (early i small)
  rw [succeeds_readBytes]
  refine ⟨by rw [answered_length asked]; omega, ?_⟩
  rw [succeeds_readBe16]
  refine ⟨by rw [answered_length asked]; omega, ?_⟩
  have srcMac : window (answered data) 6 6 = window data 6 6 :=
    window_congr (by rw [answered_length asked]; omega) (by omega) fun i _ below => early' i (by omega)
  rw [show ((answered data).drop 6).take 6 = window data 6 6 from srcMac,
    be16_congr (early' 16 (by decide)) (early' 17 (by decide))]
  unfold netSendPacket
  rw [if_pos rfl, readBytes_inside (by rw [answered_length asked]; exact whole)]
  exact ⟨_, rfl, rfl⟩

/-! ## The reply is right -/

theorem headerChecksum_verifies (asked : EchoAsked data) : Verifies (window (answered data) ethHeader (ihl data)) := by
  obtain ⟨header, place, start⟩ := asked.place
  obtain ⟨-, second⟩ := addresses_length asked
  have small : ihl data ≤ 60 := headerLength_le (byteAt data ethHeader)
  have inside : ethHeader + ihl data ≤ data.length := by
    rw [ethHeader]
    omega
  unfold answered swapped
  generalize overwrite (overwrite (summed data) 26 myIp) 30 (window data 26 4) = d at *
  have field : ∀ v, window (overwrite d 24 (half v)) ethHeader (ihl data) =
    overwrite (window d ethHeader (ihl data)) 10 (half v) :=
    fun v => window_overwrite (by omega) (by decide) (by rw [half_length, ethHeader]; omega)
  rw [overwrite_overwrite (by rw [half_length]; omega) (by rw [half_length, half_length]), field, field]
  have length : (window d ethHeader (ihl data)).length = ihl data := window_length (by omega)
  exact verifies_field (by omega) rfl (by omega)

theorem messageChecksum_verifies (asked : EchoAsked data) :
    Verifies (window (answered data) (messageAt data) (be16 data 16 - ihl data)) := by
  obtain ⟨header, place, start⟩ := asked.place
  have ordered := asked.message
  have whole : 14 + be16 data 16 ≤ data.length := asked.whole
  have bound := be16_lt data 16
  have type : (overwrite data (messageAt data) [0]).length = data.length := overwrite_length (by simp; omega)
  -- the header is not seen in the message
  have message : window (answered data) (messageAt data) (be16 data 16 - ihl data) =
      window (summed data) (messageAt data) (be16 data 16 - ihl data) :=
    window_congr (by rw [answered_length asked]; omega) (by rw [summed_length asked]; omega) fun i above _ =>
      (answered_apart asked (by omega)).trans (swapped_outside asked (by omega))
  rw [message]
  unfold summed cleared
  generalize overwrite data (messageAt data) [0] = d at *
  have field : ∀ v, window (overwrite d (messageAt data + 2) (half v)) (messageAt data) (be16 data 16 - ihl data) =
      overwrite (window d (messageAt data) (be16 data 16 - ihl data)) 2 (half v) := by
    intro v
    rw [window_overwrite (by omega) (by omega) (by rw [half_length]; omega), Nat.add_sub_cancel_left]
  rw [overwrite_overwrite (by rw [half_length]; omega) (by rw [half_length, half_length]), field, field]
  have length : (window d (messageAt data) (be16 data 16 - ihl data)).length = be16 data 16 - ihl data :=
    window_length (by omega)
  exact verifies_field (by omega) rfl (by omega)

/-- The type of the message, and what follows its checksum. -/
theorem summed_message (asked : EchoAsked data) {i : Nat} (behind : messageAt data ≤ i)
    (apart : i ≠ messageAt data + 2 ∧ i ≠ messageAt data + 3) :
    byteAt (summed data) i = if i = messageAt data then 0 else byteAt data i := by
  obtain ⟨header, place, start⟩ := asked.place
  have length := cleared_length asked
  have type : (overwrite data (messageAt data) [0]).length = data.length := overwrite_length (by simp; omega)
  unfold summed
  rw [byteAt_overwrite_apart (by rw [half_length]; omega) (by rw [half_length]; omega)]
  unfold cleared
  rw [byteAt_overwrite_apart (by rw [half_length]; omega) (by rw [half_length]; omega)]
  split
  · rename_i here
    subst here
    rw [byteAt_overwrite_inside (by simp; omega) (Nat.le_refl _) (by simp), Nat.sub_self]
    rfl
  · exact byteAt_overwrite_apart (by simp; omega) (by simp; omega)

theorem answered_addresses (asked : EchoAsked data) :
    window (answered data) 26 4 = myIp ∧ window (answered data) 30 4 = window data 26 4 := by
  obtain ⟨header, place, start⟩ := asked.place
  obtain ⟨first, second⟩ := addresses_length asked
  have swappedLength := swapped_length asked
  have length := summed_length asked
  have four : (window data 26 4).length = 4 := window_length (by omega)
  have four' : myIp.length = 4 := rfl
  have kept : ∀ a, 26 ≤ a → a + 4 ≤ data.length → window (answered data) a 4 =
      window (overwrite (overwrite (summed data) 26 myIp) 30 (window data 26 4)) a 4 := by
    intro a behind inside
    unfold answered
    rw [window_apart (by rw [half_length]; omega) (by omega) (by rw [half_length]; omega)]
    unfold swapped
    rw [window_apart (by rw [half_length]; omega) (by omega) (by rw [half_length]; omega)]
  constructor
  · rw [kept 26 (Nat.le_refl _) (by omega), window_apart (by omega) (by omega) (by omega)]
    exact window_same (by omega) rfl
  · rw [kept 30 (by omega) (by omega)]
    exact window_same (by omega) four

theorem echoReply_answer (asked : EchoAsked data) : EchoAnswer net data (echoReply net data) := by
  obtain ⟨header, place, start⟩ := asked.place
  have ordered := asked.message
  have whole : 14 + be16 data 16 ≤ data.length := asked.whole
  have length := answered_length asked
  have srcMac : (window data 6 6).length = 6 := window_length (by omega)
  have myMac : net.myMac.toList.length = 6 := net.myMac.length_toList
  have front : (window data 6 6 ++ net.myMac.toList ++ [0x08, 0x00]).length = 14 := by
    simp only [List.length_append, srcMac, myMac, List.length_cons, List.length_nil]
  have packet : (window (answered data) 14 (be16 data 16)).length = be16 data 16 := window_length (by omega)
  have shape : echoReply net data = window data 6 6 ++ net.myMac.toList ++ [0x08, 0x00] ++
      window (answered data) 14 (be16 data 16) := rfl
  have total : (echoReply net data).length = 14 + be16 data 16 := by rw [shape, List.length_append, front, packet]
  have part : ∀ a n, 14 ≤ a → a + n ≤ 14 + be16 data 16 →
    window (echoReply net data) a n = window (answered data) a n := by
    intro a n behind small
    refine window_congr (by omega) (by omega) fun i above below => ?_
    have byte : byteAt (window (echoReply net data) 14 (be16 data 16)) (i - 14) =
      byteAt (echoReply net data) (14 + (i - 14)) :=
      byteAt_window (by omega)
    have same : window (echoReply net data) 14 (be16 data 16) = window (answered data) 14 (be16 data 16) := by
      rw [shape, ← List.append_nil (_ ++ window (answered data) 14 (be16 data 16)), List.append_assoc]
      exact window_middle front packet
    rw [same, byteAt_window (by omega), Nat.add_sub_of_le (by omega)] at byte
    exact byte.symm
  have byte : ∀ i, 14 ≤ i → i < 14 + be16 data 16 →
    byteAt (echoReply net data) i = byteAt (answered data) i := by
    intro i behind small
    have one := part i 1 behind (by omega)
    have left : byteAt (window (echoReply net data) i 1) 0 = byteAt (echoReply net data) (i + 0) :=
      byteAt_window Nat.one_pos
    rw [one, byteAt_window Nat.one_pos] at left
    exact left.symm
  refine ⟨total, ?_, ?_, ?_, ?_, ?_, ?_, ?_, ?_, ?_⟩
  · rw [shape, List.append_assoc, List.append_assoc]
    exact window_middle (List.length_nil : ([] : List UInt8).length = 0) srcMac
  · rw [shape, List.append_assoc, List.append_assoc]
    exact window_middle srcMac myMac
  · have macs : (window data 6 6 ++ net.myMac.toList).length = 12 := by simp only [List.length_append, srcMac, myMac]
    have type : window (echoReply net data) 12 2 = [0x08, 0x00] := by
      rw [shape, List.append_assoc]
      exact window_middle macs rfl
    rw [← be16_window, type]
    rfl
  · rw [part 26 4 (by omega) (by omega)]
    exact (answered_addresses asked).1
  · rw [part 30 4 (by omega) (by omega)]
    exact (answered_addresses asked).2
  · rw [byte _ (by omega) (by omega), answered_apart asked (by omega), swapped_outside asked (by omega),
      summed_message asked (Nat.le_refl _) (by omega), if_pos rfl]
  · rw [part ethHeader (ihl data) (Nat.le_refl _) (by rw [ethHeader]; omega)]
    exact headerChecksum_verifies asked
  · have tail : (echoReply net data).drop (messageAt data) =
      window (echoReply net data) (messageAt data) (be16 data 16 - ihl data) :=
      (List.take_of_length_le (by rw [List.length_drop]; omega)).symm
    rw [tail, part _ _ (by omega) (by omega)]
    exact messageChecksum_verifies asked
  · intro i behind small same
    unfold changed at same
    have behind' : 14 ≤ i := behind
    rw [byte i behind' (by omega), answered_apart asked (by omega), swapped_outside asked (by omega)]
    by_cases before : i < messageAt data
    · exact summed_before asked before
    · rw [summed_message asked (by omega) (by omega), if_neg (by omega)]

theorem echo_answered (asked : EchoAsked data) :
    netHandlePacket true net data data.length = some (net, some (echoReply net data)) := by
  obtain ⟨header, place, start⟩ := asked.place
  have version := asked.version
  have type : ¬ data.length < ethHeader := by
    rw [ethHeader]
    omega
  have run : Succeeds (· = (net, some (echoReply net data))) (netHandlePacket true net data data.length) := by
    unfold netHandlePacket
    rw [if_neg type, succeeds_readBe16]
    refine ⟨by omega, ?_⟩
    rw [asked.ethertype, if_neg (by decide), if_pos rfl]
    unfold handleIpv4
    rw [succeeds_readBytes]
    refine ⟨by omega, ?_⟩
    rw [if_pos (show (data.drop 30).take 4 = myIp from asked.destIp), succeeds_readByte]
    refine ⟨by omega, ?_⟩
    rw [asked.protocol, if_pos rfl]
    unfold handleIcmp
    rw [succeeds_readByte]
    refine ⟨by rw [ethHeader]; omega, ?_⟩
    change Succeeds _ (readByte data (messageAt data) >>= _)
    rw [succeeds_readByte]
    refine ⟨by omega, ?_⟩
    rw [asked.request, if_pos rfl]
    exact icmpReply_answered asked
  obtain ⟨result, found, rfl⟩ := run
  exact found

/-! ## Hardware addresses -/

theorem arpReply_answered (whole : 42 ≤ data.length) :
    Succeeds (· = (net, some (arpAnswer net data))) (arpReply true net data) := by
  have mac : (window data 22 6).length = 6 := window_length (by omega)
  have ip : (window data 28 4).length = 4 := window_length (by omega)
  have myMac : net.myMac.toList.length = 6 := net.myMac.length_toList
  have four : myIp.length = 4 := rfl
  have two : ([0, 2] : List UInt8).length = 2 := rfl
  unfold arpReply
  rw [succeeds_writeBytes]
  refine ⟨by omega, ?_⟩
  obtain ⟨d1, same1⟩ : ∃ d, d = overwrite data 20 [0, 2] := ⟨_, rfl⟩
  have length1 : d1.length = data.length := same1 ▸ overwrite_length (by omega)
  rw [← same1, succeeds_readBytes]
  refine ⟨by omega, ?_⟩
  have senderMac : window d1 22 6 = window data 22 6 := same1 ▸ window_apart (by omega) (by omega) (by omega)
  rw [show (d1.drop 22).take 6 = window data 22 6 from senderMac, succeeds_writeBytes]
  refine ⟨by omega, ?_⟩
  obtain ⟨d2, same2⟩ : ∃ d, d = overwrite d1 32 (window data 22 6) := ⟨_, rfl⟩
  have length2 : d2.length = data.length := same2 ▸ (overwrite_length (by omega)).trans length1
  rw [← same2, succeeds_readBytes]
  refine ⟨by omega, ?_⟩
  have senderIp : window d2 28 4 = window data 28 4 := by
    rw [same2, window_apart (by omega) (by omega) (by omega), same1, window_apart (by omega) (by omega) (by omega)]
  rw [show (d2.drop 28).take 4 = window data 28 4 from senderIp, succeeds_writeBytes]
  refine ⟨by omega, ?_⟩
  obtain ⟨d3, same3⟩ : ∃ d, d = overwrite d2 38 (window data 28 4) := ⟨_, rfl⟩
  have length3 : d3.length = data.length := same3 ▸ (overwrite_length (by omega)).trans length2
  rw [← same3, succeeds_writeBytes]
  refine ⟨by omega, ?_⟩
  obtain ⟨d4, same4⟩ : ∃ d, d = overwrite d3 22 net.myMac.toList := ⟨_, rfl⟩
  have length4 : d4.length = data.length := same4 ▸ (overwrite_length (by omega)).trans length3
  rw [← same4, succeeds_writeBytes]
  refine ⟨by omega, ?_⟩
  obtain ⟨d5, same5⟩ : ∃ d, d = overwrite d4 28 myIp := ⟨_, rfl⟩
  have length5 : d5.length = data.length := same5 ▸ (overwrite_length (by omega)).trans length4
  rw [← same5, succeeds_readBytes]
  refine ⟨by omega, ?_⟩
  -- the fields of the answer, each where it was written last
  have fixed : window d5 14 6 = window data 14 6 := by
    rw [same5, window_apart (by omega) (by omega) (by omega), same4, window_apart (by omega) (by omega) (by omega),
      same3,
      window_apart (by omega) (by omega) (by omega), same2, window_apart (by omega) (by omega) (by omega), same1,
      window_apart (by omega) (by omega) (by omega)]
  have opcode : window d5 20 2 = [0, 2] := by
    rw [same5, window_apart (by omega) (by omega) (by omega), same4, window_apart (by omega) (by omega) (by omega),
      same3,
      window_apart (by omega) (by omega) (by omega), same2, window_apart (by omega) (by omega) (by omega), same1]
    exact window_same (by omega) rfl
  have ownMac : window d5 22 6 = net.myMac.toList := by
    rw [same5, window_apart (by omega) (by omega) (by omega), same4]
    exact window_same (by omega) myMac
  have ownIp : window d5 28 4 = myIp := by
    rw [same5]
    exact window_same (by omega) rfl
  have targetMac : window d5 32 6 = window data 22 6 := by
    rw [same5, window_apart (by omega) (by omega) (by omega), same4, window_apart (by omega) (by omega) (by omega),
      same3,
      window_apart (by omega) (by omega) (by omega), same2]
    exact window_same (by omega) mac
  have targetIp : window d5 38 4 = window data 28 4 := by
    rw [same5, window_apart (by omega) (by omega) (by omega), same4, window_apart (by omega) (by omega) (by omega),
      same3]
    exact window_same (by omega) ip
  have message : window d5 14 28 = window data 14 6 ++ [0, 2] ++ net.myMac.toList ++ myIp ++ window data 22 6 ++
      window data 28 4 := by
    rw [window_split d5 14 24 4, window_split d5 14 18 6, window_split d5 14 14 4, window_split d5 14 8 6,
      window_split d5 14 6 2, fixed, opcode, ownMac, ownIp, targetMac, targetIp]
  rw [show (d5.drop 32).take 6 = window data 22 6 from targetMac]
  unfold netSendPacket
  rw [if_pos rfl, readBytes_inside (by rw [length5]; exact whole),
    show (d5.drop ethHeader).take arpHeader = _ from message]
  refine ⟨_, rfl, ?_⟩
  simp only [arpAnswer, List.append_assoc]

theorem arp_answered (asked : ArpAsked data) :
    netHandlePacket true net data data.length = some (net, some (arpAnswer net data)) := by
  have whole : 42 ≤ data.length := asked.whole
  have run : Succeeds (· = (net, some (arpAnswer net data))) (netHandlePacket true net data data.length) := by
    unfold netHandlePacket
    rw [if_neg (by rw [ethHeader]; omega), succeeds_readBe16]
    refine ⟨by omega, ?_⟩
    rw [asked.ethertype, if_pos rfl]
    unfold handleArp
    rw [succeeds_readBe16]
    refine ⟨by omega, ?_⟩
    rw [asked.opcode, if_pos rfl, succeeds_readBytes]
    refine ⟨by omega, ?_⟩
    rw [if_pos (show (data.drop 38).take 4 = myIp from asked.targetIp)]
    exact arpReply_answered whole
  obtain ⟨result, found, rfl⟩ := run
  exact found

/-- Whoever takes the answer resolves the address of this machine, if its cache has room. -/
theorem arp_learnt (asked : ArpAsked data) (peer : Net) (room : arpLookup peer myIp ≠ none ∨ ¬ Full peer) :
    ∃ after, netHandlePacket true peer (arpAnswer net data) (arpAnswer net data).length = some (after, none) ∧
      arpLookup after myIp = some net.myMac.toList := by
  have whole : 42 ≤ data.length := asked.whole
  have mac : (window data 22 6).length = 6 := window_length (by omega)
  have fixed : (window data 14 6).length = 6 := window_length (by omega)
  have ip : (window data 28 4).length = 4 := window_length (by omega)
  have myMac : net.myMac.toList.length = 6 := net.myMac.length_toList
  have four : myIp.length = 4 := rfl
  have length : (arpAnswer net data).length = 42 := by
    simp only [arpAnswer, List.length_append, mac, fixed, ip, myMac, four, List.length_cons, List.length_nil]
  have type : window (arpAnswer net data) 12 2 = [0x08, 0x06] := by
    have shape : arpAnswer net data = (window data 22 6 ++ net.myMac.toList) ++ ([0x08, 0x06] ++ (window data 14 6 ++
        ([0, 2] ++ (net.myMac.toList ++ (myIp ++ (window data 22 6 ++ window data 28 4)))))) := by
      simp only [arpAnswer, List.append_assoc]
    rw [shape]
    exact window_middle (by simp only [List.length_append, mac, myMac]) rfl
  have opcode : window (arpAnswer net data) 20 2 = [0, 2] := by
    have shape : arpAnswer net data = (window data 22 6 ++ net.myMac.toList ++ [0x08, 0x06] ++ window data 14 6) ++
        ([0, 2] ++ (net.myMac.toList ++ (myIp ++ (window data 22 6 ++ window data 28 4)))) := by
      simp only [arpAnswer, List.append_assoc]
    rw [shape]
    exact window_middle (by simp only [List.length_append, mac, myMac, fixed, List.length_cons, List.length_nil]) rfl
  have senderMac : window (arpAnswer net data) 22 6 = net.myMac.toList := by
    have shape : arpAnswer net data = (window data 22 6 ++ net.myMac.toList ++ [0x08, 0x06] ++ window data 14 6 ++
      [0, 2]) ++
        (net.myMac.toList ++ (myIp ++ (window data 22 6 ++ window data 28 4))) := by
      simp only [arpAnswer, List.append_assoc]
    rw [shape]
    exact window_middle (by simp only [List.length_append, mac, myMac, fixed, List.length_cons, List.length_nil]) myMac
  have senderIp : window (arpAnswer net data) 28 4 = myIp := by
    have shape : arpAnswer net data = (window data 22 6 ++ net.myMac.toList ++ [0x08, 0x06] ++ window data 14 6 ++
      [0, 2] ++
        net.myMac.toList) ++ (myIp ++ (window data 22 6 ++ window data 28 4)) := by
      simp only [arpAnswer, List.append_assoc]
    rw [shape]
    exact window_middle (by simp only [List.length_append, mac, myMac, fixed, List.length_cons, List.length_nil]) rfl
  have long : 32 ≤ (arpAnswer net data).length := by omega
  have updated :=
    reply_updates true peer long (by rw [← be16_window, type]; rfl) (by rw [← be16_window, opcode]; rfl)
  rw [show ((arpAnswer net data).drop 28).take 4 = myIp from senderIp,
    show ((arpAnswer net data).drop 22).take 6 = net.myMac.toList from senderMac] at updated
  refine ⟨_, updated, ?_⟩
  rcases lookup_updateEntry_same myIp net.myMac.toList peer.arpCache with ⟨found, -⟩ | ⟨-, unknown, full⟩
  · exact found
  · exact absurd full (room.resolve_left (not_not.mpr unknown))

/-! ## Everything else -/

/-- The headers name an ARP request or an echo request to this machine, whatever follows them. -/
def NamesRequest (data : List UInt8) : Prop :=
  be16 data 12 = 0x0806 ∧ be16 data 20 = 1 ∧ window data 38 4 = myIp ∨
    be16 data 12 = 0x0800 ∧ window data 30 4 = myIp ∧ byteAt data 23 = 1 ∧ byteAt data (messageAt data) = 8

/-- Only frames with such headers are answered. -/
theorem answered_asked {allocated : Bool} {len : Nat}
    (sent : netHandlePacket allocated net data len = some (net', some reply)) :
    NamesRequest data := by
  have silent : ∀ {r : Net}, ¬ some (r, none) = some (net', some reply) := by
    intro r same
    cases same
  have learning : ¬ arpLearn net data = some (net', some reply) := by
    intro learnt
    simp only [arpLearn, Option.bind_eq_bind, Option.bind_eq_some_iff] at learnt
    obtain ⟨opcode, -, learnt⟩ := learnt
    split at learnt
    · simp only [Option.bind_eq_some_iff] at learnt
      obtain ⟨ip, -, mac, -, same⟩ := learnt
      exact silent same
    · exact silent learnt
  unfold netHandlePacket at sent
  split at sent
  · exact absurd sent silent
  · simp only [Option.bind_eq_bind, Option.bind_eq_some_iff] at sent
    obtain ⟨ethtype, type, sent⟩ := sent
    have type := readBe16_found type
    split at sent
    · rename_i arp
      simp only [handleArp, Option.bind_eq_bind, Option.bind_eq_some_iff] at sent
      obtain ⟨opcode, op, sent⟩ := sent
      split at sent
      · rename_i asks
        simp only [Option.bind_eq_some_iff] at sent
        obtain ⟨targetIp, target, sent⟩ := sent
        split at sent
        · rename_i mine
          exact Or.inl ⟨type.trans arp, (readBe16_found op).trans asks, (readBytes_found target).trans mine⟩
        · exact absurd sent learning
      · exact absurd sent learning
    · split at sent
      · rename_i ipv4
        simp only [handleIpv4, Option.bind_eq_bind, Option.bind_eq_some_iff] at sent
        obtain ⟨destIp, dest, sent⟩ := sent
        split at sent
        · rename_i mine
          simp only [Option.bind_eq_some_iff] at sent
          obtain ⟨protocol, proto, sent⟩ := sent
          split at sent
          · rename_i icmp
            simp only [handleIcmp, Option.bind_eq_bind, Option.bind_eq_some_iff] at sent
            obtain ⟨versionIhl, version, kind, first, sent⟩ := sent
            split at sent
            · rename_i asks
              have here := (readByte_found version).2
              have message := (readByte_found first).2
              rw [← here] at message
              exact Or.inr ⟨type.trans ipv4, (readBytes_found dest).trans mine, (readByte_found proto).2.trans icmp,
                message.trans asks⟩
            · split at sent
              · exact absurd sent silent
              · exact absurd sent silent
          · split at sent
            · simp only [handleUdp, Option.bind_eq_bind, Option.bind_eq_some_iff] at sent
              obtain ⟨_, _, _, _, _, _, sent⟩ := sent
              split at sent
              · simp only [Option.bind_eq_some_iff] at sent
                obtain ⟨_, _, same⟩ := sent
                exact absurd same silent
              · exact absurd sent silent
            · exact absurd sent silent
        · exact absurd sent silent
      · exact absurd sent silent

/-- With memory for the reply every whole echo request and every request for the hardware address
is answered, rightly. Frames whose headers name neither never are. -/
theorem packets_answered (net : Net) (data : List UInt8) :
    (EchoAsked data → ∃ reply, netHandlePacket true net data data.length = some (net, some reply) ∧
    EchoAnswer net data reply) ∧
    (ArpAsked data → netHandlePacket true net data data.length = some (net, some (arpAnswer net data)) ∧
      ∀ peer : Net, arpLookup peer myIp ≠ none ∨ ¬ Full peer → ∃ after,
        netHandlePacket true peer (arpAnswer net data) (arpAnswer net data).length = some (after, none) ∧
          arpLookup after myIp = some net.myMac.toList) ∧
    ∀ allocated len net' reply, netHandlePacket allocated net data len = some (net', some reply) →
    NamesRequest data :=
  ⟨fun asked => ⟨_, echo_answered asked, echoReply_answer asked⟩,
    fun asked => ⟨arp_answered asked, arp_learnt asked⟩,
    fun _ _ _ _ => answered_asked⟩

end

/-- An echo request of eight bytes from a neighbour. -/
def neighbourAsks : List UInt8 :=
  List.replicate 6 0x52 ++ [1, 2, 3, 4, 5, 6] ++
    [0x08, 0x00, 0x45, 0x00, 0x00, 0x1C, 0, 0, 0, 0, 64, 1, 0, 0, 10, 0, 2, 2] ++
    myIp ++ [8, 0, 0, 0, 0x12, 0x34, 0, 1]

theorem packets_answered_neighbour :
    ∃ reply, netHandlePacket true deaf neighbourAsks neighbourAsks.length = some (deaf, some reply) ∧
    EchoAnswer deaf neighbourAsks reply :=
  (packets_answered deaf neighbourAsks).1
    ⟨by decide, by decide, by decide, by decide, by decide, by decide, by decide⟩

end MeowMeowOS.EchoAnswers

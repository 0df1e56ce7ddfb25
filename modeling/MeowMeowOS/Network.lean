import MeowMeowOS.ByteBuffer

/-! The handler of incoming frames. It works in the buffer that the driver
copied the frame to; a step past the end of the memory it is given fails.
Addresses are kept as they lie in memory, first byte first. -/
namespace MeowMeowOS.Network
open ByteBuffer

structure ArpEntry where
  ip : List UInt8
  mac : List UInt8
  valid : Bool

structure Net where
  myMac : Vector UInt8 6
  arpCache : List ArpEntry
  arpReceivedFlag : Bool
  icmpReceivedFlag : Bool
  dnsResolvedFlag : Bool
  dnsResolvedIp : List UInt8
  dnsQueryId : Nat
  dnsClientPort : Nat

def myIp : List UInt8 := [10, 0, 2, 15]
def myNetmask : List UInt8 := [255, 255, 255, 0]
def myGateway : List UInt8 := [10, 0, 2, 2]

/-- The sizes of the headers. -/
def ethHeader : Nat := 14
def arpHeader : Nat := 28
def udpHeader : Nat := 8
def dnsHeader : Nat := 12

/-! ## Sending -/

/-- The sum of the 16-bit words, lowest byte first. -/
def sumWords : List UInt8 → Nat
  | [] => 0
  | [low] => low.toNat
  | low :: high :: rest => low.toNat + high.toNat * 256 + sumWords rest

/-- Folds the carries of a sum into its low 16 bits. -/
def foldCarries (sum : Nat) : Nat :=
  if 2 ^ 16 ≤ sum then foldCarries (sum % 2 ^ 16 + sum / 2 ^ 16) else sum
termination_by sum
decreasing_by omega

def netChecksum (data : List UInt8) : Nat := 2 ^ 16 - 1 - foldCarries (sumWords data % 2 ^ 32)

/-- A 16-bit value as it is stored. -/
def half (v : Nat) : List UInt8 := [UInt8.ofNat v, UInt8.ofNat (v / 256)]

@[simp] theorem half_length (v : Nat) : (half v).length = 2 := rfl

/-- The frame that is sent, if there is memory to build it in. -/
def netSendPacket (allocated : Bool) (net : Net) (destMac ethertype data : List UInt8) (off payloadLen : Nat) :
    Option (Option (List UInt8)) :=
  if allocated then do
    let payload ← readBytes data off payloadLen
    some (some (destMac ++ net.myMac.toList ++ ethertype ++ payload))
  else some none

/-! ## ARP -/

/-- The first entry that is free or belongs to the address is filled in. -/
def updateEntry (ip mac : List UInt8) : List ArpEntry → List ArpEntry
  | [] => []
  | entry :: rest =>
    if entry.valid = false ∨ entry.ip = ip then ⟨ip, mac, true⟩ :: rest else entry :: updateEntry ip mac rest

def arpCacheUpdate (net : Net) (ip mac : List UInt8) : Net := { net with arpCache := updateEntry ip mac net.arpCache }

def arpLookup (net : Net) (ip : List UInt8) : Option (List UInt8) :=
  (net.arpCache.find? fun entry => entry.valid ∧ entry.ip = ip).map ArpEntry.mac

/-- The answer to a request, made in place. -/
def arpReply (allocated : Bool) (net : Net) (data : List UInt8) : Option (Net × Option (List UInt8)) := do
  let data ← writeBytes data 20 [0, 2]
  let senderMac ← readBytes data 22 6
  let data ← writeBytes data 32 senderMac
  let senderIp ← readBytes data 28 4
  let data ← writeBytes data 38 senderIp
  let data ← writeBytes data 22 net.myMac.toList
  let data ← writeBytes data 28 myIp
  let targetMac ← readBytes data 32 6
  let sent ← netSendPacket allocated net targetMac [0x08, 0x06] data ethHeader arpHeader
  some (net, sent)

/-- The second test of `net_handle_packet` for an ARP packet. -/
def arpLearn (net : Net) (data : List UInt8) : Option (Net × Option (List UInt8)) := do
  let opcode ← readBe16 data 20
  if opcode = 2 then
    let senderIp ← readBytes data 28 4
    let senderMac ← readBytes data 22 6
    some ({ arpCacheUpdate net senderIp senderMac with arpReceivedFlag := true }, none)
  else some (net, none)

def handleArp (allocated : Bool) (net : Net) (data : List UInt8) : Option (Net × Option (List UInt8)) := do
  let opcode ← readBe16 data 20
  if opcode = 1 then
    let targetIp ← readBytes data 38 4
    if targetIp = myIp then arpReply allocated net data else arpLearn net data
  else arpLearn net data

/-! ## ICMP -/

/-- The length of the IPv4 header, from the low half of its first byte. -/
def headerLength (versionIhl : UInt8) : Nat := versionIhl.toNat % 16 * 4

/-- Where the message of an IPv4 packet begins. -/
def messageAt (data : List UInt8) : Nat := ethHeader + headerLength (byteAt data ethHeader)

/-- The answer to an echo request, made in place. The length of the message is
the difference of two lengths of the header, as 32-bit numbers. -/
def icmpReply (allocated : Bool) (net : Net) (data : List UInt8) (icmp : Nat) :
    Option (Net × Option (List UInt8)) := do
  let data ← writeBytes data icmp [0]
  let data ← writeBytes data (icmp + 2) (half 0)
  let totalLength ← readBe16 data 16
  let versionIhl ← readByte data ethHeader
  let message ← readBytes data icmp ((totalLength + 2 ^ 32 - headerLength versionIhl) % 2 ^ 32)
  let data ← writeBytes data (icmp + 2) (half (netChecksum message))
  let srcIp ← readBytes data 26 4
  let data ← writeBytes data 26 myIp
  let data ← writeBytes data 30 srcIp
  let data ← writeBytes data 24 (half 0)
  let versionIhl ← readByte data ethHeader
  let header ← readBytes data ethHeader (headerLength versionIhl)
  let data ← writeBytes data 24 (half (netChecksum header))
  let srcMac ← readBytes data 6 6
  let totalLength ← readBe16 data 16
  let sent ← netSendPacket allocated net srcMac [0x08, 0x00] data ethHeader totalLength
  some (net, sent)

def handleIcmp (allocated : Bool) (net : Net) (data : List UInt8) : Option (Net × Option (List UInt8)) := do
  let versionIhl ← readByte data ethHeader
  let icmp := ethHeader + headerLength versionIhl
  let type ← readByte data icmp
  if type = 8 then icmpReply allocated net data icmp
  else if type = 0 then some ({ net with icmpReceivedFlag := true }, none)
  else some (net, none)

/-! ## DNS -/

section
variable (data : List UInt8) (payload len : Nat)

/-- `while (pos < len && payload[pos] != 0) pos += payload[pos] + 1;` -/
def skipName (pos : Nat) : Option Nat :=
  if pos < len then
    match readByte data (payload + pos) with
    | none => none
    | some label => if label = 0 then some pos else skipName (pos + label.toNat + 1)
  else some pos
termination_by len - pos

def skipQuestions : Nat → Nat → Option Nat
  | 0, pos => some pos
  | qdcount + 1, pos => do
    let pos ← skipName data payload len pos
    skipQuestions qdcount (pos + 1 + 4)

/-- The name of an answer, which may be a pointer of two bytes. -/
def skipOwner (pos : Nat) : Option Nat := do
  let label ← readByte data (payload + pos)
  if label &&& 0xC0 = 0xC0 then some (pos + 2)
  else
    let pos ← skipName data payload len pos
    some (pos + 1)

/-- The address of the first answer that has one. -/
def findAddress : Nat → Nat → Option (Option (List UInt8))
  | 0, _ => some none
  | ancount + 1, pos =>
    if pos < len then do
      let pos ← skipOwner data payload len pos
      if len < pos + 10 then some none
      else
        let type ← readBe16 data (payload + pos)
        let cls ← readBe16 data (payload + pos + 2)
        let rdlength ← readBe16 data (payload + pos + 8)
        if type = 1 ∧ cls = 1 ∧ rdlength = 4 ∧ pos + 10 + 4 ≤ len then do
          let address ← readBytes data (payload + pos + 10) 4
          some (some address)
        else findAddress ancount (pos + 10 + rdlength)
    else some none

end

def dnsHandlePacket (net : Net) (data : List UInt8) (payload len : Nat) : Option Net :=
  if len < dnsHeader then some net
  else do
    let transaction ← readBe16 data payload
    if transaction ≠ net.dnsQueryId then some net
    else
      let ancount ← readBe16 data (payload + 6)
      if ancount = 0 then some net
      else
        let qdcount ← readBe16 data (payload + 4)
        let pos ← skipQuestions data payload len qdcount dnsHeader
        let found ← findAddress data payload len ancount pos
        match found with
        | none => some net
        | some address => some { net with dnsResolvedIp := address, dnsResolvedFlag := true }

def handleUdp (net : Net) (data : List UInt8) : Option (Net × Option (List UInt8)) := do
  let versionIhl ← readByte data ethHeader
  let udp := ethHeader + headerLength versionIhl
  let destPort ← readBe16 data (udp + 2)
  let udpLen ← readBe16 data (udp + 4)
  if udpHeader ≤ udpLen ∧ destPort = net.dnsClientPort then
    let net ← dnsHandlePacket net data (udp + udpHeader) (udpLen - udpHeader)
    some (net, none)
  else some (net, none)

/-! ## Every frame -/

def handleIpv4 (allocated : Bool) (net : Net) (data : List UInt8) : Option (Net × Option (List UInt8)) := do
  let destIp ← readBytes data 30 4
  if destIp = myIp then
    let protocol ← readByte data 23
    if protocol = 1 then handleIcmp allocated net data
    else if protocol = 17 then handleUdp net data
    else some (net, none)
  else some (net, none)

/-- `net_handle_packet` for a frame of `len` bytes at the start of the memory.
The result holds the frame that was sent in reply. -/
def netHandlePacket (allocated : Bool) (net : Net) (data : List UInt8) (len : Nat) :
    Option (Net × Option (List UInt8)) :=
  if len < ethHeader then some (net, none)
  else do
    let ethtype ← readBe16 data 12
    if ethtype = 0x0806 then handleArp allocated net data
    else if ethtype = 0x0800 then handleIpv4 allocated net data
    else some (net, none)

end MeowMeowOS.Network

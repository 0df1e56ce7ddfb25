import MeowMeowOS.ByteBuffer
import MeowMeowOS.ByteMemory
import MeowMeowOS.RingQueue
import Mathlib.Tactic.Common

/-! Packets in the receive ring of the network card. One that goes around the end of the ring
is copied in two parts, and the test for that counts four bytes that are not copied. -/
namespace MeowMeowOS.ReceiveRing
open ByteBuffer ByteMemory RingQueue

def ringSize : Nat := 8192

/-- A `memcpy` from the ring's memory into the copy of the packet. -/
structure Part where
  dest : Nat
  src : Nat
  length : Nat
  deriving DecidableEq

/-- `uint16_t packet_len = rx_size - 4;` -/
def packetLen (rxSize : Nat) : Nat := (rxSize + 2 ^ 16 - 4) % 2 ^ 16

/-- The copies that are made; lengths are 32-bit numbers. -/
def parts (offset rxSize : Nat) : List Part :=
  if ringSize < offset + 4 + rxSize then
    let part1 := (ringSize + 2 ^ 32 - (offset + 4)) % 2 ^ 32
    [⟨0, offset + 4, part1⟩, ⟨part1, 0, (packetLen rxSize + 2 ^ 32 - part1) % 2 ^ 32⟩]
  else [⟨0, offset + 4, packetLen rxSize⟩]

def bytesFrom (mem : Mem) (src length : Nat) : List UInt8 := (List.range length).map fun i => mem (src + i)

/-- A copy that leaves the allocated block fails. -/
def copyPart (mem : Mem) (packet : List UInt8) (part : Part) : Option (List UInt8) :=
  writeBytes packet part.dest (bytesFrom mem part.src part.length)

/-- What a round of the loop comes to. -/
inductive Round where
  | stopped
  | overrun
  | done (currentRxPtr : Nat) (packet : Option (List UInt8))
  deriving DecidableEq

/-- One round of `rtl8139_receive`; `kmemAlloc` gives the contents of the block it allocates. -/
def receiveRound (mem : Mem) (kmemAlloc : Nat → Option (List UInt8)) (currentRxPtr : Nat) : Round :=
  let offset := currentRxPtr % ringSize
  let rxStatus := readHalf mem offset
  let rxSize := readHalf mem (offset + 2)
  let next := (currentRxPtr + rxSize + 4 + 3) % 2 ^ 32 / 4 * 4
  if rxStatus % 2 = 1 then
    match kmemAlloc (packetLen rxSize) with
    | none => .stopped
    | some block =>
      match (parts offset rxSize).foldlM (copyPart mem) block with
      | none => .overrun
      | some packet => .done next (some packet)
  else .done next none

/-- The packet is what follows the header in the ring, around its end. -/
def Reassembled (mem : Mem) (offset rxSize : Nat) (packet : List UInt8) : Prop :=
  packet.length = rxSize - 4 ∧ Holds ringSize mem (offset + 4) packet

section
variable {mem : Mem} {offset rxSize : Nat} {block packet : List UInt8}

theorem packetLen_eq (least : 4 ≤ rxSize) (most : rxSize < 2 ^ 16) : packetLen rxSize = rxSize - 4 := by
  unfold packetLen
  omega

@[simp] theorem bytesFrom_length (mem : Mem) (src length : Nat) : (bytesFrom mem src length).length = length := by
  simp [bytesFrom]

theorem bytesFrom_get {src length i : Nat} (small : i < (bytesFrom mem src length).length) :
    (bytesFrom mem src length)[i] = mem (src + i) := by
  simp [bytesFrom]

/-- The first copy starts the packet over, the second one continues it. -/
theorem copyPart_first (mem : Mem) (src : Nat) {length : Nat} (fits : length ≤ block.length) :
    copyPart mem block ⟨0, src, length⟩ = some (bytesFrom mem src length ++ block.drop length) := by
  unfold copyPart
  rw [writeBytes_inside (by simpa using fits), overwrite, List.take_zero, List.nil_append, Nat.zero_add,
    bytesFrom_length]

theorem copyPart_second (mem : Mem) (src : Nat) {dest length : Nat} {front behind : List UInt8}
    (start : front.length = dest)
    (fits : behind.length = length) :
    copyPart mem (front ++ behind) ⟨dest, src, length⟩ = some (front ++ bytesFrom mem src length) := by
  subst start
  have inside : front.length + (bytesFrom mem src length).length ≤ (front ++ behind).length := by
    rw [bytesFrom_length, List.length_append, fits]
  unfold copyPart
  rw [writeBytes_inside inside, overwrite, List.take_left, bytesFrom_length,
    List.drop_of_length_le (by rw [List.length_append, fits]), List.append_nil]

/-- A packet in one piece. -/
theorem parts_whole (mem : Mem) (least : 4 ≤ rxSize) (most : rxSize ≤ 1522) (inside : offset + rxSize ≤ 8188)
    (fresh : block.length = rxSize - 4) : (∀ part ∈ parts offset rxSize, part.length ≤ packetLen rxSize) ∧
      ∃ packet, (parts offset rxSize).foldlM (copyPart mem) block = some packet ∧
      Reassembled mem offset rxSize packet := by
  have length := packetLen_eq least (by omega)
  have single : parts offset rxSize = [⟨0, offset + 4, rxSize - 4⟩] := by
    unfold parts ringSize
    rw [if_neg (by omega), length]
  rw [single, length]
  refine ⟨fun part member => by rw [List.mem_singleton.mp member], bytesFrom mem (offset + 4) (rxSize - 4),
    ?_, by simp, fun i small => ?_⟩
  · rw [List.foldlM_cons, copyPart_first mem _ (Nat.le_of_eq fresh.symm),
      List.drop_of_length_le (Nat.le_of_eq fresh), List.append_nil]
    rfl
  · rw [bytesFrom_get]
    rw [bytesFrom_length] at small
    rw [Nat.mod_eq_of_lt (by unfold ringSize; omega)]

/-- A packet around the end of the ring. -/
theorem parts_split (mem : Mem) (low : offset ≤ 8188) (most : rxSize ≤ 1522) (behind : 8192 ≤ offset + rxSize)
    (fresh : block.length = rxSize - 4) : (∀ part ∈ parts offset rxSize, part.length ≤ packetLen rxSize) ∧
      ∃ packet, (parts offset rxSize).foldlM (copyPart mem) block = some packet ∧
      Reassembled mem offset rxSize packet := by
  have least : 4 ≤ rxSize := by omega
  have length := packetLen_eq least (by omega)
  have two : parts offset rxSize = [⟨0, offset + 4, 8188 - offset⟩,
    ⟨8188 - offset, 0, offset + rxSize - 8192⟩] := by
    unfold parts ringSize
    rw [if_pos (by omega), length]
    dsimp only
    have first : (8192 + 2 ^ 32 - (offset + 4)) % 2 ^ 32 = 8188 - offset := by omega
    have second : (rxSize - 4 + 2 ^ 32 - (8188 - offset)) % 2 ^ 32 = offset + rxSize - 8192 := by omega
    rw [first, second]
  have rest : (block.drop (8188 - offset)).length = offset + rxSize - 8192 := by
    rw [List.length_drop]
    omega
  rw [two, length]
  refine ⟨?_, bytesFrom mem (offset + 4) (8188 - offset) ++ bytesFrom mem 0 (offset + rxSize - 8192), ?_,
    ?_, fun i small => ?_⟩
  · rw [List.forall_mem_cons, List.forall_mem_singleton]
    exact ⟨by dsimp only; omega, by dsimp only; omega⟩
  · rw [List.foldlM_cons, copyPart_first mem _ (by omega), Option.bind_eq_bind, Option.bind_some, List.foldlM_cons,
      copyPart_second mem 0 (bytesFrom_length _ _ _) rest]
    rfl
  · rw [List.length_append, bytesFrom_length, bytesFrom_length]
    omega
  · rw [List.length_append, bytesFrom_length, bytesFrom_length] at small
    unfold ringSize
    by_cases early : i < 8188 - offset
    · rw [List.getElem_append_left (by rw [bytesFrom_length]; exact early), bytesFrom_get, Nat.mod_eq_of_lt (by omega)]
    · rw [List.getElem_append_right (by rw [bytesFrom_length]; omega), bytesFrom_get, bytesFrom_length]
      refine congrArg mem ?_
      omega

/-- The end of the packet's checksum is what the test looks at: where only that goes around, the
first copy is longer than the packet and the second one's length wraps. -/
theorem parts_overrun (least : 4 ≤ rxSize) (most : rxSize ≤ 1522) (aligned : offset % 4 = 0)
    (above : 8188 < offset + rxSize)
    (below : offset + rxSize < 8192) : ∃ part ∈ parts offset rxSize, packetLen rxSize < part.length := by
  have length := packetLen_eq least (by omega)
  refine ⟨⟨0, offset + 4, 8188 - offset⟩, ?_, by rw [length]; dsimp only; omega⟩
  unfold parts ringSize
  rw [if_pos (by omega)]
  have first : (8192 + 2 ^ 32 - (offset + 4)) % 2 ^ 32 = 8188 - offset := by omega
  dsimp only
  rw [first]
  exact List.mem_cons_self

end

/-! ## A round -/

/-- A packet that was received without an error is copied and handed on as it stands in the ring,
and no copy is longer than the packet. -/
def Copies (mem : Mem) (kmemAlloc : Nat → Option (List UInt8)) (currentRxPtr : Nat) : Prop :=
  let offset := currentRxPtr % ringSize
  let rxSize := readHalf mem (offset + 2)
  (∀ part ∈ parts offset rxSize, part.length ≤ packetLen rxSize) ∧
    ∃ next packet, receiveRound mem kmemAlloc currentRxPtr = .done next (some packet) ∧
    Reassembled mem offset rxSize packet

section
variable {mem : Mem} {kmemAlloc : Nat → Option (List UInt8)} {currentRxPtr : Nat}

/-- When a packet arrives whole. -/
theorem copies_iff {block : List UInt8}
    (allocated : kmemAlloc (packetLen (readHalf mem (currentRxPtr % ringSize + 2))) = some block)
    (fresh : block.length = packetLen (readHalf mem (currentRxPtr % ringSize + 2))) (aligned : currentRxPtr % 4 = 0)
    (received : readHalf mem (currentRxPtr % ringSize) % 2 = 1)
    (least : 4 ≤ readHalf mem (currentRxPtr % ringSize + 2))
    (most : readHalf mem (currentRxPtr % ringSize + 2) ≤ 1522) : Copies mem kmemAlloc currentRxPtr ↔
      currentRxPtr % ringSize + readHalf mem (currentRxPtr % ringSize + 2) ≤ 8188 ∨
        8192 ≤ currentRxPtr % ringSize + readHalf mem (currentRxPtr % ringSize + 2) := by
  have inside : currentRxPtr % ringSize < 8192 := Nat.mod_lt _ (by decide)
  have aligned' : currentRxPtr % ringSize % 4 = 0 := by
    unfold ringSize
    omega
  unfold Copies receiveRound
  dsimp only
  rw [if_pos received]
  generalize currentRxPtr % ringSize = offset at *
  generalize readHalf mem (offset + 2) = rxSize at *
  rw [allocated]
  rw [packetLen_eq least (by omega)] at fresh
  have done : (∃ packet, (parts offset rxSize).foldlM (copyPart mem) block = some packet ∧
      Reassembled mem offset rxSize packet) →
      ∃ next packet, (match (parts offset rxSize).foldlM (copyPart mem) block with
        | none => Round.overrun
        | some packet => Round.done ((currentRxPtr + rxSize + 4 + 3) % 2 ^ 32 / 4 * 4) (some packet)) =
          .done next (some packet) ∧
        Reassembled mem offset rxSize packet := by
    rintro ⟨packet, copied, whole⟩
    exact ⟨_, packet, by rw [copied], whole⟩
  constructor
  · intro copies
    by_contra neither
    obtain ⟨above, below⟩ := not_or.mp neither
    obtain ⟨part, member, long⟩ := parts_overrun least most aligned' (by omega) (by omega)
    exact absurd (copies.1 part member) (Nat.not_le.mpr long)
  · rintro (whole | split)
    · exact (parts_whole mem least most whole fresh).imp_right done
    · exact (parts_split mem (by omega) most split fresh).imp_right done

end

/-- A ring with one packet of this size at this place. -/
def onePacket (offset rxSize : Nat) : Mem :=
  fun x => if x = offset then 1 else if x = offset + 2 then UInt8.ofNat rxSize else 0

theorem copies_iff_split : Copies (onePacket 8124 72) (fun n => some (List.replicate n 0)) 8124 ↔
    (8124 + 72 ≤ 8188 ∨ 8192 ≤ 8124 + 72) :=
  copies_iff rfl List.length_replicate (by decide) (by decide) (by decide) (by decide)

/-- A packet whose checksum alone goes around the end of the ring. -/
theorem copies_past_end : ¬ ∀ (mem : Mem) (kmemAlloc : Nat → Option (List UInt8)) (currentRxPtr : Nat),
    (∀ n, ∃ block, kmemAlloc n = some block ∧ block.length = n) → currentRxPtr % 4 = 0 →
    readHalf mem (currentRxPtr % ringSize) % 2 = 1 → 4 ≤ readHalf mem (currentRxPtr % ringSize + 2) →
    readHalf mem (currentRxPtr % ringSize + 2) ≤ 1522 → Copies mem kmemAlloc currentRxPtr := by
  intro all
  have copies := all (onePacket 8124 66) (fun n => some (List.replicate n 0)) 8124 (fun n =>
    ⟨_, rfl, List.length_replicate⟩) (by decide) (by decide) (by decide) (by decide)
  have long : ∃ part ∈ parts (8124 % ringSize) (readHalf (onePacket 8124 66) (8124 % ringSize + 2)),
      packetLen (readHalf (onePacket 8124 66) (8124 % ringSize + 2)) < part.length := by decide +kernel
  obtain ⟨part, member, longer⟩ := long
  exact absurd (copies.1 part member) (Nat.not_le.mpr longer)

end MeowMeowOS.ReceiveRing

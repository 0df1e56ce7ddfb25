import MeowMeowOS.Ping

/-! The Internet checksum. A sum of 16-bit words whose carries are folded keeps its residue
modulo 65535, and it is zero only for a buffer of zeros. The receiver sums the words in network
order, 256 times the stack's words modulo 65535, and accepts a message whose sum is all ones. -/
namespace MeowMeowOS.Checksums
open ByteBuffer Network Ping

section
variable {data front rest : List UInt8} {off s v : Nat}

/-! ## Folded sums -/

theorem foldCarries_lt (s : Nat) : foldCarries s < 2 ^ 16 := by
  fun_induction foldCarries s with
  | case1 s wide ih => exact ih
  | case2 s narrow => exact Nat.not_le.mp narrow

theorem foldCarries_mod (s : Nat) : foldCarries s % 65535 = s % 65535 := by
  fun_induction foldCarries s with
  | case1 s wide ih =>
    rw [ih]
    omega
  | case2 s narrow => rfl

theorem foldCarries_pos (some' : 0 < s) : 0 < foldCarries s := by
  fun_induction foldCarries s with
  | case1 s wide ih => exact ih (by omega)
  | case2 s narrow => exact some'

/-- What a sum and its complement fold to. -/
theorem foldCarries_complement (s : Nat) : foldCarries (s + (65535 - foldCarries s)) = 65535 := by
  have below := foldCarries_lt s
  have same := foldCarries_mod s
  have whole := foldCarries_mod (s + (65535 - foldCarries s))
  have bound := foldCarries_lt (s + (65535 - foldCarries s))
  have some' : 0 < s + (65535 - foldCarries s) := by
    by_cases zero : s = 0
    · subst zero
      rw [foldCarries, if_neg (by decide)]
      decide
    · omega
  have positive := foldCarries_pos some'
  omega

/-! ## Sums of words -/

theorem sumWords_append (even : front.length % 2 = 0) : sumWords (front ++ rest) = sumWords front + sumWords rest := by
  induction front using sumWords.induct with
  | case1 => exact (Nat.zero_add _).symm
  | case2 low => cases even
  | case3 low high more ih =>
    have more : more.length % 2 = 0 := by
      rw [List.length_cons, List.length_cons] at even
      omega
    rw [List.cons_append, List.cons_append, sumWords, sumWords, ih more]
    omega

theorem sumWords_le (data : List UInt8) : sumWords data ≤ (data.length + 1) / 2 * 65535 := by
  induction data using sumWords.induct with
  | case1 => exact Nat.zero_le _
  | case2 low =>
    have byte := low.toNat_lt
    rw [sumWords, List.length_singleton]
    omega
  | case3 low high more ih =>
    have byte := low.toNat_lt
    have byte' := high.toNat_lt
    rw [sumWords, List.length_cons, List.length_cons]
    omega

theorem sumWords_half (small : v < 2 ^ 16) (rest : List UInt8) : sumWords (half v ++ rest) = v + sumWords rest := by
  unfold half
  rw [List.cons_append, List.cons_append, List.nil_append, sumWords, UInt8.toNat_ofNat', UInt8.toNat_ofNat']
  omega

/-- The field counts with its value. -/
theorem sumWords_field (even : off % 2 = 0) (inside : off + 2 ≤ data.length) (small : v < 2 ^ 16) :
    sumWords (overwrite data off (half v)) = sumWords (overwrite data off (half 0)) + v := by
  have front : (data.take off).length % 2 = 0 := by
    rw [List.length_take]
    omega
  unfold overwrite
  rw [List.append_assoc, List.append_assoc, sumWords_append front, sumWords_append front, sumWords_half small,
    sumWords_half (by decide), half_length, half_length]
  omega

theorem netChecksum_eq (fits : sumWords data < 2 ^ 32) : netChecksum data = 65535 - foldCarries (sumWords data) := by
  unfold netChecksum
  rw [Nat.mod_eq_of_lt fits]
  omega

theorem sumWords_overwrite_lt (short : data.length ≤ 65535) (inside : off + 2 ≤ data.length) (v : Nat) :
    sumWords (overwrite data off (half v)) < 2 ^ 32 := by
  have most := sumWords_le (overwrite data off (half v))
  rw [overwrite_length inside] at most
  omega

/-- With a checksum in its place the buffer's words fold to all ones. -/
theorem folded_field (short : data.length ≤ 65535) (even : off % 2 = 0) (inside : off + 2 ≤ data.length) :
    foldCarries (sumWords (overwrite data off (half (netChecksum (overwrite data off (half 0)))))) = 65535 := by
  have complement := foldCarries_complement (sumWords (overwrite data off (half 0)))
  have below := foldCarries_lt (sumWords (overwrite data off (half 0)))
  rw [netChecksum_eq (sumWords_overwrite_lt short inside 0), sumWords_field even inside (by omega), complement]

end

/-! ## A standard receiver -/

/-- One's-complement addition of 16-bit words, the carry added back. -/
def onesAdd (left right : Nat) : Nat :=
  if left + right < 2 ^ 16 then left + right else left + right - 65535

/-- The one's-complement sum of the words in network order, an odd byte padded with zero. -/
def onesSum : List UInt8 → Nat
  | [] => 0
  | [last] => last.toNat * 256
  | first :: second :: rest => onesAdd (first.toNat * 256 + second.toNat) (onesSum rest)

/-- A receiver accepts the bytes whose words sum to all ones. -/
def Accepted (data : List UInt8) : Prop := onesSum data = 65535

instance (data : List UInt8) : Decidable (Accepted data) := inferInstanceAs (Decidable (onesSum data = 65535))

section
variable {data : List UInt8} {left right off : Nat}

theorem onesAdd_le (small : left ≤ 65535) (small' : right ≤ 65535) : onesAdd left right ≤ 65535 := by
  unfold onesAdd
  split
  all_goals omega

theorem onesAdd_mod (left right : Nat) : onesAdd left right % 65535 = (left + right) % 65535 := by
  unfold onesAdd
  split
  all_goals omega

theorem onesAdd_eq_zero : onesAdd left right = 0 ↔ left = 0 ∧ right = 0 := by
  unfold onesAdd
  split
  all_goals omega

theorem onesSum_le (data : List UInt8) : onesSum data ≤ 65535 := by
  induction data using onesSum.induct with
  | case1 => exact Nat.zero_le _
  | case2 last =>
    have byte := last.toNat_lt
    rw [onesSum]
    omega
  | case3 first second rest ih =>
    have byte := first.toNat_lt
    have byte' := second.toNat_lt
    exact onesAdd_le (by omega) ih

/-- Swapping the bytes of every word multiplies the sum by 256. -/
theorem onesSum_mod (data : List UInt8) : onesSum data % 65535 = 256 * sumWords data % 65535 := by
  induction data using onesSum.induct with
  | case1 => rfl
  | case2 last =>
    rw [onesSum, sumWords]
    omega
  | case3 first second rest ih =>
    rw [onesSum, sumWords, onesAdd_mod]
    omega

theorem onesSum_eq_zero (nothing : onesSum data = 0) : sumWords data = 0 := by
  induction data using onesSum.induct with
  | case1 => rfl
  | case2 last =>
    rw [onesSum] at nothing
    rw [sumWords]
    omega
  | case3 first second rest ih =>
    rw [onesSum, onesAdd_eq_zero] at nothing
    rw [sumWords, ih nothing.2]
    omega

theorem accepted_of_folded (folded : foldCarries (sumWords data) = 65535) : Accepted data := by
  have same := foldCarries_mod (sumWords data)
  have swapped := onesSum_mod data
  have bound := onesSum_le data
  have positive : onesSum data ≠ 0 := by
    intro nothing
    rw [onesSum_eq_zero nothing, foldCarries, if_neg (by decide)] at folded
    cases folded
  unfold Accepted
  omega

/-- The stack's own verdict is zero and the receiver accepts. -/
def Verifies (data : List UInt8) : Prop := netChecksum data = 0 ∧ Accepted data

/-- A checksum in its place verifies. -/
theorem verifies_field (short : data.length ≤ 65535) (even : off % 2 = 0) (inside : off + 2 ≤ data.length) :
    Verifies (overwrite data off (half (netChecksum (overwrite data off (half 0))))) := by
  have folded := folded_field short even inside
  refine ⟨?_, accepted_of_folded folded⟩
  rw [netChecksum_eq (sumWords_overwrite_lt short inside _), folded]

end

/-! ## The headers that are sent -/

/-- The header of `net_send_udp_packet`. -/
def udpIpv4Header (totalLength : Nat) (targetIp checksum : List UInt8) : List UInt8 :=
  [0x45, 0, UInt8.ofNat (totalLength / 256), UInt8.ofNat totalLength, 0x43, 0x21, 0, 0, 64, 17] ++ checksum ++ myIp ++
    targetIp

/-- Every checksum that is computed over a zero field and stored in it verifies, and so do the
headers that the stack builds. -/
theorem checksums_verify :
    (∀ (data : List UInt8) (off : Nat), data.length ≤ 65535 → off % 2 = 0 → off + 2 ≤ data.length →
      Verifies (overwrite data off (half (netChecksum (overwrite data off (half 0)))))) ∧
    (∀ (totalLength : Nat) (targetIp : List UInt8), targetIp.length = 4 →
      Verifies (udpIpv4Header totalLength targetIp
      (half (netChecksum (udpIpv4Header totalLength targetIp (half 0))))) ∧
      Verifies (ipv4Header totalLength targetIp (half (netChecksum (ipv4Header totalLength targetIp (half 0)))))) ∧
    Verifies (icmpHeader (half (netChecksum (icmpHeader (half 0))))) := by
  refine ⟨fun data off => verifies_field, fun totalLength targetIp four => ⟨?_, ?_⟩, ?_⟩
  · exact @verifies_field (udpIpv4Header totalLength targetIp (half 0)) 10
      (by simp [udpIpv4Header, myIp, four]) (by decide) (by simp [udpIpv4Header])
  · exact @verifies_field (ipv4Header totalLength targetIp (half 0)) 10
      (by simp [ipv4Header, myIp, four]) (by decide) (by simp [ipv4Header])
  · exact @verifies_field (icmpHeader (half 0)) 2 (by decide) (by decide) (by decide)

theorem checksums_verify_odd :
    Verifies (overwrite [0x45, 0, 0xAB, 0xCD, 0xFF] 2
      (half (netChecksum (overwrite [0x45, 0, 0xAB, 0xCD, 0xFF] 2 (half 0))))) ∧
    Verifies (udpIpv4Header 60 [10, 0, 2, 3] (half (netChecksum (udpIpv4Header 60 [10, 0, 2, 3] (half 0))))) :=
  ⟨checksums_verify.1 [0x45, 0, 0xAB, 0xCD, 0xFF] 2 (by decide) (by decide) (by decide),
    (checksums_verify.2.1 60 [10, 0, 2, 3] (by decide)).1⟩

/-- The receiver tells a wrong checksum from a right one. -/
example : Accepted [0x45, 0, 0xBA, 0xFF] ∧ ¬ Accepted [0x45, 0, 0xBA, 0xFE] := by decide

end MeowMeowOS.Checksums

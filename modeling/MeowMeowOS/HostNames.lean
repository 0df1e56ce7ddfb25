import MeowMeowOS.DnsResponses
import Mathlib.Data.List.TakeWhile

/-! Host names as DNS queries carry them: their parts between the dots, each behind its
length. -/
namespace MeowMeowOS.HostNames
open ByteBuffer Network DnsResponses

def dot : UInt8 := 0x2E

/-- `qname_out[out_idx++] = 0; return out_idx;` -/
def finish (out : List UInt8) : Int × List UInt8 := ((out ++ [0]).length, out ++ [0])

/-- The loop from `curr` on, with what has been written. -/
def formatFrom (curr out : List UInt8) : Int × List UInt8 :=
  if curr = [] then finish out
  else
    let part := curr.takeWhile (· ≠ dot)
    if 63 < part.length ∨ part.length = 0 then (-1, out)
    else
      match next : curr.dropWhile (· ≠ dot) with
      | [] => finish (out ++ UInt8.ofNat part.length :: part)
      | _ :: rest => formatFrom rest (out ++ UInt8.ofNat part.length :: part)
termination_by curr.length
decreasing_by
  have shorter := (List.dropWhile_suffix (fun b => decide (b ≠ dot)) (l := curr)).length_le
  rw [next, List.length_cons] at shorter
  omega

/-- The result and the bytes that have been written, for a string without its zero byte. -/
def dnsFormatQname (hostname : List UInt8) : Int × List UInt8 := formatFrom hostname []

/-- The parts of a host name, but for an empty last one. -/
def hostParts (hostname : List UInt8) : List (List UInt8) :=
  if (hostname.splitOn dot).getLast? = some [] then (hostname.splitOn dot).dropLast else hostname.splitOn dot

/-- The labels of a name, up to the zero byte that is its last. -/
def decodeName : List UInt8 → Option (List (List UInt8))
  | [] => none
  | b :: rest =>
    if b = 0 then if rest = [] then some [] else none
    else if b.toNat ≤ rest.length then (decodeName (rest.drop b.toNat)).map (rest.take b.toNat :: ·)
    else none
termination_by bytes => bytes.length
decreasing_by
  rw [List.length_drop]
  exact Nat.lt_succ_of_le (Nat.sub_le _ _)

/-- The length of a label. -/
def Fits (part : List UInt8) : Prop := 0 < part.length ∧ part.length ≤ 63

instance (part : List UInt8) : Decidable (Fits part) := inferInstanceAs (Decidable (_ ∧ _))

section
variable {part next curr out : List UInt8} {parts : List (List UInt8)}

/-! ## Parts -/

theorem hostParts_last (free : dot ∉ part) (some' : part ≠ []) : hostParts part = [part] := by
  unfold hostParts
  rw [List.splitOn_eq_singleton free, List.getLast?_singleton, if_neg fun same => some' (Option.some.inj same)]

theorem hostParts_next (free : dot ∉ part) (next : List UInt8) :
    hostParts (part ++ dot :: next) = part :: hostParts next := by
  have some' := List.splitOn_ne_nil dot next
  unfold hostParts
  rw [List.splitOn_append_cons_self_of_not_mem free, List.getLast?_cons_of_ne_nil some',
    List.dropLast_cons_of_ne_nil some']
  split
  · rfl
  · rfl

theorem takeWhile_part (free : dot ∉ part) (next : List UInt8) :
    (part ++ next).takeWhile (· ≠ dot) = part ++ next.takeWhile (· ≠ dot) ∧
    (part ++ next).dropWhile (· ≠ dot) = next.dropWhile (· ≠ dot) := by
  have passes : ∀ b ∈ part, decide (b ≠ dot) = true :=
    fun b member => decide_eq_true fun same => free (same ▸ member)
  exact ⟨List.takeWhile_append_of_pos passes, List.dropWhile_append_of_pos passes⟩

/-- A name is empty, or a part, or a part in front of a dot and another name. -/
theorem name_induction {P : List UInt8 → Prop} (empty : P [])
    (last : ∀ part, dot ∉ part → part ≠ [] → P part)
    (more : ∀ part next, dot ∉ part → P next → P (part ++ dot :: next)) (curr : List UInt8) : P curr := by
  induction length : curr.length using Nat.strong_induction_on generalizing curr with
  | _ n ih =>
    have whole := curr.takeWhile_append_dropWhile (p := fun b => decide (b ≠ dot))
    have free : dot ∉ curr.takeWhile fun b => decide (b ≠ dot) := fun member => by
      have other := List.mem_takeWhile_imp member
      simp at other
    cases behind : curr.dropWhile fun b => decide (b ≠ dot) with
    | nil =>
      rw [behind, List.append_nil] at whole
      by_cases none : curr = []
      · rw [none]
        exact empty
      · exact last curr (whole ▸ free) none
    | cons b next =>
      have stops := curr.head_dropWhile_not (fun b => decide (b ≠ dot)) (by rw [behind]; exact List.cons_ne_nil _ _)
      simp only [behind, List.head_cons, decide_eq_false_iff_not, not_not] at stops
      rw [behind, stops] at whole
      rw [← whole]
      refine more _ next free (ih next.length ?_ next rfl)
      rw [← length, ← whole, List.length_append, List.length_cons]
      omega

/-! ## The bytes written -/

def wirePart (part : List UInt8) : List UInt8 := UInt8.ofNat part.length :: part

theorem refused_iff (part : List UInt8) : (63 < part.length ∨ part.length = 0) ↔ ¬ Fits part := by
  unfold Fits
  omega

theorem formatFrom_last (free : dot ∉ part) (some' : part ≠ []) (out : List UInt8) :
    formatFrom part out = if Fits part then finish (out ++ wirePart part) else (-1, out) := by
  obtain ⟨taken, dropped⟩ := takeWhile_part free []
  rw [List.append_nil] at taken dropped
  rw [List.takeWhile_nil, List.append_nil] at taken
  rw [formatFrom, if_neg some']
  dsimp only
  split
  · rename_i refused
    rw [taken, refused_iff] at refused
    rw [if_neg refused]
  · rename_i fits
    rw [taken, refused_iff, not_not] at fits
    rw [if_pos fits]
    split
    · rw [taken]
      rfl
    · rename_i other
      rw [dropped] at other
      cases other

theorem formatFrom_next (free : dot ∉ part) (next out : List UInt8) :
    formatFrom (part ++ dot :: next) out = if Fits part then formatFrom next (out ++ wirePart part) else (-1, out) := by
  obtain ⟨taken, dropped⟩ := takeWhile_part free (dot :: next)
  rw [List.takeWhile_cons_of_neg (by simp), List.append_nil] at taken
  rw [List.dropWhile_cons_of_neg (by simp)] at dropped
  rw [formatFrom, if_neg (by simp)]
  dsimp only
  split
  · rename_i refused
    rw [taken, refused_iff] at refused
    rw [if_neg refused]
  · rename_i fits
    rw [taken, refused_iff, not_not] at fits
    rw [if_pos fits]
    split
    · rename_i other
      rw [dropped] at other
      cases other
    · rename_i other
      obtain ⟨-, rfl⟩ := List.cons.inj (dropped.symm.trans other)
      rw [taken]
      rfl

/-- The result is -1 if a part does not fit; else the parts are written in their order. -/
theorem formatFrom_parts (curr out : List UInt8) : (∀ part ∈ hostParts curr, Fits part) ∧
      formatFrom curr out = finish (out ++ (hostParts curr).flatMap wirePart) ∨
    (∃ part ∈ hostParts curr, ¬ Fits part) ∧ (formatFrom curr out).1 = -1 := by
  induction curr using name_induction generalizing out with
  | empty =>
    refine Or.inl ⟨nofun, ?_⟩
    rw [formatFrom, if_pos rfl]
    exact congrArg finish (List.append_nil out).symm
  | last part free some' =>
    rw [formatFrom_last free some', hostParts_last free some', List.flatMap_singleton]
    by_cases fits : Fits part
    · exact Or.inl ⟨fun other member => by rwa [List.mem_singleton.mp member], if_pos fits⟩
    · rw [if_neg fits]
      exact Or.inr ⟨⟨part, List.mem_singleton_self part, fits⟩, rfl⟩
  | more part next free ih =>
    rw [formatFrom_next free, hostParts_next free]
    by_cases fits : Fits part
    · rw [if_pos fits, List.flatMap_cons, ← List.append_assoc]
      rcases ih (out ++ wirePart part) with ⟨all, written⟩ | ⟨⟨bad, member, refused⟩, failed⟩
      · exact Or.inl ⟨List.forall_mem_cons.mpr ⟨fits, all⟩, written⟩
      · exact Or.inr ⟨⟨bad, List.mem_cons_of_mem _ member, refused⟩, failed⟩
    · rw [if_neg fits]
      exact Or.inr ⟨⟨part, List.mem_cons_self, fits⟩, rfl⟩

/-- The parts and their lengths take at most one byte more than the name. -/
theorem parts_length (curr : List UInt8) : ((hostParts curr).flatMap wirePart).length ≤ curr.length + 1 := by
  induction curr using name_induction with
  | empty => exact Nat.zero_le _
  | last part free some' =>
    rw [hostParts_last free some', List.flatMap_singleton]
    exact Nat.le_refl _
  | more part next free ih =>
    rw [hostParts_next free, List.flatMap_cons, List.length_append, List.length_append, List.length_cons]
    unfold wirePart at ih ⊢
    rw [List.length_cons]
    omega

/-! ## Reading them back -/

theorem decodeName_labels (labels : List Label) :
    decodeName (labels.flatMap Label.wire ++ [0]) = some (labels.map Label.bytes) := by
  induction labels with
  | nil =>
    rw [List.flatMap_nil, List.nil_append, decodeName, if_pos rfl, if_pos rfl]
    rfl
  | cons label rest ih =>
    have byte := label_byte label
    have some' : UInt8.ofNat label.bytes.length ≠ 0 := by
      intro zero
      rw [zero] at byte
      exact absurd byte.symm (Nat.ne_of_gt label.nonempty)
    rw [List.flatMap_cons, List.append_assoc]
    unfold Label.wire at ih ⊢
    rw [List.cons_append, decodeName, if_neg some', byte, if_pos (by simp), List.drop_left, List.take_left, ih]
    rfl

theorem exists_labels (fits : ∀ part ∈ parts, Fits part) :
    ∃ labels : List Label, labels.map Label.bytes = parts := by
  induction parts with
  | nil => exact ⟨[], rfl⟩
  | cons part rest ih =>
    obtain ⟨first, later⟩ := List.forall_mem_cons.mp fits
    obtain ⟨labels, same⟩ := ih later
    exact ⟨⟨part, first.1, first.2⟩ :: labels, by rw [List.map_cons, same]⟩

/-- Which names are encoded, and how the bytes are read back: label by label, and by the loop
that skips the questions of a response. -/
theorem dnsFormatQname_parts (hostname : List UInt8) :
    ((dnsFormatQname hostname).1 = -1 ↔ ∃ part ∈ hostParts hostname, part = [] ∨ 63 < part.length) ∧
      ((dnsFormatQname hostname).1 ≠ -1 →
        decodeName (dnsFormatQname hostname).2 = some (hostParts hostname) ∧
        (dnsFormatQname hostname).1 = (dnsFormatQname hostname).2.length ∧
        (dnsFormatQname hostname).1 ≤ hostname.length + 2 ∧
        ∀ data payload len pos, Lies data (payload + pos) (dnsFormatQname hostname).2 →
          pos + (dnsFormatQname hostname).2.length ≤ len →
          ∃ last, skipName data payload len pos = some last ∧
          last + 1 = pos + (dnsFormatQname hostname).2.length) := by
  have bad : ∀ part : List UInt8, ¬ Fits part ↔ part = [] ∨ 63 < part.length := fun part => by
    rw [← refused_iff, List.length_eq_zero_iff, or_comm]
  simp only [← bad]
  unfold dnsFormatQname
  rcases formatFrom_parts hostname [] with ⟨fits, written⟩ | ⟨refused, failed⟩
  · obtain ⟨labels, same⟩ := exists_labels fits
    have wire : (hostParts hostname).flatMap wirePart = labels.flatMap Label.wire := by
      rw [← same, List.flatMap_map]
      rfl
    have bound := parts_length hostname
    rw [written, List.nil_append]
    unfold finish
    dsimp only
    have length : ((hostParts hostname).flatMap wirePart ++ [(0 : UInt8)]).length =
        ((hostParts hostname).flatMap wirePart).length + 1 :=
      List.length_append
    refine ⟨iff_of_false (by omega) ?_,
      fun _ => ⟨?_, rfl, by omega, fun data payload len pos lies inside => ?_⟩⟩
    · rintro ⟨part, member, refused⟩
      exact refused (fits part member)
    · rw [wire, decodeName_labels, same]
    · rw [wire] at lies inside ⊢
      have ended : Ended ⟨labels, .zero⟩ := rfl
      exact skipName_ended ended lies inside
  · exact ⟨iff_of_true failed refused, fun succeeded => absurd failed succeeded⟩

end

end MeowMeowOS.HostNames

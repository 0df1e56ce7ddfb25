import MeowMeowOS.CommonPrefix
import MeowMeowOS.StringBuffers

/-! The completion of a word in the shell: `tab_visitor` over the names of one or
more directories. -/
namespace MeowMeowOS.TabCompletion

open CommonPrefix StringBuffers

/-- A string without its terminator. -/
abbrev CString := { s : List UInt8 // 0 ∉ s }

/-- `comp_prefix` with its length, `comp_match` byte by byte and
`comp_match_count`. No listing has so many names that an `int` could not count
them. -/
structure Completion where
  compPrefix : CString
  compMatch : Nat → UInt8
  compMatchCount : Nat

/-- `comp_match_count = 0; comp_match[0] = '\0';` -/
def Completion.start (compPrefix : CString) (compMatch : Nat → UInt8) : Completion :=
  ⟨compPrefix, Function.update compMatch 0 0, 0⟩

/-- `while (comp_match[i] && lfn_name[i] && comp_match[i] == lfn_name[i]) i++;`
for what is left of the name. -/
def matchLoop (compMatch : Nat → UInt8) : List UInt8 → Nat → Nat
  | [], i => i
  | c :: lfnName, i => if compMatch i ≠ 0 ∧ compMatch i = c then matchLoop compMatch lfnName (i + 1) else i

def tabVisitor (s : Completion) (lfnName : CString) : Completion :=
  if s.compPrefix.1 <+: lfnName.1 then
    let compMatch :=
      if s.compMatchCount = 0 then copyString s.compMatch lfnName.1 127
      else
        let i := matchLoop s.compMatch (lfnName.1.drop s.compPrefix.1.length) s.compPrefix.1.length
        Function.update s.compMatch i 0
    { s with compMatch := compMatch, compMatchCount := s.compMatchCount + 1 }
  else s

/-! ## The text in the buffer -/

/-- The names that the prefix begins. -/
def matching (compPrefix : CString) (names : List CString) : List (List UInt8) :=
  (names.map (·.1)).filter fun name => compPrefix.1 <+: name

section
variable {buffer : Nat → UInt8} {s name p : List UInt8} {names : List CString} {compPrefix : CString}

/-- The loop stops where the text in the buffer and the name part. -/
theorem matchLoop_common (holds : Holds buffer s) (noZero : 0 ∉ s) (rest : List UInt8) (i : Nat)
    (inside : i ≤ s.length) :
    matchLoop buffer rest i = i + (common (s.drop i) rest).length := by
  induction rest generalizing i with
  | nil => cases s.drop i <;> rfl
  | cons c rest ih =>
    rw [matchLoop]
    by_cases more : i < s.length
    · have char := holds.1 i more
      have some : s[i] ≠ 0 := fun zero => noZero (zero ▸ List.getElem_mem more)
      rw [char, List.drop_eq_getElem_cons more, common]
      by_cases same : s[i] = c
      · rw [if_pos ⟨some, same⟩, if_pos same, ih (i + 1) more, List.length_cons]
        omega
      · rw [if_neg fun both => same both.2, if_neg same]
        rfl
    · have ended : i = s.length := by omega
      rw [ended, holds.2, if_neg fun both => both.1 rfl, List.drop_length]
      rfl

/-- The terminator behind the common part leaves that part. -/
theorem cut_holds (holds : Holds buffer s) (noZero : 0 ∉ s) (left : compPrefix.1 <+: s)
    (right : compPrefix.1 <+: name) :
    let i := matchLoop buffer (name.drop compPrefix.1.length) compPrefix.1.length
    Holds (Function.update buffer i 0) (common s name) ∧ i ≤ s.length := by
  intro i
  obtain ⟨restS, shapeS⟩ := left
  obtain ⟨rest, shape⟩ := right
  have inside : compPrefix.1.length ≤ s.length := by
    rw [← shapeS, List.length_append]
    omega
  have place : i = (common s name).length := by
    refine (matchLoop_common holds noZero _ _ inside).trans ?_
    rw [← shapeS, ← shape, List.drop_left, List.drop_left, common_append, List.length_append]
  have part := common_left s name
  refine ⟨⟨fun j small => ?_, by rw [place, Function.update_self]⟩, place ▸ part.length_le⟩
  rw [place, Function.update_of_ne (Nat.ne_of_lt small), holds.1 j (Nat.lt_of_lt_of_le small part.length_le)]
  exact (part.getElem small).symm

/-! ## Any number of names -/

/-- The completion after the names. -/
structure Visited (s : Completion) (compPrefix : CString) (buffer : Nat → UInt8) (names : List CString) : Prop where
  given : s.compPrefix = compPrefix
  count : s.compMatchCount = (matching compPrefix names).length
  longest : matching compPrefix names ≠ [] →
    ∃ p, Longest p (matching compPrefix names) ∧ Holds s.compMatch (p.take 127)
  outside : ∀ i, 128 ≤ i → s.compMatch i = buffer i

theorem matching_append (compPrefix : CString) (names : List CString) (name : CString) :
    matching compPrefix (names ++ [name]) =
      matching compPrefix names ++ if compPrefix.1 <+: name.1 then [name.1] else [] := by
  unfold matching
  rw [List.map_append, List.filter_append]
  congr 1
  by_cases begins : compPrefix.1 <+: name.1 <;> simp [begins]

theorem matching_noZero (member : name ∈ matching compPrefix names) : 0 ∉ name := by
  obtain ⟨original, -, rfl⟩ := List.mem_map.mp (List.mem_filter.mp member).1
  exact original.2

theorem tabVisitor_visited {s : Completion} (short : compPrefix.1.length ≤ 127)
    (visited : Visited s compPrefix buffer names) (name : CString) :
    Visited (tabVisitor s name) compPrefix buffer (names ++ [name]) := by
  have shape := matching_append compPrefix names name
  unfold tabVisitor
  rw [visited.given]
  by_cases begins : compPrefix.1 <+: name.1
  · rw [if_pos begins] at shape ⊢
    dsimp only
    by_cases first : s.compMatchCount = 0
    · have none : matching compPrefix names = [] := List.eq_nil_of_length_eq_zero (visited.count ▸ first)
      rw [none, List.nil_append] at shape
      rw [if_pos first]
      refine ⟨rfl, ?_, fun _ => ⟨name.1, ?_, copyString_holds _ _ _⟩, fun i beyond => ?_⟩
      · rw [shape, first]
        rfl
      · rw [shape]
        exact longest_single name.1
      · exact (copyString_outside beyond).trans (visited.outside i beyond)
    · have some : matching compPrefix names ≠ [] := fun none => first (by rw [visited.count, none]; rfl)
      obtain ⟨p, longest, holds⟩ := visited.longest some
      have begun : compPrefix.1 <+: p := longest.2 _ fun other member => by
        simpa using (List.mem_filter.mp member).2
      have cutBegun : compPrefix.1 <+: p.take 127 := List.prefix_take_iff.mpr ⟨begun, short⟩
      have noZero : 0 ∉ p.take 127 := by
        obtain ⟨other, member⟩ := List.exists_mem_of_ne_nil _ some
        exact fun zero => matching_noZero member ((longest.1 other member).subset (List.take_subset _ _ zero))
      obtain ⟨cut, place⟩ := cut_holds holds noZero cutBegun begins
      rw [if_neg first]
      refine ⟨rfl, ?_, fun _ => ⟨common p name.1, ?_, ?_⟩, fun i beyond => ?_⟩
      · rw [shape, List.length_append, visited.count]
        rfl
      · rw [shape]
        exact longest_add longest name.1
      · rw [← common_take]
        exact cut
      · rw [List.length_take] at place
        exact (Function.update_of_ne (by omega) _ _).trans (visited.outside i beyond)
  · rw [if_neg begins] at shape ⊢
    rw [List.append_nil] at shape
    exact ⟨visited.given, shape ▸ visited.count, shape ▸ visited.longest, visited.outside⟩

theorem visitAll_visited {s : Completion} {seen : List CString} (short : compPrefix.1.length ≤ 127)
    (visited : Visited s compPrefix buffer seen) (names : List CString) :
    Visited (names.foldl tabVisitor s) compPrefix buffer (seen ++ names) := by
  induction names generalizing s seen with
  | nil => rwa [List.append_nil]
  | cons name names ih =>
    have rest := ih (tabVisitor_visited short visited name)
    rwa [List.append_assoc] at rest

theorem start_visited (compPrefix : CString) (buffer : Nat → UInt8) :
    Visited (Completion.start compPrefix buffer) compPrefix buffer [] :=
  ⟨rfl, rfl, fun some => absurd rfl some, fun i beyond => Function.update_of_ne (by omega) _ _⟩

/-- After any names the count is that of the names that begin with the prefix,
and the buffer holds the longest prefix that these have in common, cut to 127
characters. Nothing behind the 128 bytes of the buffer is written. -/
theorem tabVisitor_longest (compPrefix : CString) (short : compPrefix.1.length ≤ 127) (buffer : Nat → UInt8)
    (names : List CString) :
    let done := names.foldl tabVisitor (Completion.start compPrefix buffer)
    done.compMatchCount = (matching compPrefix names).length ∧
      (0 < done.compMatchCount →
        ∃ p, Longest p (matching compPrefix names) ∧ Holds done.compMatch (p.take 127)) ∧
      ∀ i, 128 ≤ i → done.compMatch i = buffer i := by
  intro done
  have visited := visitAll_visited short (start_visited compPrefix buffer) names
  rw [List.nil_append] at visited
  refine ⟨visited.count, fun some => visited.longest fun none => ?_, visited.outside⟩
  rw [visited.count, none] at some
  cases some

/-- In another order the names lead to the same text. -/
theorem visitAll_perm {others : List CString} (perm : names.Perm others) (short : compPrefix.1.length ≤ 127)
    (some : matching compPrefix names ≠ []) :
    ∃ text, Holds (names.foldl tabVisitor (Completion.start compPrefix buffer)).compMatch text ∧
      Holds (others.foldl tabVisitor (Completion.start compPrefix buffer)).compMatch text := by
  have visited := visitAll_visited short (start_visited compPrefix buffer) names
  have visitedOthers := visitAll_visited short (start_visited compPrefix buffer) others
  rw [List.nil_append] at visited visitedOthers
  have matched : (matching compPrefix names).Perm (matching compPrefix others) := (perm.map _).filter _
  obtain ⟨p, longest, holds⟩ := visited.longest some
  obtain ⟨q, longestOthers, holdsOthers⟩ := visitedOthers.longest fun none =>
    some (List.perm_nil.mp (none ▸ matched))
  have same : p = q := longest_unique (longest_congr (fun _ => matched.mem_iff) longest) longestOthers
  exact ⟨p.take 127, holds, same ▸ holdsOthers⟩

/-- `cat`, `dog` and `call` -/
def threeNames : List CString :=
  [⟨[0x63, 0x61, 0x74], by decide⟩, ⟨[0x64, 0x6F, 0x67], by decide⟩, ⟨[0x63, 0x61, 0x6C, 0x6C], by decide⟩]

def letterC : CString := ⟨[0x63], by decide⟩

theorem tabVisitor_longest_threeNames :
    let done := threeNames.foldl tabVisitor (Completion.start letterC fun _ => 0)
    done.compMatchCount = (matching letterC threeNames).length ∧
      (0 < done.compMatchCount →
        ∃ p, Longest p (matching letterC threeNames) ∧ Holds done.compMatch (p.take 127)) ∧
      ∀ i, 128 ≤ i → done.compMatch i = 0 :=
  tabVisitor_longest letterC (by decide) (fun _ => 0) threeNames

end

end MeowMeowOS.TabCompletion

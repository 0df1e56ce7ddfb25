import Mathlib.Data.List.TakeWhile
import MeowMeowOS.ByteMemory
import MeowMeowOS.Fat16Paths

/-! `strtok` of the kernel on the bytes of a path. It keeps its place in one static
variable and cuts the string by writing into it. -/
namespace MeowMeowOS.PathTokens
open ByteMemory Fat16Names Fat16Paths

/-- The bytes of the memory and `last_str`, which is 0 for `NULL`. -/
structure Tokenizer where
  mem : Mem
  lastStr : Nat

/-- The first loop: on to a byte that is no delimiter, or the end of the string. -/
def tokenStart (m : Mem) (delimiters : List UInt8) : Nat → Nat → Option Nat
  | 0, _ => none
  | fuel + 1, p => if m p ≠ 0 ∧ m p ∈ delimiters then tokenStart m delimiters fuel (p + 1) else some p

/-- The second loop: on to a delimiter, or the end of the string. -/
def tokenEnd (m : Mem) (delimiters : List UInt8) : Nat → Nat → Option Nat
  | 0, _ => none
  | fuel + 1, p => if m p ≠ 0 ∧ m p ∉ delimiters then tokenEnd m delimiters fuel (p + 1) else some p

/-- The pointer that is returned, 0 for `NULL`. -/
def strtok (fuel : Nat) (s : Tokenizer) (str : Nat) (delimiters : List UInt8) : Option (Nat × Tokenizer) :=
  let lastStr := if str ≠ 0 then str else s.lastStr
  if lastStr = 0 ∨ s.mem lastStr = 0 then some (0, { s with lastStr := lastStr })
  else match tokenStart s.mem delimiters fuel lastStr with
    | none => none
    | some start =>
      if s.mem start = 0 then some (0, { s with lastStr := 0 })
      else match tokenEnd s.mem delimiters fuel start with
        | none => none
        | some stop =>
          if s.mem stop = 0 then some (start, { s with lastStr := stop })
          else some (start, ⟨writeByte s.mem stop 0, stop + 1⟩)

/-- The bytes at `p` up to the zero byte. -/
def readString (m : Mem) : Nat → Nat → CString
  | 0, _ => []
  | fuel + 1, p => if m p = 0 then [] else m p :: readString m fuel (p + 1)

/-- What the caller reads at the pointer that `strtok` returned. -/
def readToken (m : Mem) (fuel p : Nat) : Option CString := if p = 0 then none else some (readString m fuel p)

def StringAt (m : Mem) : Nat → CString → Prop
  | p, [] => m p = 0
  | p, c :: rest => m p = c ∧ c ≠ 0 ∧ StringAt m (p + 1) rest

/-- The string that the next call goes on with. It lies between `lo` and `hi`. -/
def Rest (s : Tokenizer) (lo hi : Nat) (text : CString) : Prop :=
  (s.lastStr = 0 ∧ text = []) ∨
    (0 < s.lastStr ∧ lo ≤ s.lastStr ∧ s.lastStr + text.length < hi ∧ StringAt s.mem s.lastStr text)

section
variable {s t : Tokenizer} {m m' : Mem} {p lo hi fuel : Nat} {text word more : CString} {c : UInt8}

/-! ## Strings in memory -/

theorem stringAt_zero (string : StringAt m p text) : m (p + text.length) = 0 := by
  induction text generalizing p with
  | nil => exact string
  | cons c rest ih =>
    have behind := ih string.2.2
    rwa [Nat.add_assoc, Nat.add_comm 1] at behind

theorem stringAt_empty (string : StringAt m p text) : m p = 0 ↔ text = [] := by
  cases text with
  | nil => exact ⟨fun _ => rfl, fun _ => string⟩
  | cons c rest => exact ⟨fun zero => absurd (string.1.symm.trans zero) string.2.1, fun empty => nomatch empty⟩

theorem stringAt_agree (string : StringAt m p text) (agree : ∀ a, p ≤ a → a ≤ p + text.length → m' a = m a) :
    StringAt m' p text := by
  induction text generalizing p with
  | nil => exact (agree p (Nat.le_refl p) (Nat.le_refl p)).trans string
  | cons c rest ih =>
    rw [List.length_cons] at agree
    refine ⟨(agree p (Nat.le_refl p) (by omega)).trans string.1, string.2.1, ih string.2.2 fun a above below => ?_⟩
    exact agree a (by omega) (by omega)

theorem stringAt_append (string : StringAt m p (word ++ more)) : StringAt m (p + word.length) more := by
  induction word generalizing p with
  | nil => exact string
  | cons c rest ih =>
    have behind := ih string.2.2
    rwa [Nat.add_assoc, Nat.add_comm 1] at behind

/-- A zero byte written behind a prefix cuts the string there. -/
theorem stringAt_cut (string : StringAt m p (word ++ more)) : StringAt (writeByte m (p + word.length) 0) p word := by
  induction word generalizing p with
  | nil => exact if_pos rfl
  | cons c rest ih =>
    have behind := ih string.2.2
    rw [Nat.add_assoc, Nat.add_comm 1] at behind
    exact ⟨(if_neg (by rw [List.length_cons]; omega)).trans string.1, string.2.1, behind⟩

theorem readString_eq (string : StringAt m p text) (enough : text.length < fuel) : readString m fuel p = text := by
  induction text generalizing p fuel with
  | nil =>
    cases fuel with
    | zero => rfl
    | succ fuel => exact if_pos string
  | cons c rest ih =>
    obtain ⟨here, nonzero, behind⟩ := string
    cases fuel with
    | zero => cases enough
    | succ fuel =>
      rw [readString, if_neg (by rw [here]; exact nonzero), here, ih behind (Nat.lt_of_succ_lt_succ enough)]

/-! ## The tokens of a path -/

theorem tokens_append (path rest : CString) : tokens (path ++ slash :: rest) = tokens path ++ tokens rest := by
  unfold tokens
  rw [List.splitOn_append_cons_self, List.filter_append]

@[simp] theorem tokens_nil : tokens [] = [] := rfl

@[simp] theorem tokens_slash (path : CString) : tokens (slash :: path) = tokens path := tokens_append [] path

theorem tokens_word (plain : slash ∉ word) (some : word ≠ []) : tokens word = [word] := by
  unfold tokens
  rw [List.splitOn_eq_singleton plain]
  exact List.filter_cons_of_pos (by simpa using some)

/-- Leading slashes do not matter. -/
theorem tokens_dropWhile (path : CString) : tokens (path.dropWhile (· = slash)) = tokens path := by
  induction path with
  | nil => rfl
  | cons c rest ih =>
    by_cases delimiter : c = slash
    · rw [List.dropWhile_cons_of_pos (by simpa using delimiter), ih, delimiter, tokens_slash]
    · rw [List.dropWhile_cons_of_neg (by simpa using delimiter)]

/-! ## One call -/

theorem tokenStart_spec (string : StringAt m p text) (enough : text.length < fuel) :
    ∃ q, tokenStart m [slash] fuel p = some q ∧ p ≤ q ∧
    q + (text.dropWhile (· = slash)).length = p + text.length ∧
      StringAt m q (text.dropWhile (· = slash)) := by
  induction text generalizing p fuel with
  | nil =>
    cases fuel with
    | zero => cases enough
    | succ fuel => exact ⟨p, if_neg fun delimiter => delimiter.1 string, Nat.le_refl p, rfl, string⟩
  | cons c rest ih =>
    cases fuel with
    | zero => cases enough
    | succ fuel =>
      obtain ⟨here, nonzero, behind⟩ := string
      rw [tokenStart, here]
      by_cases delimiter : c = slash
      · obtain ⟨q, found, above, length, rest'⟩ := ih behind (Nat.lt_of_succ_lt_succ enough)
        rw [if_pos ⟨nonzero, by simpa using delimiter⟩,
          List.dropWhile_cons_of_pos (by simpa using delimiter), List.length_cons]
        exact ⟨q, found, by omega, by omega, rest'⟩
      · rw [if_neg fun delimited => delimiter (by simpa using delimited.2),
          List.dropWhile_cons_of_neg (by simpa using delimiter)]
        exact ⟨p, rfl, Nat.le_refl p, rfl, here, nonzero, behind⟩

theorem tokenEnd_spec (string : StringAt m p text) (enough : text.length < fuel) :
    tokenEnd m [slash] fuel p = some (p + (text.takeWhile (· ≠ slash)).length) := by
  induction text generalizing p fuel with
  | nil =>
    cases fuel with
    | zero => cases enough
    | succ fuel => exact if_neg fun delimiter => delimiter.1 string
  | cons c rest ih =>
    cases fuel with
    | zero => cases enough
    | succ fuel =>
      obtain ⟨here, nonzero, behind⟩ := string
      rw [tokenEnd, here]
      by_cases delimiter : c = slash
      · rw [if_neg fun inside => inside.2 (by simpa using delimiter),
          List.takeWhile_cons_of_neg (by simpa using delimiter)]
        rfl
      · rw [if_pos ⟨nonzero, by simpa using delimiter⟩, ih behind (Nat.lt_of_succ_lt_succ enough),
          List.takeWhile_cons_of_pos (by simpa using delimiter), List.length_cons, Nat.add_assoc, Nat.add_comm 1]

theorem strtok_begins (s : Tokenizer) (some : p ≠ 0) {delimiters : List UInt8} :
    strtok fuel s p delimiters = strtok fuel { s with lastStr := p } 0 delimiters := by
  unfold strtok
  simp only [some, ne_eq, not_false_eq_true, if_true, not_true_eq_false, if_false]

/-- What follows the leading slashes: nothing, one token, or a token and a slash. -/
theorem stripped_cases (text : CString) : text.dropWhile (· = slash) = [] ∨ ∃ token, token ≠ [] ∧
    slash ∉ token ∧
    (text.dropWhile (· = slash) = token ∨ ∃ more, text.dropWhile (· = slash) = token ++ slash :: more) := by
  cases stripped : text.dropWhile (· = slash) with
  | nil => exact Or.inl rfl
  | cons c rest =>
    right
    have letter : c ≠ slash := by
      have first := List.head_dropWhile_not (· = slash) (show text.dropWhile (· = slash) ≠ [] by simp [stripped])
      simpa [stripped] using first
    refine ⟨c :: rest.takeWhile (· ≠ slash), List.cons_ne_nil _ _, ?_, ?_⟩
    · rintro (_ | ⟨_, member⟩)
      · exact letter rfl
      · simpa using List.mem_takeWhile_imp member
    · have split := List.takeWhile_append_dropWhile (p := (· ≠ slash)) (l := rest)
      cases behind : rest.dropWhile (· ≠ slash) with
      | nil =>
        rw [behind, List.append_nil] at split
        exact Or.inl (by rw [split])
      | cons d more =>
        have delimiter : d = slash := by
          have first := List.head_dropWhile_not (· ≠ slash)
            (show rest.dropWhile (· ≠ slash) ≠ [] from fun empty => by cases behind.symm.trans empty)
          simp only [behind, List.head_cons, decide_eq_false_iff_not, not_not] at first
          exact first
        rw [behind, delimiter] at split
        exact Or.inr ⟨more, by rw [List.cons_append, split]⟩

theorem takeWhile_word (plain : slash ∉ word) (more : CString) :
    (word ++ slash :: more).takeWhile (· ≠ slash) = word ∧ word.takeWhile (· ≠ slash) = word := by
  have letters : ∀ c ∈ word, decide (c ≠ slash) = true := fun c member => by
    simpa using fun same : c = slash => plain (same ▸ member)
  rw [List.takeWhile_append_of_pos letters, List.takeWhile_cons_of_neg (by simp), List.append_nil]
  exact ⟨rfl, List.takeWhile_eq_self_iff.mpr letters⟩

/-- A call returns the first token of the rest and leaves the others. -/
theorem strtok_continues (rest : Rest s lo hi text) (enough : text.length < fuel) : ∃ p t text',
    strtok fuel s 0 [slash] = some (p, t) ∧ readToken t.mem fuel p = (tokens text).head? ∧ Rest t lo hi text' ∧
      tokens text' = (tokens text).tail ∧ text'.length ≤ text.length ∧ ∀ a, a < lo ∨ hi ≤ a →
      t.mem a = s.mem a := by
  have last : (if (0 : Nat) ≠ 0 then 0 else s.lastStr) = s.lastStr := rfl
  unfold strtok
  rw [last]
  dsimp only
  by_cases ends : s.lastStr = 0 ∨ s.mem s.lastStr = 0
  · have empty : text = [] := by
      rcases rest with ⟨-, empty⟩ | ⟨positive, -, -, string⟩
      · exact empty
      · exact (stringAt_empty string).mp (ends.resolve_left (Nat.ne_of_gt positive))
    subst empty
    rw [if_pos ends]
    exact ⟨0, _, [], rfl, rfl, rest, rfl, Nat.le_refl _, fun a _ => rfl⟩
  · obtain ⟨positive, above, below, string⟩ := rest.resolve_left fun null => ends (Or.inl null.1)
    obtain ⟨start, found, behind, length, stripped⟩ := tokenStart_spec string enough
    rw [if_neg ends, found, ← tokens_dropWhile text]
    dsimp only
    rcases stripped_cases text with none | ⟨token, some, plain, shape⟩
    · rw [none] at stripped ⊢
      rw [if_pos (show s.mem start = 0 from stripped)]
      exact ⟨0, _, [], rfl, rfl, Or.inl ⟨rfl, rfl⟩, rfl, Nat.zero_le _, fun a _ => rfl⟩
    · have letter : s.mem start ≠ 0 := fun zero => by
        have empty := (stringAt_empty stripped).mp zero
        rcases shape with shape | ⟨more, shape⟩
        · exact some (shape.symm.trans empty)
        · simp [shape] at empty
      have nonnull : start ≠ 0 := by omega
      have stop : tokenEnd s.mem [slash] fuel start = .some (start + token.length) := by
        rw [tokenEnd_spec stripped (by omega)]
        rcases shape with shape | ⟨more, shape⟩
        · rw [shape, (takeWhile_word plain []).2]
        · rw [shape, (takeWhile_word plain more).1]
      have covered : token.length ≤ (text.dropWhile (· = slash)).length := by
        rcases shape with shape | ⟨more, shape⟩
        · rw [shape]
        · rw [shape, List.length_append]
          exact Nat.le_add_right _ _
      rw [if_neg letter, stop]
      dsimp only
      unfold readToken
      rcases shape with shape | ⟨more, shape⟩
      · rw [shape] at stripped length ⊢
        have zero := stringAt_zero stripped
        rw [if_pos zero, tokens_word plain some]
        refine ⟨start, _, [], rfl, ?_, Or.inr ⟨?_, ?_, ?_, zero⟩, rfl, Nat.zero_le _, fun a _ => rfl⟩
        · rw [if_neg nonnull, readString_eq stripped (by omega)]
          rfl
        all_goals dsimp only [List.length_nil]; omega
      · rw [shape] at stripped length ⊢
        rw [List.length_append, List.length_cons] at length
        have cut := stringAt_append stripped
        have delimiter : ¬ s.mem (start + token.length) = 0 := fun zero => cut.2.1 (cut.1.symm.trans zero)
        rw [if_neg delimiter, tokens_append, tokens_word plain some]
        refine ⟨start, _, more, rfl, ?_, Or.inr ⟨Nat.succ_pos _, ?_, ?_, ?_⟩, rfl, by omega, ?_⟩
        · rw [if_neg nonnull, readString_eq (stringAt_cut stripped) (by omega)]
          rfl
        · dsimp only
          omega
        · dsimp only
          omega
        · exact stringAt_agree cut.2.2 fun a (above : start + token.length + 1 ≤ a) _ => if_neg (by omega)
        · intro a outside
          exact if_neg (by omega)

end

end MeowMeowOS.PathTokens

import MeowMeowOS.PathTokens

/-! `strtok` with any delimiters. The calls on one string return its maximal runs of
other characters, one after the other, and each run is cut off where it lies. -/
namespace MeowMeowOS.StringTokens
open ByteMemory Fat16Names PathTokens

/-- The word stands at position `i` of the text, between delimiters or ends. -/
structure MaximalRun (delimiters : List UInt8) (text : CString) (i : Nat) (word : CString) : Prop where
  some : word ≠ []
  letters : ∀ c ∈ word, c ∉ delimiters
  place : ∃ before after, text = before ++ word ++ after ∧ before.length = i ∧
    (∀ c ∈ before.getLast?, c ∈ delimiters) ∧ ∀ c ∈ after.head?, c ∈ delimiters

/-- `strtok(NULL, delimiters)`, so many times: the pointers that are returned. -/
def strtokCalls (fuel : Nat) (delimiters : List UInt8) : Nat → Tokenizer → Option (List Nat × Tokenizer)
  | 0, s => some ([], s)
  | n + 1, s =>
    match strtok fuel s 0 delimiters with
    | none => none
    | some (p, s) => (strtokCalls fuel delimiters n s).map fun (ps, s) => (p :: ps, s)

/-- `strtok(str, delimiters)`, and then `strtok(NULL, delimiters)` so many times. -/
def strtokAll (fuel : Nat) (delimiters : List UInt8) (str n : Nat) (s : Tokenizer) : Option (List Nat × Tokenizer) :=
  match strtok fuel s str delimiters with
  | none => none
  | some (p, s) => (strtokCalls fuel delimiters n s).map fun (ps, s) => (p :: ps, s)

/-- The positions and the runs of a text that begins at position `i`. -/
def runsFrom (delimiters : List UInt8) : Nat → CString → List (Nat × CString)
  | _, [] => []
  | i, c :: rest =>
    if c ∈ delimiters then runsFrom delimiters (i + 1) rest
    else
      match runsFrom delimiters (i + 1) rest with
      | [] => [(i, [c])]
      | (j, word) :: more => if j = i + 1 then (i, c :: word) :: more else (i, [c]) :: (j, word) :: more

/-- What a call returns for a run of the string at `str`, or when there is none. -/
def pointer (str : Nat) : Option (Nat × CString) → Nat
  | none => 0
  | some (i, _) => str + i

section
variable {delimiters : List UInt8} {text word rest more gap : CString} {c : UInt8} {i j k : Nat}

/-! ## Runs of a text -/

theorem runsFrom_delimiter (delimiter : c ∈ delimiters) (i : Nat) (rest : CString) :
    runsFrom delimiters i (c :: rest) = runsFrom delimiters (i + 1) rest := if_pos delimiter

theorem runsFrom_sorted (delimiters : List UInt8) (i : Nat) (text : CString) :
    (∀ run ∈ runsFrom delimiters i text, i ≤ run.1) ∧
      (runsFrom delimiters i text).Pairwise fun run later => run.1 < later.1 := by
  induction text generalizing i with
  | nil => exact ⟨nofun, List.Pairwise.nil⟩
  | cons c rest ih =>
    obtain ⟨above, sorted⟩ := ih (i + 1)
    rw [runsFrom]
    split
    · exact ⟨fun run member => Nat.le_of_succ_le (above run member), sorted⟩
    · cases runs : runsFrom delimiters (i + 1) rest with
      | nil => simp
      | cons first later =>
        obtain ⟨j, word⟩ := first
        rw [runs] at above sorted
        obtain ⟨behind, sortedLater⟩ := List.pairwise_cons.mp sorted
        have start := above (j, word) List.mem_cons_self
        dsimp only at start behind ⊢
        split
        · refine ⟨?_, List.pairwise_cons.mpr ⟨fun run member => ?_, sortedLater⟩⟩
          · intro run member
            rcases List.mem_cons.mp member with rfl | member
            · exact Nat.le_refl i
            · exact Nat.le_of_succ_le (above run (List.mem_cons_of_mem _ member))
          · have := behind run member
            dsimp only
            omega
        · refine ⟨?_, List.pairwise_cons.mpr ⟨fun run member => above run member, sorted⟩⟩
          intro run member
          rcases List.mem_cons.mp member with rfl | member
          · exact Nat.le_refl i
          · exact Nat.le_of_succ_le (above run member)

theorem runsFrom_gap (delimited : ∀ c ∈ gap, c ∈ delimiters) (i : Nat) (text : CString) :
    runsFrom delimiters i (gap ++ text) = runsFrom delimiters (i + gap.length) text := by
  induction gap generalizing i with
  | nil => rfl
  | cons c gap ih =>
    rw [List.cons_append, runsFrom_delimiter (delimited c List.mem_cons_self),
      ih (fun d member => delimited d (List.mem_cons_of_mem c member)), List.length_cons, Nat.add_assoc, Nat.add_comm 1]

theorem runsFrom_letter (letter : c ∉ delimiters) (i : Nat) (rest : CString) :
    runsFrom delimiters i (c :: rest) =
      match runsFrom delimiters (i + 1) rest with
      | [] => [(i, [c])]
      | (j, word) :: more => if j = i + 1 then (i, c :: word) :: more else (i, [c]) :: (j, word) :: more :=
  if_neg letter

/-- A word is the first run of a text; what follows a delimiter behind it has the others. -/
theorem runsFrom_word (some : word ≠ []) (letters : ∀ c ∈ word, c ∉ delimiters)
    (stops : more = [] ∨ ∃ c rest, more = c :: rest ∧ c ∈ delimiters) (i : Nat) :
    runsFrom delimiters i (word ++ more) = (i, word) :: runsFrom delimiters (i + word.length) more := by
  induction word generalizing i with
  | nil => exact absurd rfl some
  | cons c word ih =>
    have others : ∀ d ∈ word, d ∉ delimiters := fun d member => letters d (List.mem_cons_of_mem c member)
    rw [List.cons_append, runsFrom_letter (letters c List.mem_cons_self), List.length_cons]
    by_cases last : word = []
    · subst last
      rw [List.nil_append, List.length_nil, Nat.zero_add]
      rcases stops with rfl | ⟨d, rest, rfl, delimiter⟩
      · rfl
      · rw [runsFrom_delimiter delimiter]
        cases runs : runsFrom delimiters (i + 1 + 1) rest with
        | nil => rfl
        | cons first later =>
          obtain ⟨j, word⟩ := first
          have start := (runsFrom_sorted delimiters (i + 1 + 1) rest).1 (j, word) (by simp [runs])
          dsimp only at start ⊢
          rw [if_neg (by omega)]
    · rw [ih last others]
      dsimp only
      rw [if_pos rfl, Nat.add_assoc, Nat.add_comm 1]

/-! ## The runs are the maximal ones -/

theorem maximalRun_delimiter (delimiter : c ∈ delimiters) :
    MaximalRun delimiters (c :: rest) k word ↔ ∃ i, k = i + 1 ∧ MaximalRun delimiters rest i word := by
  constructor
  · rintro ⟨some, letters, before, after, shape, length, left, right⟩
    cases before with
    | nil =>
      obtain ⟨d, word, rfl⟩ := List.exists_cons_of_ne_nil some
      rw [List.nil_append, List.cons_append] at shape
      obtain ⟨rfl, -⟩ := List.cons.inj shape
      exact absurd delimiter (letters c List.mem_cons_self)
    | cons d before =>
      obtain ⟨rfl, tailShape⟩ := List.cons.inj shape
      refine ⟨before.length, length.symm, some, letters, before, after, tailShape, rfl, fun e last => ?_, right⟩
      refine left e ?_
      cases before with
      | nil => cases last
      | cons f before => rwa [List.getLast?_cons_cons]
  · rintro ⟨i, rfl, some, letters, before, after, rfl, rfl, left, right⟩
    refine ⟨some, letters, c :: before, after, rfl, rfl, fun e last => ?_, right⟩
    cases before with
    | nil =>
      obtain rfl : c = e := by simpa using last
      exact delimiter
    | cons f before =>
      rw [List.getLast?_cons_cons] at last
      exact left e last

/-- Behind a letter a run does not begin at once. -/
theorem maximalRun_later (letter : c ∉ delimiters) :
    MaximalRun delimiters (c :: rest) (k + 1) word ↔ 0 < k ∧ MaximalRun delimiters rest k word := by
  constructor
  · rintro ⟨some, letters, before, after, shape, length, left, right⟩
    cases before with
    | nil => cases length
    | cons d before =>
      obtain ⟨rfl, tailShape⟩ := List.cons.inj shape
      obtain rfl : before.length = k := Nat.succ.inj length
      cases before with
      | nil => exact absurd (left c (by simp)) letter
      | cons f before =>
        refine ⟨Nat.succ_pos _, some, letters, f :: before, after, tailShape, rfl, fun e last => ?_, right⟩
        exact left e (by rwa [List.getLast?_cons_cons])
  · rintro ⟨positive, some, letters, before, after, rfl, rfl, left, right⟩
    refine ⟨some, letters, c :: before, after, rfl, rfl, fun e last => ?_, right⟩
    cases before with
    | nil => cases positive
    | cons f before =>
      rw [List.getLast?_cons_cons] at last
      exact left e last

/-- The run that begins with a letter goes on with the run behind it, if one begins there. -/
theorem maximalRun_first (letter : c ∉ delimiters) : MaximalRun delimiters (c :: rest) 0 word ↔
    (word = [c] ∧ ∀ d ∈ rest.head?, d ∈ delimiters) ∨ ∃ tail, word = c :: tail ∧
    MaximalRun delimiters rest 0 tail := by
  constructor
  · rintro ⟨some, letters, before, after, shape, length, -, right⟩
    obtain rfl := List.length_eq_zero_iff.mp length
    obtain ⟨d, tail, rfl⟩ := List.exists_cons_of_ne_nil some
    rw [List.nil_append, List.cons_append] at shape
    obtain ⟨rfl, rfl⟩ := List.cons.inj shape
    cases tail with
    | nil => exact .inl ⟨rfl, right⟩
    | cons e tail =>
      refine .inr ⟨e :: tail, rfl, List.cons_ne_nil e tail, fun f member => letters f (List.mem_cons_of_mem c member),
        [], after, rfl, rfl, nofun, right⟩
  · rintro (⟨rfl, stops⟩ | ⟨tail, rfl, some, letters, before, after, rfl, length, left, right⟩)
    · exact ⟨List.cons_ne_nil c [], by simpa using letter, [], rest, rfl, rfl, nofun, stops⟩
    · obtain rfl := List.length_eq_zero_iff.mp length
      refine ⟨List.cons_ne_nil c tail, fun d member => ?_, [], after, rfl, rfl, nofun, right⟩
      rcases List.mem_cons.mp member with rfl | member
      · exact letter
      · exact letters d member

theorem runsFrom_first (letter : c ∉ delimiters) (i : Nat) (rest : CString) :
    ∃ word more, runsFrom delimiters i (c :: rest) = (i, word) :: more := by
  rw [runsFrom_letter letter]
  cases runsFrom delimiters (i + 1) rest with
  | nil => exact ⟨_, _, rfl⟩
  | cons first later =>
    dsimp only
    split
    · exact ⟨_, _, rfl⟩
    · exact ⟨_, _, rfl⟩

theorem mem_runsFrom : (j, word) ∈ runsFrom delimiters i text ↔ ∃ k, j = i + k ∧
    MaximalRun delimiters text k word := by
  induction text generalizing i j word with
  | nil =>
    refine ⟨nofun, ?_⟩
    rintro ⟨k, -, some, -, before, after, shape, -⟩
    simp_all
  | cons c rest ih =>
    by_cases delimiter : c ∈ delimiters
    · rw [runsFrom_delimiter delimiter, ih]
      constructor
      · rintro ⟨k, rfl, run⟩
        exact ⟨k + 1, by omega, (maximalRun_delimiter delimiter).mpr ⟨k, rfl, run⟩⟩
      · rintro ⟨k, rfl, run⟩
        obtain ⟨k, rfl, behind⟩ := (maximalRun_delimiter delimiter).mp run
        exact ⟨k, by omega, behind⟩
    · have above := (runsFrom_sorted delimiters (i + 1) rest).1
      have sorted := (runsFrom_sorted delimiters (i + 1) rest).2
      by_cases stops : ∀ d ∈ rest.head?, d ∈ delimiters
      · -- the letter is a run of its own
        have shape : runsFrom delimiters i (c :: rest) = (i, [c]) :: runsFrom delimiters (i + 1) rest := by
          refine runsFrom_word (List.cons_ne_nil c []) (by simpa using delimiter) ?_ i
          cases rest with
          | nil => exact .inl rfl
          | cons d rest => exact .inr ⟨d, rest, rfl, stops d rfl⟩
        have absent : ∀ tail, ¬ MaximalRun delimiters rest 0 tail := by
          rintro tail ⟨some, letters, before, after, rfl, length, -⟩
          obtain rfl := List.length_eq_zero_iff.mp length
          obtain ⟨d, tail, rfl⟩ := List.exists_cons_of_ne_nil some
          exact letters d List.mem_cons_self (stops d rfl)
        rw [shape, List.mem_cons, ih]
        constructor
        · rintro (same | ⟨k, rfl, run⟩)
          · obtain ⟨rfl, rfl⟩ := Prod.mk.inj same
            exact ⟨0, rfl, (maximalRun_first delimiter).mpr (.inl ⟨rfl, stops⟩)⟩
          · refine ⟨k + 1, by omega, (maximalRun_later delimiter).mpr ⟨?_, run⟩⟩
            exact Nat.pos_of_ne_zero fun zero => absent word (zero ▸ run)
        · rintro ⟨k, rfl, run⟩
          cases k with
          | zero =>
            rcases (maximalRun_first delimiter).mp run with ⟨rfl, -⟩ | ⟨tail, -, begun⟩
            · exact .inl rfl
            · exact absurd begun (absent tail)
          | succ k => exact .inr ⟨k, by omega, ((maximalRun_later delimiter).mp run).2⟩
      · -- the letter goes before the run that begins behind it
        obtain ⟨d, rest', rfl, letter⟩ : ∃ d rest', rest = d :: rest' ∧ d ∉ delimiters := by
          cases rest with
          | nil => exact absurd nofun stops
          | cons d rest' => exact ⟨d, rest', rfl, fun delimited => stops (by simpa using delimited)⟩
        obtain ⟨first, later, runs⟩ := runsFrom_first letter (i + 1) rest'
        rw [runs] at above sorted
        have behind := (List.pairwise_cons.mp sorted).1
        have shape : runsFrom delimiters i (c :: d :: rest') = (i, c :: first) :: later := by
          rw [runsFrom_letter delimiter, runs]
          exact if_pos rfl
        have begun : ∀ tail, MaximalRun delimiters (d :: rest') 0 tail ↔ tail = first := by
          intro tail
          have member : (i + 1, tail) ∈ runsFrom delimiters (i + 1) (d :: rest') ↔ _ := ih
          rw [runs, List.mem_cons] at member
          constructor
          · intro run
            rcases member.mpr ⟨0, rfl, run⟩ with same | others
            · exact (Prod.mk.inj same).2
            · exact absurd (behind _ others) (Nat.lt_irrefl (i + 1))
          · rintro rfl
            obtain ⟨k, zero, run⟩ := member.mp (.inl rfl)
            obtain rfl : k = 0 := by omega
            exact run
        have others : ∀ k, 0 < k → ((i + 1 + k, word) ∈ later ↔ MaximalRun delimiters (d :: rest') k word) := by
          intro k positive
          have member : (i + 1 + k, word) ∈ runsFrom delimiters (i + 1) (d :: rest') ↔ _ := ih
          rw [runs, List.mem_cons] at member
          constructor
          · intro found
            obtain ⟨k', same, run⟩ := member.mp (.inr found)
            obtain rfl : k = k' := by omega
            exact run
          · intro run
            rcases member.mpr ⟨k, rfl, run⟩ with same | found
            · have := (Prod.mk.inj same).1
              omega
            · exact found
        rw [shape, List.mem_cons]
        constructor
        · rintro (same | found)
          · obtain ⟨rfl, rfl⟩ := Prod.mk.inj same
            exact ⟨0, rfl, (maximalRun_first delimiter).mpr (.inr ⟨first, rfl, (begun first).mpr rfl⟩)⟩
          · have less := behind _ found
            dsimp only at less
            have place : j = i + 1 + (j - i - 1) := by omega
            rw [place, others _ (by omega)] at found
            exact ⟨j - i - 1 + 1, by omega, (maximalRun_later delimiter).mpr ⟨by omega, found⟩⟩
        · rintro ⟨k, rfl, run⟩
          cases k with
          | zero =>
            rcases (maximalRun_first delimiter).mp run with ⟨-, ends⟩ | ⟨tail, rfl, starts⟩
            · exact absurd ends stops
            · rw [(begun tail).mp starts]
              exact .inl rfl
          | succ k =>
            obtain ⟨positive, behindLetter⟩ := (maximalRun_later delimiter).mp run
            rw [show i + (k + 1) = i + 1 + k by omega]
            exact .inr ((others k positive).mpr behindLetter)

end

/-! ## One call -/

/-- Where the next call begins: at position `i` of the string at `str`, with the text from there on. -/
def Standing (s : Tokenizer) (str i : Nat) (text : CString) : Prop :=
  (s.lastStr = 0 ∧ text = []) ∨ (0 < str + i ∧ s.lastStr = str + i ∧ StringAt s.mem (str + i) text)

section
variable {s : Tokenizer} {delimiters : List UInt8} {m : Mem} {text word gap : CString} {fuel p str i n : Nat}

theorem tokenStart_gap (string : StringAt m p (gap ++ text)) (delimited : ∀ c ∈ gap, c ∈ delimiters)
    (stops : ∀ c ∈ text.head?, c ∉ delimiters) (enough : gap.length < fuel) :
    tokenStart m delimiters fuel p = some (p + gap.length) := by
  induction gap generalizing p fuel with
  | nil =>
    obtain ⟨fuel, rfl⟩ := Nat.exists_eq_add_of_lt enough
    rw [tokenStart, if_neg]
    · rfl
    · rintro ⟨nonzero, delimiter⟩
      cases text with
      | nil => exact nonzero string
      | cons c rest => exact stops c rfl (string.1 ▸ delimiter)
  | cons c gap ih =>
    obtain ⟨here, nonzero, behind⟩ := string
    cases fuel with
    | zero => cases enough
    | succ fuel =>
      rw [tokenStart, here, if_pos ⟨nonzero, delimited c List.mem_cons_self⟩,
        ih behind (fun d member => delimited d (List.mem_cons_of_mem c member)) (Nat.lt_of_succ_lt_succ enough),
        List.length_cons, Nat.add_assoc, Nat.add_comm 1]

theorem tokenEnd_word (string : StringAt m p (word ++ text)) (letters : ∀ c ∈ word, c ∉ delimiters)
    (stops : ∀ c ∈ text.head?, c ∈ delimiters) (enough : word.length < fuel) :
    tokenEnd m delimiters fuel p = some (p + word.length) := by
  induction word generalizing p fuel with
  | nil =>
    obtain ⟨fuel, rfl⟩ := Nat.exists_eq_add_of_lt enough
    rw [tokenEnd, if_neg]
    · rfl
    · rintro ⟨nonzero, letter⟩
      cases text with
      | nil => exact nonzero string
      | cons c rest => exact letter (string.1 ▸ stops c rfl)
  | cons c word ih =>
    obtain ⟨here, nonzero, behind⟩ := string
    cases fuel with
    | zero => cases enough
    | succ fuel =>
      rw [tokenEnd, here, if_pos ⟨nonzero, letters c List.mem_cons_self⟩,
        ih behind (fun d member => letters d (List.mem_cons_of_mem c member)) (Nat.lt_of_succ_lt_succ enough),
        List.length_cons, Nat.add_assoc, Nat.add_comm 1]

/-- A text is delimiters, a word and the rest, or delimiters only. -/
theorem text_cases (delimiters : List UInt8) (text : CString) :
    (∀ c ∈ text, c ∈ delimiters) ∨ ∃ gap word more, text = gap ++ (word ++ more) ∧
    (∀ c ∈ gap, c ∈ delimiters) ∧
      word ≠ [] ∧ (∀ c ∈ word, c ∉ delimiters) ∧ ∀ c ∈ more.head?, c ∈ delimiters := by
  have split := List.takeWhile_append_dropWhile (p := (· ∈ delimiters)) (l := text)
  have delimited : ∀ c ∈ text.takeWhile (· ∈ delimiters), c ∈ delimiters := fun c member => by
    simpa using List.mem_takeWhile_imp member
  cases stripped : text.dropWhile (· ∈ delimiters) with
  | nil =>
    rw [stripped, List.append_nil] at split
    exact .inl (split ▸ delimited)
  | cons c rest =>
    have letter : c ∉ delimiters := by
      have first := List.head_dropWhile_not (· ∈ delimiters)
        (show text.dropWhile (· ∈ delimiters) ≠ [] by simp [stripped])
      simpa [stripped] using first
    have cut := List.takeWhile_append_dropWhile (p := (· ∉ delimiters)) (l := rest)
    refine .inr ⟨_, c :: rest.takeWhile (· ∉ delimiters), rest.dropWhile (· ∉ delimiters), ?_, delimited,
      List.cons_ne_nil _ _, fun d member => ?_, fun d first => ?_⟩
    · rw [List.cons_append, cut, ← stripped, split]
    · rcases List.mem_cons.mp member with rfl | member
      · exact letter
      · simpa using List.mem_takeWhile_imp member
    · cases behind : rest.dropWhile (· ∉ delimiters) with
      | nil =>
        rw [behind] at first
        cases first
      | cons e more =>
        have stop := List.head_dropWhile_not (· ∉ delimiters)
          (show rest.dropWhile (· ∉ delimiters) ≠ [] from fun empty => by cases behind.symm.trans empty)
        rw [behind] at first
        obtain rfl : e = d := by simpa using first
        simp only [behind, List.head_cons, decide_eq_false_iff_not, not_not] at stop
        exact stop

/-- A call that finds a run cuts it off and stands behind it. -/
structure Returns (s t : Tokenizer) (delimiters : List UInt8) (str i : Nat) (text : CString) (j : Nat) (word : CString)
    (i' : Nat) (text' : CString) : Prop where
  runs : runsFrom delimiters i text = (j, word) :: runsFrom delimiters i' text'
  standing : Standing t str i' text'
  short : text'.length ≤ text.length ∧ word.length ≤ text.length
  behind : j + word.length ≤ i'
  token : StringAt t.mem (str + j) word
  memory : ∀ a, a ≠ str + j + word.length → t.mem a = s.mem a

theorem strtok_next (standing : Standing s str i text) (delimiters : List UInt8) (enough : text.length < fuel) :
    (runsFrom delimiters i text = [] ∧ ∃ t, strtok fuel s 0 delimiters = some (0, t) ∧ t.mem = s.mem ∧
      ∃ i', Standing t str i' []) ∨
    ∃ j word i' text' t, strtok fuel s 0 delimiters = some (str + j, t) ∧
      Returns s t delimiters str i text j word i' text' := by
  have last : (if (0 : Nat) ≠ 0 then 0 else s.lastStr) = s.lastStr := rfl
  unfold strtok
  rw [last]
  dsimp only
  by_cases ends : s.lastStr = 0 ∨ s.mem s.lastStr = 0
  · have empty : text = [] := by
      rcases standing with ⟨-, empty⟩ | ⟨positive, place, string⟩
      · exact empty
      · rw [place] at ends
        exact (stringAt_empty string).mp (ends.resolve_left (Nat.ne_of_gt positive))
    subst empty
    rw [if_pos ends]
    exact .inl ⟨rfl, _, rfl, rfl, i, standing⟩
  · obtain ⟨positive, place, string⟩ := standing.resolve_left fun null => ends (.inl null.1)
    rw [if_neg ends, place]
    rcases text_cases delimiters text with delimited | ⟨gap, word, more, rfl, delimited, some, letters, stops⟩
    · have padded : StringAt s.mem (str + i) (text ++ []) := by rwa [List.append_nil]
      have found := tokenStart_gap padded delimited nofun enough
      have none : runsFrom delimiters i text = [] := by
        have shape := runsFrom_gap delimited i []
        rwa [List.append_nil] at shape
      rw [found]
      dsimp only
      rw [if_pos (stringAt_zero string)]
      exact .inl ⟨none, _, rfl, rfl, i, .inl ⟨rfl, rfl⟩⟩
    · have long : gap.length + (word.length + more.length) < fuel := by simpa using enough
      have first : ∀ c ∈ (word ++ more).head?, c ∉ delimiters := by
        obtain ⟨c, tail, rfl⟩ := List.exists_cons_of_ne_nil some
        intro d head
        obtain rfl : c = d := by simpa using head
        exact letters c List.mem_cons_self
      have token := stringAt_append string
      have letter : ¬ s.mem (str + i + gap.length) = 0 := fun zero => by
        have empty := (stringAt_empty token).mp zero
        exact some (List.append_eq_nil_iff.mp empty).1
      have runs : runsFrom delimiters i (gap ++ (word ++ more)) =
          (i + gap.length, word) :: runsFrom delimiters (i + gap.length + word.length) more := by
        rw [runsFrom_gap delimited]
        refine runsFrom_word some letters ?_ _
        cases more with
        | nil => exact .inl rfl
        | cons c rest => exact .inr ⟨c, rest, rfl, stops c rfl⟩
      rw [tokenStart_gap string delimited first (by omega)]
      dsimp only
      rw [if_neg letter, tokenEnd_word token letters stops (by omega)]
      dsimp only
      have rest := stringAt_append token
      right
      rw [Nat.add_assoc str i] at token rest ⊢
      cases more with
      | nil =>
        rw [if_pos (show s.mem _ = 0 from rest)]
        rw [List.append_nil] at token
        refine ⟨i + gap.length, word, i + gap.length + word.length, [], _, rfl, runs, .inr ⟨?_, ?_, ?_⟩, ?_,
          Nat.le_refl _, token, fun _ _ => rfl⟩
        · omega
        · rw [Nat.add_assoc str]
        · rwa [Nat.add_assoc str] at rest
        · simp
      | cons c more =>
        obtain ⟨here, nonzero, behind⟩ := rest
        rw [if_neg (by rw [here]; exact nonzero)]
        refine ⟨i + gap.length, word, i + gap.length + word.length + 1, more, _, rfl, ?_, .inr ⟨?_, ?_, ?_⟩, ?_,
          Nat.le_succ _, stringAt_cut token, fun a apart => if_neg apart⟩
        · rw [runs, runsFrom_delimiter (stops c rfl)]
        · omega
        · dsimp only
          omega
        · rw [show str + (i + gap.length + word.length + 1) = str + (i + gap.length) + word.length + 1 by omega]
          exact stringAt_agree behind fun a above _ => if_neg (by omega)
        · simp
          omega

/-! ## All calls -/

/-- The calls return the runs in their order, and `NULL` when there are no more. -/
theorem strtokCalls_runs (standing : Standing s str i text) (delimiters : List UInt8) (nonnull : str ≠ 0)
    (enough : text.length < fuel) (n : Nat) : ∃ ps t, strtokCalls fuel delimiters n s = some (ps, t) ∧
      ps = (List.range n).map (fun k => pointer str (runsFrom delimiters i text)[k]?) ∧
      ps.map (readToken t.mem fuel) = (List.range n).map (fun k => (runsFrom delimiters i text)[k]?.map Prod.snd) ∧
      ∀ a, t.mem a = s.mem a ∨ ∃ run ∈ runsFrom delimiters i text, a = str + run.1 + run.2.length := by
  induction n generalizing s i text with
  | zero => exact ⟨[], s, rfl, rfl, rfl, fun a => .inl rfl⟩
  | succ n ih =>
    rw [strtokCalls, List.range_succ_eq_map, List.map_cons, List.map_map, List.map_cons, List.map_map]
    rcases strtok_next standing delimiters enough with ⟨none, t, ran, same, i', standing'⟩ |
      ⟨j, word, i', text', t, ran, returns⟩
    · obtain ⟨ps, u, later, pointers, read, memory⟩ := ih standing' (Nat.lt_of_le_of_lt (Nat.zero_le _) enough)
      rw [none, ran]
      dsimp only
      rw [later]
      refine ⟨0 :: ps, u, rfl, ?_, ?_, fun a => ?_⟩
      · rw [pointers]
        rfl
      · rw [List.map_cons, read]
        rfl
      · rw [← same]
        exact memory a
    · obtain ⟨ps, u, later, pointers, read, memory⟩ :=
        ih returns.standing (Nat.lt_of_le_of_lt returns.short.1 enough)
      obtain ⟨above, -⟩ := runsFrom_sorted delimiters i' text'
      have kept : ∀ a, a ≤ str + j + word.length → u.mem a = t.mem a := by
        intro a low
        rcases memory a with same | ⟨run, member, rfl⟩
        · exact same
        · have start := above run member
          have behind := returns.behind
          obtain ⟨k, -, found⟩ := mem_runsFrom.mp (show (run.1, run.2) ∈ _ from member)
          have := List.length_pos_of_ne_nil found.some
          omega
      have token : readToken u.mem fuel (str + j) = some word := by
        rw [readToken, if_neg (by omega), readString_eq (stringAt_agree returns.token fun a _ low => kept a low)]
        exact Nat.lt_of_le_of_lt returns.short.2 enough
      rw [returns.runs, ran]
      dsimp only
      rw [later]
      refine ⟨(str + j) :: ps, u, rfl, ?_, ?_, fun a => ?_⟩
      · rw [pointers]
        rfl
      · rw [List.map_cons, token, read]
        rfl
      · rcases memory a with same | ⟨run, member, place⟩
        · by_cases stop : a = str + j + word.length
          · exact .inr ⟨(j, word), List.mem_cons_self, stop⟩
          · exact .inl (same.trans (returns.memory a stop))
        · exact .inr ⟨run, List.mem_cons_of_mem _ member, place⟩

/-- The calls on a string return its maximal runs in their order, each cut off in
its place, and `NULL` from then on, whatever was tokenized before. -/
theorem strtok_splits (s : Tokenizer) (nonnull : str ≠ 0) (string : StringAt s.mem str text) (delimiters : List UInt8)
    (enough : text.length < fuel) :
    ∃ runs : List (Nat × CString), runs.Pairwise (fun run later => run.1 < later.1) ∧
      (∀ i word, (i, word) ∈ runs ↔ MaximalRun delimiters text i word) ∧
      ∀ n, ∃ ps t, strtokAll fuel delimiters str n s = some (ps, t) ∧
        ps = (List.range (n + 1)).map (fun k => pointer str runs[k]?) ∧
        ps.map (readToken t.mem fuel) = (List.range (n + 1)).map (fun k => runs[k]?.map Prod.snd) ∧
        ∀ a, t.mem a = s.mem a ∨ ∃ run ∈ runs, a = str + run.1 + run.2.length := by
  refine ⟨runsFrom delimiters 0 text, (runsFrom_sorted delimiters 0 text).2, fun i word => ?_, fun n => ?_⟩
  · rw [mem_runsFrom]
    constructor
    · rintro ⟨k, rfl, run⟩
      rwa [Nat.zero_add]
    · exact fun run => ⟨i, (Nat.zero_add i).symm, run⟩
  · have standing : Standing { s with lastStr := str } str 0 text := .inr ⟨by omega, rfl, string⟩
    have calls := strtokCalls_runs standing delimiters nonnull enough (n + 1)
    rw [strtokCalls, ← strtok_begins s nonnull] at calls
    exact calls

/-- `a,b` at address 1, where 44 is the comma. -/
def commaText : Mem := fun a => ([0, 0x61, 0x2C, 0x62, 0] : List UInt8).getD a 0

theorem strtok_splits_comma : ∃ runs : List (Nat × CString), runs.Pairwise (fun run later => run.1 < later.1) ∧
    (∀ i word, (i, word) ∈ runs ↔ MaximalRun [0x2C] [0x61, 0x2C, 0x62] i word) ∧
    ∀ n, ∃ ps t, strtokAll 4 [0x2C] 1 n ⟨commaText, 9⟩ = some (ps, t) ∧
      ps = (List.range (n + 1)).map (fun k => pointer 1 runs[k]?) ∧
      ps.map (readToken t.mem 4) = (List.range (n + 1)).map (fun k => runs[k]?.map Prod.snd) ∧
      ∀ a, t.mem a = commaText a ∨ ∃ run ∈ runs, a = 1 + run.1 + run.2.length := by
  have string : StringAt commaText 1 [0x61, 0x2C, 0x62] := ⟨rfl, by decide, rfl, by decide, rfl, by decide, rfl⟩
  exact strtok_splits ⟨commaText, 9⟩ (by decide) string [0x2C] (by decide)

end

end MeowMeowOS.StringTokens

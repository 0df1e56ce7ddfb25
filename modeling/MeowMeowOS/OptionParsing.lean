import MeowMeowOS.NumberText
import Mathlib.Data.List.TakeWhile

/-! `getopt`, which steps through the arguments with an index and a position, against the
options that the arguments spell, word by word. -/
namespace MeowMeowOS.OptionParsing
open NumberText

/-! ## The function -/

def dash : UInt8 := 0x2D
def colon : UInt8 := 0x3A

/-- The characters of a word, and the zero behind them. -/
def charAt (word : List UInt8) (i : Nat) : UInt8 := word.getD i 0

/-- The string from a character other than zero on. -/
def strchr (c : UInt8) : List UInt8 → Option (List UInt8)
  | [] => none
  | a :: rest => if a = c then some (a :: rest) else strchr c rest

/-- A `char` as an `int`. -/
def charValue (c : UInt8) : Int := if c.toNat < 128 then c.toNat else c.toNat - 256

/-- The variables of `getopt`, and what it has written to descriptor 2. -/
structure Getopt where
  opterr : Bool
  optind : Nat
  optopt : Int
  optreset : Bool
  optarg : Option (List UInt8)
  optpos : Nat
  messages : List UInt8

def unknownMessage (c : UInt8) : List UInt8 := ascii "Unknown option: -" ++ [c] ++ ascii "\n"

def missingMessage (c : UInt8) : List UInt8 := ascii "Option -" ++ [c] ++ ascii " requires an argument\n"

def Getopt.complain (st : Getopt) (message : List UInt8) : Getopt :=
  if st.opterr then { st with messages := st.messages ++ message } else st

section
variable (argv : List (List UInt8)) (opts : List UInt8)

/-- The next character of the word, or the next word behind its last one. -/
def Getopt.advance (st : Getopt) : Getopt :=
  if charAt (argv.getD st.optind []) (st.optpos + 1) = 0 then { st with optind := st.optind + 1, optpos := 1 }
  else { st with optpos := st.optpos + 1 }

/-- `getopt` behind its first statement, which the recursive call does nothing in. -/
def scan (st : Getopt) : Int × Getopt :=
  if argv.length ≤ st.optind ∨ charAt (argv.getD st.optind []) 0 ≠ dash then (-1, { st with optarg := none })
  else
    let word := argv.getD st.optind []
    let c := charAt word st.optpos
    if c = 0 then scan { st with optarg := none, optind := st.optind + 1, optpos := 1 }
    else
      match strchr c opts with
      | none =>
        (0x3F, Getopt.advance argv ({ st with optarg := none, optopt := charValue c }.complain (unknownMessage c)))
      | some p =>
        if charAt p 1 = colon then
          if charAt word (st.optpos + 1) ≠ 0 then
            (charValue c, { st with optarg := some (word.drop (st.optpos + 1)), optind := st.optind + 1, optpos := 1 })
          else if st.optind + 1 < argv.length then
            (charValue c, { st with optarg := argv[st.optind + 1]?, optind := st.optind + 2, optpos := 1 })
          else
            (0x3A, { { st with optarg := none, optopt := charValue c }.complain (missingMessage c) with
              optind := st.optind + 1
              optpos := 1 })
        else (charValue c, Getopt.advance argv { st with optarg := none })
termination_by argv.length - st.optind
decreasing_by omega

def getopt (st : Getopt) : Int × Getopt :=
  scan argv opts (if st.optreset ∨ st.optind = 0 then { st with optind := 1, optpos := 1, optreset := false } else st)

/-- What a call leaves for its caller. -/
structure Outcome where
  result : Int
  optarg : Option (List UInt8)
  optopt : Int

/-- `while ((c = getopt(argc, argv, opts)) != -1)` -/
def getoptAll : Nat → Getopt → Option (List Outcome × Getopt)
  | 0, _ => none
  | fuel + 1, st =>
    let (c, st) := getopt argv opts st
    if c = -1 then some ([], st)
    else do
      let (outcomes, last) ← getoptAll fuel st
      some (⟨c, st.optarg, st.optopt⟩ :: outcomes, last)

end

/-! ## The options of a command line -/

inductive Event
  | flag (c : UInt8)
  | value (c : UInt8) (argument : List UInt8)
  | unknown (c : UInt8)
  | missing (c : UInt8)

def Known (opts : List UInt8) (c : UInt8) : Prop := (strchr c opts).isSome

/-- The character stands in front of a colon. -/
def TakesValue (opts : List UInt8) (c : UInt8) : Prop := (strchr c opts).any fun p => charAt p 1 = colon

instance (opts : List UInt8) (c : UInt8) : Decidable (Known opts c) := inferInstanceAs (Decidable (_ = true))
instance (opts : List UInt8) (c : UInt8) : Decidable (TakesValue opts c) := inferInstanceAs (Decidable (_ = true))

/-- The options in the rest of a word and the words behind it, and the words that are left. -/
def parse (opts : List UInt8) : List UInt8 → List (List UInt8) → List Event × List (List UInt8)
  | [], [] => ([], [])
  | [], [] :: rest => ([], [] :: rest)
  | [], (a :: cs) :: rest => if a = dash then parse opts cs rest else ([], (a :: cs) :: rest)
  | c :: cs, rest =>
    if ¬ Known opts c then (.unknown c :: (parse opts cs rest).1, (parse opts cs rest).2)
    else if TakesValue opts c then
      match cs, rest with
      | _ :: _, rest => (.value c cs :: (parse opts [] rest).1, (parse opts [] rest).2)
      | [], v :: rest => (.value c v :: (parse opts [] rest).1, (parse opts [] rest).2)
      | [], [] => ([.missing c], [])
    else (.flag c :: (parse opts cs rest).1, (parse opts cs rest).2)
termination_by cs rest => cs.length + (rest.map fun word => word.length + 1).sum
decreasing_by all_goals simp_wf <;> omega

/-- What the caller sees of an option, after another value of `optopt`. -/
def Event.outcome (optopt : Int) : Event → Outcome
  | .flag c => ⟨charValue c, none, optopt⟩
  | .value c argument => ⟨charValue c, some argument, optopt⟩
  | .unknown c => ⟨0x3F, none, charValue c⟩
  | .missing c => ⟨0x3A, none, charValue c⟩

def Event.message : Event → List UInt8
  | .flag _ => []
  | .value _ _ => []
  | .unknown c => unknownMessage c
  | .missing c => missingMessage c

def outcomes : Int → List Event → List Outcome
  | _, [] => []
  | optopt, event :: rest => event.outcome optopt :: outcomes (event.outcome optopt).optopt rest

/-- The messages that are written when they are wanted. -/
def messagesOf (opterr : Bool) (events : List Event) : List UInt8 :=
  if opterr then (events.map Event.message).flatten else []

/-! ## One call -/

section
variable {argv rest : List (List UInt8)} {opts word cs : List UInt8} {c : UInt8} {st : Getopt} {i : Nat}

/-- The first of what is left, and what is left behind it. -/
theorem drop_head {l tail : List α} {a : α} (split : l.drop i = a :: tail) :
    l[i]? = some a ∧ l.drop (i + 1) = tail := by
  refine ⟨?_, ?_⟩
  · have first : (l.drop i)[0]? = some a := by rw [split]; rfl
    rw [List.getElem?_drop, Nat.add_zero] at first
    exact first
  · rw [← List.drop_drop, split]
    rfl

theorem getD_word (here : argv[i]? = some word) : argv.getD i [] = word := by
  rw [List.getD_eq_getElem?_getD, here]
  rfl

theorem drop_cons (split : word.drop i = c :: cs) :
    charAt word i = c ∧ charAt word (i + 1) = charAt cs 0 ∧ word.drop (i + 1) = cs := by
  obtain ⟨first, rest⟩ := drop_head split
  refine ⟨?_, ?_, rest⟩
  · rw [charAt, List.getD_eq_getElem?_getD, first]
    rfl
  · rw [charAt, charAt, List.getD_eq_getElem?_getD, List.getD_eq_getElem?_getD, ← rest, List.getElem?_drop,
      Nat.add_zero]

/-- What the state has still to look at: the rest of a word and the words behind it. -/
def Stands (argv : List (List UInt8)) (st : Getopt) (cs : List UInt8) (rest : List (List UInt8)) : Prop :=
  (st.optpos = 1 ∧ cs = [] ∧ argv.drop st.optind = rest) ∨
    ∃ word, argv[st.optind]? = some word ∧ charAt word 0 = dash ∧ word.drop st.optpos = cs ∧ cs ≠ [] ∧
      argv.drop (st.optind + 1) = rest

/-- The words are strings: no zero is in them. -/
def Strings (argv : List (List UInt8)) : Prop := ∀ word ∈ argv, ∀ c ∈ word, c ≠ 0

theorem advance_stands (strings : Strings argv) (here : argv[st.optind]? = some word) (option : charAt word 0 = dash)
    (split : word.drop st.optpos = c :: cs) (behind : argv.drop (st.optind + 1) = rest) :
    Stands argv (Getopt.advance argv st) cs rest := by
  obtain ⟨-, next, after⟩ := drop_cons split
  have found := getD_word here
  unfold Getopt.advance
  rw [found, next]
  cases cs with
  | nil =>
    have none : charAt [] 0 = 0 := rfl
    rw [if_pos none]
    exact Or.inl ⟨rfl, rfl, behind⟩
  | cons b cs =>
    have member : b ∈ word := List.mem_of_mem_drop (after ▸ List.mem_cons_self : b ∈ word.drop (st.optpos + 1))
    have some' : charAt (b :: cs) 0 ≠ 0 := strings word (List.mem_of_getElem? here) b member
    rw [if_neg some']
    exact Or.inr ⟨word, here, option, after, nofun, behind⟩

/-- A call returns the option, and leaves these words. -/
structure Gives (argv : List (List UInt8)) (st : Getopt) (event : Event) (cs : List UInt8) (rest : List (List UInt8))
    (result : Int × Getopt) : Prop where
  answer : result.1 = (event.outcome st.optopt).result
  optarg : result.2.optarg = (event.outcome st.optopt).optarg
  optopt : result.2.optopt = (event.outcome st.optopt).optopt
  messages : result.2.messages = st.messages ++ messagesOf st.opterr [event]
  opterr : result.2.opterr = st.opterr
  optreset : result.2.optreset = st.optreset
  optind : st.optind ≤ result.2.optind
  stands : Stands argv result.2 cs rest

/-- How much there is to look at. -/
def size (cs : List UInt8) (rest : List (List UInt8)) : Nat := cs.length + (rest.map fun word => word.length + 1).sum

theorem advance_kept (argv : List (List UInt8)) (st : Getopt) :
    (st.advance argv).optarg = st.optarg ∧ (st.advance argv).optopt = st.optopt ∧
    (st.advance argv).messages = st.messages ∧
      (st.advance argv).opterr = st.opterr ∧ (st.advance argv).optreset = st.optreset ∧
      st.optind ≤ (st.advance argv).optind := by
  unfold Getopt.advance
  split
  · exact ⟨rfl, rfl, rfl, rfl, rfl, Nat.le_succ _⟩
  · exact ⟨rfl, rfl, rfl, rfl, rfl, Nat.le_refl _⟩

theorem complain_messages (st : Getopt) (event : Event) :
    st.complain event.message = { st with messages := st.messages ++ messagesOf st.opterr [event] } := by
  unfold Getopt.complain messagesOf
  split
  · rw [List.map_singleton, List.flatten_singleton]
  · rw [List.append_nil]

theorem messagesOf_quiet (opterr : Bool) {event : Event} (quiet : event.message = []) :
    messagesOf opterr [event] = [] := by
  unfold messagesOf
  rw [List.map_singleton, quiet]
  split <;> rfl

theorem parse_cons (opts : List UInt8) (c : UInt8) (cs : List UInt8) (rest : List (List UInt8)) :
    parse opts (c :: cs) rest =
    if ¬ Known opts c then (.unknown c :: (parse opts cs rest).1, (parse opts cs rest).2)
    else if TakesValue opts c then
      match cs, rest with
      | _ :: _, rest => (.value c cs :: (parse opts [] rest).1, (parse opts [] rest).2)
      | [], v :: rest => (.value c v :: (parse opts [] rest).1, (parse opts [] rest).2)
      | [], [] => ([.missing c], [])
    else (.flag c :: (parse opts cs rest).1, (parse opts cs rest).2) := by
  rw [parse.eq_def]

/-- A call that looks at a character of a word. -/
theorem inside_gives (opts : List UInt8) (strings : Strings argv) (here : argv[st.optind]? = some word)
    (option : charAt word 0 = dash) (split : word.drop st.optpos = c :: cs)
    (behind : argv.drop (st.optind + 1) = rest) :
    ∃ event cs' rest', Gives argv st event cs' rest' (scan argv opts st) ∧
      parse opts (c :: cs) rest = (event :: (parse opts cs' rest').1, (parse opts cs' rest').2) ∧
      size cs' rest' < size (c :: cs) rest := by
  obtain ⟨first, next, after⟩ := drop_cons split
  have found := getD_word here
  obtain ⟨inside, -⟩ := List.getElem?_eq_some_iff.mp here
  have some' : c ≠ 0 := by
    have member : c ∈ word := List.mem_of_mem_drop (split ▸ List.mem_cons_self : c ∈ word.drop st.optpos)
    exact strings word (List.mem_of_getElem? here) c member
  rw [scan, if_neg (by rw [found]; exact fun ends => ends.elim (by omega) fun other => other option)]
  simp only [found, first, next]
  rw [if_neg some', parse_cons]
  cases known : strchr c opts with
  | none =>
    have unknown : ¬ Known opts c := by
      unfold Known
      rw [known]
      nofun
    rw [if_pos unknown]
    have complained : ({ st with optarg := none, optopt := charValue c } : Getopt).complain (unknownMessage c) =
        { st with
          optarg := none
          optopt := charValue c
          messages := st.messages ++ messagesOf st.opterr [.unknown c] } :=
      complain_messages { st with optarg := none, optopt := charValue c } (.unknown c)
    dsimp only
    rw [complained]
    obtain ⟨optarg, optopt, messages, opterr, optreset, optind⟩ := advance_kept argv { st with
      optarg := none
      optopt := charValue c
      messages := st.messages ++ messagesOf st.opterr [.unknown c] }
    exact ⟨.unknown c, cs, rest, ⟨rfl, optarg, optopt, messages, opterr, optreset, optind,
      advance_stands strings here option split behind⟩, rfl, by simp [size]⟩
  | some p =>
    have listed : ¬ ¬ Known opts c := by
      unfold Known
      rw [known]
      exact not_not.mpr rfl
    have takes : TakesValue opts c ↔ charAt p 1 = colon := by
      unfold TakesValue
      rw [known]
      exact decide_eq_true_iff
    rw [if_neg listed]
    dsimp only
    by_cases value : charAt p 1 = colon
    · rw [if_pos value, if_pos (takes.mpr value)]
      cases cs with
      | cons b cs =>
        have more : charAt (b :: cs) 0 ≠ 0 :=
          strings word (List.mem_of_getElem? here) b (List.mem_of_mem_drop (after ▸ List.mem_cons_self :
            b ∈ word.drop (st.optpos + 1)))
        rw [if_pos more, after]
        exact ⟨.value c (b :: cs), [], rest,
          ⟨rfl, rfl, rfl, by rw [messagesOf_quiet _ rfl, List.append_nil], rfl, rfl,
          Nat.le_succ _, Or.inl ⟨rfl, rfl, behind⟩⟩, rfl, by simp [size]⟩
      | nil =>
        have last : ¬ charAt [] 0 ≠ 0 := not_not.mpr rfl
        rw [if_neg last]
        cases rest with
        | cons v rest =>
          obtain ⟨held, after'⟩ := drop_head behind
          obtain ⟨within, -⟩ := List.getElem?_eq_some_iff.mp held
          rw [if_pos within, held]
          exact ⟨.value c v, [], rest, ⟨rfl, rfl, rfl, by rw [messagesOf_quiet _ rfl, List.append_nil], rfl, rfl,
            Nat.le_add_right _ 2, Or.inl ⟨rfl, rfl, after'⟩⟩, rfl, by simp [size]; omega⟩
        | nil =>
          have beyond : argv.length ≤ st.optind + 1 := List.drop_eq_nil_iff.mp behind
          have complained : ({ st with optarg := none, optopt := charValue c } : Getopt).complain (missingMessage c) =
              { st with
                optarg := none
                optopt := charValue c
                messages := st.messages ++ messagesOf st.opterr [.missing c] } :=
            complain_messages { st with optarg := none, optopt := charValue c } (.missing c)
          rw [if_neg (by omega), complained]
          exact ⟨.missing c, [], [], ⟨rfl, rfl, rfl, rfl, rfl, rfl, Nat.le_succ _, Or.inl ⟨rfl, rfl, behind⟩⟩,
            by rw [parse], by simp [size]⟩
    · rw [if_neg value, if_neg (takes.not.mpr value)]
      obtain ⟨optarg, optopt, messages, opterr, optreset, optind⟩ := advance_kept argv { st with optarg := none }
      exact ⟨.flag c, cs, rest,
        ⟨rfl, optarg, optopt, messages.trans (by rw [messagesOf_quiet _ rfl, List.append_nil]), opterr,
        optreset, optind, advance_stands strings here option split behind⟩, rfl, by simp [size]⟩

/-- The next option, or the end of the options. -/
theorem scan_gives (opts : List UInt8) (strings : Strings argv) (stands : Stands argv st cs rest) :
    ((parse opts cs rest).1 = [] ∧ ∃ last, scan argv opts st = (-1, last) ∧
    argv.drop last.optind = (parse opts cs rest).2 ∧
      last.messages = st.messages) ∨
    ∃ event cs' rest', Gives argv st event cs' rest' (scan argv opts st) ∧
      parse opts cs rest = (event :: (parse opts cs' rest').1, (parse opts cs' rest').2) ∧
      size cs' rest' < size cs rest := by
  generalize measured : argv.length - st.optind = n
  induction n using Nat.strong_induction_on generalizing st cs rest with
  | _ n ih =>
    rcases stands with ⟨first, rfl, behind⟩ | ⟨word, here, option, split, some', behind⟩
    · cases rest with
      | nil =>
        have ended : argv.length ≤ st.optind := List.drop_eq_nil_iff.mp behind
        rw [scan, if_pos (Or.inl ended), parse]
        exact Or.inl ⟨rfl, _, rfl, behind, rfl⟩
      | cons word rest =>
        obtain ⟨here, after⟩ := drop_head behind
        have found := getD_word here
        obtain ⟨inside, -⟩ := List.getElem?_eq_some_iff.mp here
        cases word with
        | nil =>
          have other : charAt (argv.getD st.optind []) 0 ≠ dash := by
            rw [found]
            decide
          rw [scan, if_pos (Or.inr other), parse]
          exact Or.inl ⟨rfl, _, rfl, behind, rfl⟩
        | cons a cs =>
          by_cases option : a = dash
          · subst option
            have same : parse opts [] ((dash :: cs) :: rest) = parse opts cs rest := by rw [parse, if_pos rfl]
            rw [same]
            cases cs with
            | nil =>
              -- a lone dash is passed by
              have skipped :
                scan argv opts st =
                scan argv opts { st with optarg := none, optind := st.optind + 1, optpos := 1 } := by
                rw [scan, if_neg (by rw [found]; exact fun ends => ends.elim (by omega) fun other => other rfl)]
                simp only [found, first]
                rfl
              rw [skipped]
              have next : Stands argv { st with optarg := none, optind := st.optind + 1, optpos := 1 } [] rest :=
                Or.inl ⟨rfl, rfl, after⟩
              rcases ih (argv.length - (st.optind + 1)) (by omega) next rfl with
                ended | ⟨event, cs', rest', gives, parsed, smaller⟩
              · exact Or.inl ended
              · exact Or.inr ⟨event, cs', rest',
                  ⟨gives.answer, gives.optarg, gives.optopt, gives.messages, gives.opterr,
                  gives.optreset, Nat.le_of_succ_le gives.optind, gives.stands⟩,
                  parsed, by simp [size] at smaller ⊢; omega⟩
            | cons c cs =>
              obtain ⟨event, cs', rest', gives, parsed, smaller⟩ :=
                inside_gives opts strings here rfl (by rw [first]; rfl : (dash :: c :: cs).drop st.optpos = c :: cs)
                  after
              exact Or.inr ⟨event, cs', rest', gives, parsed, by simp [size] at smaller ⊢; omega⟩
          · have other : charAt (argv.getD st.optind []) 0 ≠ dash := by
              rw [found]
              exact option
            rw [scan, if_pos (Or.inr other), parse, if_neg option]
            exact Or.inl ⟨rfl, _, rfl, behind, rfl⟩
    · obtain ⟨c, cs', rfl⟩ := List.exists_cons_of_ne_nil some'
      exact Or.inr (inside_gives opts strings here option split behind)

/-! ## All calls -/

theorem strchr_mem {p : List UInt8} (found : strchr c opts = some p) : c ∈ opts := by
  induction opts with
  | nil => cases found
  | cons a rest ih =>
    rw [strchr] at found
    split at found
    · rename_i same
      exact same ▸ List.mem_cons_self
    · exact List.mem_cons_of_mem _ (ih found)

theorem charValue_ne {b : UInt8} (other : b ≠ 0xFF) : charValue b ≠ -1 := by
  have small := b.toNat_lt
  unfold charValue
  split
  · omega
  · intro same
    refine other (UInt8.toNat_inj.mp ?_)
    rw [show (0xFF : UInt8).toNat = 255 from rfl]
    omega

/-- The options are not taken for the end. -/
theorem parse_plain (plain : (0xFF : UInt8) ∉ opts) (cs : List UInt8) (rest : List (List UInt8)) (optopt : Int) :
    ∀ event ∈ (parse opts cs rest).1, (event.outcome optopt).result ≠ -1 := by
  have listed : ∀ {c : UInt8}, ¬ ¬ Known opts c → charValue c ≠ -1 := by
    intro c known
    obtain ⟨p, found⟩ := Option.isSome_iff_exists.mp (not_not.mp known)
    exact charValue_ne fun same => plain (same ▸ strchr_mem found)
  fun_induction parse opts cs rest with
  | case1 => exact fun event member => absurd member List.not_mem_nil
  | case2 rest => exact fun event member => absurd member List.not_mem_nil
  | case3 cs rest ih => exact ih
  | case4 a cs rest other => exact fun event member => absurd member List.not_mem_nil
  | case5 c cs rest unknown ih => exact List.forall_mem_cons.mpr ⟨(by decide : (0x3F : Int) ≠ -1), ih⟩
  | case6 => exact List.forall_mem_cons.mpr ⟨listed ‹_›, ‹_›⟩
  | case7 => exact List.forall_mem_cons.mpr ⟨listed ‹_›, ‹_›⟩
  | case8 =>
    exact List.forall_mem_cons.mpr
      ⟨(by decide : (0x3A : Int) ≠ -1), fun event member => absurd member List.not_mem_nil⟩
  | case9 => exact List.forall_mem_cons.mpr ⟨listed ‹_›, ‹_›⟩

theorem messagesOf_cons (opterr : Bool) (event : Event) (events : List Event) :
    messagesOf opterr (event :: events) = messagesOf opterr [event] ++ messagesOf opterr events := by
  unfold messagesOf
  split
  · rw [List.map_cons, List.flatten_cons, List.map_singleton, List.flatten_singleton]
  · rfl

theorem getoptAll_parses (strings : Strings argv) (plain : (0xFF : UInt8) ∉ opts) (fuel : Nat) {st : Getopt}
    (settled : st.optreset = false ∧ 0 < st.optind) (stands : Stands argv st cs rest) (enough : size cs rest < fuel) :
    ∃ last, getoptAll argv opts fuel st = some (outcomes st.optopt (parse opts cs rest).1, last) ∧
      argv.drop last.optind = (parse opts cs rest).2 ∧
      last.messages = st.messages ++ messagesOf st.opterr (parse opts cs rest).1 := by
  induction fuel generalizing st cs rest with
  | zero => cases enough
  | succ fuel ih =>
    have call : getopt argv opts st = scan argv opts st := by
      unfold getopt
      rw [if_neg]
      rw [settled.1]
      rintro (no | zero)
      · cases no
      · omega
    rw [getoptAll, call]
    rcases scan_gives opts strings stands with ⟨none, last, ended, left, quiet⟩ | ⟨event, cs', rest', gives,
      parsed, smaller⟩
    · rw [ended, none]
      refine ⟨last, rfl, left, ?_⟩
      rw [quiet, messagesOf, List.map_nil, List.flatten_nil, ite_self, List.append_nil]
    · have found := parse_plain plain cs rest st.optopt event (by rw [parsed]; exact List.mem_cons_self)
      generalize scan argv opts st = result at gives
      obtain ⟨answer, next⟩ := result
      obtain ⟨same, optarg, optopt, messages, opterr, optreset, optind, stands'⟩ := gives
      dsimp only at same optarg optopt messages opterr optreset optind stands'
      obtain ⟨last, ran, left, total⟩ := ih ⟨optreset.trans settled.1, by omega⟩ stands' (by omega)
      have more : answer ≠ -1 := same ▸ found
      refine ⟨last, ?_, ?_, ?_⟩
      · dsimp only
        rw [if_neg more, ran, parsed, optopt, same, optarg]
        rfl
      · rw [left, parsed]
      · rw [total, messages, opterr, parsed, List.append_assoc]
        dsimp only
        rw [← messagesOf_cons]

/-- The variables of a program that has just started, or that asks for a new scan. -/
def Ready (st : Getopt) : Prop := st.optreset = true ∨ st.optind = 0 ∨ st.optind = 1 ∧ st.optpos = 1

/-- The first call begins with the first word behind the program's name. -/
theorem getoptAll_ready (ready : Ready st) (fuel : Nat) :
    getoptAll argv opts fuel st = getoptAll argv opts fuel { st with optind := 1, optpos := 1, optreset := false } := by
  by_cases reset : st.optreset = true ∨ st.optind = 0
  · cases fuel with
    | zero => rfl
    | succ fuel =>
      have call : getopt argv opts st = getopt argv opts { st with optind := 1, optpos := 1, optreset := false } := by
        unfold getopt
        rw [if_pos reset]
        rfl
      rw [getoptAll, getoptAll, call]
  · obtain ⟨no, some'⟩ := not_or.mp reset
    obtain ⟨index, position⟩ := (ready.resolve_left no).resolve_left some'
    obtain ⟨opterr, optind, optopt, optreset, optarg, optpos, messages⟩ := st
    obtain rfl : optind = 1 := index
    obtain rfl : optpos = 1 := position
    obtain rfl : optreset = false := Bool.eq_false_iff.mpr no
    rfl

/-- The calls until the first -1 return the options that the words spell, one after the other,
with their arguments and messages, and leave the index at the first word that is none. -/
theorem getopt_parses (strings : Strings argv) (plain : (0xFF : UInt8) ∉ opts) (ready : Ready st) (fuel : Nat)
    (enough : size [] (argv.drop 1) < fuel) :
    ∃ last, getoptAll argv opts fuel st = some (outcomes st.optopt (parse opts [] (argv.drop 1)).1, last) ∧
      argv.drop last.optind = (parse opts [] (argv.drop 1)).2 ∧
      last.messages = st.messages ++ messagesOf st.opterr (parse opts [] (argv.drop 1)).1 := by
  have start : Stands argv { st with optind := 1, optpos := 1, optreset := false } [] (argv.drop 1) :=
    Or.inl ⟨rfl, rfl, rfl⟩
  rw [getoptAll_ready ready]
  exact getoptAll_parses strings plain fuel ⟨rfl, Nat.one_pos⟩ start enough

/-- `p -ab -o f -ax y` for the options `abo:`: the unknown `x` is reported. -/
theorem getopt_parses_unknown : ∃ last,
    getoptAll [ascii "p", ascii "-ab", ascii "-o", ascii "f", ascii "-ax", ascii "y"] (ascii "abo:") 100
        ⟨true, 1, 0, false, none, 1, []⟩ =
      some ([⟨0x61, none, 0⟩, ⟨0x62, none, 0⟩, ⟨0x6F, some (ascii "f"), 0⟩, ⟨0x61, none, 0⟩,
      ⟨0x3F, none, 0x78⟩], last) ∧
    [ascii "p", ascii "-ab", ascii "-o", ascii "f", ascii "-ax", ascii "y"].drop last.optind = [ascii "y"] ∧
    last.messages = ascii "Unknown option: -x\n" := by
  have parsed : parse (ascii "abo:") [] [ascii "-ab", ascii "-o", ascii "f", ascii "-ax", ascii "y"] =
      ([.flag 0x61, .flag 0x62, .value 0x6F (ascii "f"), .flag 0x61, .unknown 0x78], [ascii "y"]) := by
    simp [parse, ascii, Known, TakesValue, strchr, dash, colon, charAt]
  have strings : Strings [ascii "p", ascii "-ab", ascii "-o", ascii "f", ascii "-ax", ascii "y"] := by
    unfold Strings
    decide +kernel
  have plain : (0xFF : UInt8) ∉ ascii "abo:" := by decide +kernel
  have ready : Ready ⟨true, 1, 0, false, none, 1, []⟩ := Or.inr (Or.inr ⟨rfl, rfl⟩)
  obtain ⟨last, ran, left, written⟩ := getopt_parses strings plain ready 100 (by decide +kernel)
  rw [List.drop_one, List.tail_cons, parsed] at ran left written
  exact ⟨last, ran, left, written⟩

end

/-! ## Options that are written out -/

/-- The end of a word of options: an option whose argument follows at once, or is the next
word. -/
inductive Ending
  | nothing
  | attached (c : UInt8) (argument : List UInt8)
  | separate (c : UInt8) (argument : List UInt8)

structure Word where
  flags : List UInt8
  ending : Ending

def Word.render (w : Word) : List (List UInt8) :=
  match w.ending with
  | .nothing => [dash :: w.flags]
  | .attached c argument => [dash :: (w.flags ++ c :: argument)]
  | .separate c argument => [dash :: (w.flags ++ [c]), argument]

def Word.events (w : Word) : List Event :=
  w.flags.map .flag ++
    match w.ending with
    | .nothing => []
    | .attached c argument => [.value c argument]
    | .separate c argument => [.value c argument]

/-- The flags and the options with arguments are those of the program, and an argument that
follows at once is not empty. -/
def Word.Proper (opts : List UInt8) (w : Word) : Prop :=
  (∀ c ∈ w.flags, Known opts c ∧ ¬ TakesValue opts c) ∧
    match w.ending with
    | .nothing => True
    | .attached c argument => Known opts c ∧ TakesValue opts c ∧ argument ≠ []
    | .separate c _ => Known opts c ∧ TakesValue opts c

section
variable {opts : List UInt8} {rest : List (List UInt8)}

theorem parse_flags (flags tail : List UInt8) (proper : ∀ c ∈ flags, Known opts c ∧ ¬ TakesValue opts c) :
    parse opts (flags ++ tail) rest = (flags.map .flag ++ (parse opts tail rest).1, (parse opts tail rest).2) := by
  induction flags with
  | nil => rfl
  | cons c flags ih =>
    obtain ⟨⟨known, plain⟩, more⟩ := List.forall_mem_cons.mp proper
    rw [List.cons_append, parse_cons, if_neg (not_not.mpr known), if_neg plain, ih more]
    rfl

theorem parse_word {w : Word} (proper : w.Proper opts) :
    parse opts [] (w.render ++ rest) = (w.events ++ (parse opts [] rest).1, (parse opts [] rest).2) := by
  obtain ⟨flags, ending⟩ := w
  obtain ⟨plain, last⟩ := proper
  cases ending with
  | nothing =>
    have whole : parse opts (flags ++ []) rest = (flags.map .flag ++ (parse opts [] rest).1, (parse opts [] rest).2) :=
      parse_flags flags [] plain
    rw [List.append_nil] at whole
    simp only [Word.render, Word.events, List.singleton_append, List.append_nil]
    rw [parse, if_pos rfl, whole]
  | attached c argument =>
    obtain ⟨known, takes, some'⟩ := last
    obtain ⟨b, argument, rfl⟩ := List.exists_cons_of_ne_nil some'
    simp only [Word.render, Word.events, List.singleton_append]
    rw [parse, if_pos rfl, parse_flags flags _ plain, parse_cons, if_neg (not_not.mpr known), if_pos takes,
      List.append_assoc]
    rfl
  | separate c argument =>
    obtain ⟨known, takes⟩ := last
    simp only [Word.render, Word.events, List.cons_append, List.nil_append]
    rw [parse, if_pos rfl, parse_flags flags _ plain, parse_cons, if_neg (not_not.mpr known), if_pos takes,
      List.append_assoc]
    rfl

/-- The words that follow the options. -/
def Operands (words : List (List UInt8)) : Prop := ∀ word ∈ words.head?, charAt word 0 ≠ dash

theorem parse_operands (operands : Operands rest) : parse opts [] rest = ([], rest) := by
  cases rest with
  | nil => rw [parse]
  | cons word rest =>
    cases word with
    | nil => rw [parse]
    | cons a cs =>
      have other : a ≠ dash := operands (a :: cs) rfl
      rw [parse, if_neg other]

theorem parse_render {words : List Word} (proper : ∀ w ∈ words, w.Proper opts) (operands : Operands rest) :
    parse opts [] ((words.map Word.render).flatten ++ rest) = ((words.map Word.events).flatten, rest) := by
  induction words with
  | nil => exact parse_operands operands
  | cons w words ih =>
    obtain ⟨first, more⟩ := List.forall_mem_cons.mp proper
    rw [List.map_cons, List.flatten_cons, List.append_assoc, parse_word first, ih more]
    rfl

theorem messagesOf_words (opterr : Bool) (words : List Word) :
    messagesOf opterr (words.map Word.events).flatten = [] := by
  have quiet : ∀ event ∈ (words.map Word.events).flatten, event.message = [] := by
    intro event member
    obtain ⟨events, listed, member⟩ := List.mem_flatten.mp member
    obtain ⟨⟨flags, ending⟩, -, rfl⟩ := List.mem_map.mp listed
    rcases List.mem_append.mp member with flag | last
    · obtain ⟨c, -, rfl⟩ := List.mem_map.mp flag
      rfl
    · cases ending with
      | nothing => cases last
      | attached c argument =>
        obtain rfl := List.mem_singleton.mp last
        rfl
      | separate c argument =>
        obtain rfl := List.mem_singleton.mp last
        rfl
  unfold messagesOf
  split
  · exact List.flatten_eq_nil_iff.mpr fun message member => by
      obtain ⟨event, listed, rfl⟩ := List.mem_map.mp member
      exact quiet event listed
  · rfl

/-- Options that are written out, flags run together, arguments behind their option or in the
next word, come back in order and without a complaint, and what follows them is left. -/
theorem getopt_render {words : List Word} {program : List UInt8} {st : Getopt} (proper : ∀ w ∈ words, w.Proper opts)
    (operands : Operands rest) (strings : Strings (program :: ((words.map Word.render).flatten ++ rest)))
    (plain : (0xFF : UInt8) ∉ opts) (ready : Ready st) (fuel : Nat)
    (enough : size [] ((words.map Word.render).flatten ++ rest) < fuel) :
    ∃ last, getoptAll (program :: ((words.map Word.render).flatten ++ rest)) opts fuel st =
        some (outcomes st.optopt (words.map Word.events).flatten, last) ∧
      (program :: ((words.map Word.render).flatten ++ rest)).drop last.optind = rest ∧
      last.messages = st.messages := by
  have start : Stands (program :: ((words.map Word.render).flatten ++ rest))
      { st with optind := 1, optpos := 1, optreset := false } [] ((words.map Word.render).flatten ++ rest) :=
    Or.inl ⟨rfl, rfl, rfl⟩
  obtain ⟨last, ran, left, written⟩ := getoptAll_parses strings plain fuel ⟨rfl, Nat.one_pos⟩ start enough
  rw [parse_render proper operands] at ran left written
  rw [messagesOf_words, List.append_nil] at written
  exact ⟨last, (getoptAll_ready ready fuel).trans ran, left, written⟩

/-- `p -vo f -n3 x` for the options `vo:n:`. -/
theorem getopt_render_three : ∃ last,
    getoptAll [ascii "p", ascii "-vo", ascii "f", ascii "-n3", ascii "x"] (ascii "vo:n:") 100 ⟨true, 1, 0, false,
    none, 1, []⟩ =
      some ([⟨0x76, none, 0⟩, ⟨0x6F, some (ascii "f"), 0⟩, ⟨0x6E, some (ascii "3"), 0⟩], last) ∧
    [ascii "p", ascii "-vo", ascii "f", ascii "-n3", ascii "x"].drop last.optind = [ascii "x"] ∧
    last.messages = [] := by
  have proper :
    ∀ w ∈ ([⟨ascii "v", .separate 0x6F (ascii "f")⟩, ⟨[], .attached 0x6E (ascii "3")⟩] : List Word),
      w.Proper (ascii "vo:n:") := by
    simp [Word.Proper, Known, TakesValue, ascii, strchr, colon, charAt]
  have operands : Operands [ascii "x"] := by
    simp [Operands, ascii, charAt, dash]
  have strings : Strings [ascii "p", ascii "-vo", ascii "f", ascii "-n3", ascii "x"] := by
    unfold Strings
    decide +kernel
  have plain : (0xFF : UInt8) ∉ ascii "vo:n:" := by decide +kernel
  have ready : Ready ⟨true, 1, 0, false, none, 1, []⟩ := Or.inr (Or.inr ⟨rfl, rfl⟩)
  exact getopt_render proper operands strings plain ready 100 (by decide +kernel)

end

end MeowMeowOS.OptionParsing

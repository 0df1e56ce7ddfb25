import MeowMeowOS.PathTokens

/-! Tasks that walk over their paths with the one `strtok` of the kernel, their calls
in any order. A call goes on with the path whose walk was begun last, whoever makes
it, so a task that is preempted between two calls can be given the rest of another
task's path. Histories have the last call first. -/
namespace MeowMeowOS.SharedTokens
open ByteMemory Fat16Names Fat16Paths PathTokens

/-- The tokenizer, the tasks that have made their first call, and what the calls of
each task have returned. -/
structure World (Task : Type) where
  tokenizer : Tokenizer
  begun : Task → Bool
  seen : Task → List (Option CString)

section
variable {Task : Type} [DecidableEq Task]

/-- `strtok(path, "/")` for the first call of a task, `strtok(NULL, "/")` from then on. -/
def call (fuel : Nat) (paths : Task → Nat) (w : World Task) (t : Task) : Option (World Task) :=
  match strtok fuel w.tokenizer (if w.begun t = true then 0 else paths t) [slash] with
  | none => none
  | some (p, s) =>
    some ⟨s, Function.update w.begun t true, Function.update w.seen t (w.seen t ++ [readToken s.mem fuel p])⟩

def calls (fuel : Nat) (paths : Task → Nat) (start : World Task) : List Task → Option (World Task)
  | [] => some start
  | t :: before => (calls fuel paths start before).bind fun w => call fuel paths w t

/-- No task has called yet. The position left from earlier walks is any. -/
def start (m : Mem) (lastStr : Nat) : World Task := ⟨⟨m, lastStr⟩, fun _ => false, fun _ => []⟩

/-- Each task has its path in a buffer of its own. -/
structure OwnBuffers (m : Mem) (paths : Task → Nat) (texts : Task → CString) : Prop where
  nonnull : ∀ t, paths t ≠ 0
  strings : ∀ t, StringAt m (paths t) (texts t)
  apart : ∀ t u, t ≠ u → paths t + (texts t).length < paths u ∨ paths u + (texts u).length < paths t

/-- The task that began its walk last, and how many calls were made since. -/
def lastBegun : List Task → Option (Task × Nat)
  | [] => none
  | t :: before => if t ∈ before then (lastBegun before).map fun (o, k) => (o, k + 1) else some (t, 0)

/-- The token that the position of the walk begun last leads to. -/
def answer (texts : Task → CString) (history : List Task) : Option CString :=
  (lastBegun history).bind fun (o, k) => (tokens (texts o))[k]?

/-- Whenever a task calls, that is the token at which its own walk stands. -/
def Undisturbed (texts : Task → CString) : List Task → Prop
  | [] => True
  | t :: before => Undisturbed texts before ∧ answer texts (t :: before) = (tokens (texts t))[before.count t]?

/-- What the calls of `t` return. -/
def answers (texts : Task → CString) (t : Task) : List Task → List (Option CString)
  | [] => []
  | u :: before => if u = t then answers texts t before ++ [answer texts (u :: before)] else answers texts t before

/-- Where the tokenizer stands after the calls. -/
structure Standing (paths : Task → Nat) (texts : Task → CString) (history : List Task) (w : World Task) : Prop where
  begun : ∀ t, w.begun t = true ↔ t ∈ history
  fresh : ∀ t, t ∉ history → StringAt w.tokenizer.mem (paths t) (texts t)
  rest : ∀ o k, lastBegun history = some (o, k) → ∃ text,
    Rest w.tokenizer (paths o) (paths o + (texts o).length + 1) text ∧
    tokens text = (tokens (texts o)).drop (k + 1) ∧
      text.length ≤ (texts o).length
  seen : ∀ t, w.seen t = answers texts t history

variable {m : Mem} {paths : Task → Nat} {texts : Task → CString} {history before : List Task}
    {w : World Task} {t o : Task}
  {k fuel : Nat}

theorem lastBegun_begun (member : t ∈ history) : ∃ o k, lastBegun history = some (o, k) ∧ o ∈ history := by
  induction history generalizing t with
  | nil => cases member
  | cons u before ih =>
    rw [lastBegun]
    split
    · rename_i known
      obtain ⟨o, k, last, inside⟩ := ih known
      exact ⟨o, k + 1, by rw [last]; rfl, List.mem_cons_of_mem u inside⟩
    · exact ⟨u, 0, rfl, List.mem_cons_self⟩

/-- A call finds the tokenizer in the buffer of the walk that was begun last. -/
theorem call_resumes (own : OwnBuffers m paths texts) (standing : Standing paths texts before w)
    (fuel : Nat) (t : Task) :
    ∃ s o k text, strtok fuel w.tokenizer (if w.begun t = true then 0 else paths t) [slash] =
    strtok fuel s 0 [slash] ∧
      s.mem = w.tokenizer.mem ∧ lastBegun (t :: before) = some (o, k) ∧ o ∈ t :: before ∧
      Rest s (paths o) (paths o + (texts o).length + 1) text ∧ tokens text = (tokens (texts o)).drop k ∧
      text.length ≤ (texts o).length := by
  rw [lastBegun]
  by_cases known : t ∈ before
  · obtain ⟨o, k, last, member⟩ := lastBegun_begun known
    obtain ⟨text, rest, left, short⟩ := standing.rest o k last
    rw [if_pos ((standing.begun t).mpr known), if_pos known, last]
    exact ⟨w.tokenizer, o, k + 1, text, rfl, rfl, rfl, List.mem_cons_of_mem t member, rest, left, short⟩
  · have first : ¬ w.begun t = true := fun begun => known ((standing.begun t).mp begun)
    have some := own.nonnull t
    rw [if_neg first, if_neg known, strtok_begins w.tokenizer some]
    refine ⟨_, t, 0, texts t, rfl, rfl, rfl, List.mem_cons_self,
      Or.inr ⟨?_, ?_, ?_, standing.fresh t known⟩, rfl, Nat.le_refl _⟩
    · exact Nat.pos_of_ne_zero some
    · exact Nat.le_refl _
    · exact Nat.lt_succ_self _

theorem call_standing (own : OwnBuffers m paths texts) (standing : Standing paths texts before w)
    (enough : ∀ t, (texts t).length < fuel) (t : Task) :
    ∃ v, call fuel paths w t = some v ∧ Standing paths texts (t :: before) v := by
  obtain ⟨s, o, k, text, same, mem, last, member, rest, left, short⟩ := call_resumes own standing fuel t
  obtain ⟨p, s', text', ran, read, rest', tail, shorter, outside⟩ :=
    strtok_continues rest (Nat.lt_of_le_of_lt short (enough o))
  have answered : readToken s'.mem fuel p = answer texts (t :: before) := by
    rw [read, left, List.head?_drop, answer, last]
    rfl
  unfold call
  rw [same, ran]
  refine ⟨_, rfl, ?_, ?_, ?_, ?_⟩
  · intro u
    by_cases here : u = t
    · simp [here]
    · simp [standing.begun, here]
  · intro u unknown
    have unknown' : u ∉ before := fun inside => unknown (List.mem_cons_of_mem t inside)
    have different : o ≠ u := fun same => unknown (same ▸ member)
    have apart := own.apart o u different
    apply stringAt_agree (standing.fresh u unknown')
    intro a above below
    rw [← mem]
    exact outside a (by omega)
  · intro o' k' last'
    obtain ⟨rfl, rfl⟩ := Prod.mk.inj (Option.some.inj (last.symm.trans last'))
    refine ⟨text', rest', ?_, Nat.le_trans shorter short⟩
    rw [tail, left, List.tail_drop]
  · intro u
    rw [answers, ← standing.seen, ← answered]
    by_cases here : u = t
    · subst here
      exact (Function.update_self ..).trans (if_pos rfl).symm
    · exact (Function.update_of_ne here ..).trans (if_neg (Ne.symm here)).symm

/-- Every history of calls comes to its end, and what a task is given can be told
from the paths. -/
theorem calls_standing (own : OwnBuffers m paths texts) (enough : ∀ t, (texts t).length < fuel) (last : Nat)
    (history : List Task) : ∃ w, calls fuel paths (start m last) history = some w ∧
    Standing paths texts history w := by
  induction history with
  | nil => exact ⟨_, rfl, by simp [start], fun t _ => own.strings t, nofun, fun _ => rfl⟩
  | cons t before ih =>
    obtain ⟨w, ran, standing⟩ := ih
    obtain ⟨v, called, standing'⟩ := call_standing own standing enough t
    exact ⟨v, by rw [calls, ran]; exact called, standing'⟩

/-! ## A task alone -/

theorem lastBegun_alone (t : Task) (history : List Task) :
    lastBegun (t :: history.filter (· = t)) = some (t, history.count t) := by
  induction history with
  | nil => rfl
  | cons u before ih =>
    by_cases same : u = t
    · subst same
      rw [List.filter_cons_of_pos (by simp), lastBegun, if_pos List.mem_cons_self, ih, List.count_cons_self]
      rfl
    · rw [List.filter_cons_of_neg (by simpa using same), List.count_cons_of_ne same, ih]

/-- Both are right exactly when each is, one call after the other. -/
theorem answers_iff (texts : Task → CString) (history : List Task) :
    (∀ t, answers texts t (history.filter (· = t)) = answers texts t history) ↔ Undisturbed texts history := by
  induction history with
  | nil => exact ⟨fun _ => trivial, fun _ _ => rfl⟩
  | cons u before ih =>
    have alone : answer texts (u :: before.filter (· = u)) = (tokens (texts u))[before.count u]? := by
      rw [answer, lastBegun_alone]
      rfl
    rw [Undisturbed, ← ih, ← alone]
    constructor
    · intro same
      have here := same u
      rw [List.filter_cons_of_pos (by simp), answers, answers, if_pos rfl, if_pos rfl] at here
      obtain ⟨earlier, now⟩ := List.append_inj' here rfl
      refine ⟨fun t => ?_, (List.head_eq_of_cons_eq now).symm⟩
      by_cases task : u = t
      · exact task ▸ earlier
      · have there := same t
        rwa [List.filter_cons_of_neg (by simpa using task), answers, if_neg task] at there
    · rintro ⟨earlier, now⟩ t
      by_cases task : u = t
      · subst task
        rw [List.filter_cons_of_pos (by simp), answers, answers, if_pos rfl, if_pos rfl, earlier, now]
      · rw [List.filter_cons_of_neg (by simpa using task), answers, if_neg task]
        exact earlier t

theorem lastBegun_whole (whole : (before.takeWhile (· = t)).length = before.count t) :
    lastBegun (t :: before) = some (t, before.count t) := by
  induction before with
  | nil => rfl
  | cons u rest ih =>
    by_cases same : u = t
    · subst same
      rw [List.takeWhile_cons_of_pos (by simp), List.length_cons, List.count_cons_self] at whole
      rw [lastBegun, if_pos List.mem_cons_self, ih (Nat.succ.inj whole), List.count_cons_self]
      rfl
    · rw [List.takeWhile_cons_of_neg (by simpa using same)] at whole
      have first : t ∉ u :: rest := List.count_eq_zero.mp whole.symm
      rw [lastBegun, if_neg first, ← whole]
      rfl

/-- It is enough that no other task calls from the first to the last call of a walk. -/
theorem undisturbed_of_whole (texts : Task → CString)
    (whole : ∀ t before, t :: before <:+ history → (before.takeWhile (· = t)).length = before.count t) :
    Undisturbed texts history := by
  induction history with
  | nil => trivial
  | cons t before ih =>
    refine ⟨ih fun u rest suffix => whole u rest (suffix.trans (List.suffix_cons t before)), ?_⟩
    rw [answer, lastBegun_whole (whole t before (List.suffix_refl _))]
    rfl

/-- Each task is given the tokens that it is given alone exactly when no call of
another task has moved the position to a different one. -/
theorem tokens_own_iff (own : OwnBuffers m paths texts) (enough : ∀ t, (texts t).length < fuel) (last : Nat)
    (history : List Task) : ∃ w, calls fuel paths (start m last) history = some w ∧
      ((∀ t, ∃ v, calls fuel paths (start m last) (history.filter (· = t)) = some v ∧ v.seen t = w.seen t) ↔
        Undisturbed texts history) := by
  obtain ⟨w, ran, standing⟩ := calls_standing own enough last history
  refine ⟨w, ran, ?_⟩
  rw [← answers_iff]
  apply forall_congr'
  intro t
  obtain ⟨v, alone, standing'⟩ := calls_standing own enough last (history.filter (· = t))
  rw [standing.seen, ← standing'.seen]
  constructor
  · rintro ⟨v', alone', same⟩
    obtain rfl := Option.some.inj (alone.symm.trans alone')
    exact same
  · exact fun same => ⟨v, alone, same⟩

end

/-- `a/b` at 16 and `c/d` at 32. -/
def twoBuffers : Mem := fun a =>
  if a < 32 then [0x61, 0x2F, 0x62].getD (a - 16) 0 else [0x63, 0x2F, 0x64].getD (a - 32) 0

def bufferOf (t : Bool) : Nat := if t then 32 else 16

def pathOf (t : Bool) : CString := if t then [0x63, 0x2F, 0x64] else [0x61, 0x2F, 0x62]

theorem twoBuffers_own : OwnBuffers twoBuffers bufferOf pathOf where
  nonnull := by decide
  strings := by
    rintro (_ | _)
    all_goals exact ⟨rfl, by decide, rfl, by decide, rfl, by decide, rfl⟩
  apart := by decide

/-- Two walks one after the other. -/
theorem tokens_own_twice :
    ∃ w, calls 4 bufferOf (start twoBuffers 0) [true, true, true, false, false, false] = some w ∧
    ∀ t, ∃ v, calls 4 bufferOf (start twoBuffers 0) ([true, true, true, false, false, false].filter (· = t)) =
    some v ∧
      v.seen t = w.seen t := by
  obtain ⟨w, ran, own⟩ := tokens_own_iff twoBuffers_own
    (show ∀ t, (pathOf t).length < 4 by decide) 0 [true, true, true, false, false, false]
  exact ⟨w, ran, own.mpr ⟨⟨⟨⟨⟨⟨trivial, rfl⟩, rfl⟩, rfl⟩, rfl⟩, rfl⟩, rfl⟩⟩

/-- The whole walk over `c/d` falls between the first and the second call of the task
with `a/b`, which is told that its path has ended. -/
theorem interrupted_walk_ends :
    ∃ w v, calls 4 bufferOf (start twoBuffers 0) [false, true, true, true, false] = some w ∧
    calls 4 bufferOf (start twoBuffers 0) ([false, true, true, true, false].filter (· = false)) = some v ∧
    w.seen false = [some [0x61], none] ∧ v.seen false = [some [0x61], some [0x62]] := by
  obtain ⟨w, ran, standing⟩ := calls_standing twoBuffers_own (show ∀ t, (pathOf t).length < 4 by decide) 0
    [false, true, true, true, false]
  obtain ⟨v, alone, standing'⟩ := calls_standing twoBuffers_own (show ∀ t, (pathOf t).length < 4 by decide) 0
    ([false, true, true, true, false].filter (· = false))
  exact ⟨w, v, ran, alone, standing.seen false, standing'.seen false⟩

end MeowMeowOS.SharedTokens

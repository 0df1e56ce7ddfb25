import MeowMeowOS.Fat16Files

/-! What the shared directory loop reaches: exactly the entries in use in
front of the first never-used one, each once, whatever long names precede
them. -/
namespace MeowMeowOS.Fat16Scan
open Fat16Disk Fat16Names Fat16Directory

/-- An entry in use: neither never used, nor deleted, nor part of a long name. -/
def InUse (e : Slot) : Prop := neverUsed e = false ∧ deleted e = false ∧ isLongName e = false

instance (e : Slot) : Decidable (InUse e) := by
  unfold InUse
  infer_instance

section Loop
variable {p : Nat} {scan : Scan} {slots : List Slot}

theorem visits_neverUsed (never : neverUsed e = true) : visits p scan (e :: rest) = ([], none) :=
  if_pos never

theorem visits_deleted (used : neverUsed e = false) (gone : deleted e = true) :
    visits p scan (e :: rest) = visits (p + 1) scan.cleared rest :=
  (if_neg (Bool.eq_false_iff.mp used)).trans (if_pos gone)

theorem visits_longName (used : neverUsed e = false) (kept : deleted e = false)
    (long : isLongName e = true) :
    visits p scan (e :: rest) = visits (p + 1) (scan.longName p e) rest :=
  (if_neg (Bool.eq_false_iff.mp used)).trans ((if_neg (Bool.eq_false_iff.mp kept)).trans (if_pos long))

/-- The visit of an entry in use. -/
def visitOf (p : Nat) (scan : Scan) (e : Slot) : Visit :=
  ⟨p, e, lfnString (scan.checked e).lfnBuf, (scan.checked e).lfnStart⟩

@[simp] theorem visitOf_slot (p : Nat) (scan : Scan) (e : Slot) : (visitOf p scan e).slot = e := rfl

theorem visits_inUse (inUse : InUse e) : visits p scan (e :: rest) =
    (visitOf p scan e :: (visits (p + 1) (scan.checked e).cleared rest).1,
      (visits (p + 1) (scan.checked e).cleared rest).2) := by
  obtain ⟨used, kept, short⟩ := inUse
  exact (if_neg (Bool.eq_false_iff.mp used)).trans
    ((if_neg (Bool.eq_false_iff.mp kept)).trans (if_neg (Bool.eq_false_iff.mp short)))

/-- The loop over two stretches of entries: the second is entered in the state
that the first leaves, unless that has met the end mark. -/
theorem visits_append (before after : List Slot) :
    visits p scan (before ++ after) =
      match (visits p scan before).2 with
      | none => ((visits p scan before).1, none)
      | some scan' =>
        ((visits p scan before).1 ++ (visits (p + before.length) scan' after).1,
          (visits (p + before.length) scan' after).2) := by
  induction before generalizing p scan with
  | nil => rfl
  | cons e rest ih =>
    have shift : p + (e :: rest).length = p + 1 + rest.length := by
      rw [List.length_cons]
      omega
    rw [List.cons_append, shift]
    by_cases used : neverUsed e = false
    · by_cases kept : deleted e = false
      · by_cases short : isLongName e = false
        · rw [visits_inUse ⟨used, kept, short⟩, visits_inUse ⟨used, kept, short⟩, ih]
          cases (visits (p + 1) (scan.checked e).cleared rest).2 <;> simp
        · have long : isLongName e = true := by simpa using short
          rw [visits_longName used kept long, visits_longName used kept long, ih]
      · have gone : deleted e = true := by simpa using kept
        rw [visits_deleted used gone, visits_deleted used gone, ih]
    · have never : neverUsed e = true := by simpa using used
      rw [visits_neverUsed never, visits_neverUsed never]

/-- A visited entry is in use, and no never-used entry lies in front of it. -/
theorem visits_mem (member : visit ∈ (visits p scan slots).1) :
    ∃ k, slots[k]? = some visit.slot ∧ visit.position = p + k ∧ InUse visit.slot ∧
      ∀ j < k, ∀ e, slots[j]? = some e → neverUsed e = false := by
  induction slots generalizing p scan with
  | nil => exact absurd member List.not_mem_nil
  | cons e rest ih =>
    -- a visit of the rest, one place further on
    have later : neverUsed e = false → ∀ scan', visit ∈ (visits (p + 1) scan' rest).1 →
        ∃ k, (e :: rest)[k]? = some visit.slot ∧ visit.position = p + k ∧ InUse visit.slot ∧
          ∀ j < k, ∀ e', (e :: rest)[j]? = some e' → neverUsed e' = false := by
      intro used scan' held
      obtain ⟨k, found, position, inUse, before⟩ := ih held
      refine ⟨k + 1, by simpa using found, by omega, inUse, fun j small e' at_j => ?_⟩
      cases j with
      | zero =>
        obtain rfl : e = e' := by simpa using at_j
        exact used
      | succ j => exact before j (by omega) e' (by simpa using at_j)
    by_cases used : neverUsed e = false
    · by_cases kept : deleted e = false
      · by_cases short : isLongName e = false
        · rw [visits_inUse ⟨used, kept, short⟩] at member
          rcases List.mem_cons.mp member with rfl | member
          · exact ⟨0, rfl, rfl, ⟨used, kept, short⟩, fun j small => absurd small (Nat.not_lt_zero j)⟩
          · exact later used _ member
        · rw [visits_longName used kept (by simpa using short)] at member
          exact later used _ member
      · rw [visits_deleted used (by simpa using kept)] at member
        exact later used _ member
    · rw [visits_neverUsed (by simpa using used)] at member
      cases member

/-- Every entry in use with no never-used entry in front of it is visited. -/
theorem visits_complete (scan : Scan) (found : slots[k]? = some e) (inUse : InUse e)
    (before : ∀ j < k, ∀ e', slots[j]? = some e' → neverUsed e' = false) :
    ∃ visit ∈ (visits p scan slots).1, visit.slot = e ∧ visit.position = p + k := by
  induction slots generalizing p scan k with
  | nil => simp at found
  | cons first rest ih =>
    cases k with
    | zero =>
      obtain rfl : first = e := by simpa using found
      rw [visits_inUse inUse]
      exact ⟨_, List.mem_cons_self, rfl, rfl⟩
    | succ k =>
      have used := before 0 (by omega) first rfl
      have later : ∀ scan', ∃ visit ∈ (visits (p + 1) scan' rest).1,
          visit.slot = e ∧ visit.position = p + (k + 1) := by
        intro scan'
        obtain ⟨visit, member, slot, position⟩ := ih (p := p + 1) (k := k) scan'
          (by simpa using found) (fun j small e' at_j => before (j + 1) (by omega) e' (by simpa using at_j))
        exact ⟨visit, member, slot, by omega⟩
      by_cases kept : deleted first = false
      · by_cases short : isLongName first = false
        · rw [visits_inUse ⟨used, kept, short⟩]
          obtain ⟨visit, member, same⟩ := later (scan.checked first).cleared
          exact ⟨visit, List.mem_cons_of_mem _ member, same⟩
        · rw [visits_longName used kept (by simpa using short)]
          exact later _
      · rw [visits_deleted used (by simpa using kept)]
        exact later _

/-- The loop runs off the end exactly when there is no end mark. -/
theorem visits_ending : (visits p scan slots).2 = none ↔ ∃ e ∈ slots, neverUsed e = true := by
  induction slots generalizing p scan with
  | nil => exact iff_of_false (Option.some_ne_none scan) (by simp)
  | cons e rest ih =>
    by_cases used : neverUsed e = false
    · have skip : (∃ e' ∈ e :: rest, neverUsed e' = true) ↔ ∃ e' ∈ rest, neverUsed e' = true := by
        simp [used]
      rw [skip]
      by_cases kept : deleted e = false
      · by_cases short : isLongName e = false
        · rw [visits_inUse ⟨used, kept, short⟩]
          exact ih
        · rw [visits_longName used kept (by simpa using short)]
          exact ih
      · rw [visits_deleted used (by simpa using kept)]
        exact ih
    · have never : neverUsed e = true := by simpa using used
      rw [visits_neverUsed never]
      simp [never]

/-- A long-name run that a visit names lies right in front of its entry. -/
theorem visits_start (member : visit ∈ (visits p scan slots).1) (started : visit.lfnStart = some s)
    (initial : ∀ s', scan.lfnStart = some s' → s' ≤ p) :
    s ≤ visit.position ∧ (p ≤ s ∨ scan.lfnStart = some s) ∧
      ∀ j, s ≤ j → p ≤ j → j < visit.position →
        ∃ e, slots[j - p]? = some e ∧ isLongName e = true ∧ deleted e = false ∧ neverUsed e = false := by
  induction slots generalizing p scan with
  | nil => exact absurd member List.not_mem_nil
  | cons e rest ih =>
    have cleared : ∀ scan' : Scan, scan'.lfnStart = none → visit ∈ (visits (p + 1) scan' rest).1 →
        s ≤ visit.position ∧ (p ≤ s ∨ scan.lfnStart = some s) ∧
          ∀ j, s ≤ j → p ≤ j → j < visit.position → ∃ e', (e :: rest)[j - p]? = some e' ∧
            isLongName e' = true ∧ deleted e' = false ∧ neverUsed e' = false := by
      intro scan' fresh held
      obtain ⟨le, begins, run⟩ := ih held (by simp [fresh])
      have above : p + 1 ≤ s := by
        rcases begins with above | impossible
        · exact above
        · rw [fresh] at impossible
          cases impossible
      refine ⟨le, Or.inl (by omega), fun j aboveJ _ below => ?_⟩
      obtain ⟨e', found, long⟩ := run j aboveJ (by omega) below
      refine ⟨e', ?_, long⟩
      rw [show j - p = (j - (p + 1)) + 1 by omega, List.getElem?_cons_succ]
      exact found
    by_cases used : neverUsed e = false
    · by_cases kept : deleted e = false
      · by_cases short : isLongName e = false
        · rw [visits_inUse ⟨used, kept, short⟩] at member
          rcases List.mem_cons.mp member with rfl | member
          · -- the entry itself: its run began before it
            have here : scan.lfnStart = some s := by
              unfold visitOf Scan.checked at started
              dsimp only at started
              split at started
              · simp [Scan.cleared] at started
              · exact started
            have le := initial s here
            refine ⟨le, Or.inr here, fun j _ above below => ?_⟩
            change j < p at below
            omega
          · exact cleared _ rfl member
        · have long : isLongName e = true := by simpa using short
          rw [visits_longName used kept long] at member
          obtain ⟨le, begins, run⟩ := ih member (by
            intro s' same
            unfold Scan.longName at same
            cases start : scan.lfnStart with
            | none =>
              simp only [start, Option.getD_none, Option.some.injEq] at same
              omega
            | some s'' =>
              simp only [start, Option.getD_some, Option.some.injEq] at same
              have := initial s'' start
              omega)
          have origin : p ≤ s ∨ scan.lfnStart = some s := by
            rcases begins with above | same
            · exact Or.inl (by omega)
            · unfold Scan.longName at same
              cases start : scan.lfnStart with
              | none =>
                simp only [start, Option.getD_none, Option.some.injEq] at same
                exact Or.inl (by omega)
              | some s'' =>
                simp only [start, Option.getD_some, Option.some.injEq] at same
                exact Or.inr (by rw [same])
          refine ⟨le, origin, fun j aboveS aboveP below => ?_⟩
          by_cases first : j = p
          · subst first
            exact ⟨e, by simp, long, kept, used⟩
          · obtain ⟨e', found, rest'⟩ := run j aboveS (by omega) below
            refine ⟨e', ?_, rest'⟩
            rw [show j - p = (j - (p + 1)) + 1 by omega, List.getElem?_cons_succ]
            exact found
      · rw [visits_deleted used (by simpa using kept)] at member
        exact cleared _ rfl member
    · rw [visits_neverUsed (by simpa using used)] at member
      cases member

end Loop

/-! ## The entries of a directory -/

theorem slotsOf_get (small : k < dirLength v.fs c) :
    (slotsOf v c)[k]? = some (dirSlot v.disk (dirStart v.fs c) k) := by
  simp [slotsOf, small]

theorem slotsOf_get_some (found : (slotsOf v c)[k]? = some e) :
    k < dirLength v.fs c ∧ e = dirSlot v.disk (dirStart v.fs c) k := by
  by_cases small : k < dirLength v.fs c
  · rw [slotsOf_get small] at found
    exact ⟨small, (Option.some.inj found).symm⟩
  · simp [slotsOf, small] at found

/-- Entry `k` of the directory at cluster `c` is one that the loop reaches. -/
structure Live (v : Volume) (c k : Nat) : Prop where
  small : k < dirLength v.fs c
  inUse : InUse (dirSlot v.disk (dirStart v.fs c) k)
  before : ∀ j < k, neverUsed (dirSlot v.disk (dirStart v.fs c) j) = false

/-- Live entries lie in front of every never-used one. -/
theorem live_lt (live : Live v c k) (ending : neverUsed (dirSlot v.disk (dirStart v.fs c) n) = true) :
    k < n := by
  by_contra behind
  by_cases same : k = n
  · have used := live.inUse.1
    rw [same, ending] at used
    cases used
  · have used := live.before n (by omega)
    rw [ending] at used
    cases used

theorem visit_live (member : visit ∈ (visits 0 scan (slotsOf v c)).1) :
    Live v c visit.position ∧ visit.slot = dirSlot v.disk (dirStart v.fs c) visit.position := by
  obtain ⟨k, found, position, inUse, before⟩ := visits_mem member
  rw [Nat.zero_add] at position
  obtain ⟨small, slot⟩ := slotsOf_get_some found
  rw [position]
  refine ⟨⟨small, slot ▸ inUse, fun j below => ?_⟩, slot⟩
  exact before j below _ (slotsOf_get (by omega))

theorem live_visit (scan : Scan) (live : Live v c k) :
    ∃ visit ∈ (visits 0 scan (slotsOf v c)).1,
      visit.slot = dirSlot v.disk (dirStart v.fs c) k ∧ visit.position = k := by
  obtain ⟨visit, member, slot, position⟩ := visits_complete (p := 0) scan
    (slotsOf_get live.small) live.inUse (fun j below e found => by
      rw [(slotsOf_get_some found).2]
      exact live.before j below)
  exact ⟨visit, member, slot, by omega⟩

end MeowMeowOS.Fat16Scan

import MeowMeowOS.Fat16Scan
import Mathlib.Data.Option.Defs
import Mathlib.Logic.Function.Iterate

/-! The loops along a directory's chain, as one loop over the entries of all its
clusters: a long name and the search go on from one cluster to the next. -/
namespace MeowMeowOS.WalkedEntries
open Fat16Disk Fat16Names Fat16Directory Fat16Scan

/-- The cluster `k` links further down a chain, as long as there is one. -/
def linked (v : Volume) (c k : Nat) : Nat := (getFatEntry v)^[k] c

/-- The entries of the first `clusters` clusters of a chain. -/
def chainSlots (v : Volume) : Nat → Nat → List Slot
  | 0, _ => []
  | clusters + 1, c =>
    if InChain c then slotsOf v c ++ chainSlots v clusters (getFatEntry v c) else []

def directorySlots (clusters : Nat) (v : Volume) : List Slot :=
  if v.fs.currentDirCluster = 0 then slotsOf v 0 else chainSlots v clusters v.fs.currentDirCluster

/-- The visits of a walk over the current directory, numbered through its clusters. -/
def walked (clusters : Nat) (v : Volume) : List Visit := (visits 0 Scan.initial (directorySlots clusters v)).1

/-- The entry and the long name in front of it, without their places. -/
def content (visit : Visit) : Slot × CString := (visit.slot, visit.lfnName)

/-- Two loops that have collected the same part of a long name. -/
structure SameName (scan scan' : Scan) : Prop where
  buf : scan'.lfnBuf = scan.lfnBuf
  sum : scan'.lfnChksum = scan.lfnChksum

section Places
variable {scan scan' : Scan} {slots : List Slot} {p q : Nat}

theorem sameName_refl (scan : Scan) : SameName scan scan := ⟨rfl, rfl⟩

theorem sameName_cleared (same : SameName scan scan') : SameName scan.cleared scan'.cleared := ⟨rfl, same.sum⟩

theorem sameName_longName (same : SameName scan scan') (e : Slot) :
    SameName (scan.longName p e) (scan'.longName q e) := by
  refine ⟨?_, rfl⟩
  simp only [Scan.longName, same.buf]

theorem sameName_checked (same : SameName scan scan') (e : Slot) :
    SameName (scan.checked e) (scan'.checked e) := by
  unfold Scan.checked
  rw [same.buf, same.sum]
  split
  · exact sameName_cleared same
  · exact same

/-- What is visited does not depend on how entries are numbered. -/
theorem visits_sameName (same : SameName scan scan') :
    (visits q scan' slots).1.map content = (visits p scan slots).1.map content ∧
      Option.Rel SameName (visits p scan slots).2 (visits q scan' slots).2 := by
  induction slots generalizing p q scan scan' with
  | nil => exact ⟨rfl, Option.Rel.some same⟩
  | cons e rest ih =>
    by_cases used : neverUsed e = false
    · by_cases kept : deleted e = false
      · by_cases short : isLongName e = false
        · have checked := sameName_checked same e
          obtain ⟨seen, ending⟩ := ih (p := p + 1) (q := q + 1) (sameName_cleared checked)
          rw [visits_inUse ⟨used, kept, short⟩, visits_inUse ⟨used, kept, short⟩]
          refine ⟨?_, ending⟩
          rw [List.map_cons, List.map_cons, seen, content, content, visitOf, visitOf, checked.buf]
        · rw [visits_longName used kept (by simpa using short), visits_longName used kept (by simpa using short)]
          exact ih (sameName_longName same e)
      · rw [visits_deleted used (by simpa using kept), visits_deleted used (by simpa using kept)]
        exact ih (sameName_cleared same)
    · rw [visits_neverUsed (by simpa using used), visits_neverUsed (by simpa using used)]
      exact ⟨rfl, Option.Rel.none⟩

/-- A search looks at contents only. -/
theorem find_content {first second : List Visit} (same : second.map content = first.map content)
    (target : CString) : (second.find? (·.matches target)).map (·.slot) =
      (first.find? (·.matches target)).map (·.slot) := by
  have searched : ∀ list : List Visit, (list.find? (·.matches target)).map (·.slot) =
      ((list.map content).find? fun c => (⟨0, c.1, c.2, none⟩ : Visit).matches target).map (·.1) := by
    intro list
    rw [List.find?_map, Option.map_map]
    rfl
  rw [searched, searched, same]

end Places

/-! ## The search and the listing -/

section Chain
variable {v : Volume} {fuel : Nat}

theorem findInChain_found (same : SameName scan scan') : findInChain v target fuel c scan = some (some e) ↔
    ((visits p scan' (chainSlots v fuel c)).1.find? (·.matches target)).map (·.slot) = some e := by
  induction fuel generalizing c scan scan' p with
  | zero => simp [findInChain, chainSlots, visits]
  | succ fuel ih =>
    by_cases inChain : InChain c
    · obtain ⟨seen, ending⟩ := @visits_sameName _ _ (slotsOf v c) 0 p same
      have found := find_content seen target
      rw [findInChain, chainSlots, if_pos inChain, if_pos inChain, visits_append]
      dsimp only
      generalize visits 0 scan (slotsOf v c) = here at ending found ⊢
      generalize visits p scan' (slotsOf v c) = there at ending found ⊢
      obtain ⟨list, final⟩ := here
      obtain ⟨list', final'⟩ := there
      dsimp only at ending found ⊢
      cases hit : list.find? (·.matches target) with
      | some visit =>
        rw [hit] at found
        obtain ⟨visit', hit', slot⟩ := Option.map_eq_some_iff.mp found
        cases ending <;> simp [hit', slot]
      | none =>
        rw [hit] at found
        have missed : list'.find? (·.matches target) = none := Option.map_eq_none_iff.mp found
        cases ending with
        | none => simp [missed]
        | some same' =>
          dsimp only
          rw [List.find?_append, missed, Option.none_or]
          exact ih same'
    · rw [findInChain, chainSlots, if_neg inChain, if_neg inChain]
      simp [visits]

/-- A lookup finds the first visit of the walk that carries the name. -/
theorem findEntry_walked : findEntryInCurrentDir fuel v target = some (some e) ↔
    ((walked fuel v).find? (·.matches target)).map (·.slot) = some e := by
  unfold findEntryInCurrentDir walked directorySlots
  split
  · rw [Option.some.injEq]
  · exact findInChain_found (sameName_refl _)

theorem listChain_content (same : SameName scan scan') (ran : listChain v fuel c scan = some seen) :
    (visits p scan' (chainSlots v fuel c)).1.map content = seen.map content := by
  induction fuel generalizing c scan scan' p seen with
  | zero => cases ran
  | succ fuel ih =>
    by_cases inChain : InChain c
    · obtain ⟨here, ending⟩ := @visits_sameName _ _ (slotsOf v c) 0 p same
      rw [listChain, if_pos inChain] at ran
      rw [chainSlots, if_pos inChain, visits_append]
      dsimp only at ran
      generalize visits 0 scan (slotsOf v c) = first at ending here ran
      generalize visits p scan' (slotsOf v c) = second at ending here ⊢
      obtain ⟨list, final⟩ := first
      obtain ⟨list', final'⟩ := second
      dsimp only at ending here ran ⊢
      cases ending with
      | none =>
        cases ran
        exact here
      | some same' =>
        obtain ⟨more, rest, rfl⟩ := Option.map_eq_some_iff.mp ran
        rw [List.map_append, List.map_append, here, ih same' rest]
    · rw [listChain, if_neg inChain] at ran
      cases ran
      rw [chainSlots, if_neg inChain]
      rfl

/-- A listing that returns has made the visits of the walk. -/
theorem fat16List_walked (ran : fat16List fuel v = some seen) :
    (walked fuel v).map content = seen.map content := by
  unfold fat16List at ran
  unfold walked directorySlots
  split at ran
  · rename_i root
    cases ran
    rw [if_pos root]
  · rename_i sub
    rw [if_neg sub]
    exact listChain_content (sameName_refl _) ran

/-- Entry `k` of a walk lies in the chain's cluster `k / n`, where a cluster holds
`n` entries. -/
theorem chainSlots_get (sub : ∀ c, InChain c → dirLength v.fs c = n) (found : (chainSlots v fuel c)[k]? = some e) :
    0 < n ∧ e = dirSlot v.disk (dirStart v.fs (linked v c (k / n))) (k % n) := by
  induction fuel generalizing c k with
  | zero => simp [chainSlots] at found
  | succ fuel ih =>
    rw [chainSlots] at found
    split at found
    · rename_i inChain
      have length : (slotsOf v c).length = n := by
        rw [slotsOf, List.length_map, List.length_range, sub c inChain]
      by_cases first : k < n
      · rw [List.getElem?_append_left (by rw [length]; exact first)] at found
        rw [Nat.div_eq_of_lt first, Nat.mod_eq_of_lt first]
        exact ⟨Nat.zero_lt_of_lt first, (slotsOf_get_some found).2⟩
      · rw [List.getElem?_append_right (by rw [length]; omega), length] at found
        obtain ⟨positive, slot⟩ := ih found
        rw [Nat.div_eq_sub_div positive (by omega), Nat.mod_eq_sub_mod (by omega)]
        exact ⟨positive, slot⟩
    · simp at found

/-- The place of entry `k` of the current directory: its cluster and its number there. -/
def placeOf (v : Volume) (k : Nat) : Nat × Nat :=
  (linked v v.fs.currentDirCluster (k / dirLength v.fs v.fs.currentDirCluster),
    k % dirLength v.fs v.fs.currentDirCluster)

/-- The entry of a disk at such a place. -/
def entryOf (d : Disk) (fs : FsState) (place : Nat × Nat) : Slot := dirSlot d (dirStart fs place.1) place.2

theorem directorySlots_get (found : (directorySlots fuel v)[k]? = some e) : e = entryOf v.disk v.fs (placeOf v k) := by
  unfold directorySlots at found
  unfold entryOf placeOf
  dsimp only
  split at found
  · rename_i root
    obtain ⟨small, slot⟩ := slotsOf_get_some found
    rw [root, Nat.div_eq_of_lt small, Nat.mod_eq_of_lt small]
    exact slot
  · rename_i sub
    refine (chainSlots_get (fun c inChain => ?_) found).2
    rw [dirLength, dirLength, dirSectors, dirSectors, if_neg (by have := inChain.1; omega), if_neg sub]

theorem walked_slot (member : visit ∈ walked fuel v) :
    InUse visit.slot ∧ visit.slot = entryOf v.disk v.fs (placeOf v visit.position) := by
  obtain ⟨k, found, position, inUse, -⟩ := visits_mem member
  rw [Nat.zero_add] at position
  exact ⟨inUse, position ▸ directorySlots_get found⟩

/-- The entries of the first cluster are walked over first. -/
theorem walked_first (hit : (walked fuel v).find? (·.matches target) = some visit) :
    ((visits 0 Scan.initial (slotsOf v v.fs.currentDirCluster)).1.find? (·.matches target)) =
      if visit.position < dirLength v.fs v.fs.currentDirCluster then some visit else none := by
  generalize cluster : v.fs.currentDirCluster = cwd
  have split : ∃ rest, directorySlots fuel v = slotsOf v cwd ++ rest := by
    unfold walked at hit
    unfold directorySlots at hit ⊢
    rw [cluster] at hit ⊢
    by_cases root : cwd = 0
    · rw [if_pos root, root]
      exact ⟨[], (List.append_nil _).symm⟩
    · rw [if_neg root] at hit ⊢
      cases fuel with
      | zero => cases hit
      | succ fuel =>
        rw [chainSlots] at hit ⊢
        split at hit
        · rename_i inChain
          rw [if_pos inChain]
          exact ⟨_, rfl⟩
        · cases hit
  obtain ⟨rest, split⟩ := split
  unfold walked at hit
  rw [split, visits_append] at hit
  have length : (slotsOf v cwd).length = dirLength v.fs cwd := by
    rw [slotsOf, List.length_map, List.length_range]
  cases early : (visits 0 Scan.initial (slotsOf v cwd)).1.find? (·.matches target) with
  | some first =>
    have inside := (visit_live (List.mem_of_find?_eq_some early)).1.small
    have same : first = visit := by
      split at hit
      · exact Option.some.inj (early.symm.trans hit)
      · rw [List.find?_append, early, Option.some_or] at hit
        exact Option.some.inj hit
    rw [← same, if_pos inside]
  | none =>
    split at hit
    · rw [early] at hit
      cases hit
    · rw [List.find?_append, early, Option.none_or] at hit
      obtain ⟨k, -, position, -⟩ := visits_mem (List.mem_of_find?_eq_some hit)
      rw [if_neg (by omega)]

end Chain

end MeowMeowOS.WalkedEntries

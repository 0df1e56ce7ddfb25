import MeowMeowOS.WalkedEntries
import Mathlib.Data.List.TakeWhile

/-! Names that a listing shows, looked up again. A listing turns the 11 bytes of
a short entry into text up to the first space, a lookup turns text into 11 bytes;
the two are not inverse. -/
namespace MeowMeowOS.ListedNames
open ByteMemory Fat16Disk Fat16Names Fat16Directory Fat16Paths Fat16Scan WalkedEntries

/-- The name as the visitor reads it: the text ends at its first zero. -/
def shownName (visit : Visit) : CString := (listedName visit).takeWhile (· ≠ 0)

/-- The first visit of the walk whose name is this one up to case. -/
structure FirstShown (list : List Visit) (name : CString) (before : List Visit) (first : Visit) : Prop where
  split : ∃ after, list = before ++ first :: after
  shown : fat16Strcasecmp (shownName first) name = true
  others : ∀ other ∈ before, fat16Strcasecmp (shownName other) name = false

/-- A lookup of the name stops at the first entry listed under it, and returns
that entry. -/
def Opens (fuel : Nat) (v : Volume) (name : CString) : Prop :=
  ∃ before first, FirstShown (walked fuel v) name before first ∧
    findEntryInCurrentDir fuel v name = some (some first.slot) ∧
    first.matches name = true ∧ ∀ other ∈ before, other.matches name = false

/-- An entry without a long name, under the 8.3 form of this name. -/
def HasShortForm (name : CString) (visit : Visit) : Prop :=
  visit.lfnName = [] ∧ fileName visit.slot = formatFilenameToFat name

/-- The 8.3 form of a name leads to no other entry than the first one listed. -/
def ShortFormLeads (fuel : Nat) (v : Volume) (name : CString) : Prop :=
  ∃ before first, FirstShown (walked fuel v) name before first ∧
    (first.lfnName ≠ [] ∨ HasShortForm name first) ∧ ∀ other ∈ before, ¬ HasShortForm name other

section Visits
variable {visit : Visit} {name : CString}

/-- The long name of a visit is a string out of the buffer. -/
theorem visits_lfnName (member : visit ∈ (visits p scan slots).1) : ∃ buf, visit.lfnName = lfnString buf := by
  induction slots generalizing p scan with
  | nil => simp [visits] at member
  | cons e rest ih =>
    by_cases used : neverUsed e = false
    · by_cases kept : deleted e = false
      · by_cases short : isLongName e = false
        · rw [visits_inUse ⟨used, kept, short⟩] at member
          rcases List.mem_cons.mp member with rfl | later
          · exact ⟨_, rfl⟩
          · exact ih later
        · rw [visits_longName used kept (by simpa using short)] at member
          exact ih member
      · rw [visits_deleted used (by simpa using kept)] at member
        exact ih member
    · rw [visits_neverUsed (by simpa using used)] at member
      cases member

theorem shownName_long (member : visit ∈ (visits p scan slots).1) (long : visit.lfnName ≠ []) :
    shownName visit = visit.lfnName := by
  obtain ⟨buf, text⟩ := visits_lfnName member
  rw [shownName, listedName, if_pos long, text, lfnString]
  exact List.takeWhile_idem

/-- An entry with a long name answers to the name it is listed under, any other
to its 8.3 form. -/
theorem matches_iff (member : visit ∈ (visits p scan slots).1) : visit.matches name = true ↔
    (visit.lfnName ≠ [] ∧ fat16Strcasecmp (shownName visit) name = true) ∨ HasShortForm name visit := by
  unfold Visit.matches HasShortForm
  by_cases long : visit.lfnName = []
  · simp [long]
  · rw [if_pos long, shownName_long member long]
    simp [long]

end Visits

section Lookup
variable {v : Volume} {fuel : Nat} {name : CString}

theorem firstShown_member (shown : FirstShown list name before first) :
    first ∈ list ∧ ∀ other ∈ before, other ∈ list := by
  obtain ⟨after, rfl⟩ := shown.split
  exact ⟨by simp, fun other member => List.mem_append_left _ member⟩

/-- Entries listed in front answer by their 8.3 form alone. -/
theorem before_matches (shown : FirstShown (walked fuel v) name before first) (earlier : other ∈ before) :
    other.matches name = true ↔ HasShortForm name other := by
  have member := (firstShown_member shown).2 other earlier
  rw [matches_iff member, shown.others other earlier]
  simp

theorem first_matches (shown : FirstShown (walked fuel v) name before first) :
    first.matches name = true ↔ first.lfnName ≠ [] ∨ HasShortForm name first := by
  rw [matches_iff (firstShown_member shown).1, shown.shown]
  simp

/-- Every listed name has a first entry listed under it. -/
theorem firstShown_exists (listed : visit ∈ walked fuel v) :
    ∃ before first, FirstShown (walked fuel v) (shownName visit) before first := by
  have some : ((walked fuel v).find? fun other => fat16Strcasecmp (shownName other) (shownName visit)).isSome := by
    rw [List.find?_isSome]
    exact ⟨visit, listed, by simp [fat16Strcasecmp]⟩
  obtain ⟨first, found⟩ := Option.isSome_iff_exists.mp some
  obtain ⟨shown, before, after, split, others⟩ := List.find?_eq_some_iff_append.mp found
  exact ⟨before, first, ⟨after, split⟩, shown, fun other earlier => by simpa using others other earlier⟩

end Lookup

/-- A root with the one short entry `A B`, its base name a letter, a space and
a letter. -/
def spacedName : Volume where
  fs :=
    { isMounted := true
      rootDirLba := 3
      rootDirSectors := 1
      dataRegionLba := 4
      sectorsPerFat := 1
      sectorsPerCluster := 1
      reservedSectors := 1
      currentDirCluster := 0
      currentPath := rootPath }
  disk :=
    { total := 16
      sectors := fun n o =>
        if n = 3 ∧ o < 32 then shortEntry (padded 11 [0x41, 0x20, 0x42]) 0x20 2 5 o else 0 }

end MeowMeowOS.ListedNames

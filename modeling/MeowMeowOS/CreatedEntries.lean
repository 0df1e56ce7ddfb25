import MeowMeowOS.LongNames
import MeowMeowOS.MissingDirectories

/-! A new entry is found again under its name. It goes into free entries, so
the loop visits what it visited before and, in between, the new one. -/
namespace MeowMeowOS.CreatedEntries
open ByteMemory RunSearch Fat16Disk Fat16Names Fat16Directory Fat16Geometry Fat16Scan Fat16Entries LongNames
open MissingDirectories

/-! ## Directories whose long names are whole -/

/-- `count` parts of a long name from entry `first` on, numbered downwards, and
behind them the short entry whose checksum they carry. -/
structure LongRun (slots : List Slot) (first count : Nat) : Prop where
  parts : ∀ i < count, ∃ e, slots[first + i]? = some e ∧ LongEntry e ∧ (e 0).toNat % 32 = count - i
  short : ∃ e, slots[first + count]? = some e ∧ InUse e ∧
    ∀ i < count, ∀ part, slots[first + i]? = some part → part 13 = lfnChecksum (fileName e)

structure Tidy (slots : List Slot) : Prop where
  runs : ∀ (k : Nat) (e : Slot), slots[k]? = some e → LongEntry e →
    ∃ first count, first ≤ k ∧ k < first + count ∧ LongRun slots first count
  ended : ∀ (j k : Nat) (d e : Slot), j ≤ k → slots[j]? = some d → neverUsed d = true → slots[k]? = some e →
    isFreeSlot e = true

/-- A part of a long name is never followed by a free entry. -/
theorem tidy_next (tidy : Tidy slots) (found : slots[k]? = some e) (long : LongEntry e) :
    ∃ e', slots[k + 1]? = some e' ∧ isFreeSlot e' = false := by
  obtain ⟨first, count, above, below, parts, short⟩ := tidy.runs k e found long
  by_cases last : k + 1 = first + count
  · obtain ⟨e', found', ⟨used, kept, -⟩, -⟩ := short
    refine ⟨e', by rw [last]; exact found', ?_⟩
    rw [isFreeSlot, used, kept]
    rfl
  · obtain ⟨e', found', ⟨used, kept, -⟩, -⟩ := parts (k + 1 - first) (by omega)
    refine ⟨e', by rw [← found']; congr 1; omega, ?_⟩
    rw [isFreeSlot, used, kept]
    rfl

/-- What has never been used comes last in a directory that is free from entry `n` on. -/
theorem ended_from (slots : List Slot) (n : Nat) (front : ((slots.take n).all fun e => !neverUsed e) = true)
    (rest : (slots.drop n).all isFreeSlot = true) (j k : Nat) (d e : Slot) (order : j ≤ k) (at_j : slots[j]? = some d)
    (never : neverUsed d = true) (at_k : slots[k]? = some e) : isFreeSlot e = true := by
  have behind : n ≤ j := by
    apply Nat.le_of_not_lt
    intro less
    have used := List.all_eq_true.mp front d
      (List.mem_of_getElem? ((List.getElem?_take_of_lt less).trans at_j))
    rw [never] at used
    cases used
  apply List.all_eq_true.mp rest
  apply List.mem_of_getElem? (i := k - n)
  rw [List.getElem?_drop, Nat.add_sub_of_le (by omega)]
  exact at_k

/-- A directory without long names, free from entry `n` on. -/
theorem tidy_short (n : Nat) (short : (slots.all fun e => !isLongName e) = true)
    (front : ((slots.take n).all fun e => !neverUsed e) = true)
    (rest : (slots.drop n).all isFreeSlot = true) : Tidy slots := by
  refine ⟨fun k e found long => ?_, ended_from _ n front rest⟩
  have none := List.all_eq_true.mp short e (List.mem_of_getElem? found)
  rw [long.2.2] at none
  cases none

/-! ## The loop over a directory with new entries -/

section Insert
variable {before gap after : List Slot}

/-- The loop comes to a free entry with no long name pending. -/
theorem scan_clean (ran : (visits p scan before).2 = some scan') (clean : Clean scan)
    (whole : ∀ e, before.getLast? = some e → isLongName e = true → deleted e = true) : Clean scan' := by
  cases before using List.reverseRecOn with
  | nil =>
    obtain rfl : scan = scan' := Option.some.inj ran
    exact clean
  | append_singleton front e =>
    have last : isLongName e = true → deleted e = true := whole e (by simp)
    rw [visits_append] at ran
    cases middle : (visits p scan front).2 with
    | none => simp [middle] at ran
    | some scan1 =>
      simp only [middle] at ran
      by_cases used : neverUsed e = false
      · by_cases kept : deleted e = false
        · have short : isLongName e = false := by
            cases long : isLongName e with
            | false => rfl
            | true => rw [last long] at kept; cases kept
          rw [visits_inUse ⟨used, kept, short⟩] at ran
          obtain rfl := Option.some.inj ran
          exact clean_cleared _
        · rw [visits_deleted used (by simpa using kept)] at ran
          obtain rfl := Option.some.inj ran
          exact clean_cleared _
      · rw [visits_neverUsed (by simpa using used)] at ran
        cases ran

/-- The visits of a directory whose free entries `gap` are taken by a name: one
more than before, in its place. -/
theorem visits_insert (printable : PrintableName name) (kind : attr ≠ 0x0F)
    (used : ∀ e ∈ before, neverUsed e = false)
    (whole : ∀ e, before.getLast? = some e → isLongName e = true → deleted e = true)
    (free : ∀ e ∈ gap, isFreeSlot e = true)
    (ended : (∃ e ∈ gap, neverUsed e = true) → ∀ e ∈ after, isFreeSlot e = true)
    (fits : (nameEntries name attr cluster size).length = gap.length) :
    ∃ front back created, (visits 0 Scan.initial (before ++ (gap ++ after))).1 = front ++ back ∧
      (visits 0 Scan.initial (before ++ ((nameEntries name attr cluster size).map trim ++ after))).1 =
        front ++ created :: back ∧
      created.slot = trim (shortEntry (shortNameFor name) attr cluster size) ∧
      created.lfnName = if needLfn name then name else [] := by
  cases ran : (visits 0 Scan.initial before).2 with
  | none =>
    obtain ⟨e, member, never⟩ := visits_ending.mp ran
    rw [used e member] at never
    cases never
  | some scan =>
    have clean : Clean scan := scan_clean ran clean_initial whole
    obtain ⟨created, slot, stored, same⟩ := visits_nameEntries (p := 0 + before.length) printable.stored
      (shortEntry_inUse printable kind cluster size) clean after
    refine ⟨(visits 0 Scan.initial before).1,
      (visits (0 + before.length + gap.length) Scan.initial after).1, created, ?_, ?_, slot, stored⟩
    · rw [visits_append, ran]
      dsimp only
      rw [visits_free clean free ended]
    · rw [visits_append, ran]
      dsimp only
      rw [same, fits]

end Insert

/-! ## Looking up in a directory of one cluster -/

/-- The root, or a directory whose chain ends after its first cluster. -/
def OneCluster (v : Volume) : Prop :=
  v.fs.currentDirCluster = 0 ∨
    InData v v.fs.currentDirCluster ∧ InTable v v.fs.currentDirCluster ∧
      InChain v.fs.currentDirCluster ∧ ¬ InChain (getFatEntry v v.fs.currentDirCluster)

def firstMatch (v : Volume) (target : CString) : Option Visit :=
  (visits 0 Scan.initial (slotsOf v v.fs.currentDirCluster)).1.find? (·.matches target)

section Lookup
variable {v v' : Volume} {fuel : Nat} {target : CString}

/-- A lookup that returns has gone through the one cluster. -/
theorem findEntry_firstMatch (one : OneCluster v)
    (answers : findEntryInCurrentDir fuel v target = some found) :
    found = (firstMatch v target).map (·.slot) := by
  unfold findEntryInCurrentDir at answers
  unfold firstMatch
  split at answers
  · rename_i root
    rw [root]
    exact (Option.some.inj answers).symm
  · rename_i notRoot
    obtain ⟨-, -, inChain, last⟩ := one.resolve_left notRoot
    cases fuel with
    | zero => cases answers
    | succ fuel =>
      rw [findInChain, if_pos inChain] at answers
      dsimp only at answers
      split at answers
      · rename_i visit matched
        rw [matched]
        exact (Option.some.inj answers).symm
      · rename_i missed
        rw [missed]
        split at answers
        · exact (Option.some.inj answers).symm
        · cases fuel with
          | zero => cases answers
          | succ fuel =>
            rw [findInChain, if_neg last] at answers
            exact (Option.some.inj answers).symm

/-- A match is returned, whatever follows. -/
theorem firstMatch_findEntry (one : OneCluster v) (steps : 0 < fuel)
    (matched : firstMatch v target = some visit) :
    findEntryInCurrentDir fuel v target = some (some visit.slot) := by
  unfold findEntryInCurrentDir
  unfold firstMatch at matched
  split
  · rename_i root
    rw [root] at matched
    rw [matched]
    rfl
  · rename_i notRoot
    obtain ⟨-, -, inChain, -⟩ := one.resolve_left notRoot
    cases fuel with
    | zero => cases steps
    | succ fuel =>
      rw [findInChain, if_pos inChain]
      dsimp only
      rw [matched]

/-- Two rounds tell that nothing matches. -/
theorem noMatch_findEntry (one : OneCluster v) (none : firstMatch v target = none) (fuel : Nat) :
    findEntryInCurrentDir (fuel + 2) v target = some Option.none := by
  unfold findEntryInCurrentDir
  unfold firstMatch at none
  split
  · rename_i root
    rw [root] at none
    rw [none]
    rfl
  · rename_i notRoot
    obtain ⟨-, -, inChain, last⟩ := one.resolve_left notRoot
    rw [findInChain, if_pos inChain]
    dsimp only
    rw [none]
    dsimp only
    split
    · rfl
    · rw [findInChain, if_neg last]

theorem findEntry_steps (answers : findEntryInCurrentDir fuel v target = some found)
    (notRoot : v.fs.currentDirCluster ≠ 0) : 0 < fuel := by
  rw [findEntryInCurrentDir, if_neg notRoot] at answers
  cases fuel with
  | zero => cases answers
  | succ fuel => exact Nat.succ_pos fuel

end Lookup

/-! ## Creating -/

section Create
variable {v v' : Volume} {name : CString} {attr : UInt8} {cluster size : Nat}

/-- The entries of the current directory afterwards: those of the name stand where the
free ones were. -/
theorem added_list (placed : WellPlaced v) (dir : DirPlaced v v.fs.currentDirCluster)
    (added : addDirEntry v name attr cluster size = some v') :
    ∃ start, findFreeSlots v (nameEntries name attr cluster size).length = some start ∧
      start + (nameEntries name attr cluster size).length ≤ dirLength v.fs v.fs.currentDirCluster ∧
      slotsOf v' v'.fs.currentDirCluster = (slotsOf v v.fs.currentDirCluster).take start ++
        ((nameEntries name attr cluster size).map trim ++
          (slotsOf v v.fs.currentDirCluster).drop (start + (nameEntries name attr cluster size).length)) := by
  obtain ⟨start, found, fs, total, slots, -⟩ := addDirEntry_spec placed dir added
  obtain ⟨fits, free⟩ := findFreeSlots_free found
  refine ⟨start, found, fits, ?_⟩
  generalize nameEntries name attr cluster size = entries at *
  generalize allSlots : slotsOf v v.fs.currentDirCluster = all
  have length : all.length = dirLength v.fs v.fs.currentDirCluster := by
    rw [← allSlots]
    simp [slotsOf]
  have get : ∀ k < dirLength v.fs v.fs.currentDirCluster,
      all[k]? = some (dirSlot v.disk (dirStart v.fs v.fs.currentDirCluster) k) := by
    intro k small
    rw [← allSlots]
    exact slotsOf_get small
  rw [fs]
  apply List.ext_getElem?
  intro q
  by_cases small : q < dirLength v.fs v.fs.currentDirCluster
  · have here : (slotsOf v' v.fs.currentDirCluster)[q]? =
        some (dirSlot v'.disk (dirStart v.fs v.fs.currentDirCluster) q) := by
      rw [← fs] at small ⊢
      exact slotsOf_get small
    rw [here, slots q small]
    by_cases front : q < start
    · rw [if_neg (by omega), List.getElem?_append_left (by rw [List.length_take]; omega),
        List.getElem?_take_of_lt front, get q small]
    · rw [List.getElem?_append_right (by rw [List.length_take]; omega), List.length_take,
        Nat.min_eq_left (by omega)]
      by_cases inside : q < start + entries.length
      · rw [if_pos (by omega), List.getElem?_append_left (by rw [List.length_map]; omega),
          List.getElem?_map, List.getD_eq_getElem?_getD, List.getElem?_eq_getElem (by omega)]
        rfl
      · rw [if_neg (by omega), List.getElem?_append_right (by rw [List.length_map]; omega),
          List.length_map, List.getElem?_drop, ← get q small]
        congr 1
        omega
  · have lengths : (slotsOf v' v.fs.currentDirCluster).length = dirLength v.fs v.fs.currentDirCluster := by
      simp [slotsOf, fs]
    rw [List.getElem?_eq_none (by omega), List.getElem?_eq_none]
    simp only [List.length_append, List.length_take, List.length_map, List.length_drop]
    omega

/-- The entries of the current directory afterwards: a stretch of free ones is
replaced, in front of which nothing is unused. -/
theorem added_slots (placed : WellPlaced v) (dir : DirPlaced v v.fs.currentDirCluster)
    (tidy : Tidy (slotsOf v v.fs.currentDirCluster))
    (added : addDirEntry v name attr cluster size = some v') :
    ∃ before gap after, slotsOf v v.fs.currentDirCluster = before ++ (gap ++ after) ∧
      slotsOf v' v'.fs.currentDirCluster =
        before ++ ((nameEntries name attr cluster size).map trim ++ after) ∧
      (nameEntries name attr cluster size).length = gap.length ∧
      (∀ e ∈ before, neverUsed e = false) ∧ (∀ e ∈ gap, isFreeSlot e = true) ∧
      (∀ e, before.getLast? = some e → isLongName e = true → deleted e = true) ∧
      ((∃ e ∈ gap, neverUsed e = true) → ∀ e ∈ after, isFreeSlot e = true) := by
  obtain ⟨start, found, -, replaced⟩ := added_list placed dir added
  obtain ⟨fits, free⟩ := findFreeSlots_free found
  have positive : 0 < (nameEntries name attr cluster size).length := by simp [nameEntries]
  generalize nameEntries name attr cluster size = entries at *
  generalize allSlots : slotsOf v v.fs.currentDirCluster = all at tidy replaced
  have length : all.length = dirLength v.fs v.fs.currentDirCluster := by
    rw [← allSlots]
    simp [slotsOf]
  have get : ∀ k < dirLength v.fs v.fs.currentDirCluster,
      all[k]? = some (dirSlot v.disk (dirStart v.fs v.fs.currentDirCluster) k) := by
    intro k small
    rw [← allSlots]
    exact slotsOf_get small
  have taken : ∀ e ∈ all.take start, ∃ k < start, all[k]? = some e := by
    intro e member
    obtain ⟨k, small, rfl⟩ := List.mem_take_iff_getElem.mp member
    exact ⟨k, by omega, List.getElem?_eq_getElem _⟩
  have used : ∀ e ∈ all.take start, neverUsed e = false := by
    intro e member
    obtain ⟨k, before, at_k⟩ := taken e member
    apply Bool.eq_false_iff.mpr
    intro never
    obtain ⟨j, inside, notFree⟩ := firstRun_earliest (fun some => absurd some (Nat.lt_irrefl 0)) positive
      found (Nat.zero_le k) before
    have isFree := tidy.ended k (k + j) e _ (Nat.le_add_right k j) at_k never (get (k + j) (by omega))
    rw [isFree] at notFree
    cases notFree
  refine ⟨all.take start, (all.drop start).take entries.length, all.drop (start + entries.length),
    ?_, ?_, ?_, used, ?_, ?_, ?_⟩
  · rw [← List.drop_drop, List.take_append_drop, List.take_append_drop]
  · exact replaced
  · rw [List.length_take, List.length_drop]
    omega
  · intro e member
    obtain ⟨j, small, rfl⟩ := List.mem_take_iff_getElem.mp member
    have at_j := get (start + j) (by omega)
    rw [List.getElem_drop, (List.getElem_eq_iff _).mpr at_j]
    exact free j (by omega)
  · intro e last long
    have member : e ∈ all.take start := List.mem_of_getLast? last
    have someBefore : 0 < start := by
      obtain ⟨k, before, -⟩ := taken e member
      omega
    have at_end : all[start - 1]? = some e := by
      rw [List.getLast?_eq_getElem?, List.length_take, Nat.min_eq_left (by omega),
        List.getElem?_take_of_lt (by omega)] at last
      exact last
    cases kept : deleted e with
    | true => rfl
    | false =>
      obtain ⟨e', at_start, notFree⟩ := tidy_next tidy at_end ⟨used e member, kept, long⟩
      rw [Nat.sub_add_cancel someBefore, get start (by omega), Option.some.injEq] at at_start
      have isFree := free 0 positive
      rw [Nat.add_zero, at_start, notFree] at isFree
      cases isFree
  · rintro ⟨d, member, never⟩ e behind
    obtain ⟨j, small, rfl⟩ := List.mem_take_iff_getElem.mp member
    obtain ⟨i, small', rfl⟩ := List.mem_drop_iff_getElem.mp behind
    rw [List.length_drop] at small
    rw [List.getElem_drop] at never
    exact tidy.ended (start + j) (start + entries.length + i) _ _ (by omega)
      (List.getElem?_eq_getElem (by omega)) never (List.getElem?_eq_getElem _)

theorem oneCluster_placed (one : OneCluster v) : DirPlaced v v.fs.currentDirCluster :=
  one.imp_right fun inside => inside.1

/-- An addition does not touch the tables, so the directory keeps its one cluster. -/
theorem oneCluster_added (placed : WellPlaced v) (one : OneCluster v)
    (added : addDirEntry v name attr cluster size = some v') : OneCluster v' := by
  have dir := oneCluster_placed one
  have behind := dirRegion_behind placed dir
  have root := placed.root
  have region := placed.data
  have noWrap := placed.noWrap
  obtain ⟨_, -, fs, total, -, apart⟩ := addDirEntry_spec placed dir added
  have table : ∀ c, InTable v c → getFatEntry v' c = getFatEntry v c := fun c inTable =>
    getFatEntry_sectors fs (apart _ _ (by omega) (Or.inr (by omega))) inTable
  unfold OneCluster InData InTable at *
  rw [fs, total]
  apply one.imp_right
  rintro ⟨inData, inTable, inChain, last⟩
  rw [table _ inTable]
  exact ⟨inData, inTable, inChain, last⟩

/-- The new entry is found under its name, and every other lookup finds what
it found before unless the new entry answers to the name as well. -/
theorem created_entry_found (placed : WellPlaced v) (one : OneCluster v)
    (tidy : Tidy (slotsOf v v.fs.currentDirCluster)) (printable : PrintableName name)
    (kind : attr = 0x10 ∨ attr = 0x20) (smallCluster : cluster < 2 ^ 16) (smallSize : size < 2 ^ 32)
    (missing : findEntryInCurrentDir fuel v name = some none)
    (added : addDirEntry v name attr cluster size = some v') :
    ∃ created : Visit, attributes created.slot = attr ∧ clusterLow created.slot = cluster ∧
      fileSize created.slot = size ∧
      findEntryInCurrentDir fuel v' name = some (some created.slot) ∧
      (∀ target visit, firstMatch v target = some visit → created.matches target = false →
        firstMatch v' target = some visit) ∧
      (∀ target e, findEntryInCurrentDir fuel v target = some (some e) → created.matches target = false →
        findEntryInCurrentDir fuel v' target = some (some e)) ∧
      ∀ q < dirLength v.fs v.fs.currentDirCluster,
        isFreeSlot (dirSlot v.disk (dirStart v.fs v.fs.currentDirCluster) q) = false →
        dirSlot v'.disk (dirStart v.fs v.fs.currentDirCluster) q =
          dirSlot v.disk (dirStart v.fs v.fs.currentDirCluster) q := by
  have dir := oneCluster_placed one
  have notLong : attr ≠ 0x0F := by
    rcases kind with rfl | rfl <;> decide
  obtain ⟨before, gap, after, slots, slots', fits, used, free, whole, ended⟩ := added_slots placed dir tidy added
  obtain ⟨front, back, created, visited, visited', slot, stored⟩ :=
    visits_insert printable notLong used whole free ended fits
  rw [← slots] at visited
  rw [← slots'] at visited'
  obtain ⟨-, attrIs, clusterIs, sizeIs⟩ := shortEntry_fields (shortNameFor name) attr cluster size
  -- the lookups before and after, over the visits
  have first : ∀ target, firstMatch v target = (front ++ back).find? (·.matches target) := by
    intro target
    rw [firstMatch, visited]
  have first' : ∀ target, firstMatch v' target = (front ++ created :: back).find? (·.matches target) := by
    intro target
    rw [firstMatch, visited']
  have kept : ∀ target visit, firstMatch v target = some visit → created.matches target = false →
      firstMatch v' target = some visit := by
    intro target visit matched other
    rw [first, List.find?_append] at matched
    rw [first', List.find?_append, List.find?_cons_of_neg (by simpa using other)]
    exact matched
  have answers : created.matches name = true := by
    unfold Visit.matches
    rw [stored, slot, fileName_trim, fileName_shortEntry _ _ _ _ (shortNameFor_length name)]
    by_cases long : needLfn name = true
    · rw [if_pos long, if_pos printable.nonempty, fat16Strcasecmp]
      exact beq_self_eq_true _
    · rw [if_neg long, if_neg (fun some => some rfl), shortNameFor, if_neg long]
      exact beq_self_eq_true _
  have found : firstMatch v' name = some created := by
    have none := findEntry_firstMatch one missing
    rw [eq_comm, Option.map_eq_none_iff, first, List.find?_append, Option.or_eq_none_iff] at none
    rw [first', List.find?_append, none.1,
      List.find?_cons_of_pos (p := fun x : Visit => x.matches name) answers]
    rfl
  have one' := oneCluster_added placed one added
  obtain ⟨start, reserved, fs, -, changed, -⟩ := addDirEntry_spec placed dir added
  -- one round through the loop is enough in a subdirectory
  have lookup : ∀ target visit, firstMatch v' target = some visit →
      findEntryInCurrentDir fuel v' target = some (some visit.slot) := by
    intro target visit matched
    by_cases root : v.fs.currentDirCluster = 0
    · have root' : v'.fs.currentDirCluster = 0 := by rw [fs, root]
      have any : findEntryInCurrentDir fuel v' target = findEntryInCurrentDir 1 v' target := by
        rw [findEntryInCurrentDir, findEntryInCurrentDir, if_pos root', if_pos root']
      rw [any]
      exact firstMatch_findEntry one' Nat.one_pos matched
    · exact firstMatch_findEntry one' (findEntry_steps missing root) matched
  refine ⟨created, ?_, ?_, ?_, lookup name created found, kept, ?_, ?_⟩
  · rw [slot, attributes_trim, attrIs]
  · rw [slot, clusterLow_trim, clusterIs, Nat.mod_eq_of_lt smallCluster]
  · rw [slot, fileSize_trim, sizeIs, Nat.mod_eq_of_lt smallSize]
  · intro target e before other
    have same := findEntry_firstMatch one before
    obtain ⟨visit, matched, rfl⟩ := Option.map_eq_some_iff.mp same.symm
    exact lookup target visit (kept target visit matched other)
  · intro q small inUse
    rw [changed q small, if_neg]
    rintro ⟨above, below⟩
    have isFree := (findFreeSlots_free reserved).2 (q - start) (by omega)
    rw [Nat.add_sub_of_le above, inUse] at isFree
    cases isFree

end Create

/-! ## A long name behind two short ones -/

theorem twoEntries_tidy : Tidy (slotsOf twoEntries 0) := by
  apply tidy_short 2
  · decide +kernel
  · decide +kernel
  · decide +kernel

theorem created_entry_found_twoEntries :
    ∃ v' e, addDirEntry twoEntries [0x62] 0x20 4 1 = some v' ∧
      findEntryInCurrentDir 1 v' [0x62] = some (some e) ∧ clusterLow e = 4 ∧ fileSize e = 1 := by
  have returns : (addDirEntry twoEntries [0x62] 0x20 4 1).isSome = true := by decide +kernel
  have absent : (findEntryInCurrentDir 1 twoEntries [0x62]).map Option.isNone = some true := by decide +kernel
  obtain ⟨v', added⟩ := Option.isSome_iff_exists.mp returns
  obtain ⟨found, missing, isNone⟩ := Option.map_eq_some_iff.mp absent
  obtain ⟨created, -, cluster, size, lookup, -⟩ := created_entry_found twoEntries_regular.placed (Or.inl rfl)
    twoEntries_tidy ⟨by decide, by decide, by decide +kernel⟩ (Or.inr rfl) (by decide) (by decide)
    (missing.trans (congrArg some (Option.isNone_iff_eq_none.mp isNone))) added
  exact ⟨v', created.slot, added, lookup, cluster, size⟩

end MeowMeowOS.CreatedEntries

import MeowMeowOS.DeletedFiles

/-! What an addition and a removal do to the entries that the directory loop visits: one
more in its place, or one less. The long names of the directory stay whole. -/
namespace MeowMeowOS.DirectoryEdits
open ByteMemory Fat16Disk Fat16Names Fat16Directory Fat16Geometry Fat16Scan Fat16Entries LongNames CreatedEntries
open MissingDirectories DeletedFiles

/-! ## Runs of a long name -/

section Runs
variable {slots slots' before gap entries after : List Slot} {first count : Nat}

theorem inUse_live (inUse : InUse e) : isFreeSlot e = false := by
  rw [isFreeSlot, inUse.1, inUse.2.1]
  rfl

theorem longEntry_live (long : LongEntry e) : isFreeSlot e = false := by
  rw [isFreeSlot, long.1, long.2.1]
  rfl

/-- No entry of a run is free. -/
theorem longRun_live (run : LongRun slots first count) (above : first ≤ k) (below : k ≤ first + count) :
    ∃ e, slots[k]? = some e ∧ isFreeSlot e = false := by
  obtain ⟨i, rfl⟩ := Nat.exists_eq_add_of_le above
  by_cases last : i = count
  · obtain ⟨e, found, inUse, -⟩ := run.short
    exact ⟨e, last ▸ found, inUse_live inUse⟩
  · obtain ⟨e, found, long, -⟩ := run.parts i (by omega)
    exact ⟨e, found, longEntry_live long⟩

theorem longRun_congr (run : LongRun slots first count)
    (same : ∀ k, first ≤ k → k ≤ first + count → slots'[k]? = slots[k]?) : LongRun slots' first count where
  parts := by
    intro i small
    rw [same (first + i) (by omega) (by omega)]
    exact run.parts i small
  short := by
    obtain ⟨e, found, inUse, sums⟩ := run.short
    refine ⟨e, (same _ (by omega) (Nat.le_refl _)).trans found, inUse, fun i small part here => ?_⟩
    rw [same (first + i) (by omega) (by omega)] at here
    exact sums i small part here

/-- The entries of a name are such a run. -/
theorem longRun_name (printable : PrintableName name) (kind : attr ≠ 0x0F) (cluster size : Nat) :
    LongRun (before ++ ((nameEntries name attr cluster size).map trim ++ after)) before.length
      ((nameEntries name attr cluster size).length - 1) := by
  have inUse := shortEntry_inUse printable kind cluster size
  have fileNameIs : fileName (trim (shortEntry (shortNameFor name) attr cluster size)) = shortNameFor name := by
    rw [fileName_trim, fileName_shortEntry _ _ _ _ (shortNameFor_length name)]
  unfold nameEntries
  dsimp only
  have few : (if needLfn name then (name.length + 12) / 13 else 0) < 32 := by
    have short := printable.short
    split <;> omega
  generalize (if needLfn name then (name.length + 12) / 13 else 0) = parts at few ⊢
  rw [List.map_append, List.map_map, List.map_singleton, List.append_assoc, List.singleton_append,
    List.length_append, List.length_map, List.length_range, List.length_singleton, Nat.add_sub_cancel]
  have part : ∀ i < parts, (before ++ (List.map (trim ∘ fun i => populateLfnEntry name (parts - i)
      (lfnChecksum (shortNameFor name)) (decide (i = 0))) (List.range parts) ++
      trim (shortEntry (shortNameFor name) attr cluster size) :: after))[before.length + i]? =
      some (trim (populateLfnEntry name (parts - i) (lfnChecksum (shortNameFor name)) (decide (i = 0)))) := by
    intro i small
    rw [List.getElem?_append_right (Nat.le_add_right _ _), Nat.add_sub_cancel_left,
      List.getElem?_append_left (by simpa using small), List.getElem?_map, List.getElem?_range small]
    rfl
  refine ⟨fun i small => ⟨_, part i small, longEntry_populate _ _ _ (by omega) (by omega),
    (order_populate name (lfnChecksum (shortNameFor name)) (decide (i = 0)) (by omega) (by omega)).1⟩,
    _, ?_, inUse, fun i small e here => ?_⟩
  · rw [List.getElem?_append_right (Nat.le_add_right _ _), Nat.add_sub_cancel_left,
      List.getElem?_append_right (by simp), List.length_map, List.length_range, Nat.sub_self]
    rfl
  · rw [part i small, Option.some.injEq] at here
    rw [← here, fileNameIs]
    exact (populate_fields name (parts - i) (lfnChecksum (shortNameFor name)) (decide (i = 0))).2.2

/-- Free entries give way to a run. -/
theorem tidy_insert (tidy : Tidy (before ++ (gap ++ after))) (used : ∀ e ∈ before, neverUsed e = false)
    (free : ∀ e ∈ gap, isFreeSlot e = true) (fits : entries.length = gap.length) (some : 0 < entries.length)
    (run : LongRun (before ++ (entries ++ after)) before.length (entries.length - 1)) :
    Tidy (before ++ (entries ++ after)) := by
  have front : ∀ k < before.length, (before ++ (entries ++ after))[k]? = (before ++ (gap ++ after))[k]? := by
    intro k less
    rw [List.getElem?_append_left less, List.getElem?_append_left less]
  have back : ∀ k, before.length + gap.length ≤ k →
      (before ++ (entries ++ after))[k]? = (before ++ (gap ++ after))[k]? := by
    intro k more
    rw [List.getElem?_append_right (by omega), List.getElem?_append_right (by omega),
      List.getElem?_append_right (by omega), List.getElem?_append_right (by omega), fits]
  have gone : ∀ k, before.length ≤ k → k < before.length + gap.length → ∀ e,
      (before ++ (gap ++ after))[k]? = Option.some e → isFreeSlot e = true := by
    intro k above below e found
    rw [List.getElem?_append_right above, List.getElem?_append_left (by omega)] at found
    exact free e (List.mem_of_getElem? found)
  have apart : ∀ first count, LongRun (before ++ (gap ++ after)) first count → ∀ k, first ≤ k →
    k ≤ first + count →
      before.length ≤ k → k < before.length + gap.length → False := by
    intro first count old k above below inside inside'
    obtain ⟨e, found, live⟩ := longRun_live old above below
    rw [gone k inside inside' e found] at live
    cases live
  refine ⟨fun k e found long => ?_, fun j k d e order at_j never at_k => ?_⟩
  · by_cases early : k < before.length
    · rw [front k early] at found
      obtain ⟨first, count, above, below, old⟩ := tidy.runs k e found long
      have ends : first + count < before.length := Nat.lt_of_not_le fun le =>
        apart first count old before.length (by omega) le (Nat.le_refl _) (by omega)
      exact ⟨first, count, above, below, longRun_congr old fun k _ within => front k (by omega)⟩
    · by_cases late : before.length + gap.length ≤ k
      · rw [back k late] at found
        obtain ⟨first, count, above, below, old⟩ := tidy.runs k e found long
        have begins : before.length + gap.length ≤ first := Nat.le_of_not_lt fun less =>
          apart first count old (before.length + gap.length - 1) (by omega) (by omega) (by omega) (by omega)
        exact ⟨first, count, above, below, longRun_congr old fun k within _ => back k (by omega)⟩
      · refine ⟨before.length, entries.length - 1, by omega, ?_, run⟩
        -- the last entry of the run is not a part of it
        apply Nat.lt_of_not_le
        intro last
        obtain ⟨short, found', inUse, -⟩ := run.short
        rw [show before.length + (entries.length - 1) = k by omega, found, Option.some.injEq] at found'
        exact longEntry_notInUse long (found' ▸ inUse)
  · by_cases early : j < before.length
    · rw [List.getElem?_append_left early] at at_j
      rw [used d (List.mem_of_getElem? at_j)] at never
      cases never
    · by_cases late : before.length + gap.length ≤ j
      · exact tidy.ended j k d e order (back j late ▸ at_j) never (back k (by omega) ▸ at_k)
      · obtain ⟨e', found, live⟩ := longRun_live run (k := j) (by omega) (by omega)
        rw [at_j, Option.some.injEq] at found
        rw [← found, isFreeSlot, never] at live
        cases live

end Runs

/-! ## Removed runs -/

def marked (e : Slot) : Slot := trim (writeByte e 0 0xE5)

theorem deleted_marked (e : Slot) : neverUsed (marked e) = false ∧ deleted (marked e) = true := by
  unfold marked
  rw [neverUsed_trim, deleted_trim]
  simp [neverUsed, deleted, writeByte]

/-- The entries from `first` to `position` are marked. -/
def Removed (all all' : List Slot) (first position : Nat) : Prop :=
  ∀ k : Nat, all'[k]? = if first ≤ k ∧ k ≤ position then all[k]?.map marked else all[k]?

section Removals
variable {all all' : List Slot} {first position : Nat} {visit : Visit}

theorem removed_inside (removed : Removed all all' first position) (inside : first ≤ k ∧ k ≤ position)
    (found : all'[k]? = some e) : neverUsed e = false ∧ deleted e = true := by
  rw [removed k, if_pos inside] at found
  obtain ⟨e', -, rfl⟩ := Option.map_eq_some_iff.mp found
  exact deleted_marked e'

theorem tidy_removed (tidy : Tidy all) (own : OwnRun all first position) (removed : Removed all all' first position) :
    Tidy all' := by
  obtain ⟨⟨count, rfl, run⟩, begins⟩ := own
  have outside : ∀ k, ¬ (first ≤ k ∧ k ≤ first + count) → all'[k]? = all[k]? := fun k out => by
    rw [removed k, if_neg out]
  refine ⟨fun k e found long => ?_, fun j k d e order at_j never at_k => ?_⟩
  · by_cases inside : first ≤ k ∧ k ≤ first + count
    · have gone := long.2.1
      rw [(removed_inside removed inside found).2] at gone
      cases gone
    · rw [outside k inside] at found
      obtain ⟨first', count', above, below, other⟩ := tidy.runs k e found long
      refine ⟨first', count', above, below, longRun_congr other fun q low high => outside q fun within => ?_⟩
      -- two runs with an entry in common are one
      by_cases early : k < first
      · obtain ⟨e', found', long', -⟩ := other.parts (first - 1 - first') (by omega)
        exact begins (first - 1) e' (by omega) (by rw [← found']; congr 1; omega) long'
      · obtain ⟨short, found', inUse, -⟩ := run.short
        obtain ⟨e', found'', long', -⟩ := other.parts (first + count - first') (by omega)
        rw [Nat.add_sub_of_le (by omega), found', Option.some.injEq] at found''
        exact longEntry_notInUse long' (found'' ▸ inUse)
  · by_cases inside : first ≤ k ∧ k ≤ first + count
    · rw [isFreeSlot, (removed_inside removed inside at_k).2, Bool.or_true]
    · by_cases inside' : first ≤ j ∧ j ≤ first + count
      · rw [(removed_inside removed inside' at_j).1] at never
        cases never
      · rw [outside k inside] at at_k
        rw [outside j inside'] at at_j
        exact tidy.ended j k d e order at_j never at_k

/-- The parts, the short entry behind them, and what stays on either side. -/
theorem removed_split (own : OwnRun all first position) (removed : Removed all all' first position) :
    ∃ before parts e gap after, all = before ++ (parts ++ e :: after) ∧ all' = before ++ (gap ++ after) ∧
      before.length = first ∧ before.length + parts.length = position ∧ gap.length = parts.length + 1 ∧
      (∀ part ∈ parts, LongEntry part) ∧ InUse e ∧ ∀ g ∈ gap, neverUsed g = false ∧ deleted g = true := by
  obtain ⟨⟨count, rfl, run⟩, -⟩ := own
  obtain ⟨e, found, inUse, -⟩ := run.short
  obtain ⟨small, at_position⟩ := List.getElem?_eq_some_iff.mp found
  have length : all'.length = all.length := by
    apply Nat.le_antisymm
    · rw [← List.getElem?_eq_none_iff, removed]
      simp
    · rw [← List.getElem?_eq_none_iff]
      have last := removed all'.length
      rw [List.getElem?_eq_none (Nat.le_refl _)] at last
      split at last
      · exact Option.map_eq_none_iff.mp last.symm
      · exact last.symm
  refine ⟨all.take first, (all.drop first).take count, e, (all'.drop first).take (count + 1),
    all.drop (first + count + 1), ?_, ?_, ?_, ?_, ?_, ?_, inUse, ?_⟩
  · rw [← at_position, ← List.drop_eq_getElem_cons, ← List.drop_drop, List.take_append_drop,
      List.take_append_drop]
  · have front : all'.take first = all.take first := by
      apply List.ext_getElem?
      intro k
      by_cases less : k < first
      · rw [List.getElem?_take_of_lt less, List.getElem?_take_of_lt less, removed k, if_neg (by omega)]
      · rw [List.getElem?_eq_none (by rw [List.length_take]; omega),
          List.getElem?_eq_none (by rw [List.length_take]; omega)]
    have back : all'.drop (first + count + 1) = all.drop (first + count + 1) := by
      apply List.ext_getElem?
      intro k
      rw [List.getElem?_drop, List.getElem?_drop, removed, if_neg (by omega)]
    rw [← front, ← back, Nat.add_assoc, ← List.drop_drop, List.take_append_drop, List.take_append_drop]
  · rw [List.length_take]
    omega
  · rw [List.length_take, List.length_take, List.length_drop]
    omega
  · rw [List.length_take, List.length_take, List.length_drop, List.length_drop]
    omega
  · intro part member
    obtain ⟨i, short, rfl⟩ := List.mem_take_iff_getElem.mp member
    obtain ⟨part, here, long, -⟩ := run.parts i (by omega)
    rw [List.getElem_drop, (List.getElem_eq_iff _).mpr here]
    exact long
  · intro g member
    obtain ⟨i, short, rfl⟩ := List.mem_take_iff_getElem.mp member
    rw [List.length_drop] at short
    rw [List.getElem_drop]
    exact removed_inside removed (by omega) (List.getElem?_eq_getElem (i := first + i) (by omega))

/-- Parts of a long name lead to no visit. -/
theorem visits_long {parts : List Slot} (long : ∀ part ∈ parts, LongEntry part) (p : Nat) (scan : Scan)
    (rest : List Slot) : ∃ scan', visits p scan (parts ++ rest) = visits (p + parts.length) scan' rest := by
  induction parts generalizing p scan with
  | nil => exact ⟨scan, rfl⟩
  | cons part parts ih =>
    obtain ⟨used, kept, isLong⟩ := long part List.mem_cons_self
    obtain ⟨scan', same⟩ :=
      ih (fun e member => long e (List.mem_cons_of_mem _ member)) (p + 1) (scan.longName p part)
    refine ⟨scan', ?_⟩
    rw [List.cons_append, visits_longName used kept isLong, same, List.length_cons, Nat.add_assoc,
      Nat.add_comm 1]

/-- The loop visits what it visited before, without the removed entry. -/
theorem visits_removed (member : visit ∈ (visits 0 Scan.initial all).1) (own : OwnRun all first visit.position)
    (removed : Removed all all' first visit.position) :
    ∃ front back, (visits 0 Scan.initial all).1 = front ++ visit :: back ∧
      (visits 0 Scan.initial all').1 = front ++ back := by
  obtain ⟨before, parts, e, gap, after, split, split', starts, place, length, long, inUse, gone⟩ :=
    removed_split own removed
  have begins := own.front
  obtain ⟨k, found, position, -, used⟩ := visits_mem member
  rw [Nat.zero_add] at position
  have used' : ∀ d ∈ before, neverUsed d = false := by
    intro d inside
    obtain ⟨j, small, rfl⟩ := List.getElem_of_mem inside
    refine used j (by omega) _ ?_
    rw [split, List.getElem?_append_left small, List.getElem?_eq_getElem small]
  cases ran : (visits 0 Scan.initial before).2 with
  | none =>
    obtain ⟨d, inside, never⟩ := visits_ending.mp ran
    rw [used' d inside] at never
    cases never
  | some scan =>
    have clean : Clean scan := by
      refine scan_clean ran clean_initial fun d last isLong => ?_
      cases kept : deleted d with
      | true => rfl
      | false =>
        rw [List.getLast?_eq_getElem?] at last
        obtain ⟨small, -⟩ := List.getElem?_eq_some_iff.mp last
        refine (begins (before.length - 1) d (by omega) ?_ ⟨used' d (List.mem_of_getElem? last), kept, isLong⟩).elim
        rw [split, List.getElem?_append_left small, last]
    obtain ⟨scan', same⟩ := visits_long long (0 + before.length) scan (e :: after)
    have whole : (visits 0 Scan.initial all).1 = (visits 0 Scan.initial before).1 ++
        visitOf (0 + before.length + parts.length) scan' e ::
          (visits (0 + before.length + parts.length + 1) Scan.initial after).1 := by
      rw [split, visits_append, ran]
      dsimp only
      rw [same, visits_inUse inUse]
      dsimp only
      rw [visits_clean (clean_cleared _)]
    have left : (visits 0 Scan.initial all').1 = (visits 0 Scan.initial before).1 ++
        (visits (0 + before.length + parts.length + 1) Scan.initial after).1 := by
      rw [split', visits_append, ran]
      dsimp only
      rw [visits_free clean, length, ← Nat.add_assoc]
      · intro g inside
        rw [isFreeSlot, (gone g inside).2, Bool.or_true]
      · rintro ⟨g, inside, never⟩
        rw [(gone g inside).1] at never
        cases never
    -- positions tell the visits apart
    have here : visit = visitOf (0 + before.length + parts.length) scan' e := by
      rw [whole] at member
      rcases List.mem_append.mp member with earlier | rest
      · obtain ⟨j, found', place', -⟩ := visits_mem earlier
        obtain ⟨small, -⟩ := List.getElem?_eq_some_iff.mp found'
        omega
      · rcases List.mem_cons.mp rest with same | later
        · exact same
        · obtain ⟨j, -, place', -⟩ := visits_mem later
          omega
    exact ⟨_, _, here ▸ whole, left⟩

end Removals

end MeowMeowOS.DirectoryEdits

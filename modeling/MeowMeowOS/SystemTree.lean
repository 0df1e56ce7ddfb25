import MeowMeowOS.MissingDirectories
import MeowMeowOS.Fat16Format

/-! The tree below a directory and the walk that protects it. A tree is what
this driver builds: directories of one cluster, files with chains that end.
The walk marks its clusters and no others. -/
namespace MeowMeowOS.SystemTree
open ByteMemory Fat16Disk Fat16Names Fat16Directory Fat16Format
open Fat16Geometry Fat16Scan

/-- Entry `k` of the directory at cluster `c`. -/
abbrev entryAt (v : Volume) (c k : Nat) : Slot := dirSlot v.disk (dirStart v.fs c) k

section Trees
variable {v : Volume}

theorem visit_entry (member : visit ∈ (visits 0 scan (slotsOf v c)).1) :
    Live v c visit.position ∧ visit.slot = entryAt v c visit.position :=
  visit_live member

theorem entry_visit (scan : Scan) (live : Live v c k) :
    ∃ visit ∈ (visits 0 scan (slotsOf v c)).1, visit.slot = entryAt v c k := by
  obtain ⟨visit, member, slot, -⟩ := live_visit scan live
  exact ⟨visit, member, slot⟩

/-- A chain on the disk that ends. -/
inductive FileChain (v : Volume) : Nat → Prop where
  | stop (ended : ¬ InChain c) : FileChain v c
  | link (inChain : InChain c) (placed : InData v c) (rest : FileChain v (getFatEntry v c)) :
      FileChain v c

/-- A directory of one cluster on the disk, with everything below it. Its own
entry and its parent's carry no long name. -/
inductive DirTree (v : Volume) : Nat → Prop where
  | node (inChain : InChain c) (placed : InData v c) (single : ¬ InChain (getFatEntry v c))
      (dots : ∀ visit ∈ (visits 0 Scan.initial (slotsOf v c)).1,
        isDotEntry visit.slot = true → visit.lfnName = [])
      (files : ∀ k, Live v c k → isDotEntry (entryAt v c k) = false →
        isDirectory (entryAt v c k) = false → FileChain v (clusterLow (entryAt v c k)))
      (dirs : ∀ k, Live v c k → isDotEntry (entryAt v c k) = false →
        isDirectory (entryAt v c k) = true → DirTree v (clusterLow (entryAt v c k))) :
      DirTree v c

/-- Cluster `x` lies on the chain from `c`. -/
inductive OnChain (v : Volume) : Nat → Nat → Prop where
  | here (inChain : InChain c) : OnChain v c c
  | next (inChain : InChain c) (further : OnChain v (getFatEntry v c) x) : OnChain v c x

/-- Cluster `x` belongs to the tree below the directory at `c`. -/
inductive Belongs (v : Volume) : Nat → Nat → Prop where
  | own : Belongs v c c
  | file (live : Live v c k) (named : isDotEntry (entryAt v c k) = false)
      (plain : isDirectory (entryAt v c k) = false)
      (chained : OnChain v (clusterLow (entryAt v c k)) x) : Belongs v c x
  | child (live : Live v c k) (named : isDotEntry (entryAt v c k) = false)
      (directory : isDirectory (entryAt v c k) = true)
      (deeper : Belongs v (clusterLow (entryAt v c k)) x) : Belongs v c x

theorem onChain_placed (chain : FileChain v c) (on : OnChain v c x) : InChain x ∧ InData v x := by
  induction on with
  | here inChain =>
    cases chain with
    | stop ended => exact absurd inChain ended
    | link _ placed _ => exact ⟨inChain, placed⟩
  | next inChain further ih =>
    cases chain with
    | stop ended => exact absurd inChain ended
    | link _ _ rest => exact ih rest

theorem dirTree_placed (tree : DirTree v c) : InChain c ∧ InData v c := by
  cases tree with
  | node inChain placed => exact ⟨inChain, placed⟩

theorem belongs_placed (tree : DirTree v c) (belongs : Belongs v c x) : InChain x ∧ InData v x := by
  induction belongs with
  | own => exact dirTree_placed tree
  | file live named plain chained =>
    cases tree with
    | node _ _ _ _ files => exact onChain_placed (files _ live named plain) chained
  | child live named directory deeper ih =>
    cases tree with
    | node _ _ _ _ _ dirs => exact ih (dirs _ live named directory)

/-! ## Marking -/

/-- The marks follow the chains of the old table. -/
def Closed (v : Volume) (flags : Flags) : Prop :=
  ∀ x, flags.marked x = true → InChain (getFatEntry v x) → flags.marked (getFatEntry v x) = true

/-- The walk has added the clusters of `S` to the marks. -/
structure Marks (v : Volume) (flags flags' : Flags) (S : Nat → Prop) : Prop where
  length : flags'.length = flags.length
  closed : Closed v flags'
  marked : ∀ x, flags'.marked x = true ↔ flags.marked x = true ∨ S x

theorem marks_trans (first : Marks v a b S) (second : Marks v b c T) :
    Marks v a c fun x => S x ∨ T x where
  length := second.length.trans first.length
  closed := second.closed
  marked := fun x => by rw [second.marked, first.marked, or_assoc]

theorem marks_congr (marks : Marks v a b S) (same : ∀ x, S x ↔ T x) : Marks v a b T where
  length := marks.length
  closed := marks.closed
  marked := fun x => by rw [marks.marked, same]

theorem marks_refl (closed : Closed v flags) (none : ∀ x, ¬ S x) : Marks v flags flags S where
  length := rfl
  closed := closed
  marked := fun x => by simp [none x]

theorem onChain_marked (closed : Closed v flags) (on : OnChain v c x) (marked : flags.marked c = true) :
    flags.marked x = true := by
  induction on with
  | here => exact marked
  | next inChain further ih =>
    apply ih
    apply closed _ marked
    cases further with
    | here inChain' => exact inChain'
    | next inChain' => exact inChain'

/-- A mark inside the array. -/
theorem mark_some (flags : Flags) (small : c < flags.length) :
    flags.mark c = some { flags with marked := Function.update flags.marked c true } := by
  simp [Flags.mark, small]

theorem marked_update (flags : Flags) (c x : Nat) :
    Function.update flags.marked c true x = true ↔ flags.marked x = true ∨ x = c := by
  by_cases same : x = c
  · subst same
    simp
  · simp [same]

/-- The walk along a file's chain. The marks may still miss the cluster it has
come to, and stop missing it. -/
theorem protectFatChain_marks (chain : FileChain v c) : ∃ enough, ∀ fuel ≥ enough, ∀ oldFat flags,
    (∀ x, InData v x → oldFat x = getFatEntry v x ∧ x < flags.length) →
    (∀ x, flags.marked x = true → InChain (getFatEntry v x) →
      flags.marked (getFatEntry v x) = true ∨ getFatEntry v x = c) →
    ∃ flags', protectFatChain oldFat fuel flags c = some flags' ∧ Marks v flags flags' (OnChain v c) := by
  induction chain with
  | @stop c ended =>
    refine ⟨1, fun fuel enough oldFat flags _ pending => ⟨flags, ?_, ?_⟩⟩
    · obtain ⟨fuel, rfl⟩ : ∃ n, fuel = n + 1 := ⟨fuel - 1, by omega⟩
      rw [protectFatChain, if_neg ended]
    · refine marks_refl (fun x marked inChain => ?_) (fun x on => ?_)
      · rcases pending x marked inChain with done | same
        · exact done
        · exact absurd (same ▸ inChain) ended
      · cases on with
        | here inChain => exact ended inChain
        | next inChain => exact ended inChain
  | @link c inChain placed rest ih =>
    obtain ⟨enough, further⟩ := ih
    refine ⟨enough + 1, fun fuel above oldFat flags table pending => ?_⟩
    obtain ⟨fuel, rfl⟩ : ∃ n, fuel = n + 1 := ⟨fuel - 1, by omega⟩
    obtain ⟨same, small⟩ := table c placed
    rw [protectFatChain, if_pos inChain]
    by_cases already : flags.marked c = true
    · -- whatever follows a marked cluster is marked
      have closed : Closed v flags := by
        intro x marked inChain'
        rcases pending x marked inChain' with done | here
        · exact done
        · exact here ▸ already
      rw [if_pos ⟨small, already⟩]
      refine ⟨flags, rfl, ⟨rfl, closed, fun x => ⟨Or.inl, ?_⟩⟩⟩
      rintro (marked | on)
      · exact marked
      · exact onChain_marked closed on already
    · rw [if_neg fun both => already both.2, mark_some flags small, Option.bind_some, same]
      obtain ⟨flags', ran, marks⟩ := further fuel (by omega) oldFat
        { flags with marked := Function.update flags.marked c true } table (by
          intro x marked inChain'
          rw [marked_update] at marked ⊢
          rcases marked with marked | rfl
          · rcases pending x marked inChain' with done | here
            · exact Or.inl (Or.inl done)
            · exact Or.inl (Or.inr here)
          · exact Or.inr rfl)
      refine ⟨flags', ran, ⟨marks.length, marks.closed, fun x => ?_⟩⟩
      rw [marks.marked, marked_update, or_assoc]
      refine or_congr_right ⟨?_, ?_⟩
      · rintro (rfl | on)
        · exact OnChain.here inChain
        · exact OnChain.next inChain on
      · intro on
        cases on with
        | here => exact Or.inl rfl
        | next _ further => exact Or.inr further

/-- What the walk does at an entry that the listing would visit. -/
def protectVisit (subtree chain : Flags → Nat → Option Flags) (flags : Flags) (visit : Visit) :
    Option Flags :=
  if isDotEntry visit.slot then some flags
  else (if isDirectory visit.slot then subtree else chain) flags (clusterLow visit.slot)

/-- The protecting loop goes through the entries that the listing visits. -/
theorem protectSlots_visits (subtree chain : Flags → Nat → Option Flags) (flags : Flags) (p : Nat)
    (scan : Scan) (slots : List Slot) :
    protectSlots subtree chain flags slots =
      ((visits p scan slots).1.foldlM (protectVisit subtree chain) flags).map
        fun flags => (flags, (visits p scan slots).2.isNone) := by
  induction slots generalizing flags p scan with
  | nil => rfl
  | cons e rest ih =>
    rw [protectSlots]
    by_cases used : neverUsed e = false
    · by_cases kept : deleted e = false
      · by_cases short : isLongName e = false
        · rw [visits_inUse ⟨used, kept, short⟩, List.foldlM_cons]
          rw [if_neg (by simp [used]), if_neg (by simp [kept, short])]
          by_cases dot : isDotEntry e = true
          · rw [if_pos dot, protectVisit, visitOf_slot, if_pos dot]
            exact ih _ _ _
          · rw [if_neg dot, protectVisit, visitOf_slot, if_neg dot]
            simp only [ih _ (p + 1) (scan.checked e).cleared, Option.bind_eq_bind, Option.map_bind]
            rfl
        · have long : isLongName e = true := by simpa using short
          rw [visits_longName used kept long, if_neg (by simp [used]), if_pos (by simp [long])]
          exact ih _ _ _
      · have gone : deleted e = true := by simpa using kept
        rw [visits_deleted used gone, if_neg (by simp [used]), if_pos (by simp [gone])]
        exact ih _ _ _
    · have never : neverUsed e = true := by simpa using used
      rw [visits_neverUsed never, if_pos never]
      rfl

/-- Marking one thing after the other marks them all. -/
theorem foldlM_marks (step : Flags → Visit → Option Flags) (below : Visit → Nat → Prop) (n : Nat)
    (list : List Visit)
    (steps : ∀ visit ∈ list, ∀ flags, flags.length = n → Closed v flags →
      ∃ flags', step flags visit = some flags' ∧ Marks v flags flags' (below visit)) :
    ∀ flags, flags.length = n → Closed v flags →
      ∃ flags', list.foldlM step flags = some flags' ∧
        Marks v flags flags' fun x => ∃ visit ∈ list, below visit x := by
  induction list with
  | nil => exact fun flags _ closed => ⟨flags, rfl, marks_refl closed (by simp)⟩
  | cons visit rest ih =>
    intro flags length closed
    obtain ⟨flags1, first, marks1⟩ := steps visit List.mem_cons_self flags length closed
    obtain ⟨flags2, second, marks2⟩ := ih (fun visit member => steps visit (List.mem_cons_of_mem _ member))
      flags1 (marks1.length.trans length) marks1.closed
    refine ⟨flags2, ?_, marks_congr (marks_trans marks1 marks2) fun x => ?_⟩
    · rw [List.foldlM_cons, first]
      exact second
    · simp [List.mem_cons]

/-- Some number of steps is enough for every entry of a list. -/
theorem enough_forall (list : List Visit) (P : Visit → Nat → Prop)
    (each : ∀ visit ∈ list, ∃ enough, ∀ fuel ≥ enough, P visit fuel) :
    ∃ enough, ∀ fuel ≥ enough, ∀ visit ∈ list, P visit fuel := by
  induction list with
  | nil => exact ⟨0, by simp⟩
  | cons visit rest ih =>
    obtain ⟨first, here⟩ := each visit List.mem_cons_self
    obtain ⟨later, others⟩ := ih fun visit member => each visit (List.mem_cons_of_mem _ member)
    refine ⟨max first later, fun fuel above other member => ?_⟩
    rcases List.mem_cons.mp member with rfl | member
    · exact here fuel (by omega)
    · exact others fuel (by omega) other member

/-- What an entry of the directory leads to. -/
def BelowVisit (v : Volume) (visit : Visit) (x : Nat) : Prop :=
  isDotEntry visit.slot = false ∧
    ((isDirectory visit.slot = false ∧ OnChain v (clusterLow visit.slot) x) ∨
      (isDirectory visit.slot = true ∧ Belongs v (clusterLow visit.slot) x))

theorem belongs_iff (c x : Nat) : Belongs v c x ↔
    x = c ∨ ∃ visit ∈ (visits 0 Scan.initial (slotsOf v c)).1, BelowVisit v visit x := by
  constructor
  · intro belongs
    cases belongs with
    | own => exact Or.inl rfl
    | @file _ k _ live named plain chained =>
      obtain ⟨visit, member, slot⟩ := entry_visit Scan.initial live
      rw [← slot] at named plain chained
      exact Or.inr ⟨visit, member, named, Or.inl ⟨plain, chained⟩⟩
    | @child _ k _ live named directory deeper =>
      obtain ⟨visit, member, slot⟩ := entry_visit Scan.initial live
      rw [← slot] at named directory deeper
      exact Or.inr ⟨visit, member, named, Or.inr ⟨directory, deeper⟩⟩
  · rintro (rfl | ⟨visit, member, named, below⟩)
    · exact Belongs.own
    · obtain ⟨live, slot⟩ := visit_entry member
      rw [slot] at named below
      rcases below with ⟨plain, chained⟩ | ⟨directory, deeper⟩
      · exact Belongs.file live named plain chained
      · exact Belongs.child live named directory deeper

/-- The walk over a directory marks what belongs to it. -/
theorem protectDirectoryTree_marks (tree : DirTree v c) : ∃ enough, ∀ fuel ≥ enough, ∀ oldFat flags,
    (∀ x, InData v x → oldFat x = getFatEntry v x ∧ x < flags.length) → Closed v flags →
    ∃ flags', protectDirectoryTree v oldFat fuel flags c = some flags' ∧
      Marks v flags flags' (Belongs v c) := by
  induction tree with
  | @node c inChain placed single dots files dirs ih =>
    -- enough for every entry of the directory
    have each : ∀ visit ∈ (visits 0 Scan.initial (slotsOf v c)).1, ∃ enough, ∀ fuel ≥ enough,
        ∀ oldFat flags, (∀ x, InData v x → oldFat x = getFatEntry v x ∧ x < flags.length) →
          Closed v flags →
          ∃ flags', protectVisit (protectDirectoryTree v oldFat fuel) (protectFatChain oldFat fuel)
            flags visit = some flags' ∧ Marks v flags flags' (BelowVisit v visit) := by
      intro visit member
      obtain ⟨live, slot⟩ := visit_entry member
      by_cases named : isDotEntry visit.slot = false
      · by_cases plain : isDirectory visit.slot = false
        · obtain ⟨enough, marking⟩ :=
            protectFatChain_marks (slot ▸ files _ live (slot ▸ named) (slot ▸ plain))
          refine ⟨enough, fun fuel above oldFat flags table closed => ?_⟩
          obtain ⟨flags', ran, marks⟩ := marking fuel above oldFat flags table
            (fun x marked further => Or.inl (closed x marked further))
          refine ⟨flags', by simpa [protectVisit, named, plain] using ran, marks_congr marks fun x => ?_⟩
          simp [BelowVisit, named, plain]
        · have directory : isDirectory visit.slot = true := by simpa using plain
          obtain ⟨enough, marking⟩ := ih _ live (slot ▸ named) (slot ▸ directory)
          refine ⟨enough, fun fuel above oldFat flags table closed => ?_⟩
          obtain ⟨flags', ran, marks⟩ := marking fuel above oldFat flags table closed
          rw [← slot] at ran marks
          refine ⟨flags', by simpa [protectVisit, named, directory] using ran, marks_congr marks fun x => ?_⟩
          simp [BelowVisit, named, directory]
      · have dot : isDotEntry visit.slot = true := by simpa using named
        refine ⟨0, fun fuel _ oldFat flags _ closed => ⟨flags, by simp [protectVisit, dot], ?_⟩⟩
        exact marks_refl closed fun x below => absurd below.1 named
    obtain ⟨enough, all⟩ := enough_forall _ _ each
    refine ⟨enough + 2, fun fuel above oldFat flags table closed => ?_⟩
    obtain ⟨fuel, rfl⟩ : ∃ n, fuel = n + 2 := ⟨fuel - 2, by omega⟩
    obtain ⟨link, small⟩ := table c placed
    have closed1 : Closed v { flags with marked := Function.update flags.marked c true } := by
      intro x marked further
      rw [marked_update] at marked ⊢
      rcases marked with marked | rfl
      · exact Or.inl (closed x marked further)
      · exact absurd further single
    obtain ⟨flags', ran, marks⟩ := foldlM_marks
      (protectVisit (protectDirectoryTree v oldFat (fuel + 1)) (protectFatChain oldFat (fuel + 1)))
      (BelowVisit v) flags.length _
      (fun visit member flags1 length closed1 => all (fuel + 1) (by omega) visit member oldFat flags1
        (fun x inData => ⟨(table x inData).1, length ▸ (table x inData).2⟩) closed1)
      { flags with marked := Function.update flags.marked c true } rfl closed1
    have last : ∀ flags, protectDirectoryTree v oldFat (fuel + 1) flags (oldFat c) = some flags := by
      intro flags
      rw [protectDirectoryTree, link, if_neg single]
    refine ⟨flags', ?_, ⟨marks.length, marks.closed, fun x => ?_⟩⟩
    · rw [protectDirectoryTree, if_pos inChain, mark_some flags small, Option.bind_some,
        protectSlots_visits _ _ _ 0 Scan.initial, ran, Option.map_some, Option.bind_some]
      dsimp only
      rw [last]
      split <;> rfl
    · rw [marks.marked, marked_update, belongs_iff, or_assoc]

end Trees

end MeowMeowOS.SystemTree

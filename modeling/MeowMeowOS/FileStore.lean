import MeowMeowOS.DirectoryEdits
import MeowMeowOS.WrittenFiles

/-! A directory as a map from names to contents. Each named file has one entry, a chain
of its own and its bytes in the clusters of that chain. Writing a new name and deleting
an old one change the map at that name and nowhere else. -/
namespace MeowMeowOS.FileStore
open ByteMemory Fat16Disk Fat16Names Fat16Directory Fat16Paths Fat16Files Fat16Geometry Fat16Scan Fat16Entries
open Fat16Vfs Fat16Chains LongNames CreatedEntries MissingDirectories TableCopies DeletedFiles VolumeRuns WrittenBytes
  StoredChains
open ReadContents WrittenFiles DirectoryEdits
open WalkedEntries (linked)

/-- Whether the entry that is created for a name is found under another. -/
def answers (name target : CString) : Bool :=
  if needLfn name then fat16Strcasecmp name target else shortNameFor name == formatFilenameToFat target

/-- Names of files in the current directory that the driver tells apart. -/
structure ToldApart (names : CString → Prop) : Prop where
  printable : ∀ n, names n → PrintableName n
  plain : ∀ n, names n → slash ∉ n
  apart : ∀ n m, names n → names m → answers n m = true → n = m

/-- What the directory loop visits in the current directory. -/
def entriesOf (v : Volume) : List Visit := (visits 0 Scan.initial (slotsOf v v.fs.currentDirCluster)).1

/-- The entries found under a name. -/
def named (v : Volume) (name : CString) : List Visit := (entriesOf v).filter (·.matches name)

/-- The entry of a file, the clusters it has to itself and the bytes in them. -/
structure FileAt (v : Volume) (visit : Visit) (cs : List Nat) (bytes : List UInt8) : Prop where
  file : isDirectory visit.slot = false
  size : fileSize visit.slot = bytes.length
  chain : ChainFrom v (clusterLow visit.slot) cs
  onDisk : ∀ c ∈ cs, InData v c
  taken : ∀ c ∈ cs, getFatEntry v c ≠ 0
  apart : v.fs.currentDirCluster ∉ cs
  room : bytes.length ≤ cs.length * clusterSize v
  content : chainBytes v (clusterLow visit.slot) bytes.length = bytes

abbrev Files := CString → Option (List UInt8)

/-- The volume holds these files under the names, in these clusters. -/
structure Holds (names : CString → Prop) (v : Volume) (files : Files) (chains : CString → List Nat) : Prop where
  sound : Sound v
  one : OneCluster v
  taken : v.fs.currentDirCluster = 0 ∨ getFatEntry v v.fs.currentDirCluster ≠ 0
  tidy : Tidy (slotsOf v v.fs.currentDirCluster)
  equal : TablesEqual v
  absent : ∀ n, names n → files n = none → named v n = []
  stored : ∀ n bytes, names n → files n = some bytes → ∃ visit, named v n = [visit] ∧
    FileAt v visit (chains n) bytes
  separate : ∀ visit ∈ entriesOf v, ∀ n m, names n → names m → visit.matches n = true →
    visit.matches m = true → n = m
  disjoint : ∀ n m, names n → names m → files n ≠ none → files m ≠ none → n ≠ m →
    List.Disjoint (chains n) (chains m)

/-- Every cluster that is not free belongs to one of the files. -/
def Owned (names : CString → Prop) (v : Volume) (files : Files) (chains : CString → List Nat) : Prop :=
  ∀ c, 2 ≤ c → InTable v c → getFatEntry v c ≠ 0 → ∃ n, names n ∧ files n ≠ none ∧ c ∈ chains n

section
variable {names : CString → Prop} {v w : Volume} {visit : Visit} {cs : List Nat} {bytes : List UInt8}
variable {files : Files} {chains : CString → List Nat} {name : CString}

theorem Holds.directory (holds : Holds names v files chains) : Directory v :=
  ⟨holds.one, holds.taken, holds.tidy.ended⟩

/-! ## Chains and their bytes -/

theorem chainFrom_linked (chain : ChainFrom v c cs) (small : k < cs.length) : linked v c k = cs[k] := by
  induction chain generalizing k with
  | stop _ => exact absurd small (Nat.not_lt_zero k)
  | link _ _ _ ih =>
    cases k with
    | zero => rfl
    | succ k =>
      rw [linked_succ, ih (Nat.lt_of_succ_lt_succ small)]
      rfl

/-- Linked clusters that end form a chain. -/
theorem chainFrom_links (links : (c :: rest).IsChain fun c next => getFatEntry v c = next)
    (ending : ∀ x ∈ (c :: rest).getLast?, ¬ InChain (getFatEntry v x))
    (inChain : ∀ x ∈ c :: rest, InChain x ∧ InTable v x) : ChainFrom v c (c :: rest) := by
  induction rest generalizing c with
  | nil =>
    obtain ⟨here, inTable⟩ := inChain c List.mem_cons_self
    exact ChainFrom.link here inTable (ChainFrom.stop (ending c rfl))
  | cons next rest ih =>
    obtain ⟨here, inTable⟩ := inChain c List.mem_cons_self
    obtain ⟨link, links⟩ := List.isChain_cons_cons.mp links
    refine ChainFrom.link here inTable ?_
    rw [link]
    exact ih links (fun x last => ending x (by simpa using last)) fun x member =>
      inChain x (List.mem_cons_of_mem _ member)

/-- The bytes of a chain depend on its own links and sectors. -/
theorem chainBytes_kept (positive : 0 < clusterSize v) (chain : ChainFrom v c cs) (fs : w.fs = v.fs)
    (entries : ∀ x ∈ cs, getFatEntry w x = getFatEntry v x)
    (sectors : ∀ x ∈ cs, SameSectors v.disk w.disk (clusterLba v.fs x) (clusterLba v.fs x + v.fs.sectorsPerCluster))
    (within : n ≤ cs.length * clusterSize v) : chainBytes w c n = chainBytes v c n := by
  have chain' := chainFrom_congr chain fs entries
  have size : clusterSize w = clusterSize v := by
    unfold clusterSize
    rw [fs]
  refine List.map_congr_left fun i member => ?_
  have inside := List.mem_range.mp member
  have small : i / clusterSize v < cs.length := (Nat.div_lt_iff_lt_mul positive).mpr (by omega)
  have below := Nat.mod_lt i positive
  have sector : i % clusterSize v / 512 < v.fs.sectorsPerCluster := by
    unfold clusterSize at below ⊢
    omega
  unfold chainByte sectorByte
  rw [size, chainFrom_linked chain small, chainFrom_linked chain' small, fs,
    sectors _ (List.getElem_mem small) _ (Nat.le_add_right _ _) (by omega)]

theorem fileAt_kept (held : FileAt v visit cs bytes) (sound : Sound v) (fs : w.fs = v.fs)
    (total : w.disk.total = v.disk.total) (entries : ∀ x ∈ cs, getFatEntry w x = getFatEntry v x)
    (sectors : ∀ x ∈ cs,
    SameSectors v.disk w.disk (clusterLba v.fs x) (clusterLba v.fs x + v.fs.sectorsPerCluster)) :
    FileAt w visit cs bytes where
  file := held.file
  size := held.size
  chain := chainFrom_congr held.chain fs entries
  onDisk := by
    intro c member
    have there := held.onDisk c member
    unfold InData at there ⊢
    rw [fs, total]
    exact there
  taken := fun c member => by
    rw [entries c member]
    exact held.taken c member
  apart := by
    rw [fs]
    exact held.apart
  room := by
    have room := held.room
    unfold clusterSize at room ⊢
    rw [fs]
    exact room
  content := by
    rw [chainBytes_kept (clusterSize_pos sound) held.chain fs entries sectors held.room]
    exact held.content

theorem sound_kept (sound : Sound v) (fs : w.fs = v.fs) (total : w.disk.total = v.disk.total) : Sound w where
  mounted := by rw [fs]; exact sound.mounted
  placed := wellPlaced_of_eq sound.placed fs total
  table := by rw [fs]; exact sound.table
  clusters := by rw [fs]; exact sound.clusters
  few := by rw [fs, total]; exact sound.few

/-! ## The two tables under a write -/

theorem writeCluster_equal (equal : TablesEqual v) (placed : WellPlaced v) (first : 2 ≤ c) (small : c < 2 ^ 16)
    (data : Mem) (size i : Nat) : TablesEqual (writeCluster v data size i c) := by
  have root := placed.root
  have region := placed.data
  have noWrap := placed.noWrap
  have behind : v.fs.dataRegionLba ≤ clusterLba v.fs c := by
    rw [clusterLba_eq placed first small]
    omega
  exact tablesEqual_same equal placed (writeCluster_fs v data size i c)
    (writeCluster_frame placed first small (by omega) (Or.inl (by omega)))

/-- Every cluster that is linked lies in the table, so both copies are written. -/
theorem writeClusters_equal (data : Mem) (size i : Nat) (equal : TablesEqual v) (placed : WellPlaced v)
    (table : v.fs.sectorsPerFat ≤ 256) (first : 2 ≤ current) (inTable : InTable v current)
    (taken : getFatEntry v current ≠ 0) (enough : remaining ≤ (freeClusters v).length) :
    TablesEqual (writeClusters data size (remaining + 1) i current v) := by
  induction remaining generalizing i current v with
  | zero =>
    rw [writeClusters, if_pos rfl]
    exact writeCluster_equal equal placed first inTable.1 data size i
  | succ remaining ih =>
    cases free : freeClusters v with
    | nil =>
      rw [free] at enough
      cases enough
    | cons next rest =>
      have fs := writeCluster_fs v data size i current
      have total := writeCluster_total v data size i current
      have entries : ∀ x, InTable v x → getFatEntry (writeCluster v data size i current) x = getFatEntry v x :=
        fun x inside => writeCluster_entry placed first inTable.1 inside
      have placed' := wellPlaced_of_eq placed fs total
      have free' := (freeClusters_kept table fs entries).trans free
      have linked := linked_next placed' table inTable (by rw [entries current inTable]; exact taken) free'
      have equal' :=
        tablesEqual_setFatEntry (writeCluster_equal equal placed first inTable.1 data size i) placed' inTable next
      rw [writeClusters]
      dsimp only
      rw [if_neg (Nat.succ_ne_zero remaining),
        findFreeCluster_first (v := writeCluster v data size i current) table free']
      rw [free] at enough
      exact ih (i + 1)
        (tablesEqual_setFatEntry equal' (wellPlaced_setFatEntry placed' current next) linked.table 0xFFFF)
        (wellPlaced_of_eq placed' linked.fs linked.total) table linked.first linked.table
        (by rw [linked.ending]; decide)
        (by rw [linked.free]; exact Nat.le_of_succ_le_succ enough)

theorem storedData_equal (data : Mem) (equal : TablesEqual v) (placed : WellPlaced v)
    (table : v.fs.sectorsPerFat ≤ 256)
    (room : findFreeCluster v ≠ 0xFFFF) (enough : clustersNeeded v size ≤ (freeClusters v).length) :
    TablesEqual (storedData v data size) := by
  obtain ⟨rest, free⟩ := free_some table room
  have claimed := claimed_first placed table free
  have equal' := tablesEqual_setFatEntry equal placed claimed.table 0xFFFF
  unfold storedData
  cases count : clustersNeeded v size with
  | zero => exact equal'
  | succ remaining =>
    refine writeClusters_equal data size 0 equal' (wellPlaced_of_eq placed claimed.fs claimed.total) table claimed.first
      claimed.table (by rw [claimed.ended]; decide) ?_
    rw [count, free] at enough
    rw [claimed.free]
    exact Nat.le_of_succ_le_succ enough

/-! ## Writing a new file -/

theorem created_matches (printable : PrintableName name) {created : Visit}
    (slot : created.slot = trim (shortEntry (shortNameFor name) attr cluster size))
    (stored : created.lfnName = if needLfn name then name else []) (target : CString) :
    created.matches target = answers name target := by
  unfold Visit.matches answers
  rw [stored, slot, fileName_trim, fileName_shortEntry _ _ _ _ (shortNameFor_length name)]
  by_cases long : needLfn name = true
  · rw [if_pos long, if_pos long, if_pos printable.nonempty]
  · rw [if_neg long, if_neg long, if_neg (fun some => some rfl)]

theorem answers_self (name : CString) : answers name name = true := by
  unfold answers shortNameFor
  by_cases long : needLfn name = true
  · rw [if_pos long, fat16Strcasecmp]
    exact beq_self_eq_true _
  · rw [if_neg long, if_neg long]
    exact beq_self_eq_true _

/-- The directory afterwards: one more entry. -/
theorem written_directory (sound : Sound v) (dir : Directory v) (tidy : Tidy (slotsOf v v.fs.currentDirCluster))
    (fits : Fits v name size) (printable : PrintableName name) (data : Mem)
    (added : addDirEntry (storedData v data size) name 0x20 (findFreeCluster v) size = some w) :
    ∃ front back created, entriesOf v = front ++ back ∧ entriesOf w = front ++ created :: back ∧
      created.slot = trim (shortEntry (shortNameFor name) 0x20 (findFreeCluster v) size) ∧
      created.lfnName = (if needLfn name then name else []) ∧ Tidy (slotsOf w w.fs.currentDirCluster) := by
  obtain ⟨stored, slots, one, -⟩ := stored_directory sound dir fits data
  have placed := wellPlaced_of_eq sound.placed stored.fs stored.total
  have current : (storedData v data size).fs.currentDirCluster = v.fs.currentDirCluster := by rw [stored.fs]
  have tidy' : Tidy (slotsOf (storedData v data size) (storedData v data size).fs.currentDirCluster) := by
    rw [current, slots]
    exact tidy
  obtain ⟨before, gap, after, split, split', length, used, free, whole, ended⟩ :=
    added_slots placed (oneCluster_placed one) tidy' added
  obtain ⟨front, back, created, visited, visited', slot, name'⟩ :=
    visits_insert printable (by decide) used whole free ended length
  rw [current, slots] at split
  refine ⟨front, back, created, ?_, ?_, slot, name', ?_⟩
  · unfold entriesOf
    rw [split, visited]
  · unfold entriesOf
    rw [split', visited']
  · rw [split']
    refine tidy_insert (split ▸ tidy) used free (by rw [List.length_map, length]) ?_ ?_
    · rw [List.length_map]
      simp [nameEntries]
    · rw [List.length_map]
      exact longRun_name printable (by decide) _ _

theorem links_taken {used : List Nat} (links : used.IsChain fun c next => getFatEntry v c = next)
    (ending : ∀ c ∈ used.getLast?, getFatEntry v c ≠ 0) (positive : ∀ c ∈ used, c ≠ 0) :
    ∀ c ∈ used, getFatEntry v c ≠ 0 := by
  induction used with
  | nil => simp
  | cons c rest ih =>
    cases rest with
    | nil =>
      intro x member
      obtain rfl := List.mem_singleton.mp member
      exact ending x rfl
    | cons next rest =>
      obtain ⟨link, links⟩ := List.isChain_cons_cons.mp links
      intro x member
      rcases List.mem_cons.mp member with rfl | later
      · rw [link]
        exact positive next (by simp)
      · exact ih links (fun x last => ending x (by simpa using last))
          (fun x inside => positive x (List.mem_cons_of_mem _ inside)) x later

/-- The new file, in the clusters that it took. -/
theorem written_file (sound : Sound v) (dir : Directory v) (fits : Fits v name size) (small : size < 2 ^ 32)
    {data : Mem}
    (added : addDirEntry (storedData v data size) name 0x20 (findFreeCluster v) size = some w)
    (slot : visit.slot = trim (shortEntry (shortNameFor name) 0x20 (findFreeCluster v) size)) :
    FileAt w visit (takenClusters v size) ((List.range size).map data) := by
  obtain ⟨stored, -⟩ := stored_directory sound dir fits data
  obtain ⟨fs, total, table, -⟩ := entry_apart sound dir fits added
  obtain ⟨needed, covered⟩ := clustersNeeded_le sound fits
  obtain ⟨-, attr, cluster, length⟩ := shortEntry_fields (shortNameFor name) 0x20 (findFreeCluster v) size
  have inData := taken_inData sound fits
  have inTable : ∀ c ∈ takenClusters v size, InTable v c := fun c member =>
    freeClusters_inTable sound.table (taken_free member)
  have inTable' : ∀ c ∈ takenClusters v size, InTable w c :=
    fun c member => (inTable_of_eq fs).mpr (inTable c member)
  have entry : ∀ c ∈ takenClusters v size, getFatEntry w c = getFatEntry (storedData v data size) c :=
    fun c member => table c (inTable c member)
  have links : (takenClusters v size).IsChain fun c next => getFatEntry w c = next :=
    List.isChain_iff_getElem.mpr fun i further => by
      rw [entry _ (List.getElem_mem _)]
      exact List.isChain_iff_getElem.mp stored.links i further
  have ending : ∀ c ∈ (takenClusters v size).getLast?, getFatEntry w c = 0xFFFF := fun c last => by
    rw [entry c (List.mem_of_getLast? last)]
    exact stored.ending c last
  have first := taken_first sound fits
  have head : clusterLow visit.slot = findFreeCluster v := by
    rw [slot, clusterLow_trim, cluster, Nat.mod_eq_of_lt (inData _ (List.mem_of_getElem? first)).2.1]
  have size' : clusterSize w = clusterSize v := by
    unfold clusterSize
    rw [fs]
  have bytes : ((List.range size).map data).length = size := by rw [List.length_map, List.length_range]
  exact {
    file := by
      rw [slot, isDirectory_trim, isDirectory, attr]
      decide
    size := by rw [slot, fileSize_trim, length, bytes, Nat.mod_eq_of_lt small]
    chain := by
      rw [head]
      cases used : takenClusters v size with
      | nil =>
        rw [used] at first
        cases first
      | cons c rest =>
        rw [used] at first links ending inTable' inData
        obtain rfl := Option.some.inj first
        exact chainFrom_links links (fun x last => by rw [ending x last]; decide) fun x member =>
          ⟨inData_chain sound (inData x member), inTable' x member⟩
    onDisk := by
      intro c member
      have there := inData c member
      unfold InData at there ⊢
      rw [fs, total]
      exact there
    taken := links_taken links (fun c last => by rw [ending c last]; decide) fun c member zero => by
      have := (inData c member).1
      omega
    apart := by
      rw [fs]
      intro member
      rcases dir.located with root | ⟨-, taken⟩
      · have := (inData _ member).1
        omega
      · exact taken (mem_freeClusters.mp (taken_free member)).2.2
    room := by
      have enough : clustersNeeded v size ≤ (takenClusters v size).length := by
        unfold takenClusters
        rw [List.length_take]
        have := List.length_filter_le (fun c => decide (InData v c)) (freeClusters v)
        unfold freeOnDisk at needed
        omega
      rw [bytes, size']
      exact Nat.le_trans covered (Nat.mul_le_mul_right _ enough)
    content := by
      rw [bytes, head]
      exact List.map_congr_left fun i member =>
        (written_bytes sound dir fits small added (List.mem_range.mp member)).2 }

/-- Writing an absent name makes it the name of these bytes. -/
theorem write_holds (apart : ToldApart names) (holds : Holds names v files chains) (listed : names name)
    (missing : files name = none) (small : size < 2 ^ 32) (fits : Fits v name size) (data : Mem) :
    ∃ w, (∀ fuel, fat16WriteFile fuel v name data size = some w) ∧ w.fs = v.fs ∧
      Holds names w (Function.update files name (some ((List.range size).map data)))
        (Function.update chains name (takenClusters v size)) ∧
      (Owned names v files chains → Owned names w (Function.update files name (some ((List.range size).map data)))
        (Function.update chains name (takenClusters v size))) := by
  have sound := holds.sound
  have dir := holds.directory
  have printable := apart.printable name listed
  obtain ⟨w, added⟩ := addDirEntry_stored sound dir fits data
  obtain ⟨stored, -, one, -⟩ := stored_directory sound dir fits data
  obtain ⟨fs, total, table, behind⟩ := entry_apart sound dir fits added
  have placed := wellPlaced_of_eq sound.placed stored.fs stored.total
  obtain ⟨front, back, created, before, afterwards, slot, lfnName, tidy⟩ :=
    written_directory sound dir holds.tidy fits printable data added
  have found : ∀ n, named w n = front.filter (·.matches n) ++ (if answers name n then [created] else []) ++
      back.filter (·.matches n) := by
    intro n
    unfold named
    rw [afterwards, List.filter_append, List.append_assoc, List.filter_cons, created_matches printable slot lfnName]
    split <;> rfl
  have same : ∀ n, answers name n = false → named w n = named v n := by
    intro n other
    rw [found, other]
    unfold named
    rw [before, List.filter_append, if_neg Bool.noConfusion, List.append_nil]
  have other : ∀ n, names n → n ≠ name → answers name n = false := fun n listed' differ =>
    Bool.eq_false_iff.mpr fun same => differ (apart.apart name n listed listed' same).symm
  have inData := taken_inData sound fits
  have equal : TablesEqual w := by
    have room := room_for sound fits
    have enough : clustersNeeded v size ≤ (freeClusters v).length :=
      Nat.le_trans (clustersNeeded_le sound fits).1 (List.length_filter_le _ _)
    have tables := storedData_equal data holds.equal sound.placed sound.table room enough
    have order := dirRegion_behind sound.placed (oneCluster_placed holds.one)
    have region := sound.placed.data
    have noWrap := sound.placed.noWrap
    exact tablesEqual_same tables placed (fs.trans stored.fs.symm)
      (behind _ _ (by rw [stored.fs]; omega) (Or.inr (by rw [stored.fs]; exact order)))
  refine ⟨w, writeFile_added sound fits (apart.plain name listed) added, fs, {
    sound := sound_kept sound fs total
    one := oneCluster_added placed one added
    taken := ?_
    tidy := tidy
    equal := equal
    absent := ?_
    stored := ?_
    separate := ?_
    disjoint := ?_ }, fun owned c first inTable taken => ?_⟩
  · rw [fs]
    rcases holds.one with root | ⟨-, inTable, -⟩
    · exact Or.inl root
    · refine holds.taken.imp_right fun taken => ?_
      rw [other_entry sound dir fits added inTable taken]
      exact taken
  · intro n listed' none
    by_cases here : n = name
    · rw [here, Function.update_self] at none
      cases none
    · rw [Function.update_of_ne here] at none
      rw [same n (other n listed' here)]
      exact holds.absent n listed' none
  · intro n bytes listed' some
    by_cases here : n = name
    · subst here
      rw [Function.update_self, Option.some.injEq] at some
      rw [Function.update_self, ← some]
      have empty := holds.absent n listed missing
      unfold named at empty
      rw [before, List.filter_append, List.append_eq_nil_iff] at empty
      refine ⟨created, ?_, written_file sound dir fits small added slot⟩
      rw [found, answers_self, empty.1, empty.2]
      rfl
    · rw [Function.update_of_ne here] at some
      rw [Function.update_of_ne here, same n (other n listed' here)]
      obtain ⟨visit, alone, held⟩ := holds.stored n bytes listed' some
      refine ⟨visit, alone, fileAt_kept held sound fs total (fun c member => ?_) fun c member => ?_⟩
      · exact other_entry sound dir fits added (chainFrom_inTable held.chain member).2 (held.taken c member)
      · refine other_sectors sound dir fits added (held.onDisk c member) (held.taken c member) fun cwd => ?_
        exact held.apart (cwd ▸ member)
  · intro visit member n m listed' listed'' first second
    rw [afterwards] at member
    rcases List.mem_append.mp member with early | rest
    · exact holds.separate visit (before ▸ List.mem_append_left _ early) n m listed' listed'' first second
    · rcases List.mem_cons.mp rest with rfl | late
      · rw [created_matches printable slot lfnName] at first second
        rw [← apart.apart name n listed listed' first, ← apart.apart name m listed listed'' second]
      · exact holds.separate visit (before ▸ List.mem_append_right _ late) n m listed' listed'' first second
  · have fresh : ∀ n, names n → n ≠ name → files n ≠ none →
      List.Disjoint (takenClusters v size) (chains n) := by
      intro n listed' here some c member member'
      obtain ⟨bytes, some⟩ := Option.ne_none_iff_exists'.mp some
      obtain ⟨visit, -, held⟩ := holds.stored n bytes listed' some
      exact held.taken c member' (mem_freeClusters.mp (taken_free member)).2.2
    intro n m listed' listed'' some some' differ
    by_cases here : n = name
    · have there : m ≠ name := fun same => differ (here.trans same.symm)
      rw [Function.update_of_ne there] at some'
      rw [here, Function.update_self, Function.update_of_ne there]
      exact fresh m listed'' there some'
    · rw [Function.update_of_ne here] at some
      rw [Function.update_of_ne here]
      by_cases there : m = name
      · rw [there, Function.update_self]
        exact fun c member member' => fresh n listed' here some member' member
      · rw [Function.update_of_ne there] at some' ⊢
        exact holds.disjoint n m listed' listed'' some some' differ
  · have inTable := (inTable_of_eq fs).mp inTable
    by_cases new : c ∈ takenClusters v size
    · refine ⟨name, listed, ?_, ?_⟩
      · rw [Function.update_self]
        exact Option.some_ne_none _
      · rw [Function.update_self]
        exact new
    · rw [table c inTable, stored.others c inTable new] at taken
      obtain ⟨n, listed', some, member⟩ := owned c first inTable taken
      have differ : n ≠ name := fun same => some (same ▸ missing)
      exact ⟨n, listed', by rwa [Function.update_of_ne differ], by rwa [Function.update_of_ne differ]⟩

/-! ## Deleting a file -/

/-- What the lookups find under a name that has one entry. -/
theorem named_first (alone : named v name = [visit]) :
    firstMatch v name = some visit ∧ visit ∈ entriesOf v ∧ visit.matches name = true := by
  have inside : visit ∈ named v name := by rw [alone]; exact List.mem_singleton_self visit
  refine ⟨?_, List.mem_of_mem_filter inside, of_decide_eq_true (by simpa using (List.mem_filter.mp inside).2)⟩
  unfold firstMatch
  rw [← List.head?_filter]
  exact congrArg List.head? alone

theorem named_none (none : named v name = []) : firstMatch v name = Option.none := by
  unfold firstMatch
  rw [← List.head?_filter]
  exact congrArg List.head? none

theorem unnamed_delete (printable : PrintableName name) (plain : slash ∉ name) (none : named v name = [])
    (fuel : Nat) :
    fat16DeleteFile fuel v name = some v := by
  have nothing : findToDelete v name false = Option.none := by
    unfold findToDelete
    refine List.find?_eq_none.mpr fun visit member both => ?_
    have inside : visit ∈ named v name := List.mem_filter.mpr ⟨member, by simp_all⟩
    rw [none] at inside
    cases inside
  rw [fat16DeleteFile, if_neg printable.nonempty, enterPath, if_neg plain]
  simp only [Option.bind_eq_bind, Option.bind_some, nothing, deleteFound, leavePath, if_neg plain]

/-- The volume once an entry is marked and its chain is given back. -/
structure Freed (v w : Volume) (visit : Visit) (cs : List Nat) : Prop where
  fs : w.fs = v.fs
  total : w.disk.total = v.disk.total
  equal : TablesEqual w
  entries : ∀ x, InTable v x → getFatEntry w x = if x ∈ cs then 0 else getFatEntry v x
  removed : Removed (slotsOf v v.fs.currentDirCluster) (slotsOf w w.fs.currentDirCluster)
    (visit.lfnStart.getD visit.position) visit.position
  sectors : ∀ lo hi, v.fs.rootDirLba ≤ lo → hi ≤ 2 ^ 23 →
    dirStart v.fs v.fs.currentDirCluster + dirSectors v.fs v.fs.currentDirCluster ≤ lo ∨
      hi ≤ dirStart v.fs v.fs.currentDirCluster → SameSectors v.disk w.disk lo hi

theorem removeEntry_freed (placed : WellPlaced v) (dir : DirPlaced v v.fs.currentDirCluster) (equal : TablesEqual v)
    (member : visit ∈ entriesOf v) (chain : ChainFrom v (clusterLow visit.slot) cs) (enough : cs.length < fuel) :
    ∃ w, removeEntry fuel v visit = some w ∧ Freed v w visit cs := by
  obtain ⟨order, fits⟩ := visit_run member
  have onDisk := dirRegion_onDisk placed dir
  have behind := dirRegion_behind placed dir
  have region := placed.data
  have noWrap := placed.noWrap
  unfold removeEntry
  dsimp only
  generalize markedDisk : markEntriesDeleted v.disk (dirStart v.fs v.fs.currentDirCluster)
    (visit.lfnStart.getD visit.position) visit.position = d
  obtain ⟨placed', total, apart, entries⟩ := marked_kept placed dir member markedDisk
  have copies : TablesEqual { v with disk := d } :=
    tablesEqual_same equal placed rfl (apart _ _ (by omega) (Or.inr behind))
  have chain' : ChainFrom { v with disk := d } (clusterLow visit.slot) cs :=
    chainFrom_congr chain rfl fun x inside => entries x (chainFrom_inTable chain inside).2
  obtain ⟨w, ran, fs, total', freed, kept, same⟩ := freeChain_frees placed' chain' enough
  have fs : w.fs = v.fs := fs
  refine ⟨w, ran, fs, total'.trans total, kept copies, fun x inTable => ?_, fun k => ?_,
    fun lo hi above bound outside => ?_⟩
  · rw [freed x inTable, entries x inTable]
  · rw [fs]
    by_cases small : k < dirLength v.fs v.fs.currentDirCluster
    · have here : (slotsOf w v.fs.currentDirCluster)[k]? =
          some (dirSlot w.disk (dirStart v.fs v.fs.currentDirCluster) k) := by
        have length : dirLength w.fs v.fs.currentDirCluster = dirLength v.fs v.fs.currentDirCluster := by rw [fs]
        rw [slotsOf_get (length ▸ small), fs]
      have kept : dirSlot w.disk (dirStart v.fs v.fs.currentDirCluster) k =
          dirSlot d (dirStart v.fs v.fs.currentDirCluster) k := dirSlot_sectors (same.narrow behind onDisk.2) small
      rw [here, slotsOf_get small, kept, ← markedDisk, dirSlot_markEntriesDeleted onDisk order fits small]
      split <;> rfl
    · have length : (slotsOf w v.fs.currentDirCluster).length = dirLength v.fs v.fs.currentDirCluster := by
        simp [slotsOf, fs]
      have length' : (slotsOf v v.fs.currentDirCluster).length = dirLength v.fs v.fs.currentDirCluster := by
        simp [slotsOf]
      rw [List.getElem?_eq_none (by omega), List.getElem?_eq_none (by omega)]
      split <;> rfl
  · exact (apart lo hi bound outside).trans (same.narrow above bound)

/-- A cluster that is not the directory's own lies apart from it. -/
theorem cluster_outside (placed : WellPlaced v) (dir : DirPlaced v v.fs.currentDirCluster) (inData : InData v c)
    (other : c ≠ v.fs.currentDirCluster) : v.fs.rootDirLba ≤ clusterLba v.fs c ∧
      clusterLba v.fs c + v.fs.sectorsPerCluster ≤ 2 ^ 23 ∧
      (dirStart v.fs v.fs.currentDirCluster + dirSectors v.fs v.fs.currentDirCluster ≤ clusterLba v.fs c ∨
        clusterLba v.fs c + v.fs.sectorsPerCluster ≤ dirStart v.fs v.fs.currentDirCluster) := by
  have notRoot : c ≠ 0 := by
    have := inData.1
    omega
  have region := dirRegion_apart placed dir (Or.inr inData) (Ne.symm other)
  have behind := dirRegion_behind placed (Or.inr inData)
  have onDisk := (dirRegion_onDisk placed (Or.inr inData)).2
  simp only [dirStart, dirSectors, if_neg notRoot] at region behind onDisk
  exact ⟨behind, onDisk, region⟩

/-- Deleting a name ends it, and no other. -/
theorem delete_holds (apart : ToldApart names) (holds : Holds names v files chains) (listed : names name)
    (some : files name = some bytes) (enough : (chains name).length < fuel) :
    ∃ w, fat16DeleteFile fuel v name = Option.some w ∧ w.fs = v.fs ∧
      Holds names w (Function.update files name none) chains ∧
      (Owned names v files chains → Owned names w (Function.update files name none) chains) := by
  have sound := holds.sound
  have located := oneCluster_placed holds.one
  have plain := apart.plain name listed
  obtain ⟨visit, alone, held⟩ := holds.stored name bytes listed some
  obtain ⟨matched, member, answering⟩ := named_first alone
  obtain ⟨w, removed, fs, total, equal, entries, slots, sectors⟩ :=
    removeEntry_freed sound.placed located holds.equal member held.chain enough
  have own : OwnRun (slotsOf v v.fs.currentDirCluster) (visit.lfnStart.getD visit.position) visit.position :=
    visits_ownRun holds.tidy (fun i => by rw [Nat.zero_add])
      (Pending.none rfl fun k e last => absurd last (Nat.succ_ne_zero k)) member
  obtain ⟨front, back, before, afterwards⟩ := visits_removed member own slots
  have before : entriesOf v = front ++ visit :: back := before
  have afterwards : entriesOf w = front ++ back := afterwards
  have ran : fat16DeleteFile fuel v name = Option.some w := by
    rw [fat16DeleteFile, if_neg (apart.printable name listed).nonempty, enterPath, if_neg plain]
    simp only [Option.bind_eq_bind, Option.bind_some, findToDelete_firstMatch matched held.file, deleteFound,
      removed, leavePath, if_neg plain]
  have same : ∀ n, names n → n ≠ name → named w n = named v n := by
    intro n listed' differ
    have unmatched : visit.matches n = false := Bool.eq_false_iff.mpr fun also =>
      differ (holds.separate visit member n name listed' listed also answering)
    unfold named
    rw [before, afterwards, List.filter_append, List.filter_append, List.filter_cons, unmatched,
      if_neg Bool.noConfusion]
  have subset : ∀ other ∈ entriesOf w, other ∈ entriesOf v := by
    intro other inside
    rw [afterwards] at inside
    rw [before]
    rcases List.mem_append.mp inside with early | late
    · exact List.mem_append_left _ early
    · exact List.mem_append_right _ (List.mem_cons_of_mem _ late)
  have current : w.fs.currentDirCluster = v.fs.currentDirCluster := by rw [fs]
  have cluster : ∀ c, InTable v c → c = v.fs.currentDirCluster → getFatEntry w c = getFatEntry v c := by
    intro c inTable here
    rw [entries c inTable, if_neg]
    exact fun inside => held.apart (here ▸ inside)
  refine ⟨w, ran, fs, {
    sound := sound_kept sound fs total
    one := ?_
    taken := ?_
    tidy := tidy_removed holds.tidy own slots
    equal := equal
    absent := ?_
    stored := ?_
    separate := fun other inside => holds.separate other (subset other inside)
    disjoint := ?_ }, fun owned c first inTable taken => ?_⟩
  · rcases holds.one with root | ⟨inData, inTable, inChain, last⟩
    · exact Or.inl (current.trans root)
    · refine Or.inr ?_
      unfold InData InTable at *
      rw [fs, total, cluster _ inTable rfl]
      exact ⟨inData, inTable, inChain, last⟩
  · rw [current]
    rcases holds.one with root | ⟨-, inTable, -⟩
    · exact Or.inl root
    · rw [cluster _ inTable rfl]
      exact holds.taken
  · intro n listed' none
    by_cases here : n = name
    · -- the one entry under the name is the one that went
      rw [here]
      unfold named at alone ⊢
      rw [before, List.filter_append, List.filter_cons, if_pos answering] at alone
      have length := congrArg List.length alone
      simp only [List.length_append, List.length_cons, List.length_nil] at length
      rw [afterwards, List.filter_append, List.append_eq_nil_iff]
      exact ⟨List.length_eq_zero_iff.mp (by omega), List.length_eq_zero_iff.mp (by omega)⟩
    · rw [Function.update_of_ne here] at none
      rw [same n listed' here]
      exact holds.absent n listed' none
  · intro n bytes' listed' some'
    by_cases here : n = name
    · rw [here, Function.update_self] at some'
      cases some'
    · rw [Function.update_of_ne here] at some'
      rw [same n listed' here]
      obtain ⟨visit', alone', held'⟩ := holds.stored n bytes' listed' some'
      refine ⟨visit', alone', fileAt_kept held' sound fs total (fun c inside => ?_) fun c inside => ?_⟩
      · rw [entries c (chainFrom_inTable held'.chain inside).2, if_neg]
        refine holds.disjoint n name listed' listed ?_ ?_ here inside
        · rw [some']
          exact Option.some_ne_none _
        · rw [some]
          exact Option.some_ne_none _
      · obtain ⟨above, bound, outside⟩ := cluster_outside sound.placed located (held'.onDisk c inside) fun cwd =>
          held'.apart (cwd ▸ inside)
        exact sectors _ _ above bound outside
  · intro n m listed' listed'' some' some'' differ
    have still : ∀ n, Function.update files name none n ≠ none → files n ≠ none := by
      intro n
      by_cases here : n = name
      · rw [here, Function.update_self]
        exact fun absurd' => (absurd' rfl).elim
      · rw [Function.update_of_ne here]
        exact id
    exact holds.disjoint n m listed' listed'' (still n some') (still m some'') differ
  · have inTable := (inTable_of_eq fs).mp inTable
    rw [entries c inTable] at taken
    split at taken
    · exact absurd rfl taken
    · rename_i outside
      obtain ⟨n, listed', some', inside⟩ := owned c first inTable taken
      have differ : n ≠ name := fun same => outside (same ▸ inside)
      exact ⟨n, listed', by rwa [Function.update_of_ne differ], inside⟩

/-! ## What reads see -/

/-- A chain has no cluster twice, so it is short. -/
theorem chain_short (chain : ChainFrom v c cs) : cs.length ≤ 0xFFF8 := by
  have inside : cs ⊆ List.range 0xFFF8 := fun x member => List.mem_range.mpr (chainFrom_inTable chain member).1.2
  have short := ((chainFrom_nodup chain).subperm inside).length_le
  rw [List.length_range] at short
  exact short

theorem holds_lookup (holds : Holds names v files chains) (name : CString) (fuel : Nat) :
    findEntryInCurrentDir (fuel + 2) v name = some ((firstMatch v name).map (·.slot)) := by
  cases matched : firstMatch v name with
  | none => exact noMatch_findEntry holds.one matched fuel
  | some visit => exact firstMatch_findEntry holds.one (by omega) matched

theorem holds_size (apart : ToldApart names) (holds : Holds names v files chains) (listed : names name) (fuel : Nat) :
    fat16GetFileSize (fuel + 2) v name = some (((files name).getD []).length, v) := by
  have plain := apart.plain name listed
  have mounted : v.fs.isMounted ≠ false := by
    rw [holds.sound.mounted]
    exact Bool.noConfusion
  have entered : enterPath (fuel + 2) v name = some (v, name) := if_neg plain
  have left : leavePath (fuel + 2) name v.fs.currentPath v = some v := if_neg plain
  have lookup := holds_lookup holds name fuel
  unfold fat16GetFileSize
  rw [if_neg mounted]
  simp only [Option.bind_eq_bind, Option.bind_eq_some_iff, Prod.exists]
  refine ⟨v, name, entered, _, lookup, v, left, ?_⟩
  cases stored : files name with
  | none =>
    rw [named_none (holds.absent name listed stored)]
    rfl
  | some bytes =>
    obtain ⟨visit, alone, held⟩ := holds.stored name bytes listed stored
    rw [(named_first alone).1, Option.map_some, Option.map_some, Option.getD_some, held.size]
    rfl

theorem holds_read (apart : ToldApart names) (holds : Holds names v files chains) (listed : names name)
    {offset count fuel : Nat}
    (words : offset + count < 2 ^ 32) (enough : 0x10000 ≤ fuel) :
    fat16ReadFile (fuel + 2) v name offset count = some ((((files name).getD []).drop offset).take count, v) := by
  have plain := apart.plain name listed
  have entered : enterPath (fuel + 2) v name = some (v, name) := if_neg plain
  have left : leavePath (fuel + 2) name v.fs.currentPath v = some v := if_neg plain
  have lookup := holds_lookup holds name fuel
  have positive := clusterSize_pos holds.sound
  unfold fat16ReadFile
  simp only [Option.bind_eq_bind, Option.bind_eq_some_iff, Prod.exists]
  refine ⟨v, name, entered, _, lookup, ((files name).getD []).drop offset |>.take count, ?_, v, left, rfl⟩
  cases stored : files name with
  | none =>
    rw [named_none (holds.absent name listed stored), Option.map_none, Option.getD_none, List.drop_nil, List.take_nil]
    rfl
  | some bytes =>
    obtain ⟨visit, alone, held⟩ := holds.stored name bytes listed stored
    have long : Held v visit.slot := by
      refine ⟨positive, fun k before => ?_⟩
      rw [held.size] at before
      have small := Nat.lt_of_mul_lt_mul_right (Nat.lt_of_lt_of_le before held.room)
      rw [chainFrom_linked held.chain small]
      exact (chainFrom_inTable held.chain (List.getElem_mem small)).1
    rw [(named_first alone).1, Option.map_some, Option.getD_some]
    refine (readEntry_content (fuel + 1) count long (fun _ => words) ?_).trans ?_
    · have short := Nat.mul_le_mul_right (clusterSize v) (chain_short held.chain)
      have room := held.room
      have more := Nat.mul_le_mul_right (clusterSize v) enough
      rw [held.size, Nat.succ_mul]
      omega
    · rw [held.size, held.content]

/-! ## Writing through a node -/

/-- The old bytes, zeros behind them where needed, and the buffer laid over. -/
def patched (old : List UInt8) (offset size : Nat) (buffer : Mem) : List UInt8 :=
  (List.range (max old.length (offset + size))).map fun i =>
    if offset ≤ i ∧ i < offset + size then buffer (i - offset) else old.getD i 0

/-- The calls treat the path like the name. -/
structure StandsFor (fuel : Nat) (v : Volume) (path name : CString) : Prop where
  read : ∀ offset count, fat16ReadFile fuel v path offset count = fat16ReadFile fuel v name offset count
  delete : ∀ w, fat16DeleteFile fuel v name = some w → w.fs = v.fs → fat16DeleteFile fuel v path = some w
  write : ∀ u w data size, u.fs = v.fs → fat16WriteFile fuel u name data size = some w → w.fs = u.fs →
    fat16WriteFile fuel u path data size = some w

/-- A write through an up-to-date node lays the buffer over the file. -/
theorem vfsWrite_holds (apart : ToldApart names) (holds : Holds names v files chains) (listed : names name)
    {old : List UInt8} (stored : files name = some old) (some : old ≠ []) {offset size fuel : Nat} (buffer : Mem)
    (words : max old.length (offset + size) < 2 ^ 32)
    (fits : ∀ w, fat16DeleteFile (fuel + 2) v name = Option.some w → Fits w name (max old.length (offset + size)))
    (enough : 0x10000 ≤ fuel) {path : CString} (stands : StandsFor (fuel + 2) v path name) :
    ∃ w chains', fat16VfsWrite (fuel + 2) v ⟨path, old.length⟩ offset size buffer true =
        Option.some (size, ⟨path, max old.length (offset + size)⟩, w) ∧ w.fs = v.fs ∧
      Holds names w (Function.update files name (Option.some (patched old offset size buffer))) chains' ∧
      (Owned names v files chains →
        Owned names w (Function.update files name (Option.some (patched old offset size buffer))) chains') := by
  have positive : 0 < old.length := List.length_pos_iff.mpr some
  have length := holds_size apart holds listed fuel
  obtain ⟨visit, alone, held⟩ := holds.stored name old listed stored
  have short := chain_short held.chain
  have read : fat16ReadFile (fuel + 2) v name 0 old.length =
    Option.some ((((files name).getD []).drop 0).take old.length, v) :=
    holds_read apart holds listed (by omega) enough
  rw [stored, Option.getD_some, List.drop_zero, List.take_length] at read
  have long : (chains name).length < fuel + 2 := by omega
  obtain ⟨u, gone, fs, holds', owned⟩ := delete_holds apart holds listed stored long
  obtain ⟨w, wrote, fs', holds'', owned'⟩ :=
    write_holds apart holds' listed (Function.update_self _ _ _) words (fits u gone)
    fun i => if offset ≤ i ∧ i < offset + size then buffer (i - offset) else old.getD i 0
  rw [Function.update_idem] at holds'' owned'
  refine ⟨w, _, ?_, fs'.trans fs, holds'', fun before => owned' (owned before)⟩
  have newSize : (if old.length < (offset + size) % 2 ^ 32 then (offset + size) % 2 ^ 32 else old.length) =
      max old.length (offset + size) := by
    rw [Nat.mod_eq_of_lt (by omega)]
    split <;> omega
  unfold fat16VfsWrite
  dsimp only
  rw [newSize, if_neg Bool.noConfusion, if_pos positive, stands.read, read]
  simp only [Option.bind_eq_bind, Option.bind_some]
  rw [if_neg (by omega), if_pos positive, stands.delete u gone fs, Option.bind_some,
    stands.write u w _ _ fs (wrote _) fs']
  rfl

end

end MeowMeowOS.FileStore

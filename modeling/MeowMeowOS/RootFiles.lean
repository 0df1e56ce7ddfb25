import MeowMeowOS.FileStore
import MeowMeowOS.MountedGeometry

/-! The root directory over runs of the driver. On a disk that the mount has formatted it
is a map from names to contents: new files, deletions, writes through opened nodes and
copies change it as they would change a map, and every cluster that is not free belongs
to one of its files. -/
namespace MeowMeowOS.RootFiles
open ByteMemory Fat16Disk Fat16Names Fat16Directory Fat16Paths Fat16Files Fat16Vfs Fat16Format Fat16Formatted
open Fat16Geometry Fat16Scan LongNames CreatedEntries MissingDirectories TableCopies WrittenFiles FileStore
open FormattedRuns
open MountedGeometry (Accepted initialize_accepted)

/-- A name in the root as callers pass it, with or without the slash in front. -/
structure Leads (names : CString → Prop) (path : CString) : Prop where
  listed : names (baseOf path)
  form : path = baseOf path ∨ path = slash :: baseOf path
  short : path.length < 256

inductive Request
  | write (path : CString) (data : Mem) (size : Nat)
  | delete (path : CString)
  | patch (path : CString) (offset size : Nat) (buffer : Mem)
  | copy (src dst : CString) (slack : Mem)

/-- The volume after a request; a patch is a write through the node that opening returns. -/
def Request.run (fuel : Nat) (v : Volume) : Request → Option Volume
  | .write path data size => fat16WriteFile fuel v path data size
  | .delete path => fat16DeleteFile fuel v path
  | .patch path offset size buffer => do
    let (node, opened) ← fat16VfsOpen fuel v path true
    match node with
    | none => return opened
    | some node => (fat16VfsWrite fuel opened node offset size buffer true).map (·.2.2)
  | .copy src dst slack => (fat16CopyFile fuel v src dst slack).map (·.2)

def contents (files : Files) (path : CString) : List UInt8 := (files (baseOf path)).getD []

/-- What a request makes of the map. -/
def Request.apply (files : Files) : Request → Files
  | .write path data size => Function.update files (baseOf path) (some ((List.range size).map data))
  | .delete path => Function.update files (baseOf path) none
  | .patch path offset size buffer =>
    if contents files path = [] then files
    else Function.update files (baseOf path) (some (patched (contents files path) offset size buffer))
  | .copy src dst _ =>
    if contents files src = [] then files else Function.update files (baseOf dst) (some (contents files src))

/-- New names are not in use, and there is room for what is written. -/
def Admits (names : CString → Prop) (v : Volume) (files : Files) : Request → Prop
  | .write path _ size =>
    Leads names path ∧ files (baseOf path) = none ∧ size < 2 ^ 32 ∧ Fits v (baseOf path) size
  | .delete path => Leads names path
  | .patch path offset size _ => Leads names path ∧ max (contents files path).length (offset + size) < 2 ^ 32 ∧
    ∀ fuel w, fat16DeleteFile fuel v (baseOf path) = some w →
      Fits w (baseOf path) (max (contents files path).length (offset + size))
  | .copy src dst _ =>
    Leads names src ∧ Leads names dst ∧ slash ∈ src ∧ slash ∈ dst ∧ files (baseOf dst) = none ∧
      Fits v (baseOf dst) (contents files src).length

/-- The volumes and maps that admitted requests lead to. -/
inductive Runs (names : CString → Prop) (fuel : Nat) (v : Volume) (files : Files) : Volume → Files → Prop
  | start : Runs names fuel v files v files
  | step {u w : Volume} {before : Files} {r : Request} (runs : Runs names fuel v files u before)
      (admits : Admits names u before r) (ran : r.run fuel u = some w) : Runs names fuel v files w (r.apply before)

/-- The driver stands in the root. -/
structure InRoot (v : Volume) : Prop where
  mounted : v.fs.isMounted = true
  cluster : v.fs.currentDirCluster = 0
  path : v.fs.currentPath = rootPath

section
variable {names : CString → Prop} {v w : Volume} {files : Files} {chains : CString → List Nat} {path : CString}
variable {fuel : Nat}

/-! ## Paths into the root -/

theorem inRoot_kept (root : InRoot v) (fs : w.fs = v.fs) : InRoot w := by
  obtain ⟨mounted, cluster, path⟩ := root
  exact ⟨by rw [fs, mounted], by rw [fs, cluster], by rw [fs, path]⟩

theorem chdir_root (root : InRoot v) (fuel : Nat) : fat16Chdir fuel v rootPath = some (0, v) := by
  have none : tokens rootPath = [] := by decide
  have mounted : v.fs.isMounted ≠ false := by
    rw [root.mounted]
    exact Bool.noConfusion
  have same : enter v 0 rootPath = v := by
    unfold enter
    rw [← root.cluster, ← root.path]
  rw [fat16Chdir, if_neg mounted, if_neg (by decide)]
  dsimp only
  rw [none, if_pos (by decide), same, walkTokens]

theorem slash_base (path : CString) : slash ∉ baseOf path := by
  intro member
  have kept := List.mem_takeWhile_imp (List.mem_reverse.mp member)
  simp at kept

/-- A path with a slash consists of the slash and the name. -/
theorem leads_slash (leads : Leads names path) (inside : slash ∈ path) :
    path = slash :: baseOf path ∧ directoryOf path = [] := by
  have shape : path = slash :: baseOf path :=
    leads.form.resolve_left fun same => slash_base path (same ▸ inside)
  refine ⟨shape, ?_⟩
  unfold directoryOf
  rw [List.take_eq_nil_iff]
  left
  have length := congrArg List.length shape
  rw [List.length_cons] at length
  omega

theorem leads_plain (leads : Leads names path) (outside : slash ∉ path) : baseOf path = path :=
  (leads.form.resolve_right fun same => outside (same ▸ List.mem_cons_self)).symm

theorem enter_leads (root : InRoot v) (leads : Leads names path) (fuel : Nat) :
    enterPath fuel v path = some (v, baseOf path) := by
  unfold enterPath
  split
  · rename_i inside
    have short := leads.short
    rw [if_neg (by omega)]
    dsimp only
    rw [(leads_slash leads inside).2, if_pos rfl, chdir_root root]
    rfl
  · rename_i outside
    rw [leads_plain leads outside]

theorem leave_leads (root : InRoot v) (fuel : Nat) (path : CString) : leavePath fuel path rootPath v = some v := by
  unfold leavePath
  rw [chdir_root root]
  split <;> rfl

/-! ## The calls under such a path -/

theorem base_leaves (fuel : Nat) (path : CString) (old : CString) (w : Volume) :
    leavePath fuel (baseOf path) old w = some w :=
  if_neg (slash_base path)

theorem base_enters (fuel : Nat) (v : Volume) (path : CString) :
    enterPath fuel v (baseOf path) = some (v, baseOf path) :=
  if_neg (slash_base path)

theorem write_leads (root : InRoot v) (leads : Leads names path) {data : Mem} {size : Nat}
    (ran : fat16WriteFile fuel v (baseOf path) data size = some w) (fs : w.fs = v.fs) :
    fat16WriteFile fuel v path data size = some w := by
  unfold fat16WriteFile at ran ⊢
  rw [enter_leads root leads, root.path]
  rw [base_enters] at ran
  simp only [Option.bind_eq_bind, Option.bind_some, base_leaves] at ran ⊢
  obtain ⟨written, wrote, same⟩ := Option.bind_eq_some_iff.mp ran
  obtain rfl := Option.some.inj same
  rw [wrote, Option.bind_some, leave_leads (inRoot_kept root fs)]

theorem delete_leads (root : InRoot v) (leads : Leads names path) (nonempty : baseOf path ≠ [])
    (ran : fat16DeleteFile fuel v (baseOf path) = some w) (fs : w.fs = v.fs) :
    fat16DeleteFile fuel v path = some w := by
  have some : path ≠ [] := by
    rintro rfl
    exact nonempty rfl
  rw [fat16DeleteFile, if_neg nonempty, base_enters] at ran
  rw [fat16DeleteFile, if_neg some, enter_leads root leads, root.path]
  simp only [Option.bind_eq_bind, Option.bind_some, base_leaves] at ran ⊢
  obtain ⟨removed, gone, same⟩ := Option.bind_eq_some_iff.mp ran
  obtain rfl := Option.some.inj same
  rw [gone, Option.bind_some, leave_leads (inRoot_kept root fs)]

theorem size_leads (root : InRoot v) (leads : Leads names path) :
    fat16GetFileSize fuel v path = fat16GetFileSize fuel v (baseOf path) := by
  unfold fat16GetFileSize
  rw [enter_leads root leads, base_enters]
  simp only [Option.bind_eq_bind, Option.bind_some, root.path, leave_leads root]

theorem read_leads (root : InRoot v) (leads : Leads names path) (offset count : Nat) :
    fat16ReadFile fuel v path offset count = fat16ReadFile fuel v (baseOf path) offset count := by
  unfold fat16ReadFile
  rw [enter_leads root leads, base_enters]
  simp only [Option.bind_eq_bind, Option.bind_some, root.path, leave_leads root]

theorem stands_leads (root : InRoot v) (leads : Leads names path) (nonempty : baseOf path ≠ []) :
    StandsFor fuel v path (baseOf path) where
  read := read_leads root leads
  delete := fun _ ran fs => delete_leads root leads nonempty ran fs
  write := fun _ _ _ _ fs ran fs' => write_leads (inRoot_kept root fs) leads ran fs'

/-! ## One request -/

/-- Opening returns a node for a file that is not empty, and changes nothing. -/
theorem open_leads (apart : ToldApart names) (holds : Holds names v files chains) (root : InRoot v)
    (leads : Leads names path) (fuel : Nat) : fat16VfsOpen (fuel + 2) v path true =
      some (if 0 < (contents files path).length then some ⟨path, (contents files path).length⟩ else none, v) := by
  have size := holds_size apart holds leads.listed fuel
  have opened : openIn (fuel + 2) v path rootPath true =
      some (if 0 < (contents files path).length then some ⟨path, (contents files path).length⟩ else none, v) := by
    unfold openIn
    rw [size]
    simp only [Option.bind_eq_bind, Option.bind_some, chdir_root root]
    unfold contents
    simp
  have short := leads.short
  unfold fat16VfsOpen
  rw [if_neg (by omega), root.path]
  split
  · rename_i inside
    rw [(leads_slash leads inside).2, orRoot, if_pos rfl, chdir_root root]
    simp only [Option.bind_eq_bind, Option.bind_some]
    rw [if_neg (by decide)]
    exact opened
  · exact opened

/-- A copy writes what it has read of the source under the new name. -/
theorem copy_leads (apart : ToldApart names) (holds : Holds names v files chains) (root : InRoot v)
    {src dst : CString} (slack : Mem) (source : Leads names src) (target : Leads names dst) (first : slash ∈ src)
    (second : slash ∈ dst) (words : (contents files src).length < 2 ^ 32) (enough : 0x10000 ≤ fuel) :
    fat16CopyFile (fuel + 2) v src dst slack =
      if contents files src = [] then some ((-1 : Int), v)
      else (fat16WriteFile (fuel + 2) v (baseOf dst) (fun i =>
          if i < (contents files src).length then (contents files src).getD i 0 else slack i)
        (contents files src).length).bind fun w => (fat16Chdir (fuel + 2) w rootPath).map fun (_, left) =>
        ((0 : Int), left) := by
  have size := holds_size apart holds source.listed fuel
  have read : fat16ReadFile (fuel + 2) v (baseOf src) 0 (contents files src).length =
      some (((contents files src).drop 0).take (contents files src).length, v) :=
    holds_read apart holds source.listed (by omega) enough
  rw [List.drop_zero] at read
  have shape := (leads_slash source first).2
  have shape' := (leads_slash target second).2
  have short := source.short
  have short' := target.short
  unfold contents at words read ⊢
  rw [List.take_length] at read
  generalize (files (baseOf src)).getD [] = bytes at *
  have entered : readForCopy (fuel + 2) v src dst = some (if bytes = [] then none else some bytes, v) := by
    unfold readForCopy
    rw [shape, shape', orRoot, if_pos rfl, chdir_root root]
    simp only [Option.bind_eq_bind, Option.bind_some]
    rw [if_neg (by decide), size]
    simp only [Option.bind_some]
    by_cases empty : bytes = []
    · rw [if_pos (by rw [empty]; rfl), if_pos empty]
    · rw [if_neg (by rwa [List.length_eq_zero_iff]), read, if_neg empty]
      simp [chdir_root root]
  unfold fat16CopyFile
  rw [if_neg (by omega), if_neg (by simp [first, second]), entered, root.path]
  simp only [Option.bind_eq_bind, Option.bind_some]
  by_cases empty : bytes = []
  · rw [if_pos empty, if_pos empty]
    dsimp only
    rw [chdir_root root]
    rfl
  · rw [if_neg empty, if_neg empty]
    dsimp only
    congr 1
    funext w
    cases fat16Chdir (fuel + 2) w rootPath <;> rfl

theorem contents_some (some : contents files path ≠ []) :
    files (baseOf path) = Option.some (contents files path) := by
  unfold contents at some ⊢
  cases stored : files (baseOf path) with
  | none =>
    rw [stored] at some
    exact absurd rfl some
  | some bytes => rfl

/-- An admitted request returns and changes the map as it says. -/
theorem request_holds (apart : ToldApart names) (holds : Holds names v files chains) (root : InRoot v) {r : Request}
    (admits : Admits names v files r) (enough : 0x10000 ≤ fuel) :
    ∃ w chains', r.run (fuel + 2) v = some w ∧ w.fs = v.fs ∧ Holds names w (r.apply files) chains' ∧
      (Owned names v files chains → Owned names w (r.apply files) chains') := by
  cases r with
  | write path data size =>
    obtain ⟨leads, missing, small, fits⟩ := admits
    obtain ⟨w, ran, fs, holds', owned⟩ := write_holds apart holds leads.listed missing small fits data
    exact ⟨w, _, write_leads root leads (ran _) fs, fs, holds', owned⟩
  | delete path =>
    have nonempty := (apart.printable _ admits.listed).nonempty
    cases stored : files (baseOf path) with
    | none =>
      have same : Request.apply files (.delete path) = files := by
        simp only [Request.apply]
        rw [← stored, Function.update_eq_self]
      have ran := unnamed_delete (apart.printable _ admits.listed) (apart.plain _ admits.listed)
        (holds.absent _ admits.listed stored) (fuel + 2)
      rw [same]
      exact ⟨v, chains, delete_leads root admits nonempty ran rfl, rfl, holds, id⟩
    | some bytes =>
      obtain ⟨visit, -, held⟩ := holds.stored _ _ admits.listed stored
      have long : (chains (baseOf path)).length < fuel + 2 := by
        have := chain_short held.chain
        omega
      obtain ⟨w, ran, fs, holds', owned⟩ := delete_holds apart holds admits.listed stored long
      exact ⟨w, _, delete_leads root admits nonempty ran fs, fs, holds', owned⟩
  | patch path offset size buffer =>
    obtain ⟨leads, words, fits⟩ := admits
    have opened := open_leads apart holds root leads fuel
    unfold Request.run Request.apply
    by_cases empty : contents files path = []
    · rw [if_neg (by rw [empty]; exact Nat.lt_irrefl 0)] at opened
      dsimp only
      rw [if_pos empty, opened]
      exact ⟨v, chains, rfl, rfl, holds, id⟩
    · have nonempty := (apart.printable _ leads.listed).nonempty
      rw [if_pos (List.length_pos_iff.mpr empty)] at opened
      obtain ⟨w, chains', ran, fs, holds', owned⟩ :=
        vfsWrite_holds apart holds leads.listed (contents_some empty) empty
        buffer words (fits _) enough (stands_leads root leads nonempty)
      refine ⟨w, chains', ?_, fs, ?_⟩
      · simp only [opened, Option.bind_eq_bind, Option.bind_some, ran, Option.map_some]
      · dsimp only
        rw [if_neg empty]
        exact ⟨holds', owned⟩
  | copy src dst slack =>
    obtain ⟨source, target, first, second, missing, fits⟩ := admits
    have small : (contents files src).length < 2 ^ 32 := by
      by_cases empty : contents files src = []
      · rw [empty]
        decide
      · obtain ⟨visit, -, held⟩ := holds.stored _ _ source.listed (contents_some empty)
        rw [← held.size]
        exact readWord_lt _ _
    have copied := copy_leads apart holds root slack source target first second small enough
    unfold Request.run Request.apply
    dsimp only
    rw [copied]
    by_cases empty : contents files src = []
    · rw [if_pos empty, if_pos empty]
      exact ⟨v, chains, rfl, rfl, holds, id⟩
    · rw [if_neg empty, if_neg empty]
      obtain ⟨w, ran, fs, holds', owned⟩ := write_holds apart holds target.listed missing small fits fun i =>
        if i < (contents files src).length then (contents files src).getD i 0 else slack i
      have same : (List.range (contents files src).length).map (fun i =>
          if i < (contents files src).length then (contents files src).getD i 0 else slack i) = contents files src := by
        apply List.ext_getElem (by simp)
        intro i inside inside'
        simp [inside']
      rw [same] at holds' owned
      refine ⟨w, _, ?_, fs, holds', owned⟩
      rw [ran, Option.bind_some, chdir_root (inRoot_kept root fs)]
      rfl

/-! ## Runs -/

theorem runs_holds (apart : ToldApart names) (enough : 0x10000 ≤ fuel) {before : Files}
    (holds : Holds names v before chains)
    (root : InRoot v) (runs : Runs names (fuel + 2) v before w files) :
    InRoot w ∧ ∃ chains', Holds names w files chains' ∧
      (Owned names v before chains → Owned names w files chains') := by
  induction runs with
  | start => exact ⟨root, chains, holds, id⟩
  | step _ admits ran ih =>
    obtain ⟨root', chains', holds', owned⟩ := ih
    obtain ⟨w', chains'', ran', fs', holds'', owned'⟩ := request_holds apart holds' root' admits enough
    rw [ran, Option.some.injEq] at ran'
    subst ran'
    exact ⟨inRoot_kept root' fs', chains'', holds'', fun all => owned' (owned all)⟩

/-! ## A disk that the mount formats -/

theorem formatted_small (room : 288 + 2 * fatSectorsFor d.total ≤ d.total) (small : d.total < 2 ^ 21) :
    Formatted ⟨formattedFs d.total, d⟩ where
  mounted := rfl
  reserved := rfl
  tables := rfl
  root := rfl
  rootSize := rfl
  data := by
    simp only [formattedFs]
    omega
  cluster := rfl
  onDisk := room
  size := by
    dsimp only
    omega

/-- The mount of a foreign disk writes an empty volume and takes its parameters. -/
theorem foreign_mounts {junk : HeapJunk} (foreign : ¬ Accepted (kdiskReadSector v.disk 0)) (present : 0 < v.disk.total)
    (mounted : fat16Initialize fuel junk v = some w) :
    ∃ base : Volume, base = ⟨formattedFs v.disk.total, v.disk⟩ ∧
      w = { base with disk := writeEmpty base.disk base.disk.total (newEntry junk (oldFatOf v junk) none) } := by
  have fresh : systemCluster v false = none := by simp [systemCluster]
  have whole : formattedSectors v 0 = v.disk.total := if_pos (Or.inl rfl)
  have other : bytesPerSector (kdiskReadSector v.disk 0) ≠ 512 ∨ fatCount (kdiskReadSector v.disk 0) ≠ 2 := by
    unfold Accepted at foreign
    omega
  obtain ⟨-, b, boot⟩ := writeEmpty_boot present v.disk.total (newEntry junk (oldFatOf v junk) none)
  unfold fat16Initialize at mounted
  dsimp only at mounted
  rw [if_pos other, format_fresh fresh, whole] at mounted
  refine ⟨_, rfl, ?_⟩
  dsimp only
  generalize writeEmpty v.disk v.disk.total (newEntry junk (oldFatOf v junk) none) = d at boot mounted ⊢
  rw [Option.map_some, Option.some.injEq] at mounted
  rw [← mounted, boot, (bootSector_fields b _).2.2]

theorem foreign_holds {junk : HeapJunk} (foreign : ¬ Accepted (kdiskReadSector v.disk 0))
    (room : 288 + 2 * fatSectorsFor v.disk.total ≤ v.disk.total) (small : v.disk.total < 2 ^ 21)
    (mounted : fat16Initialize fuel junk v = some w) (names : CString → Prop) :
    Holds names w (fun _ => none) (fun _ => []) ∧ Owned names w (fun _ => none) (fun _ => []) ∧ InRoot w := by
  obtain ⟨base, baseIs, same⟩ := foreign_mounts foreign (by omega) mounted
  have formatted : Formatted base := baseIs ▸ formatted_small room small
  have size : base.disk.total = v.disk.total := by rw [baseIs]
  have fields : base.fs = formattedFs base.disk.total := by rw [baseIs]
  have free : ∀ c, 2 ≤ c → newEntry junk (oldFatOf v junk) none c = 0 := by
    intro c first
    rw [newEntry, if_neg (by omega), if_neg (by omega)]
  generalize newEntry junk (oldFatOf v junk) none = entry at same free
  rw [← size] at room small
  clear baseIs size
  have total : w.disk.total = base.disk.total := by
    rw [same]
    dsimp only
    exact writeEmpty_total formatted
  have fs : w.fs = formattedFs base.disk.total := by rw [same, ← fields]
  have spf : fatSectorsFor base.disk.total ≤ 256 := by
    unfold fatSectorsFor
    omega
  have placed : WellPlaced w := wellPlaced_of_eq (wellPlaced_of_formatted formatted) (fs.trans fields.symm) total
  have table : ∀ c, 2 ≤ c → InTable w c → getFatEntry w c = 0 := by
    intro c first inTable
    have inside : c < base.fs.sectorsPerFat * 256 := by
      have sector := inTable.2
      rw [fs, ← fields] at sector
      omega
    rw [same]
    refine (writeEmpty_entries formatted inside).1.trans ?_
    rw [free c first, Nat.zero_mod]
  have slots : ∀ e ∈ slotsOf w 0, e = emptyBuf := by
    intro e member
    obtain ⟨k, within, rfl⟩ := List.mem_map.mp member
    have length : dirLength w.fs 0 = 512 := by
      rw [fs]
      rfl
    have below := List.mem_range.mp within
    have start : dirStart w.fs 0 = base.fs.rootDirLba := by
      rw [fs, fields]
      rfl
    rw [start, same]
    dsimp only
    exact writeEmpty_root formatted (by omega)
  have root : InRoot w := by
    refine ⟨?_, ?_, ?_⟩ <;> rw [fs] <;> rfl
  have empty : entriesOf w = [] := by
    refine List.eq_nil_iff_forall_not_mem.mpr fun visit member => ?_
    unfold entriesOf at member
    rw [root.cluster] at member
    obtain ⟨k, found, -, inUse, -⟩ := visits_mem member
    rw [slots _ (List.mem_of_getElem? found)] at inUse
    exact absurd inUse.1 (by decide)
  refine ⟨{
    sound := ?_
    one := Or.inl root.cluster
    taken := Or.inl root.cluster
    tidy := ?_
    equal := ?_
    absent := ?_
    stored := fun n bytes _ none => by cases none
    separate := ?_
    disjoint := fun n m _ _ some => absurd rfl some },
      fun c first inTable taken => absurd (table c first inTable) taken, root⟩
  · refine ⟨root.mounted, placed, by rw [fs]; exact spf, by rw [fs]; exact Nat.succ_pos 31, ?_⟩
    rw [fs, total]
    change base.disk.total < 288 + 2 * fatSectorsFor base.disk.total + 0xFFF0 * 32
    unfold fatSectorsFor
    omega
  · rw [root.cluster]
    refine tidy_short 0 (List.all_eq_true.mpr fun e member => ?_) rfl (List.all_eq_true.mpr fun e member => ?_)
    · rw [slots e member]
      decide
    · rw [slots e (List.mem_of_mem_drop member)]
      decide
  · intro s inside o _
    have bound := fatSectorsFor_lt base.disk.total
    rw [fs] at inside
    change s < fatSectorsFor base.disk.total at inside
    rw [fs]
    change kdiskReadSector w.disk (256 + fatSectorsFor base.disk.total + s) o = kdiskReadSector w.disk (256 + s) o
    rw [same]
    dsimp only
    rw [(read_writeEmpty room (by omega)).2, (read_writeEmpty room (by omega)).2, if_neg (by omega), if_neg (by omega),
      if_pos (by omega), if_neg (by omega), if_pos (by omega), Nat.add_sub_cancel_left, Nat.sub_sub,
      Nat.add_sub_cancel_left]
  · intro n _ _
    unfold named
    rw [empty]
    rfl
  · intro visit member
    rw [empty] at member
    cases member

end

/-! ## A blank disk of half a megabyte -/

def blank : Volume := ⟨formattedFs 1024, ⟨1024, fun _ _ => 0⟩⟩

def noJunk : HeapJunk := ⟨fun _ => false, fun _ => 0⟩

def isAOrB (n : CString) : Prop := n = [0x61] ∨ n = [0x62]

theorem aOrB_apart : ToldApart isAOrB where
  printable := by
    rintro n (rfl | rfl) <;> exact ⟨by decide, by decide, by decide +kernel⟩
  plain := by
    rintro n (rfl | rfl) <;> decide
  apart := by
    rintro n m (rfl | rfl) (rfl | rfl) same
    · rfl
    · exact absurd same (by decide)
    · exact absurd same (by decide)
    · rfl

theorem blank_foreign : ¬ Accepted (kdiskReadSector blank.disk 0) := by
  unfold Accepted
  decide

/-- The file `/a` is written in the root of the blank disk. -/
theorem blank_writes : ∃ u w, fat16Initialize 0 noJunk blank = some u ∧
    Runs isAOrB 0x10002 u (fun _ => none) w
      (Request.apply (fun _ => none) (.write [0x2F, 0x61] UInt8.ofNat 5)) := by
  have returns : (fat16Initialize 0 noJunk blank).isSome = true := by decide +kernel
  obtain ⟨u, mounted⟩ := Option.isSome_iff_exists.mp returns
  have fits : ((fat16Initialize 0 noJunk blank).map fun u =>
      decide (freeOnDisk u ≠ [] ∧ 5 ≤ (freeOnDisk u).length * ReadContents.clusterSize u ∧
        findFreeSlots u (FailedCreations.entriesFor [0x61]) ≠ none)) = some true := by decide +kernel
  rw [mounted, Option.map_some, Option.some.injEq] at fits
  obtain ⟨some, clusters, entries⟩ := of_decide_eq_true fits
  have leads : Leads isAOrB [0x2F, 0x61] := ⟨Or.inl (by decide), Or.inr (by decide), by decide⟩
  have admits : Admits isAOrB u (fun _ => none) (.write [0x2F, 0x61] UInt8.ofNat 5) :=
    ⟨leads, rfl, by decide, some, clusters, entries⟩
  obtain ⟨holds, -, root⟩ := foreign_holds blank_foreign (by decide) (by decide) mounted isAOrB
  obtain ⟨w, -, ran, -⟩ := request_holds aOrB_apart holds root admits (Nat.le_refl _)
  exact ⟨u, w, mounted, Runs.step Runs.start admits ran⟩

end MeowMeowOS.RootFiles

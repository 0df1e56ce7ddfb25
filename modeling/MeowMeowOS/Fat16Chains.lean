import MeowMeowOS.Fat16Walks

/-! The chains of the allocation table: the search for a free cluster, the
links a new file adds and those a deleted one gives back. Only the tables
change; a table that holds every link it names stays one. -/
namespace MeowMeowOS.Fat16Chains
open ByteMemory Fat16Disk Fat16Names Fat16Directory Fat16Files Fat16Geometry

/-- Every link of the table leads to an entry of the table. -/
def LinksInTable (v : Volume) : Prop :=
  ∀ c, InTable v c → InChain (getFatEntry v c) → InTable v (getFatEntry v c)

/-! ## The search -/

/-- The search returns a free cluster of the table, or 0xFFFF when there is none. -/
theorem findFreeCluster_spec (small : v.fs.sectorsPerFat ≤ 256) :
    (findFreeCluster v = 0xFFFF ∧ ∀ c, 2 ≤ c → c < v.fs.sectorsPerFat * 256 → getFatEntry v c ≠ 0) ∨
      (2 ≤ findFreeCluster v ∧ InTable v (findFreeCluster v) ∧ getFatEntry v (findFreeCluster v) = 0 ∧
        ∀ c, 2 ≤ c → c < findFreeCluster v → getFatEntry v c ≠ 0) := by
  unfold findFreeCluster
  cases found : (List.range (v.fs.sectorsPerFat * 256)).find? fun c => 2 ≤ c ∧ tableEntry v c = 0 with
  | none =>
    refine Or.inl ⟨rfl, fun c first inside free => ?_⟩
    have none := List.find?_eq_none.mp found c (List.mem_range.mpr inside)
    rw [tableEntry_eq] at none
    simp [first, free] at none
  | some c =>
    obtain ⟨inside, free, earlier⟩ := List.find?_range_eq_some.mp found
    simp only [decide_eq_true_eq, tableEntry_eq] at inside
    have bound : c < v.fs.sectorsPerFat * 256 := List.mem_range.mp free
    have whole : c % 2 ^ 16 = c := Nat.mod_eq_of_lt (by omega)
    refine Or.inr ?_
    dsimp only
    rw [whole]
    refine ⟨inside.1, ⟨by omega, by omega⟩, inside.2, fun j first below free => ?_⟩
    have taken := earlier j below
    simp [tableEntry_eq, first, free] at taken

theorem wellPlaced_setFatEntry (placed : WellPlaced v) (c x : Nat) : WellPlaced (setFatEntry v c x) :=
  wellPlaced_of_eq placed (setFatEntry_fs v c x) (setFatEntry_total v c x)

/-! ## Giving a chain back -/

section Free
variable {v v' : Volume} {fuel : Nat}

theorem inTable_of_eq (fs : v'.fs = v.fs) : InTable v' c ↔ InTable v c := by
  unfold InTable
  rw [fs]

theorem linksInTable_clear (placed : WellPlaced v) (links : LinksInTable v) (inTable : InTable v c) :
    LinksInTable (setFatEntry v c 0x0000) := by
  intro c' inTable' inChain
  have inTable' : InTable v c' := inTable'
  rw [getFatEntry_setFatEntry placed inTable inTable'] at inChain ⊢
  by_cases same : c' = c
  · rw [if_pos same] at inChain
    exact absurd inChain.1 (by decide)
  · rw [if_neg same] at inChain ⊢
    exact links c' inTable' inChain

/-- Freeing a chain writes to the tables only. -/
theorem freeChain_frame (placed : WellPlaced v) (links : LinksInTable v)
    (start : InChain c → InTable v c) (ran : freeChain fuel v c = some v') :
    v'.fs = v.fs ∧ v'.disk.total = v.disk.total ∧ LinksInTable v' ∧
      SameSectors v.disk v'.disk v.fs.rootDirLba (2 ^ 23) := by
  induction fuel generalizing v c with
  | zero => cases ran
  | succ fuel ih =>
    rw [freeChain] at ran
    split at ran
    · rename_i inChain
      have inTable := start inChain
      obtain ⟨fs, total, links', same⟩ := ih (wellPlaced_setFatEntry placed c _)
        (linksInTable_clear placed links inTable)
        (fun further => (inTable_of_eq (setFatEntry_fs v c _)).mpr (links c inTable further)) ran
      refine ⟨fs.trans (setFatEntry_fs v c _), total.trans (setFatEntry_total v c _), links', ?_⟩
      exact (setFatEntry_sectors placed inTable (Nat.le_refl _) (Nat.le_refl _)).trans same
    · cases ran
      exact ⟨rfl, rfl, links, SameSectors.refl _ _ _⟩

end Free

/-! ## Adding links -/

section Write
variable {v : Volume} {data : Mem}

@[simp] theorem writeCluster_fs (v : Volume) (data : Mem) (size i c : Nat) :
    (writeCluster v data size i c).fs = v.fs := rfl

@[simp] theorem writeClusters_fs (v : Volume) (data : Mem) (size remaining i c : Nat) :
    (writeClusters data size remaining i c v).fs = v.fs := by
  induction remaining generalizing i c v with
  | zero => rfl
  | succ remaining ih =>
    simp only [writeClusters]
    split
    · rfl
    · rw [ih]
      rfl

@[simp] theorem writeCluster_total (v : Volume) (data : Mem) (size i c : Nat) :
    (writeCluster v data size i c).disk.total = v.disk.total := by
  unfold writeCluster
  generalize v.disk = d
  dsimp only
  induction List.range v.fs.sectorsPerCluster generalizing d with
  | nil => rfl
  | cons s rest ih =>
    rw [List.foldl_cons, ih]
    split
    · exact kdiskWrite_total _ _ _
    · rfl

@[simp] theorem writeClusters_total (v : Volume) (data : Mem) (size remaining i c : Nat) :
    (writeClusters data size remaining i c v).disk.total = v.disk.total := by
  induction remaining generalizing i c v with
  | zero => rfl
  | succ remaining ih =>
    simp only [writeClusters]
    split
    · exact writeCluster_total _ _ _ _ _
    · rw [ih]
      simp

/-- The writes of one cluster go to its own sectors. -/
theorem writeCluster_frame (placed : WellPlaced v) (first : 2 ≤ c) (small : c < 2 ^ 16)
    (bound : hi ≤ 2 ^ 23)
    (apart : hi ≤ clusterLba v.fs c ∨ clusterLba v.fs c + v.fs.sectorsPerCluster ≤ lo) :
    SameSectors v.disk (writeCluster v data size i c).disk lo hi := by
  have inside := cluster_bound placed small
  rw [← clusterLba_eq placed first small] at inside
  unfold writeCluster
  dsimp only
  -- the same holds after any number of the cluster's sectors
  suffices prefixes : ∀ n ≤ v.fs.sectorsPerCluster, ∀ d : Disk,
      SameSectors d ((List.range n).foldl (fun d s =>
        let offset := (i * (v.fs.sectorsPerCluster * 512) + s * 512) % 2 ^ 32
        if offset < size then kdiskWriteSector d (clusterLba v.fs c + s) fun j => data (offset + j)
        else d) d) lo hi from
    prefixes v.fs.sectorsPerCluster (Nat.le_refl _) v.disk
  intro n
  induction n with
  | zero => exact fun _ d => SameSectors.refl d lo hi
  | succ n ih =>
    intro le d
    have same := ih (by omega) d
    simp only [List.range_succ, List.foldl_append, List.foldl_cons, List.foldl_nil]
    split
    · exact same.trans (write_sameSectors (by omega) bound (by omega))
    · exact same

/-- An entry of the first table that is taken stays so, whatever cluster the
driver links next, even one behind the table. -/
theorem setFatEntry_taken (placed : WellPlaced v) (wide : 0 < v.fs.sectorsPerCluster)
    (inTable : InTable v c) (small : c' < 2 ^ 16) (value : x % 2 ^ 16 ≠ 0)
    (taken : getFatEntry v c ≠ 0) : getFatEntry (setFatEntry v c' x) c ≠ 0 := by
  by_cases inTable' : InTable v c'
  · rw [getFatEntry_setFatEntry placed inTable' inTable]
    split
    · exact value
    · exact taken
  · obtain ⟨_, sector⟩ := inTable
    have root := placed.root
    have data := placed.data
    have noWrap := placed.noWrap
    have behind : v.fs.sectorsPerFat ≤ c' / 256 := Nat.le_of_not_lt fun less => inTable' ⟨small, less⟩
    have word : c' * 2 / 512 = c' / 256 := by omega
    have word' : c * 2 / 512 = c / 256 := by omega
    have kept : getFatEntry (setFatEntry v c' x) c = getFatEntry v c := by
      simp only [getFatEntry, setFatEntry, word, word']
      rw [read_write_apart (by omega) (by omega) (by omega),
        read_write_apart (by omega) (by omega) (by omega)]
    rw [kept]
    exact taken

/-- No step of a write frees an entry of the first table. -/
theorem writeClusters_taken (placed : WellPlaced v) (table : v.fs.sectorsPerFat ≤ 256)
    (wide : 0 < v.fs.sectorsPerCluster) (inTable : InTable v c) (first : 2 ≤ current)
    (small : current < 2 ^ 16) (taken : getFatEntry v c ≠ 0) :
    getFatEntry (writeClusters data size remaining i current v) c ≠ 0 := by
  induction remaining generalizing i current v with
  | zero => exact taken
  | succ remaining ih =>
    have root := placed.root
    have region := placed.data
    have noWrap := placed.noWrap
    have behind : v.fs.dataRegionLba ≤ clusterLba v.fs current := by
      rw [clusterLba_eq placed first small]
      omega
    have same : SameSectors v.disk (writeCluster v data size i current).disk v.fs.reservedSectors
        (v.fs.reservedSectors + v.fs.sectorsPerFat) :=
      writeCluster_frame placed first small (by omega) (Or.inl (by omega))
    have placed' := wellPlaced_of_eq placed (writeCluster_fs v data size i current)
      (writeCluster_total v data size i current)
    have taken' : getFatEntry (writeCluster v data size i current) c ≠ 0 := by
      rw [getFatEntry_sectors (writeCluster_fs v data size i current) same inTable]
      exact taken
    simp only [writeClusters]
    split
    · exact taken'
    · have next : 2 ≤ findFreeCluster (writeCluster v data size i current) ∧
          findFreeCluster (writeCluster v data size i current) < 2 ^ 16 := by
        rcases findFreeCluster_spec (v := writeCluster v data size i current) table with
          ⟨full, -⟩ | ⟨first', inTable', -⟩
        · rw [full]
          decide
        · exact ⟨first', inTable'.1⟩
      have linked : getFatEntry (setFatEntry (writeCluster v data size i current) current
          (findFreeCluster (writeCluster v data size i current))) c ≠ 0 :=
        setFatEntry_taken placed' wide inTable small (by rw [Nat.mod_eq_of_lt next.2]; omega) taken'
      have placed'' := wellPlaced_setFatEntry placed' current
        (findFreeCluster (writeCluster v data size i current))
      exact ih (wellPlaced_setFatEntry placed'' _ _) table wide inTable next.1 next.2
        (setFatEntry_taken placed'' wide inTable next.2 (by decide) linked)

end Write

end MeowMeowOS.Fat16Chains

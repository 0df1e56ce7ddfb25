import MeowMeowOS.Fat16Chains
import MeowMeowOS.Fat16Formatted

/-! The two copies of the allocation table, and chains as lists of clusters.
One helper writes both copies, so they stay equal as long as it is given
clusters of the table. -/
namespace MeowMeowOS.TableCopies
open ByteMemory Fat16Disk Fat16Directory Fat16Files Fat16Geometry Fat16Chains Fat16Formatted

/-- Byte by byte, the sectors of the second copy are those of the first. -/
def TablesEqual (v : Volume) : Prop :=
  ∀ s < v.fs.sectorsPerFat, ∀ o < 512,
    kdiskReadSector v.disk (v.fs.reservedSectors + v.fs.sectorsPerFat + s) o =
      kdiskReadSector v.disk (v.fs.reservedSectors + s) o

section Copies
variable {v v' : Volume}

theorem secondEntry_equal (equal : TablesEqual v) (inTable : InTable v c) :
    secondEntry v c = getFatEntry v c := by
  obtain ⟨_, sector⟩ := inTable
  rw [← tableEntry_eq, secondEntry, tableEntry, readHalf, readHalf, equal _ sector _ (by omega),
    equal _ sector _ (by omega)]

/-- Writes that stay away from both copies keep them equal. -/
theorem tablesEqual_same (equal : TablesEqual v) (placed : WellPlaced v) (fs : v'.fs = v.fs)
    (same : SameSectors v.disk v'.disk v.fs.reservedSectors v.fs.rootDirLba) : TablesEqual v' := by
  have root := placed.root
  intro s inside o small
  rw [fs] at inside ⊢
  rw [same _ (by omega) (by omega), same _ (by omega) (by omega)]
  exact equal s inside o small

/-- The helper stores one and the same sector in both copies. -/
theorem tablesEqual_setFatEntry (equal : TablesEqual v) (placed : WellPlaced v) (inTable : InTable v c)
    (x : Nat) : TablesEqual (setFatEntry v c x) := by
  obtain ⟨small, sector⟩ := inTable
  have root := placed.root
  have data := placed.data
  have onDisk := placed.onDisk
  have noWrap := placed.noWrap
  have word : c * 2 / 512 = c / 256 := by omega
  intro s inside o offset
  change s < v.fs.sectorsPerFat at inside
  simp only [setFatEntry, word]
  by_cases here : s = c / 256
  · subst here
    rw [read_write_same (by omega) (by rw [kdiskWrite_total]; omega),
      read_write_apart (by omega) (by omega) (by omega), read_write_same (by omega) (by omega)]
  · rw [read_write_apart (by omega) (by omega) (by omega), read_write_apart (by omega) (by omega) (by omega),
      read_write_apart (by omega) (by omega) (by omega), read_write_apart (by omega) (by omega) (by omega)]
    exact equal s inside o offset

end Copies

/-! ## Chains -/

/-- The chain from `c` consists of these clusters, all of them in the table. -/
inductive ChainFrom (v : Volume) : Nat → List Nat → Prop where
  | stop (ended : ¬ InChain c) : ChainFrom v c []
  | link (inChain : InChain c) (inTable : InTable v c) (rest : ChainFrom v (getFatEntry v c) cs) :
      ChainFrom v c (c :: cs)

section Chains
variable {v v' : Volume} {cs : List Nat}

theorem chainFrom_unique (first : ChainFrom v c cs) (second : ChainFrom v c cs') : cs = cs' := by
  induction first generalizing cs' with
  | stop ended =>
    cases second with
    | stop _ => rfl
    | link inChain _ _ => exact absurd inChain ended
  | link inChain _ _ ih =>
    cases second with
    | stop ended => exact absurd inChain ended
    | link _ _ rest => rw [ih rest]

/-- Every cluster of a chain begins a chain itself, no longer than this one. -/
theorem chainFrom_mem (chain : ChainFrom v c cs) (member : x ∈ cs) :
    ∃ cs', ChainFrom v x cs' ∧ cs'.length ≤ cs.length := by
  induction chain with
  | stop _ => cases member
  | link inChain inTable rest ih =>
    rcases List.mem_cons.mp member with rfl | later
    · exact ⟨_, ChainFrom.link inChain inTable rest, Nat.le_refl _⟩
    · obtain ⟨cs', from', le⟩ := ih later
      exact ⟨cs', from', Nat.le_succ_of_le le⟩

/-- A chain that ends has no cluster twice. -/
theorem chainFrom_nodup (chain : ChainFrom v c cs) : cs.Nodup := by
  induction chain with
  | stop _ => exact List.nodup_nil
  | link inChain inTable rest ih =>
    refine List.nodup_cons.mpr ⟨fun again => ?_, ih⟩
    obtain ⟨cs', from', le⟩ := chainFrom_mem rest again
    have whole := chainFrom_unique from' (ChainFrom.link inChain inTable rest)
    rw [whole, List.length_cons] at le
    omega

theorem chainFrom_inTable (chain : ChainFrom v c cs) (member : x ∈ cs) : InChain x ∧ InTable v x := by
  induction chain with
  | stop _ => cases member
  | link inChain inTable _ ih =>
    rcases List.mem_cons.mp member with rfl | later
    · exact ⟨inChain, inTable⟩
    · exact ih later

/-- A chain depends on its own links only. -/
theorem chainFrom_congr (chain : ChainFrom v c cs) (fs : v'.fs = v.fs)
    (same : ∀ x ∈ cs, getFatEntry v' x = getFatEntry v x) : ChainFrom v' c cs := by
  induction chain with
  | stop ended => exact ChainFrom.stop ended
  | link inChain inTable _ ih =>
    refine ChainFrom.link inChain ((inTable_of_eq fs).mpr inTable) ?_
    rw [same _ List.mem_cons_self]
    exact ih fun x member => same x (List.mem_cons_of_mem _ member)

/-- Giving a chain back clears its entries in the first copy, keeps the others,
and leaves everything behind the tables alone. -/
theorem freeChain_frees (placed : WellPlaced v) (chain : ChainFrom v c cs) (enough : cs.length < fuel) :
    ∃ v', freeChain fuel v c = some v' ∧ v'.fs = v.fs ∧ v'.disk.total = v.disk.total ∧
      (∀ x, InTable v x → getFatEntry v' x = if x ∈ cs then 0 else getFatEntry v x) ∧
      (TablesEqual v → TablesEqual v') ∧ SameSectors v.disk v'.disk v.fs.rootDirLba (2 ^ 23) := by
  induction fuel generalizing v c cs with
  | zero => cases enough
  | succ fuel ih =>
    cases chain with
    | stop ended =>
      refine ⟨v, ?_, rfl, rfl, fun x _ => ?_, fun equal => equal, SameSectors.refl _ _ _⟩
      · rw [freeChain, if_neg ended]
      · rw [if_neg (List.not_mem_nil)]
    | @link _ rest inChain inTable further =>
      have fresh : c ∉ rest :=
        (List.nodup_cons.mp (chainFrom_nodup (ChainFrom.link inChain inTable further))).1
      -- clearing this cluster leaves the rest of the chain as it was
      have further' : ChainFrom (setFatEntry v c 0x0000) (getFatEntry v c) rest := by
        apply chainFrom_congr further (setFatEntry_fs v c _)
        intro x member
        rw [getFatEntry_setFatEntry placed inTable (chainFrom_inTable further member).2, if_neg]
        exact fun same => fresh (same ▸ member)
      obtain ⟨v', ran, fs, total, entries, equal, same⟩ := ih (wellPlaced_setFatEntry placed c 0x0000)
        further' (by rw [List.length_cons] at enough; omega)
      refine ⟨v', ?_, fs, total.trans (setFatEntry_total v c _), fun x inTable' => ?_, fun before => ?_, ?_⟩
      · rw [freeChain, if_pos inChain]
        exact ran
      · rw [entries x inTable', getFatEntry_setFatEntry placed inTable inTable']
        by_cases here : x = c
        · simp [here]
        · simp [here]
      · exact equal (tablesEqual_setFatEntry before placed inTable _)
      · exact (setFatEntry_sectors placed inTable (Nat.le_refl _) (Nat.le_refl _)).trans same

end Chains

end MeowMeowOS.TableCopies

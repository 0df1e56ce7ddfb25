import MeowMeowOS.Fat16Walks

/-! Two volumes whose sectors hold the same 512 bytes. A sector that is
written comes from a buffer that goes on behind them, and nothing the driver
does can tell such volumes apart. -/
namespace MeowMeowOS.Fat16Alike
open ByteMemory Fat16Disk Fat16Names Fat16Directory Fat16Paths Fat16Files

structure AlikeDisks (d e : Disk) : Prop where
  total : e.total = d.total
  bytes : ∀ n o, o < 512 → e.sectors n o = d.sectors n o

structure Alike (v w : Volume) : Prop where
  fs : w.fs = v.fs
  disk : AlikeDisks v.disk w.disk

theorem alike_refl (v : Volume) : Alike v v := ⟨rfl, ⟨rfl, fun _ _ _ => rfl⟩⟩

/-! ## Sectors -/

section Sectors
variable {d e : Disk}

theorem read_alike (alike : AlikeDisks d e) (lba : Nat) (inside : o < 512) :
    kdiskReadSector e lba o = kdiskReadSector d lba o :=
  alike.bytes _ o inside

/-- Buffers that agree on the bytes of a sector make no difference. -/
theorem write_alike (alike : AlikeDisks d e) (lba : Nat) (same : ∀ o < 512, b' o = b o) :
    AlikeDisks (kdiskWriteSector d lba b) (kdiskWriteSector e lba b') := by
  unfold kdiskWriteSector
  rw [alike.total]
  split
  · refine ⟨rfl, fun n o inside => ?_⟩
    dsimp only
    by_cases here : n = lba % 2 ^ 23
    · subst here
      rw [Function.update_self, Function.update_self]
      exact same o inside
    · rw [Function.update_of_ne here, Function.update_of_ne here]
      exact alike.bytes n o inside
  · exact alike

theorem readHalf_alike (alike : AlikeDisks d e) (lba : Nat) (inside : o + 2 ≤ 512) :
    readHalf (kdiskReadSector e lba) o = readHalf (kdiskReadSector d lba) o := by
  rw [readHalf, readHalf, read_alike alike lba (by omega), read_alike alike lba (by omega)]

theorem writeHalf_same (same : ∀ o < 512, b' o = b o) (a x : Nat) :
    ∀ o < 512, writeHalf b' a x o = writeHalf b a x o := by
  intro o inside
  simp only [writeHalf, same o inside]

theorem dirSlot_alike (alike : AlikeDisks d e) (slba p : Nat) : dirSlot e slba p = dirSlot d slba p := by
  funext j
  simp only [dirSlot, trim]
  split
  · exact read_alike alike _ (by omega)
  · rfl

theorem writeSlots_alike (alike : AlikeDisks d e) (slba p : Nat) (entries : List Slot) :
    AlikeDisks (writeSlots d slba p entries) (writeSlots e slba p entries) := by
  induction entries generalizing d e p with
  | nil => exact alike
  | cons entry rest ih =>
    apply ih
    apply write_alike alike
    intro o inside
    simp only [read_alike alike _ inside]

end Sectors

/-! ## The table -/

section Volumes
variable {v w : Volume}

theorem getFatEntry_alike (alike : Alike v w) (c : Nat) : getFatEntry w c = getFatEntry v c := by
  unfold getFatEntry
  rw [alike.fs]
  exact readHalf_alike alike.disk _ (by omega)

theorem findFreeCluster_alike (alike : Alike v w) : findFreeCluster w = findFreeCluster v := by
  unfold findFreeCluster
  simp only [tableEntry_eq, getFatEntry_alike alike, alike.fs]

theorem setFatEntry_alike (alike : Alike v w) (c x : Nat) :
    Alike (setFatEntry v c x) (setFatEntry w c x) := by
  refine ⟨alike.fs, ?_⟩
  have buffer := writeHalf_same (fun o inside => read_alike (o := o) alike.disk
    (v.fs.reservedSectors + c * 2 / 512) inside) (c * 2 % 512) x
  simp only [setFatEntry, alike.fs]
  exact write_alike (write_alike alike.disk _ buffer) _ buffer

/-! ## Directories -/

theorem slotsOf_alike (alike : Alike v w) (c : Nat) : slotsOf w c = slotsOf v c := by
  unfold slotsOf
  rw [alike.fs]
  exact List.map_congr_left fun p _ => dirSlot_alike alike.disk _ p

theorem findInChain_alike (alike : Alike v w) (target : CString) (fuel c : Nat) (scan : Scan) :
    findInChain w target fuel c scan = findInChain v target fuel c scan := by
  induction fuel generalizing c scan with
  | zero => rfl
  | succ fuel ih => simp only [findInChain, slotsOf_alike alike, getFatEntry_alike alike, ih]

theorem findEntryInCurrentDir_alike (alike : Alike v w) (fuel : Nat) (target : CString) :
    findEntryInCurrentDir fuel w target = findEntryInCurrentDir fuel v target := by
  simp only [findEntryInCurrentDir, alike.fs, slotsOf_alike alike, findInChain_alike alike]

theorem addDirEntry_alike (alike : Alike v w) (baseName : CString) (attr : UInt8) (cluster size : Nat) :
    Option.Rel Alike (addDirEntry v baseName attr cluster size) (addDirEntry w baseName attr cluster size) := by
  have where' : ∀ required, findFreeSlots w required = findFreeSlots v required := by
    intro required
    simp only [findFreeSlots, alike.fs, dirSlot_alike alike.disk]
  simp only [addDirEntry, where', alike.fs]
  cases findFreeSlots v (nameEntries baseName attr cluster size).length with
  | none => exact Option.Rel.none
  | some start => exact Option.Rel.some ⟨rfl, writeSlots_alike alike.disk _ _ _⟩

/-! ## Paths -/

theorem enter_alike (alike : Alike v w) (c : Nat) (path : CString) : Alike (enter v c path) (enter w c path) := by
  refine ⟨?_, alike.disk⟩
  simp only [enter, alike.fs]

/-- The same result code, and volumes that are alike. -/
def AlikeOutcomes (a b : Int × Volume) : Prop := b.1 = a.1 ∧ Alike a.2 b.2

theorem walkTokens_alike (fallback : Alike orig orig') (alike : Alike v w) (fuel : Nat) (list : List CString) :
    Option.Rel AlikeOutcomes (walkTokens fuel orig v list) (walkTokens fuel orig' w list) := by
  induction list generalizing v w with
  | nil => exact Option.Rel.some ⟨rfl, alike⟩
  | cons token rest ih =>
    have failed : Option.Rel AlikeOutcomes (some (-1, orig)) (some (-1, orig')) :=
      Option.Rel.some ⟨rfl, fallback⟩
    simp only [walkTokens, findEntryInCurrentDir_alike alike, alike.fs]
    split
    · exact ih alike
    · split
      · split
        · split
          · exact Option.Rel.none
          · exact failed
          · exact ih (enter_alike alike _ _)
        · exact ih alike
      · split
        · exact Option.Rel.none
        · exact failed
        · split
          · exact ih (enter_alike alike _ _)
          · exact failed

theorem fat16Chdir_alike (alike : Alike v w) (fuel : Nat) (path : CString) :
    Option.Rel AlikeOutcomes (fat16Chdir fuel v path) (fat16Chdir fuel w path) := by
  unfold fat16Chdir
  rw [alike.fs]
  split
  · exact Option.Rel.some ⟨rfl, alike⟩
  · split
    · exact Option.Rel.none
    · apply walkTokens_alike alike
      split
      · exact enter_alike alike _ _
      · exact alike

theorem leavePath_alike (alike : Alike v w) (fuel : Nat) (filename oldCwd : CString) :
    Option.Rel Alike (leavePath fuel filename oldCwd v) (leavePath fuel filename oldCwd w) := by
  unfold leavePath
  split
  · have walked := fat16Chdir_alike alike fuel oldCwd
    generalize fat16Chdir fuel v oldCwd = first at walked
    generalize fat16Chdir fuel w oldCwd = second at walked
    cases walked with
    | none => exact Option.Rel.none
    | some outcomes => exact Option.Rel.some outcomes.2
  · exact Option.Rel.some alike

end Volumes

end MeowMeowOS.Fat16Alike

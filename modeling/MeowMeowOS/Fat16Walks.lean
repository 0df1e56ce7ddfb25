import MeowMeowOS.Fat16Geometry
import MeowMeowOS.Fat16Scan

/-! Changing directories never touches the disk, and a walk that fails puts
the current directory back. The operations on a qualified name come back by
walking the saved path again. -/
namespace MeowMeowOS.Fat16Walks
open Fat16Disk Fat16Names Fat16Directory Fat16Paths

/-- The same volume in another current directory. -/
def Moved (v v' : Volume) : Prop := ∃ cluster path, v' = enter v cluster path

theorem moved_refl (v : Volume) : Moved v v := ⟨v.fs.currentDirCluster, v.fs.currentPath, rfl⟩

theorem moved_trans (first : Moved a b) (second : Moved b c) : Moved a c := by
  obtain ⟨_, _, rfl⟩ := first
  obtain ⟨cluster, path, rfl⟩ := second
  exact ⟨cluster, path, rfl⟩

theorem moved_disk (moved : Moved v v') : v'.disk = v.disk := by
  obtain ⟨_, _, rfl⟩ := moved
  rfl

section
variable {fuel : Nat} {orig v v' : Volume} {code : Int}

/-- A walk either gets to its end or falls back. -/
theorem walkTokens_outcome (ran : walkTokens fuel orig v list = some (code, v')) :
    (code = 0 ∧ Moved v v') ∨ (code = -1 ∧ v' = orig) := by
  induction list generalizing v with
  | nil =>
    simp only [walkTokens, Option.some.injEq, Prod.mk.injEq] at ran
    exact Or.inl ⟨ran.1.symm, ran.2 ▸ moved_refl v⟩
  | cons token rest ih =>
    have further : ∀ cluster path, walkTokens fuel orig (enter v cluster path) rest = some (code, v') →
        (code = 0 ∧ Moved v v') ∨ (code = -1 ∧ v' = orig) := by
      intro cluster path walked
      rcases ih walked with ⟨zero, moved⟩ | failed
      · exact Or.inl ⟨zero, moved_trans ⟨cluster, path, rfl⟩ moved⟩
      · exact Or.inr failed
    have failed : some ((-1 : Int), orig) = some (code, v') →
        (code = 0 ∧ Moved v v') ∨ (code = -1 ∧ v' = orig) := by
      intro same
      simp only [Option.some.injEq, Prod.mk.injEq] at same
      exact Or.inr ⟨same.1.symm, same.2.symm⟩
    simp only [walkTokens] at ran
    split at ran
    · exact ih ran
    · split at ran
      · split at ran
        · split at ran
          · cases ran
          · exact failed ran
          · exact further _ _ ran
        · exact ih ran
      · split at ran
        · cases ran
        · exact failed ran
        · split at ran
          · exact further _ _ ran
          · exact failed ran

theorem fat16Chdir_outcome (ran : fat16Chdir fuel v path = some (code, v')) :
    (code = 0 ∧ Moved v v') ∨ (code = -1 ∧ v' = v) := by
  unfold fat16Chdir at ran
  split at ran
  · simp only [Option.some.injEq, Prod.mk.injEq] at ran
    exact Or.inr ⟨ran.1.symm, ran.2.symm⟩
  · split at ran
    · cases ran
    · rcases walkTokens_outcome ran with ⟨zero, moved⟩ | failed
      · refine Or.inl ⟨zero, moved_trans ?_ moved⟩
        split
        · exact ⟨0, rootPath, rfl⟩
        · exact moved_refl v
      · exact Or.inr failed

theorem fat16Chdir_moved (ran : fat16Chdir fuel v path = some (code, v')) : Moved v v' := by
  rcases fat16Chdir_outcome ran with ⟨-, moved⟩ | ⟨-, rfl⟩
  · exact moved
  · exact moved_refl _

/-- `fat16_chdir` leaves the current directory alone when it fails. -/
theorem fat16Chdir_failed (ran : fat16Chdir fuel v path = some (-1, v')) : v' = v := by
  rcases fat16Chdir_outcome ran with ⟨zero, -⟩ | ⟨-, same⟩
  · exact absurd zero (by decide)
  · exact same

theorem enterPath_moved (ran : enterPath fuel v filename = some (v', base)) : Moved v v' := by
  unfold enterPath at ran
  split at ran
  · split at ran
    · cases ran
    · obtain ⟨⟨code, w⟩, walked, same⟩ := Option.map_eq_some_iff.mp ran
      simp only [Prod.mk.injEq] at same
      exact same.1 ▸ fat16Chdir_moved walked
  · simp only [Option.some.injEq, Prod.mk.injEq] at ran
    exact ran.1 ▸ moved_refl v

theorem leavePath_moved (ran : leavePath fuel filename oldCwd v = some v') : Moved v v' := by
  unfold leavePath at ran
  split at ran
  · obtain ⟨⟨code, w⟩, walked, same⟩ := Option.map_eq_some_iff.mp ran
    exact same ▸ fat16Chdir_moved walked
  · exact Option.some.inj ran ▸ moved_refl v

end

/-! ## Splitting a qualified name -/

theorem baseOf_join (plain : slash ∉ b) (d : CString) : baseOf (d ++ slash :: b) = b := by
  have stops : ∀ c ∈ b.reverse, (c ≠ slash) := by
    intro c member same
    exact plain (same ▸ List.mem_reverse.mp member)
  have taken : (b.reverse ++ slash :: d.reverse).takeWhile (fun c => decide (c ≠ slash)) = b.reverse := by
    rw [List.takeWhile_append_of_pos (fun c member => by simpa using stops c member)]
    simp
  simp only [baseOf, List.reverse_append, List.reverse_cons, List.append_assoc, List.cons_append,
    List.nil_append, taken, List.reverse_reverse]

theorem directoryOf_join (plain : slash ∉ b) (d : CString) : directoryOf (d ++ slash :: b) = d := by
  rw [directoryOf, baseOf_join plain, List.length_append, List.length_cons,
    show d.length + (b.length + 1) - b.length - 1 = d.length by omega]
  exact List.take_left

end MeowMeowOS.Fat16Walks

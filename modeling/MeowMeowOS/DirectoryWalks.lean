import MeowMeowOS.PathResolution

/-! `fat16_chdir` moves a cluster and a path together. On any volume whose ".." entries
name the parent the two stay in step, through every climb and every descent, and a walk
that fails leaves both where they were. -/
namespace MeowMeowOS.DirectoryWalks
open Fat16Disk Fat16Names Fat16Directory Fat16Paths Fat16Walks PathTokens PathResolution
open KeptSystem (systemVolume)
open Fat16Format (system)

/-- `current_path` leads from the root to `current_dir_cluster`, and fits its buffer
with the zero byte. -/
structure Placed (v : Volume) : Prop where
  resolves : Resolves v
  fits : v.fs.currentPath.length < 256

section
variable {v s : Volume} {p : CString} {fuel : Nat}

theorem fat16Chdir_placed (parents : ParentsNamed v) (placed : Placed v)
    (ran : fat16Chdir fuel v p = some (0, s)) : Placed s := by
  obtain ⟨⟨names, plain, path, lead⟩, fits⟩ := placed
  have whole : ∃ d names', s = enter v d (render names') ∧ LeadTo v names' d ∧
      (∀ name ∈ names', name ≠ [] ∧ slash ∉ name) ∧
      ((render names).length < 256 → (render names').length < 256) := by
    unfold fat16Chdir at ran
    split at ran
    · cases ran
    · split at ran
      · cases ran
      · dsimp only at ran
        split at ran
        · obtain ⟨d, names', same, lead', plain', fits', -⟩ :=
            walkTokens_leads parents LeadTo.root (by simp) (tokens_plain p) ran
          exact ⟨d, names', same, lead', plain', fun _ => fits' (by decide)⟩
        · have start : v = enter v v.fs.currentDirCluster (render names) := by
            rw [← path]
            rfl
          nth_rewrite 2 [start] at ran
          obtain ⟨d, names', same, lead', plain', fits', -⟩ :=
            walkTokens_leads parents lead plain (tokens_plain p) ran
          exact ⟨d, names', same, lead', plain', fits'⟩
  obtain ⟨d, names', rfl, lead', plain', fits'⟩ := whole
  exact ⟨⟨names', plain', rfl, (leadTo_enter d _).mpr lead'⟩, fits' (path ▸ fits)⟩

/-- What `fat16_chdir` returns is 0 or -1. With -1 the volume is the one before the
call; with 0 the path leads to the cluster again. -/
theorem fat16Chdir_allOrNothing {code : Int} (parents : ParentsNamed v) (placed : Placed v)
    (ran : fat16Chdir fuel v p = some (code, s)) :
    (code = 0 ∨ code = -1) ∧ s.disk = v.disk ∧
      (code = -1 → s.fs.currentDirCluster = v.fs.currentDirCluster ∧ s.fs.currentPath = v.fs.currentPath) ∧
      (code = 0 → Resolves s ∧ s.fs.currentPath.length + 1 ≤ 256) := by
  refine ⟨?_, moved_disk (fat16Chdir_moved ran), ?_, ?_⟩
  · rcases fat16Chdir_outcome ran with ⟨zero, -⟩ | ⟨failed, -⟩
    · exact Or.inl zero
    · exact Or.inr failed
  · rintro rfl
    rw [fat16Chdir_failed ran]
    exact ⟨rfl, rfl⟩
  · rintro rfl
    obtain ⟨resolves, fits⟩ := fat16Chdir_placed parents placed ran
    exact ⟨resolves, fits⟩

end

/-- `cd ../SYSTEM/.` in the system directory. -/
theorem fat16Chdir_allOrNothing_system : ∃ code s,
    fat16Chdir 2 (enter systemVolume 2 (slash :: system))
    ([0x2E, 0x2E, 0x2F] ++ system.map toUpper ++ [0x2F, 0x2E]) = some (code, s) ∧
    (code = 0 ∨ code = -1) ∧ s.disk = systemVolume.disk ∧
      (code = -1 → s.fs.currentDirCluster = 2 ∧ s.fs.currentPath = slash :: system) ∧
      (code = 0 → Resolves s ∧ s.fs.currentPath.length + 1 ≤ 256) := by
  have returns : (fat16Chdir 2 (enter systemVolume 2 (slash :: system))
      ([0x2E, 0x2E, 0x2F] ++ system.map toUpper ++ [0x2F, 0x2E])).isSome = true := by decide +kernel
  obtain ⟨⟨code, s⟩, ran⟩ := Option.isSome_iff_exists.mp returns
  have placed : Placed (enter systemVolume 2 (slash :: system)) := ⟨systemVolume_placed, by decide⟩
  exact ⟨code, s, ran, fat16Chdir_allOrNothing (tree_enter systemVolume_wellFormed 2 _).parents placed ran⟩

end MeowMeowOS.DirectoryWalks

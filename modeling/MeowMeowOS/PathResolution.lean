import MeowMeowOS.KeptSystem
import MeowMeowOS.PathTokens

/-! `resolve_path` of the kernel: a path is made absolute and its "." and ".." are
taken away before it reaches the file system. The shell hands its paths over as they
are. In a tree both end in the same directory, under the same path. -/
namespace MeowMeowOS.PathResolution
open Fat16Disk Fat16Names Fat16Directory Fat16Paths Fat16Format Fat16Walks PathTokens
open SystemLookup (dotDot findEntry_live)

def dot : CString := [0x2E]

/-! ## `resolve_path` -/

/-- What is split up, in a buffer of 512 bytes. -/
def pathBuffer (cwd input : CString) : Option CString :=
  if input.head? = some slash then if 512 ≤ input.length then none else some input
  else if 512 ≤ cwd.length then none
  else if 0 < cwd.length ∧ cwd.getLast? ≠ some slash then
    if 512 ≤ cwd.length + 1 then none
    else if 512 ≤ cwd.length + 1 + input.length then none
    else some (cwd ++ [slash] ++ input)
  else if 512 ≤ cwd.length + input.length then none
  else some (cwd ++ input)

/-- The loop over the tokens, at most 128 of them kept. -/
def collectTokens : List CString → List CString → Option (List CString)
  | kept, [] => some kept
  | kept, token :: rest =>
    if 128 ≤ kept.length then some kept
    else if token = dot then collectTokens kept rest
    else if token = dotDot then if kept = [] then none else collectTokens kept.dropLast rest
    else collectTokens (kept ++ [token]) rest

/-- The loop that writes the result. -/
def joinTokens (outputSize : Nat) : CString → List CString → Option CString
  | output, [] => some output
  | output, token :: rest =>
    if outputSize < output.length + token.length + 2 then none
    else joinTokens outputSize (output ++ slash :: token) rest

/-- The output, or none where the function returns false. -/
def resolvePath (cwd input : CString) (outputSize : Nat) : Option CString :=
  if outputSize = 0 then none
  else if input = [] then none
  else do
    let temp ← pathBuffer cwd input
    let kept ← collectTokens [] (tokens temp)
    if kept = [] then if outputSize < 2 then none else some rootPath
    else joinTokens outputSize [] kept

/-! ## Trees -/

/-- The entry that a name finds in the directory at cluster `c`. -/
def Finds (v : Volume) (c : Nat) (name : CString) (e : Slot) : Prop :=
  ∃ fuel path, findEntryInCurrentDir fuel (enter v c path) name = some (some e)

/-- The names lead from the root to the directory at cluster `c`. -/
inductive LeadTo (v : Volume) : List CString → Nat → Prop where
  | root : LeadTo v [] 0
  | down (rest : LeadTo v names c) (plain : name ≠ dot ∧ name ≠ dotDot) (found : Finds v c name e)
      (directory : isDirectory e = true) : LeadTo v (names ++ [name]) (clusterLow e)

/-- Below the root the entries of directories have clusters from 2 on, and ".." names
the directory that a name led from. -/
structure Tree (v : Volume) : Prop where
  clusters : ∀ names c name e, LeadTo v names c → name ≠ dot ∧ name ≠ dotDot → Finds v c name e →
    isDirectory e = true → 2 ≤ clusterLow e
  parents : ∀ names c name e up, LeadTo v names c → name ≠ dot ∧ name ≠ dotDot → Finds v c name e →
    isDirectory e = true → Finds v (clusterLow e) dotDot up → clusterLow up = c

/-- The ".." of a directory names the one that its entry was found in. Nothing is said
about the clusters of the entries, which may even be 0. -/
def ParentsNamed (v : Volume) : Prop :=
  ∀ names c name e up, LeadTo v names c → name ≠ dot ∧ name ≠ dotDot → Finds v c name e →
    isDirectory e = true → Finds v (clusterLow e) dotDot up → clusterLow up = c

/-- The path as `fat16_chdir` builds it. -/
def render (names : List CString) : CString := if names = [] then rootPath else names.flatMap (slash :: ·)

/-- The names that a walk over tokens ends with. -/
def followed : List CString → List CString → List CString
  | names, [] => names
  | names, token :: rest =>
    if token = dot then followed names rest
    else if token = dotDot then followed names.dropLast rest
    else followed (names ++ [token]) rest

/-- The names that a walk starts with. -/
def startOf (names : List CString) (p : CString) : List CString := if p.head? = some slash then [] else names

/-- `current_path` leads to the current directory. -/
def Resolves (v : Volume) : Prop := ∃ names, (∀ name ∈ names, name ≠ [] ∧ slash ∉ name) ∧
  v.fs.currentPath = render names ∧ LeadTo v names v.fs.currentDirCluster

section
variable {v s t : Volume} {names kept toks : List CString} {name p r : CString} {c c' fuel fuel' : Nat} {e e' : Slot}

/-! ## Where names lead -/

theorem findInChain_path (v : Volume) (c : Nat) (path path' : CString) (name : CString) (fuel start : Nat)
    (scan : Scan) :
    findInChain (enter v c path) name fuel start scan = findInChain (enter v c path') name fuel start scan := by
  induction fuel generalizing start scan with
  | zero => rfl
  | succ fuel ih =>
    simp only [findInChain, ih]
    rfl

theorem findEntry_path (v : Volume) (c : Nat) (path path' : CString) (name : CString) (fuel : Nat) :
    findEntryInCurrentDir fuel (enter v c path) name = findEntryInCurrentDir fuel (enter v c path') name := by
  unfold findEntryInCurrentDir
  simp only [findInChain_path v c path path']
  rfl

theorem findInChain_unique {start : Nat} {scan : Scan} {a b : Option Slot}
    (first : findInChain v name fuel start scan = some a)
    (second : findInChain v name fuel' start scan = some b) : a = b := by
  induction fuel generalizing fuel' start scan with
  | zero => cases first
  | succ fuel ih =>
    cases fuel' with
    | zero => cases second
    | succ fuel' =>
      rw [findInChain] at first second
      split at first
      · rename_i inChain
        rw [if_pos inChain] at second
        dsimp only at first second
        split at first
        · rename_i target
          rw [target] at second
          exact Option.some.inj (first.symm.trans second)
        · rename_i target
          rw [target] at second
          dsimp only at second
          split at first
          · rename_i ending
            rw [ending] at second
            exact Option.some.inj (first.symm.trans second)
          · rename_i ending
            rw [ending] at second
            exact ih first second
      · rename_i outside
        rw [if_neg outside] at second
        exact Option.some.inj (first.symm.trans second)

theorem finds_unique (first : Finds v c name e) (second : Finds v c name e') : e = e' := by
  obtain ⟨fuel, path, first⟩ := first
  obtain ⟨fuel', path', second⟩ := second
  rw [findEntry_path v c path' path] at second
  unfold findEntryInCurrentDir at first second
  split at first
  · rename_i root
    rw [if_pos root] at second
    exact Option.some.inj (Option.some.inj (first.symm.trans second))
  · rename_i child
    rw [if_neg child] at second
    exact Option.some.inj (findInChain_unique first second)

theorem leadTo_split (lead : LeadTo v (names ++ [name]) c) : ∃ parent e, LeadTo v names parent ∧
    (name ≠ dot ∧ name ≠ dotDot) ∧ Finds v parent name e ∧ isDirectory e = true ∧ clusterLow e = c := by
  generalize shape : names ++ [name] = all at lead
  cases lead with
  | root => simp at shape
  | down rest plain found directory =>
    obtain ⟨rfl, same⟩ := List.append_inj' shape rfl
    obtain rfl := (List.cons.inj same).1
    exact ⟨_, _, rest, plain, found, directory, rfl⟩

theorem leadTo_unique (first : LeadTo v names c) (second : LeadTo v names c') : c = c' := by
  induction first generalizing c' with
  | root =>
    generalize shape : ([] : List CString) = all at second
    cases second with
    | root => rfl
    | down => simp at shape
  | down rest plain found directory ih =>
    obtain ⟨parent, e, lead, -, found', -, rfl⟩ := leadTo_split second
    obtain rfl := ih lead
    rw [finds_unique found found']

theorem leadTo_zero (tree : Tree v) (lead : LeadTo v names c) : c = 0 ↔ names = [] := by
  cases lead with
  | root => simp
  | down rest plain found directory =>
    have child := tree.clusters _ _ _ _ rest plain found directory
    constructor
    · omega
    · simp

/-! ## Paths of names -/

theorem tokens_plain (p : CString) : ∀ name ∈ tokens p, name ≠ [] ∧ slash ∉ name := by
  induction length : p.length using Nat.strong_induction_on generalizing p with
  | _ n ih =>
    subst length
    intro name member
    have covered : (p.dropWhile (· = slash)).length ≤ p.length := (List.dropWhile_sublist _).length_le
    rw [← tokens_dropWhile] at member
    rcases stripped_cases p with none | ⟨token, some, letters, shape | ⟨more, shape⟩⟩
    · rw [none] at member
      cases member
    · rw [shape, tokens_word letters some] at member
      obtain rfl := List.mem_singleton.mp member
      exact ⟨some, letters⟩
    · rw [shape, tokens_append, tokens_word letters some] at member
      rw [shape, List.length_append, List.length_cons] at covered
      rcases List.mem_cons.mp member with rfl | rest
      · exact ⟨some, letters⟩
      · exact ih more.length (by omega) more rfl name rest

theorem render_snoc (names : List CString) (name : CString) :
    render (names ++ [name]) = names.flatMap (slash :: ·) ++ slash :: name := by
  unfold render
  rw [if_neg (by simp), List.flatMap_append, List.flatMap_singleton]

theorem render_of_some (some : names ≠ []) : render names = names.flatMap (slash :: ·) := if_neg some

theorem render_long (plain : ∀ name ∈ names, name ≠ [] ∧ slash ∉ name) :
    1 < (render names).length ↔ names ≠ [] := by
  cases names with
  | nil => simp [render, rootPath]
  | cons name rest =>
    have letters := List.length_pos_of_ne_nil (plain name (by simp)).1
    rw [render_of_some (by simp), List.flatMap_cons, List.length_append, List.length_cons]
    simp only [ne_eq, reduceCtorEq, not_false_eq_true, iff_true]
    omega

theorem tokens_flatMap (plain : ∀ name ∈ names, name ≠ [] ∧ slash ∉ name) :
    tokens (names.flatMap (slash :: ·)) = names := by
  induction names using List.reverseRecOn with
  | nil => rfl
  | append_singleton names name ih =>
    obtain ⟨some, letters⟩ := plain name (by simp)
    rw [List.flatMap_append, List.flatMap_singleton, tokens_append, ih fun other member =>
      plain other (by simp [member]),
      tokens_word letters some]

theorem tokens_render (plain : ∀ name ∈ names, name ≠ [] ∧ slash ∉ name) : tokens (render names) = names := by
  unfold render
  split
  · rename_i empty
    rw [empty]
    rfl
  · exact tokens_flatMap plain

theorem childPath_render (plain : ∀ name ∈ names, name ≠ [] ∧ slash ∉ name) (name : CString) :
    childPath (render names) name = render (names ++ [name]) := by
  unfold childPath
  rw [render_snoc]
  split
  · rename_i long
    rw [render_of_some ((render_long plain).mp long)]
  · rename_i short
    obtain rfl : names = [] := by simpa using mt (render_long plain).mpr short
    rfl

theorem parentPath_render (plain : ∀ other ∈ names ++ [name], other ≠ [] ∧ slash ∉ other) :
    parentPath (render (names ++ [name])) = render names := by
  have long : 1 < (render (names ++ [name])).length := (render_long plain).mpr (by simp)
  have letters := (plain name (by simp)).2
  unfold parentPath
  rw [if_pos ⟨long, by rw [render_snoc]; simp⟩, render_snoc, directoryOf_join letters]
  by_cases first : names = []
  · subst first
    rfl
  · have some : names.flatMap (slash :: ·) ≠ [] := by
      cases names with
      | nil => contradiction
      | cons => simp
    rw [if_neg some, render_of_some first]

theorem render_head (names : List CString) : (render names).head? = some slash := by
  unfold render
  split
  · rfl
  · cases names with
    | nil => contradiction
    | cons => rfl

theorem render_parent (names : List CString) (name : CString) :
    (render names).length ≤ (render (names ++ [name])).length := by
  rw [render_snoc, List.length_append, List.length_cons]
  by_cases first : names = []
  · subst first
    exact Nat.le_trans (Nat.le_add_left 1 name.length) (Nat.le_add_left _ _)
  · rw [render_of_some first]
    exact Nat.le_add_right _ _

theorem childPath_length (path token : CString) : (childPath path token).length ≤ path.length + token.length + 1 := by
  unfold childPath
  split
  · rw [List.length_append, List.length_cons]
    omega
  · rw [List.length_append]
    omega

/-! ## The two walks -/

/-- The invariant of the loop over the tokens: the names lead to the cluster, fit the
buffer and, where only the root has cluster 0, are the ones followed. -/
theorem walkTokens_leads {orig : Volume} (parents : ParentsNamed v) (lead : LeadTo v names c)
    (plain : ∀ name ∈ names, name ≠ [] ∧ slash ∉ name)
    (words : ∀ name ∈ toks, name ≠ [] ∧ slash ∉ name)
    (walked : walkTokens fuel orig (enter v c (render names)) toks = some (0, s)) :
    ∃ d names', s = enter v d (render names') ∧ LeadTo v names' d ∧
    (∀ name ∈ names', name ≠ [] ∧ slash ∉ name) ∧
      ((render names).length < 256 → (render names').length < 256) ∧
      ((∀ others e, LeadTo v others e → (e = 0 ↔ others = [])) → names' = followed names toks) := by
  induction toks generalizing names c with
  | nil =>
    obtain ⟨-, rfl⟩ := Prod.mk.inj (Option.some.inj walked)
    exact ⟨c, names, rfl, lead, plain, fun fits => fits, fun _ => rfl⟩
  | cons token rest ih =>
    have words' : ∀ name ∈ rest, name ≠ [] ∧ slash ∉ name := fun name member =>
      words name (List.mem_cons_of_mem token member)
    rw [walkTokens] at walked
    rw [followed]
    by_cases here : token = dot
    · rw [if_pos (show token = [0x2E] from here)] at walked
      rw [if_pos here]
      exact ih lead plain words' walked
    · rw [if_neg (show ¬ token = [0x2E] from here)] at walked
      rw [if_neg here]
      by_cases up : token = dotDot
      · rw [if_pos (show token = [0x2E, 0x2E] from up)] at walked
        rw [if_pos up]
        by_cases root : c = 0
        · rw [if_neg (show ¬ (enter v c (render names)).fs.currentDirCluster ≠ 0 from not_not.mpr root)] at walked
          obtain ⟨d, names', same, lead', plain', fits, further⟩ := ih lead plain words' walked
          refine ⟨d, names', same, lead', plain', fits, fun zero => ?_⟩
          rw [further zero, (zero _ _ lead).mp root]
          rfl
        · rw [if_pos (show (enter v c (render names)).fs.currentDirCluster ≠ 0 from root)] at walked
          -- away from cluster 0 the walk has come down by some name
          have some : names ≠ [] := by
            rintro rfl
            exact root (leadTo_unique lead LeadTo.root)
          obtain ⟨front, last, rfl⟩ : ∃ front last, names = front ++ [last] :=
            ⟨names.dropLast, names.getLast some, (List.dropLast_append_getLast some).symm⟩
          obtain ⟨parent, e, rest', ordinary, found, directory, rfl⟩ := leadTo_split lead
          split at walked
          · cases walked
          · cases walked
          · rename_i above up'
            have back := parents _ _ _ _ above rest' ordinary found directory ⟨fuel, _, up'⟩
            have shorter : parentPath (enter v (clusterLow e) (render (front ++ [last]))).fs.currentPath =
                render front :=
              parentPath_render plain
            rw [back, shorter] at walked
            obtain ⟨d, names', same, lead', plain', fits, further⟩ :=
              ih rest' (fun name member => plain name (by simp [member])) words' walked
            rw [List.dropLast_concat]
            exact ⟨d, names', same, lead', plain', fun before =>
              fits (Nat.lt_of_le_of_lt (render_parent front last) before), further⟩
      · rw [if_neg (show ¬ token = [0x2E, 0x2E] from up)] at walked
        rw [if_neg up]
        split at walked
        · cases walked
        · cases walked
        · rename_i e found
          split at walked
          · rename_i entered
            have longer : childPath (enter v c (render names)).fs.currentPath token = render (names ++ [token]) :=
              childPath_render plain token
            have length : (render (names ++ [token])).length < 256 := by
              have bound := childPath_length (enter v c (render names)).fs.currentPath token
              rw [longer] at bound
              omega
            have plain' : ∀ name ∈ names ++ [token], name ≠ [] ∧ slash ∉ name := by
              intro name member
              rcases List.mem_append.mp member with before | last
              · exact plain name before
              · obtain rfl := List.mem_singleton.mp last
                exact words name List.mem_cons_self
            rw [longer] at walked
            obtain ⟨d, names', same, lead', plain'', fits, further⟩ :=
              ih (LeadTo.down lead ⟨here, up⟩ ⟨fuel, _, found⟩ entered.1) plain' words' walked
            exact ⟨d, names', same, lead', plain'', fun _ => fits length, further⟩
          · cases walked

/-- A walk that succeeds follows the names. -/
theorem walkTokens_followed (tree : Tree v) (lead : LeadTo v names c)
    (plain : ∀ name ∈ names, name ≠ [] ∧ slash ∉ name)
    (words : ∀ name ∈ toks, name ≠ [] ∧ slash ∉ name) {orig : Volume}
    (walked : walkTokens fuel orig (enter v c (render names)) toks = some (0, s)) :
    ∃ d, s = enter v d (render (followed names toks)) ∧ LeadTo v (followed names toks) d ∧
      ∀ name ∈ followed names toks, name ≠ [] ∧ slash ∉ name := by
  obtain ⟨d, names', same, lead', plain', -, further⟩ := walkTokens_leads tree.parents lead plain words walked
  rw [← further fun others e other => leadTo_zero tree other]
  exact ⟨d, same, lead', plain'⟩

/-- Where `fat16_chdir` goes. -/
theorem fat16Chdir_followed (tree : Tree v) (lead : LeadTo v names v.fs.currentDirCluster)
    (plain : ∀ name ∈ names, name ≠ [] ∧ slash ∉ name) (path : v.fs.currentPath = render names)
    (ran : fat16Chdir fuel v p = some (0, s)) :
    ∃ d, s = enter v d (render (followed (startOf names p) (tokens p))) ∧
    LeadTo v (followed (startOf names p) (tokens p)) d ∧
      ∀ name ∈ followed (startOf names p) (tokens p), name ≠ [] ∧ slash ∉ name := by
  unfold startOf
  unfold fat16Chdir at ran
  split at ran
  · cases ran
  · split at ran
    · cases ran
    · dsimp only at ran
      split at ran
      · rename_i absolute
        rw [if_pos absolute]
        exact walkTokens_followed tree LeadTo.root (by simp) (tokens_plain p) ran
      · rename_i relative
        rw [if_neg relative]
        have start : v = enter v v.fs.currentDirCluster (render names) := by
          rw [← path]
          rfl
        nth_rewrite 2 [start] at ran
        exact walkTokens_followed tree lead plain (tokens_plain p) ran

/-! ## Only the current directory changes -/

theorem leadTo_enter (d : Nat) (path : CString) : LeadTo (enter v d path) names c ↔ LeadTo v names c := by
  constructor
  all_goals
    intro lead
    induction lead with
    | root => exact LeadTo.root
    | down rest plain found directory ih => exact LeadTo.down ih plain found directory

theorem tree_enter (tree : Tree v) (d : Nat) (path : CString) : Tree (enter v d path) where
  clusters := fun names c name e lead => tree.clusters names c name e ((leadTo_enter d path).mp lead)
  parents := fun names c name e up lead => tree.parents names c name e up ((leadTo_enter d path).mp lead)

/-- Whatever path is asked for, `current_path` leads to the current directory again. -/
theorem fat16Chdir_resolves {code : Int} (tree : Tree v) (resolves : Resolves v)
    (ran : fat16Chdir fuel v p = some (code, s)) :
    Tree s ∧ Resolves s := by
  rcases fat16Chdir_outcome ran with ⟨rfl, -⟩ | ⟨-, rfl⟩
  · obtain ⟨names, plain, path, lead⟩ := resolves
    obtain ⟨d, rfl, lead', plain'⟩ := fat16Chdir_followed tree lead plain path ran
    exact ⟨tree_enter tree d _, _, plain', rfl, (leadTo_enter d _).mpr lead'⟩
  · exact ⟨tree, resolves⟩

/-- After mounting the current directory is the root. -/
theorem resolves_root (v : Volume) : Resolves (enter v 0 rootPath) :=
  ⟨[], by simp, rfl, LeadTo.root⟩

/-! ## `resolve_path` keeps the same names -/

theorem joinTokens_render {size : Nat} {output : CString} (joined : joinTokens size output kept = some r) :
    r = output ++ kept.flatMap (slash :: ·) := by
  induction kept generalizing output with
  | nil => simpa using (Option.some.inj joined).symm
  | cons name rest ih =>
    rw [joinTokens] at joined
    split at joined
    · cases joined
    · rw [ih joined]
      simp

/-- A result that fits has a letter and a slash for each name. -/
theorem joinTokens_few {size : Nat} {output : CString} (plain : ∀ name ∈ kept, name ≠ [] ∧ slash ∉ name)
    (fits : output.length < size)
    (joined : joinTokens size output kept = some r) : r.length < size ∧ output.length + 2 * kept.length < size := by
  induction kept generalizing output with
  | nil =>
    rw [← Option.some.inj joined]
    exact ⟨fits, fits⟩
  | cons name rest ih =>
    rw [joinTokens] at joined
    split at joined
    · cases joined
    · have letters := List.length_pos_of_ne_nil (plain name (by simp)).1
      have longer : (output ++ slash :: name).length = output.length + (name.length + 1) := List.length_append
      obtain ⟨whole, further⟩ := ih (fun other member => plain other (List.mem_cons_of_mem name member))
        (by omega) joined
      rw [List.length_cons]
      omega

/-- The loop that keeps fewer names than it may follows them all. -/
theorem collectTokens_followed (collected : collectTokens names toks = some kept) (few : kept.length < 128) :
    kept = followed names toks := by
  induction toks generalizing names with
  | nil => exact (Option.some.inj collected).symm
  | cons token rest ih =>
    rw [collectTokens] at collected
    rw [followed]
    split at collected
    · rename_i full
      rw [Option.some.inj collected] at full
      omega
    · split at collected
      · rename_i here
        rw [if_pos here]
        exact ih collected
      · rename_i other
        rw [if_neg other]
        split at collected
        · rename_i up
          rw [if_pos up]
          split at collected
          · cases collected
          · exact ih collected
        · rename_i ordinary
          rw [if_neg ordinary]
          exact ih collected

theorem collectTokens_plain (words : ∀ name ∈ toks, name ≠ [] ∧ slash ∉ name)
    (plain : ∀ name ∈ names, name ≠ [] ∧ slash ∉ name)
    (collected : collectTokens names toks = some kept) : ∀ name ∈ kept, name ≠ [] ∧ slash ∉ name := by
  induction toks generalizing names with
  | nil =>
    obtain rfl := Option.some.inj collected
    exact plain
  | cons token rest ih =>
    have words' : ∀ name ∈ rest, name ≠ [] ∧ slash ∉ name := fun name member =>
      words name (List.mem_cons_of_mem token member)
    rw [collectTokens] at collected
    split at collected
    · obtain rfl := Option.some.inj collected
      exact plain
    · split at collected
      · exact ih words' plain collected
      · split at collected
        · split at collected
          · cases collected
          · exact ih words' (fun name member => plain name (List.dropLast_subset names member)) collected
        · refine ih words' (fun name member => ?_) collected
          rcases List.mem_append.mp member with before | last
          · exact plain name before
          · obtain rfl := List.mem_singleton.mp last
            exact words name List.mem_cons_self

/-- Names that are no dots are followed one after the other. -/
theorem followed_append (front : List CString) (ordinary : ∀ name ∈ names, name ≠ dot ∧ name ≠ dotDot)
    (toks : List CString) :
    followed front (names ++ toks) = followed (front ++ names) toks := by
  induction names generalizing front with
  | nil => rw [List.nil_append, List.append_nil]
  | cons name rest ih =>
    obtain ⟨here, up⟩ := ordinary name List.mem_cons_self
    have further := ih (front ++ [name]) fun other member => ordinary other (List.mem_cons_of_mem name member)
    rw [List.cons_append, followed, if_neg here, if_neg up, further, List.append_assoc, List.singleton_append]

theorem leadTo_ordinary (lead : LeadTo v names c) : ∀ name ∈ names, name ≠ dot ∧ name ≠ dotDot := by
  induction lead with
  | root => simp
  | down rest plain found directory ih =>
    intro name member
    rcases List.mem_append.mp member with before | last
    · exact ih name before
    · obtain rfl := List.mem_singleton.mp last
      exact plain

/-- The tokens of the buffer are those of the current directory, for a relative path,
and those of the path. -/
theorem pathBuffer_tokens {cwd temp : CString} (buffered : pathBuffer cwd p = some temp) :
    tokens temp = if p.head? = some slash then tokens p else tokens cwd ++ tokens p := by
  unfold pathBuffer at buffered
  split at buffered
  · rename_i absolute
    split at buffered
    · cases buffered
    · rw [if_pos absolute, Option.some.inj buffered]
  · rename_i relative
    rw [if_neg relative]
    split at buffered
    · cases buffered
    · split at buffered
      · split at buffered
        · cases buffered
        · split at buffered
          · cases buffered
          · rw [← Option.some.inj buffered, List.append_assoc]
            exact tokens_append cwd p
      · rename_i ended
        split at buffered
        · cases buffered
        · rw [← Option.some.inj buffered]
          by_cases empty : cwd = []
          · rw [empty]
            rfl
          · have last : cwd.getLast? = some slash :=
              not_not.mp fun other => ended ⟨List.length_pos_of_ne_nil empty, other⟩
            obtain ⟨front, shape⟩ := List.getLast?_eq_some_iff.mp last
            rw [shape, List.append_assoc, List.singleton_append, tokens_append, tokens_append, tokens_nil,
              List.append_nil]

/-- What `resolve_path` writes are the names followed from the root. A result that fits
has fewer than 128 names, so the loop has not stopped early. -/
theorem resolvePath_names {cwd : CString} {size : Nat} (bounded : size ≤ 256)
    (resolved : resolvePath cwd p size = some r) :
    ∃ kept, kept = followed [] (if p.head? = some slash then tokens p else tokens cwd ++ tokens p) ∧
    r = render kept ∧
      (∀ name ∈ kept, name ≠ [] ∧ slash ∉ name) ∧ r.length < size ∧ kept.length < 128 := by
  unfold resolvePath at resolved
  split at resolved
  · cases resolved
  · rename_i room
    split at resolved
    · cases resolved
    · obtain ⟨temp, buffered, resolved⟩ := Option.bind_eq_some_iff.mp resolved
      obtain ⟨kept, collected, resolved⟩ := Option.bind_eq_some_iff.mp resolved
      have words := collectTokens_plain (tokens_plain temp) (by simp) collected
      obtain ⟨rfl, within, few⟩ : r = render kept ∧ r.length < size ∧ kept.length < 128 := by
        split at resolved
        · rename_i empty
          subst empty
          split at resolved
          · cases resolved
          · rename_i two
            rw [← Option.some.inj resolved]
            exact ⟨rfl, Nat.not_lt.mp two, by decide⟩
        · rename_i some
          obtain ⟨within, fits⟩ := joinTokens_few words (Nat.pos_of_ne_zero room) resolved
          exact ⟨by rw [joinTokens_render resolved, render_of_some some, List.nil_append], within, by omega⟩
      exact ⟨kept, by rw [collectTokens_followed collected few, pathBuffer_tokens buffered], rfl, words, within,
        few⟩

theorem resolvePath_followed (plain : ∀ name ∈ names, name ≠ [] ∧ slash ∉ name) (lead : LeadTo v names c)
    (resolved : resolvePath (render names) p 256 = some r) : r = render (followed (startOf names p) (tokens p)) := by
  obtain ⟨kept, rfl, rfl, -⟩ := resolvePath_names (Nat.le_refl 256) resolved
  rw [tokens_render plain]
  unfold startOf
  split
  · rfl
  · rw [followed_append [] (leadTo_ordinary lead), List.nil_append]

/-- A path that the shell hands to `fat16_chdir` and the one that `SYS_CHDIR` makes of
it lead to the same directory, under the same path. -/
theorem chdir_agrees (tree : Tree v) (resolves : Resolves v) (resolved : resolvePath v.fs.currentPath p 256 = some r)
    (shell : fat16Chdir fuel v p = some (0, s)) (system : fat16Chdir fuel' v r = some (0, t)) :
    s.fs.currentDirCluster = t.fs.currentDirCluster ∧ s.fs.currentPath = t.fs.currentPath := by
  obtain ⟨names, plain, path, lead⟩ := resolves
  rw [path] at resolved
  obtain ⟨c, rfl, first, plain'⟩ := fat16Chdir_followed tree lead plain path shell
  obtain rfl := resolvePath_followed plain lead resolved
  obtain ⟨d, rfl, second, -⟩ := fat16Chdir_followed tree lead plain path system
  generalize followed (startOf names p) (tokens p) = kept at first second plain'
  have again : followed (startOf names (render kept)) (tokens (render kept)) = kept := by
    unfold startOf
    have whole := followed_append [] (leadTo_ordinary first) []
    rw [List.append_nil] at whole
    rw [if_pos (render_head kept), tokens_render plain', whole]
    rfl
  rw [again] at second ⊢
  exact ⟨leadTo_unique first second, rfl⟩

end

/-! ## The volume with a system directory -/

section
open KeptSystem (systemVolume systemVolume_tree systemVolume_live)

variable {name : CString} {names : List CString} {e : Slot} {c : Nat}

theorem systemVolume_root (found : Finds systemVolume 0 name e) : clusterLow e = 2 := by
  obtain ⟨fuel, path, found⟩ := found
  have entries : ∀ visit ∈ (visits 0 Scan.initial (slotsOf systemVolume 0)).1, clusterLow visit.slot = 2 :=
    by decide +kernel
  unfold findEntryInCurrentDir at found
  rw [if_pos (show (enter systemVolume 0 path).fs.currentDirCluster = 0 from rfl)] at found
  obtain ⟨visit, target, rfl⟩ := Option.map_eq_some_iff.mp (Option.some.inj found)
  exact entries visit (List.mem_of_find?_eq_some target)

theorem systemVolume_child (plain : name ≠ dot ∧ name ≠ dotDot) (found : Finds systemVolume 2 name e) :
    isDirectory e = false := by
  obtain ⟨fuel, path, found⟩ := found
  obtain ⟨k, live, rfl, named⟩ := findEntry_live systemVolume_tree plain.1 plain.2 found
  rcases systemVolume_live live with rfl | rfl | rfl
  · exact absurd named (by decide)
  · exact absurd named (by decide)
  · decide

theorem systemVolume_clusters (lead : LeadTo systemVolume names c) : c = 0 ∨ c = 2 := by
  induction lead with
  | root => exact Or.inl rfl
  | down rest plain found directory ih =>
    rcases ih with rfl | rfl
    · exact Or.inr (systemVolume_root found)
    · exact absurd directory (by simp [systemVolume_child plain found])

theorem systemVolume_back : ∃ up, Finds systemVolume 2 dotDot up ∧ clusterLow up = 0 := by
  have here : (findEntryInCurrentDir 2 (enter systemVolume 2 rootPath) dotDot).map (·.map clusterLow) =
      some (some 0) := by
    decide +kernel
  obtain ⟨found, ran, here⟩ := Option.map_eq_some_iff.mp here
  obtain ⟨up, rfl, zero⟩ := Option.map_eq_some_iff.mp here
  exact ⟨up, ⟨2, rootPath, ran⟩, zero⟩

theorem systemVolume_wellFormed : Tree systemVolume where
  clusters := by
    intro names c name e lead plain found directory
    rcases systemVolume_clusters lead with rfl | rfl
    · exact Nat.le_of_eq (systemVolume_root found).symm
    · exact absurd directory (by simp [systemVolume_child plain found])
  parents := by
    intro names c name e up lead plain found directory back
    rcases systemVolume_clusters lead with rfl | rfl
    · obtain ⟨up', back', zero⟩ := systemVolume_back
      rw [systemVolume_root found] at back
      rw [finds_unique back back', zero]
    · exact absurd directory (by simp [systemVolume_child plain found])

theorem systemVolume_entry : ∃ e, Finds systemVolume 0 system e ∧ isDirectory e = true := by
  have here : (findEntryInCurrentDir 0 (enter systemVolume 0 rootPath) system).map (·.map isDirectory) =
      some (some true) := by
    decide +kernel
  obtain ⟨found, ran, here⟩ := Option.map_eq_some_iff.mp here
  obtain ⟨e, rfl, directory⟩ := Option.map_eq_some_iff.mp here
  exact ⟨e, ⟨0, rootPath, ran⟩, directory⟩

/-- `/system` leads to the system directory. -/
theorem systemVolume_placed : Resolves (enter systemVolume 2 (slash :: system)) := by
  obtain ⟨e, found, directory⟩ := systemVolume_entry
  have lead := LeadTo.down LeadTo.root (show system ≠ dot ∧ system ≠ dotDot by decide) found directory
  rw [systemVolume_root found] at lead
  exact ⟨[system], by decide, by decide, (leadTo_enter 2 _).mpr lead⟩

/-- `cd ../SYSTEM/.` in the system directory. -/
theorem chdir_agrees_system : ∃ r s t, resolvePath (slash :: system)
    ([0x2E, 0x2E, 0x2F] ++ system.map toUpper ++ [0x2F, 0x2E]) 256 = some r ∧
    fat16Chdir 2 (enter systemVolume 2 (slash :: system))
    ([0x2E, 0x2E, 0x2F] ++ system.map toUpper ++ [0x2F, 0x2E]) = some (0, s) ∧
    fat16Chdir 2 (enter systemVolume 2 (slash :: system)) r = some (0, t) ∧
    s.fs.currentDirCluster = t.fs.currentDirCluster ∧ s.fs.currentPath = t.fs.currentPath := by
  have resolves := systemVolume_placed
  have resolved : resolvePath (slash :: system) ([0x2E, 0x2E, 0x2F] ++ system.map toUpper ++ [0x2F, 0x2E]) 256 =
      some (slash :: system.map toUpper) := by decide
  have shell : (fat16Chdir 2 (enter systemVolume 2 (slash :: system))
      ([0x2E, 0x2E, 0x2F] ++ system.map toUpper ++ [0x2F, 0x2E])).map (·.1) = some 0 := by decide +kernel
  have kernel : (fat16Chdir 2 (enter systemVolume 2 (slash :: system)) (slash :: system.map toUpper)).map (·.1) =
    some 0 := by
    decide +kernel
  obtain ⟨⟨_, s⟩, ran, rfl⟩ := Option.map_eq_some_iff.mp shell
  obtain ⟨⟨_, t⟩, ran', rfl⟩ := Option.map_eq_some_iff.mp kernel
  exact ⟨_, s, t, resolved, ran, ran',
    chdir_agrees (tree_enter systemVolume_wellFormed 2 _) resolves resolved ran ran'⟩

end

end MeowMeowOS.PathResolution

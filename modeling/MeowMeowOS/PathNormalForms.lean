import MeowMeowOS.PathResolution

/-! The normal form of a path, said without the token stack and the output buffer of
`resolve_path`: its components are taken one after the other. Every result that
`resolve_path` gives is one, and is given again when it is resolved. -/
namespace MeowMeowOS.PathNormalForms
open Fat16Names Fat16Paths PathTokens PathResolution
open SystemLookup (dotDot)

/-- What a component does to those that remain. At the root ".." removes none. -/
def reduce (remaining : List CString) (component : CString) : List CString :=
  if component = [] ∨ component = dot then remaining
  else if component = dotDot then remaining.dropLast
  else remaining ++ [component]

/-- The path taken relative to `cwd` unless it starts with a slash. -/
def absolute (cwd input : CString) : CString := if input.head? = some slash then input else cwd ++ slash :: input

def normalForm (cwd input : CString) : CString := render (((absolute cwd input).splitOn slash).foldl reduce [])

/-- "/", or a slash before each of some components. -/
def Normal (path : CString) : Prop :=
  ∃ names, path = render names ∧ ∀ name ∈ names, name ≠ [] ∧ slash ∉ name ∧ name ≠ dot ∧
    name ≠ dotDot

section
variable {cwd input output p : CString} {names toks kept : List CString} {size : Nat}

/-! ## Components -/

theorem foldl_reduce (components : List CString) :
    components.foldl reduce names = followed names (components.filter (· ≠ [])) := by
  induction components generalizing names with
  | nil => rfl
  | cons component rest ih =>
    rw [List.foldl_cons, ih]
    unfold reduce
    by_cases empty : component = []
    · rw [if_pos (Or.inl empty), List.filter_cons_of_neg (by simpa using empty)]
    · rw [List.filter_cons_of_pos (by simpa using empty), followed]
      by_cases here : component = dot
      · rw [if_pos (Or.inr here), if_pos here]
      · rw [if_neg (by simp [empty, here]), if_neg here]
        split
        · rfl
        · rfl

theorem normalForm_followed (cwd input : CString) : normalForm cwd input =
    render (followed [] (if input.head? = some slash then tokens input else tokens cwd ++ tokens input)) := by
  unfold normalForm
  rw [foldl_reduce]
  unfold absolute
  split
  · rfl
  · rw [← tokens_append]
    rfl

/-- What is followed from ordinary names are ordinary names. -/
theorem followed_ordinary (ordinary : ∀ name ∈ names, name ≠ dot ∧ name ≠ dotDot) (toks : List CString) :
    ∀ name ∈ followed names toks, name ≠ dot ∧ name ≠ dotDot := by
  induction toks generalizing names with
  | nil => exact ordinary
  | cons token rest ih =>
    rw [followed]
    split
    · exact ih ordinary
    · rename_i here
      split
      · exact ih fun name member => ordinary name (List.dropLast_subset names member)
      · rename_i up
        refine ih fun name member => ?_
        rcases List.mem_append.mp member with before | last
        · exact ordinary name before
        · obtain rfl := List.mem_singleton.mp last
          exact ⟨here, up⟩

/-! ## A normal form once more -/

theorem collectTokens_ordinary (ordinary : ∀ name ∈ toks, name ≠ dot ∧ name ≠ dotDot)
    (few : names.length + toks.length ≤ 128) :
    collectTokens names toks = some (names ++ toks) := by
  induction toks generalizing names with
  | nil => rw [List.append_nil]; rfl
  | cons token rest ih =>
    obtain ⟨here, up⟩ := ordinary token List.mem_cons_self
    rw [List.length_cons] at few
    have further := @ih (names ++ [token]) (fun name member => ordinary name (List.mem_cons_of_mem token member))
      (by rw [List.length_append, List.length_singleton]; omega)
    rw [collectTokens, if_neg (by omega), if_neg here, if_neg up, further, List.append_assoc, List.singleton_append]

theorem joinTokens_fits (fits : (output ++ names.flatMap (slash :: ·)).length < size) :
    joinTokens size output names = some (output ++ names.flatMap (slash :: ·)) := by
  induction names generalizing output with
  | nil => rw [List.flatMap_nil, List.append_nil]; rfl
  | cons name rest ih =>
    rw [List.flatMap_cons, ← List.append_assoc] at fits ⊢
    have room : output.length + (name.length + 1) < size := by
      rw [List.length_append, List.length_append, List.length_cons] at fits
      omega
    rw [joinTokens, if_neg (by omega)]
    exact ih fits

/-- A normal form that fits is its own result, whatever the current directory. -/
theorem resolvePath_normal (ordinary : ∀ name ∈ kept, name ≠ dot ∧ name ≠ dotDot)
    (plain : ∀ name ∈ kept, name ≠ [] ∧ slash ∉ name)
    (few : kept.length ≤ 128) (fits : (render kept).length < size) (bounded : size ≤ 256) (cwd : CString) :
    resolvePath cwd (render kept) size = some (render kept) := by
  have head := render_head kept
  have some : render kept ≠ [] := by
    intro empty
    rw [empty] at head
    cases head
  unfold resolvePath pathBuffer
  rw [if_neg (by omega), if_neg some, if_pos head, if_neg (by omega)]
  dsimp only [Option.bind_eq_bind, Option.bind_some]
  rw [tokens_render plain, collectTokens_ordinary ordinary (by rw [List.length_nil, Nat.zero_add]; exact few),
    List.nil_append]
  dsimp only [Option.bind_some]
  split
  · rename_i empty
    subst empty
    have one : (render []).length = 1 := rfl
    rw [if_neg (by omega)]
    rfl
  · rename_i names
    rw [render_of_some names] at fits ⊢
    exact joinTokens_fits fits

/-- A result is the normal form of the path, it fits the output with its zero byte, and
resolving it again from any directory gives it back. -/
theorem resolvePath_normalizes (bounded : 1 ≤ size ∧ size ≤ 256)
    (resolved : resolvePath cwd input size = some output) :
    output = normalForm cwd input ∧ output.length + 1 ≤ size ∧ Normal output ∧
      ∀ other, resolvePath other output size = some output := by
  obtain ⟨kept, walked, rfl, plain, within, few⟩ := resolvePath_names bounded.2 resolved
  have ordinary : ∀ name ∈ kept, name ≠ dot ∧ name ≠ dotDot := by
    rw [walked]
    exact followed_ordinary (by simp) _
  refine ⟨?_, within, ⟨kept, rfl, fun name member => ?_⟩, fun other => ?_⟩
  · rw [normalForm_followed, ← walked]
  · exact ⟨(plain name member).1, (plain name member).2, ordinary name member⟩
  · exact resolvePath_normal ordinary plain (Nat.le_of_lt few) within bounded.2 other

end

/-- `../b/./x//` from `/a`. -/
theorem resolvePath_normalizes_dots : ∃ output,
    resolvePath [0x2F, 0x61] [0x2E, 0x2E, 0x2F, 0x62, 0x2F, 0x2E, 0x2F, 0x78, 0x2F, 0x2F] 256 = some output ∧
    output = normalForm [0x2F, 0x61] [0x2E, 0x2E, 0x2F, 0x62, 0x2F, 0x2E, 0x2F, 0x78, 0x2F, 0x2F] ∧
    output.length + 1 ≤ 256 ∧
    Normal output ∧ ∀ other, resolvePath other output 256 = some output := by
  have resolved : resolvePath [0x2F, 0x61] [0x2E, 0x2E, 0x2F, 0x62, 0x2F, 0x2E, 0x2F, 0x78, 0x2F, 0x2F] 256 =
      some [0x2F, 0x62, 0x2F, 0x78] := by decide +kernel
  exact ⟨_, resolved, resolvePath_normalizes (by decide) resolved⟩

end MeowMeowOS.PathNormalForms

import Mathlib.Data.List.Basic

/-! A text cut into pieces: each ends behind its first stop, or when it has the
width that is allowed. -/
namespace MeowMeowOS.CutPieces

section
variable {α : Type*} [DecidableEq α] {stop : α} {width : Nat} {text : List α}

/-- The first piece of a text. -/
def piece (stop : α) : Nat → List α → List α
  | 0, _ => []
  | _ + 1, [] => []
  | width + 1, x :: rest => if x = stop then [x] else x :: piece stop width rest

theorem piece_cons (stop : α) (width : Nat) (x : α) (rest : List α) :
    piece stop (width + 1) (x :: rest) = if x = stop then [x] else x :: piece stop width rest := rfl

theorem piece_append (stop : α) (width : Nat) (text : List α) :
    piece stop width text ++ text.drop (piece stop width text).length = text := by
  induction width generalizing text with
  | zero => rfl
  | succ width ih =>
    cases text with
    | nil => rfl
    | cons x rest =>
      rw [piece_cons]
      by_cases last : x = stop
      · rw [if_pos last]
        rfl
      · rw [if_neg last, List.length_cons, List.drop_succ_cons, List.cons_append, ih]

theorem piece_length (stop : α) (width : Nat) (text : List α) : (piece stop width text).length ≤ width := by
  induction width generalizing text with
  | zero => exact Nat.le_refl _
  | succ width ih =>
    cases text with
    | nil => exact Nat.zero_le _
    | cons x rest =>
      rw [piece_cons]
      by_cases last : x = stop
      · rw [if_pos last]
        exact Nat.succ_le_succ (Nat.zero_le _)
      · rw [if_neg last]
        exact Nat.succ_le_succ (ih rest)

/-- A piece that is no longer than the text allows it to be ends at a stop. -/
theorem piece_ends (stop : α) (width : Nat) (text : List α) :
    (piece stop width text).getLast? = some stop ∨ (piece stop width text).length = width ∨
      piece stop width text = text := by
  induction width generalizing text with
  | zero => exact .inr (.inl rfl)
  | succ width ih =>
    cases text with
    | nil => exact .inr (.inr rfl)
    | cons x rest =>
      rw [piece_cons]
      by_cases last : x = stop
      · rw [if_pos last, last]
        exact .inl rfl
      · rw [if_neg last]
        rcases ih rest with stopped | full | whole
        · exact .inl (by rw [List.getLast?_cons, stopped]; rfl)
        · exact .inr (.inl (by rw [List.length_cons, full]))
        · exact .inr (.inr (by rw [whole]))

theorem piece_ne_nil (stop : α) (wide : 0 < width) (some : text ≠ []) : piece stop width text ≠ [] := by
  obtain ⟨x, rest, rfl⟩ := List.exists_cons_of_ne_nil some
  obtain ⟨n, rfl⟩ := Nat.exists_eq_succ_of_ne_zero (Nat.ne_of_gt wide)
  rw [piece_cons]
  split <;> exact List.cons_ne_nil _ _

/-- What is left behind a piece is shorter. -/
theorem drop_piece_lt (stop : α) (wide : 0 < width) (some : text ≠ []) :
    (text.drop (piece stop width text).length).length < text.length := by
  have first := List.length_pos_iff.mpr (piece_ne_nil stop wide some)
  have whole := congrArg List.length (piece_append stop width text)
  rw [List.length_append] at whole
  omega

def pieces (stop : α) (width : Nat) (text : List α) : List (List α) :=
  if _ : text = [] ∨ width = 0 then [] else
    piece stop width text :: pieces stop width (text.drop (piece stop width text).length)
termination_by text.length
decreasing_by
  rename_i more
  rw [not_or] at more
  exact drop_piece_lt stop (Nat.pos_of_ne_zero more.2) more.1

@[simp] theorem pieces_nil : pieces stop width [] = [] := by
  rw [pieces, dif_pos (.inl rfl)]

theorem pieces_cons (stop : α) (wide : 0 < width) (some : text ≠ []) : pieces stop width text =
    piece stop width text :: pieces stop width (text.drop (piece stop width text).length) := by
  rw [pieces, dif_neg (not_or.mpr ⟨some, Nat.ne_of_gt wide⟩)]

/-- The pieces are the text. -/
theorem pieces_flatten (wide : 0 < width) (text : List α) : (pieces stop width text).flatten = text := by
  by_cases some : text = []
  · rw [some, pieces_nil]
    rfl
  · rw [pieces_cons stop wide some, List.flatten_cons, pieces_flatten wide, piece_append]
termination_by text.length
decreasing_by exact drop_piece_lt stop wide some

theorem pieces_length_le (wide : 0 < width) (text : List α) : (pieces stop width text).length ≤ text.length := by
  by_cases some : text = []
  · rw [some, pieces_nil]
    exact Nat.le_refl _
  · have rest := pieces_length_le wide (text.drop (piece stop width text).length)
    have shorter := drop_piece_lt stop wide some
    rw [pieces_cons stop wide some, List.length_cons]
    omega
termination_by text.length
decreasing_by exact drop_piece_lt stop wide some

/-- Every piece but the last one ends at a stop or has the whole width. -/
theorem pieces_end (wide : 0 < width) (text : List α) (i : Nat) (small : i < (pieces stop width text).length) :
    (pieces stop width text)[i].getLast? = some stop ∨ (pieces stop width text)[i].length = width ∨
      i + 1 = (pieces stop width text).length := by
  by_cases empty : text = []
  · subst empty
    rw [pieces_nil] at small
    cases small
  · have shape := pieces_cons stop wide empty
    rw! [shape]
    cases i with
    | zero =>
      rcases piece_ends stop width text with stopped | full | whole
      · exact .inl stopped
      · exact .inr (.inl full)
      · refine .inr (.inr ?_)
        rw [whole, List.drop_length, pieces_nil]
        rfl
    | succ i =>
      rw [shape, List.length_cons] at small
      have rest := pieces_end wide (text.drop (piece stop width text).length) i (by omega)
      simpa using rest
termination_by text.length
decreasing_by exact drop_piece_lt stop wide empty

theorem pieces_width (wide : 0 < width) (text : List α) : ∀ p ∈ pieces stop width text, p.length ≤ width := by
  by_cases empty : text = []
  · subst empty
    rw [pieces_nil]
    exact fun p member => absurd member List.not_mem_nil
  · rw [pieces_cons stop wide empty]
    intro p member
    rcases List.mem_cons.mp member with rfl | later
    · exact piece_length stop width text
    · exact pieces_width wide _ p later
termination_by text.length
decreasing_by exact drop_piece_lt stop wide empty

theorem piece_subset (stop : α) (width : Nat) (text : List α) : piece stop width text ⊆ text := by
  intro x member
  rw [← piece_append stop width text]
  exact List.mem_append_left _ member

end

end MeowMeowOS.CutPieces

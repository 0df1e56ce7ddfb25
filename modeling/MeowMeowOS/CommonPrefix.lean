import Mathlib.Data.List.Basic

/-! The longest common prefix, of two lists and of any number of them. -/
namespace MeowMeowOS.CommonPrefix

section
variable {α : Type*} {s t p q : List α} {names others : List (List α)}

/-- A prefix of all the names that every other one is a prefix of. -/
def Longest (p : List α) (names : List (List α)) : Prop :=
  (∀ name ∈ names, p <+: name) ∧ ∀ q, (∀ name ∈ names, q <+: name) → q <+: p

theorem longest_unique (first : Longest p names) (second : Longest q names) : p = q :=
  (second.2 p first.1).eq_of_length_le (first.2 q second.1).length_le

/-- The order of the names makes no difference, nor how often they come. -/
theorem longest_congr (same : ∀ name, name ∈ names ↔ name ∈ others) (longest : Longest p names) :
    Longest p others :=
  ⟨fun name member => longest.1 name ((same name).mpr member),
    fun q all => longest.2 q fun name member => all name ((same name).mp member)⟩

theorem longest_single (name : List α) : Longest name [name] :=
  ⟨fun _ member => List.mem_singleton.mp member ▸ List.prefix_rfl, fun _ all => all name List.mem_cons_self⟩

variable [DecidableEq α]

def common : List α → List α → List α
  | x :: s, y :: t => if x = y then x :: common s t else []
  | _, _ => []

theorem common_cons (x y : α) (s t : List α) : common (x :: s) (y :: t) = if x = y then x :: common s t else [] := rfl

theorem common_left (s t : List α) : common s t <+: s := by
  induction s generalizing t with
  | nil => exact List.nil_prefix
  | cons x s ih =>
    cases t with
    | nil => exact List.nil_prefix
    | cons y t =>
      rw [common_cons]
      by_cases same : x = y
      · rw [if_pos same]
        exact (List.prefix_cons_inj x).mpr (ih t)
      · rw [if_neg same]
        exact List.nil_prefix

theorem common_right (s t : List α) : common s t <+: t := by
  induction s generalizing t with
  | nil => exact List.nil_prefix
  | cons x s ih =>
    cases t with
    | nil => exact List.nil_prefix
    | cons y t =>
      rw [common_cons]
      by_cases same : x = y
      · rw [if_pos same, same]
        exact (List.prefix_cons_inj y).mpr (ih t)
      · rw [if_neg same]
        exact List.nil_prefix

theorem common_greatest (left : q <+: s) (right : q <+: t) : q <+: common s t := by
  induction q generalizing s t with
  | nil => exact List.nil_prefix
  | cons x q ih =>
    obtain ⟨restS, rfl⟩ := left
    obtain ⟨restT, rfl⟩ := right
    rw [List.cons_append, List.cons_append, common_cons, if_pos rfl]
    exact (List.prefix_cons_inj x).mpr (ih (List.prefix_append _ _) (List.prefix_append _ _))

theorem common_take (n : Nat) (s t : List α) : common (s.take n) t = (common s t).take n := by
  induction n generalizing s t with
  | zero => rfl
  | succ n ih =>
    cases s with
    | nil => rfl
    | cons x s =>
      cases t with
      | nil => rfl
      | cons y t =>
        rw [List.take_succ_cons, common_cons, common_cons]
        split
        · rw [ih, List.take_succ_cons]
        · rfl

theorem common_append (p s t : List α) : common (p ++ s) (p ++ t) = p ++ common s t := by
  induction p with
  | nil => rfl
  | cons x p ih => rw [List.cons_append, List.cons_append, common_cons, if_pos rfl, ih, List.cons_append]

theorem longest_add (longest : Longest p names) (name : List α) : Longest (common p name) (names ++ [name]) := by
  constructor
  · intro other member
    rcases List.mem_append.mp member with before | last
    · exact (common_left p name).trans (longest.1 other before)
    · rw [List.mem_singleton.mp last]
      exact common_right p name
  · intro q all
    exact common_greatest (longest.2 q fun other member => all other (List.mem_append_left _ member))
      (all name (List.mem_append_right _ List.mem_cons_self))

end

end MeowMeowOS.CommonPrefix

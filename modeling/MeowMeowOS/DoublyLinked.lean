import Mathlib.Data.List.Basic

/-! Doubly linked lists read through two link functions. `Links` describes a
segment of a list together with the nodes on either side of it, so that a
splice is stated where it happens and the rest of the list is carried along. -/
namespace MeowMeowOS.DoublyLinked

variable {Node : Type*} {next prev next' prev' : Node → Node} {before after : Node}

/-- The nodes are linked both ways in this order; `before` precedes the first
and `after` follows the last. -/
def Links (next prev : Node → Node) (before after : Node) : List Node → Prop
  | [] => True
  | node :: rest =>
    next node = rest.headD after ∧ prev node = before ∧ Links next prev node after rest

theorem links_append (front back : List Node) :
    Links next prev before after (front ++ back) ↔
      Links next prev before (back.headD after) front ∧
        Links next prev (front.getLastD before) after back := by
  induction front generalizing before with
  | nil => simp [Links]
  | cons node rest ih =>
    have head : (rest ++ back).headD after = rest.headD (back.headD after) := by
      cases rest <;> rfl
    have last : (node :: rest).getLastD before = rest.getLastD node := by
      cases rest <;> rfl
    simp only [List.cons_append, Links, ih, head, last, and_assoc]

/-- A segment whose nodes keep their links is still a segment. -/
theorem links_congr {nodes : List Node}
    (same : ∀ node ∈ nodes, next' node = next node ∧ prev' node = prev node) :
    Links next' prev' before after nodes ↔ Links next prev before after nodes := by
  induction nodes generalizing before with
  | nil => exact Iff.rfl
  | cons node rest ih =>
    obtain ⟨nextSame, prevSame⟩ := same node List.mem_cons_self
    simp only [Links, nextSame, prevSame, ih (fun other member => same other (by simp [member]))]

/-- Only the first node of a segment names what comes before it. -/
theorem links_relink {newBefore node : Node} {rest : List Node}
    (links : Links next prev before after (node :: rest))
    (backward : prev' node = newBefore) (forward : next' node = next node)
    (same : ∀ other ∈ rest, next' other = next other ∧ prev' other = prev other) :
    Links next' prev' newBefore after (node :: rest) :=
  ⟨forward.trans links.1, backward, (links_congr same).mpr links.2.2⟩

/-- The successor of a node on the list is on the list, or is what follows it. -/
theorem links_next_mem {nodes : List Node} {node : Node}
    (links : Links next prev before after nodes) (member : node ∈ nodes) :
    next node ∈ nodes ∨ next node = after := by
  obtain ⟨front, back, rfl⟩ := List.append_of_mem member
  have step := ((links_append _ _).mp links).2.1
  cases back with
  | nil => exact Or.inr step
  | cons following rest => exact Or.inl (by simp [step])

end MeowMeowOS.DoublyLinked

import MeowMeowOS.CommandBlocks

/-! When the redirections of a command balance: the nodes that were opened are
closed once, and a path that `resolve_path` rejected is neither deleted nor written. -/
namespace MeowMeowOS.ClosedRedirections
open Fat16Names VfsNodes ReferenceCounts Descriptors CommandBlocks

/-! ## The condition -/

/-- The references of a table, where there is one. -/
def heldBy (table : Option FdTable) : Multiset Nat := (table.map held).getD 0

structure Redirection where
  operator : Operator
  target : CString
  stale : CString

/-- The redirections of the arguments, in their order. -/
def redirections (stale : Nat → CString) : List CString → List Redirection
  | [] => []
  | [_] => []
  | arg :: target :: rest =>
    match operatorOf arg with
    | none => redirections stale (target :: rest)
    | some operator => ⟨operator, target, stale rest.length⟩ :: redirections stale rest

/-- The arguments that are the command and its own arguments. -/
def words : List CString → List CString
  | [] => []
  | [arg] => [arg]
  | arg :: target :: rest =>
    match operatorOf arg with
    | none => arg :: words (target :: rest)
    | some _ => words rest

/-- A redirection that the loop comes to, and the state of the file system there. -/
structure Attempt (σ : Type*) where
  redirection : Redirection
  files : σ

section
variable {σ : Type*} (fs : Services σ)

def finds (files : σ) (path : CString) : Bool :=
  0 < (fs.vfsOpen files path).2.1 ∧ (fs.vfsOpen files path).2.2 = true

def Attempt.path (a : Attempt σ) : CString × Bool :=
  pathOf (fs.getCurrentPath a.files) a.redirection.target a.redirection.stale

/-- The state in which the node is opened, or in which that fails for good. -/
def Attempt.prepared (a : Attempt σ) : σ :=
  match a.redirection.operator with
  | .input => a.files
  | .output => fs.writeFile (fs.deleteFile a.files (a.path fs).1) (a.path fs).1 blank
  | .append =>
    if finds fs a.files (a.path fs).1 then a.files
    else fs.writeFile (fs.vfsOpen a.files (a.path fs).1).1 (a.path fs).1 blank

def Attempt.opens (a : Attempt σ) : Bool := finds fs (a.prepared fs) (a.path fs).1

def Attempt.after (a : Attempt σ) : σ := (fs.vfsOpen (a.prepared fs) (a.path fs).1).1

/-- The redirections up to the first that fails. -/
def attempts : σ → List Redirection → List (Attempt σ)
  | _, [] => []
  | files, redirection :: rest =>
    let a : Attempt σ := ⟨redirection, files⟩
    a :: if a.opens fs then attempts (a.after fs) rest else []

def Attempt.reads (a : Attempt σ) : Bool := a.redirection.operator = .input

/-- `fat16_delete_file` or `fat16_write_file` is called with a path that was rejected. -/
def Attempt.Strays (a : Attempt σ) : Prop :=
  (a.path fs).2 = false ∧ (a.redirection.operator = .output ∨
    a.redirection.operator = .append ∧ finds fs a.files (a.path fs).1 = false)

/-- A redirection that fails finds no node open on the other side, redirections come
with a command, and no rejected path goes on to be deleted or written. -/
structure Clean (stale : Nat → CString) (files : σ) (argv : List CString) : Prop where
  oneSided : ∀ a ∈ attempts fs files (redirections stale argv), a.opens fs = false →
    ∀ other ∈ attempts fs files (redirections stale argv), other.reads = a.reads
  command : (∀ a ∈ attempts fs files (redirections stale argv), a.opens fs = true) →
    words argv ≠ [] ∨ redirections stale argv = []
  resolved : ∀ a ∈ attempts fs files (redirections stale argv), ¬a.Strays fs

/-- Beside `refs`, which there were before, the new task's references are left. -/
structure Settled (refs : Multiset Nat) (o : Outcome σ) : Prop where
  once : ∀ n, Call.opened n ∈ o.block.calls → o.block.calls.count (.closed n) = 1
  balanced : Balanced o.block.vfs (heldBy o.table + refs)
  unchanged : ∀ path, Call.changed path false ∉ o.block.calls

end

/-! ## Nodes that are open -/

/-- `due` are the references of the block, each to a node that it opened and has
not closed yet. -/
structure Ledger (refs due : Multiset Nat) (vfs : Vfs) (calls : List Call) : Prop where
  balanced : Balanced vfs (due + refs)
  once : ∀ n, Call.opened n ∈ calls → calls.count (.closed n) + due.count n = 1
  opened : ∀ n ∈ due, Call.opened n ∈ calls

/-- The nodes that are noted are older than any new one. -/
def Known (vfs : Vfs) (calls : List Call) : Prop :=
  ∀ n, Call.opened n ∈ calls ∨ Call.closed n ∈ calls → n < vfs.nextNode

section
variable {σ : Type*} {fs : Services σ} {b : Block σ} {refs due : Multiset Nat} {vfs : Vfs} {calls : List Call}
  {node pipeIn pipeOut : Option Nat} {path : CString × Bool} {a : Attempt σ}

theorem pipeVfsClose_next (side : PipeEnd) (v : Vfs) (n : Nat) : (pipeVfsClose side v n).nextNode = v.nextNode := by
  unfold pipeVfsClose
  split
  · rfl
  · dsimp only [freeNode]
    split <;> rfl

theorem closeNode_next (v : Vfs) (n : Nat) : (closeNode v n).nextNode = v.nextNode := by
  unfold closeNode
  split
  · rfl
  · rfl
  · exact pipeVfsClose_next .read v n
  · exact pipeVfsClose_next .write v n

theorem vfsClose_next (v : Vfs) (node : Option Nat) : (vfsClose v node).nextNode = v.nextNode := by
  cases node with
  | none => rfl
  | some n =>
    unfold vfsClose vfsRelease
    dsimp only
    split
    · split
      · exact closeNode_next _ _
      · rfl
    · split
      · exact closeNode_next _ _
      · rfl

theorem ledger_changed (ledger : Ledger refs due vfs calls) (path : CString) (resolved : Bool) :
    Ledger refs due vfs (calls ++ [.changed path resolved]) := by
  refine ⟨ledger.balanced, fun n opened => ?_, fun n member => List.mem_append_left _ (ledger.opened n member)⟩
  have earlier : Call.opened n ∈ calls := by simpa using opened
  simpa using ledger.once n earlier

theorem ledger_close (ledger : Ledger refs (holding node + due) b.vfs b.calls) :
    Ledger refs due (b.close node).vfs (b.close node).calls := by
  have balanced := ledger.balanced
  rw [add_assoc] at balanced
  refine ⟨balanced_release balanced, fun n opened => ?_, fun n member => ?_⟩
  · have earlier : Call.opened n ∈ b.calls := by
      cases node <;> simpa [Block.close] using opened
    have once := ledger.once n earlier
    cases node with
    | none => simpa [Block.close, holding] using once
    | some m =>
      rw [holding, Multiset.count_add, Multiset.count_singleton] at once
      dsimp only [Block.close, Option.map, Option.toList]
      rw [List.count_append, List.count_singleton]
      by_cases same : n = m
      · subst same
        simp only [↓reduceIte, beq_self_eq_true] at once ⊢
        omega
      · have other : (Call.closed m == Call.closed n) = false := by simpa using fun h => same h.symm
        rw [if_neg same] at once
        rw [other]
        simpa using once
  · exact List.mem_append_left _ (ledger.opened n (Multiset.mem_add.mpr (Or.inr member)))

theorem ledger_open (fs : Services σ) (b : Block σ) (ledger : Ledger refs due b.vfs b.calls)
    (known : Known b.vfs b.calls) (path : CString) :
    Ledger refs (holding (b.vfsOpen fs path).2 + due) (b.vfsOpen fs path).1.vfs (b.vfsOpen fs path).1.calls ∧
      Known (b.vfsOpen fs path).1.vfs (b.vfsOpen fs path).1.calls := by
  have balanced := balanced_fat16VfsOpen ledger.balanced (nodeName path) (fs.vfsOpen b.files path).2.1
    (fs.vfsOpen b.files path).2.2
  rw [← add_assoc] at balanced
  unfold Block.vfsOpen
  dsimp only
  unfold fat16VfsOpen at balanced ⊢
  split
  · rename_i granted
    rw [if_pos granted] at balanced
    have unopened : Call.opened b.vfs.nextNode ∉ b.calls :=
      fun opened => absurd (known _ (Or.inl opened)) (lt_irrefl _)
    have unclosed : Call.closed b.vfs.nextNode ∉ b.calls :=
      fun closed => absurd (known _ (Or.inr closed)) (lt_irrefl _)
    have unheld : b.vfs.nextNode ∉ due := fun member => unopened (ledger.opened _ member)
    dsimp only [Option.map, Option.toList]
    refine ⟨⟨balanced, fun n opened => ?_, fun n member => ?_⟩, fun n noted => ?_⟩
    · rw [List.count_append, List.count_singleton, holding, Multiset.count_add, Multiset.count_singleton]
      by_cases fresh : n = b.vfs.nextNode
      · subst fresh
        rw [List.count_eq_zero.mpr unclosed, Multiset.count_eq_zero.mpr unheld]
        simp
      · have earlier : Call.opened n ∈ b.calls := by simpa [fresh] using opened
        have once := ledger.once n earlier
        simpa [fresh] using once
    · rcases Multiset.mem_add.mp member with new | old
      · rw [holding, Multiset.mem_singleton] at new
        simp [new]
      · exact List.mem_append_left _ (ledger.opened n old)
    · by_cases fresh : n = b.vfs.nextNode
      · exact fresh ▸ Nat.lt_succ_self _
      · exact Nat.lt_succ_of_lt (known n (by simpa [fresh] using noted))
  · rename_i refused
    rw [if_neg refused] at balanced
    rw [holding, zero_add] at balanced ⊢
    simpa [Option.map, Option.toList] using And.intro (Ledger.mk balanced ledger.once ledger.opened) known

theorem opened_finds (b : Block σ) (path : CString) : (b.vfsOpen fs path).2.isSome = finds fs b.files path := by
  unfold Block.vfsOpen fat16VfsOpen finds
  dsimp only
  split
  · rename_i granted
    rw [decide_eq_true granted]
    rfl
  · rename_i refused
    rw [decide_eq_false refused]
    rfl

/-! ## One redirection -/

def Block.heldIn (b : Block σ) : Multiset Nat := if b.shouldCloseIn then holding b.inNode else 0

def Block.heldOut (b : Block σ) : Multiset Nat := if b.shouldCloseOut then holding b.outNode else 0

/-- What holds at each argument. -/
structure Running (refs : Multiset Nat) (pipeIn pipeOut : Option Nat) (b : Block σ) : Prop where
  ledger : Ledger refs (Block.heldIn b + Block.heldOut b) b.vfs b.calls
  known : Known b.vfs b.calls
  inNode : if b.shouldCloseIn then b.inNode ≠ none else b.inNode = pipeIn
  outNode : if b.shouldCloseOut then b.outNode ≠ none else b.outNode = pipeOut

/-- What a redirection makes of the block. -/
structure Redirected (fs : Services σ) (refs : Multiset Nat) (pipeIn pipeOut : Option Nat) (b : Block σ)
    (a : Attempt σ)
    (r : Block σ × Bool) : Prop where
  answer : r.2 = a.opens fs
  strayed : (∃ path, Call.changed path false ∈ r.1.calls) ↔
    (∃ path, Call.changed path false ∈ b.calls) ∨ a.Strays fs
  newArgv : r.1.newArgv = b.newArgv
  opened : a.opens fs = true → Running refs pipeIn pipeOut r.1 ∧ r.1.files = a.after fs ∧
    r.1.shouldCloseIn = (b.shouldCloseIn || a.reads) ∧ r.1.shouldCloseOut = (b.shouldCloseOut || !a.reads)
  failed : a.opens fs = false →
    Ledger refs (if a.reads then Block.heldOut b else Block.heldIn b) r.1.vfs r.1.calls

theorem close_known (known : Known b.vfs b.calls) (older : ∀ n, node = some n → n < b.vfs.nextNode) :
    Known (b.close node).vfs (b.close node).calls := by
  intro n noted
  dsimp only [Block.close]
  rw [vfsClose_next]
  cases node with
  | none => exact known n (by simpa [Block.close] using noted)
  | some m =>
    by_cases same : n = m
    · exact same ▸ older m rfl
    · exact known n (by simpa [Block.close, same] using noted)

theorem held_older (ledger : Ledger refs (holding node + due) vfs calls) (known : Known vfs calls) :
    ∀ n, node = some n → n < vfs.nextNode := by
  rintro n rfl
  exact known n (Or.inl (ledger.opened n (Multiset.mem_add.mpr (Or.inl (Multiset.mem_singleton_self n)))))

theorem strayed_close (b : Block σ) (node : Option Nat) :
    (∃ path, Call.changed path false ∈ (b.close node).calls) ↔ ∃ path, Call.changed path false ∈ b.calls := by
  cases node <;> simp [Block.close]

theorem strayed_open (fs : Services σ) (b : Block σ) (path : CString) :
    (∃ other, Call.changed other false ∈ (b.vfsOpen fs path).1.calls) ↔
      ∃ other, Call.changed other false ∈ b.calls := by
  unfold Block.vfsOpen
  dsimp only
  cases (fat16VfsOpen b.vfs (nodeName path) (fs.vfsOpen b.files path).2.1 (fs.vfsOpen b.files path).2.2).2 <;> simp

/-- The blocks differ in the file system, the nodes and the notes alone. -/
structure Alike (b c : Block σ) : Prop where
  inNode : c.inNode = b.inNode
  outNode : c.outNode = b.outNode
  shouldCloseIn : c.shouldCloseIn = b.shouldCloseIn
  shouldCloseOut : c.shouldCloseOut = b.shouldCloseOut
  newArgv : c.newArgv = b.newArgv

/-- The node of a side is closed where one is open. -/
theorem ledger_side (b : Block σ) (flag : Bool)
    (ledger : Ledger refs ((if flag then holding node else 0) + due) b.vfs b.calls) :
    let c := if flag then b.close node else b
    Ledger refs due c.vfs c.calls ∧ Alike b c := by
  cases flag with
  | true => exact ⟨ledger_close ledger, rfl, rfl, rfl, rfl, rfl⟩
  | false =>
    rw [if_neg Bool.false_ne_true, zero_add] at ledger
    exact ⟨ledger, rfl, rfl, rfl, rfl, rfl⟩

theorem close_side (b : Block σ) (flag : Bool)
    (ledger : Ledger refs ((if flag then holding node else 0) + due) b.vfs b.calls)
    (known : Known b.vfs b.calls) :
    let c := if flag then b.close node else b
    Alike b c ∧ c.files = b.files ∧ Ledger refs due c.vfs c.calls ∧ Known c.vfs c.calls ∧
      ((∃ path, Call.changed path false ∈ c.calls) ↔ ∃ path, Call.changed path false ∈ b.calls) := by
  obtain ⟨closed, alike⟩ := ledger_side b flag ledger
  cases flag with
  | true => exact ⟨alike, rfl, closed, close_known known (held_older ledger known), strayed_close b node⟩
  | false => exact ⟨alike, rfl, closed, known, Iff.rfl⟩

theorem redirectInput_redirected (running : Running refs pipeIn pipeOut b) (there : a.files = b.files)
    (operator : a.redirection.operator = .input) :
    Redirected fs refs pipeIn pipeOut b a (redirectInput fs b (a.path fs)) := by
  have prepared : a.prepared fs = b.files := by
    unfold Attempt.prepared
    rw [operator]
    exact there
  have reads : a.reads = true := decide_eq_true operator
  have plain : ¬a.Strays fs := by
    unfold Attempt.Strays
    rw [operator]
    simp
  obtain ⟨alike, files, ledger, known, strayed⟩ := close_side b b.shouldCloseIn running.ledger running.known
  generalize closed : (if b.shouldCloseIn then b.close b.inNode else b) = c at alike files ledger known strayed
  obtain ⟨ledger, known⟩ := ledger_open fs c ledger known (a.path fs).1
  have answer : (c.vfsOpen fs (a.path fs).1).2.isSome = a.opens fs := by
    rw [opened_finds, files, Attempt.opens, prepared]
  have strayed := (strayed_open fs c (a.path fs).1).trans strayed
  have after : (c.vfsOpen fs (a.path fs).1).1.files = a.after fs := by
    rw [Attempt.after, prepared, ← files]
    rfl
  unfold redirectInput
  rw [closed]
  dsimp only
  cases node : (c.vfsOpen fs (a.path fs).1).2 with
  | none =>
    rw [node] at ledger answer
    rw [if_pos rfl]
    rw [holding, zero_add] at ledger
    refine ⟨answer, strayed.trans (or_iff_left plain).symm, alike.newArgv, fun opens => ?_, fun _ => ?_⟩
    · rw [← answer] at opens
      cases opens
    · rw [if_pos reads]
      exact ledger
  | some n =>
    rw [node] at ledger answer
    rw [if_neg (Option.some_ne_none n)]
    refine ⟨answer, strayed.trans (or_iff_left plain).symm, alike.newArgv, fun _ =>
      ⟨⟨?_, known, (fun none => by cases none), ?_⟩, after, ?_, ?_⟩,
      fun fails => ?_⟩
    · have other : (if c.shouldCloseOut then holding c.outNode else 0) = Block.heldOut b := by
        rw [alike.shouldCloseOut, alike.outNode]
        rfl
      rw [← other] at ledger
      exact ledger
    · have outNode := running.outNode
      rw [← alike.shouldCloseOut, ← alike.outNode] at outNode
      exact outNode
    · rw [reads, Bool.or_true]
    · rw [reads, Bool.not_true, Bool.or_false]
      exact alike.shouldCloseOut
    · rw [← answer] at fails
      cases fails

/-- The end that both redirections of the output have. -/
theorem output_redirected {opened : Block σ × Option Nat} (running : Running refs pipeIn pipeOut b)
    (alike : Alike b opened.1) (ledger : Ledger refs (holding opened.2 + Block.heldIn b) opened.1.vfs opened.1.calls)
    (known : Known opened.1.vfs opened.1.calls) (reads : a.reads = false) (answer : opened.2.isSome = a.opens fs)
    (after : a.opens fs = true → opened.1.files = a.after fs)
    (strayed : (∃ path, Call.changed path false ∈ opened.1.calls) ↔
      (∃ path, Call.changed path false ∈ b.calls) ∨ a.Strays fs) (append : Bool) :
    Redirected fs refs pipeIn pipeOut b a
      (if opened.2 = none then ({ opened.1 with outNode := none }, false)
        else ({ opened.1 with outNode := opened.2, appendOut := append, shouldCloseOut := true }, true)) := by
  cases node : opened.2 with
  | none =>
    rw [node] at ledger answer
    rw [if_pos rfl]
    rw [holding, zero_add] at ledger
    refine ⟨answer, strayed, alike.newArgv, fun opens => ?_, fun _ => ?_⟩
    · rw [← answer] at opens
      cases opens
    · rw [if_neg (by rw [reads]; exact Bool.false_ne_true)]
      exact ledger
  | some n =>
    rw [node] at ledger answer
    rw [if_neg (Option.some_ne_none n)]
    refine ⟨answer, strayed, alike.newArgv, fun opens =>
      ⟨⟨?_, known, ?_, fun none => by cases none⟩, after opens, ?_, ?_⟩, fun fails => ?_⟩
    · have other : (if opened.1.shouldCloseIn then holding opened.1.inNode else 0) = Block.heldIn b := by
        rw [alike.shouldCloseIn, alike.inNode]
        rfl
      rw [← other, add_comm] at ledger
      exact ledger
    · have inNode := running.inNode
      rw [← alike.shouldCloseIn, ← alike.inNode] at inNode
      exact inNode
    · rw [reads, Bool.or_false]
      exact alike.shouldCloseIn
    · rw [reads, Bool.not_false, Bool.or_true]
    · rw [← answer] at fails
      cases fails

theorem known_changed (known : Known vfs calls) (path : CString) (resolved : Bool) :
    Known vfs (calls ++ [.changed path resolved]) := fun n noted => known n (by simpa using noted)

theorem strayed_changed (calls : List Call) (path : CString × Bool) :
    (∃ other, Call.changed other false ∈ calls ++ [.changed path.1 path.2]) ↔
      (∃ other, Call.changed other false ∈ calls) ∨ path.2 = false := by
  constructor
  · rintro ⟨other, member⟩
    rcases List.mem_append.mp member with old | new
    · exact Or.inl ⟨other, old⟩
    · cases path with
      | mk path resolved =>
        cases List.mem_singleton.mp new
        exact Or.inr rfl
  · rintro (⟨other, member⟩ | rejected)
    · exact ⟨other, List.mem_append_left _ member⟩
    · exact ⟨path.1, List.mem_append_right _ (rejected ▸ List.mem_singleton_self _)⟩

theorem redirectOutput_redirected (running : Running refs pipeIn pipeOut b) (there : a.files = b.files)
    (operator : a.redirection.operator = .output) :
    Redirected fs refs pipeIn pipeOut b a (redirectOutput fs b (a.path fs)) := by
  have reads : a.reads = false := decide_eq_false (by rw [operator]; nofun)
  have strays : a.Strays fs ↔ (a.path fs).2 = false := by
    unfold Attempt.Strays
    rw [operator]
    simp
  let changed := (b.deleteFile fs (a.path fs)).writeFile fs (a.path fs)
  have prepared : a.prepared fs = changed.files := by
    unfold Attempt.prepared
    rw [operator, there]
    rfl
  have ledger := ledger_changed (ledger_changed running.ledger (a.path fs).1 (a.path fs).2) (a.path fs).1 (a.path fs).2
  have known := known_changed (known_changed running.known (a.path fs).1 (a.path fs).2) (a.path fs).1 (a.path fs).2
  have strayed := (strayed_changed (b.calls ++ [.changed (a.path fs).1 (a.path fs).2]) (a.path fs)).trans
    (or_congr_left (strayed_changed b.calls (a.path fs)))
  rw [or_assoc, or_self, ← strays] at strayed
  rw [add_comm] at ledger
  obtain ⟨alike, files, ledger, known, closed⟩ := close_side changed b.shouldCloseOut ledger known
  obtain ⟨ledger, known⟩ := ledger_open fs _ ledger known (a.path fs).1
  refine output_redirected running ⟨alike.inNode, alike.outNode, alike.shouldCloseIn, alike.shouldCloseOut,
    alike.newArgv⟩ ledger known reads ?_ (fun _ => ?_) ?_ false
  · rw [opened_finds, files, Attempt.opens, prepared]
  · rw [Attempt.after, prepared, ← files]
    rfl
  · exact ((strayed_open fs _ _).trans closed).trans strayed

theorem redirectAppend_redirected (running : Running refs pipeIn pipeOut b) (there : a.files = b.files)
    (operator : a.redirection.operator = .append) :
    Redirected fs refs pipeIn pipeOut b a (redirectAppend fs b (a.path fs)) := by
  have reads : a.reads = false := decide_eq_false (by rw [operator]; nofun)
  have strays : a.Strays fs ↔ (a.path fs).2 = false ∧ finds fs b.files (a.path fs).1 = false := by
    unfold Attempt.Strays
    rw [operator, there]
    simp
  have prepared : a.prepared fs = if finds fs b.files (a.path fs).1 then b.files
      else fs.writeFile (fs.vfsOpen b.files (a.path fs).1).1 (a.path fs).1 blank := by
    unfold Attempt.prepared
    rw [operator, there]
  have ledger := running.ledger
  rw [add_comm] at ledger
  obtain ⟨alike, files, ledger, known, closed⟩ := close_side b b.shouldCloseOut ledger running.known
  unfold redirectAppend
  generalize (if b.shouldCloseOut then b.close b.outNode else b) = c at alike files ledger known closed ⊢
  extract_lets shut first opened
  obtain ⟨firstLedger, firstKnown⟩ := ledger_open fs c ledger known (a.path fs).1
  have found : first.2.isSome = finds fs b.files (a.path fs).1 := by rw [← files, ← opened_finds]
  have firstStrayed := (strayed_open fs c (a.path fs).1).trans closed
  suffices facts : Alike b opened.1 ∧
      (Ledger refs (holding opened.2 + Block.heldIn b) opened.1.vfs opened.1.calls ∧
        Known opened.1.vfs opened.1.calls) ∧
      opened.2.isSome = a.opens fs ∧ opened.1.files = a.after fs ∧
      ((∃ path, Call.changed path false ∈ opened.1.calls) ↔
        (∃ path, Call.changed path false ∈ b.calls) ∨ a.Strays fs) by
    obtain ⟨alike, ⟨ledger, known⟩, answer, after, strayed⟩ := facts
    exact output_redirected running alike ledger known reads answer (fun _ => after) strayed true
  by_cases missing : first.2 = none
  · have again : opened = (first.1.writeFile fs (a.path fs)).vfsOpen fs (a.path fs).1 := if_pos missing
    have lost : finds fs b.files (a.path fs).1 = false := by rw [← found, missing, Option.isSome_none]
    change Ledger refs (holding first.2 + Block.heldIn b) first.1.vfs first.1.calls at firstLedger
    rw [missing, holding, zero_add] at firstLedger
    rw [lost, if_neg Bool.false_ne_true] at prepared
    have wrote := ledger_changed firstLedger (a.path fs).1 (a.path fs).2
    have wroteKnown := known_changed firstKnown (a.path fs).1 (a.path fs).2
    have second := ledger_open fs (first.1.writeFile fs (a.path fs)) wrote wroteKnown (a.path fs).1
    have states : (first.1.writeFile fs (a.path fs)).files = a.prepared fs := by
      rw [prepared, ← files]
      rfl
    rw [again]
    refine ⟨⟨alike.inNode, alike.outNode, alike.shouldCloseIn, alike.shouldCloseOut, alike.newArgv⟩, second, ?_,
      ?_, ?_⟩
    · rw [opened_finds, states, Attempt.opens]
    · rw [Attempt.after, ← states]
      rfl
    · rw [strays, strayed_open, and_iff_left lost]
      exact (strayed_changed _ _).trans (or_congr_left firstStrayed)
  · have once : opened = first := if_neg missing
    have there : finds fs b.files (a.path fs).1 = true := by rw [← found, Option.isSome_iff_ne_none]; exact missing
    rw [there, if_pos rfl] at prepared
    rw [once]
    refine ⟨⟨alike.inNode, alike.outNode, alike.shouldCloseIn, alike.shouldCloseOut, alike.newArgv⟩,
      ⟨firstLedger, firstKnown⟩, ?_, ?_, ?_⟩
    · rw [found, Attempt.opens, prepared]
    · rw [Attempt.after, prepared, ← files]
      rfl
    · rw [strays, there]
      exact firstStrayed.trans (or_iff_left fun both => Bool.noConfusion both.2).symm

theorem redirectTo_redirected (running : Running refs pipeIn pipeOut b) (there : a.files = b.files) :
    Redirected fs refs pipeIn pipeOut b a (redirectTo fs a.redirection.operator b (a.path fs)) := by
  cases operator : a.redirection.operator with
  | input => exact redirectInput_redirected running there operator
  | output => exact redirectOutput_redirected running there operator
  | append => exact redirectAppend_redirected running there operator

/-! ## The loop -/

theorem addWord_running (running : Running refs pipeIn pipeOut b) (word : CString) :
    Running refs pipeIn pipeOut (b.addWord word) := by
  unfold Block.addWord
  split
  · exact ⟨running.ledger, running.known, running.inNode, running.outNode⟩
  · exact running

theorem addWord_some (b : Block σ) (word : CString) : (b.addWord word).newArgv ≠ [] := by
  unfold Block.addWord
  split
  · exact List.append_ne_nil_of_right_ne_nil _ (List.cons_ne_nil _ _)
  · rename_i full
    intro none
    rw [none] at full
    exact full (by decide)

theorem heldIn_zero (running : Running refs pipeIn pipeOut b) : Block.heldIn b = 0 ↔ b.shouldCloseIn = false := by
  have inNode := running.inNode
  unfold Block.heldIn
  cases flag : b.shouldCloseIn with
  | false => simp
  | true =>
    rw [flag, if_pos rfl] at inNode
    obtain ⟨n, some⟩ := Option.ne_none_iff_exists'.mp inNode
    simp [some, holding]

theorem heldOut_zero (running : Running refs pipeIn pipeOut b) : Block.heldOut b = 0 ↔ b.shouldCloseOut = false := by
  have outNode := running.outNode
  unfold Block.heldOut
  cases flag : b.shouldCloseOut with
  | false => simp
  | true =>
    rw [flag, if_pos rfl] at outNode
    obtain ⟨n, some⟩ := Option.ne_none_iff_exists'.mp outNode
    simp [some, holding]

theorem held_zero (running : Running refs pipeIn pipeOut b) :
    Block.heldIn b + Block.heldOut b = 0 ↔ b.shouldCloseIn = false ∧ b.shouldCloseOut = false := by
  rw [← heldIn_zero running, ← heldOut_zero running, ← Multiset.card_eq_zero, Multiset.card_add,
    Nat.add_eq_zero_iff,
    Multiset.card_eq_zero, Multiset.card_eq_zero]

/-- What the loop makes of a block, given the redirections that it comes to. -/
structure Scanned (fs : Services σ) (refs : Multiset Nat) (pipeIn pipeOut : Option Nat) (b : Block σ)
    (tried : List (Attempt σ)) (words : List CString) (r : Block σ × Bool) : Prop where
  strayed : (∃ path, Call.changed path false ∈ r.1.calls) ↔
    (∃ path, Call.changed path false ∈ b.calls) ∨ ∃ a ∈ tried, a.Strays fs
  done : (∀ a ∈ tried, a.opens fs = true) → r.2 = true ∧ Running refs pipeIn pipeOut r.1 ∧
    (r.1.newArgv = [] ↔ b.newArgv = [] ∧ words = []) ∧
    (r.1.shouldCloseIn = true ↔ b.shouldCloseIn = true ∨ ∃ a ∈ tried, a.reads = true) ∧
    (r.1.shouldCloseOut = true ↔ b.shouldCloseOut = true ∨ ∃ a ∈ tried, a.reads = false)
  failed : ∀ a ∈ tried, a.opens fs = false → r.2 = false ∧ ∃ due, Ledger refs due r.1.vfs r.1.calls ∧
    (due = 0 ↔ (if a.reads then b.shouldCloseOut else b.shouldCloseIn) = false ∧
      ∀ other ∈ tried, other.reads = a.reads)

theorem scanned_word {tried : List (Attempt σ)} {arg : CString} {rest : List CString} {r : Block σ × Bool}
    (scanned : Scanned fs refs pipeIn pipeOut (b.addWord arg) tried rest r) :
    Scanned fs refs pipeIn pipeOut b tried (arg :: rest) r := by
  have some := addWord_some b arg
  have same : (b.addWord arg).calls = b.calls ∧ (b.addWord arg).shouldCloseIn = b.shouldCloseIn ∧
      (b.addWord arg).shouldCloseOut = b.shouldCloseOut := by
    unfold Block.addWord
    split <;> exact ⟨rfl, rfl, rfl⟩
  obtain ⟨strayed, done, failed⟩ := scanned
  rw [same.1] at strayed
  rw [same.2.1, same.2.2] at done failed
  refine ⟨strayed, fun opens => ?_, failed⟩
  obtain ⟨answer, running, newArgv, flags⟩ := done opens
  have wordy : (b.addWord arg).newArgv = [] ∧ rest = [] ↔ b.newArgv = [] ∧ arg :: rest = [] :=
    iff_of_false (fun both => some both.1) fun both => List.cons_ne_nil _ _ both.2
  exact ⟨answer, running, newArgv.trans wordy, flags⟩

/-- The redirection fails, and the loop ends with it. -/
theorem scanned_failed {words : List CString} {r : Block σ × Bool} (running : Running refs pipeIn pipeOut b)
    (done : Redirected fs refs pipeIn pipeOut b a r) (fails : a.opens fs = false) :
    Scanned fs refs pipeIn pipeOut b [a] words (r.1, false) := by
  refine ⟨?_, fun opens => ?_, ?_⟩
  · simpa using done.strayed
  · rw [opens a List.mem_cons_self] at fails
    cases fails
  · intro other member _
    rw [List.mem_singleton.mp member]
    refine ⟨rfl, _, done.failed fails, ?_⟩
    cases reads : a.reads with
    | true => simpa [reads] using heldOut_zero running
    | false => simpa [reads] using heldIn_zero running

theorem scanned_opened {tried : List (Attempt σ)} {words : List CString} {r last : Block σ × Bool}
    (done : Redirected fs refs pipeIn pipeOut b a r) (opens : a.opens fs = true)
    (rest : Scanned fs refs pipeIn pipeOut r.1 tried words last) :
    Scanned fs refs pipeIn pipeOut b (a :: tried) words last := by
  obtain ⟨running, files, flagIn, flagOut⟩ := done.opened opens
  refine ⟨?_, fun all => ?_, fun other member fails => ?_⟩
  · rw [rest.strayed, done.strayed]
    simp only [List.mem_cons, exists_eq_or_imp, or_assoc]
  · obtain ⟨answer, running, newArgv, closesIn, closesOut⟩ := rest.done fun other member =>
      all other (List.mem_cons_of_mem _ member)
    refine ⟨answer, running, done.newArgv ▸ newArgv, ?_, ?_⟩
    · rw [closesIn, flagIn, Bool.or_eq_true]
      simp only [List.mem_cons, exists_eq_or_imp, or_assoc]
    · rw [closesOut, flagOut, Bool.or_eq_true, Bool.not_eq_true']
      simp only [List.mem_cons, exists_eq_or_imp, or_assoc]
  · have later : other ∈ tried := by
      rcases List.mem_cons.mp member with same | later
      · rw [same, opens] at fails
        cases fails
      · exact later
    obtain ⟨answer, due, ledger, zero⟩ := rest.failed other later fails
    refine ⟨answer, due, ledger, zero.trans ?_⟩
    rw [flagIn, flagOut, List.forall_mem_cons, ← and_assoc]
    refine and_congr_left fun _ => ?_
    cases other.reads <;> cases a.reads <;> simp

theorem scanned_nil (running : Running refs pipeIn pipeOut b) : Scanned fs refs pipeIn pipeOut b [] [] (b, true) := by
  refine ⟨?_, fun _ => ⟨rfl, running, ?_, ?_, ?_⟩, nofun⟩ <;> simp

theorem addWord_files (b : Block σ) (word : CString) : (b.addWord word).files = b.files := by
  unfold Block.addWord
  split <;> rfl

theorem redirectLoop_scanned (fs : Services σ) (running : Running refs pipeIn pipeOut b)
    (stale : Nat → CString) (argv : List CString) :
    Scanned fs refs pipeIn pipeOut b (attempts fs b.files (redirections stale argv)) (words argv)
      (redirectLoop fs stale b argv) := by
  induction argv using redirections.induct generalizing b with
  | case1 => exact scanned_nil running
  | case2 arg =>
    rw [words, redirectLoop]
    exact scanned_word (scanned_nil (addWord_running running arg))
  | case3 arg target rest word ih =>
    rw [words, redirectLoop, redirections, word]
    dsimp only
    rw [← addWord_files b arg]
    exact scanned_word (ih (addWord_running running arg))
  | case4 arg target rest operator redirects ih =>
    let a : Attempt σ := ⟨⟨operator, target, stale rest.length⟩, b.files⟩
    have done : Redirected fs refs pipeIn pipeOut b a (redirectTo fs operator b (a.path fs)) :=
      redirectTo_redirected running rfl
    rw [words, redirectLoop, redirections, redirects, attempts]
    change Scanned fs refs pipeIn pipeOut b
      (a :: if a.opens fs then attempts fs (a.after fs) (redirections stale rest) else []) (words rest)
      (if (redirectTo fs operator b (a.path fs)).2 then
          redirectLoop fs stale (redirectTo fs operator b (a.path fs)).1 rest
        else ((redirectTo fs operator b (a.path fs)).1, false))
    rw [done.answer]
    cases opens : a.opens fs with
    | true =>
      obtain ⟨running, files, -⟩ := done.opened opens
      rw [if_pos rfl, if_pos rfl]
      have rest := ih running
      rw [files] at rest
      exact scanned_opened done opens rest
    | false =>
      rw [if_neg Bool.false_ne_true, if_neg Bool.false_ne_true]
      exact scanned_failed running done opens

/-! ## The command -/

theorem loadAndSpawn_balanced (fs : Services σ) (files : σ) (argv : List CString) {inNode outNode : Option Nat}
    (balanced : Balanced vfs refs) (reads : ∀ n, inNode = some n → n ∈ refs)
    (writes : ∀ n, outNode = some n → n ∈ refs)
    (path : CString) :
    let spawned := loadAndSpawn fs files vfs path argv inNode outNode
    Balanced spawned.vfs (heldBy spawned.table + refs) := by
  have spawns := balanced_elfLoadAndSpawn balanced (fs.load files path argv).1.found (nodeName path)
    (fs.load files path argv).1.fileSize (fs.load files path argv).1.granted (fs.load files path argv).1.loaded reads
    writes
  dsimp only [loadAndSpawn]
  revert spawns
  cases (elfLoadAndSpawn vfs (fs.load files path argv).1.found (nodeName path) (fs.load files path argv).1.fileSize
    (fs.load files path argv).1.granted (fs.load files path argv).1.loaded inNode outNode).2 with
  | none => exact fun balanced => by rwa [heldBy, Option.map_none, Option.getD_none, zero_add]
  | some table => exact fun sound => sound.balanced

theorem shellSpawnCommand_balanced (fs : Services σ) (files : σ) {inNode outNode : Option Nat}
    (balanced : Balanced vfs refs)
    (reads : ∀ n, inNode = some n → n ∈ refs) (writes : ∀ n, outNode = some n → n ∈ refs)
    (argv : List CString) :
    let spawned := shellSpawnCommand fs files vfs argv inNode outNode
    Balanced spawned.vfs (heldBy spawned.table + refs) := by
  have untouched {v : Vfs} {table : Option FdTable} (failed : ¬table.isSome = true)
      (balanced : Balanced v (heldBy table + refs)) : Balanced v refs := by
    rw [Option.not_isSome_iff_eq_none.mp failed] at balanced
    rwa [heldBy, Option.map_none, Option.getD_none, zero_add] at balanced
  cases argv with
  | nil =>
    dsimp only [shellSpawnCommand]
    rwa [heldBy, Option.map_none, Option.getD_none, zero_add]
  | cons name rest =>
    dsimp only [shellSpawnCommand]
    have plain := loadAndSpawn_balanced fs files (name :: rest) balanced reads writes
      (programPath name)
    split
    · exact plain
    · rename_i failed
      have balanced := untouched failed plain
      have system := loadAndSpawn_balanced fs
        (loadAndSpawn fs files vfs (programPath name) (name :: rest) inNode outNode).files (name :: rest) balanced reads
        writes (systemProgramPath (programPath name))
      split
      · exact system
      · rename_i failed
        exact loadAndSpawn_balanced fs _ _ (untouched failed system) reads writes _

theorem held_seek (b : Block σ) (vfs : Vfs) (table : FdTable) : held (seekOutput b vfs table) = held table := by
  have moved (offset : Nat) : held (Function.update table 1 { table 1 with currentOffset := offset }) = held table := by
    rw [held_update, held_eq table 1]
    rfl
  unfold seekOutput
  split
  · rfl
  · split
    · exact moved _
    · split
      · exact moved 0
      · rfl

theorem closeOpened_ledger (ledger : Ledger refs (Block.heldIn b + Block.heldOut b) b.vfs b.calls) :
    Ledger refs 0 b.closeOpened.vfs b.closeOpened.calls := by
  obtain ⟨ledger, alike⟩ := ledger_side b b.shouldCloseIn ledger
  have out : (if b.shouldCloseOut then holding b.outNode else 0) + 0 = Block.heldOut b := add_zero _
  rw [← out, ← alike.shouldCloseOut, ← alike.outNode] at ledger
  exact (ledger_side _ _ ledger).1

theorem strayed_closeOpened (b : Block σ) :
    (∃ path, Call.changed path false ∈ b.closeOpened.calls) ↔ ∃ path, Call.changed path false ∈ b.calls := by
  have first : (∃ path, Call.changed path false ∈ (if b.shouldCloseIn then b.close b.inNode else b).calls) ↔
      ∃ path, Call.changed path false ∈ b.calls := by
    split
    · exact strayed_close b b.inNode
    · exact Iff.rfl
  unfold Block.closeOpened
  dsimp only
  generalize (if b.shouldCloseIn then b.close b.inNode else b) = c at first
  split
  · exact (strayed_close c c.outNode).trans first
  · exact first

/-- A return that closes nothing is right where no node is open. -/
theorem settled_early (ledger : Ledger refs due b.vfs b.calls) :
    Settled refs ⟨b, none⟩ ↔ due = 0 ∧ ¬∃ path, Call.changed path false ∈ b.calls := by
  constructor
  · intro settled
    refine ⟨Multiset.eq_zero_of_forall_notMem fun n member => ?_,
      fun ⟨path, changed⟩ => settled.unchanged path changed⟩
    have opened := ledger.opened n member
    have once := ledger.once n opened
    rw [settled.once n opened] at once
    have open_ := Multiset.count_pos.mpr member
    omega
  · rintro ⟨none, unchanged⟩
    subst none
    refine ⟨fun n opened => ?_, ?_, fun path changed => unchanged ⟨path, changed⟩⟩
    · simpa using ledger.once n opened
    · exact ledger.balanced

/-- A return behind the closing calls, with the references of the new task. -/
theorem settled_closed (b : Block σ) (table : Option FdTable)
    (ledger : Ledger (heldBy table + refs) (Block.heldIn b + Block.heldOut b) b.vfs b.calls) :
    Settled refs ⟨b.closeOpened, table⟩ ↔ ¬∃ path, Call.changed path false ∈ b.calls := by
  have closed := closeOpened_ledger ledger
  rw [← strayed_closeOpened]
  constructor
  · exact fun settled ⟨path, changed⟩ => settled.unchanged path changed
  · intro unchanged
    refine ⟨fun n opened => ?_, ?_, fun path changed => unchanged ⟨path, changed⟩⟩
    · simpa using closed.once n opened
    · have balanced := closed.balanced
      rwa [zero_add] at balanced

theorem start_running (files : σ) (balanced : Balanced vfs refs) (pipeIn pipeOut : Option Nat) :
    Running refs pipeIn pipeOut ⟨files, vfs, pipeIn, pipeOut, false, false, false, [], []⟩ := by
  refine ⟨⟨?_, nofun, nofun⟩, nofun, rfl, rfl⟩
  rw [← zero_add refs] at balanced
  exact balanced

/-- A node that is in use is referenced. -/
theorem running_known (running : Running refs pipeIn pipeOut b) (reads : ∀ n, pipeIn = some n → n ∈ refs)
    (writes : ∀ n, pipeOut = some n → n ∈ refs) :
    (∀ n, b.inNode = some n → n ∈ Block.heldIn b + Block.heldOut b + refs) ∧
      ∀ n, b.outNode = some n → n ∈ Block.heldIn b + Block.heldOut b + refs := by
  have inNode := running.inNode
  have outNode := running.outNode
  unfold Block.heldIn Block.heldOut
  constructor
  · intro n leads
    cases flag : b.shouldCloseIn with
    | true => simp [leads, holding]
    | false =>
      rw [flag, if_neg Bool.false_ne_true, leads] at inNode
      exact Multiset.mem_add.mpr (Or.inr (reads n inNode.symm))
  · intro n leads
    cases flag : b.shouldCloseOut with
    | true => simp [leads, holding]
    | false =>
      rw [flag, if_neg Bool.false_ne_true, leads] at outNode
      exact Multiset.mem_add.mpr (Or.inr (writes n outNode.symm))

/-- A command that is there runs to the closing calls. -/
theorem settled_command (running : Running refs pipeIn pipeOut b) (reads : ∀ n, pipeIn = some n → n ∈ refs)
    (writes : ∀ n, pipeOut = some n → n ∈ refs) :
    Settled refs (runCommand fs b) ↔ ¬∃ path, Call.changed path false ∈ b.calls := by
  unfold runCommand
  cases built : builtIn fs b.files b.newArgv with
  | some files =>
    refine settled_closed { b with files := files } none ?_
    rw [heldBy, Option.map_none, Option.getD_none, zero_add]
    exact running.ledger
  | none =>
    dsimp only
    obtain ⟨reads, writes⟩ := running_known running reads writes
    have spawns := shellSpawnCommand_balanced fs b.files running.ledger.balanced reads writes b.newArgv
    dsimp only at spawns
    generalize shellSpawnCommand fs b.files b.vfs b.newArgv b.inNode b.outNode = spawned at spawns ⊢
    have same : heldBy (spawned.table.map (seekOutput b spawned.vfs)) = heldBy spawned.table := by
      cases spawned.table with
      | none => rfl
      | some table => exact held_seek b spawned.vfs table
    refine settled_closed { b with files := spawned.files, vfs := spawned.vfs } _
      ⟨?_, running.ledger.once, running.ledger.opened⟩
    rw [same]
    rw [← add_assoc, add_comm (heldBy spawned.table), add_assoc] at spawns
    exact spawns

theorem attempts_nil (fs : Services σ) (files : σ) {rs : List Redirection} :
    attempts fs files rs = [] ↔ rs = [] := by
  cases rs with
  | nil => simp [attempts]
  | cons r rs => simp [attempts]

theorem no_sides (tried : List (Attempt σ)) :
    (¬(false = true ∨ ∃ a ∈ tried, a.reads = true) ∧ ¬(false = true ∨ ∃ a ∈ tried, a.reads = false)) ↔
    tried = [] := by
  cases tried with
  | nil => simp
  | cons a tried => cases reads : a.reads <;> simp [reads]

/-- Every return path balances, and rejected paths change nothing, exactly where the
arguments are clean. -/
theorem executeCommandBlock_settled_iff (fs : Services σ) (stale : Nat → CString) (files : σ)
    (balanced : Balanced vfs refs) (reads : ∀ n, pipeIn = some n → n ∈ refs)
    (writes : ∀ n, pipeOut = some n → n ∈ refs)
    (argv : List CString) :
    Settled refs (executeCommandBlock fs stale files vfs argv pipeIn pipeOut) ↔ Clean fs stale files argv := by
  have scanned := redirectLoop_scanned fs (start_running files balanced pipeIn pipeOut) stale argv
  unfold executeCommandBlock
  dsimp only at scanned ⊢
  generalize redirectLoop fs stale ⟨files, vfs, pipeIn, pipeOut, false, false, false, [], []⟩ argv =
    r at scanned ⊢
  have strayed : (∃ path, Call.changed path false ∈ r.1.calls) ↔
      ∃ a ∈ attempts fs files (redirections stale argv), a.Strays fs := by
    simpa using scanned.strayed
  by_cases all : ∀ a ∈ attempts fs files (redirections stale argv), a.opens fs = true
  · obtain ⟨answer, running, newArgv, closesIn, closesOut⟩ := scanned.done all
    rw [if_neg (by rw [answer]; nofun)]
    have oneSided : ∀ a ∈ attempts fs files (redirections stale argv), a.opens fs = false →
        ∀ other ∈ attempts fs files (redirections stale argv), other.reads = a.reads := by
      intro a member fails
      rw [all a member] at fails
      cases fails
    by_cases none : r.1.newArgv = []
    · have wordless : words argv = [] := (newArgv.mp none).2
      have unopened : Block.heldIn r.1 + Block.heldOut r.1 = 0 ↔ redirections stale argv = [] := by
        rw [held_zero running, Bool.eq_false_iff, Bool.eq_false_iff, Ne, Ne, closesIn,
          closesOut, ← attempts_nil fs files]
        exact no_sides _
      rw [if_pos none, settled_early running.ledger, unopened, strayed]
      constructor
      · rintro ⟨empty, plain⟩
        exact ⟨oneSided, fun _ => Or.inr empty, fun a member strays => plain ⟨a, member, strays⟩⟩
      · intro clean
        exact ⟨(clean.command all).resolve_left fun some => some wordless,
          fun ⟨a, member, strays⟩ => clean.resolved a member strays⟩
    · have some : words argv ≠ [] := fun wordless => none (newArgv.mpr ⟨rfl, wordless⟩)
      rw [if_neg none, settled_command running reads writes, strayed]
      refine ⟨fun plain => ⟨oneSided, fun _ => Or.inl some, fun a member strays => plain ⟨a, member, strays⟩⟩,
        ?_⟩
      rintro clean ⟨a, member, strays⟩
      exact clean.resolved a member strays
  · push Not at all
    obtain ⟨a, member, fails⟩ := all
    have fails : a.opens fs = false := Bool.eq_false_iff.mpr fails
    obtain ⟨answer, due, ledger, zero⟩ := scanned.failed a member fails
    rw [if_pos answer, settled_early ledger, strayed]
    constructor
    · rintro ⟨none, plain⟩
      refine ⟨fun a' member' fails' => ?_, fun all => ?_, fun a' member' strays => plain ⟨a', member', strays⟩⟩
      · obtain ⟨-, due', ledger', zero'⟩ := scanned.failed a' member' fails'
        have settled := (settled_early ledger).mpr ⟨none, fun changed => plain (strayed.mp changed)⟩
        exact (zero'.mp ((settled_early ledger').mp settled).1).2
      · rw [all a member] at fails
        cases fails
    · intro clean
      refine ⟨zero.mpr ⟨?_, clean.oneSided a member fails⟩, fun ⟨a', member', strays⟩ =>
        clean.resolved a' member' strays⟩
      split <;> rfl

/-- Files of one byte, all of them known by their paths. -/
def plainFiles : Services (List CString) where
  getCurrentPath _ := [0x2F]
  vfsOpen files path := (files, if path ∈ files then 1 else 0, true)
  deleteFile files path := files.filter (· ≠ path)
  writeFile files path _ := path :: files
  chdir files _ := (0, files)
  load files _ _ := (⟨.unmounted, 0, false, false⟩, files)

def noNodes : Vfs :=
  ⟨fun _ => ⟨"", .file, 0, 0, false, none, none⟩, 0, fun _ => ⟨false, false⟩, 0, [], [], []⟩

theorem noNodes_balanced : Balanced noNodes 0 where
  counts := ⟨nofun, nofun, nofun, List.nodup_nil, nofun⟩
  rings := ⟨nofun, nofun, List.nodup_nil, nofun, nofun, nofun⟩

/-- `cat > /a < /b` -/
def catFromTo : List CString := [[0x63, 0x61, 0x74], [0x3E], [0x2F, 0x61], [0x3C], [0x2F, 0x62]]

/-- `cat > /..` -/
def catToParent : List CString := [[0x63, 0x61, 0x74], [0x3E], [0x2F, 0x2E, 0x2E]]

theorem executeCommandBlock_settled_iff_catFromTo :
    Settled 0 (executeCommandBlock plainFiles (fun _ => []) [] noNodes catFromTo none none) ↔
      Clean plainFiles (fun _ => []) [] catFromTo :=
  have no_pipe : ∀ n, (none : Option Nat) = some n → n ∈ (0 : Multiset Nat) := nofun
  executeCommandBlock_settled_iff plainFiles (fun _ => []) [] noNodes_balanced no_pipe no_pipe catFromTo

/-- Where `/b` is missing, the node of `/a` stays open. Where `/a` is left in the
buffer, the rejected path deletes it. -/
theorem redirections_unsettled :
    ¬Settled 0 (executeCommandBlock plainFiles (fun _ => []) [] noNodes catFromTo none none) ∧
      ¬Settled 0
        (executeCommandBlock plainFiles (fun _ => [0x2F, 0x61]) [[0x2F, 0x61]] noNodes catToParent none none) := by
  constructor
  · intro settled
    exact absurd (settled.once 0 (by decide +kernel)) (by decide +kernel)
  · intro settled
    exact settled.unchanged [0x2F, 0x61] (by decide +kernel)

end

end MeowMeowOS.ClosedRedirections

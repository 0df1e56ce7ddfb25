import Mathlib.Algebra.Order.Group.Multiset
import MeowMeowOS.VfsNodes

/-! What the reference counts say, given all the references there are: they are
right, no reference leads to a node that was freed, and a ring lives as long as
one of its two ends. -/
namespace MeowMeowOS.ReferenceCounts
open VfsNodes

/-- `refs` are all the references that anybody holds. -/
structure Counted (v : Vfs) (refs : Multiset Nat) : Prop where
  referenced : ∀ n ∈ refs, n < v.nextNode ∧ n ∉ v.freedNodes
  counted : ∀ n < v.nextNode, (v.nodes n).persistent = false → n ∉ v.freedNodes →
    n ∈ refs ∧ (v.nodes n).refCount = refs.count n
  freed : ∀ n ∈ v.freedNodes, n < v.nextNode ∧ (v.nodes n).persistent = false
  once : v.freedNodes.Nodup
  devices : ∀ n ∈ v.devfsNodes, n < v.nextNode ∧ (v.nodes n).persistent = true

/-- The two ends of a ring that has not been freed. -/
structure Shared (v : Vfs) (r : Nat) (ends : PipeEnd → Nat) : Prop where
  known : ∀ side, ends side < v.nextNode
  pointed : ∀ side, (v.nodes (ends side)).ptr = some r
  closing : ∀ side, (v.nodes (ends side)).close = some (.pipeVfsClose side)
  closed : ∀ side, (v.rings r).closed side = true ↔ ends side ∈ v.freedNodes
  only : ∀ n < v.nextNode, (v.nodes n).ptr = some r → ∃ side, n = ends side
  alive : ∃ side, ends side ∉ v.freedNodes

/-- The rings, but for those that are being built. -/
structure Ringed (v : Vfs) (building : Nat → Prop) : Prop where
  pointed : ∀ n < v.nextNode, ∀ r, (v.nodes n).ptr = some r → r < v.nextRing ∧ (v.nodes n).persistent = false
  closing : ∀ n < v.nextNode, ∀ side, (v.nodes n).close = some (.pipeVfsClose side) → (v.nodes n).ptr ≠ none
  once : v.freedRings.Nodup
  freed : ∀ r ∈ v.freedRings, r < v.nextRing ∧ ∀ n < v.nextNode, (v.nodes n).ptr = some r → n ∈ v.freedNodes
  unbuilt : ∀ r, building r → r < v.nextRing ∧ r ∉ v.freedRings
  shared : ∀ r < v.nextRing, r ∉ v.freedRings → ¬ building r → ∃ ends, Shared v r ends

structure Balanced (v : Vfs) (refs : Multiset Nat) : Prop where
  counts : Counted v refs
  rings : Ringed v fun _ => False

def holding : Option Nat → Multiset Nat
  | none => 0
  | some node => {node}

/-- `v'` is `v` after `n` was given back. Of the other nodes nothing changed. -/
structure GivenBack (v v' : Vfs) (n : Nat) : Prop where
  others : ∀ m, m ≠ n → v'.nodes m = v.nodes m
  persistent : (v'.nodes n).persistent = (v.nodes n).persistent
  next : v'.nextNode = v.nextNode
  devices : v'.devfsNodes = v.devfsNodes
  freed : v'.freedNodes = n :: v.freedNodes

section
variable {v v' : Vfs} {refs : Multiset Nat} {n m r k : Nat} {side : PipeEnd} {ends : PipeEnd → Nat} {node : VfsNode}

/-! ## Counts -/

theorem counted_new (balanced : Counted v refs) (one : node.refCount = 1) :
    Counted (newNode v node) (v.nextNode ::ₘ refs) := by
  have absent : v.nextNode ∉ refs := fun held => absurd (balanced.referenced _ held).1 (lt_irrefl _)
  have unfreed : v.nextNode ∉ v.freedNodes := fun held => absurd (balanced.freed _ held).1 (lt_irrefl _)
  refine ⟨?_, ?_, ?_, balanced.once, ?_⟩
  · intro m held
    rcases Multiset.mem_cons.mp held with rfl | held
    · exact ⟨Nat.lt_succ_self _, unfreed⟩
    · exact ⟨Nat.lt_succ_of_lt (balanced.referenced m held).1, (balanced.referenced m held).2⟩
  · intro m known mortal live
    dsimp only [newNode] at known mortal live ⊢
    by_cases fresh : m = v.nextNode
    · subst fresh
      rw [Function.update_self, one, Multiset.count_cons_self, Multiset.count_eq_zero.mpr absent]
      exact ⟨Multiset.mem_cons_self _ _, rfl⟩
    · rw [Function.update_of_ne fresh] at mortal ⊢
      obtain ⟨held, count⟩ := balanced.counted m (by omega) mortal live
      rw [Multiset.count_cons_of_ne fresh]
      exact ⟨Multiset.mem_cons_of_mem held, count⟩
  · intro m freed
    have earlier := balanced.freed m freed
    dsimp only [newNode]
    rw [Function.update_of_ne (by omega)]
    exact ⟨by omega, earlier.2⟩
  · intro m device
    have earlier := balanced.devices m device
    dsimp only [newNode]
    rw [Function.update_of_ne (by omega)]
    exact ⟨by omega, earlier.2⟩

/-- The last reference goes, and the node goes with it. -/
theorem counted_givenBack (balanced : Counted v refs) (last : refs = n ::ₘ rest) (absent : n ∉ rest)
    (mortal : (v.nodes n).persistent = false) (given : GivenBack v v' n) : Counted v' rest := by
  subst last
  have known := balanced.referenced n (Multiset.mem_cons_self _ _)
  have passing (m : Nat) : (v'.nodes m).persistent = (v.nodes m).persistent := by
    by_cases same : m = n
    · rw [same, given.persistent]
    · rw [given.others m same]
  refine ⟨?_, ?_, ?_, ?_, ?_⟩
  · intro m held
    have earlier := balanced.referenced m (Multiset.mem_cons_of_mem held)
    rw [given.next, given.freed, List.mem_cons, not_or]
    exact ⟨earlier.1, fun same => absent (same ▸ held), earlier.2⟩
  · intro m bound alive live
    rw [given.next] at bound
    rw [given.freed, List.mem_cons, not_or] at live
    rw [passing] at alive
    obtain ⟨held, count⟩ := balanced.counted m bound alive live.2
    rw [Multiset.count_cons_of_ne live.1] at count
    rw [given.others m live.1]
    exact ⟨(Multiset.mem_cons.mp held).resolve_left live.1, count⟩
  · intro m freed
    rw [given.freed, List.mem_cons] at freed
    rw [given.next, passing]
    rcases freed with rfl | freed
    · exact ⟨known.1, mortal⟩
    · exact balanced.freed m freed
  · rw [given.freed]
    exact List.nodup_cons.mpr ⟨known.2, balanced.once⟩
  · intro m device
    rw [given.devices] at device
    rw [given.next, passing]
    exact balanced.devices m device

theorem setRefCount_persistent (v : Vfs) (n k m : Nat) :
    ((setRefCount v n k).nodes m).persistent = (v.nodes m).persistent := by
  dsimp only [setRefCount]
  rw [Function.update_apply]
  split
  · rename_i same
    rw [same]
  · rfl

/-- A count that is stored anew, with the references it stands for. -/
theorem counted_setRefCount (balanced : Counted v refs) (others : ∀ m, m ≠ n → refs'.count m = refs.count m)
    (known : n < v.nextNode ∧ n ∉ v.freedNodes)
    (right : (v.nodes n).persistent = false → n ∈ refs' ∧ k = refs'.count n) :
    Counted (setRefCount v n k) refs' := by
  have member (m : Nat) (ne : m ≠ n) : m ∈ refs' ↔ m ∈ refs := by
    rw [← Multiset.count_pos, others m ne, Multiset.count_pos]
  refine ⟨?_, ?_, ?_, balanced.once, ?_⟩
  · intro m held
    by_cases same : m = n
    · exact same ▸ known
    · exact balanced.referenced m ((member m same).mp held)
  · intro m bound alive live
    rw [setRefCount_persistent] at alive
    dsimp only [setRefCount]
    by_cases same : m = n
    · subst same
      rw [Function.update_self]
      exact right alive
    · rw [Function.update_of_ne same, member m same, others m same]
      exact balanced.counted m bound alive live
  · intro m freed
    rw [setRefCount_persistent]
    exact balanced.freed m freed
  · intro m device
    rw [setRefCount_persistent]
    exact balanced.devices m device

theorem counted_retain (balanced : Counted v refs)
    (known : ∀ n, target = some n → n < v.nextNode ∧ n ∉ v.freedNodes) :
    Counted (vfsRetain v target) (holding target + refs) := by
  cases target with
  | none => rw [holding, zero_add]; exact balanced
  | some n =>
    have known := known n rfl
    have others (m : Nat) (ne : m ≠ n) : (n ::ₘ refs).count m = refs.count m := Multiset.count_cons_of_ne ne _
    rw [holding, Multiset.singleton_add, vfsRetain]
    split
    · rename_i persistent
      refine ⟨?_, ?_, balanced.freed, balanced.once, balanced.devices⟩
      · intro m held
        rcases Multiset.mem_cons.mp held with rfl | held
        · exact known
        · exact balanced.referenced m held
      · intro m bound mortal live
        have ne : m ≠ n := fun same => by simp [same, persistent] at mortal
        obtain ⟨held, count⟩ := balanced.counted m bound mortal live
        exact ⟨Multiset.mem_cons_of_mem held, by rw [count, others m ne]⟩
    · apply counted_setRefCount balanced others known
      intro mortal
      rw [Multiset.count_cons_self, (balanced.counted n known.1 mortal known.2).2]
      exact ⟨Multiset.mem_cons_self _ _, rfl⟩

/-! ## Rings -/

theorem ringed_setRefCount (ringed : Ringed v building) : Ringed (setRefCount v n k) building := by
  have ptr (m : Nat) : ((setRefCount v n k).nodes m).ptr = (v.nodes m).ptr := by
    dsimp only [setRefCount]
    rw [Function.update_apply]
    split <;> simp_all
  have close (m : Nat) : ((setRefCount v n k).nodes m).close = (v.nodes m).close := by
    dsimp only [setRefCount]
    rw [Function.update_apply]
    split <;> simp_all
  refine ⟨?_, ?_, ringed.once, ?_, ringed.unbuilt, ?_⟩
  · intro m known r found
    rw [setRefCount_persistent]
    exact ringed.pointed m known r (ptr m ▸ found)
  · intro m known side found
    rw [ptr]
    exact ringed.closing m known side (close m ▸ found)
  · intro r freed
    exact ⟨(ringed.freed r freed).1, fun m known found => (ringed.freed r freed).2 m known (ptr m ▸ found)⟩
  · intro r known live built
    obtain ⟨ends, shared⟩ := ringed.shared r known live built
    refine ⟨ends, shared.known, ?_, ?_, shared.closed, ?_, shared.alive⟩
    · intro side
      rw [ptr]
      exact shared.pointed side
    · intro side
      rw [close]
      exact shared.closing side
    · intro m known found
      exact shared.only m known (ptr m ▸ found)

theorem ringed_retain (ringed : Ringed v building) : Ringed (vfsRetain v target) building := by
  cases target with
  | none => exact ringed
  | some n =>
    rw [vfsRetain]
    split
    · exact ringed
    · exact ringed_setRefCount ringed

/-- A node comes that has no ring, or one that is being built. -/
theorem ringed_new (ringed : Ringed v building)
    (plain : ∀ r, node.ptr = some r → building r ∧ node.persistent = false)
    (closing : ∀ side, node.close = some (.pipeVfsClose side) → node.ptr ≠ none) :
    Ringed (newNode v node) building := by
  have same (m : Nat) (known : m < v.nextNode) : (newNode v node).nodes m = v.nodes m :=
    Function.update_of_ne (by omega) _ _
  have fresh : (newNode v node).nodes v.nextNode = node := Function.update_self _ _ _
  have old (m r : Nat) (known : m < v.nextNode + 1) (found : ((newNode v node).nodes m).ptr = some r)
      (built : ¬ building r) : m < v.nextNode := by
    rcases Nat.lt_succ_iff_lt_or_eq.mp known with known | rfl
    · exact known
    · rw [fresh] at found
      exact absurd (plain r found).1 built
  refine ⟨?_, ?_, ringed.once, ?_, ringed.unbuilt, ?_⟩
  · intro m known r found
    rcases Nat.lt_succ_iff_lt_or_eq.mp known with known | rfl
    · rw [same m known] at found ⊢
      exact ringed.pointed m known r found
    · rw [fresh] at found ⊢
      exact ⟨(ringed.unbuilt r (plain r found).1).1, (plain r found).2⟩
  · intro m known side found
    rcases Nat.lt_succ_iff_lt_or_eq.mp known with known | rfl
    · rw [same m known] at found ⊢
      exact ringed.closing m known side found
    · rw [fresh] at found ⊢
      exact closing side found
  · intro r freed
    refine ⟨(ringed.freed r freed).1, fun m known found => ?_⟩
    have known := old m r known found fun built => (ringed.unbuilt r built).2 freed
    exact (ringed.freed r freed).2 m known (same m known ▸ found)
  · intro r known live built
    obtain ⟨ends, shared⟩ := ringed.shared r known live built
    refine ⟨ends, fun side => Nat.lt_succ_of_lt (shared.known side), ?_, ?_, shared.closed, ?_, shared.alive⟩
    · intro side
      rw [same _ (shared.known side)]
      exact shared.pointed side
    · intro side
      rw [same _ (shared.known side)]
      exact shared.closing side
    · intro m known found
      have known := old m r known found built
      exact shared.only m known (same m known ▸ found)

/-- A node goes that has no ring, or one that is being built. -/
theorem ringed_freeNode (ringed : Ringed v building) (plain : ∀ r, (v.nodes n).ptr = some r → building r) :
    Ringed (freeNode v n) building := by
  refine ⟨ringed.pointed, ringed.closing, ringed.once, ?_, ringed.unbuilt, ?_⟩
  · intro r freed
    exact ⟨(ringed.freed r freed).1, fun m known found =>
      List.mem_cons_of_mem _ ((ringed.freed r freed).2 m known found)⟩
  · intro r known live built
    obtain ⟨ends, shared⟩ := ringed.shared r known live built
    have other (side : PipeEnd) : ends side ∈ n :: v.freedNodes ↔ ends side ∈ v.freedNodes := by
      rw [List.mem_cons, or_iff_right]
      intro same
      exact built (plain r (same ▸ shared.pointed side))
    refine ⟨ends, shared.known, shared.pointed, shared.closing, ?_, shared.only, ?_⟩
    · intro side
      exact (shared.closed side).trans (other side).symm
    · obtain ⟨side, alive⟩ := shared.alive
      exact ⟨side, fun freed => alive ((other side).mp freed)⟩

theorem ringed_newRing (ringed : Ringed v fun _ => False) : Ringed (newRing v) (· = v.nextRing) := by
  have unfreed : v.nextRing ∉ v.freedRings := fun freed => absurd (ringed.freed _ freed).1 (lt_irrefl _)
  refine ⟨?_, ringed.closing, ringed.once, ?_, ?_, ?_⟩
  · intro n known r found
    exact ⟨Nat.lt_succ_of_lt (ringed.pointed n known r found).1, (ringed.pointed n known r found).2⟩
  · intro r freed
    exact ⟨Nat.lt_succ_of_lt (ringed.freed r freed).1, (ringed.freed r freed).2⟩
  · rintro r rfl
    exact ⟨Nat.lt_succ_self _, unfreed⟩
  · intro r known live built
    have known : r < v.nextRing := by
      dsimp only [newRing] at known
      omega
    obtain ⟨ends, shared⟩ := ringed.shared r known live id
    refine ⟨ends, shared.known, shared.pointed, shared.closing, ?_, shared.only, shared.alive⟩
    dsimp only [newRing]
    rw [Function.update_of_ne built]
    exact shared.closed

/-- The allocation of an end failed, and the ring goes again. -/
theorem ringed_freeRing (ringed : Ringed v (· = r))
    (ended : ∀ n < v.nextNode, (v.nodes n).ptr = some r → n ∈ v.freedNodes) :
    Ringed (freeRing v r) fun _ => False := by
  have unbuilt := ringed.unbuilt r rfl
  refine ⟨ringed.pointed, ringed.closing, List.nodup_cons.mpr ⟨unbuilt.2, ringed.once⟩, ?_, nofun, ?_⟩
  · intro other freed
    rcases List.mem_cons.mp freed with rfl | freed
    · exact ⟨unbuilt.1, ended⟩
    · exact ringed.freed other freed
  · intro other known live _
    rw [freeRing, List.mem_cons, not_or] at live
    obtain ⟨ends, shared⟩ := ringed.shared other known live.2 live.1
    exact ⟨ends, shared.known, shared.pointed, shared.closing, shared.closed, shared.only, shared.alive⟩

theorem ringed_built (ringed : Ringed v (· = r)) (shared : Shared v r ends) : Ringed v fun _ => False := by
  refine ⟨ringed.pointed, ringed.closing, ringed.once, ringed.freed, nofun, ?_⟩
  intro other known live _
  by_cases same : other = r
  · exact ⟨ends, same ▸ shared⟩
  · exact ringed.shared other known live same

/-! ## The last reference to an end of a pipe -/

theorem closed_close (ring : PipeRing) (side other : PipeEnd) :
    (ring.close side).closed other = if other = side then true else ring.closed other := by
  cases side <;> cases other <;> rfl

theorem ne_other (side : PipeEnd) : side.other ≠ side := by
  cases side <;> nofun

theorem eq_or_other (side s : PipeEnd) : s = side ∨ s = side.other := by
  cases side <;> cases s <;> simp [PipeEnd.other]

theorem pipeVfsClose_some (found : (v.nodes n).ptr = some r) : pipeVfsClose side v n =
    freeNode (if (v.rings r).closed side.other then freeRing (setRing v r ((v.rings r).close side)) r
      else setRing v r ((v.rings r).close side)) n := by
  unfold pipeVfsClose
  rw [found]

theorem pipeVfsClose_givenBack (found : (v.nodes n).ptr = some r) : GivenBack v (pipeVfsClose side v n) n := by
  rw [pipeVfsClose_some found]
  split
  · exact ⟨fun _ _ => rfl, rfl, rfl, rfl, rfl⟩
  · exact ⟨fun _ _ => rfl, rfl, rfl, rfl, rfl⟩

/-- The end that closes notes it in the ring. The other rings stay as they are. -/
theorem shared_other (shared : Shared v other ends) (found : (v.nodes n).ptr = some r) (ne : other ≠ r) :
    Shared { v with rings := Function.update v.rings r ring, freedNodes := n :: v.freedNodes } other ends := by
  have apart (s : PipeEnd) : ends s ≠ n := by
    intro same
    have pointed := shared.pointed s
    rw [same, found] at pointed
    exact ne (Option.some.inj pointed).symm
  refine ⟨shared.known, shared.pointed, shared.closing, ?_, shared.only, ?_⟩
  · intro s
    dsimp only
    rw [Function.update_of_ne ne, shared.closed s, List.mem_cons, or_iff_right (apart s)]
  · obtain ⟨s, alive⟩ := shared.alive
    exact ⟨s, fun freed => alive ((List.mem_cons.mp freed).resolve_left (apart s))⟩

theorem shared_closed (shared : Shared v r ends) (mine : ends side = n)
    (waiting : (v.rings r).closed side.other = false) :
    Shared { v with rings := Function.update v.rings r ((v.rings r).close side), freedNodes := n :: v.freedNodes }
      r ends := by
  have apart : ends side.other ≠ n := by
    intro same
    have first := shared.closing side
    have second := shared.closing side.other
    rw [mine] at first
    rw [same, first] at second
    exact ne_other side (CloseFunction.pipeVfsClose.inj (Option.some.inj second)).symm
  refine ⟨shared.known, shared.pointed, shared.closing, ?_, shared.only, side.other, ?_⟩
  · intro s
    dsimp only
    rw [Function.update_self, closed_close, List.mem_cons]
    rcases eq_or_other side s with rfl | rfl
    · simp [mine]
    · rw [if_neg (ne_other side), shared.closed side.other, or_iff_right apart]
  · intro freed
    have earlier := (List.mem_cons.mp freed).resolve_left apart
    rw [← shared.closed, waiting] at earlier
    cases earlier

theorem ringed_close (ringed : Ringed v fun _ => False) (known : n < v.nextNode) (live : n ∉ v.freedNodes)
    (closing : (v.nodes n).close = some (.pipeVfsClose side)) :
    Ringed (pipeVfsClose side v n) fun _ => False := by
  obtain ⟨r, found⟩ := Option.ne_none_iff_exists'.mp (ringed.closing n known side closing)
  have bound := (ringed.pointed n known r found).1
  have unfreed : r ∉ v.freedRings := fun freed => live ((ringed.freed r freed).2 n known found)
  obtain ⟨ends, shared⟩ := ringed.shared r bound unfreed id
  obtain ⟨s, mine⟩ := shared.only n known found
  have sides : s = side := by
    have closes := shared.closing s
    rw [← mine, closing] at closes
    exact (CloseFunction.pipeVfsClose.inj (Option.some.inj closes)).symm
  subst sides
  rw [pipeVfsClose_some found]
  have kept (other : Nat) (freed : other ∈ v.freedRings) : other < v.nextRing ∧
      ∀ m < v.nextNode, (v.nodes m).ptr = some other → m ∈ n :: v.freedNodes :=
    ⟨(ringed.freed other freed).1, fun m bound found =>
      List.mem_cons_of_mem _ ((ringed.freed other freed).2 m bound found)⟩
  cases waiting : (v.rings r).closed s.other with
  | true =>
    rw [if_pos rfl]
    refine ⟨ringed.pointed, ringed.closing, List.nodup_cons.mpr ⟨unfreed, ringed.once⟩, ?_, nofun, ?_⟩
    · intro other freed
      rcases List.mem_cons.mp freed with rfl | freed
      · refine ⟨bound, fun m known pointed => ?_⟩
        obtain ⟨t, owned⟩ := shared.only m known pointed
        rcases eq_or_other s t with rfl | rfl
        · exact List.mem_cons.mpr (.inl (owned.trans mine.symm))
        · exact List.mem_cons_of_mem _ (owned ▸ (shared.closed s.other).mp waiting)
      · exact kept other freed
    · intro other bound alive _
      obtain ⟨ne, alive⟩ := not_or.mp (mt List.mem_cons.mpr alive)
      obtain ⟨others, same⟩ := ringed.shared other bound alive id
      have moved : Shared { v with
          rings := Function.update v.rings r ((v.rings r).close s), freedNodes := n :: v.freedNodes } other others :=
        shared_other same found ne
      exact ⟨others, moved.known, moved.pointed, moved.closing, moved.closed, moved.only, moved.alive⟩
  | false =>
    rw [if_neg (by decide)]
    refine ⟨ringed.pointed, ringed.closing, ringed.once, kept, nofun, ?_⟩
    intro other bound alive _
    by_cases same : other = r
    · subst same
      exact ⟨ends, shared_closed shared mine.symm waiting⟩
    · obtain ⟨others, shared⟩ := ringed.shared other bound alive id
      exact ⟨others, shared_other shared found same⟩

/-! ## What the operations keep -/

theorem closing_of_ptr (ringed : Ringed v fun _ => False) (known : n < v.nextNode) (live : n ∉ v.freedNodes)
    (found : (v.nodes n).ptr = some r) : ∃ side, (v.nodes n).close = some (.pipeVfsClose side) := by
  have unfreed : r ∉ v.freedRings := fun freed => live ((ringed.freed r freed).2 n known found)
  obtain ⟨ends, shared⟩ := ringed.shared r (ringed.pointed n known r found).1 unfreed id
  obtain ⟨side, mine⟩ := shared.only n known found
  exact ⟨side, mine ▸ shared.closing side⟩

theorem closeNode_spec (ringed : Ringed v fun _ => False) (known : n < v.nextNode) (live : n ∉ v.freedNodes) :
    GivenBack v (closeNode v n) n ∧ Ringed (closeNode v n) fun _ => False := by
  have simple : (∀ side, (v.nodes n).close ≠ some (.pipeVfsClose side)) →
      GivenBack v (freeNode v n) n ∧ Ringed (freeNode v n) fun _ => False := by
    intro ordinary
    refine ⟨⟨fun _ _ => rfl, rfl, rfl, rfl, rfl⟩, ringed_freeNode ringed fun r found => ?_⟩
    obtain ⟨side, closing⟩ := closing_of_ptr ringed known live found
    exact ordinary side closing
  have pipe (side : PipeEnd) (closing : (v.nodes n).close = some (.pipeVfsClose side)) :
      GivenBack v (pipeVfsClose side v n) n ∧ Ringed (pipeVfsClose side v n) fun _ => False := by
    obtain ⟨r, found⟩ := Option.ne_none_iff_exists'.mp (ringed.closing n known side closing)
    exact ⟨pipeVfsClose_givenBack found, ringed_close ringed known live closing⟩
  unfold closeNode
  cases closing : (v.nodes n).close with
  | none => exact simple (by rw [closing]; nofun)
  | some close =>
    cases close with
    | procfsClose => exact simple (by rw [closing]; nofun)
    | pipeVfsClose side =>
      cases side with
      | read => exact pipe .read closing
      | write => exact pipe .write closing

theorem balanced_retain (balanced : Balanced v refs)
    (known : ∀ n, target = some n → n < v.nextNode ∧ n ∉ v.freedNodes) :
    Balanced (vfsRetain v target) (holding target + refs) :=
  ⟨counted_retain balanced.counts known, ringed_retain balanced.rings⟩

/-- One of several references goes, or one to a persistent node. -/
theorem counted_dropped (balanced : Counted v (n ::ₘ refs))
    (right : (v.nodes n).persistent = false → n ∈ refs ∧ k = refs.count n) : Counted (setRefCount v n k) refs :=
  counted_setRefCount balanced (fun _ ne => (Multiset.count_cons_of_ne ne refs).symm)
    (balanced.referenced n (Multiset.mem_cons_self _ _)) right

theorem balanced_release (balanced : Balanced v (holding target + refs)) : Balanced (vfsRelease v target) refs := by
  cases target with
  | none =>
    rw [holding, zero_add] at balanced
    exact balanced
  | some n =>
    rw [holding, Multiset.singleton_add] at balanced
    obtain ⟨counts, rings⟩ := balanced
    have known := counts.referenced n (Multiset.mem_cons_self _ _)
    have ringed (k : Nat) : Ringed (setRefCount v n k) fun _ => False := ringed_setRefCount rings
    have kept (k : Nat) : (setRefCount v n k).nodes n = { v.nodes n with refCount := k } := Function.update_self _ _ _
    unfold vfsRelease
    cases passing : (v.nodes n).persistent with
    | true =>
      have none_due (k : Nat) : (v.nodes n).persistent = false → n ∈ refs ∧ k = refs.count n := by
        rw [passing]
        nofun
      by_cases counting : 0 < (v.nodes n).refCount
      · dsimp only
        rw [if_pos counting, kept, if_neg (by simp [passing])]
        exact ⟨counted_dropped counts (none_due _), ringed _⟩
      · dsimp only
        rw [if_neg counting, if_neg (by simp [passing])]
        refine ⟨⟨fun m held => counts.referenced m (Multiset.mem_cons_of_mem held), ?_, counts.freed, counts.once,
          counts.devices⟩, rings⟩
        intro m bound mortal live
        have ne : m ≠ n := fun same => by simp [same, passing] at mortal
        obtain ⟨held, count⟩ := counts.counted m bound mortal live
        rw [Multiset.count_cons_of_ne ne] at count
        exact ⟨(Multiset.mem_cons.mp held).resolve_left ne, count⟩
    | false =>
      have count : (v.nodes n).refCount = refs.count n + 1 := by
        rw [(counts.counted n known.1 passing known.2).2, Multiset.count_cons_self]
      have counting : 0 < (v.nodes n).refCount := by omega
      dsimp only
      rw [if_pos counting, kept, count]
      dsimp only
      rw [Nat.add_sub_cancel]
      by_cases last : refs.count n = 0
      · rw [if_pos ⟨last, passing⟩]
        obtain ⟨given, rings⟩ := closeNode_spec (ringed (refs.count n)) known.1 known.2
        refine ⟨counted_givenBack counts rfl (Multiset.count_eq_zero.mp last) passing ?_, rings⟩
        refine ⟨fun m ne => (given.others m ne).trans (Function.update_of_ne ne _ _), ?_, given.next,
          given.devices, given.freed⟩
        rw [given.persistent, kept]
      · rw [if_neg fun gone => last gone.1]
        exact ⟨counted_dropped counts fun _ => ⟨Multiset.count_pos.mp (by omega), rfl⟩, ringed _⟩

theorem balanced_none (balanced : Balanced v refs) : Balanced v (holding none + refs) := by
  rwa [holding, zero_add]

theorem balanced_newNode (balanced : Balanced v refs) (one : node.refCount = 1) (plain : node.ptr = none)
    (closing : ∀ side, node.close ≠ some (.pipeVfsClose side)) :
    Balanced (newNode v node) (v.nextNode ::ₘ refs) :=
  ⟨counted_new balanced.counts one,
    ringed_new balanced.rings (by rw [plain]; nofun) fun side found => absurd found (closing side)⟩

/-- What a call that opens leaves: the reference is the caller's. -/
theorem balanced_fat16VfsOpen (balanced : Balanced v refs) (name : String) (fileSize : Nat) (granted : Bool) :
    Balanced (fat16VfsOpen v name fileSize granted).1
      (holding (fat16VfsOpen v name fileSize granted).2 + refs) := by
  unfold fat16VfsOpen
  split
  · exact balanced_newNode balanced rfl rfl nofun
  · exact balanced_none balanced

theorem balanced_vfsOpen (balanced : Balanced v refs) (path : Lookup) :
    Balanced (vfsOpen v path).1 (holding (vfsOpen v path).2 + refs) := by
  cases path with
  | devfs name =>
    refine balanced_retain balanced fun n found => ?_
    obtain ⟨known, passing⟩ := balanced.counts.devices n (List.mem_of_find?_eq_some found)
    refine ⟨known, fun freed => ?_⟩
    have mortal := (balanced.counts.freed n freed).2
    rw [passing] at mortal
    cases mortal
  | procfs name text granted =>
    rw [vfsOpen]
    unfold procfsOpen
    cases granted with
    | false => exact balanced_none balanced
    | true =>
      cases text with
      | some length => exact balanced_newNode balanced rfl rfl nofun
      | none =>
        have opened : Balanced (newNode v (procfsNode name 0)) (v.nextNode ::ₘ refs) :=
          balanced_newNode balanced rfl rfl nofun
        have absent : v.nextNode ∉ refs := fun held => absurd (balanced.counts.referenced _ held).1 (lt_irrefl _)
        have fresh : (newNode v (procfsNode name 0)).nodes v.nextNode = procfsNode name 0 := Function.update_self _ _ _
        rw [if_pos rfl]
        refine balanced_none ⟨counted_givenBack opened.counts rfl absent ?_ ?_, ringed_freeNode opened.rings ?_⟩
        · rw [fresh]
          rfl
        · exact ⟨fun _ _ => rfl, rfl, rfl, rfl, rfl⟩
        · rw [fresh]
          nofun
  | fat16 name fileSize granted => exact balanced_fat16VfsOpen balanced name fileSize granted
  | unmounted => exact balanced_none balanced

theorem ptr_lt (balanced : Balanced v refs) (known : n < v.nextNode) : (v.nodes n).ptr ≠ some v.nextRing :=
  fun found => absurd (balanced.rings.pointed n known _ found).1 (lt_irrefl _)

theorem counted_newRing (balanced : Balanced v refs) : Counted (newRing v) refs :=
  ⟨balanced.counts.referenced, balanced.counts.counted, balanced.counts.freed, balanced.counts.once,
    balanced.counts.devices⟩

theorem ringed_readNode (balanced : Balanced v refs) :
    Ringed (newNode (newRing v) (pipeNode "pipe_read" v.nextRing .read)) (· = v.nextRing) :=
  ringed_new (ringed_newRing balanced.rings) (fun _ found => ⟨(Option.some.inj found).symm, rfl⟩) nofun

/-- The two nodes of a new pipe are the ends of its ring. -/
theorem shared_pipeCreate (balanced : Balanced v refs) :
    Shared (newNode (newNode (newRing v) (pipeNode "pipe_read" v.nextRing .read))
      (pipeNode "pipe_write" v.nextRing .write)) v.nextRing
      (fun side => match side with | .read => v.nextNode | .write => v.nextNode + 1) := by
  have first : (newNode (newNode (newRing v) (pipeNode "pipe_read" v.nextRing .read))
      (pipeNode "pipe_write" v.nextRing .write)).nodes v.nextNode = pipeNode "pipe_read" v.nextRing .read := by
    dsimp only [newNode, newRing]
    rw [Function.update_of_ne (by omega), Function.update_self]
  have second : (newNode (newNode (newRing v) (pipeNode "pipe_read" v.nextRing .read))
      (pipeNode "pipe_write" v.nextRing .write)).nodes (v.nextNode + 1) = pipeNode "pipe_write" v.nextRing .write :=
    Function.update_self _ _ _
  have unfreed (m : Nat) (late : v.nextNode ≤ m) : m ∉ v.freedNodes := fun freed =>
    absurd (balanced.counts.freed m freed).1 (by omega)
  refine ⟨?_, ?_, ?_, ?_, ?_, .read, unfreed _ le_rfl⟩
  · intro side
    cases side <;> dsimp only [newNode, newRing] <;> omega
  · intro side
    cases side with
    | read => rw [first]; rfl
    | write => rw [second]; rfl
  · intro side
    cases side with
    | read => rw [first]; rfl
    | write => rw [second]; rfl
  · intro side
    dsimp only [newNode, newRing]
    rw [Function.update_self]
    cases side with
    | read => exact ⟨nofun, fun freed => absurd freed (unfreed _ le_rfl)⟩
    | write => exact ⟨nofun, fun freed => absurd freed (unfreed _ (Nat.le_succ _))⟩
  · intro m known found
    by_cases last : m = v.nextNode + 1
    · exact ⟨.write, last⟩
    · by_cases middle : m = v.nextNode
      · exact ⟨.read, middle⟩
      · dsimp only [newNode, newRing] at known found
        rw [Function.update_of_ne last, Function.update_of_ne middle] at found
        exact absurd found (ptr_lt balanced (by omega))

theorem balanced_pipeCreate (balanced : Balanced v refs) (granted : Nat) :
    Balanced (pipeCreate v granted).1 (holding ((pipeCreate v granted).2.map Prod.fst) +
      (holding ((pipeCreate v granted).2.map Prod.snd) + refs)) := by
  have first : Counted (newNode (newRing v) (pipeNode "pipe_read" v.nextRing .read)) (v.nextNode ::ₘ refs) :=
    counted_new (counted_newRing balanced) rfl
  have reading := ringed_readNode balanced
  unfold pipeCreate
  by_cases ring : granted = 0
  · rw [if_pos ring]
    exact balanced_none (balanced_none balanced)
  · rw [if_neg ring]
    by_cases readEnd : granted = 1
    · dsimp only
      rw [if_pos readEnd]
      refine balanced_none (balanced_none ⟨?_, ringed_freeRing (ringed_newRing balanced.rings) ?_⟩)
      · have counts := counted_newRing balanced
        exact ⟨counts.referenced, counts.counted, counts.freed, counts.once, counts.devices⟩
      · intro n known found
        exact absurd found (ptr_lt balanced known)
    · dsimp only
      rw [if_neg readEnd]
      by_cases writeEnd : granted = 2
      · rw [if_pos writeEnd]
        have absent : v.nextNode ∉ refs := fun held => absurd (balanced.counts.referenced _ held).1 (lt_irrefl _)
        have fresh : (newNode (newRing v) (pipeNode "pipe_read" v.nextRing .read)).nodes v.nextNode =
            pipeNode "pipe_read" v.nextRing .read := Function.update_self _ _ _
        refine balanced_none (balanced_none ⟨counted_givenBack first rfl absent ?_ ?_,
          ringed_freeRing (ringed_freeNode reading ?_) ?_⟩)
        · rw [fresh]
          rfl
        · exact ⟨fun _ _ => rfl, rfl, rfl, rfl, rfl⟩
        · intro r found
          rw [show (newRing v).nextNode = v.nextNode from rfl, fresh] at found
          exact (Option.some.inj found).symm
        · intro n known found
          rcases Nat.lt_succ_iff_lt_or_eq.mp known with known | rfl
          · dsimp only [freeNode, newNode, newRing] at known found
            rw [Function.update_of_ne (by omega)] at found
            exact absurd found (ptr_lt balanced known)
          · exact List.mem_cons_self
      · rw [if_neg writeEnd]
        have second : Counted (newNode (newNode (newRing v) (pipeNode "pipe_read" v.nextRing .read))
            (pipeNode "pipe_write" v.nextRing .write)) ((v.nextNode + 1) ::ₘ v.nextNode ::ₘ refs) :=
          counted_new first rfl
        have writing : Ringed (newNode (newNode (newRing v) (pipeNode "pipe_read" v.nextRing .read))
            (pipeNode "pipe_write" v.nextRing .write)) (· = v.nextRing) :=
          ringed_new reading (fun _ found => ⟨(Option.some.inj found).symm, rfl⟩) nofun
        refine ⟨?_, ringed_built writing (shared_pipeCreate balanced)⟩
        rw [Multiset.cons_swap] at second
        exact second

end

end MeowMeowOS.ReferenceCounts

import MeowMeowOS.VfsNodes

/-! Mount points and `vfs_open`: a name goes to the driver of the longest mount
path above it, in whatever order the mounts were made. -/
namespace MeowMeowOS.MountResolution

open VfsNodes

/-- A string without its terminator. -/
abbrev CString := List UInt8

def slash : UInt8 := 0x2F
def vfsHashSize : Nat := 128

/-- `fs_driver_t`, with an `open` that may be `NULL`. -/
structure FsDriver where
  name : CString
  openFile : Option (CString → Vfs → Vfs × Option Nat)

structure MountPoint where
  path : CString
  driver : FsDriver

/-- The static tables of `vfs.c`: `mount_list` with the latest mount first. -/
structure VfsTables where
  hashTable : Nat → List (CString × Nat)
  registeredDrivers : List FsDriver
  mountList : List MountPoint

/-- `hash * 33 + c` over the characters, each a signed `char`. -/
def vfsHash (str : CString) : Nat :=
  (str.foldl (fun (hash : BitVec 32) c => (hash <<< 5) + hash + c.toBitVec.signExtend 32) 5381).toNat % vfsHashSize

def vfsFind (t : VfsTables) (name : CString) : Option Nat :=
  ((t.hashTable (vfsHash name)).find? fun entry => entry.1 = name).map (·.2)

def vfsGetDriver (t : VfsTables) (name : CString) : Option FsDriver :=
  t.registeredDrivers.find? fun driver => driver.name = name

/-- The result and the tables; `granted` says whether there is memory. The path
field holds 63 characters. -/
def vfsMount (t : VfsTables) (path driverName : CString) (granted : Bool) : Int × VfsTables :=
  match vfsGetDriver t driverName with
  | none => (-1, t)
  | some driver =>
    if granted then (0, { t with mountList := ⟨path.take 63, driver⟩ :: t.mountList }) else (-1, t)

/-- `name[len] == '/' || name[len] == '\0' || path[len - 1] == '/'` -/
def boundary (name path : CString) : Bool :=
  name[path.length]? = some slash ∨ name.length = path.length ∨ path.getLast? = some slash

/-- `while (current != NULL)` -/
def mountLoop (name : CString) : List MountPoint → Option MountPoint → Nat → Option MountPoint
  | [], bestMount, _ => bestMount
  | current :: next, bestMount, bestMatchLen =>
    let len := current.path.length
    if current.path <+: name ∧ boundary name current.path ∧ bestMatchLen < len then
      mountLoop name next (some current) len
    else mountLoop name next bestMount bestMatchLen

def vfsOpen (t : VfsTables) (v : Vfs) (name : CString) : Vfs × Option Nat :=
  match vfsFind t name with
  | some node => (vfsRetain v (some node), some node)
  | none =>
    match mountLoop name t.mountList none 0 with
    | some bestMount =>
      match bestMount.driver.openFile with
      | some openFile => openFile name v
      | none => (v, none)
    | none => (v, none)

/-! ## Which mount a name belongs to -/

/-- The path is a prefix of the name that ends at a component boundary. -/
def Above (path name : CString) : Prop := path <+: name ∧ boundary name path

/-- A mount: its path and the name of its driver. -/
abbrev Mount := CString × CString

/-- The driver's name of the longest mount above `name`, or none where there is
no mount above it. -/
def Resolves (mounts : List Mount) (name : CString) : Option CString → Prop
  | none => ∀ mount ∈ mounts, ¬ Above mount.1 name
  | some driverName => ∃ path, (path, driverName) ∈ mounts ∧ Above path name ∧
      ∀ mount ∈ mounts, Above mount.1 name → mount.1.length ≤ path.length

/-- What the driver of that name does with it. -/
def delegate (t : VfsTables) (v : Vfs) (name : CString) (driverName : Option CString) : Vfs × Option Nat :=
  match driverName.bind (vfsGetDriver t) with
  | some driver =>
    match driver.openFile with
    | some openFile => openFile name v
    | none => (v, none)
  | none => (v, none)

/-- `vfs_mount` for each of the mounts. -/
def mountAll (t : VfsTables) (mounts : List Mount) : VfsTables :=
  mounts.foldl (fun t mount => (vfsMount t mount.1 mount.2 true).2) t

/-- The mounts can be made: different paths that fit, and drivers that are
registered. -/
structure Mountable (t : VfsTables) (mounts : List Mount) : Prop where
  distinct : (mounts.map Prod.fst).Nodup
  fits : ∀ mount ∈ mounts, mount.1 ≠ [] ∧ mount.1.length ≤ 63
  registered : ∀ mount ∈ mounts, (vfsGetDriver t mount.2).isSome

section
variable {t : VfsTables} {v : Vfs} {mounts : List Mount} {name path other : CString}

/-- Two paths above a name with one length are one path. -/
theorem above_unique (first : Above path name) (second : Above other name) (same : path.length = other.length) :
    path = other :=
  (List.prefix_of_prefix_length_le first.1 second.1 (Nat.le_of_eq same)).eq_of_length same

theorem resolves_unique (distinct : (mounts.map Prod.fst).Nodup) (first : Resolves mounts name answer)
    (second : Resolves mounts name answer') : answer = answer' := by
  cases answer with
  | none =>
    cases answer' with
    | none => rfl
    | some driverName =>
      obtain ⟨path, member, above, -⟩ := second
      exact absurd above (first _ member)
  | some driverName =>
    obtain ⟨path, member, above, longest⟩ := first
    cases answer' with
    | none => exact absurd above (second _ member)
    | some driverName' =>
      obtain ⟨path', member', above', longest'⟩ := second
      have same := above_unique above above' (Nat.le_antisymm (longest' _ member above) (longest _ member' above'))
      subst same
      have one := List.inj_on_of_nodup_map distinct member member' rfl
      rw [(Prod.mk.inj one).2]

/-! ## The search -/

/-- The loop stays with its best mount, or ends with a longer one that is longest
among those above the name. -/
theorem mountLoop_longest (name : CString) (list : List MountPoint) (best : Option MountPoint) (bestLen : Nat) :
    mountLoop name list best bestLen = best ∧ (∀ m ∈ list, Above m.path name → m.path.length ≤ bestLen) ∨
      ∃ m ∈ list, mountLoop name list best bestLen = some m ∧ Above m.path name ∧ bestLen < m.path.length ∧
        ∀ o ∈ list, Above o.path name → o.path.length ≤ m.path.length := by
  induction list generalizing best bestLen with
  | nil => exact .inl ⟨rfl, fun m member => absurd member List.not_mem_nil⟩
  | cons current next ih =>
    rw [mountLoop]
    by_cases taken : current.path <+: name ∧ boundary name current.path ∧ bestLen < current.path.length
    · rw [if_pos taken]
      have above : Above current.path name := ⟨taken.1, taken.2.1⟩
      rcases ih (some current) current.path.length with ⟨same, others⟩ | ⟨m, member, found, later, longer,
        others⟩
      · refine .inr ⟨current, List.mem_cons_self, same, above, taken.2.2, fun o member covers => ?_⟩
        rcases List.mem_cons.mp member with rfl | rest
        · exact Nat.le_refl _
        · exact others o rest covers
      · refine .inr ⟨m, List.mem_cons_of_mem _ member, found, later, taken.2.2.trans longer,
          fun o inside covers => ?_⟩
        rcases List.mem_cons.mp inside with rfl | rest
        · exact Nat.le_of_lt longer
        · exact others o rest covers
    · rw [if_neg taken]
      have short : Above current.path name → current.path.length ≤ bestLen := fun above =>
        Nat.le_of_not_lt fun longer => taken ⟨above.1, above.2, longer⟩
      rcases ih best bestLen with ⟨same, others⟩ | ⟨m, member, found, later, longer, others⟩
      · refine .inl ⟨same, fun o member covers => ?_⟩
        rcases List.mem_cons.mp member with rfl | rest
        · exact short covers
        · exact others o rest covers
      · refine .inr ⟨m, List.mem_cons_of_mem _ member, found, later, longer, fun o inside covers => ?_⟩
        rcases List.mem_cons.mp inside with rfl | rest
        · exact (short covers).trans (Nat.le_of_lt longer)
        · exact others o rest covers

/-! ## Mounting -/

theorem vfsMount_granted (driver : FsDriver) (registered : vfsGetDriver t driverName = some driver) (path : CString) :
    vfsMount t path driverName true = (0, { t with mountList := ⟨path.take 63, driver⟩ :: t.mountList }) := by
  rw [vfsMount, registered]
  rfl

/-- The mount list holds the mounts that were made, and nothing else changes. -/
theorem mountAll_list (fits : ∀ mount ∈ mounts, mount.1.length ≤ 63)
    (registered : ∀ mount ∈ mounts, (vfsGetDriver t mount.2).isSome) :
    (mountAll t mounts).hashTable = t.hashTable ∧ (mountAll t mounts).registeredDrivers = t.registeredDrivers ∧
      ∀ m, m ∈ (mountAll t mounts).mountList ↔
        m ∈ t.mountList ∨ ∃ mount ∈ mounts, m.path = mount.1 ∧ vfsGetDriver t mount.2 = some m.driver := by
  induction mounts generalizing t with
  | nil => exact ⟨rfl, rfl, fun m => by simp [mountAll]⟩
  | cons mount rest ih =>
    obtain ⟨driver, found⟩ := Option.isSome_iff_exists.mp (registered mount List.mem_cons_self)
    have step := vfsMount_granted driver found mount.1
    have whole : mount.1.take 63 = mount.1 := List.take_of_length_le (fits mount List.mem_cons_self)
    rw [whole] at step
    obtain ⟨hash, drivers, members⟩ := ih (t := { t with mountList := ⟨mount.1, driver⟩ :: t.mountList })
      (fun other member => fits other (List.mem_cons_of_mem _ member))
      (fun other member => registered other (List.mem_cons_of_mem _ member))
    have shape : mountAll t (mount :: rest) =
        mountAll { t with mountList := ⟨mount.1, driver⟩ :: t.mountList } rest := by
      rw [mountAll, List.foldl_cons, step]
      rfl
    rw [shape]
    refine ⟨hash, drivers, fun m => (members m).trans ?_⟩
    constructor
    · rintro (made | ⟨other, member, path, lookup⟩)
      · rcases List.mem_cons.mp made with rfl | before
        · exact .inr ⟨mount, List.mem_cons_self, rfl, found⟩
        · exact .inl before
      · exact .inr ⟨other, List.mem_cons_of_mem _ member, path, lookup⟩
    · rintro (before | ⟨other, member, path, lookup⟩)
      · exact .inl (List.mem_cons_of_mem _ before)
      · rcases List.mem_cons.mp member with rfl | later
        · have same : m = ⟨other.1, driver⟩ := by
            rw [← path, ← Option.some.inj (lookup.symm.trans found)]
          exact .inl (same ▸ List.mem_cons_self)
        · exact .inr ⟨other, later, path, lookup⟩

/-- What the loop finds is what the name resolves to. -/
theorem mountLoop_resolves (name : CString) (noMounts : t.mountList = []) (mountable : Mountable t mounts) :
    ∃ answer, Resolves mounts name answer ∧
      (mountLoop name (mountAll t mounts).mountList none 0).map (·.driver) = answer.bind (vfsGetDriver t) := by
  obtain ⟨-, -, members⟩ := mountAll_list (fun mount member => (mountable.fits mount member).2) mountable.registered
  have listed : ∀ mount ∈ mounts, ∃ m ∈ (mountAll t mounts).mountList, m.path = mount.1 := by
    intro mount member
    obtain ⟨driver, found⟩ := Option.isSome_iff_exists.mp (mountable.registered mount member)
    exact ⟨⟨mount.1, driver⟩, (members _).mpr (.inr ⟨mount, member, rfl, found⟩), rfl⟩
  rcases mountLoop_longest name (mountAll t mounts).mountList none 0 with
    ⟨found, others⟩ | ⟨m, member, found, above, -, others⟩
  · refine ⟨none, fun mount inside above => ?_, by rw [found]; rfl⟩
    obtain ⟨m, member, same⟩ := listed mount inside
    have short := others m member (same ▸ above)
    have long := List.length_pos_iff.mpr (mountable.fits mount inside).1
    rw [same] at short
    omega
  · have made := (members m).mp member
    rw [noMounts] at made
    obtain ⟨mount, inside, path, driver⟩ := made.resolve_left List.not_mem_nil
    refine ⟨some mount.2, ⟨mount.1, inside, path ▸ above, fun other member covers => ?_⟩, ?_⟩
    · obtain ⟨o, listedOther, same⟩ := listed other member
      have short := others o listedOther (same ▸ covers)
      rwa [same, path] at short
    · rw [found, Option.map_some, Option.bind_some, driver]

/-- A name that is no registered node goes to the driver of the longest mount
above it, and to none where there is no such mount, whatever the order of the
mounts. -/
theorem vfsOpen_longest (t : VfsTables) (noMounts : t.mountList = []) (mounts : List Mount)
    (mountable : Mountable t mounts) (v : Vfs) (name : CString) (unregistered : vfsFind t name = none) :
    (∃ answer, Resolves mounts name answer) ∧
      ∀ answer, Resolves mounts name answer → vfsOpen (mountAll t mounts) v name = delegate t v name answer := by
  obtain ⟨answer, resolves, found⟩ := mountLoop_resolves name noMounts mountable
  refine ⟨⟨answer, resolves⟩, fun other resolved => ?_⟩
  obtain ⟨hash, -, -⟩ := mountAll_list (fun mount member => (mountable.fits mount member).2) mountable.registered
  have unknown : vfsFind (mountAll t mounts) name = none := by rwa [vfsFind, hash]
  rw [resolves_unique mountable.distinct resolved resolves, vfsOpen, unknown, delegate, ← found]
  dsimp only
  cases mountLoop name (mountAll t mounts).mountList none 0 with
  | none => rfl
  | some m => rfl

def devfs : CString := [0x64, 0x65, 0x76, 0x66, 0x73]
def fat16 : CString := [0x66, 0x61, 0x74, 0x31, 0x36]

/-- Two drivers, each with one node. -/
def twoDrivers : VfsTables :=
  ⟨fun _ => [], [⟨devfs, some fun _ v => (v, some 1)⟩, ⟨fat16, some fun _ v => (v, some 2)⟩], []⟩

/-- `/dev` and the root. -/
def twoMounts : List Mount := [([slash, 0x64, 0x65, 0x76], devfs), ([slash], fat16)]

/-- `/devices` belongs to the root. -/
def devices : CString := [slash, 0x64, 0x65, 0x76, 0x69, 0x63, 0x65, 0x73]

def noNodes : Vfs := ⟨fun _ => fat16Node "" 0, 0, fun _ => ⟨false, false⟩, 0, [], [], []⟩

theorem vfsOpen_longest_devices : (∃ answer, Resolves twoMounts devices answer) ∧
    ∀ answer, Resolves twoMounts devices answer →
      vfsOpen (mountAll twoDrivers twoMounts) noNodes devices = delegate twoDrivers noNodes devices answer :=
  vfsOpen_longest twoDrivers rfl twoMounts ⟨by decide, by decide, by decide⟩ noNodes devices rfl

end

end MeowMeowOS.MountResolution

import MeowMeowOS.BufferCalls
import MeowMeowOS.MissingDirectories

/-! Which system calls store only into the range they have had checked. The
check sees a 32-bit length, so a product that does not fit it, or a length of
zero that is decremented later, lets stores go where nothing was checked. -/
namespace MeowMeowOS.ConfinedWrites
open ByteMemory Fat16Disk Pipes Fat16Vfs UserPointers BufferCalls

inductive BufferCall where
  | read
  | getcwd
  | getDescription
  | syslog
  | getProcessInfo
  | getPciDevices
  deriving DecidableEq

/-- The stores of a call that returns. -/
def run (fuel : Nat) (k : Kernel) (regs : Registers) : BufferCall → Option (List Store)
  | .read => sysRead fuel k regs
  | .getcwd => some (sysGetcwd k regs)
  | .getDescription => sysGetDescription fuel k regs
  | .syslog => some (sysSyslog k regs)
  | .getProcessInfo => some (sysGetProcessInfo k regs)
  | .getPciDevices => some (sysGetPciDevices k regs)

/-- The buffer that the registers name. -/
def bufferOf (regs : Registers) : BufferCall → Nat
  | .read => regs.ecx.toNat
  | .getcwd => regs.ebx.toNat
  | .getDescription => regs.ecx.toNat
  | .syslog => regs.ebx.toNat
  | .getProcessInfo => regs.ebx.toNat
  | .getPciDevices => regs.ebx.toNat

/-- Its size in bytes, not reduced to 32 bits. -/
def sizeOf (regs : Registers) : BufferCall → Nat
  | .read => regs.edx.toNat
  | .getcwd => regs.ecx.toNat
  | .getDescription => regs.edx.toNat
  | .syslog => regs.ecx.toNat
  | .getProcessInfo => sizeofProcessInfo * regs.ecx.toNat
  | .getPciDevices => sizeofPciDevice * regs.ecx.toNat

/-- Every store goes into the buffer, and the whole buffer has been accepted. -/
def Confined (k : Kernel) (buffer size : Nat) (stores : List Store) : Prop :=
  ∀ store ∈ stores, (buffer ≤ store.1 ∧ store.1 < buffer + size) ∧ size < 2 ^ 32 ∧
    k.valid buffer size = true

/-- The length that is checked is the length of the buffer, and not zero where
it is decremented; or the check refuses, or there is nothing to store. -/
def Fits (k : Kernel) (regs : Registers) : BufferCall → Prop
  | .getcwd => 0 < regs.ecx.toNat ∨ k.valid regs.ebx.toNat 0 = false
  | .getProcessInfo => sizeofProcessInfo * regs.ecx.toNat < 2 ^ 32 ∨
      k.valid regs.ebx.toNat (sizeofProcessInfo * regs.ecx.toNat % 2 ^ 32) = false ∨ k.tasks = []
  | .getPciDevices => sizeofPciDevice * regs.ecx.toNat < 2 ^ 32 ∨
      k.valid regs.ebx.toNat (sizeofPciDevice * regs.ecx.toNat % 2 ^ 32) = false ∨ k.pci.pciDeviceCount = 0
  | _ => True

section Ranges
variable {k : Kernel} {buffer size : Nat}

theorem mem_storesAt : store ∈ storesAt buffer bytes ↔
    ∃ i < bytes.length, store = ((buffer + i) % 2 ^ 32, bytes.getD i 0) := by
  simp only [storesAt, List.mem_map, List.mem_range]
  constructor
  · rintro ⟨i, inside, rfl⟩
    exact ⟨i, inside, rfl⟩
  · rintro ⟨i, inside, rfl⟩
    exact ⟨i, inside, rfl⟩

/-- An accepted range ends below the kernel. -/
theorem valid_range (valid : k.valid buffer size = true) (some : 0 < size) (word : size < 2 ^ 32) :
    buffer + size ≤ kernelUserBoundary := by
  have accepted : isValidUserPtr k.mem k.current buffer size = .accepted := of_decide_eq_true valid
  cases current : k.current with
  | none =>
    rw [current] at accepted
    unfold isValidUserPtr at accepted
    rw [if_neg (by omega : size ≠ 0)] at accepted
    dsimp only at accepted
    split at accepted
    · cases accepted
    · split at accepted
      · cases accepted
      · split at accepted
        · cases accepted
        · cases accepted
  | some pd =>
    rw [current, isValidUserPtr_accepted some word] at accepted
    exact accepted.1.2

/-- Stores at a place of an accepted buffer that end inside it. -/
theorem confined_storesAt (at' : Nat) (valid : k.valid buffer size = true) (word : size < 2 ^ 32)
    (inside : at' + bytes.length ≤ size) : Confined k buffer size (storesAt (buffer + at') bytes) := by
  intro store member
  obtain ⟨i, small, rfl⟩ := mem_storesAt.mp member
  have range := valid_range valid (by omega) word
  have noWrap : (buffer + at' + i) % 2 ^ 32 = buffer + at' + i :=
    Nat.mod_eq_of_lt (by unfold kernelUserBoundary at range; omega)
  rw [noWrap]
  exact ⟨by omega, word, valid⟩

theorem confined_nil (k : Kernel) (buffer size : Nat) : Confined k buffer size [] := nofun

theorem confined_append (first : Confined k buffer size a) (second : Confined k buffer size b) :
    Confined k buffer size (a ++ b) := by
  intro store member
  rcases List.mem_append.mp member with left | right
  · exact first store left
  · exact second store right

end Ranges

/-! ## Reading -/

section Reads
variable {size : Nat}

theorem randomRead_length (size : Nat) (seed : UInt32) : (randomRead size seed).length = size := by
  induction size generalizing seed with
  | zero => rfl
  | succ size ih => rw [randomRead, List.length_cons, ih]

theorem ataLoop_length (le : acc.length ≤ size) :
    (ataLoop disk offset size rounds acc).length ≤ size := by
  induction rounds generalizing acc with
  | zero => exact le
  | succ rounds ih =>
    rw [ataLoop]
    split
    · apply ih
      rw [List.length_append, List.length_map, List.length_range]
      omega
    · exact le

theorem keyboardVfsRead_length (typed : Nat → UInt8) (size : Nat) :
    (keyboardVfsRead typed size).length ≤ size := by
  unfold keyboardVfsRead
  have bound := (List.takeWhile_sublist (l := (List.range size).map typed) (· ≠ 0)).length_le
  rwa [List.length_map, List.length_range] at bound

theorem readSection_length (pipe : PipeRing) (running : call.Running) :
    (readSection pipe call).2.size = call.size ∧ (readSection pipe call).2.buffer.length ≤ call.size := by
  obtain ⟨-, room⟩ := running
  unfold readSection
  split
  · refine ⟨rfl, ?_⟩
    rw [List.length_append, List.length_singleton]
    exact room
  · split
    · exact ⟨rfl, Nat.le_of_lt room⟩
    · split
      · exact ⟨rfl, Nat.le_of_lt room⟩
      · exact ⟨rfl, Nat.le_of_lt room⟩

theorem pipeVfsRead_length (sections : List PipeRing) (size : Nat) :
    (pipeVfsRead sections size).length ≤ size := by
  unfold pipeVfsRead
  suffices kept : ∀ call : ReadCall, call.size = size → call.buffer.length ≤ size →
      (sections.foldl (fun (call : ReadCall) pipe =>
        if call.Running then (readSection pipe call).2 else call) call).buffer.length ≤ size from
    kept _ rfl (Nat.zero_le size)
  induction sections with
  | nil => exact fun _ _ le => le
  | cons pipe rest ih =>
    intro call same le
    rw [List.foldl_cons]
    split
    · rename_i running
      obtain ⟨same', le'⟩ := readSection_length pipe running
      exact ih _ (same'.trans same) (same ▸ le')
    · exact ih call same le

/-- No read hands over more than it is asked for. -/
theorem vfsRead_length (ran : vfsRead fuel node offset size = some bytes) : bytes.length ≤ size := by
  cases node with
  | unreadable | null =>
    cases ran
    exact Nat.zero_le size
  | zero =>
    cases ran
    exact Nat.le_of_eq List.length_replicate
  | random seed =>
    cases ran
    exact Nat.le_of_eq (randomRead_length size seed)
  | hda disk =>
    cases ran
    exact ataLoop_length (Nat.zero_le size)
  | stdin typed =>
    cases ran
    exact keyboardVfsRead_length typed size
  | pipe sections =>
    cases ran
    exact pipeVfsRead_length sections size
  | procfs contents =>
    obtain rfl := Option.some.inj ran
    unfold procfsRead
    split
    · exact Nat.zero_le size
    · rw [List.length_take]
      omega
  | fat16 volume file =>
    obtain ⟨⟨_, _⟩, read, rfl⟩ := Option.map_eq_some_iff.mp ran
    exact fat16VfsRead_length read

end Reads

/-! ## The calls -/

section Calls
variable {fuel : Nat} {k : Kernel} {regs : Registers} {buffer size : Nat}

theorem sysRead_confined (ran : sysRead fuel k regs = some stores) :
    Confined k regs.ecx.toNat regs.edx.toNat stores := by
  unfold sysRead at ran
  dsimp only at ran
  split at ran
  · cases ran
    exact confined_nil _ _ _
  · rename_i valid
    have nothing : some [] = some stores → Confined k regs.ecx.toNat regs.edx.toNat stores := by
      intro none
      cases none
      exact confined_nil _ _ _
    split at ran
    · exact nothing ran
    · split at ran
      · exact nothing ran
      · split at ran
        · exact nothing ran
        · obtain ⟨bytes, read, rfl⟩ := Option.map_eq_some_iff.mp ran
          have length := vfsRead_length read
          exact confined_storesAt 0 (by simpa using valid) regs.edx.toNat_lt (by omega)

theorem sysSyslog_confined : Confined k regs.ebx.toNat regs.ecx.toNat (sysSyslog k regs) := by
  unfold sysSyslog
  dsimp only
  split
  · exact confined_nil _ _ _
  · rename_i valid
    apply confined_storesAt 0 (by simpa using valid) regs.ecx.toNat_lt
    simp only [loggerReadLog, List.length_map, List.length_range]
    generalize (if k.log.logWrapped then ringBufferSize else k.log.logHead) = held
    split <;> omega

theorem storeDescription_confined (valid : k.valid buffer size = true) (word : size < 2 ^ 32)
    (some : 0 < size) (length : bytes.length ≤ size - 1) :
    Confined k buffer size (storeDescription buffer bytes) := by
  have whole : Confined k buffer size (storesAt buffer bytes) :=
    confined_storesAt 0 valid word (by omega)
  unfold storeDescription
  split
  · exact whole
  · apply confined_append whole
    apply confined_storesAt _ valid word
    rw [List.length_singleton]
    omega

theorem searchDescription_confined (valid : k.valid buffer size = true) (word : size < 2 ^ 32)
    (some : 0 < size)
    (ran : searchDescription node buffer size scanLimit fuel v offset = Option.some (found, stores)) :
    Confined k buffer size stores := by
  induction fuel generalizing v offset with
  | zero => cases ran
  | succ fuel ih =>
    rw [searchDescription] at ran
    split at ran
    · simp only [Option.bind_eq_bind, Option.bind_eq_some_iff, Prod.exists] at ran
      obtain ⟨chunk, v1, -, ran⟩ := ran
      split at ran
      · cases ran
        exact confined_nil _ _ _
      · split at ran
        · exact ih ran
        · simp only [Option.bind_eq_some_iff, Prod.exists] at ran
          obtain ⟨bytes, v2, read, ran⟩ := ran
          split at ran
          · exact ih ran
          · simp only [Option.pure_def, Option.some.injEq, Prod.mk.injEq] at ran
            obtain ⟨-, rfl⟩ := ran
            exact storeDescription_confined valid word some (fat16VfsRead_length read)
    · cases ran
      exact confined_nil _ _ _

theorem elfGetDescription_confined (valid : k.valid buffer size = true) (word : size < 2 ^ 32)
    (ran : elfGetDescription fuel v path granted buffer size = some (found, stores)) :
    Confined k buffer size stores := by
  have nothing : some (false, []) = some (found, stores) → Confined k buffer size stores := by
    intro none
    cases none
    exact confined_nil _ _ _
  unfold elfGetDescription at ran
  split at ran
  · exact nothing ran
  · rename_i wanted
    simp only [Option.bind_eq_bind, Option.bind_eq_some_iff, Prod.exists] at ran
    obtain ⟨node, v1, -, ran⟩ := ran
    split at ran
    · exact nothing ran
    · split at ran
      · exact nothing ran
      · simp only [Option.bind_eq_some_iff, Prod.exists] at ran
        obtain ⟨magic, v2, -, ran⟩ := ran
        split at ran
        · exact nothing ran
        · exact searchDescription_confined valid word (by omega) ran

theorem sysGetDescription_confined (ran : sysGetDescription fuel k regs = some stores) :
    Confined k regs.ecx.toNat regs.edx.toNat stores := by
  unfold sysGetDescription at ran
  dsimp only at ran
  split at ran
  · cases ran
    exact confined_nil _ _ _
  · rename_i valid
    split at ran
    · cases ran
      exact confined_nil _ _ _
    · obtain ⟨⟨_, _⟩, described, rfl⟩ := Option.map_eq_some_iff.mp ran
      exact elfGetDescription_confined (by simpa using valid) regs.edx.toNat_lt described

/-- With a size of zero the terminator alone goes outside the buffer. -/
theorem sysGetcwd_confined_iff :
    Confined k regs.ebx.toNat regs.ecx.toNat (sysGetcwd k regs) ↔ Fits k regs .getcwd := by
  have word := regs.ecx.toNat_lt
  unfold sysGetcwd
  dsimp only
  cases valid : k.valid regs.ebx.toNat regs.ecx.toNat with
  | false =>
    rw [if_pos (by decide)]
    refine iff_of_true (confined_nil _ _ _) ?_
    by_cases zero : regs.ecx.toNat = 0
    · rw [zero] at valid
      exact Or.inr valid
    · exact Or.inl (Nat.pos_of_ne_zero zero)
  | true =>
    rw [if_neg (by decide)]
    generalize lenIs : (if regs.ecx.toNat ≤ k.currentPath.length then (regs.ecx.toNat + 2 ^ 32 - 1) % 2 ^ 32
      else k.currentPath.length) = len
    by_cases zero : regs.ecx.toNat = 0
    · refine iff_of_false (fun confined => ?_) ?_
      · have inside := (confined _ (List.mem_append_right _ (mem_storesAt.mpr ⟨0, Nat.one_pos, rfl⟩))).1
        omega
      · rw [zero] at valid
        rintro (some | refused)
        · omega
        · rw [valid] at refused
          cases refused
    · refine iff_of_true ?_ (Or.inl (Nat.pos_of_ne_zero zero))
      have below : len + 1 ≤ regs.ecx.toNat := by
        rw [← lenIs]
        split
        · have whole : regs.ecx.toNat + 2 ^ 32 - 1 = regs.ecx.toNat - 1 + 2 ^ 32 := by omega
          rw [whole, Nat.add_mod_right, Nat.mod_eq_of_lt (by omega)]
          omega
        · omega
      apply confined_append
      · apply confined_storesAt 0 valid word
        rw [memcpyFrom, List.length_map, List.length_range]
        omega
      · exact confined_storesAt _ valid word below

theorem processInfo_length (info : ProcessInfo) : info.bytes.length = 50 := by
  simp [ProcessInfo.bytes, wordBytes]

theorem taskGetProcessInfo_confined (valid : k.valid buffer (sizeofProcessInfo * maxEntries) = true)
    (word : sizeofProcessInfo * maxEntries < 2 ^ 32) :
    Confined k buffer (sizeofProcessInfo * maxEntries) (taskGetProcessInfo k.tasks buffer maxEntries) := by
  intro store member
  obtain ⟨⟨info, i⟩, entry, stored⟩ := List.mem_flatMap.mp member
  have index := List.mem_zipIdx entry
  simp only [List.length_take] at index
  apply confined_storesAt _ valid word _ store stored
  rw [processInfo_length]
  unfold sizeofProcessInfo
  omega

/-- A product that wraps is not the size of what is stored. -/
theorem product_confined_iff (product : Nat)
    (stored : k.valid buffer product = true → product < 2 ^ 32 → Confined k buffer product stores) :
    Confined k buffer product (if ¬ k.valid buffer (product % 2 ^ 32) then [] else stores) ↔
      product < 2 ^ 32 ∨ k.valid buffer (product % 2 ^ 32) = false ∨ stores = [] := by
  cases valid : k.valid buffer (product % 2 ^ 32) with
  | false =>
    rw [if_pos (by decide)]
    exact iff_of_true (confined_nil _ _ _) (Or.inr (Or.inl rfl))
  | true =>
    rw [if_neg (by decide)]
    by_cases word : product < 2 ^ 32
    · rw [Nat.mod_eq_of_lt word] at valid
      exact iff_of_true (stored valid word) (Or.inl word)
    · cases stores with
      | nil => exact iff_of_true (confined_nil _ _ _) (Or.inr (Or.inr rfl))
      | cons store rest =>
        refine iff_of_false (fun confined => word (confined store List.mem_cons_self).2.1) ?_
        rintro (small | refused | empty)
        · exact word small
        · cases refused
        · cases empty

theorem taskGetProcessInfo_nil (entries : maxEntries ≠ 0) :
    taskGetProcessInfo tasks buffer maxEntries = [] ↔ tasks = [] := by
  obtain ⟨n, rfl⟩ := Nat.exists_eq_succ_of_ne_zero entries
  cases tasks with
  | nil => simp [taskGetProcessInfo]
  | cons info rest =>
    refine iff_of_false (fun none => ?_) (List.cons_ne_nil info rest)
    have first : ((buffer + sizeofProcessInfo * 0 + 0) % 2 ^ 32, info.bytes.getD 0 0) ∈
        taskGetProcessInfo (info :: rest) buffer (n + 1) := by
      rw [taskGetProcessInfo, List.take_succ_cons, List.zipIdx_cons, List.flatMap_cons]
      apply List.mem_append_left
      exact mem_storesAt.mpr ⟨0, by rw [processInfo_length]; decide, rfl⟩
    rw [none] at first
    cases first

theorem sysGetProcessInfo_confined_iff :
    Confined k regs.ebx.toNat (sizeofProcessInfo * regs.ecx.toNat) (sysGetProcessInfo k regs) ↔
      Fits k regs .getProcessInfo := by
  refine (product_confined_iff _ taskGetProcessInfo_confined).trans ?_
  by_cases word : sizeofProcessInfo * regs.ecx.toNat < 2 ^ 32
  · exact iff_of_true (Or.inl word) (Or.inl word)
  · have entries : regs.ecx.toNat ≠ 0 := fun zero => word (by rw [zero]; decide)
    exact or_congr Iff.rfl (or_congr Iff.rfl (taskGetProcessInfo_nil entries))

theorem pciGetDevices_confined (valid : k.valid buffer (sizeofPciDevice * maxEntries) = true)
    (word : sizeofPciDevice * maxEntries < 2 ^ 32) :
    Confined k buffer (sizeofPciDevice * maxEntries) (pciGetDevices k.pci buffer maxEntries) := by
  unfold pciGetDevices
  split
  · exact confined_nil _ _ _
  · apply confined_storesAt 0 valid word
    rw [memcpyFrom, List.length_map, List.length_range]
    unfold sizeofPciDevice
    omega

theorem pciGetDevices_nil (entries : maxEntries ≠ 0) (valid : k.valid buffer size = true) :
    pciGetDevices pci buffer maxEntries = [] ↔ pci.pciDeviceCount = 0 := by
  have nonnull : buffer ≠ 0 := by
    intro null
    have accepted : isValidUserPtr k.mem k.current buffer size = .accepted := of_decide_eq_true valid
    rw [isValidUserPtr, if_pos null] at accepted
    cases accepted
  rw [pciGetDevices, if_neg (by omega), storesAt, List.map_eq_nil_iff, List.range_eq_nil, memcpyFrom,
    List.length_map, List.length_range]
  unfold sizeofPciDevice
  omega

theorem sysGetPciDevices_confined_iff :
    Confined k regs.ebx.toNat (sizeofPciDevice * regs.ecx.toNat) (sysGetPciDevices k regs) ↔
      Fits k regs .getPciDevices := by
  refine (product_confined_iff _ pciGetDevices_confined).trans ?_
  by_cases word : sizeofPciDevice * regs.ecx.toNat < 2 ^ 32
  · exact iff_of_true (Or.inl word) (Or.inl word)
  · have entries : regs.ecx.toNat ≠ 0 := fun zero => word (by rw [zero]; decide)
    cases valid : k.valid regs.ebx.toNat (sizeofPciDevice * regs.ecx.toNat % 2 ^ 32) with
    | false => exact iff_of_true (Or.inr (Or.inl rfl)) (Or.inr (Or.inl valid))
    | true => exact or_congr Iff.rfl (or_congr (by rw [valid]) (pciGetDevices_nil entries valid))

end Calls

/-- A call stores only into a buffer that was accepted as a whole exactly when
its length is what the check is given. -/
theorem confined_iff (fuel : Nat) (k : Kernel) (regs : Registers) (call : BufferCall)
    (ran : run fuel k regs call = some stores) :
    Confined k (bufferOf regs call) (sizeOf regs call) stores ↔ Fits k regs call := by
  cases call with
  | read => exact iff_of_true (sysRead_confined ran) trivial
  | getcwd => exact Option.some.inj ran ▸ sysGetcwd_confined_iff
  | getDescription => exact iff_of_true (sysGetDescription_confined ran) trivial
  | syslog => exact iff_of_true (Option.some.inj ran ▸ sysSyslog_confined) trivial
  | getProcessInfo => exact Option.some.inj ran ▸ sysGetProcessInfo_confined_iff
  | getPciDevices => exact Option.some.inj ran ▸ sysGetPciDevices_confined_iff

/-! ## Nothing checked -/

/-- A kernel with an empty memory and one task in its list. -/
def oneTask : Kernel where
  mem := fun _ => 0
  current := some 0x1000
  fdTable := fun _ => none
  currentPath := Fat16Paths.rootPath
  behindPath := fun _ => 0
  log := ⟨fun _ => 0, 0, false⟩
  tasks := [⟨1, 0, 1, 0, 1, 1, [0x69, 0x64, 0x6C, 0x65]⟩]
  pci := ⟨fun _ => 0, 1⟩
  volume := MissingDirectories.twoEntries
  normalized := none
  granted := true

theorem confined_iff_getcwd :
    Confined oneTask 0x400000 0 (sysGetcwd oneTask ⟨0x400000, 0, 0⟩) ↔
    Fits oneTask ⟨0x400000, 0, 0⟩ .getcwd :=
  confined_iff 1 oneTask ⟨0x400000, 0, 0⟩ .getcwd rfl

/-- No page is mapped, so no byte can have been accepted. Yet SYS_GETCWD with
size 0 stores a byte in front of the buffer, and both calls that take a count
store into it when the count times the entry size is a multiple of 2^32. -/
theorem unchecked_stores :
    oneTask.valid 0x400000 0 = true ∧ oneTask.valid 0x400000 1 = false ∧
    (0x3FFFFF, 0) ∈ sysGetcwd oneTask ⟨0x400000, 0, 0⟩ ∧
    (0x400000, 1) ∈ sysGetProcessInfo oneTask ⟨0x400000, 0x40000000, 0⟩ ∧
    (0x400000, 0) ∈ sysGetPciDevices oneTask ⟨0x400000, 0x20000000, 0⟩ := by
  have valid : oneTask.valid 0x400000 0 = true := by decide
  refine ⟨valid, by decide, ?_, by decide +kernel, by decide +kernel⟩
  have size : (0 : UInt32).toNat = 0 := rfl
  rw [sysGetcwd]
  dsimp only
  rw [size, if_neg (fun refused => refused valid)]
  apply List.mem_append_right
  exact mem_storesAt.mpr ⟨0, Nat.one_pos, by decide⟩

end MeowMeowOS.ConfinedWrites

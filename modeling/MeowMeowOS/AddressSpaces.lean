import MeowMeowOS.FreeFrames

/-! Page directories and the kernel's way of reaching them. The code uses the
physical address of a frame as a pointer, so it touches the frame only where
the active directory translates that address to itself; each function ends with
the frame as its error when that is not so. -/
namespace MeowMeowOS.AddressSpaces
open ByteMemory PhysicalFrames VirtualMemory

/-- What the processor makes of an address under a directory. -/
def translate (m : Mem) (directory virt : Nat) : Option Nat :=
  if isPresent (entry m directory (pdIndex virt)) then
    let pte := entry m (frameOf (entry m directory (pdIndex virt))) (ptIndex virt)
    if isPresent pte then some (frameOf pte + virt % pageSize) else none
  else none

/-- The machine after boot. `directories` lists `kernel_directory` and every
directory created since. -/
structure Machine where
  pmm : PmmState
  kernelDirectory : Nat
  cr3 : Nat
  heapCurrentEnd : Nat
  directories : List Nat

def Machine.store (s : Machine) (m : Mem) : Machine := { s with pmm := { s.pmm with mem := m } }

/-- The frame's address is a pointer to the frame. -/
def Identity (s : Machine) (frame : Nat) : Prop := translate s.pmm.mem s.cr3 frame = some frame

instance (s : Machine) (frame : Nat) : Decidable (Identity s frame) :=
  inferInstanceAs (Decidable (_ = _))

/-- `for (i = 0; i < n; i++) dest[i] = src[i];` -/
def copyTable (m : Mem) (dest src n : Nat) : Mem :=
  (List.range n).foldl (fun m i => setEntry m dest i (entry m src i)) m

def vmmCreateDirectory (s : Machine) : Except Nat (Nat × Machine) :=
  let (newDir, pmm) := pmmAllocBlock s.pmm
  let s := { s with pmm := pmm }
  if newDir = 0 then .ok (0, s)
  else if ¬ Identity s newDir then .error newDir
  else if ¬ Identity s s.kernelDirectory then .error s.kernelDirectory
  else
    let m := memset s.pmm.mem newDir 0 pageSize
    let m := copyTable m newDir s.kernelDirectory 1023
    let m := setEntry m newDir 1023 (newDir ||| pagePresent ||| pageWrite)
    .ok (newDir, { s.store m with directories := newDir :: s.directories })

/-- An entry that `vmm_map_page_in_directory` writes. -/
def presentEntry (frame flags : Nat) : Nat := frameOf frame ||| flags % 4096 ||| pagePresent

/-- The end of `vmm_map_page_in_directory`, once there is a table. -/
def setPage (s : Machine) (pageDir phys virt flags : Nat) : Except Nat Machine :=
  let table := frameOf (entry s.pmm.mem pageDir (pdIndex virt))
  if table = 0 then .ok s
  else if ¬ Identity s table then .error table
  else .ok (s.store (setEntry s.pmm.mem table (ptIndex virt) (presentEntry phys flags)))

def vmmMapPageInDirectory (s : Machine) (pageDir phys virt flags : Nat) : Except Nat Machine :=
  if pageDir = 0 ∨ pageDir % pageSize ≠ 0 then .ok s
  else if phys = 0 ∨ virt = 0 then .ok s
  else if phys % pageSize ≠ 0 ∨ virt % pageSize ≠ 0 then .ok s
  else if ¬ Identity s pageDir then .error pageDir
  else if isPresent (entry s.pmm.mem pageDir (pdIndex virt)) = true then setPage s pageDir phys virt flags
  else
    let (newTable, pmm) := pmmAllocBlock s.pmm
    let s := { s with pmm := pmm }
    if newTable = 0 then .ok s
    else
      let s := s.store (setEntry s.pmm.mem pageDir (pdIndex virt) (presentEntry newTable flags))
      if ¬ Identity s newTable then .error newTable
      else setPage (s.store (memset s.pmm.mem newTable 0 pageSize)) pageDir phys virt flags

def vmmMapPage (s : Machine) (phys virt flags : Nat) : Except Nat Machine :=
  vmmMapPageInDirectory s s.cr3 phys virt flags

/-- One round of the loop of `heap_expand`: a frame is mapped at the end of the
heap, and the end moves on whether or not there was one. -/
def heapExpandPage (s : Machine) : Except Nat Machine :=
  let (phys, pmm) := pmmAllocBlock s.pmm
  match vmmMapPage { s with pmm := pmm } phys s.heapCurrentEnd (pagePresent ||| pageWrite) with
  | .error frame => .error frame
  | .ok s => .ok { s with heapCurrentEnd := (s.heapCurrentEnd + pageSize) % 2 ^ 32 }

def heapExpandPages : Nat → Machine → Except Nat Machine
  | 0, s => .ok s
  | n + 1, s =>
    match heapExpandPage s with
    | .error frame => .error frame
    | .ok s => heapExpandPages n s

/-- The mapping part of `heap_expand`. The block header it writes afterwards and
the links of the list are stores into the heap. -/
def heapExpand (s : Machine) (additionalSize : Nat) : Except Nat Machine :=
  heapExpandPages ((additionalSize + (pageSize - 1)) % 2 ^ 32 / pageSize) s

/-! ## Entries -/

section
variable {m m' : Mem} {b frame table i flags v : Nat}

theorem entry_lt (m : Mem) (table i : Nat) : entry m table i < 2 ^ 32 := readWord_lt _ _

@[simp] theorem entry_setEntry (m : Mem) (table i v : Nat) : entry (setEntry m table i v) table i = v % 2 ^ 32 :=
  readWord_writeWord _ _ _

theorem entry_setEntry_ne (ne : i ≠ j) : entry (setEntry m table i v) table j = entry m table j :=
  readWord_writeWord_apart _ _ _ _ (by omega)

theorem entry_agree (same : AgreeOn m m' frame (frame + pageSize)) (small : i < 1024) :
    entry m' frame i = entry m frame i := by
  unfold pageSize at same
  exact readWord_agree same (by omega) (by omega)

/-- The bytes of an entry lie in the page of its table. -/
theorem setEntry_outside (small : i < 1024) (apart : hi ≤ table ∨ table + pageSize ≤ lo) :
    AgreeOn m (setEntry m table i v) lo hi := by
  unfold pageSize at apart
  exact writeWord_agree _ _ _ _ _ (by omega)

theorem memset_outside (apart : hi ≤ a ∨ a + n ≤ lo) : AgreeOn m (memset m a v8 n) lo hi := by
  intro x above below
  have : ¬ (a ≤ x ∧ x < a + n) := by omega
  simp [memset, this]

theorem frameOf_frame (b : Nat) : frameOf (b * pageSize) = b * pageSize := by
  unfold frameOf pageSize
  omega

theorem or_low (low : v < pageSize) : b * pageSize ||| v = b * pageSize + v := by
  have := Nat.two_pow_add_eq_or_of_lt (i := 12) (b := v) low b
  rw [Nat.mul_comm b pageSize]
  exact this.symm

theorem presentEntry_frame (b flags : Nat) : ∃ low, low < pageSize ∧ low % 2 = 1 ∧
    presentEntry (b * pageSize) flags = b * pageSize + low := by
  refine ⟨flags % 4096 ||| 1, Nat.or_lt_two_pow (n := 12) (Nat.mod_lt _ (by decide)) (by decide), ?_, ?_⟩
  · rw [Nat.mod_two_eq_one_iff_testBit_zero]
    simp
  · rw [presentEntry, frameOf_frame, Nat.or_assoc]
    exact or_low (Nat.or_lt_two_pow (n := 12) (Nat.mod_lt _ (by decide)) (by decide))

/-- A present entry of a frame below 4 GiB names that frame. -/
theorem entry_present (small : b < 2 ^ 20) (low : v < pageSize) (odd : v % 2 = 1) :
    (b * pageSize + v) % 2 ^ 32 = b * pageSize + v ∧ isPresent (b * pageSize + v) = true ∧
      frameOf (b * pageSize + v) = b * pageSize := by
  unfold pageSize at *
  refine ⟨Nat.mod_eq_of_lt (by omega), ?_, ?_⟩
  · rw [isPresent, ← Nat.mod_two_eq_one_iff_testBit_zero]
    omega
  · unfold frameOf
    omega

end

end MeowMeowOS.AddressSpaces

import MeowMeowOS.ElfLoading

/-! The calls by which a task gets and returns memory: `SYS_ALLOC_PAGE`,
`SYS_FREE_PAGE` and `SYS_SBRK`, and the page faults in the range of the stack.
The error of a call is the frame at whose address the kernel faults. -/
namespace MeowMeowOS.TaskMemory
open ByteMemory PhysicalFrames VirtualMemory AddressSpaces ElfLoading

/-- The fields of `task_t` that these calls use. -/
structure Task where
  pageDirectory : Nat
  nextUserVaddr : Nat
  heapStart : Nat
  heapBreak : Nat
  deriving DecidableEq

/-- `(uint32_t)-1` -/
def minusOne : Nat := 0xFFFFFFFF

def sysAllocPage (s : Machine) (task : Task) : Except Nat (Nat × Machine × Task) :=
  let (phys, pmm) := pmmAllocBlock s.pmm
  let s := { s with pmm := pmm }
  if phys = 0 then .ok (0, s, task)
  else
    let virt := task.nextUserVaddr
    if virt < userVirtMin ∨ userStackTop ≤ virt then .ok (0, { s with pmm := pmmFreeBlock s.pmm phys }, task)
    else
      let next := (virt + pageSize) % 2 ^ 32
      let task := { task with nextUserVaddr := if userStackTop ≤ next then userStackTop else next }
      match vmmMapPageInDirectory s task.pageDirectory phys virt userPage with
      | .error frame => .error frame
      | .ok s => .ok (virt, s, task)

def sysFreePage (s : Machine) (task : Task) (virt : Nat) : Except Nat (Nat × Machine) :=
  if virt = 0 ∨ virt < userVirtMin ∨ kernelVirtStart ≤ virt ∨ virt % pageSize ≠ 0 then .ok (minusOne, s)
  else if ¬ Identity s task.pageDirectory then .error task.pageDirectory
  else
    let pde := entry s.pmm.mem task.pageDirectory (pdIndex virt)
    if isPresent pde = false then .ok (minusOne, s)
    else if ¬ Identity s (frameOf pde) then .error (frameOf pde)
    else
      let pte := entry s.pmm.mem (frameOf pde) (ptIndex virt)
      if isPresent pte = false then .ok (minusOne, s)
      else
        let s := { s with pmm := pmmFreeBlock s.pmm (frameOf pte) }
        .ok (0, s.store (setEntry s.pmm.mem (frameOf pde) (ptIndex virt) 0))

/-! ## SYS_SBRK -/

/-- The page loop with `n` pages to go. The result says whether it failed. -/
def sbrkPages (directory : Nat) : Nat → Nat → Machine → Except Nat (Bool × Machine)
  | 0, _, s => .ok (false, s)
  | n + 1, page, s =>
    let (physBlock, pmm) := pmmAllocBlock s.pmm
    let s := { s with pmm := pmm }
    if physBlock = 0 then .ok (true, s)
    else if ¬ Identity s physBlock then .error physBlock
    else
      match vmmMapPageInDirectory (s.store (memset s.pmm.mem physBlock 0 pageSize)) directory physBlock page
        userPage with
      | .error frame => .error frame
      | .ok s => sbrkPages directory n (page + pageSize) s

/-- A task without a break gets one on its first call. -/
def withBreak (task : Task) : Task :=
  if task.heapBreak = 0 then
    let oldBreak := if task.heapStart ≠ 0 then task.heapStart else 0x10000000
    { task with heapStart := oldBreak, heapBreak := oldBreak }
  else task

def sbrkLimit : Nat := 0xB0000000

/-- `(value + 0xFFF) & ~0xFFF` -/
def pageUp (value : Nat) : Nat := frameOf ((value + 0xFFF) % 2 ^ 32)

/-- `ebx` is the increment; read as `int32_t` it is negative from 2^31 on. -/
def sysSbrk (s : Machine) (task : Task) (ebx : Nat) : Except Nat (Nat × Machine × Task) :=
  let task := withBreak task
  let oldBreak := task.heapBreak
  if ebx = 0 then .ok (oldBreak, s, task)
  else
    let newBreak := (oldBreak + ebx) % 2 ^ 32
    if 2 ^ 31 ≤ ebx then
      if newBreak < task.heapStart then .ok (minusOne, s, task)
      else .ok (oldBreak, s, { task with heapBreak := newBreak })
    else if sbrkLimit ≤ newBreak ∨ newBreak < oldBreak then .ok (minusOne, s, task)
    else
      let startPage := pageUp oldBreak
      let endPage := pageUp newBreak
      match sbrkPages task.pageDirectory ((endPage - startPage) / pageSize) startPage s with
      | .error frame => .error frame
      | .ok (true, s) => .ok (minusOne, s, task)
      | .ok (false, s) => .ok (oldBreak, s, { task with heapBreak := newBreak })

/-! ## Stack faults -/

/-- The result is what the handler returns. -/
def vmmHandleUserPageFault (s : Machine) (faultAddr : Nat) : Except Nat (Bool × Machine) :=
  if faultAddr < userVirtMin ∨ kernelVirtStart ≤ faultAddr then .ok (false, s)
  else
    let page := frameOf faultAddr
    if userStackGuardMin ≤ page ∧ page < userStackTop then
      let (phys, pmm) := pmmAllocBlock s.pmm
      let s := { s with pmm := pmm }
      if phys = 0 then .ok (false, s)
      else
        match vmmMapPage s phys page userPage with
        | .error frame => .error frame
        | .ok s => .ok (true, s)
    else .ok (false, s)

end MeowMeowOS.TaskMemory

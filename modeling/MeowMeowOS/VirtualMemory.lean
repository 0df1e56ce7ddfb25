import MeowMeowOS.PhysicalFrames

/-! The page tables of `vmm.c`. The kernel reads and writes directories and
tables through their physical addresses, so every one of them is a run of
1024 words of the memory that the frame allocator manages. -/
namespace MeowMeowOS.VirtualMemory
open ByteMemory PhysicalFrames

def pagePresent : Nat := 1
def pageWrite : Nat := 2
def pageUser : Nat := 4

def userVirtMin : Nat := 0x00100000
def kernelVirtStart : Nat := 0xC0000000
def userStackTop : Nat := 0xBFFFF000
def userStackGuardMin : Nat := 0xBFC00000

/-- `value & ~0xFFF` -/
def frameOf (value : Nat) : Nat := value / 4096 * 4096

def pdIndex (virt : Nat) : Nat := virt / 2 ^ 22

def ptIndex (virt : Nat) : Nat := virt / 2 ^ 12 % 1024

/-- The entry of a directory or a table at a physical address. -/
def entry (m : Mem) (table i : Nat) : Nat := readWord m (table + 4 * i)

def setEntry (m : Mem) (table i v : Nat) : Mem := writeWord m (table + 4 * i) v

def isPresent (value : Nat) : Bool := value.testBit 0

def isUser (value : Nat) : Bool := value.testBit 2

def memset (m : Mem) (a : Nat) (v : UInt8) (n : Nat) : Mem :=
  fun x => if a ≤ x ∧ x < a + n then v else m x

/-- `for (i = 0; i < n; i++) table[i] = f(i);` -/
def fillTable (m : Mem) (table n : Nat) (f : Nat → Nat) : Mem :=
  (List.range n).foldl (fun m i => setEntry m table i (f i)) m

/-- The frames and `kernel_directory`. -/
structure VmmState where
  pmm : PmmState
  kernelDirectory : Nat

def identityEntry (base i : Nat) : Nat := (base + i * pageSize) ||| pagePresent ||| pageWrite

def vmmInitialize (s : PmmState) : VmmState :=
  let (kernelDirectory, s) := pmmAllocBlock s
  if kernelDirectory = 0 then ⟨s, 0⟩ else
    let s := { s with mem := memset s.mem kernelDirectory 0 pageSize }
    let (identityTable, s) := pmmAllocBlock s
    let (identityTable2, s) := pmmAllocBlock s
    if identityTable = 0 ∨ identityTable2 = 0 then ⟨s, kernelDirectory⟩ else
      let m := fillTable s.mem identityTable 1024 (identityEntry 0)
      let m := fillTable m identityTable2 1024 (identityEntry 0x400000)
      let m := setEntry m kernelDirectory 0 (identityTable ||| pagePresent ||| pageWrite)
      let m := setEntry m kernelDirectory 1 (identityTable2 ||| pagePresent ||| pageWrite)
      let m := setEntry m kernelDirectory 1023 (kernelDirectory ||| pagePresent ||| pageWrite)
      ⟨{ s with mem := m }, kernelDirectory⟩

end MeowMeowOS.VirtualMemory

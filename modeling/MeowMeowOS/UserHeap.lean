import MeowMeowOS.KernelHeap

/-! The allocator of the user library, `stdlib.c`, over the bytes of the
program's memory. Sizes and addresses are 32-bit words. Whether the kernel
grants the one `sbrk` a call can make is an argument of the call. -/
namespace MeowMeowOS.UserHeap
open ByteMemory
open KernelHeap (add32 sub32)

def blockMagic : Nat := 0xCAFEBABE
def blockAlign : Nat := 8

/-- `sizeof(user_block_t)`: five words. -/
def sizeofUserBlock : Nat := 20

def enomem : Nat := 12
def efault : Nat := 14
def einval : Nat := 22

/-- `(void *)-1` -/
def failed : Nat := 0xFFFFFFFF

/-- `ALIGN_UP` -/
def alignUp (x : Nat) : Nat := add32 x (blockAlign - 1) / blockAlign * blockAlign

/-- `struct user_block` as read from memory. -/
structure UserBlock where
  magic : Nat
  size : Nat
  free : Nat
  next : Nat
  prev : Nat
  deriving DecidableEq

def block (m : Mem) (a : Nat) : UserBlock where
  magic := readWord m a
  size := readWord m (a + 4)
  free := readWord m (a + 8)
  next := readWord m (a + 12)
  prev := readWord m (a + 16)

def setMagic (m : Mem) (a v : Nat) : Mem := writeWord m a v
def setSize (m : Mem) (a v : Nat) : Mem := writeWord m (a + 4) v
def setFree (m : Mem) (a v : Nat) : Mem := writeWord m (a + 8) v
def setNext (m : Mem) (a v : Nat) : Mem := writeWord m (a + 12) v
def setPrev (m : Mem) (a v : Nat) : Mem := writeWord m (a + 16) v

/-- The program's memory, `heap_head`, `errno`, and the break and the start of the
heap that the kernel keeps for it. -/
structure UserState where
  mem : Mem
  heapHead : Nat
  errno : Nat
  brk : Nat
  heapStart : Nat

/-- The kernel's answer: the previous break, or −1 when the heap would reach
0xB0000000 or frames are lacking. An increment of 2³¹ or more is negative as
`int32_t`, and is refused only if it ends below the start of the heap. -/
def sysSbrk (s : UserState) (increment : Nat) (granted : Bool) : Nat × UserState :=
  if 2 ^ 31 ≤ increment then
    let newBreak := add32 s.brk increment
    if newBreak < s.heapStart then (failed, s) else (s.brk, { s with brk := newBreak })
  else if granted = true ∧ s.brk + increment < 0xB0000000 then (s.brk, { s with brk := s.brk + increment })
  else (failed, s)

def sbrk (s : UserState) (increment : Nat) (granted : Bool) : Nat × UserState :=
  let (res, s) := sysSbrk s increment granted
  if res = failed then (failed, { s with errno := enomem }) else (res, s)

/-- Cuts a free block off behind the first `alignedSize` bytes of `curr`. -/
def splitBlock (m : Mem) (curr alignedSize : Nat) : Mem :=
  let split := add32 (add32 curr sizeofUserBlock) alignedSize
  let m := setMagic m split blockMagic
  let m := setSize m split (sub32 (sub32 (block m curr).size alignedSize) sizeofUserBlock)
  let m := setFree m split 1
  let m := setNext m split (block m curr).next
  let m := setPrev m split curr
  let m := if (block m curr).next ≠ 0 then setPrev m (block m curr).next split else m
  let m := setNext m curr split
  setSize m curr alignedSize

/-- The split, if what is left can hold another header and payload. -/
def splitLeftover (m : Mem) (curr alignedSize : Nat) : Mem :=
  if add32 (add32 alignedSize sizeofUserBlock) blockAlign ≤ (block m curr).size then
    splitBlock m curr alignedSize
  else m

/-- How the search through the list ends. -/
inductive Search where
  | corrupted
  | found (curr : Nat)
  | exhausted

def searchFree (m : Mem) (alignedSize : Nat) : Nat → Nat → Option Search
  | 0, _ => none
  | fuel + 1, curr =>
    if curr = 0 then some .exhausted
    else if (block m curr).magic ≠ blockMagic then some .corrupted
    else if (block m curr).free ≠ 0 ∧ alignedSize ≤ (block m curr).size then some (.found curr)
    else searchFree m alignedSize fuel (block m curr).next

/-- `while (tail->next) tail = tail->next;` -/
def lastBlock (m : Mem) : Nat → Nat → Option Nat
  | 0, _ => none
  | fuel + 1, tail => if (block m tail).next ≠ 0 then lastBlock m fuel (block m tail).next else some tail

/-- The header of a chunk that `sbrk` returned, before it is linked. -/
def newBlock (m : Mem) (a allocChunk : Nat) : Mem :=
  let m := setMagic m a blockMagic
  let m := setSize m a (sub32 allocChunk sizeofUserBlock)
  let m := setFree m a 0
  let m := setNext m a 0
  setPrev m a 0

/-- The chunk goes to the end of the list. -/
def linkLast (fuel : Nat) (s : UserState) (a : Nat) : Option UserState :=
  if s.heapHead = 0 then some { s with heapHead := a }
  else match lastBlock s.mem fuel s.heapHead with
    | none => none
    | some tail => some { s with mem := setPrev (setNext s.mem tail a) a tail }

/-- The part of `malloc` that asks the kernel for memory. -/
def growHeap (fuel : Nat) (s : UserState) (alignedSize : Nat) (granted : Bool) : Option (Nat × UserState) :=
  let totalReq := add32 sizeofUserBlock alignedSize
  let allocChunk := if totalReq < 4096 then 4096 else totalReq
  let (rawMem, s) := sbrk s allocChunk granted
  if rawMem = failed ∨ rawMem = 0 then some (0, { s with errno := enomem })
  else match linkLast fuel { s with mem := newBlock s.mem rawMem allocChunk } rawMem with
    | none => none
    | some s => some (add32 rawMem sizeofUserBlock, { s with mem := splitLeftover s.mem rawMem alignedSize })

/-- The pointer, 0 for `NULL`, and the state after the call. -/
def malloc (fuel : Nat) (s : UserState) (size : Nat) (granted : Bool) : Option (Nat × UserState) :=
  if size = 0 then some (0, s) else
    match searchFree s.mem (alignUp size) fuel s.heapHead with
    | none => none
    | some .corrupted => some (0, { s with errno := efault })
    | some (.found curr) => some (add32 curr sizeofUserBlock,
        { s with mem := setFree (splitLeftover s.mem curr (alignUp size)) curr 0 })
    | some .exhausted => growHeap fuel s (alignUp size) granted

/-- The block takes in its successor. -/
def coalesceForward (m : Mem) (b : Nat) : Mem :=
  let next := (block m b).next
  if next ≠ 0 ∧ (block m next).free ≠ 0 ∧ (block m next).magic = blockMagic then
    let m := setSize m b (add32 (block m b).size (add32 sizeofUserBlock (block m next).size))
    let m := setNext m b (block m (block m b).next).next
    if (block m b).next ≠ 0 then setPrev m (block m b).next b else m
  else m

/-- The predecessor takes in the block. -/
def coalesceBackward (m : Mem) (b : Nat) : Mem :=
  let prev := (block m b).prev
  if prev ≠ 0 ∧ (block m prev).free ≠ 0 ∧ (block m prev).magic = blockMagic then
    let m := setSize m prev (add32 (block m prev).size (add32 sizeofUserBlock (block m b).size))
    let m := setNext m prev (block m b).next
    if (block m b).next ≠ 0 then setPrev m (block m b).next prev else m
  else m

def free (s : UserState) (ptr : Nat) : UserState :=
  if ptr = 0 then s else
    let b := sub32 ptr sizeofUserBlock
    if (block s.mem b).magic ≠ blockMagic then s
    else { s with mem := coalesceBackward (coalesceForward (setFree s.mem b 1) b) b }

def memset (m : Mem) (a : Nat) (v : UInt8) (n : Nat) : Mem := fun x => if a ≤ x ∧ x < a + n then v else m x

def memcpy (m : Mem) (dest src n : Nat) : Mem :=
  fun x => if dest ≤ x ∧ x < dest + n then m (src + (x - dest)) else m x

def calloc (fuel : Nat) (s : UserState) (count size : Nat) (granted : Bool) : Option (Nat × UserState) :=
  if size ≠ 0 ∧ 0xFFFFFFFF / size < count then some (0, { s with errno := enomem }) else
    let total := count * size % 2 ^ 32
    match malloc fuel s total granted with
    | none => none
    | some (ptr, s) => some (ptr, if ptr ≠ 0 then { s with mem := memset s.mem ptr 0 total } else s)

/-- The block grows over its free successor, which it gives back in part. -/
def extendBlock (m : Mem) (b alignedSize : Nat) : Mem :=
  let next := (block m b).next
  let combined := add32 (add32 (block m b).size sizeofUserBlock) (block m next).size
  let m := setNext m b (block m next).next
  let m := if (block m b).next ≠ 0 then setPrev m (block m b).next b else m
  let m := setSize m b combined
  splitLeftover m b alignedSize

def realloc (fuel : Nat) (s : UserState) (ptr newSize : Nat) (granted : Bool) : Option (Nat × UserState) :=
  if ptr = 0 then malloc fuel s newSize granted
  else if newSize = 0 then some (0, free s ptr)
  else
    let b := sub32 ptr sizeofUserBlock
    if (block s.mem b).magic ≠ blockMagic then some (0, { s with errno := einval })
    else
      let alignedSize := alignUp newSize
      let next := (block s.mem b).next
      if alignedSize ≤ (block s.mem b).size then some (ptr, s)
      else if next ≠ 0 ∧ (block s.mem next).free ≠ 0 ∧ (block s.mem next).magic = blockMagic ∧
          alignedSize ≤ add32 (add32 (block s.mem b).size sizeofUserBlock) (block s.mem next).size then
        some (ptr, { s with mem := extendBlock s.mem b alignedSize })
      else
        match malloc fuel s newSize granted with
        | none => none
        | some (newPtr, s) =>
          if newPtr = 0 then some (0, s)
          else
            let copySize := if (block s.mem b).size < newSize then (block s.mem b).size else newSize
            some (newPtr, free { s with mem := memcpy s.mem newPtr ptr copySize } ptr)

/-! ## Header reads after header writes -/

/-- Two headers that do not share a byte. -/
abbrev Apart (a b : Nat) : Prop := a + 20 ≤ b ∨ b + 20 ≤ a

section Reads
variable (m : Mem) (a v : Nat)

theorem block_congr (same : AgreeOn m m' a (a + 20)) : block m' a = block m a := by
  simp only [block, readWord_agree same (Nat.le_refl a) (by omega),
    readWord_agree same (show a ≤ a + 4 by omega) (by omega),
    readWord_agree same (show a ≤ a + 8 by omega) (by omega),
    readWord_agree same (show a ≤ a + 12 by omega) (by omega),
    readWord_agree same (show a ≤ a + 16 by omega) (by omega)]

@[simp] theorem block_setMagic : block (setMagic m a v) a = { block m a with magic := v % 2 ^ 32 } := by
  simp [block, setMagic, readWord_writeWord_apart]

@[simp] theorem block_setSize : block (setSize m a v) a = { block m a with size := v % 2 ^ 32 } := by
  simp [block, setSize, readWord_writeWord_apart]

@[simp] theorem block_setFree : block (setFree m a v) a = { block m a with free := v % 2 ^ 32 } := by
  simp [block, setFree, readWord_writeWord_apart]

@[simp] theorem block_setNext : block (setNext m a v) a = { block m a with next := v % 2 ^ 32 } := by
  simp [block, setNext, readWord_writeWord_apart]

@[simp] theorem block_setPrev : block (setPrev m a v) a = { block m a with prev := v % 2 ^ 32 } := by
  simp [block, setPrev, readWord_writeWord_apart]

end Reads

end MeowMeowOS.UserHeap

import MeowMeowOS.ByteMemory

/-! The kernel heap of `mem/heap/heap.c` over byte-addressed memory: every
block header is read from and written to the bytes it occupies, so a header
that a merge swallows keeps its stale contents until something overwrites
them. Addresses and sizes are 32-bit words. -/
namespace MeowMeowOS.KernelHeap
open ByteMemory

/-- Sums and differences of `uint32_t` values wrap. -/
def add32 (a b : Nat) : Nat := (a + b) % 2 ^ 32

def sub32 (a b : Nat) : Nat := (a + 2 ^ 32 - b % 2 ^ 32) % 2 ^ 32

def heapMagic : Nat := 0x12345678

/-- `sizeof(heap_block_t)`: three words, a flag padded to a word, one word. -/
def sizeofHeapBlock : Nat := 20

def pageSize : Nat := 4096

/-- `struct heap_block` as read from memory. -/
structure HeapBlock where
  magic : Nat
  size : Nat
  isFree : Bool
  next : Nat
  prev : Nat
  deriving DecidableEq

def block (m : Mem) (a : Nat) : HeapBlock where
  magic := readWord m a
  size := readWord m (a + 4)
  isFree := m (a + 8) != 0
  next := readWord m (a + 12)
  prev := readWord m (a + 16)

def setMagic (m : Mem) (a v : Nat) : Mem := writeWord m a v
def setSize (m : Mem) (a v : Nat) : Mem := writeWord m (a + 4) v
def setIsFree (m : Mem) (a : Nat) (v : Bool) : Mem := writeByte m (a + 8) (if v then 1 else 0)
def setNext (m : Mem) (a v : Nat) : Mem := writeWord m (a + 12) v
def setPrev (m : Mem) (a v : Nat) : Mem := writeWord m (a + 16) v

/-- The file's static variables over memory. A pointer is an address, 0 is
`NULL`. -/
structure HeapState where
  mem : Mem
  heapStart : Nat
  heapCurrentEnd : Nat
  lastAlloc : Nat

def heapInitialize (m : Mem) (startAddr size : Nat) : HeapState :=
  let m := setMagic m startAddr heapMagic
  let m := setSize m startAddr (sub32 size sizeofHeapBlock)
  let m := setIsFree m startAddr true
  let m := setNext m startAddr 0
  let m := setPrev m startAddr 0
  { mem := m, heapStart := startAddr, heapCurrentEnd := add32 startAddr size,
    lastAlloc := startAddr }

/-- `while (current->next) current = current->next;` -/
def lastBlock (m : Mem) : Nat → Nat → Option Nat
  | 0, _ => none
  | fuel + 1, current =>
    if (block m current).next ≠ 0 then lastBlock m fuel (block m current).next else some current

/-- The pages an expansion asks for, in bytes. -/
def expansionSize (additionalSize : Nat) : Nat :=
  add32 additionalSize (pageSize - 1) / pageSize * pageSize

/-- The header of the area an expansion adds, before it is linked. -/
def newBigBlock (m : Mem) (a totalExpansionSize : Nat) : Mem :=
  let m := setMagic m a heapMagic
  let m := setSize m a (sub32 totalExpansionSize sizeofHeapBlock)
  let m := setIsFree m a true
  setNext m a 0

/-- The new area goes into the block before it when that one is free. -/
def mergeExpansion (m : Mem) (a : Nat) : Mem :=
  let prevBlock := (block m a).prev
  if prevBlock ≠ 0 ∧ (block m prevBlock).isFree = true then
    let m := setSize m prevBlock
      (add32 (block m prevBlock).size (add32 sizeofHeapBlock (block m a).size))
    setNext m prevBlock 0
  else m

/-- Frames and page tables are not part of this state: the expansion is taken
to have obtained and mapped its pages, which it cannot have done when the last
of them would lie at or behind the end of the address space. -/
def heapExpand (fuel : Nat) (s : HeapState) (additionalSize : Nat) : Option HeapState :=
  let totalExpansionSize := expansionSize additionalSize
  let expansionStart := s.heapCurrentEnd
  if 2 ^ 32 ≤ expansionStart + totalExpansionSize then none else
    let m := newBigBlock s.mem expansionStart totalExpansionSize
    match lastBlock m fuel s.heapStart with
    | none => none
    | some current =>
      let m := setPrev (setNext m current expansionStart) expansionStart current
      some { s with
        mem := mergeExpansion m expansionStart
        heapCurrentEnd := expansionStart + totalExpansionSize }

/-- `(size + 3) & ~3` -/
def formedSize (size : Nat) : Nat := add32 size 3 / 4 * 4

/-- The search of `mem_alloc`: the inner result is the block found, or none
when the loop is left without one. -/
def findBlock (s : HeapState) (formed : Nat) : Nat → Nat → Bool → Option (Option Nat)
  | 0, _, _ => none
  | fuel + 1, current, wrapped =>
    if current = 0 then some none
    else if (block s.mem current).isFree = true ∧ formed ≤ (block s.mem current).size then
      some (some current)
    else
      let next := (block s.mem current).next
      let wraps := next = 0 ∧ wrapped = false
      let current := if wraps then s.heapStart else next
      let wrapped := if wraps then true else wrapped
      if wrapped = true ∧ current = s.lastAlloc then some none
      else findBlock s formed fuel current wrapped

/-- The new free block cut off behind the first `formed` bytes of `current`. -/
def splitBlock (m : Mem) (current formed : Nat) : Mem :=
  let newBlock := add32 current (add32 sizeofHeapBlock formed)
  let m := setMagic m newBlock heapMagic
  let m := setSize m newBlock (sub32 (sub32 (block m current).size formed) sizeofHeapBlock)
  let m := setIsFree m newBlock true
  let m := setNext m newBlock (block m current).next
  let m := setPrev m newBlock current
  let m := if (block m newBlock).next ≠ 0 then setPrev m (block m newBlock).next newBlock else m
  let m := setSize m current formed
  setNext m current newBlock

def takeBlock (s : HeapState) (current formed : Nat) : HeapState :=
  let m := if add32 formed (sizeofHeapBlock + 4) < (block s.mem current).size then
      splitBlock s.mem current formed else s.mem
  let m := setIsFree m current false
  let next := (block m current).next
  { s with mem := m, lastAlloc := if next ≠ 0 then next else s.heapStart }

/-- The returned pointer and the state after the call. -/
def memAlloc : Nat → HeapState → Nat → Option (Nat × HeapState)
  | 0, _, _ => none
  | fuel + 1, s, size =>
    match findBlock s (formedSize size) fuel s.lastAlloc false with
    | none => none
    | some (some current) =>
      some (add32 current sizeofHeapBlock, takeBlock s current (formedSize size))
    | some none =>
      match heapExpand fuel s (add32 size sizeofHeapBlock) with
      | none => none
      | some s => memAlloc fuel s size

/-- The block swallows its free successor. -/
def mergeForward (s : HeapState) (b : Nat) : HeapState :=
  let next := (block s.mem b).next
  if next ≠ 0 ∧ (block s.mem next).isFree = true then
    let lastAlloc := if s.lastAlloc = next then b else s.lastAlloc
    let m := setSize s.mem b
      (add32 (block s.mem b).size (add32 sizeofHeapBlock (block s.mem next).size))
    let m := setNext m b (block m next).next
    let m := if (block m b).next ≠ 0 then setPrev m (block m b).next b else m
    { s with mem := m, lastAlloc := lastAlloc }
  else s

/-- The free predecessor swallows the block. The cursor is moved onto the
block that disappears, not off it. -/
def mergeBackward (s : HeapState) (b : Nat) : HeapState :=
  let prevBlock := (block s.mem b).prev
  if prevBlock ≠ 0 ∧ (block s.mem prevBlock).isFree = true then
    let lastAlloc := if s.lastAlloc = prevBlock then b else s.lastAlloc
    let m := setSize s.mem prevBlock
      (add32 (block s.mem prevBlock).size (add32 sizeofHeapBlock (block s.mem b).size))
    let m := setNext m prevBlock (block m b).next
    let m := if (block m b).next ≠ 0 then setPrev m (block m b).next prevBlock else m
    { s with mem := m, lastAlloc := lastAlloc }
  else s

def memFree (s : HeapState) (ptr : Nat) : HeapState :=
  if ptr = 0 then s else
    let b := sub32 ptr sizeofHeapBlock
    if (block s.mem b).magic ≠ heapMagic then s
    else if (block s.mem b).isFree = true then s
    else mergeBackward (mergeForward { s with mem := setIsFree s.mem b true } b) b

/-! ## Header reads after header writes -/

/-- Two headers that do not share a byte. -/
abbrev Apart (a b : Nat) : Prop := a + 20 ≤ b ∨ b + 20 ≤ a

section Reads
variable (m : Mem) (a v : Nat) (flag : Bool)

theorem block_congr (same : AgreeOn m m' a (a + 20)) : block m' a = block m a := by
  simp only [block, readWord_agree same (Nat.le_refl a) (by omega),
    readWord_agree same (show a ≤ a + 4 by omega) (by omega), same (a + 8) (by omega) (by omega),
    readWord_agree same (show a ≤ a + 12 by omega) (by omega),
    readWord_agree same (show a ≤ a + 16 by omega) (by omega)]

@[simp] theorem block_setMagic :
    block (setMagic m a v) a = { block m a with magic := v % 2 ^ 32 } := by
  simp [block, setMagic, readWord_writeWord_apart, writeWord]

@[simp] theorem block_setSize :
    block (setSize m a v) a = { block m a with size := v % 2 ^ 32 } := by
  simp [block, setSize, readWord_writeWord_apart, writeWord]

@[simp] theorem block_setIsFree :
    block (setIsFree m a flag) a = { block m a with isFree := flag } := by
  cases flag <;> simp [block, setIsFree, readWord_writeByte_apart, writeByte]

@[simp] theorem block_setNext :
    block (setNext m a v) a = { block m a with next := v % 2 ^ 32 } := by
  simp [block, setNext, readWord_writeWord_apart, writeWord]

@[simp] theorem block_setPrev :
    block (setPrev m a v) a = { block m a with prev := v % 2 ^ 32 } := by
  simp [block, setPrev, readWord_writeWord_apart, writeWord]

/-- A store into one header leaves every header apart from it as it was. -/
theorem block_store_apart {b : Nat} (apart : Apart a b) :
    (∀ v, block (setMagic m a v) b = block m b) ∧ (∀ v, block (setSize m a v) b = block m b) ∧
      (∀ flag, block (setIsFree m a flag) b = block m b) ∧
      (∀ v, block (setNext m a v) b = block m b) ∧ ∀ v, block (setPrev m a v) b = block m b :=
  ⟨fun _ => block_congr _ _ (writeWord_agree _ _ _ _ _ (by omega)),
    fun _ => block_congr _ _ (writeWord_agree _ _ _ _ _ (by omega)),
    fun _ => block_congr _ _ (writeByte_agree _ _ _ _ _ (by omega)),
    fun _ => block_congr _ _ (writeWord_agree _ _ _ _ _ (by omega)),
    fun _ => block_congr _ _ (writeWord_agree _ _ _ _ _ (by omega))⟩

end Reads

theorem add32_of_lt (small : a + b < 2 ^ 32) : add32 a b = a + b := Nat.mod_eq_of_lt small

theorem sub32_of_le (le : b ≤ a) (small : a < 2 ^ 32) : sub32 a b = a - b := by
  unfold sub32
  omega

theorem block_next_lt (m : Mem) (a : Nat) : (block m a).next < 2 ^ 32 := readWord_lt _ _

end MeowMeowOS.KernelHeap

import MeowMeowOS.AddressSpaces

/-! `elf_load_and_spawn` up to the call of `task_create_user`: the headers, the
segments page by page, and the stack and TLS pages of the new directory. -/
namespace MeowMeowOS.ElfLoading
open ByteMemory PhysicalFrames VirtualMemory AddressSpaces

/-- The fields of `elf32_phdr_t` that the loader reads. -/
structure Elf32Phdr where
  pType : Nat
  pOffset : Nat
  pVaddr : Nat
  pFilesz : Nat
  pMemsz : Nat
  deriving DecidableEq

/-- Why a call ends early: `return 0`, or an access outside the frames that the
active directory maps to themselves. -/
inductive Stop where
  | refused
  | outOfMemory
  | fault (frame : Nat)
  deriving DecidableEq

/-- What the loader hands to `task_create_user`. -/
structure Loaded where
  machine : Machine
  directory : Nat
  entry : Nat
  maxVaddr : Nat

def elfMagic : Nat := 0x464C457F

def ptLoad : Nat := 1

/-- `vfs_read` on a file: as many bytes as there are from `offset` on. -/
def vfsRead (file : List UInt8) (offset size : Nat) : List UInt8 := (file.drop offset).take size

def memcpy (m : Mem) (dest : Nat) (bytes : List UInt8) : Mem :=
  fun x => if dest ≤ x ∧ x < dest + bytes.length then bytes.getD (x - dest) 0 else m x

def ofFault {α : Type} : Except Nat α → Except Stop α
  | .ok a => .ok a
  | .error frame => .error (.fault frame)

/-- `phdrs[i]` in the buffer that starts at 0. -/
def programHeader (buffer : Mem) (i : Nat) : Elf32Phdr :=
  ⟨readWord buffer (32 * i), readWord buffer (32 * i + 4), readWord buffer (32 * i + 8),
    readWord buffer (32 * i + 16), readWord buffer (32 * i + 20)⟩

/-- The buffer of `phdrSize` bytes that the file is read into, and what the heap
holds after it. -/
def headerBuffer (file : List UInt8) (phoff phdrSize : Nat) (beyond : Mem) : Mem :=
  fun x => if x < phdrSize then (vfsRead file phoff phdrSize).getD x 0 else beyond x

/-! ## Segments -/

def startPage (ph : Elf32Phdr) : Nat := frameOf ph.pVaddr

def endPage (ph : Elf32Phdr) : Nat := frameOf ((ph.pVaddr + ph.pMemsz + 0xFFF) % 2 ^ 32)

def pageCount (ph : Elf32Phdr) : Nat := (endPage ph + 2 ^ 32 - startPage ph) % 2 ^ 32 / 4096

def userPage : Nat := pagePresent ||| pageWrite ||| pageUser

/-- The end of one round of the page loop: the part of the file that belongs to
the page. Where the addresses of a segment pass 2^32, what is read would not stay
on the page. -/
def readPage (s : Machine) (phys : Nat) (ph : Elf32Phdr) (file : List UInt8) (pageVaddr : Nat) : Except Stop Machine :=
  let destOffset := if pageVaddr < ph.pVaddr then ph.pVaddr - pageVaddr else 0
  let segmentOffset := if pageVaddr < ph.pVaddr then 0 else pageVaddr - ph.pVaddr
  let pageCapacity := (pageSize + 2 ^ 32 - destOffset) % 2 ^ 32
  let readLen := if segmentOffset < ph.pFilesz then min (ph.pFilesz - segmentOffset) pageCapacity else 0
  if readLen = 0 then .ok s
  else if pageSize < destOffset + readLen then .error (.fault ((phys + destOffset) % 2 ^ 32))
  else if ¬ Identity s phys then .error (.fault phys)
  else .ok (s.store (memcpy s.pmm.mem (phys + destOffset)
    (vfsRead file ((ph.pOffset + segmentOffset) % 2 ^ 32) readLen)))

def loadPage (s : Machine) (directory : Nat) (ph : Elf32Phdr) (file : List UInt8) (p : Nat) : Except Stop Machine :=
  let pageVaddr := (startPage ph + p * pageSize) % 2 ^ 32
  let (phys, pmm) := pmmAllocBlock s.pmm
  let s := { s with pmm := pmm }
  if phys = 0 then .error .outOfMemory
  else if ¬ Identity s phys then .error (.fault phys)
  else
    match vmmMapPageInDirectory (s.store (memset s.pmm.mem phys 0 pageSize)) directory phys pageVaddr userPage with
    | .error frame => .error (.fault frame)
    | .ok s => readPage s phys ph file pageVaddr

/-- The rounds of the page loop from `p` on, `remaining` of them to go. -/
def loadPages (directory : Nat) (ph : Elf32Phdr) (file : List UInt8) : Nat → Nat → Machine → Except Stop Machine
  | 0, _, s => .ok s
  | remaining + 1, p, s =>
    match loadPage s directory ph file p with
    | .error stop => .error stop
    | .ok s => loadPages directory ph file remaining (p + 1) s

def loadSegment (s : Machine) (directory : Nat) (ph : Elf32Phdr) (file : List UInt8) : Except Stop Machine :=
  if ph.pType = ptLoad then loadPages directory ph file (pageCount ph) 0 s else .ok s

def loadSegments (directory : Nat) (file : List UInt8) : List Elf32Phdr → Machine → Except Stop Machine
  | [], s => .ok s
  | ph :: rest, s =>
    match loadSegment s directory ph file with
    | .error stop => .error stop
    | .ok s => loadSegments directory file rest s

def maxVaddrOf (phdrs : List Elf32Phdr) : Nat :=
  phdrs.foldl (fun highest ph => if ph.pType = ptLoad ∧ highest < endPage ph then endPage ph else highest) 0

/-! ## Stack and arguments -/

def userStackPage : Nat := 0xBFFFF000

def userTlsPage : Nat := 0xBFFFE000

/-- A page of zeros at a fixed address of the new directory. -/
def addPage (s : Machine) (directory virt : Nat) : Except Stop (Nat × Machine) :=
  let (phys, pmm) := pmmAllocBlock s.pmm
  if phys = 0 then .error .outOfMemory
  else
    match vmmMapPageInDirectory { s with pmm := pmm } directory phys virt userPage with
    | .error frame => .error (.fault frame)
    | .ok s =>
      if ¬ Identity s phys then .error (.fault phys) else .ok (phys, s.store (memset s.pmm.mem phys 0 pageSize))

structure Strings where
  mem : Mem
  strPos : Nat
  argvPtrs : Nat → Nat
  done : Bool

/-- One round of the loop that copies the arguments. -/
def copyArgument (physBase : Nat) (strings : Strings) (i : Nat) (argument : List UInt8) : Strings :=
  let len := argument.length + 1
  if strings.done ∨ pageSize - 16 < strings.strPos + len then { strings with done := true }
  else
    ⟨memcpy strings.mem (physBase + strings.strPos) (argument ++ [0]), strings.strPos + len,
      fun j => if j = i then userStackPage + strings.strPos else strings.argvPtrs j, false⟩

def copyArguments (physBase : Nat) (strings : Strings) (argv : List (List UInt8)) : Strings :=
  argv.zipIdx.foldl (fun strings argument => copyArgument physBase strings argument.2 argument.1) strings

/-- What ends up on the stack page. `unset` are the words of `argv_ptrs` that
nothing has stored to. -/
def placeArguments (m : Mem) (physBase : Nat) (argv : List (List UInt8)) (unset : Nat → Nat) : Mem :=
  let argv := argv.take 63
  let argc := argv.length
  let strings := copyArguments physBase ⟨m, pageSize - 256, unset, false⟩ argv
  let argvPtrs := fun j => if j = argc then 0 else strings.argvPtrs j
  let aligned := (strings.strPos + 3) / 4 * 4
  let ptrArrayOff := if pageSize - 16 < aligned + (argc + 1) * 4 then pageSize - 16 - (argc + 1) * 4 else aligned
  let m := (List.range (argc + 1)).foldl (fun m i => setEntry m (physBase + ptrArrayOff) i (argvPtrs i)) strings.mem
  let m := setEntry m (physBase + (pageSize - 16)) 0 argc
  setEntry m (physBase + (pageSize - 16)) 1 (userStackPage + ptrArrayOff)

def loadStack (s : Machine) (directory : Nat) (argv : List (List UInt8)) (unset : Nat → Nat) : Except Stop Machine :=
  match addPage s directory userStackPage with
  | .error stop => .error stop
  | .ok (stackPhys, s) =>
    match addPage s directory userTlsPage with
    | .error stop => .error stop
    | .ok (_, s) =>
      if ¬ Identity s stackPhys then .error (.fault stackPhys)
      else .ok (s.store (placeArguments s.pmm.mem stackPhys argv unset))

/-! ## The call -/

/-- The program headers that the loop goes over. -/
def programHeaders (file : List UInt8) (beyond : Mem) : List Elf32Phdr :=
  let header : Mem := fun x => file.getD x 0
  let phdrSize := readHalf header 0x2C * readHalf header 0x2A % 2 ^ 32
  (List.range (readHalf header 0x2C)).map (programHeader (headerBuffer file (readWord header 0x1C) phdrSize beyond))

/-- The checks of the file header. -/
def Accepts (file : List UInt8) : Prop :=
  let header : Mem := fun x => file.getD x 0
  52 ≤ file.length ∧ readWord header 0 = elfMagic ∧ readHalf header 0x10 = 2 ∧ readWord header 0x18 ≠ 0 ∧
    readHalf header 0x2C * readHalf header 0x2A % 2 ^ 32 ≠ 0

instance (file : List UInt8) : Decidable (Accepts file) := inferInstanceAs (Decidable (_ ∧ _ ∧ _ ∧ _ ∧ _))

/-- `granted` says whether there is room for the program headers. The machine is
the one after that allocation. -/
def elfLoad (s : Machine) (file : List UInt8) (granted : Bool) (beyond : Mem) (argv : List (List UInt8))
    (unset : Nat → Nat) : Except Stop Loaded :=
  let header : Mem := fun x => file.getD x 0
  if ¬ Accepts file then .error .refused
  else if granted = false then .error .refused
  else
    let phdrs := programHeaders file beyond
    match ofFault (vmmCreateDirectory s) with
    | .error stop => .error stop
    | .ok (newDirectory, s) =>
      match loadSegments newDirectory file phdrs s with
      | .error stop => .error stop
      | .ok s =>
        match loadStack s newDirectory argv unset with
        | .error stop => .error stop
        | .ok s => .ok ⟨s, newDirectory, readWord header 0x18, maxVaddrOf phdrs⟩

end MeowMeowOS.ElfLoading

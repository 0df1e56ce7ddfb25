import MeowMeowOS.Fat16Vfs
import MeowMeowOS.Pipes
import MeowMeowOS.UserPointers

/-! The six system calls that fill a buffer of the user's: what each of them
hands to the pointer check, and what it then stores where. -/
namespace MeowMeowOS.BufferCalls
open ByteMemory Fat16Disk Fat16Names Pipes Fat16Vfs UserPointers

/-- A byte and the address it is stored at. -/
abbrev Store := Nat × UInt8

/-- Bytes from an address on; addresses are 32 bits wide. -/
def storesAt (buffer : Nat) (bytes : List UInt8) : List Store :=
  (List.range bytes.length).map fun i => ((buffer + i) % 2 ^ 32, bytes.getD i 0)

/-- `memcpy` of `n` bytes from the start of `source`. -/
def memcpyFrom (source : Mem) (n : Nat) : List UInt8 := (List.range n).map source

/-! ## Reading from a node -/

def zeroRead (size : Nat) : List UInt8 := List.replicate size 0

def randomRead : Nat → UInt32 → List UInt8
  | 0, _ => []
  | size + 1, seed =>
    let seed := seed * 1103515245 + 12345
    (seed >>> 16).toUInt8 :: randomRead size seed

/-- The loop over the sectors of the disk; every round reads at least one byte. -/
def ataLoop (disk : Disk) (offset size : Nat) : Nat → List UInt8 → List UInt8
  | 0, acc => acc
  | rounds + 1, acc =>
    if acc.length < size then
      let currentOffset := (offset + acc.length) % 2 ^ 32
      let bytesToRead := min (512 - currentOffset % 512) (size - acc.length)
      let sector := disk.sectors (currentOffset / 512)
      ataLoop disk offset size rounds
        (acc ++ (List.range bytesToRead).map fun i => sector (currentOffset % 512 + i))
    else acc

def ataVfsRead (disk : Disk) (offset size : Nat) : List UInt8 := ataLoop disk offset size size []

/-- `typed` are the results of the calls of `keyboard_read_char`. -/
def keyboardVfsRead (typed : Nat → UInt8) (size : Nat) : List UInt8 :=
  ((List.range size).map typed).takeWhile (· ≠ 0)

/-- The critical sections of a read from a pipe, with the pipe as each of them
finds it. -/
def pipeVfsRead (sections : List PipeRing) (size : Nat) : List UInt8 :=
  (sections.foldl (fun (call : ReadCall) pipe => if call.Running then (readSection pipe call).2 else call)
    ⟨size, [], false⟩).buffer

def procfsRead (contents : List UInt8) (offset size : Nat) : List UInt8 :=
  if contents.length ≤ offset then []
  else (contents.drop offset).take (min size (contents.length - offset))

/-- The nodes that a descriptor can stand for, with what a read of each finds. -/
inductive ReadNode where
  | unreadable
  | null
  | zero
  | random (seed : UInt32)
  | hda (disk : Disk)
  | stdin (typed : Nat → UInt8)
  | pipe (sections : List PipeRing)
  | procfs (contents : List UInt8)
  | fat16 (volume : Volume) (node : FileNode)

/-- `node->length` of a node of type `VFS_FILE`. -/
def ReadNode.fileLength : ReadNode → Option Nat
  | .procfs contents => some contents.length
  | .fat16 _ node => some node.length
  | _ => none

/-- The bytes that arrive in the buffer. -/
def vfsRead (fuel : Nat) (node : ReadNode) (offset size : Nat) : Option (List UInt8) :=
  match node with
  | .unreadable => some []
  | .null => some []
  | .zero => some (zeroRead size)
  | .random seed => some (randomRead size seed)
  | .hda disk => some (ataVfsRead disk offset size)
  | .stdin typed => some (keyboardVfsRead typed size)
  | .pipe sections => some (pipeVfsRead sections size)
  | .procfs contents => some (procfsRead contents offset size)
  | .fat16 volume node => (fat16VfsRead fuel volume node offset size).map (·.1)

/-! ## The description of a program -/

/-- `@DESC:` -/
def descriptionTag : List UInt8 := [0x40, 0x44, 0x45, 0x53, 0x43, 0x3A]

/-- The first place in a chunk where the tag stands. -/
def findTag (chunk : List UInt8) : Option Nat :=
  (List.range (chunk.length - 5)).find? fun i => (chunk.drop i).take 6 == descriptionTag

/-- What a found description leaves in the buffer: the bytes read, and a zero
behind them when they contain none. -/
def storeDescription (buffer : Nat) (bytes : List UInt8) : List Store :=
  if 0 ∈ bytes then storesAt buffer bytes
  else storesAt buffer bytes ++ storesAt (buffer + bytes.length) [0]

/-- The loop over the chunks of the file, up to `scanLimit`. -/
def searchDescription (node : FileNode) (buffer size scanLimit : Nat) :
    Nat → Volume → Nat → Option (Bool × List Store)
  | 0, _, _ => none
  | fuel + 1, v, offset =>
    if offset < scanLimit then do
      let toRead := if scanLimit < offset + 1024 then scanLimit - offset else 1024
      let (chunk, v) ← fat16VfsRead fuel v node offset toRead
      if chunk.length < 6 then some (false, [])
      else
        match findTag chunk with
        | none => searchDescription node buffer size scanLimit fuel v (offset + (chunk.length - 5))
        | some i => do
          let (bytes, v) ← fat16VfsRead fuel v node (offset + i + 6) (size - 1)
          if bytes = [] then
            searchDescription node buffer size scanLimit fuel v (offset + (chunk.length - 5))
          else return (true, storeDescription buffer bytes)
    else some (false, [])

/-- `/system/bin/usr/commands` -/
def commandsPath : CString :=
  [0x2F, 0x73, 0x79, 0x73, 0x74, 0x65, 0x6D, 0x2F, 0x62, 0x69, 0x6E, 0x2F, 0x75, 0x73, 0x72, 0x2F,
    0x63, 0x6F, 0x6D, 0x6D, 0x61, 0x6E, 0x64, 0x73]

/-- The node of the file, tried under a second path when there is none under
the first. -/
def openProgram (fuel : Nat) (v : Volume) (filename : CString) (granted : Bool) :
    Option (Option FileNode × Volume) := do
  let (node, v) ← fat16VfsOpen fuel v filename granted
  match node with
  | some node => return (some node, v)
  | none =>
    if filename.head? = some Fat16Paths.slash then
      fat16VfsOpen fuel v ((commandsPath ++ filename).take 255) granted
    else fat16VfsOpen fuel v ((Fat16Paths.slash :: filename).take 255) granted

def elfMagic : List UInt8 := [0x7F, 0x45, 0x4C, 0x46]

def elfGetDescription (fuel : Nat) (v : Volume) (filename : CString) (granted : Bool) (buffer size : Nat) :
    Option (Bool × List Store) :=
  if buffer = 0 ∨ size = 0 then some (false, [])
  else do
    let (node, v) ← openProgram fuel v filename granted
    match node with
    | none => return (false, [])
    | some node =>
      if node.length < 4 then return (false, [])
      else
        let (magic, v) ← fat16VfsRead fuel v node 0 4
        if magic ≠ elfMagic then return (false, [])
        else searchDescription node buffer size (min node.length 65536) fuel v 0

/-! ## The log, the tasks and the devices -/

def ringBufferSize : Nat := 16384

structure Log where
  logBuffer : Mem
  logHead : Nat
  logWrapped : Bool

/-- The newest bytes of the log, at most `maxSize` of them. -/
def loggerReadLog (log : Log) (maxSize : Nat) : List UInt8 :=
  let held := if log.logWrapped then ringBufferSize else log.logHead
  let totalSize := if maxSize < held then maxSize else held
  let readPtr :=
    if maxSize < held then
      if log.logWrapped then (log.logHead + (ringBufferSize - maxSize)) % ringBufferSize
      else log.logHead - maxSize
    else if log.logWrapped then log.logHead else 0
  (List.range totalSize).map fun i => log.logBuffer ((readPtr + i) % ringBufferSize)

structure ProcessInfo where
  pid : UInt32
  parentPid : UInt32
  state : UInt32
  cpuTicks : UInt32
  basePriority : UInt8
  dynamicPriority : UInt8
  name : CString

/-- `sizeof(sys_process_info_t)`: 50 bytes, rounded up to whole words. -/
def sizeofProcessInfo : Nat := 52

def wordBytes (w : UInt32) : List UInt8 :=
  [w.toUInt8, (w >>> 8).toUInt8, (w >>> 16).toUInt8, (w >>> 24).toUInt8]

/-- The fields in their order; the name is cut to 31 bytes and filled up with
zeros. -/
def ProcessInfo.bytes (info : ProcessInfo) : List UInt8 :=
  wordBytes info.pid ++ wordBytes info.parentPid ++ wordBytes info.state ++ wordBytes info.cpuTicks ++
    [info.basePriority, info.dynamicPriority] ++ (info.name ++ List.replicate 31 0).take 31 ++ [0]

/-- One entry for each task in the list, `maxEntries` at most. -/
def taskGetProcessInfo (tasks : List ProcessInfo) (buffer maxEntries : Nat) : List Store :=
  ((tasks.take maxEntries).zipIdx).flatMap fun entry =>
    storesAt (buffer + sizeofProcessInfo * entry.2) entry.1.bytes

/-- `sizeof(pci_device_t)`, the same as `sizeof(sys_pci_device_t)`. -/
def sizeofPciDevice : Nat := 40

structure PciDevices where
  pciDevices : Mem
  pciDeviceCount : Nat

def pciGetDevices (pci : PciDevices) (buffer maxCount : Nat) : List Store :=
  if buffer = 0 ∨ maxCount = 0 then []
  else storesAt buffer (memcpyFrom pci.pciDevices (min pci.pciDeviceCount maxCount * sizeofPciDevice))

/-! ## The calls -/

structure OpenFile where
  node : ReadNode
  currentOffset : Nat

/-- What the calls find: the page tables and the current task's directory, its
descriptors, the current path with the bytes behind its final zero, the log,
the task list, the devices, and the volume on which a program is looked for
under its normalized path. -/
structure Kernel where
  mem : Mem
  current : Option Nat
  fdTable : Nat → Option OpenFile
  currentPath : CString
  behindPath : Mem
  log : Log
  tasks : List ProcessInfo
  pci : PciDevices
  volume : Volume
  normalized : Option CString
  granted : Bool

structure Registers where
  ebx : UInt32
  ecx : UInt32
  edx : UInt32

def Kernel.valid (k : Kernel) (ptr len : Nat) : Bool := isValidUserPtr k.mem k.current ptr len = .accepted

def maxOpenFiles : Nat := 16

/-- A negative descriptor is one of the numbers from 2^31 on. -/
def sysRead (fuel : Nat) (k : Kernel) (regs : Registers) : Option (List Store) :=
  let buffer := regs.ecx.toNat
  let bytesToRead := regs.edx.toNat
  if ¬ k.valid buffer bytesToRead then some []
  else if maxOpenFiles ≤ regs.ebx.toNat then some []
  else
    match k.fdTable regs.ebx.toNat with
    | none => some []
    | some file =>
      if ∃ length ∈ file.node.fileLength, length ≤ file.currentOffset then some []
      else (vfsRead fuel file.node file.currentOffset bytesToRead).map (storesAt buffer)

/-- The current path in memory. -/
def pathMemory (k : Kernel) : Mem := fun i =>
  if i < k.currentPath.length then k.currentPath.getD i 0
  else if i = k.currentPath.length then 0
  else k.behindPath i

def sysGetcwd (k : Kernel) (regs : Registers) : List Store :=
  let cwdBuf := regs.ebx.toNat
  let size := regs.ecx.toNat
  if ¬ k.valid cwdBuf size then []
  else
    let len := if size ≤ k.currentPath.length then (size + 2 ^ 32 - 1) % 2 ^ 32 else k.currentPath.length
    storesAt cwdBuf (memcpyFrom (pathMemory k) len) ++ storesAt (cwdBuf + len) [0]

def sysGetDescription (fuel : Nat) (k : Kernel) (regs : Registers) : Option (List Store) :=
  let buffer := regs.ecx.toNat
  let size := regs.edx.toNat
  if ¬ k.valid buffer size then some []
  else
    match k.normalized with
    | none => some []
    | some path => (elfGetDescription fuel k.volume path k.granted buffer size).map (·.2)

def sysSyslog (k : Kernel) (regs : Registers) : List Store :=
  let buffer := regs.ebx.toNat
  let size := regs.ecx.toNat
  if ¬ k.valid buffer size then [] else storesAt buffer (loggerReadLog k.log size)

def sysGetProcessInfo (k : Kernel) (regs : Registers) : List Store :=
  let procBuf := regs.ebx.toNat
  let maxEntries := regs.ecx.toNat
  if ¬ k.valid procBuf (sizeofProcessInfo * maxEntries % 2 ^ 32) then []
  else taskGetProcessInfo k.tasks procBuf maxEntries

def sysGetPciDevices (k : Kernel) (regs : Registers) : List Store :=
  let pciBuf := regs.ebx.toNat
  let maxEntries := regs.ecx.toNat
  if ¬ k.valid pciBuf (sizeofPciDevice * maxEntries % 2 ^ 32) then []
  else pciGetDevices k.pci pciBuf maxEntries

end MeowMeowOS.BufferCalls

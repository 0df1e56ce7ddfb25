import MeowMeowOS.ElfLoading
import MeowMeowOS.KernelHeap

/-! What `elf_load_and_spawn` holds on its way, and what it gives back where it
gives up: the node of the file, the program headers, and frames. -/
namespace MeowMeowOS.LoadExits
open ByteMemory PhysicalFrames VirtualMemory AddressSpaces ElfLoading
open KernelHeap (HeapState memAlloc memFree)

/-- The frames, the heap, and the pointers that `kmem_zalloc` has returned and
that were not freed since. -/
structure World where
  machine : Machine
  heap : HeapState
  live : List Nat

/-- The heap takes a frame for each page by which it grows. No result stands for
a call that does not return. -/
def kmemZalloc (fuel : Nat) (w : World) (size : Nat) : Option (Nat × World) :=
  match memAlloc fuel w.heap size with
  | none => none
  | some (ptr, heap) =>
    match heapExpandPages ((heap.heapCurrentEnd - w.heap.heapCurrentEnd) / pageSize) w.machine with
    | .error _ => none
    | .ok machine =>
      if ptr = 0 then some (0, ⟨machine, heap, w.live⟩)
      else some (ptr, ⟨machine, { heap with mem := memset heap.mem ptr 0 size }, ptr :: w.live⟩)

def kmemFree (w : World) (ptr : Nat) : World := { w with heap := memFree w.heap ptr, live := w.live.erase ptr }

def sizeofVfsNode : Nat := 320

/-- The node of a file. Without a file, or for an empty one, there is none. -/
def fat16VfsOpen (fuel : Nat) (w : World) (file : Option (List UInt8)) : Option (Nat × World) :=
  match file with
  | none => some (0, w)
  | some bytes => if bytes.length = 0 then some (0, w) else kmemZalloc fuel w sizeofVfsNode

/-- `vfs_open` asks the file system for names below its mount point, and the
loader asks it again where that came to nothing. -/
def openNode (fuel : Nat) (w : World) (mounted : Bool) (file : Option (List UInt8)) : Option (Nat × World) :=
  match if mounted then fat16VfsOpen fuel w file else some (0, w) with
  | none => none
  | some (node, w) => if node = 0 then fat16VfsOpen fuel w file else some (node, w)

/-- The loader up to its directory: the node and the program headers, unless it
has given up. -/
def readHeaders (fuel : Nat) (w : World) (mounted : Bool) (file : Option (List UInt8)) :
    Option (Option (Nat × Nat) × World) :=
  match openNode fuel w mounted file with
  | none => none
  | some (node, w) =>
    let bytes := file.getD []
    let header : Mem := fun x => bytes.getD x 0
    if node = 0 then some (none, w)
    else if ¬ Accepts bytes then some (none, kmemFree w node)
    else
      match kmemZalloc fuel w (readHalf header 0x2C * readHalf header 0x2A % 2 ^ 32) with
      | none => none
      | some (phdrs, w) => if phdrs = 0 then some (none, kmemFree w node) else some (some (node, phdrs), w)

/-! ## Where frames run out -/

def afterAlloc (s : Machine) : Machine := { s with pmm := (pmmAllocBlock s.pmm).2 }

/-- The machine when the page loop ends. The only way out of a round that returns
is right behind its first call. -/
def endOfPages (directory : Nat) (ph : Elf32Phdr) (file : List UInt8) : Nat → Nat → Machine → Machine
  | 0, _, s => s
  | remaining + 1, p, s =>
    match loadPage s directory ph file p with
    | .error _ => afterAlloc s
    | .ok s => endOfPages directory ph file remaining (p + 1) s

def endOfSegments (directory : Nat) (file : List UInt8) : List Elf32Phdr → Machine → Machine
  | [], s => s
  | ph :: rest, s =>
    match loadSegment s directory ph file with
    | .error _ => endOfPages directory ph file (pageCount ph) 0 s
    | .ok s => endOfSegments directory file rest s

def endOfStack (s : Machine) (directory : Nat) : Machine :=
  match addPage s directory userStackPage with
  | .error _ => afterAlloc s
  | .ok (_, s) => afterAlloc s

/-- The machine where the loader gives up for want of a frame. -/
def outOfFrames (s : Machine) (file : List UInt8) (beyond : Mem) : Machine :=
  match vmmCreateDirectory s with
  | .error _ => s
  | .ok (directory, s) =>
    match loadSegments directory file (programHeaders file beyond) s with
    | .error _ => endOfSegments directory file (programHeaders file beyond) s
    | .ok s => endOfStack s directory

/-- The program that is loaded, if any, and what is left. -/
def elfLoadAndSpawn (fuel : Nat) (w : World) (mounted : Bool) (file : Option (List UInt8)) (beyond : Mem)
    (argv : List (List UInt8)) (unset : Nat → Nat) : Option (Option Loaded × World) :=
  match readHeaders fuel w mounted file with
  | none => none
  | some (none, w) => some (none, w)
  | some (some (node, phdrs), w) =>
    let close := fun machine => kmemFree (kmemFree { w with machine := machine } phdrs) node
    match elfLoad w.machine (file.getD []) true beyond argv unset with
    | .error .outOfMemory => some (none, close (outOfFrames w.machine (file.getD []) beyond))
    | .error _ => none
    | .ok r => some (some r, close r.machine)

end MeowMeowOS.LoadExits

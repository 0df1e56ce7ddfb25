import Mathlib.Data.Multiset.Count
import Mathlib.Logic.Function.Basic

/-! The nodes of the virtual file system with their reference counts, and the two
nodes of a pipe, which share one ring. -/
namespace MeowMeowOS.VfsNodes

inductive NodeType where
  | file
  | directory
  | device
  | pipe
  deriving DecidableEq

inductive PipeEnd where
  | read
  | write
  deriving DecidableEq

def PipeEnd.other : PipeEnd → PipeEnd
  | .read => .write
  | .write => .read

inductive CloseFunction where
  | procfsClose
  | pipeVfsClose (side : PipeEnd)
  deriving DecidableEq

/-- `ptr` is the ring of a pipe. The text buffer of a `procfs` node comes and
goes with its node and is left out. -/
structure VfsNode where
  name : String
  type : NodeType
  length : Nat
  refCount : Nat
  persistent : Bool
  ptr : Option Nat
  close : Option CloseFunction

/-- The fields of `pipe_ring_t` that the close functions read. -/
structure PipeRing where
  readClosed : Bool
  writeClosed : Bool

def PipeRing.closed (ring : PipeRing) : PipeEnd → Bool
  | .read => ring.readClosed
  | .write => ring.writeClosed

def PipeRing.close (ring : PipeRing) : PipeEnd → PipeRing
  | .read => { ring with readClosed := true }
  | .write => { ring with writeClosed := true }

/-- Nodes and rings. An address here tells an object from every other one that
was ever allocated; the lists hold what has been given back to the heap. -/
structure Vfs where
  nodes : Nat → VfsNode
  nextNode : Nat
  rings : Nat → PipeRing
  nextRing : Nat
  devfsNodes : List Nat
  freedNodes : List Nat
  freedRings : List Nat

def newNode (v : Vfs) (node : VfsNode) : Vfs :=
  { v with nodes := Function.update v.nodes v.nextNode node, nextNode := v.nextNode + 1 }

def newRing (v : Vfs) : Vfs :=
  { v with rings := Function.update v.rings v.nextRing ⟨false, false⟩, nextRing := v.nextRing + 1 }

def freeNode (v : Vfs) (node : Nat) : Vfs := { v with freedNodes := node :: v.freedNodes }

def freeRing (v : Vfs) (ring : Nat) : Vfs := { v with freedRings := ring :: v.freedRings }

def setRefCount (v : Vfs) (node refCount : Nat) : Vfs :=
  { v with nodes := Function.update v.nodes node { v.nodes node with refCount := refCount } }

def setRing (v : Vfs) (ring : Nat) (flags : PipeRing) : Vfs := { v with rings := Function.update v.rings ring flags }

/-! ## References -/

/-- The two close functions of a pipe are one, up to the end that they close. -/
def pipeVfsClose (side : PipeEnd) (v : Vfs) (node : Nat) : Vfs :=
  match (v.nodes node).ptr with
  | none => v
  | some ring =>
    let shouldFree := (v.rings ring).closed side.other
    let v := setRing v ring ((v.rings ring).close side)
    freeNode (if shouldFree then freeRing v ring else v) node

def pipeVfsCloseRead (v : Vfs) (node : Nat) : Vfs := pipeVfsClose .read v node

def pipeVfsCloseWrite (v : Vfs) (node : Nat) : Vfs := pipeVfsClose .write v node

/-- `node->close(node)`, or `kmem_free` where there is no such function. -/
def closeNode (v : Vfs) (node : Nat) : Vfs :=
  match (v.nodes node).close with
  | none => freeNode v node
  | some .procfsClose => freeNode v node
  | some (.pipeVfsClose .read) => pipeVfsCloseRead v node
  | some (.pipeVfsClose .write) => pipeVfsCloseWrite v node

def vfsRetain (v : Vfs) : Option Nat → Vfs
  | none => v
  | some node => if (v.nodes node).persistent then v else setRefCount v node ((v.nodes node).refCount + 1)

def vfsRelease (v : Vfs) : Option Nat → Vfs
  | none => v
  | some node =>
    let v := if 0 < (v.nodes node).refCount then setRefCount v node ((v.nodes node).refCount - 1) else v
    if (v.nodes node).refCount = 0 ∧ (v.nodes node).persistent = false then closeNode v node else v

def vfsClose (v : Vfs) (node : Option Nat) : Vfs := vfsRelease v node

/-! ## Opening -/

/-- Where a path leads: the driver that is mounted there, the name that the
driver looks for, and what it finds. No node is ever registered by name, so
`vfs_find` answers nothing. -/
inductive Lookup where
  | devfs (name : String)
  | procfs (name : String) (text : Option Nat) (granted : Bool)
  | fat16 (name : String) (fileSize : Nat) (granted : Bool)
  | unmounted

def devfsOpen (v : Vfs) (name : String) : Vfs × Option Nat :=
  let node := v.devfsNodes.find? fun node => (v.nodes node).name = name
  (vfsRetain v node, node)

def procfsNode (name : String) (length : Nat) : VfsNode := ⟨name, .file, length, 1, false, none, some .procfsClose⟩

/-- `text` is the length of the text that stands under `name`, if there is one. -/
def procfsOpen (v : Vfs) (name : String) (text : Option Nat) (granted : Bool) : Vfs × Option Nat :=
  if granted then
    match text with
    | some length => (newNode v (procfsNode name length), some v.nextNode)
    | none => (freeNode (newNode v (procfsNode name 0)) v.nextNode, none)
  else (v, none)

def fat16Node (name : String) (fileSize : Nat) : VfsNode := ⟨name, .file, fileSize, 1, false, none, none⟩

def fat16VfsOpen (v : Vfs) (name : String) (fileSize : Nat) (granted : Bool) : Vfs × Option Nat :=
  if 0 < fileSize ∧ granted then (newNode v (fat16Node name fileSize), some v.nextNode) else (v, none)

def vfsOpen (v : Vfs) : Lookup → Vfs × Option Nat
  | .devfs name => devfsOpen v name
  | .procfs name text granted => procfsOpen v name text granted
  | .fat16 name fileSize granted => fat16VfsOpen v name fileSize granted
  | .unmounted => (v, none)

def pipeNode (name : String) (ring : Nat) (side : PipeEnd) : VfsNode :=
  ⟨name, .pipe, 0, 1, false, some ring, some (.pipeVfsClose side)⟩

/-- `granted` says how many of the three allocations succeed. -/
def pipeCreate (v : Vfs) (granted : Nat) : Vfs × Option (Nat × Nat) :=
  if granted = 0 then (v, none)
  else
    let ring := v.nextRing
    let v := newRing v
    if granted = 1 then (freeRing v ring, none)
    else
      let readNode := v.nextNode
      let v := newNode v (pipeNode "pipe_read" ring .read)
      if granted = 2 then (freeRing (freeNode v readNode) ring, none)
      else
        let writeNode := v.nextNode
        (newNode v (pipeNode "pipe_write" ring .write), some (readNode, writeNode))

end MeowMeowOS.VfsNodes

import MeowMeowOS.Descriptors
import MeowMeowOS.PathResolution

/-! One command of the shell with its redirections, `execute_command_block`: the
nodes that it opens and closes, and the files that it changes. -/
namespace MeowMeowOS.CommandBlocks
open Fat16Names VfsNodes ReferenceCounts Descriptors PathResolution
open Fat16Paths (slash rootPath tokens)

/-! ## The functions that the shell calls -/

/-- What `elf_load_and_spawn` finds under a path, and how far it gets with it. -/
structure LoadAnswer where
  found : Lookup
  fileSize : Nat
  granted : Bool
  loaded : Bool

/-- The functions of the file system over its states. `vfsOpen` answers the size of
the file and whether there is memory for its node. -/
structure Services (σ : Type*) where
  getCurrentPath : σ → CString
  vfsOpen : σ → CString → σ × Nat × Bool
  deleteFile : σ → CString → σ
  writeFile : σ → CString → List UInt8 → σ
  chdir : σ → CString → Int × σ
  load : σ → CString → List CString → LoadAnswer × σ

/-- A path in the field `name` of a node. -/
def nodeName (path : CString) : String := String.ofList (path.map fun c => Char.ofNat c.toNat)

/-! ## The path of a redirection -/

/-- What the loop that writes the result has written when it stops. -/
def joinedSoFar (outputSize : Nat) : CString → List CString → CString
  | output, [] => output
  | output, token :: rest =>
    if outputSize < output.length + token.length + 2 then output
    else joinedSoFar outputSize (output ++ slash :: token) rest

/-- What stands in `path` after `resolve_path` returns false; `stale` stood there before. -/
def leftOver (cwd input stale : CString) : CString :=
  if input = [] then stale
  else
    match pathBuffer cwd input with
    | none => stale
    | some temp =>
      match collectTokens [] (tokens temp) with
      | none => stale
      | some kept => joinedSoFar 256 [] kept

/-- The content of `path`, and whether `resolve_path` returned true. -/
def pathOf (cwd input stale : CString) : CString × Bool :=
  match resolvePath cwd input 256 with
  | some path => (path, true)
  | none => (leftOver cwd input stale, false)

/-! ## The loop over the arguments -/

/-- What is noted of the calls: a node that was opened or closed, and a path that
was deleted or written, with the answer of `resolve_path` for it. -/
inductive Call where
  | opened (node : Nat)
  | closed (node : Nat)
  | changed (path : CString) (resolved : Bool)
  deriving DecidableEq

/-- The local variables, the file system and the nodes. -/
structure Block (σ : Type*) where
  files : σ
  vfs : Vfs
  inNode : Option Nat
  outNode : Option Nat
  appendOut : Bool
  shouldCloseIn : Bool
  shouldCloseOut : Bool
  newArgv : List CString
  calls : List Call

inductive Operator where
  | input
  | output
  | append
  deriving DecidableEq

/-- `<`, `>` and `>>` -/
def operatorOf (arg : CString) : Option Operator :=
  if arg = [0x3C] then some .input
  else if arg = [0x3E] then some .output
  else if arg = [0x3E, 0x3E] then some .append
  else none

def blank : List UInt8 := [0x20]

section
variable {σ : Type*} (fs : Services σ)

def Block.close (b : Block σ) (node : Option Nat) : Block σ :=
  { b with vfs := vfsClose b.vfs node, calls := b.calls ++ (node.map Call.closed).toList }

def Block.vfsOpen (b : Block σ) (path : CString) : Block σ × Option Nat :=
  let found := fs.vfsOpen b.files path
  let opened := fat16VfsOpen b.vfs (nodeName path) found.2.1 found.2.2
  ({ b with files := found.1, vfs := opened.1, calls := b.calls ++ (opened.2.map Call.opened).toList }, opened.2)

def Block.deleteFile (b : Block σ) (path : CString × Bool) : Block σ :=
  { b with files := fs.deleteFile b.files path.1, calls := b.calls ++ [.changed path.1 path.2] }

def Block.writeFile (b : Block σ) (path : CString × Bool) : Block σ :=
  { b with files := fs.writeFile b.files path.1 blank, calls := b.calls ++ [.changed path.1 path.2] }

def redirectInput (b : Block σ) (path : CString × Bool) : Block σ × Bool :=
  let b := if b.shouldCloseIn then b.close b.inNode else b
  let opened := b.vfsOpen fs path.1
  if opened.2 = none then ({ opened.1 with inNode := none }, false)
  else ({ opened.1 with inNode := opened.2, shouldCloseIn := true }, true)

def redirectOutput (b : Block σ) (path : CString × Bool) : Block σ × Bool :=
  let b := (b.deleteFile fs path).writeFile fs path
  let b := if b.shouldCloseOut then b.close b.outNode else b
  let opened := b.vfsOpen fs path.1
  if opened.2 = none then ({ opened.1 with outNode := none }, false)
  else ({ opened.1 with outNode := opened.2, appendOut := false, shouldCloseOut := true }, true)

def redirectAppend (b : Block σ) (path : CString × Bool) : Block σ × Bool :=
  let b := if b.shouldCloseOut then b.close b.outNode else b
  let first := b.vfsOpen fs path.1
  let opened := if first.2 = none then (first.1.writeFile fs path).vfsOpen fs path.1 else first
  if opened.2 = none then ({ opened.1 with outNode := none }, false)
  else ({ opened.1 with outNode := opened.2, appendOut := true, shouldCloseOut := true }, true)

def redirectTo : Operator → Block σ → CString × Bool → Block σ × Bool
  | .input => redirectInput fs
  | .output => redirectOutput fs
  | .append => redirectAppend fs

def Block.addWord (b : Block σ) (word : CString) : Block σ :=
  if b.newArgv.length < 31 then { b with newArgv := b.newArgv ++ [word] } else b

/-- The loop, which returns early where a file cannot be opened. `stale` is what
stands in `path` when that many arguments are left. -/
def redirectLoop (stale : Nat → CString) : Block σ → List CString → Block σ × Bool
  | b, [] => (b, true)
  | b, [arg] => (b.addWord arg, true)
  | b, arg :: target :: rest =>
    match operatorOf arg with
    | none => redirectLoop stale (b.addWord arg) (target :: rest)
    | some operator =>
      let done := redirectTo fs operator b (pathOf (fs.getCurrentPath b.files) target (stale rest.length))
      if done.2 then redirectLoop stale done.1 rest else (done.1, false)

/-! ## The command -/

def elfSuffix : CString := [0x2E, 0x65, 0x6C, 0x66]

def hasElfSuffix (name : CString) : Bool :=
  4 ≤ name.length ∧ fat16Strcasecmp (name.drop (name.length - 4)) elfSuffix

def programPath (name : CString) : CString := if hasElfSuffix name then name.take 63 else name.take 59 ++ elfSuffix

def systemProgramPrefix : CString := "/system/bin/usr/commands/".toUTF8.data.toList

def systemProgramPath (path : CString) : CString := systemProgramPrefix ++ path.take (127 - systemProgramPrefix.length)

def rootProgramPath (path : CString) : CString := slash :: path.take 62

/-- The table is that of the new task, where there is one. -/
structure Spawned (σ : Type*) where
  files : σ
  vfs : Vfs
  table : Option FdTable

def loadAndSpawn (files : σ) (vfs : Vfs) (path : CString) (argv : List CString) (inNode outNode : Option Nat) :
    Spawned σ :=
  let answer := fs.load files path argv
  let spawned := elfLoadAndSpawn vfs answer.1.found (nodeName path) answer.1.fileSize answer.1.granted answer.1.loaded
    inNode outNode
  ⟨answer.2, spawned.1, spawned.2⟩

def shellSpawnCommand (files : σ) (vfs : Vfs) (argv : List CString) (inNode outNode : Option Nat) : Spawned σ :=
  match argv with
  | [] => ⟨files, vfs, none⟩
  | name :: _ =>
    let path := programPath name
    let plain := loadAndSpawn fs files vfs path argv inNode outNode
    if plain.table.isSome then plain
    else
      let system := loadAndSpawn fs plain.files plain.vfs (systemProgramPath path) argv inNode outNode
      if system.table.isSome then system
      else loadAndSpawn fs system.files system.vfs (rootProgramPath path) argv inNode outNode

def commandsPath : CString := "/system/bin/usr/commands".toUTF8.data.toList

/-- The directories that `help` goes through; the current one comes last. -/
def commandHelp (files : σ) : σ :=
  (fs.chdir (fs.chdir (fs.chdir files commandsPath).2 rootPath).2 (fs.getCurrentPath files)).2

def commandCd (files : σ) : List CString → σ
  | _ :: path :: _ => (fs.chdir files path).2
  | _ => files

def helpName : CString := "help".toUTF8.data.toList

def clearName : CString := "clear".toUTF8.data.toList

def cdName : CString := "cd".toUTF8.data.toList

/-- The built-in commands, and what they leave of the file system. -/
def builtIn (files : σ) (argv : List CString) : Option σ :=
  if argv.head? = some helpName then some (commandHelp fs files)
  else if argv.head? = some clearName then some files
  else if argv.head? = some cdName then some (commandCd fs files argv)
  else none

def Block.closeOpened (b : Block σ) : Block σ :=
  let b := if b.shouldCloseIn then b.close b.inNode else b
  if b.shouldCloseOut then b.close b.outNode else b

/-- The offset of `fd_table[1]` after `>>`, or after `>`. -/
def seekOutput (b : Block σ) (vfs : Vfs) (table : FdTable) : FdTable :=
  match b.outNode with
  | none => table
  | some node =>
    if b.appendOut then Function.update table 1 { table 1 with currentOffset := (vfs.nodes node).length }
    else if b.shouldCloseOut then Function.update table 1 { table 1 with currentOffset := 0 }
    else table

/-- What is left at a return. With no table the function returns 0. -/
structure Outcome (σ : Type*) where
  block : Block σ
  table : Option FdTable

/-- The part behind the loop, for a command that is there. -/
def runCommand (b : Block σ) : Outcome σ :=
  match builtIn fs b.files b.newArgv with
  | some files => ⟨{ b with files := files }.closeOpened, none⟩
  | none =>
    let spawned := shellSpawnCommand fs b.files b.vfs b.newArgv b.inNode b.outNode
    let table := spawned.table.map (seekOutput b spawned.vfs)
    ⟨{ b with files := spawned.files, vfs := spawned.vfs }.closeOpened, table⟩

def executeCommandBlock (stale : Nat → CString) (files : σ) (vfs : Vfs) (argv : List CString)
    (pipeIn pipeOut : Option Nat) : Outcome σ :=
  let scanned := redirectLoop fs stale ⟨files, vfs, pipeIn, pipeOut, false, false, false, [], []⟩ argv
  if scanned.2 = false then ⟨scanned.1, none⟩
  else if scanned.1.newArgv = [] then ⟨scanned.1, none⟩
  else runCommand fs scanned.1

end

end MeowMeowOS.CommandBlocks

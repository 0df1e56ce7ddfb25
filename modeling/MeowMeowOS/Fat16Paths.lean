import MeowMeowOS.Fat16Directory

/-! Paths of the FAT16 driver. The current directory is a cluster number and,
beside it, a path that every operation on a qualified name saves, leaves and
walks again from the root to come back. A missing result stands for a call
that does not return: a walk through an endless chain, a string that does not
fit its buffer, a panic. -/
namespace MeowMeowOS.Fat16Paths
open Fat16Disk Fat16Names Fat16Directory

def slash : UInt8 := 0x2F

def rootPath : CString := [slash]

/-- What follows the last slash, the whole string if there is none. -/
def baseOf (path : CString) : CString := (path.reverse.takeWhile (· ≠ slash)).reverse

/-- What precedes the last slash. -/
def directoryOf (path : CString) : CString := path.take (path.length - (baseOf path).length - 1)

/-- The pieces that `strtok(path, "/")` returns one after the other. -/
def tokens (path : CString) : List CString := (path.splitOn slash).filter (· ≠ [])

/-- `current_path` without its last component. -/
def parentPath (path : CString) : CString :=
  if 1 < path.length ∧ slash ∈ path then
    if directoryOf path = [] then path.take 1 else directoryOf path
  else path

def childPath (path token : CString) : CString :=
  if 1 < path.length then path ++ slash :: token else path ++ token

def enter (v : Volume) (cluster : Nat) (path : CString) : Volume :=
  { v with fs := { v.fs with currentDirCluster := cluster, currentPath := path } }

/-- The loop over the tokens; `orig` is the volume to fall back to. -/
def walkTokens (fuel : Nat) (orig : Volume) : Volume → List CString → Option (Int × Volume)
  | v, [] => some (0, v)
  | v, token :: rest =>
    if token = [0x2E] then walkTokens fuel orig v rest
    else if token = [0x2E, 0x2E] then
      if v.fs.currentDirCluster ≠ 0 then
        match findEntryInCurrentDir fuel v [0x2E, 0x2E] with
        | none => none
        | some none => some (-1, orig)
        | some (some e) =>
          walkTokens fuel orig (enter v (clusterLow e) (parentPath v.fs.currentPath)) rest
      else walkTokens fuel orig v rest
    else
      match findEntryInCurrentDir fuel v token with
      | none => none
      | some none => some (-1, orig)
      | some (some e) =>
        if isDirectory e ∧ v.fs.currentPath.length + token.length + 2 < 256 then
          walkTokens fuel orig (enter v (clusterLow e) (childPath v.fs.currentPath token)) rest
        else some (-1, orig)

/-- The result code and the volume with its new current directory. -/
def fat16Chdir (fuel : Nat) (v : Volume) (path : CString) : Option (Int × Volume) :=
  if v.fs.isMounted = false then some (-1, v)
  else if 256 ≤ path.length then none
  else
    let start := if path.head? = some slash then enter v 0 rootPath else v
    walkTokens fuel v start (tokens path)

/-- The common prologue of the operations on a name: a qualified name is split
at its last slash and the directory entered, whatever comes of that. -/
def enterPath (fuel : Nat) (v : Volume) (filename : CString) : Option (Volume × CString) :=
  if slash ∈ filename then
    if 256 ≤ filename.length then none
    else
      let directory := directoryOf filename
      (fat16Chdir fuel v (if directory = [] then rootPath else directory)).map fun (_, v) =>
        (v, baseOf filename)
  else some (v, filename)

/-- `if (has_path) fat16_chdir(old_cwd);` -/
def leavePath (fuel : Nat) (filename oldCwd : CString) (v : Volume) : Option Volume :=
  if slash ∈ filename then (fat16Chdir fuel v oldCwd).map (·.2) else some v

def fat16GetFileSize (fuel : Nat) (v : Volume) (filename : CString) : Option (Nat × Volume) :=
  if v.fs.isMounted = false then some (0, v)
  else do
    let (entered, baseName) ← enterPath fuel v filename
    let entry ← findEntryInCurrentDir fuel entered baseName
    let left ← leavePath fuel filename v.fs.currentPath entered
    return ((entry.map fileSize).getD 0, left)

end MeowMeowOS.Fat16Paths

import SmallScript.Command.Script

/-!
# The program

The surroundings are read, the tool runs on them, and what it leaves behind is carried out: the texts
are printed, and the files below the current directory are brought into the state that the tool left
them in. Input is read to its end before the tool runs. The host has no network and serves no pages.
-/

namespace SmallScript.Host

open Command Machine
open World (Entry FileStore InputLine Path)

def maxDepth : Nat := 8

def packageDirName : String := ".eryx"

def isHidden (name : String) : Bool := name.startsWith "." && name != packageDirName

def readEntries : Nat → Path → List IO.FS.DirEntry → FileStore → IO FileStore
  | 0, _, _, s => return s
  | _, _, [], s => return s
  | depth + 1, dir, e :: rest, s => do
    let path := dir ++ [e.fileName]
    let s ← if isHidden e.fileName then pure s
      else if ← e.path.isDir then
        readEntries depth path (← e.path.readDir).toList (s.makeDirs path)
      else do pure (s.set path (.file (← IO.FS.readBinFile e.path)))
    readEntries (depth + 1) dir rest s

/-- The files of the host. The directory with packages is made if it is missing. -/
def readFiles : IO FileStore := do
  IO.FS.createDirAll packageDirName
  let here ← IO.currentDir
  let s := FileStore.initial here.toString [] [packageDirName]
  readEntries maxDepth s.workDir (← here.readDir).toList s

partial def readLines (input : IO.FS.Stream) (lines : List InputLine) : IO (List InputLine) := do
  let line ← input.getLine
  if line.isEmpty then return lines.reverse
  readLines input (.text (String.ofList (line.toList.filter (· != '\n'))) :: lines)

def variableNames : List String := ["COLUMNS", "HOME", "LANG", "PATH", "TZ", "USER"]

def readWorld : IO World := do
  let values ← variableNames.mapM fun name => do return (name, ← IO.getEnv name)
  return {
    input := ← readLines (← IO.getStdin) []
    output := ""
    errors := ""
    files := ← readFiles
    routes := []
    requests := []
    slept := []
    clock := (← IO.monoMsNow).toFloat / 1000.0
    random := (← IO.rand 0 999999).toFloat / 1000000.0
    environment := values.filterMap fun (name, value) => value.map (name, ·) }

/-- Brings the files of the host from one state into another. What is inside a directory goes before
the directory. -/
def writeFiles (before after : FileStore) : IO Unit := do
  for (path, _) in (before.below before.workDir).reverse do
    let name := "/".intercalate path
    match before.get? (before.workDir ++ path), after.get? (before.workDir ++ path) with
    | some (.file _), none => IO.FS.removeFile name
    | some .dir, none => IO.FS.removeDirAll name
    | _, _ => pure ()
  for (path, entry) in after.below after.workDir do
    let name := "/".intercalate path
    match before.get? (before.workDir ++ path), entry with
    | some .dir, .dir => pure ()
    | _, .dir => IO.FS.createDirAll name
    | some (.file old), .file content =>
      if old.toList != content.toList then IO.FS.writeBinFile name content
    | _, .file content => IO.FS.writeBinFile name content

def ending : Except Signal Outcome → UInt32 × String
  | .ok .done => (0, "")
  | .ok (.serve host port _) => (1, s!"no pages are served on {host}:{port}\n")
  | .ok .test => (1, "there are no tests to run\n")
  | .error (.failure (.exit code)) => ((code % 256).toNat.toUInt32, "")
  | .error (.failure f) => (1, f.message ++ "\n")
  | .error _ => (1, "")

end SmallScript.Host

def main (args : List String) : IO UInt32 := do
  let world ← SmallScript.Host.readWorld
  let (result, m) := (SmallScript.Command.Script.tool "eryx").run args ⟨.initial, world, ""⟩
  (← IO.getStdout).putStr m.world.output
  (← IO.getStderr).putStr m.world.errors
  SmallScript.Host.writeFiles world.files m.world.files
  let (code, rest) := SmallScript.Host.ending result
  (← IO.getStderr).putStr rest
  return code

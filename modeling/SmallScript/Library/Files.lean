import SmallScript.Library.Arguments

/-!
# Functions on files

A missing file or directory is a problem of the program; other faults of the file store are failures
of their own.
-/

namespace SmallScript.Library

open Machine
open World (FileFault FileCause FileStore plainPath)
open Text (decode unifyLineEnds)

/-- A result of the file store; what is missing is reported under the given name. -/
def ofFile {α : Type} (kind name : String) (r : Except FileFault α) : Action α :=
  match r with
  | .ok a => pure a
  | .error f =>
    if f.cause = .notFound then Action.problem (.notFound kind name) else Action.fail (.file f)

def store : Action FileStore := do return (← Action.world).files

def setStore (s : FileStore) : Action Unit := Action.modifyWorld ({ · with files := s })

def textOf (content : ByteArray) : Action String :=
  match decode content with
  | .ok s => return String.ofList (unifyLineEnds s.toList)
  | .error f => Action.fail (.decode f)

def readFile (args : List Value) : Action Value := do
  let name ← oneString args "filename argument" "Filename"
  let content ← ofFile "File" name ((← store).read name)
  return .str (← textOf content)

def writeFile (args : List Value) : Action Value := do
  let (name, text) ← twoStrings args "filename or content argument" "Filename" "Content"
  setStore (← ofFile "File" name ((← store).write name text.toUTF8))
  return .null

def appendFile (args : List Value) : Action Value := do
  let (name, text) ← twoStrings args "filename or content argument" "Filename" "Content"
  setStore (← ofFile "File" name ((← store).append name text.toUTF8))
  return .null

def fileExists (args : List Value) : Action Value := do
  let name ← oneString args "filename argument" "Filename"
  return .bool ((← store).exists? (plainPath name))

def deleteFile (args : List Value) : Action Value := do
  let name ← oneString args "filename argument" "Filename"
  setStore (← ofFile "File" name ((← store).delete (plainPath name)))
  return .null

def copyFile (args : List Value) : Action Value := do
  let (a, b) ← twoStrings args "source or destination argument" "Source" "Destination"
  let content ← ofFile "File" a ((← store).read (plainPath b))
  setStore (← ofFile "File" a ((← store).write (plainPath a) content))
  return .null

def moveFile (args : List Value) : Action Value := do
  let (a, b) ← twoStrings args "source or destination argument" "Source" "Destination"
  setStore (← ofFile "File" a ((← store).move (plainPath a) (plainPath b)))
  return .null

def inDirectory (dir name : String) : String :=
  if dir == "." then name else if dir == "/" then "/" ++ name else dir ++ "/" ++ name

def listFiles (args : List Value) : Action Value := do
  let name ← oneString args "directory argument" "Directory"
  let dir := plainPath name
  let names ← ofFile "Directory" name ((← store).list dir)
  Action.array (names.map fun n => .str (inDirectory dir n))

def fileSize (args : List Value) : Action Value := do
  let name ← oneString args "filename argument" "Filename"
  return .nat (← ofFile "File" name ((← store).size (plainPath name)))

end SmallScript.Library

import SmallScript.Packages.Config

/-!
# Archives

An archive is a list of named files. Before it is unpacked, the number and the size of its files are
checked. Names are read as paths below the target directory: parts that would lead elsewhere are left
out.
-/

namespace SmallScript.Packages

open Machine Library
open World (Body FileStore FileFault shortPath parentPath slashParts)

/-- Named files; a name with a slash at its end is a directory. -/
abbrev Archive := List (String × ByteArray)

def maxFiles : Nat := 100

def maxSize : Nat := 10000000

def Archive.totalSize (a : Archive) : Nat := a.foldl (fun n e => n + e.2.size) 0

/-- The file of a name; of several with one name the last one counts. -/
def Archive.file? (a : Archive) (name : String) : Option ByteArray := a.reverse.lookup name

/-- The bytes that an archive takes up when its files are stored as they are: a header and a line in
the list of contents for each file, and an end. -/
def Archive.storedSize (a : Archive) : Nat :=
  a.foldl (fun n e => n + 30 + 46 + 2 * e.1.utf8ByteSize + e.2.size) 22

def Archive.check (a : Archive) : Except Failure Unit :=
  if a.length > maxFiles then .error (.archiveLimit (.count a.length maxFiles))
  else if a.totalSize > maxSize then .error (.archiveLimit (.total a.totalSize maxSize))
  else .ok ()

def archiveOf : Body → Except Failure Archive
  | .archive entries => .ok entries
  | .bytes _ => .error .badArchive

def entryParts (name : String) : List String := (slashParts name).filter fun p => p != "" && p != "." && p != ".."

def entryPath (dir name : String) : String := shortPath (joinPath dir ("/".intercalate (entryParts name)))

def unpackEntry (dir : String) (s : FileStore) (entry : String × ByteArray) : Except FileFault FileStore := do
  let path := entryPath dir entry.1
  let parent := parentPath path
  let s ← if parent.isEmpty || s.exists? parent then pure s else s.makePath parent
  if entry.1.endsWith "/" then if s.isDir path then return s else s.makeDir path
  else s.write path entry.2

/-- Unpacks entries one after the other; those before a fault stay. -/
def unpackEntries (dir : String) : Archive → Action Unit
  | [] => pure ()
  | entry :: rest => do
    changeFiles fun s => unpackEntry dir s entry
    unpackEntries dir rest

def unpack (dir : String) (body : Body) : Action Unit := do
  match archiveOf body with
  | .error f => Action.fail f
  | .ok archive =>
    match archive.check with
    | .error f => Action.fail f
    | .ok () => unpackEntries dir archive

end SmallScript.Packages

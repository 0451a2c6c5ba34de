import SmallScript.Packages.Manager
import SmallScript.Toml.Document
import SmallScript.Text.Identifier
import SmallScript.Text.LowerCase

/-!
# Making and publishing packages

A new package gets a manifest, a main file and a description. The manifest is a TOML document whose
table `package` has a name, a version and a description. Publishing sends the directory of a package
to the server, with the key of the user; deleting takes a package or a version of it off the server.
-/

namespace SmallScript.Packages

open Machine Library
open Text (isIdentifier lower)
open World (Request Response baseName)

def prompt (text : String) : Action String := do
  Action.modifyWorld (·.print text)
  readLine

/-- The key of the user: the one in the list, or one that is asked for and entered in the list. -/
def userKeyFor (server : String) : Action Json := do
  match ← readList with
  | .obj fields =>
    let known := (fields.lookup userKey).getD .null
    if !known.isEmpty then return known
    else
      Action.printLine s!"\nPlease visit the following url to get your API key:\n{server}dashboard"
      let key ← prompt "\nAPI Key: "
      writeList (.obj (Json.setField fields userKey (.str key)))
      return .str key
  | d => Action.fail (.attribute d.kind "get")

/-! ## Manifests -/

def manifestName : String := "package.toml"

def manifestFailure : Toml.Obstacle → Failure
  | .kind f => .document f
  | .textEnd => .lookup .stringIndex
  | .listEnd => .lookup .listIndex
  | .noArray _ => .document .unreadable

/-- What a manifest says: name, version and whether there is a description. -/
structure Manifest where
  name : String
  version : String
  described : Bool

/-- A field of the table as running text; a missing one is shown as such. -/
def fieldText (table : Toml.Value) (name : String) : Except Failure String :=
  match table.field? name with
  | none => .ok "None"
  | some v => v.text.mapError .number

def Manifest.of (table : Toml.Value) : Except Failure Manifest :=
  match table with
  | .table .. => do
    return ⟨← fieldText table "name", ← fieldText table "version",
      ((table.field? "description").map fun d => !d.isEmpty).getD false⟩
  | v => .error (.attribute v.kind "get")

def Manifest.flaw? (m : Manifest) : Option String :=
  if m.name.isEmpty then some "Missing 'name' field in 'package.toml'"
  else if !isIdentifier m.name.toList then
    some "Invalid package name, can only contain letters, numbers and underscores"
  else if m.version.isEmpty then some "Missing 'version' field in 'package.toml'"
  else if !m.described then some "Missing 'description' field in 'package.toml'"
  else none

def readManifest (dir : String) : Action (Except String Manifest) := do
  let text ← textOf (← onFiles ((← store).read (joinPath dir manifestName)))
  match Toml.parse text with
  | .error (.at _ _) => return .error "Error decoding 'package.toml'"
  | .error (.other o) => Action.fail (manifestFailure o)
  | .ok doc =>
    match doc.field? "package" with
    | none => return .error "Missing 'package' table in 'package.toml'"
    | some table =>
      if table.isEmpty then return .error "Missing 'package' table in 'package.toml'"
      else match Manifest.of table with
        | .error f => Action.fail f
        | .ok m => return match m.flaw? with
          | some flaw => .error flaw
          | none => .ok m

/-! ## Publishing -/

def directoryFlaw? (dir : String) : Action (Option String) := do
  let s ← store
  return if !s.exists? dir then some s!"Directory '{dir}' does not exist"
    else if !s.isDir dir then some s!"'{dir}' is not a directory"
    else if !s.exists? (joinPath dir manifestName) then some "Missing 'package.toml' file"
    else if !s.exists? (joinPath dir entryName) then some "Missing 'main.eryx' directory (package entry point)"
    else if s.totalSize dir > maxSize then some "Unzipped package too large: >10MB"
    else none

def archiveName : String := "temp.zip"

/-- Says what a refusal means: the error in its document, or its whole text. -/
def reportRefusal (r : Response) : Action Unit := do
  match bodyJson? r with
  | some doc => Action.printLine (← Action.ofNumber (← Action.access (doc.part "error")).shown)
  | none => Action.printLine s!"Error uploading package:  {bodyText r}"

def sendArchive (c : Config) (server : String) (m : Manifest) (key : String) : Action Unit := do
  match ← ask ⟨"POST", s!"{server}/api/upload", none, some (some key)⟩ with
  | .fine _ => Action.printLine s!"Package '{m.name}@{m.version}' uploaded successfully"
  | .refused r _ =>
    if [400, 401, 403].contains r.status then
      c.forgetUser
      Action.printLine "Invalid API key"
    else reportRefusal r
  | .none _ => Action.printLine "Error uploading package"

/-- Publishes the package in a directory. The archive that is sent lies in the package directory for
that time. -/
def upload (c : Config) (dir server : String) : Action Unit := do
  let server := serverAddress server
  let key ← userKeyFor server
  Action.printLine s!"Uploading package from '{dir}'"
  match ← directoryFlaw? dir with
  | some flaw => Action.printLine flaw
  | none =>
    match ← readManifest dir with
    | .error flaw => Action.printLine flaw
    | .ok m =>
      changeFiles fun s => s.write (packagePath s archiveName) .empty
      sendArchive c server m (← Action.ofNumber key.shown)
      changeFiles fun s => s.delete (packagePath s archiveName)

/-! ## Deleting -/

/-- Asks until the answer is yes or no. Every round reads a line of input, so that there are no more
rounds than lines and one that finds none. -/
def confirm (text : String) : Nat → Action Bool
  | 0 => return false
  | rounds + 1 => do
    let answer := lower (← prompt text)
    if answer == "y" || answer == "yes" then return true
    else if answer == "n" || answer == "no" || answer == "" then return false
    else
      Action.printLine "Invalid input"
      confirm text rounds

def delete (c : Config) (text server : String) : Action Unit := do
  let server := serverAddress server
  let key ← userKeyFor server
  let p ← packageName text
  let question := s!"Are you sure you want to delete '{text}'\nTHIS ACTION IS PERMANENT AND CANNOT BE UNDONE\n(y/N): "
  if ← confirm question ((← Action.world).input.length + 1) then
    let version := match p.version with
      | none | some "" => []
      | some v => [("version", Json.str v)]
    let body ← Action.ofNumber (Json.obj (("package", .str p.name) :: version)).render
    match ← ask ⟨"POST", s!"{server}/api/delete", some body, some (some (← Action.ofNumber key.shown))⟩ with
    | .fine _ => Action.printLine s!"Package '{text}' deleted successfully"
    | .refused r _ =>
      if r.status = 401 then c.forgetUser
      reportRefusal r
    | .none _ => Action.printLine "Error uploading package"
  else Action.printLine "Deletion cancelled"

/-! ## New packages -/

def newPackageFiles (name : String) : List (String × String) := [
  (manifestName, s!"[package]\nname = \"{name}\"\nversion = \"0.1.0\"\ndescription = \"An Eryx package\"\n"),
  (entryName, "# This is the package's entrypoint\n\nprint('Hello, Eryx!')\n"),
  ("README.md", s!"# {name}\n\nAn Eryx package.\n")]

/-- The name of a new package; a directory without slashes gives a default. -/
def askName (dir : String) : Action String := do
  if dir.contains '/' || dir.contains '\\' then prompt "Package name: "
  else
    let answer ← prompt s!"Package name (default: '{dir}'): "
    return if answer.isEmpty then dir else answer

def init (dir : String) : Action Unit := do
  let name ← askName dir
  if name.isEmpty then Action.printLine "Package name cannot be empty"
  else
    let answer := lower (← prompt s!"Initialize package '{name}' in directory '{dir}'? (y/N): ")
    if answer != "y" && answer != "yes" then Action.printLine "Cancelled!"
    else
      if !(← store).exists? dir then changeFiles (·.makeDir dir)
      if !(← store).isDir dir then Action.printLine s!"'{dir}' is not a directory"
      else if !(← onFiles ((← store).list dir)).isEmpty then Action.printLine s!"Directory '{dir}' is not empty"
      else
        for (file, text) in newPackageFiles name do
          changeFiles (·.write (joinPath dir file) text.toUTF8)
        Action.printLine s!"Package initialized in '{dir}'"

end SmallScript.Packages

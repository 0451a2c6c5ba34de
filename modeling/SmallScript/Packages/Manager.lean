import SmallScript.Packages.Archive
import SmallScript.Packages.Server
import SmallScript.Library.Core

/-!
# Installing and removing packages

A package is named by itself or with a version behind an at sign. Installing downloads an archive,
enters the package in the list, saves the list and unpacks the archive into the package's directory, in
this order. Removing takes the package off the list, saves it and removes the directory.
-/

namespace SmallScript.Packages

open Machine Library
open World (Response Body)
open Managing (known learn)

structure PackageName where
  name : String
  version : Option String
deriving DecidableEq, Repr

def PackageName.parse (text : String) : Except Failure PackageName :=
  match text.splitOn "@" with
  | [_] | [] => .ok ⟨text, none⟩
  | [name, version] => .ok ⟨name, some version⟩
  | _ => .error .tooManyParts

def packageName (text : String) : Action PackageName :=
  match PackageName.parse text with
  | .ok p => pure p
  | .error f => Action.fail f

/-- The version in the address that a download ended at: the name of the file without its ending. -/
def versionOfUrl (url : String) : String :=
  let file := (((url.splitOn "/").getLast?).getD "").splitOn "?" |>.headD ""
  let parts := file.splitOn "."
  let version := ".".intercalate (if parts.length > 1 then parts.dropLast else parts)
  if version.isEmpty then "error" else version

def packageDir (name : String) : Action String := do return joinPath (installedDir (← store)) name

def makeInstalledDir : Action Unit := do
  let s ← store
  if s.exists? (installedDir s) then pure ()
  else changeFiles fun s => s.makeDir (installedDir s)

/-- The list holds a package under the text that names it. -/
def isInstalled (c : Config) (text : String) : Action Bool := do
  if c.installed.isEmpty then return false else Action.access (c.installed.holds text)

def reportInstalled (c : Config) (text : String) (p : PackageName) : Action Unit := do
  match p.version with
  | none => Action.printLine s!"Package '{text}' already installed"
  | some _ =>
    let version ← Action.ofNumber (← Action.access (c.installed.part p.name)).shown
    Action.printLine s!"Package '{text}' already installed (installed version: {version})"

/-- Removes the directory of a package that is to be installed again, and takes it off the list. -/
def clearForUpgrade (p : PackageName) : Managing Unit := do
  let dir ← packageDir p.name
  if (← store).exists? dir then
    changeFiles (·.removeTree dir)
    let c ← known
    learn (c.withInstalled (← Action.access (c.installed.dropPart p.name)))
  makeInstalledDir

def reportVersions (server : String) (name version : String) : Action Unit := do
  match ← askFor s!"{server}api/versions/{name}" with
  | .fine r =>
    match bodyJson? r with
    | some doc =>
      let versions ← Action.access (doc.partOr "versions" (.arr []))
      Action.printLine s!"Version '{version}' not found for package '{name}'"
      Action.printLine ("Available versions: " ++ (← Action.access (versions.join ", ")))
    | none => Action.printLine s!"Package '{name}' not found"
  | _ => Action.printLine s!"Package '{name}' not found"

def archiveUrl (server : String) (p : PackageName) : String :=
  let path := match p.version with
    | none => p.name
    | some v => p.name ++ "/" ++ v
  s!"{server}download/{path}"

/-- Downloads a package; yields its version and the response, or says why there is none. -/
def download (server : String) (p : PackageName) : Action (Option (String × Response)) := do
  match ← askFor (archiveUrl server p) with
  | .fine r => return some (p.version.getD (versionOfUrl r.url), r)
  | .refused r message =>
    match p.version with
    | none =>
      if r.status = 404 then Action.printLine s!"Package '{p.name}' not found"
      else Action.printLine s!"Error downloading package '{p.name}': {message}"
    | some v =>
      if r.status = 404 then reportVersions server p.name v
      else Action.printLine s!"Error downloading package '{p.name}@{v}': {message}"
    return none
  | .none reason =>
    Action.printLine s!"Error downloading package:  {reason}"
    return none

def place (name version : String) (body : Body) : Managing Unit := do
  let c ← known
  let c := c.withInstalled (← Action.access (c.installed.setPart name (.str version)))
  learn c
  c.save
  makeInstalledDir
  unpack (← packageDir name) body
  Action.printLine s!"Package '{name}@{version}' installed successfully"

def fetch (server : String) (p : PackageName) : Managing Bool := do
  match ← download server p with
  | some (version, r) =>
    place p.name version r.body
    return true
  | none => return false

def install (text server : String) (upgrade : Bool) : Managing Bool := do
  let server := serverAddress server
  Action.printLine s!"Installing package '{text}'"
  let p ← packageName text
  let c ← known
  let listed ← isInstalled c text
  if listed && !upgrade then
    reportInstalled c text p
    return false
  else
    if listed then clearForUpgrade p
    fetch server p

/-- The list holds the package in another version than the one that is named. -/
def hasOtherVersion (c : Config) (p : PackageName) (version : String) : Action Bool := do
  if ← Action.access (c.installed.holds p.name) then
    match ← Action.access (c.installed.part p.name) with
    | .str v => return v != version
    | _ => return true
  else return false

def remove (text name : String) : Managing Unit := do
  let c ← known
  let c := c.withInstalled (← Action.access (c.installed.dropPart name))
  learn c
  c.save
  makeInstalledDir
  let dir ← packageDir name
  match (← store).removeTree dir with
  | .ok s => setStore s
  | .error f => if f.cause = .notFound then pure () else Action.fail (.file f)
  Action.printLine s!"Package '{text}' uninstalled successfully"

def uninstall (text : String) : Managing Bool := do
  let c ← known
  if c.installed.isEmpty then
    Action.printLine "No packages installed"
    return false
  else
    let p ← packageName text
    Action.printLine s!"Uninstalling package '{text}'"
    if ← Action.access (c.installed.holds text) then
      remove text p.name
      return true
    else match p.version with
      | none | some "" =>
        Action.printLine s!"Package '{text}' not installed"
        return false
      | some v =>
        if ← hasOtherVersion c p v then
          Action.printLine s!"Package '{p.name}@{v}' not installed"
          return false
        else
          remove text p.name
          return true

def list (c : Config) : Action Unit := do
  if c.installed.isEmpty then Action.printLine "No packages installed"
  else
    Action.printLine "Installed packages:"
    for (name, version) in ← Action.access c.installed.entries do
      let name ← Action.ofNumber name.shown
      let version ← Action.ofNumber (← Action.access version).shown
      Action.printLine s!"  {name}@{version}"

end SmallScript.Packages

import SmallScript.Registry.Refusal
import SmallScript.Packages.Publish

/-!
# Submissions

A submission is an archive with a description to read, a manifest and a main file. The manifest says
the name, the version and the description of the package.
-/

namespace SmallScript.Registry

open Machine (Failure)
open Packages
open Data (Table)
open World (Body)

def readmeName : String := "README.md"

def fileLimit : Nat := 1024 * 1024

def requestLimit : Nat := 1024 * 1024

def formSize : Nat := 256

def fileText (limit : Int) (name : String) (bytes : ByteArray) : Except Failure String :=
  if (bytes.size : Int) > limit then .error (.archiveLimit (.file name limit))
  else (Text.decode bytes).mapError .decode

def readFiles (limit : Int) (archive : Archive) : List String → Except Failure (Table String)
  | [] => .ok .empty
  | name :: rest => do
    match archive.file? name with
    | none => readFiles limit archive rest
    | some bytes =>
      let text ← fileText limit name bytes
      return Table.ofList ((name, text) :: (← readFiles limit archive rest).entries)

/-- What keeps a manifest from being read although it has no fault in its text. -/
def obstacleFailure : Toml.Obstacle → Failure
  | .kind f => .document f
  | .textEnd => .lookup .stringIndex
  | .listEnd => .lookup .listIndex
  | .noArray kind => .attribute kind "append"

def manifestDocument (text : String) : Except Failure (Except String Toml.Value) :=
  match Toml.parse text with
  | .ok doc => .ok (.ok doc)
  | .error (.at c offset) => .ok (.error (c.report text.toList offset))
  | .error (.other o) => .error (obstacleFailure o)

structure Submission where
  name : Toml.Value
  version : Version
  description : Toml.Value
  readme : String
  archive : Archive

def present (files : Table String) (name : String) (missing : Refusal) : Except Stop String :=
  match files.get? name with
  | some text => if text.isEmpty then refuse missing else .ok text
  | none => refuse missing

/-- The table of a manifest that describes the package; without one it is empty. -/
def packageTable (manifest : String) : Except Stop Toml.Value :=
  match manifestDocument manifest with
  | .error f => breakOff f
  | .ok (.error report) => refuse (.badManifest (some report))
  | .ok (.ok doc) =>
    if doc.isEmpty then refuse (.badManifest none)
    else match doc.field? "package" with
      | none => .ok .empty
      | some (.table fields inline) => .ok (.table fields inline)
      | some v => breakOff (.attribute v.kind "get")

def versionOf (table : Toml.Value) : Except Stop Version :=
  match table.field? "version" with
  | some (.str s) => match Version.parse? s with
    | some v => .ok v
    | none => refuse .badVersion
  | some v => breakOff (.document (.asText v.kind))
  | none => breakOff (.document (.asText "NoneType"))

def filled (table : Toml.Value) (name : String) : Except Stop Toml.Value :=
  match table.field? name with
  | some v => if v.isEmpty then refuse .badData else .ok v
  | none => refuse .badData

def Submission.ofArchive (archive : Archive) : Except Stop Submission := do
  let files ← (readFiles fileLimit archive [manifestName, readmeName, entryName]).mapError .failed
  let readme ← present files readmeName .noReadme
  let manifest ← present files manifestName .noManifest
  let _ ← present files entryName .noEntry
  let table ← packageTable manifest
  let version ← versionOf table
  return ⟨← filled table "name", version, ← filled table "description", readme, archive⟩

structure Upload where
  fileName : String
  body : Body

def Submission.ofUpload (file : Option Upload) : Except Stop Submission := do
  match file with
  | none => refuse .noFile
  | some file =>
    if file.fileName.isEmpty then refuse .noFile
    else Submission.ofArchive (← (archiveOf file.body).mapError .failed)

end SmallScript.Registry

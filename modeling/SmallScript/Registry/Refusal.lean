import SmallScript.Machine.Failure
import SmallScript.Packages.Version

/-!
# Refusals

A request that the catalogue does not carry out is refused for a cause, which has a status and a
message. Some causes also leave a note in the log of the server.
-/

namespace SmallScript.Registry

open Packages (Version)
open Machine (Failure)

inductive Refusal where
  | badKey
  | banned
  | noFile
  | noReadme
  | noManifest
  | noEntry
  /-- the manifest cannot be read, for the reported cause, or is empty -/
  | badManifest (report : Option String)
  | badVersion
  | badData
  | notOwner
  /-- the package has a version that is not before the one that is sent -/
  | oldVersion (sent latest : Version)
  | badName
  | tooLarge
  | notStored
  | noDocument
  | noName
  | noPackage
  | noRelease
  | notRemoved
deriving DecidableEq

namespace Refusal

def status : Refusal → Nat
  | .badKey => 401
  | .banned => 423
  | .badVersion | .oldVersion _ _ => 409
  | .notOwner => 403
  | .notStored | .notRemoved => 500
  | .noPackage | .noRelease => 404
  | .noFile | .noReadme | .noManifest | .noEntry | .badManifest _ | .badData | .badName | .tooLarge
  | .noDocument | .noName => 400

def message : Refusal → String
  | .badKey => "Invalid API key"
  | .banned => "Your account is banned"
  | .noFile => "Missing package file"
  | .noReadme => "Missing README.md file"
  | .noManifest => "Missing package.toml file"
  | .noEntry => "Missing entrypoint file"
  | .badManifest _ => "Invalid package.toml file"
  | .badVersion => "Invalid version string"
  | .badData => "Invalid package data"
  | .notOwner => "You are not the owner of this package"
  | .oldVersion sent latest =>
    s!"Can not update package, uploaded version <= current version ({sent.text} <= {latest.text})"
  | .badName => "Package name can only contain letters, numbers and underscores"
  | .tooLarge => "Request size must be less than 1MB"
  | .notStored => "Failed to upload file"
  | .noDocument => "Missing JSON data"
  | .noName => "Missing package name"
  | .noPackage => "Package not found"
  | .noRelease => "Release not found"
  | .notRemoved => "Failed to delete package"

end Refusal

def manifestReport (report : String) : String := s!"Failed to parse TOML: {report}\n"

namespace Refusal

def storeTrouble : String := "store is down"

def log : Refusal → String
  | .badManifest (some report) => manifestReport report
  | .notStored => s!"Failed to upload file {storeTrouble}\n"
  | .notRemoved => s!"Failed to delete file {storeTrouble}\n"
  | _ => ""

end Refusal

inductive Stop where
  | refused (r : Refusal)
  | failed (f : Failure)
deriving DecidableEq

def refuse {α : Type} (r : Refusal) : Except Stop α := .error (.refused r)

def breakOff {α : Type} (f : Failure) : Except Stop α := .error (.failed f)

end SmallScript.Registry

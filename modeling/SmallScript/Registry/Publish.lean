import SmallScript.Registry.Basic
import SmallScript.Registry.Submission

/-!
# Publishing

A user publishes a release of a new package or of one of the user's own. A release of a package that
is there has to be after its latest version. A new package is entered before its archive is stored,
and stays when the store does not answer.
-/

namespace SmallScript.Registry

open Machine (Failure)
open Packages
open Text (isIdentifier lower)

def Catalog.authenticate (c : Catalog) (key : Option String) : Except Stop User :=
  match c.userWithKey? key with
  | none => refuse .badKey
  | some u => if u.banned then refuse .banned else .ok u

/-- The package that a submission names, in just this spelling. -/
def Catalog.named? (c : Catalog) : Toml.Value → Option Package
  | .str name => c.package? name
  | _ => none

def checkUpdate (user : User) (version : Version) (p : Package) : Except Stop Unit :=
  if p.author ≠ user.id then refuse .notOwner
  else match p.latest with
    | none => .ok ()
    | some latest => if latest < version then .ok () else refuse (.oldVersion version latest)

def packageNameOf (name : Toml.Value) : Except Stop String := do
  let text := lower (← name.text.mapError fun f => .failed (.number f))
  if isIdentifier text.toList then .ok text else refuse .badName

structure Addition where
  author : User
  package : Option Package
  name : String
  submission : Submission

def Addition.path (a : Addition) : String := s!"{a.name}/{a.submission.version.text}.zip"

def Catalog.admit (c : Catalog) (user : User) (s : Submission) : Except Stop Addition := do
  let package := c.named? s.name
  if let some p := package then checkUpdate user s.version p
  let name ← packageNameOf s.name
  if s.archive.storedSize + formSize > requestLimit then refuse .tooLarge
  return ⟨user, package, name, s⟩

/-- Enters the package of a release if it is new; also the number of the package that gets the
release. That is the first one of the name. -/
def Catalog.enter (c : Catalog) (a : Addition) : Catalog × Nat :=
  match a.package with
  | some p => (c, p.id)
  | none => (c.addPackage a.name a.author.id a.submission.description,
      ((c.package? a.name).map (·.id)).getD c.nextPackage)

def Catalog.release (c : Catalog) (a : Addition) (package : Nat) : Catalog :=
  (c.putObject a.path a.submission.archive).addRelease package a.submission.version a.submission.readme a.path

def Catalog.publish (c : Catalog) (key : Option String) (file : Option Upload) (store : Store) :
    Except Stop Unit × Catalog :=
  let checked : Except Stop Addition := do
    let user ← c.authenticate key
    c.admit user (← Submission.ofUpload file)
  match checked with
  | .error e => (.error e, c)
  | .ok a =>
    let (c, package) := c.enter a
    if store.carriesOut 1 then (.ok (), c.release a package) else (refuse .notStored, c)

def Catalog.refreshKey (c : Catalog) (key : Option String) : Except Stop String × Catalog :=
  match c.authenticate key with
  | .error e => (.error e, c)
  | .ok u => (.ok (Catalog.keyText c.keysMade), c.renewKey u)

end SmallScript.Registry

import SmallScript.Registry.Publish

/-!
# Removing

The author of a package or an administrator removes one of its releases, or all of it. The row of a
single release goes before its archive, and stays away when the store does not answer. The rows of a
package go after all its archives; they stay when the store stops answering, without the archives that
are gone by then.
-/

namespace SmallScript.Registry

open Machine (Failure)

inductive Removal where
  | release (r : Release)
  | package (p : Package)

def Removal.message : Removal → String
  | .release _ => "Release deleted successfully"
  | .package _ => "Package deleted successfully"

/-- A part of a document, which has to be an object; a missing part is null. -/
def partOf (doc : Json) (name : String) : Except Stop Json :=
  (doc.partOr name .null).mapError fun f => .failed (.ofAccess f)

def Catalog.packageOf (c : Catalog) (name : Json) : Except Stop Package :=
  if name.isEmpty then refuse .noName
  else match name with
    | .str s => match c.package? s with
      | some p => .ok p
      | none => refuse .noPackage
    | _ => refuse .noPackage

/-- The removal of a version of a package, or of the whole package if no version is given. -/
def Catalog.removalOf (c : Catalog) (p : Package) (version : Json) : Except Stop Removal :=
  if version.isEmpty then .ok (.package p)
  else match version with
    | .str v => match c.release? p v with
      | some r => .ok (.release r)
      | none => refuse .noRelease
    | _ => refuse .noRelease

def Catalog.mayRemove (c : Catalog) (key : Option String) (doc : Json) : Except Stop Removal := do
  if doc.isEmpty then refuse .noDocument
  let name ← partOf doc "package"
  let version ← partOf doc "version"
  if (key.getD "").isEmpty then refuse .badKey
  let user ← c.authenticate key
  let p ← c.packageOf name
  if p.author ≠ user.id && !user.admin then refuse .notOwner
  c.removalOf p version

def Catalog.remove (c : Catalog) (removal : Removal) (store : Store) : Except Stop Unit × Catalog :=
  match removal with
  | .release r =>
    let c := c.dropRelease r
    if store.carriesOut 1 then (.ok (), c.dropObject r.path) else (refuse .notRemoved, c)
  | .package p =>
    let releases := c.releasesOf p
    if store.carriesOut releases.length then
      (.ok (), (c.dropReleases releases).dropPackage p)
    else (refuse .notRemoved, c.dropObjects (releases.take (store.extent releases.length)))

def Catalog.delete (c : Catalog) (key : Option String) (doc : Json) (store : Store) :
    Except Stop String × Catalog :=
  match c.mayRemove key doc with
  | .error e => (.error e, c)
  | .ok removal =>
    match c.remove removal store with
    | (.ok (), c) => (.ok removal.message, c)
    | (.error e, c) => (.error e, c)

end SmallScript.Registry

import SmallScript.Packages.Archive
import SmallScript.Packages.Version
import SmallScript.Toml.Value

/-!
# The catalogue of packages

The catalogue knows users, packages and the releases of packages, and keeps the archives of releases
under their paths. Rows stay in the order in which they were added; the numbers of rows count from
one and are never used again.

A package remembers the version that was added last, also when that release is gone.
-/

namespace SmallScript.Registry

open Packages (Archive Version)
open Data (Table)

structure User where
  id : Nat
  name : String
  /-- the key that requests of the user carry -/
  key : Option String
  banned : Bool
  admin : Bool
deriving Repr

structure Package where
  id : Nat
  name : String
  /-- the number of the user who made it -/
  author : Nat
  description : Toml.Value
  /-- the number of its downloads, over all releases -/
  downloads : Nat
  /-- the version that was added last -/
  latest : Option Version

structure Release where
  id : Nat
  package : Nat
  version : Version
  downloads : Nat
  readme : String
  path : String
deriving Repr

inductive Store where
  /-- it answers all the time -/
  | up
  /-- it carries out a number of operations and does not answer any more then -/
  | failing (after : Nat)
deriving DecidableEq, Repr

/-- How many of a number of operations the store carries out. -/
def Store.extent : Store → Nat → Nat
  | .up, n => n
  | .failing after, n => min after n

def Store.carriesOut (s : Store) (n : Nat) : Bool := s.extent n == n

structure Catalog where
  users : List User
  packages : List Package
  releases : List Release
  objects : Table Archive
  nextPackage : Nat
  nextRelease : Nat
  /-- the number of keys made so far -/
  keysMade : Nat

namespace Catalog

def start (users : List User) : Catalog := ⟨users, [], [], .empty, 1, 1, 0⟩

/-! ## Look-ups -/

/-- The first user with a key; a request without key is one of a user without key. -/
def userWithKey? (c : Catalog) (key : Option String) : Option User := c.users.find? (·.key == key)

def userById? (c : Catalog) (id : Int) : Option User := c.users.find? fun u => (u.id : Int) == id

def package? (c : Catalog) (name : String) : Option Package := c.packages.find? (·.name == name)

def releasesOf (c : Catalog) (p : Package) : List Release := c.releases.filter (·.package == p.id)

/-- The release of a package that was added last, of those that are left. -/
def lastRelease? (c : Catalog) (p : Package) : Option Release := (c.releasesOf p).getLast?

def release? (c : Catalog) (p : Package) (version : String) : Option Release :=
  (c.releasesOf p).find? (·.version.text == version)

def objectPaths (c : Catalog) : List String := c.objects.keys.mergeSort fun a b => decide (a ≤ b)

def totalDownloads (c : Catalog) : Nat := c.packages.foldl (fun n p => n + p.downloads) 0

/-! ## Changes -/

def modifyPackage (c : Catalog) (id : Nat) (f : Package → Package) : Catalog :=
  { c with packages := c.packages.map fun p => if p.id = id then f p else p }

def addPackage (c : Catalog) (name : String) (author : Nat) (description : Toml.Value) : Catalog :=
  { c with
    packages := c.packages ++ [⟨c.nextPackage, name, author, description, 0, none⟩]
    nextPackage := c.nextPackage + 1 }

def putObject (c : Catalog) (path : String) (archive : Archive) : Catalog :=
  { c with objects := c.objects.insert path archive }

/-- Adds a release to the package with a number; its version is then the latest. -/
def addRelease (c : Catalog) (package : Nat) (version : Version) (readme path : String) : Catalog :=
  let c : Catalog := { c with
    releases := c.releases ++ [⟨c.nextRelease, package, version, 0, readme, path⟩]
    nextRelease := c.nextRelease + 1 }
  c.modifyPackage package fun p => { p with latest := some version }

def dropRelease (c : Catalog) (r : Release) : Catalog :=
  { c with releases := c.releases.filter (·.id != r.id) }

def dropObject (c : Catalog) (path : String) : Catalog := { c with objects := c.objects.erase path }

def dropReleases (c : Catalog) (releases : List Release) : Catalog :=
  releases.foldl (fun c r => (c.dropRelease r).dropObject r.path) c

/-- Removes the archives of some releases, whose rows stay. -/
def dropObjects (c : Catalog) (releases : List Release) : Catalog :=
  { c with objects := releases.foldl (fun objects r => objects.erase r.path) c.objects }

def dropPackage (c : Catalog) (p : Package) : Catalog :=
  { c with packages := c.packages.filter (·.id != p.id) }

def countDownload (c : Catalog) (r : Release) : Catalog :=
  let c : Catalog := { c with
    releases := c.releases.map fun x => if x.id = r.id then { x with downloads := x.downloads + 1 } else x }
  c.modifyPackage r.package fun p => { p with downloads := p.downloads + 1 }

def keyText (n : Nat) : String := s!"uuid-{n}"

def renewKey (c : Catalog) (u : User) : Catalog :=
  { c with
    users := c.users.map fun x => if x.id = u.id then { x with key := some (keyText c.keysMade) } else x
    keysMade := c.keysMade + 1 }

end Catalog

end SmallScript.Registry

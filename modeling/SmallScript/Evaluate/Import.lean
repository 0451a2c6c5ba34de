import SmallScript.Library.Files
import SmallScript.Packages.Layout

/-!
# Sources of imports

An import names a module of the language, a source file, or an installed package. A package is listed
in a file of the package directory and has its main file in a directory of its own.
-/

namespace SmallScript.Evaluate

open Machine Library
open Syntax (Pos)
open Json (AccessFault)
open Packages

def packageList (name : String) (pos : Pos) : Action Json := do
  let s ← store
  match s.read (packageListPath s) with
  | .error f =>
    if f.cause = .notFound then Action.problem (.noPackage name pos) else Action.fail (.file f)
  | .ok content =>
    match Json.parse (← textOf content) with
    | none => Action.problem (.noPackage name pos)
    | some doc => return doc

def isListed (doc : Json) (name : String) : Except AccessFault Bool :=
  match doc with
  | .obj fields =>
    match fields.lookup "installed_packages" with
    | none => .ok false
    | some list => if list.isEmpty then .ok false else list.holds name
  | d => .error (.method d.kind "get")

def sourceText (path : String) : Action String := do
  match (← store).read path with
  | .ok content => textOf content
  | .error f => Action.fail (.file f)

def packageSource (name : String) (pos : Pos) : Action String := do
  let doc ← packageList name pos
  if ← Action.access (isListed doc name) then
    let s ← store
    let dir := joinPath (installedDir s) name
    let entry := joinPath dir entryName
    if !s.exists? dir then Action.problem (.packageMissing name pos)
    else if !s.exists? entry then Action.problem (.entryMissing name pos)
    else sourceText entry
  else Action.problem (.noPackage name pos)

/-- The source of a module that is not one of the language's own. The name of a source file gets the
ending a second time. -/
def moduleSource (name : String) (pos : Pos) : Action String := do
  if name.endsWith sourceEnding then
    if (← store).exists? name then sourceText (name ++ sourceEnding)
    else Action.problem (.noSourceFile name pos)
  else packageSource name pos

end SmallScript.Evaluate

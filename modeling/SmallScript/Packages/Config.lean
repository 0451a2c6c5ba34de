import SmallScript.Packages.Layout
import SmallScript.Library.Files

/-!
# The list of packages

The list is a JSON object in a file. It maps the names of installed packages to their versions and
remembers the key of the user. It is read when a command starts; changes count when they are saved.

A command that manages packages knows the list and changes what it knows before it saves it. What it knows outlives a
failure: `Managing`.
-/

namespace SmallScript.Packages

open Machine Library
open World (FileFault FileStore)

/-- The fields of the list as a command knows them. -/
structure Config where
  fields : List (String × Json)

def installedKey : String := "installed_packages"

def userKey : String := "api_key"

def onFiles {α : Type} (r : Except FileFault α) : Action α :=
  match r with
  | .ok a => pure a
  | .error f => Action.fail (.file f)

def changeFiles (f : FileStore → Except FileFault FileStore) : Action Unit := do
  setStore (← onFiles (f (← store)))

def writeList (doc : Json) : Action Unit := do
  let text ← Action.ofNumber doc.render
  changeFiles fun s => s.write (packageListPath s) text.toUTF8

/-- Reads the list; a missing one is made first, and one that is no document counts as empty. -/
def readList : Action Json := do
  let s ← store
  if !s.exists? (packageListPath s) then
    changeFiles fun s => s.write (packageListPath s) "\x7b\x7d".toUTF8
  let s ← store
  let text ← textOf (← onFiles (s.read (packageListPath s)))
  return (Json.parse text).getD (.obj [])

namespace Config

def installed (c : Config) : Json := (c.fields.lookup installedKey).getD (.obj [])

def withInstalled (c : Config) (doc : Json) : Config := ⟨Json.setField c.fields installedKey doc⟩

/-- Reads the list; without installed packages it gets an empty object for them. -/
def load : Action Config := do
  match ← readList with
  | .obj fields =>
    let c : Config := ⟨fields⟩
    return if c.installed.isEmpty then c.withInstalled (.obj []) else c
  | d => Action.fail (.attribute d.kind "get")

def save (c : Config) : Action Unit := writeList (.obj c.fields)

def forgetUser (c : Config) : Action Unit := writeList (.obj (Json.setField c.fields userKey .null))

end Config

/-- An action of a command that knows the list. -/
abbrev Managing (α : Type) := ExceptT Signal (StateT Config (StateM Machine)) α

namespace Managing

def lift {α : Type} (a : Action α) : Managing α := fun c m =>
  let (r, m') := a m
  ((r, c), m')

instance : MonadLift Action Managing := ⟨lift⟩

def known : Managing Config := fun c m => ((.ok c, c), m)

def learn (c : Config) : Managing Unit := fun _ m => ((.ok (), c), m)

def start {α : Type} (a : Managing α) (c : Config) : Action α := fun m =>
  let ((r, _), m') := a c m
  (r, m')

end Managing

end SmallScript.Packages

import SmallScript.World.FileStore

/-!
# The package directory

The package directory holds the list of packages and a directory with a directory for every installed
package. A package has a main file.
-/

namespace SmallScript.Packages

open World (FileStore)

def packageListName : String := "packages.json"

def installedName : String := "installed"

def entryName : String := "main.eryx"

def sourceEnding : String := ".eryx"

/-- A path behind a directory; an absolute one stands for itself. -/
def joinPath (dir name : String) : String :=
  if name.startsWith "/" then name else if dir.endsWith "/" then dir ++ name else dir ++ "/" ++ name

def packagePath (s : FileStore) (name : String) : String := joinPath (s.pathText s.packageDir) name

def packageListPath (s : FileStore) : String := packagePath s packageListName

def installedDir (s : FileStore) : String := packagePath s installedName

end SmallScript.Packages

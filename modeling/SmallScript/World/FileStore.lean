import SmallScript.Text.Utf8

/-!
# Files

A file store maps absolute paths to directories and files and knows the current directory. A path
in a program is resolved step by step from the current directory; every step but the last has to
lead to a directory.

Two directories matter to programs: the one they start in and the one that holds the installed
packages. Both lie in one base directory, whose own name is up to the host.
-/

namespace SmallScript.World

open Text

/-- The names of the directories from the root to a file. -/
abbrev Path := List String

/-- What stands between the slashes of a text. -/
def slashParts (text : String) : List String := (text.toList.splitOn '/').map String.ofList

inductive Entry where
  | dir
  | file (content : ByteArray)

structure FileStore where
  /-- all entries but the root -/
  entries : List (Path × Entry)
  current : Path
  /-- the full name of the base directory, which counts as one step from the root -/
  base : String
  /-- the directory that programs start in -/
  workDir : Path
  /-- the directory of installed packages and their list -/
  packageDir : Path

inductive FileCause where
  | notFound | isDirectory | notDirectory | notEmpty | occupied | belowItself
deriving DecidableEq, Repr

/-- A failed operation: why, and the path as it was written; for a move also where to. -/
structure FileFault where
  cause : FileCause
  path : String
  target : Option String := none
deriving DecidableEq, Repr

def FileFault.message (f : FileFault) : String :=
  let reason := match f.cause with
    | .notFound => "[Errno 2] No such file or directory"
    | .isDirectory => "[Errno 21] Is a directory"
    | .notDirectory => "[Errno 20] Not a directory"
    | .notEmpty => "[Errno 39] Directory not empty"
    | .occupied => "[Errno 17] File exists"
    | .belowItself => "[Errno 22] Invalid argument"
  let target := match f.target with
    | some t => " -> " ++ quoted t
    | none => ""
  s!"{reason}: {quoted f.path}{target}"

namespace FileStore

def pathText (s : FileStore) : Path → String
  | [] => "/"
  | p@(first :: _) => (if first == s.base then "" else "/") ++ "/".intercalate p

def get? (s : FileStore) (p : Path) : Option Entry :=
  if p.isEmpty then some .dir else (s.entries.find? (·.1 == p)).map (·.2)

/-- Sets the entry at a path, in place if there is one. -/
def set (s : FileStore) (p : Path) (e : Entry) : FileStore :=
  if (s.get? p).isSome then
    { s with entries := s.entries.map fun x => if x.1 == p then (p, e) else x }
  else { s with entries := s.entries ++ [(p, e)] }

def erase (s : FileStore) (p : Path) : FileStore :=
  { s with entries := s.entries.filter (·.1 != p) }

def eraseTree (s : FileStore) (p : Path) : FileStore :=
  { s with entries := s.entries.filter fun x => !p.isPrefixOf x.1 }

def makeDirs (s : FileStore) (p : Path) : FileStore :=
  (List.range p.length).foldl (fun s i =>
    let q := p.take (i + 1)
    if (s.get? q).isSome then s else s.set q .dir) s

def put (s : FileStore) (p : Path) (content : ByteArray) : FileStore :=
  (s.makeDirs p.dropLast).set p (.file content)

def children (s : FileStore) (p : Path) : List String :=
  s.entries.filterMap fun x =>
    if x.1.length = p.length + 1 && p.isPrefixOf x.1 then x.1.getLast? else none

/-- The entries below a directory with their paths relative to it. -/
def below (s : FileStore) (p : Path) : List (Path × Entry) :=
  s.entries.filterMap fun x =>
    if p.isPrefixOf x.1 && x.1 != p then some (x.1.drop p.length, x.2) else none

def pathParts (text : String) : List String := (slashParts text).filter (· != "")

/-- The directory that a written path starts from, and its steps. -/
def startOf (s : FileStore) (text : String) : Path × List String :=
  if text == s.base || text.startsWith (s.base ++ "/") then
    ([s.base], pathParts (String.ofList (text.toList.drop s.base.length)))
  else if text.startsWith "/" then ([], pathParts text)
  else (s.current, pathParts text)

/-- Follows steps from a directory. The last step may lead to nothing. -/
def walk (s : FileStore) (here : Path) : List String → Except FileCause Path
  | [] => .ok here
  | step :: rest =>
    match s.get? here with
    | some .dir =>
      let next := if step == "." then here else if step == ".." then here.dropLast else here ++ [step]
      match rest, s.get? next with
      | _ :: _, none => .error .notFound
      | _, _ => s.walk next rest
    | some (.file _) => .error .notDirectory
    | none => .error .notFound

def resolve (s : FileStore) (text : String) : Except FileCause Path :=
  if text.isEmpty then .error .notFound
  else
    let (here, steps) := s.startOf text
    match s.walk here steps with
    | .error c => .error c
    | .ok p =>
      -- a slash at the end asks for a directory
      match text.endsWith "/", s.get? p with
      | true, some (.file _) => .error .notDirectory
      | _, _ => .ok p

def exists? (s : FileStore) (text : String) : Bool :=
  match s.resolve text with
  | .ok p => (s.get? p).isSome
  | .error _ => false

def withPath {α : Type} (text : String) (r : Except FileCause α) : Except FileFault α :=
  r.mapError (⟨·, text, none⟩)

def read (s : FileStore) (text : String) : Except FileFault ByteArray :=
  withPath text do
    let p ← s.resolve text
    match s.get? p with
    | some (.file content) => return content
    | some .dir => .error .isDirectory
    | none => .error .notFound

/-- Writes a file; the directory that it lies in has to exist. -/
def write (s : FileStore) (text : String) (content : ByteArray) : Except FileFault FileStore :=
  withPath text do
    let p ← s.resolve text
    match s.get? p with
    | some .dir => .error .isDirectory
    | some (.file _) => return s.set p (.file content)
    | none => if text.endsWith "/" then .error .isDirectory else return s.set p (.file content)

def append (s : FileStore) (text : String) (content : ByteArray) : Except FileFault FileStore :=
  match s.read text with
  | .ok old => s.write text (old ++ content)
  | .error _ => s.write text content

def delete (s : FileStore) (text : String) : Except FileFault FileStore :=
  withPath text do
    let p ← s.resolve text
    match s.get? p with
    | some (.file _) => return s.erase p
    | some .dir => .error .isDirectory
    | none => .error .notFound

/-- The path `p` with its front `a` replaced by `b`. -/
def rebase (a b p : Path) : Path := if a.isPrefixOf p then b ++ p.drop a.length else p

/-- Moves a file or directory over another one; a directory cannot move below itself. -/
def move (s : FileStore) (source target : String) : Except FileFault FileStore :=
  Except.mapError (⟨·, source, some target⟩) do
    let p ← s.resolve source
    let q ← s.resolve target
    match s.get? p with
    | none => .error .notFound
    | some entry =>
      if p = q then return s
      else if p.isPrefixOf q then .error .belowItself
      else match entry, s.get? q with
        | .file _, some .dir => .error .isDirectory
        | .dir, some (.file _) => .error .notDirectory
        | .dir, some .dir =>
          if (s.children q).isEmpty then
            let s := s.erase q
            return { s with entries := s.entries.map fun x => (rebase p q x.1, x.2) }
          else .error .notEmpty
        | .dir, none => return { s with entries := s.entries.map fun x => (rebase p q x.1, x.2) }
        | .file content, _ => return (s.erase p).set q (.file content)

def size (s : FileStore) (text : String) : Except FileFault Nat :=
  withPath text do
    let p ← s.resolve text
    match s.get? p with
    | some (.file content) => return content.size
    | some .dir => return 4096
    | none => .error .notFound

def list (s : FileStore) (text : String) : Except FileFault (List String) :=
  withPath text do
    let p ← s.resolve text
    match s.get? p with
    | some .dir => return s.children p
    | some (.file _) => .error .notDirectory
    | none => .error .notFound

def isDir (s : FileStore) (text : String) : Bool :=
  match s.resolve text with
  | .ok p => match s.get? p with
    | some .dir => true
    | _ => false
  | .error _ => false

/-- Makes a directory; the one that it lies in has to exist, and nothing else may be in its place. -/
def makeDir (s : FileStore) (text : String) : Except FileFault FileStore :=
  withPath text do
    let p ← s.resolve text
    if (s.get? p).isSome then .error .occupied else return s.set p .dir

def makePath (s : FileStore) (text : String) : Except FileFault FileStore :=
  let parts := pathParts text
  (List.range parts.length).foldlM (fun s i =>
    let step := (if text.startsWith "/" then "/" else "") ++ "/".intercalate (parts.take (i + 1))
    if s.exists? step then .ok s else s.makeDir step) s

def removeTree (s : FileStore) (text : String) : Except FileFault FileStore :=
  withPath text do
    let p ← s.resolve text
    match s.get? p with
    | some .dir => return s.eraseTree p
    | some (.file _) => .error .notDirectory
    | none => .error .notFound

def totalSize (s : FileStore) (text : String) : Nat :=
  match s.resolve text with
  | .ok p => (s.below p).foldl (fun n e => n + match e.2 with | .file c => c.size | .dir => 0) 0
  | .error _ => 0

def enter (s : FileStore) (text : String) : Except FileFault FileStore :=
  withPath text do
    let p ← s.resolve text
    match s.get? p with
    | some .dir => return { s with current := p }
    | some (.file _) => .error .notDirectory
    | none => .error .notFound

end FileStore

/-- A written path in normal form: no empty parts, no `.` but for the current directory. -/
def plainPath (text : String) : String :=
  let parts := (FileStore.pathParts text).filter (· != ".")
  let body := "/".intercalate parts
  if text.startsWith "/" then "/" ++ body else if parts.isEmpty then "." else body

/-- The parts of a path without those that are taken back by `..` behind them. -/
def foldParts : List String → List String → List String
  | done, [] => done.reverse
  | done, ".." :: rest =>
    match done with
    | d :: done => if d == ".." then foldParts (".." :: d :: done) rest else foldParts done rest
    | [] => foldParts [".."] rest
  | done, p :: rest => foldParts (p :: done) rest

def shortPath (text : String) : String :=
  let parts := foldParts [] ((FileStore.pathParts text).filter (· != "."))
  let absolute := text.startsWith "/"
  let parts := if absolute then parts.dropWhile (· == "..") else parts
  if absolute then "/" ++ "/".intercalate parts else if parts.isEmpty then "." else "/".intercalate parts

def parentPath (text : String) : String := "/".intercalate (slashParts text).dropLast

def baseName (text : String) : String := ((slashParts text).getLast?).getD ""

/-- The store of a base directory, which has nothing in it but the directory that programs start in
and the one of packages, given by their paths from the base. -/
def FileStore.initial (base : String) (work packages : Path) : FileStore :=
  let s : FileStore := ⟨[([base], .dir)], base :: work, base, base :: work, base :: packages⟩
  (s.makeDirs s.workDir).makeDirs s.packageDir

end SmallScript.World

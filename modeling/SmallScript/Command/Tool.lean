import SmallScript.Command.Parse
import SmallScript.Packages.Publish
import SmallScript.Session.Repl

/-!
# The command line tool

The tool starts the interactive loop, runs and transpiles files, starts the web IDE and manages
packages. Serving and the test suite are up to the host: for these commands the tool yields what it
asks the host to do.
-/

namespace SmallScript.Command

open Machine Session Library Packages
open World (baseName)
open Text (lower)

/-! ## Grammar -/

def flag (name key help : String) : Opt := ⟨[name], key, .flag, help⟩

def showFlags : List Opt := [
  helpOption,
  flag "--ast" "ast" "Print the abstract syntax tree (AST).",
  flag "--result" "result" "Print the result of the evaluation.",
  flag "--tokenize" "tokenize" "Print the tokenized source code."]

def serverOption : Opt := ⟨["--server"], "server", .text "SERVER", "Server to use"⟩

def packageCommands : List (String × String × Grammar) := [
  ("install", "Install a package",
    .leaf [helpOption, flag "--upgrade" "upgrade" "Upgrade package", serverOption]
      [⟨"package", "Package to install"⟩]),
  ("uninstall", "Uninstall a package", .leaf [helpOption] [⟨"package", "Package to uninstall"⟩]),
  ("list", "List all installed packages", .leaf [helpOption] []),
  ("upload", "Upload a package",
    .leaf [helpOption, serverOption] [⟨"package_folder", "Package folder to upload"⟩]),
  ("delete", "Delete a package", .leaf [helpOption, serverOption] [⟨"package", "Package to delete"⟩]),
  ("init", "Initialize a new package",
    .leaf [helpOption] [⟨"path", "Path where the package should be initialized"⟩])]

def packageGrammar : Grammar :=
  .branch none [helpOption] "package_command" "Available package commands" packageCommands

def toolCommands : List (String × String × Grammar) := [
  ("repl", "Start the REPL", .leaf showFlags []),
  ("run", "Run an Eryx file", .leaf showFlags [⟨"filepath", "File path to run."⟩]),
  ("server", "Start the web IDE",
    .leaf [helpOption, ⟨["--port"], "port", .integer "PORT", "Port number for the web IDE."⟩,
      ⟨["--host"], "host", .text "HOST", "Host for the web IDE."⟩,
      flag "--no-file-io" "no_file_io" "Disable file I/O"] []),
  ("test", "Run the test suite", .leaf [helpOption] []),
  ("transpile", "Transpile Eryx code", .leaf [helpOption] [⟨"filepath", "File path to transpile"⟩]),
  ("package", "Manage Eryx packages", packageGrammar)]

def toolGrammar : Grammar :=
  .branch (some "Eryx Command Line Interface")
    [helpOption, ⟨["--version"], "version", .shows s!"Eryx, version {version}", "Show the version number and exit."⟩]
    "command" "Available commands" toolCommands

/-! ## Commands -/

inductive Outcome where
  /-- nothing more -/
  | done
  /-- serve the web IDE -/
  | serve (host : String) (port : Int) (guarded : Bool)
  /-- run the test suite -/
  | test
deriving DecidableEq, Repr

def shownBy (r : Reading) : RunOptions :=
  { ast := r.has "ast", result := r.has "result", tokens := r.has "tokenize" }

def sourceIn (path : String) : Action String := do textOf (← onFiles ((← store).read path))

/-- Runs a file. A file that is missing, the file itself or one that the program asks for, is
reported. -/
def runFile (path : String) (o : RunOptions) : Action Unit := do
  let run : Action Unit := do
    let source ← sourceIn path
    let scope ← Action.onHeap (·.newGlobal false)
    let _ ← runCode o source scope
  match ← Action.attempt run with
  | .ok () => pure ()
  | .error (.failure f) =>
    if f.kind = .fileNotFound then
      Action.printLine s!"eryx: can't open file '{path}': [Errno 2] No such file or directory"
    else Action.fail f
  | .error e => throw e

/-- Saves transpiled code next to its source, asking before an existing file is overwritten. -/
def saveTranspiled (path code : String) : Action Unit := do
  let target := path ++ ".py"
  let agreed ← if (← store).exists? target then do
      pure (lower (← prompt s!"File '{baseName target}' already exists. Overwrite? (y/n): ") == "y")
    else pure true
  if agreed then
    changeFiles (·.write target code.toUTF8)
    Action.printLine s!"Transpiled code saved to '{target}'"
  else Action.printLine "Operation cancelled."

def transpileFile (path : String) : Action Unit := do
  if !(← store).exists? path then Action.printLine s!"File '{path}' not found."
  else
    let source ← sourceIn path
    let scope ← Action.onHeap (·.newGlobal false)
    match ← runCode { transpile := true } source scope with
    | none | some "" => Action.printLine "Transpilation failed."
    | some code => saveTranspiled path code

/-- A command for packages; an interrupt cancels it. -/
def packageCommand (program : String) (c : Config) (r : Reading) : Action Unit := do
  let package := (r.value? "package").getD ""
  let server := (r.value? "server").getD defaultServer
  let command : Action Unit := match r.path with
    | [_, "install"] => do let _ ← (install package server (r.has "upgrade")).start c
    | [_, "uninstall"] => do let _ ← (uninstall package).start c
    | [_, "list"] => list c
    | [_, "upload"] => upload c ((r.value? "package_folder").getD "") server
    | [_, "delete"] => delete c package server
    | [_, "init"] => init ((r.value? "path").getD "")
    | _ => Action.modifyWorld (·.print (packageGrammar.helpText (programAt program "package")))
  match ← Action.attempt command with
  | .ok () => pure ()
  | .error (.failure .interrupt) => Action.printLine "\nOperation cancelled."
  | .error e => throw e

def carryOut (program : String) (c : Config) (r : Reading) : Action Outcome := do
  let path := (r.value? "filepath").getD ""
  match r.path with
  | ["repl"] => do startRepl (shownBy r); return .done
  | ["run"] => do runFile path (shownBy r); return .done
  | ["server"] =>
    let port := ((r.value? "port").bind fun p => (Number.integer p).toOption).getD 80
    return .serve ((r.value? "host").getD "0.0.0.0") port (r.has "no_file_io")
  | ["test"] => return .test
  | ["transpile"] => do transpileFile path; return .done
  | "package" :: _ => do packageCommand program c r; return .done
  | _ => do
    Action.modifyWorld (·.print (toolGrammar.helpText program))
    return .done

/-- The name of the program in usage texts: the last part of the path that it was started by, or how to
start it as a module. -/
def programName (startedBy : String) : String :=
  let name := baseName startedBy
  if name == "__main__.py" then "python -m eryx" else name

def runTool (startedBy : String) (args : List String) : Action Outcome := do
  let c ← Config.load
  let program := programName startedBy
  match toolGrammar.parse program args with
  | .ok r => carryOut program c r
  | .error (.shown text) => do
    Action.modifyWorld (·.print text)
    Action.fail (.exit 0)
  | .error (.refused text) => do
    Action.modifyWorld (·.printError text)
    Action.fail (.exit 2)

end SmallScript.Command

import SmallScript.Command.Tool
import SmallScript.Text.Ansi

/-!
# Ways to start the program

The tool can be started directly, or by scripts that keep terminal sequences out of its output. The
interactive loop and a demonstration of the transpiler can be started on their own.
-/

namespace SmallScript.Command

open Machine Session
open Text (plainText)

inductive Script where
  /-- the tool, started by a path -/
  | tool (startedBy : String)
  /-- the tool, with terminal sequences kept out of its output -/
  | plainTool (startedBy : String)
  | loop
  /-- the demonstration of the transpiler -/
  | sample
deriving DecidableEq, Repr

def plainly {α : Type} (a : Action α) : Action α := fun m =>
  let before := m.world.output
  let (r, m) := a { m with world := { m.world with output := "" } }
  (r, { m with world := { m.world with output := before ++ plainText m.world.output } })

def sampleSource : String :=
  "enum Colors \x7b\n    green\n    black\n    cyan\n    magenta\n\x7d\n\nprint(Colors)\n\nprint(Colors.green)"

def showSample : Action Unit := do
  let tree ← treeOf sampleSource
  Action.printLine (← Transpile.transpile false (bodyOf tree))

/-- Starts the program with arguments. The list of packages is read at every start. -/
def Script.run (s : Script) (args : List String) : Action Outcome := do
  match s with
  | .tool startedBy => runTool startedBy args
  | .plainTool startedBy => plainly (runTool startedBy args)
  | .loop => do
    let _ ← Packages.Config.load
    startRepl {}
    return .done
  | .sample => do
    let _ ← Packages.Config.load
    showSample
    return .done

end SmallScript.Command

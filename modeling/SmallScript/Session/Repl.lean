import SmallScript.Session.Run

/-!
# The interactive loop

Lines are read and run one after the other in one scope, and results are printed. An interrupt ends
the loop and the process.
-/

namespace SmallScript.Session

open Machine
open Value (ScopeRef)

def replRound (o : RunOptions) (scope : ScopeRef) : Action Unit := do
  Action.modifyWorld (·.print "> ")
  let source ← Library.readLine
  match ← runCode o source scope with
  | some text => if text.isEmpty then pure () else Action.printLine text
  | none => pure ()

/-- Rounds until an interrupt, at most as many as the first argument says. -/
def replRounds (o : RunOptions) (scope : ScopeRef) : Nat → Action Unit
  | 0 => pure ()
  | n + 1 => do
    match ← Action.attempt (replRound o scope) with
    | .ok _ => replRounds o scope n
    | .error (.failure .interrupt) =>
      Action.printLine ""
      Action.fail (.exit 0)
    | .error e => throw e

/-- Starts the loop. A round uses up a line of input at least, so there are no more rounds than lines
and one that finds no line. -/
def startRepl (o : RunOptions) : Action Unit := do
  let scope ← Action.onHeap (·.newGlobal false)
  Action.printLine s!"\nEryx v{version}"
  replRounds o scope ((← Action.world).input.length + 1)

end SmallScript.Session

import SmallScript.Library.Files
import SmallScript.World.Shell

/-!
# Functions on the process and on time

The current directory, the environment variables and commands of the shell. Times are seconds since the start of 1970.
Waiting is recorded in the world and moves no clock.
-/

namespace SmallScript.Library

open Machine
open Number (dateTimeOf logStamp)
open Syntax (Pos)

def currentDir : Action Value := do
  let s ← store
  return .str (s.pathText s.current)

def changeDir (args : List Value) : Action Value := do
  let name ← oneString args "directory argument" "Directory"
  match (← store).enter name with
  | .ok s => setStore s
  | .error f => Action.fail (.file f)
  return .null

def environmentVariable (args : List Value) : Action Value := do
  let env := (← Action.world).environment
  match args with
  | [] => Action.object (env.map fun e => (e.1, .str e.2))
  | .str name :: _ => return .str ((env.lookup name).getD "")
  | _ :: _ => Action.problem (.mustBe "Variable name" "a string")

/-- Runs a command of the host. The status is the exit code in the higher byte. -/
def execute (args : List Value) : Action Value := do
  let line ← oneString args "command argument" "Command"
  let (output, code) := (← Action.world).execute line
  Action.object [("output", .str output), ("status", .nat (code * 256))]

def time : Action Value := do Action.number (.float (← Action.world).clock)

def sleep (args : List Value) : Action Value := do
  let n ← number "Time" (← first args "time argument")
  Action.modifyWorld fun w => { w with slept := n :: w.slept }
  return .null

def formatTime (args : List Value) : Action Value := do
  let n ← number "Time" (← first args "time argument")
  match dateTimeOf n with
  | .ok d => return .str d.text
  | .error f => Action.fail (.time f)

def log (level : String) (args : List Value) (pos : Pos) : Action Value := do
  let text ← oneString args "message argument" "Message"
  let stamp := logStamp (← Action.world).clock
  let col := pos.col - pos.len
  Action.printLine s!"{stamp} | Ln {pos.line}, Col {col} | {level}  - {text}"
  return .null

end SmallScript.Library

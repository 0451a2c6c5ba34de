import SmallScript.Evaluate.Basic
import SmallScript.Transpile.Emit

/-!
# Running programs

A program is read and evaluated in a scope. What is wrong with the source and the problems that the
language reports are printed; other failures leave the run.
-/

namespace SmallScript.Session

open Machine Syntax Text
open Value (ScopeRef)
open Inspect (Datum pretty Layout nodeDatum tokensDatum)
open Evaluate (evaluate)

structure RunOptions where
  /-- print the syntax tree -/
  ast : Bool := false
  result : Bool := false
  tokens : Bool := false
  /-- transpile the program instead of evaluating it -/
  transpile : Bool := false

def version : String := "0.5.8"

def printPretty (d : Datum) : Action Unit := do
  match pretty .standard d with
  | .ok text => Action.printLine text
  | .error f => Action.fail (.pretty f)

def tokensOf (source : String) : Action (List Token) :=
  match tokenize source with
  | .ok tokens => pure tokens
  | .error f => Action.fail (.parse source f.toParseFault)

def treeOf (source : String) : Action Node :=
  match parse source with
  | .ok tree => pure tree
  | .error f => Action.fail (.parse source f)

def bodyOf : Node → List Node
  | .program _ body => body
  | _ => []

/-- The first half of a run: tokens and tree, or the transpiled code. -/
def prepare (o : RunOptions) (source : String) : Action (Node ⊕ String) := do
  if o.tokens then
    let tokens ← tokensOf source
    Action.printLine "Tokenized:"
    printPretty (tokensDatum tokens)
  let tree ← treeOf source
  if o.ast then
    Action.printLine "AST:"
    printPretty (nodeDatum tree)
  if o.transpile then return .inr (← Transpile.transpile false (bodyOf tree)) else return .inl tree

def evaluateShown (o : RunOptions) (tree : Node) (scope : ScopeRef) : Action Value := do
  let v ← evaluate tree scope
  if o.result then
    Action.printLine "\nResult:"
    printPretty ((← Action.heap).snapshot v).datum
  return v

/-- Runs a program. The result is the transpiled code, or the text of a value other than null. -/
def runCode (o : RunOptions) (source : String) (scope : ScopeRef) : Action (Option String) := do
  match ← Action.attempt (prepare o source) with
  | .error (.failure f) =>
    if f.kind = .syntaxError then
      Action.printLine f.message
      return none
    else Action.fail f
  | .error e => throw e
  | .ok (.inr code) => return some code
  | .ok (.inl tree) =>
    match ← Action.attempt (evaluateShown o tree scope) with
    | .error (.failure f) =>
      if f.kind = .runtime then
        let label := Colour.red.paint "Runtime Error"
        Action.printLine s!"{label}: {f.message}"
        return none
      else Action.fail f
    | .error e => throw e
    | .ok .null => return none
    | .ok v => return some (← Action.display v)

end SmallScript.Session

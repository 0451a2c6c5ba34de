import SmallScript.Library.Arguments
import SmallScript.Text.Digest

/-!
# Functions on strings

Strings never change: every function makes a new one. The arguments are checked for their number first
and for their kinds then, from left to right.
-/

namespace SmallScript.Library

open Machine
open Text (pieces joinPieces replaceAll occursIn)

def splitString (args : List Value) : Action Value := do
  let (s, sep) ← twoStrings args "string or separator argument" "String" "Separator"
  if sep.isEmpty then Action.fail (.lookup .emptySeparator)
  else Action.array ((pieces sep.toList s.toList).map fun p => .str (String.ofList p))

def joinStrings (args : List Value) : Action Value := do
  let (a, b) ← firstTwo args "array or separator argument"
  let ref ← array "Array" a
  let sep ← string "Separator" b
  match ((← Action.heap).elements ref).toList.mapM Value.str? with
  | some texts => return .str (String.ofList (joinPieces sep.toList (texts.map (·.toList))))
  | none => Action.problem (.mustContain "strings")

def replaceString (args : List Value) : Action Value := do
  let (a, b, c) ← firstThree args "string, search or replace argument"
  let s ← string "String" a
  let old ← string "Search" b
  let new ← string "Replace" c
  return .str (String.ofList (replaceAll s.toList old.toList new.toList))

def stringContains (args : List Value) : Action Value := do
  let (s, part) ← twoStrings args "string or search argument" "String" "Search"
  return .bool (occursIn part.toList s.toList)

def digest (f : List UInt8 → String) (args : List Value) : Action Value := do
  return .str (f (← oneString args "data argument" "Data").toUTF8.toList)

end SmallScript.Library

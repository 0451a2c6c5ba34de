import SmallScript.Machine.Failure

/-!
# Expressions in Python

`convert` writes an expression of the language as Python. What has no counterpart is written with
all its parts.
-/

namespace SmallScript.Transpile

open Syntax Number
open Inspect (nodeDatum nodeKind)
open Machine (Failure)
open Machine.Snapshot (cutTail numberDisplay)

def ofNumber {α : Type} (r : Except NumberFault α) : Except Failure α := r.mapError .number

def nodeText (n : Node) : Except Failure String := ofNumber (nodeDatum n).text

/-- A name in Python: the constants are spelled differently. -/
def nameText (name : String) : String :=
  if name == "true" then "True" else if name == "false" then "False"
  else if name == "null" then "None" else name

def stringText (s : String) : String := "\"" ++ s ++ "\""

mutual

def convert : Node → Except Failure String
  | .array _ elements => return "[" ++ ", ".intercalate (← convertAll elements) ++ "]"
  | .string _ s => return stringText s
  | .number _ n => ofNumber (numberDisplay n)
  | .object _ properties => return cutTail 2 ("\x7b " ++ (← convertFields properties)) ++ " \x7d"
  | .identifier _ name => return nameText name
  | .binary _ left op right => return (← convert left) ++ " " ++ op ++ " " ++ (← convert right)
  | .call _ args callee =>
    return (← convert callee) ++ "(" ++ ", ".intercalate (← convertAll args) ++ ")"
  | .member _ object property computed => do
    let o ← convert object
    let p ← convert property
    return if computed then o ++ "[" ++ p ++ "]" else o ++ "." ++ p
  | n => nodeText n

def convertAll : List Node → Except Failure (List String)
  | [] => .ok []
  | n :: rest => return (← convert n) :: (← convertAll rest)

def convertFields : List Node → Except Failure String
  | [] => .ok ""
  | n :: rest => return (← convertField n) ++ ", " ++ (← convertFields rest)

def convertField : Node → Except Failure String
  | .property _ key .absent => return stringText key ++ ": " ++ key
  | .property _ key value => return stringText key ++ ": " ++ (← convert value)
  | n => .error (.attribute (nodeKind n) "value")

end

end SmallScript.Transpile

import SmallScript.Machine.Action

/-!
# Arguments of native functions

A native function first checks that it has enough arguments and then the kind of each.
-/

namespace SmallScript.Library

open Machine
open Number (Numeric)

def first (args : List Value) (what : String) : Action Value :=
  match args with
  | a :: _ => pure a
  | [] => Action.problem (.missing what)

def firstTwo (args : List Value) (what : String) : Action (Value × Value) :=
  match args with
  | a :: b :: _ => pure (a, b)
  | _ => Action.problem (.missing what)

def firstThree (args : List Value) (what : String) : Action (Value × Value × Value) :=
  match args with
  | a :: b :: c :: _ => pure (a, b, c)
  | _ => Action.problem (.missing what)

/-- The first argument, where a missing one is an index out of range. -/
def head (args : List Value) : Action Value :=
  match args with
  | a :: _ => pure a
  | [] => Action.fail (.lookup .listIndex)

def string (what : String) : Value → Action String
  | .str s => pure s
  | _ => Action.problem (.mustBe what "a string")

def number (what : String) : Value → Action Numeric
  | .num n _ => pure n
  | _ => Action.problem (.mustBe what "a number")

def array (what : String) : Value → Action Nat
  | .array ref => pure ref
  | _ => Action.problem (.mustBe what "an array")

def numbers? (vs : List Value) : Option (List Numeric) := vs.mapM Value.num?

def oneString (args : List Value) (missing what : String) : Action String := do
  string what (← first args missing)

def twoStrings (args : List Value) (missing what what' : String) : Action (String × String) := do
  let (a, b) ← firstTwo args missing
  let a ← string what a
  let b ← string what' b
  return (a, b)

def cannotWith {α : Type} (action : String) (v : Value) : Action α := do
  Action.problem (.cannot action (← Action.inspect v))

def cannotWithAll {α : Type} (action : String) (vs : List Value) : Action α := do
  Action.problem (.cannot action (← Action.inspectAll vs))

end SmallScript.Library

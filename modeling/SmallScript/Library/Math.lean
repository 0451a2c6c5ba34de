import SmallScript.Library.Arguments
import SmallScript.Number.Round

/-!
# Functions on numbers

Results are numbers of the machine, each result that is not a number with a stamp of its own. A fault in
the arithmetic leaves the call as it is.
-/

namespace SmallScript.Library

open Machine
open Number (Numeric NumberFault OrderOp extremum sumNums)

/-- The square root: the power with exponent one half. -/
def sqrt (args : List Value) : Action Value := do
  let n ← number "Input type" (← first args "number value")
  Action.numberOf (n.pow (.float 0.5))

def random : Action Value := do Action.number (.float (← Action.world).random)

def round (args : List Value) : Action Value :=
  match args with
  | [] => return .int 0
  | [.num n _] => Action.numberOf n.round
  | [.num n _, .num places _] => do
    let places ← Action.ofNumber places.trunc
    Action.numberOf (n.roundTo places)
  | v :: _ => cannotWith "round" v

def numberElements? (v : Value) : Action (Option (List (Numeric × Value))) := do
  match v with
  | .array ref => return ((← Action.heap).elements ref).toList.mapM fun e => e.num?.map (·, e)
  | _ => return none

def sum (args : List Value) : Action Value := do
  match args with
  | [] => return .int 0
  | v :: _ =>
    match ← numberElements? v with
    | some ns => Action.numberOf (sumNums (ns.map (·.1)))
    | none => cannotWith "sum" v

def extreme (which : String) (op : OrderOp) (args : List Value) : Action Value := do
  match args with
  | [] => return .int 0
  | v :: _ =>
    match ← numberElements? v with
    | some ns => return (← Action.ofNumber (extremum which op (·.1) ns)).2
    | none => cannotWith s!"get {which} for" v

def abs (args : List Value) : Action Value :=
  match args with
  | [] => return .int 0
  | .num n _ :: _ => Action.number n.abs
  | v :: _ => cannotWith "get abs for" v

def binaryMath (name missing : String) (f : Numeric → Numeric → Except NumberFault Numeric) (args : List Value) :
    Action Value := do
  let _ ← firstTwo args missing
  match numbers? args with
  | some (a :: b :: _) => Action.numberOf (f a b)
  | _ => cannotWithAll s!"get {name} for" args

def unaryMath (name : String) (f : Numeric → Except NumberFault Numeric) (args : List Value) : Action Value := do
  match ← first args "value argument" with
  | .num n _ => Action.numberOf (f n)
  | v => cannotWith s!"get {name} for" v

end SmallScript.Library

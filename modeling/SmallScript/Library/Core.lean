import SmallScript.Library.Arguments

/-!
# Functions of every program

Printing and reading, lengths, conversions, ranges.
-/

namespace SmallScript.Library

open Machine
open Value (ScopeRef)
open Number (Numeric NumberFault IntegerFault integer)
open Text (quoted)

def print (args : List Value) : Action Value := do
  let texts ← args.mapM Action.display
  Action.printLine (" ".intercalate texts)
  return .null

/-- The integers from `start` on, up to but without `stop`; the step is not zero. -/
def rangeInts (start stop step : Int) : List Int :=
  let count := if 0 < step then Int.fdiv (stop - start + step - 1) step
    else Int.fdiv (start - stop - step - 1) (-step)
  (List.range count.toNat).map fun (i : Nat) => start + step * (i : Int)

def range (args : List Value) : Action Value :=
  match numbers? args with
  | some [stop] => do
    let stop ← Action.ofNumber stop.trunc
    Action.array ((rangeInts 0 stop 1).map .int)
  | some [start, stop] => do
    let start ← Action.ofNumber start.trunc
    let stop ← Action.ofNumber stop.trunc
    Action.array ((rangeInts start stop 1).map .int)
  | some [start, stop, step] => do
    let start ← Action.ofNumber start.trunc
    let stop ← Action.ofNumber stop.trunc
    let step ← Action.ofNumber step.trunc
    if step = 0 then Action.fail (.number .zeroStep)
    else Action.array ((rangeInts start stop step).map .int)
  | _ => cannotWithAll "create range with" args

def readLine : Action String := do
  match (← Action.world).input with
  | [] => Action.fail .endOfInput
  | line :: rest =>
    Action.modifyWorld ({ · with input := rest })
    match line with
    | .text s => return s
    | .interrupt => Action.fail .interrupt

def input (args : List Value) (scope : ScopeRef) : Action Value := do
  if (← Action.heap).isGuarded scope then Action.problem (.disabled "Input")
  match args with
  | .str text :: _ => Action.modifyWorld (·.print text)
  | _ => pure ()
  return .str (← readLine)

def len (args : List Value) : Action Value := do
  match ← head args with
  | .str s => return .nat s.length
  | .array ref => return .nat ((← Action.heap).elements ref).size
  | .object ref => return .nat ((← Action.heap).fields ref).size
  | v => cannotWith "get length of" v

def exit (args : List Value) (scope : ScopeRef) : Action Value := do
  if (← Action.heap).isGuarded scope then Action.problem (.disabled "Exit")
  match args with
  | .num n _ :: _ => Action.fail (.exit (← Action.ofNumber n.trunc))
  | _ => Action.fail (.exit 0)

def str (args : List Value) : Action Value :=
  match args with
  | [] => return .str ""
  | v :: _ => return .str (← Action.display v)

def readInteger (text : String) : Except NumberFault Int :=
  (integer text).mapError fun
    | .malformed => .badInteger (quoted text)
    | .tooLong n => .tooLongText n

/-- A number without its fraction, or the integer that a text spells. -/
def int (args : List Value) : Action Value :=
  match args with
  | [] => return .int 0
  | .str s :: _ => return .int (← Action.ofNumber (readInteger s))
  | .num n _ :: _ => return .int (← Action.ofNumber n.trunc)
  | v :: _ => do Action.problem (.notConvertible (← Action.inspect v) "int")

def bool (args : List Value) : Action Value :=
  match args with
  | [] => return .bool false
  | .str s :: _ => return .bool (!s.isEmpty)
  | .num n _ :: _ => return .bool n.truthy
  | .bool b :: _ => return .bool b
  | .array ref :: _ => return .bool (!((← Action.heap).elements ref).isEmpty)
  | .object ref :: _ => return .bool (((← Action.heap).fields ref).size != 0)
  | v :: _ => do Action.problem (.notConvertible (← Action.inspect v) "bool")

/-- The characters of a string, the values of an object, an array itself, or the arguments. -/
def toArray (args : List Value) : Action Value :=
  match args with
  | [.str s] => Action.array (s.toList.map fun c => .str c.toString)
  | [.object ref] => do Action.array ((← Action.heap).fields ref).values
  | [.array ref] => return .array ref
  | _ => Action.array args

def type (args : List Value) : Action Value := do return .str (← head args).kind

end SmallScript.Library

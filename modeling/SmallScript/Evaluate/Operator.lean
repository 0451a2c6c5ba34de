import SmallScript.Machine.Action

/-!
# Operators

The meaning of binary operators and of compound assignment on values.
-/

namespace SmallScript.Evaluate

open Machine
open Number
open Syntax (Pos)

/-- The arithmetic operators by their texts. Division by zero has no message of its own. -/
def arithmetic (op : String) (a b : Numeric) : Option (Except NumberFault Numeric) :=
  match op with
  | "+" => some (a.add b)
  | "-" => some (a.sub b)
  | "*" => some (a.mul b)
  | "/" => some (if b.isZero then .error .zeroDivisor else a.div b)
  | "%" => some (a.mod b)
  | _ => none

def comparison (op : String) (a b : Numeric) : Option (Except NumberFault Bool) :=
  match op with
  | "==" => some (.ok (a.eq b))
  | "!=" => some (.ok (!a.eq b))
  | "<" => some (a.order .lt b)
  | ">" => some (a.order .gt b)
  | "<=" => some (a.order .le b)
  | ">=" => some (a.order .ge b)
  | _ => none

def bitwise (op : String) (a b : Numeric) : Option (Except NumberFault Numeric) :=
  match op with
  | "^" => some (Numeric.bits .xor a b)
  | "&" => some (Numeric.bits .and a b)
  | "|" => some (Numeric.bits .or a b)
  | "<<" => some (Numeric.bits .shl a b)
  | ">>" => some (Numeric.bits .shr a b)
  | _ => none

def logical (op : String) (a b : Bool) : Option Bool :=
  match op with
  | "&&" => some (a && b)
  | "||" => some (a || b)
  | _ => none

def isZeroDivision (f : NumberFault) : Bool := numberFaultKind f == .zeroDivision

def arithmeticResult (pos : Pos) : Except NumberFault Numeric → Action Value
  | .ok n => Action.number n
  | .error f =>
    if isZeroDivision f then Action.problem (.divisionByZero pos) else Action.fail (.number f)

def numbersBinary (pos : Pos) (op : String) (a b : Numeric) : Action Value :=
  match arithmetic op a b with
  | some r => arithmeticResult pos r
  | none => match comparison op a b with
    | some r => return .bool (← Action.ofNumber r)
    | none => if op == "**" then Action.numberOf (a.pow b) else match bitwise op a b with
      | some r => Action.numberOf r
      | none => match logical op a.truthy b.truthy with
        | some r => return .bool r
        | none => Action.problem (.unknownOperator op pos)

def logicalTruth? : Value → Option Bool
  | .bool b => some b
  | .str s => some (!s.isEmpty)
  | _ => none

def join (a b : Value) : Action Value :=
  match a, b with
  | .str s, .str t => return .str (s ++ t)
  | .array r, .array s => do
    let h ← Action.heap
    Action.onHeap (·.newArray (h.elements r ++ h.elements s))
  | .object r, .object s => do
    let h ← Action.heap
    Action.onHeap (·.newObject ((h.fields r).insertAll (h.fields s).entries) false)
  | _, _ => return .null

def equals (a b : Value) : Action Bool := do
  let h ← Action.heap
  return (h.snapshot a).equal (h.snapshot b)

def binary (pos : Pos) (op : String) (a b : Value) : Action Value :=
  match a, b with
  | .num m _, .num n _ => numbersBinary pos op m n
  | _, _ =>
    match op with
    | "&&" | "||" =>
      match logicalTruth? a, logicalTruth? b with
      | some x, some y => return .bool ((logical op x y).getD false)
      | _, _ => Action.problem (.logicalOperands pos)
    | "+" => join a b
    | "==" => return .bool (← equals a b)
    | "!=" => return .bool (!(← equals a b))
    | _ => return .null

def compound (op : String) (a b : Numeric) : Option (Except NumberFault Numeric) :=
  match op with
  | "+=" => some (a.add b)
  | "-=" => some (a.sub b)
  | "*=" => some (a.mul b)
  | "/=" => some (a.div b)
  | "%=" => some (a.mod b)
  | "^=" => some (a.pow b)
  | "&=" => some (Numeric.bits .and a b)
  | "|=" => some (Numeric.bits .or a b)
  | "<<=" => some (Numeric.bits .shl a b)
  | ">>=" => some (Numeric.bits .shr a b)
  | _ => none

def compoundOperators : List String := ["+=", "-=", "*=", "/=", "%=", "^=", "&=", "|=", "<<=", ">>="]

def compoundValue (pos : Pos) (op : Option String) (old new : Value) : Action Value :=
  match old, new with
  | .num a _, .num b _ =>
    match compound (op.getD "") a b with
    | some r => Action.numberOf r
    | none => Action.problem (.unknownAssignment (op.getD "None") pos)
  | .num _ _, _ => Action.problem (.compoundRight pos)
  | _, _ => Action.problem (.compoundLeft pos)

end SmallScript.Evaluate

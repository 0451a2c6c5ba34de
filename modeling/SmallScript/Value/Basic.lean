import SmallScript.Value.Native

/-!
# Values

A value is a small immutable thing or a reference to a cell of the heap. Two arrays are the same
array exactly if they are the same reference, and likewise for objects, functions, classes and
enumerations.

A float that is not a number differs from every number, itself included; but a collection that holds
it equals itself. For this a number carries a *stamp*, which tells apart the results of different
operations that are not numbers.
-/

namespace SmallScript

open Number (Numeric)

namespace Value

abbrev ScopeRef := Nat

/-- Reference to an object: a record of its own, or the variables of a scope. -/
inductive ObjectRef where
  | record (index : Nat)
  | scope (index : ScopeRef)
deriving DecidableEq, Repr, Inhabited

end Value

open Value (ObjectRef Native)

inductive Value where
  | null
  | bool (b : Bool)
  | num (n : Numeric) (stamp : Nat)
  | str (s : String)
  | array (ref : Nat)
  | object (ref : ObjectRef)
  | func (ref : Nat)
  | native (f : Native)
  | cls (ref : Nat)
  | enum (ref : Nat)
  /-- a value of no particular kind -/
  | bare
deriving DecidableEq, Inhabited

namespace Value

def kind : Value → String
  | .null => "NullValue"
  | .bool _ => "BooleanValue"
  | .num _ _ => "NumberValue"
  | .str _ => "StringValue"
  | .array _ => "ArrayValue"
  | .object _ => "ObjectValue"
  | .func _ => "FunctionValue"
  | .native _ => "NativeFunctionValue"
  | .cls _ => "ClassValue"
  | .enum _ => "EnumValue"
  | .bare => "RuntimeValue"

def int (n : Int) : Value := .num (.int n) 0

def nat (n : Nat) : Value := .int n

def num? : Value → Option Numeric
  | .num n _ => some n
  | _ => none

def str? : Value → Option String
  | .str s => some s
  | _ => none

/-- Whether a scalar counts as true; other values do not count at all. -/
def truth? : Value → Option Bool
  | .null => some false
  | .bool b => some b
  | .num n _ => some n.truthy
  | .str s => some (!s.isEmpty)
  | _ => none

end Value

end SmallScript

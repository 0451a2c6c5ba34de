import SmallScript.Machine.Heap
import SmallScript.Inspect.Datum

/-!
# Snapshots

A snapshot is a value with all that can be reached from it at one moment, as a tree. A reference
that leads back to a cell above it becomes `Snapshot.cycle`.

Equality of values, their display and their inspection are functions of snapshots.
-/

namespace SmallScript.Machine

open Value (ScopeRef ObjectRef Native)
open Syntax (Node)
open Number (Numeric NumberFault)
open Inspect

inductive Snapshot where
  | null
  | bool (b : Bool)
  | num (n : Numeric) (stamp : Nat)
  | str (s : String)
  | array (items : List Snapshot)
  | object (fields : List (String × Snapshot)) (frozen : Bool)
  | func (name : String) (params : List String) (scope : ScopeRef) (body : List Node)
  | native (f : Native)
  | cls (name : String) (members : List (String × Snapshot)) (params : Option (List String))
  | enum (name : String) (members : List (String × Snapshot))
  | bare
  /-- a way back to a cell above -/
  | cycle
deriving Inhabited

inductive Cell where
  | array (ref : Nat)
  | object (ref : ObjectRef)
  | cls (ref : Nat)
  | enum (ref : Nat)
deriving DecidableEq

namespace Heap

/-- The snapshot of a value below the given cells, of bounded depth. -/
def snapshotFrom (h : Heap) : Nat → List Cell → Value → Snapshot
  | _, _, .null => .null
  | _, _, .bool b => .bool b
  | _, _, .num n stamp => .num n stamp
  | _, _, .str s => .str s
  | _, _, .native f => .native f
  | _, _, .bare => .bare
  | _, _, .func ref => match h.closures[ref]? with
    | some c => .func c.name c.params c.scope c.body
    | none => .cycle
  | 0, _, _ => .cycle
  | depth + 1, above, .array ref =>
    if above.contains (.array ref) then .cycle
    else .array ((h.elements ref).toList.map (h.snapshotFrom depth (.array ref :: above)))
  | depth + 1, above, .object ref =>
    if above.contains (.object ref) then .cycle
    else .object ((h.fields ref).entries.map fun e => (e.1, h.snapshotFrom depth (.object ref :: above) e.2))
      (h.isFrozen ref)
  | depth + 1, above, .cls ref => match h.classes[ref]? with
    | some c =>
      if above.contains (.cls ref) then .cycle
      else .cls c.name (c.members.entries.map fun e => (e.1, h.snapshotFrom depth (.cls ref :: above) e.2))
        c.params
    | none => .cycle
  | depth + 1, above, .enum ref => match h.enums[ref]? with
    | some c =>
      if above.contains (.enum ref) then .cycle
      else .enum c.name (c.members.entries.map fun e => (e.1, h.snapshotFrom depth (.enum ref :: above) e.2))
    | none => .cycle

/-- The snapshot of a value. No way through the heap without a cycle is longer than the number of
cells. -/
def snapshot (h : Heap) (v : Value) : Snapshot := h.snapshotFrom (h.size + 1) [] v

end Heap

namespace Snapshot

/-! ## Display -/

/-- A text without its last characters, or empty if it has no more than that. -/
def cutTail (cut : Nat) (s : String) : String := String.ofList (s.toList.take (s.length - cut))

/-- A number as programs print it: a whole number without its point. -/
def numberDisplay (n : Numeric) : Except NumberFault String := do
  let whole ← n.trunc
  if Numeric.eq (.int whole) n then Numeric.text (.int whole) else n.text

mutual

/-- A value as programs print it; strings inside collections stand in double quotes. -/
def display (inside : Bool) : Snapshot → Except NumberFault String
  | .null => .ok "null"
  | .bool b => .ok (if b then "true" else "false")
  | .num n _ => numberDisplay n
  | .str s => .ok (if inside then "\"" ++ s ++ "\"" else s)
  | .native f => .ok s!"<native function {f.name}>"
  | .func name .. => .ok s!"<function {name}>"
  | .array items => return cutTail 2 ("[ " ++ (← displayItems items)) ++ " ]"
  | .object fields _ => return cutTail 2 ("\x7b " ++ (← displayFields fields)) ++ " \x7d"
  | .cls name members params => do
    let head := name ++ "(" ++ ", ".intercalate (params.getD []) ++ ")\x7b "
    return cutTail 1 (head ++ (← displayFields members)) ++ " \x7d"
  | .enum name members => .ok (name ++ "(\x7b " ++ ", ".intercalate (members.map (·.1)) ++ " \x7d)")
  | .bare => .ok "RuntimeValue()"
  | .cycle => .ok "..."

def displayItems : List Snapshot → Except NumberFault String
  | [] => .ok ""
  | x :: xs => return (← display true x) ++ ", " ++ (← displayItems xs)

def displayFields : List (String × Snapshot) → Except NumberFault String
  | [] => .ok ""
  | (k, x) :: xs => return k ++ ": " ++ (← display true x) ++ ", " ++ (← displayFields xs)

end

/-! ## Inspection -/

def scopeText : String := "<eryx.runtime.environment.Environment object at 0x0>"

def nativeDatum (f : Native) : Datum := .function ("_" ++ f.name)

mutual

def datum : Snapshot → Datum
  | .null => .record "NullValue" [("value", .none)]
  | .bool b => .record "BooleanValue" [("value", .bool b)]
  | .num n _ => .record "NumberValue" [("value", .number n)]
  | .str s => .record "StringValue" [("value", .string s)]
  | .array items => .record "ArrayValue" [("elements", .list (data items))]
  | .object fields frozen =>
    .record "ObjectValue" [("properties", .dict (entryData fields)), ("immutable", .bool frozen)]
  | .func name params _ body => .record "FunctionValue" [("name", .string name),
      ("arguments", namesDatum params), ("environment", .thing scopeText), ("body", .list (nodeData body))]
  | .native f => .record "NativeFunctionValue" [("call", nativeDatum f)]
  | .cls name members params => .record "ClassValue" [("name", .string name),
      ("methods", .dict (entryData members)), ("arguments", optionNamesDatum params)]
  | .enum name members => .record "EnumValue" [("name", .string name), ("values", .dict (entryData members))]
  | .bare => .record "RuntimeValue" []
  | .cycle => .thing "..."

def data : List Snapshot → List Datum
  | [] => []
  | x :: xs => datum x :: data xs

def entryData : List (String × Snapshot) → List (Datum × Datum)
  | [] => []
  | (k, x) :: xs => (.string k, datum x) :: entryData xs

end

/-! ## Equality -/

/-- Numbers inside collections: equal numbers, or the same result that is not a number. -/
def sameNumber (a : Numeric) (s : Nat) (b : Numeric) (t : Nat) : Bool :=
  a.eq b || (a.isNaN && b.isNaN && s == t)

mutual

/-- Equality of values inside collections: the same kind and equal contents. -/
def same : Snapshot → Snapshot → Bool
  | .null, .null => true
  | .bool a, .bool b => a == b
  | .num a s, .num b t => sameNumber a s b t
  | .str a, .str b => a == b
  | .array xs, .array ys => sameItems xs ys
  | .object xs f, .object ys g => xs.length == ys.length && sameFields xs ys && f == g
  | .func n ps s b, .func n' ps' s' b' => n == n' && ps == ps' && s == s' && Node.sameList b b'
  | .native f, .native g => f == g
  | .cls n ms ps, .cls n' ms' ps' => n == n' && ms.length == ms'.length && sameFields ms ms' && ps == ps'
  | .enum n ms, .enum n' ms' => n == n' && ms.length == ms'.length && sameFields ms ms'
  | .bare, .bare => true
  | .cycle, .cycle => true
  | _, _ => false

def sameItems : List Snapshot → List Snapshot → Bool
  | [], [] => true
  | x :: xs, y :: ys => same x y && sameItems xs ys
  | _, _ => false

/-- Every field of the first object has an equal field in the second. -/
def sameFields : List (String × Snapshot) → List (String × Snapshot) → Bool
  | [], _ => true
  | (k, x) :: xs, ys =>
    (match ys.lookup k with
      | some y => same x y
      | none => false) && sameFields xs ys

end

/-- The value of a scalar for the comparison of scalars of different kinds: truth values count as
numbers. -/
def scalarsEqual : Snapshot → Snapshot → Option Bool
  | .null, .null => some true
  | .str a, .str b => some (a == b)
  | .num a _, .num b _ => some (a.eq b)
  | .bool a, .bool b => some (a == b)
  | .bool a, .num b _ => some (Numeric.eq (.bool a) b)
  | .num a _, .bool b => some (a.eq (.bool b))
  | .null, .str _ | .null, .num _ _ | .null, .bool _ => some false
  | .str _, .null | .str _, .num _ _ | .str _, .bool _ => some false
  | .num _ _, .null | .num _ _, .str _ => some false
  | .bool _, .null | .bool _, .str _ => some false
  | _, _ => none

/-- Equality as the language has it: scalars by value, arrays and objects by contents, functions by
what they are made of; classes and enumerations equal nothing. -/
def equal (a b : Snapshot) : Bool :=
  match a, b with
  | .array xs, .array ys => sameItems xs ys
  | .object xs _, .object ys _ => xs.length == ys.length && sameFields xs ys
  | .func .., .func .. | .native _, .native _ => same a b
  | _, _ => (scalarsEqual a b).getD false

end Snapshot

end SmallScript.Machine

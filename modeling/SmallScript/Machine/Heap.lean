import SmallScript.Value.Basic
import SmallScript.Syntax.Node

/-!
# The heap

Cells for scopes, arrays, objects, functions, classes and enumerations. Cells are added, and scopes,
arrays and records that are not frozen are changed in place; functions, classes and enumerations
never change.

A scope binds names to values, lists some of them as constants, and has a parent unless it is global.
The parent of a scope was made before it, so a search for a name along the parents ends.
-/

namespace SmallScript.Machine

open Value (ScopeRef ObjectRef ModuleItem modules globalNatives)
open Syntax (Node)
open Data (Table)
open Number (Numeric)

structure Scope where
  parent : Option ScopeRef
  /-- the names it binds -/
  vars : Table Value
  /-- names that must not be assigned to; a name may be listed more than once -/
  constants : List String
  /-- no access to files, input and the end of the process -/
  guarded : Bool
deriving Inhabited

structure Record where
  fields : Table Value
  /-- the fields must not be assigned to -/
  frozen : Bool
deriving Inhabited

structure Closure where
  name : String
  params : List String
  scope : ScopeRef
  body : List Node
deriving Inhabited

structure ClassDef where
  name : String
  members : Table Value
  params : Option (List String)
deriving Inhabited

structure EnumDef where
  name : String
  members : Table Value
deriving Inhabited

structure Heap where
  scopes : Array Scope
  arrays : Array (Array Value)
  records : Array Record
  closures : Array Closure
  classes : Array ClassDef
  enums : Array EnumDef
  /-- the next stamp for a result that is not a number -/
  nextStamp : Nat
deriving Inhabited

namespace Heap

def size (h : Heap) : Nat :=
  h.scopes.size + h.arrays.size + h.records.size + h.closures.size + h.classes.size + h.enums.size

/-! ## New cells -/

def newArray (h : Heap) (elements : Array Value) : Value × Heap :=
  (.array h.arrays.size, { h with arrays := h.arrays.push elements })

def newObject (h : Heap) (fields : Table Value) (frozen : Bool) : Value × Heap :=
  (.object (.record h.records.size), { h with records := h.records.push ⟨fields, frozen⟩ })

def newClosure (h : Heap) (c : Closure) : Value × Heap :=
  (.func h.closures.size, { h with closures := h.closures.push c })

def newClass (h : Heap) (c : ClassDef) : Value × Heap :=
  (.cls h.classes.size, { h with classes := h.classes.push c })

def newEnum (h : Heap) (e : EnumDef) : Value × Heap :=
  (.enum h.enums.size, { h with enums := h.enums.push e })

/-- A number as a value; each result that is not a number gets a stamp of its own. -/
def newNumber (h : Heap) (n : Numeric) : Value × Heap :=
  if n.isNaN then (.num n h.nextStamp, { h with nextStamp := h.nextStamp + 1 }) else (.num n 0, h)

def newScope (h : Heap) (parent : ScopeRef) : ScopeRef × Heap :=
  let guarded := (h.scopes[parent]?.map (·.guarded)).getD false
  (h.scopes.size, { h with scopes := h.scopes.push ⟨some parent, .empty, [], guarded⟩ })

/-! ## Scopes -/

def resolve? (h : Heap) (s : ScopeRef) (name : String) : Option ScopeRef :=
  match h.scopes[s]? with
  | none => none
  | some scope =>
    if scope.vars.contains name then some s
    else match scope.parent with
      | none => none
      | some p => if p < s then h.resolve? p name else none
termination_by s

def lookup? (h : Heap) (s : ScopeRef) (name : String) : Option Value := do
  let found ← h.resolve? s name
  let scope ← h.scopes[found]?
  scope.vars.get? name

def bindsHere (h : Heap) (s : ScopeRef) (name : String) : Bool :=
  (h.scopes[s]?.map (·.vars.contains name)).getD false

def isConstant (h : Heap) (s : ScopeRef) (name : String) : Bool :=
  (h.scopes[s]?.map (·.constants.contains name)).getD false

def isGuarded (h : Heap) (s : ScopeRef) : Bool :=
  (h.scopes[s]?.map (·.guarded)).getD false

def modifyScope (h : Heap) (s : ScopeRef) (f : Scope → Scope) : Heap :=
  { h with scopes := h.scopes.modify s f }

def bind (h : Heap) (s : ScopeRef) (name : String) (value : Value) : Heap :=
  h.modifyScope s fun scope => { scope with vars := scope.vars.insert name value }

def addConstant (h : Heap) (s : ScopeRef) (name : String) : Heap :=
  h.modifyScope s fun scope => { scope with constants := scope.constants ++ [name] }

/-- Removes a name from a scope, with its first mention among the constants. -/
def unbind (h : Heap) (s : ScopeRef) (name : String) : Heap :=
  h.modifyScope s fun scope =>
    { scope with vars := scope.vars.erase name, constants := scope.constants.erase name }

/-! ## Objects and arrays -/

def fields (h : Heap) : ObjectRef → Table Value
  | .record i => (h.records[i]?.map (·.fields)).getD .empty
  | .scope s => (h.scopes[s]?.map (·.vars)).getD .empty

def isFrozen (h : Heap) : ObjectRef → Bool
  | .record i => (h.records[i]?.map (·.frozen)).getD false
  | .scope _ => false

def setField (h : Heap) (ref : ObjectRef) (name : String) (value : Value) : Heap :=
  match ref with
  | .record i =>
    { h with records := h.records.modify i fun r => { r with fields := r.fields.insert name value } }
  | .scope s => h.bind s name value

def elements (h : Heap) (ref : Nat) : Array Value := (h.arrays[ref]?).getD #[]

def setElements (h : Heap) (ref : Nat) (elements : Array Value) : Heap :=
  { h with arrays := h.arrays.setIfInBounds ref elements }

/-! ## The start -/

def itemValue : ModuleItem → Value
  | .function f => .native f
  | .number x => .num (.float x) 0

def initial : Heap where
  scopes := #[]
  arrays := #[]
  records := (modules.map fun m =>
    { fields := ⟨m.2.map fun e => (e.1, itemValue e.2)⟩, frozen := true : Record }).toArray
  closures := #[]
  classes := #[]
  enums := #[]
  nextStamp := 1

def module? (name : String) : Option ObjectRef :=
  (modules.findIdx? (·.1 == name)).map .record

/-- What a global scope holds from the start; all of it is constant. -/
def globalEntries : List (String × Value) :=
  [("true", .bool true), ("false", .bool false), ("null", .null)]
    ++ globalNatives.map fun f => (f.name, .native f)

def newGlobal (h : Heap) (guarded : Bool) : ScopeRef × Heap :=
  let scope : Scope := ⟨none, ⟨globalEntries⟩, globalEntries.map (·.1), guarded⟩
  (h.scopes.size, { h with scopes := h.scopes.push scope })

end Heap

end SmallScript.Machine

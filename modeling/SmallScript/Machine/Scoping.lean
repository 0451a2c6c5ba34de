import SmallScript.Machine.Failure

/-!
# Variables

Declaring, assigning, looking up and removing variables. Each operation either yields the new heap
or a problem and then changes nothing.
-/

namespace SmallScript.Machine

open Value (ScopeRef)

namespace Heap

/-- Declares a name in a scope. A name that the scope binds already is a problem, unless it may be
overwritten. -/
def declare (h : Heap) (s : ScopeRef) (name : String) (value : Value) (constant overwrite : Bool) :
    Except Problem Heap :=
  if h.bindsHere s name && !overwrite then .error (.alreadyDeclared name)
  else
    let h := h.bind s name value
    .ok (if constant then h.addConstant s name else h)

def resolve (h : Heap) (s : ScopeRef) (name : String) : Except Problem ScopeRef :=
  match h.resolve? s name with
  | some found => .ok found
  | none => .error (.notInScope name)

/-- Assigns to a name in the nearest scope that binds it. A constant is a problem, unless it may be
overwritten. -/
def assign (h : Heap) (s : ScopeRef) (name : String) (value : Value) (overwrite : Bool) :
    Except Problem Heap := do
  let found ← h.resolve s name
  if h.isConstant found name && !overwrite then .error (.constantVariable name)
  else return h.bind found name value

def lookup (h : Heap) (s : ScopeRef) (name : String) : Except Problem Value :=
  match h.lookup? s name with
  | some v => .ok v
  | none => .error (.notInScope name)

/-- Removes a name from the scope that binds it itself. -/
def delete (h : Heap) (s : ScopeRef) (name : String) : Except Problem Heap :=
  if h.bindsHere s name then .ok (h.unbind s name) else .error (.notInScope name)

end Heap

end SmallScript.Machine

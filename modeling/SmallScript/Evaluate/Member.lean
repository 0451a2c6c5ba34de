import SmallScript.Machine.Action

/-!
# Members

Reading fields of objects, members of classes and enumerations, elements of arrays and characters of
strings.
-/

namespace SmallScript.Evaluate

open Machine
open Syntax (Pos)

inductive Holder where
  | named (entries : Data.Table Value)
  | array (elements : Array Value)
  | string (chars : List Char)

def holder? (h : Heap) : Value → Option Holder
  | .object ref => some (.named (h.fields ref))
  | .cls ref => (h.classes[ref]?).map (.named ·.members)
  | .enum ref => (h.enums[ref]?).map (.named ·.members)
  | .array ref => some (.array (h.elements ref))
  | .str s => some (.string s.toList)
  | _ => none

def hasMembers : Value → Bool
  | .object _ | .cls _ | .enum _ | .array _ | .str _ => true
  | _ => false

/-- The item at an index; a negative index counts from the end. -/
def itemAt? {α : Type} (size : Nat) (get : Nat → Option α) (i : Int) : Option α :=
  if 0 ≤ i then get i.toNat else if 0 ≤ i + size then get (i + size).toNat else none

/-- An item by number: nothing behind the end, a fault in front of the start. -/
def indexed (size : Nat) (get : Nat → Option Value) (fault : LookupFault) (i : Int) : Action Value :=
  if (size : Int) ≤ i then return .null
  else match itemAt? size get i with
    | some v => return v
    | none => Action.fail (.lookup fault)

def named (entries : Data.Table Value) (name : String) : Value := (entries.get? name).getD .null

def computedMember (pos : Pos) (holder : Holder) (key : Value) : Action Value :=
  match holder, key with
  | .named entries, .str name => return named entries name
  | .named _, _ => Action.problem (.keyNotString pos)
  | .array elements, .num n _ => do
    indexed elements.size (fun i => elements[i]?) .listIndex (← Action.ofNumber n.trunc)
  | .string chars, .num n _ => do
    indexed chars.length (fun i => (chars[i]?).map fun c => .str c.toString) .stringIndex
      (← Action.ofNumber n.trunc)
  | _, _ => Action.problem (.indexNotNumber pos)

def writtenMember (pos : Pos) (holder : Holder) (name : Option String) : Action Value :=
  match holder, name with
  | .named entries, some name => return named entries name
  | .named _, none => Action.problem (.keyNotName pos)
  | .array _, _ => Action.problem (.arrayMember pos)
  | .string _, _ => Action.problem (.stringMember pos)

end SmallScript.Evaluate

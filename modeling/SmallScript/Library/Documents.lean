import SmallScript.Library.Arguments

/-!
# Functions on JSON documents

A truth value of a document becomes a number that holds it, so that it comes out as it went in.
-/

namespace SmallScript.Library

open Machine
open Data (Table)

mutual

def ofJson (h : Heap) : Json → Value × Heap
  | .null => (.null, h)
  | .bool b => (.num (.bool b) 0, h)
  | .num n => (.num n 0, h)
  | .str s => (.str s, h)
  | .arr items =>
    let (vs, h) := ofJsonItems h items
    h.newArray vs.toArray
  | .obj fields =>
    let (vs, h) := ofJsonFields h fields
    h.newObject (Table.ofList vs) false

def ofJsonItems (h : Heap) : List Json → List Value × Heap
  | [] => ([], h)
  | x :: xs =>
    let (v, h) := ofJson h x
    let (vs, h) := ofJsonItems h xs
    (v :: vs, h)

def ofJsonFields (h : Heap) : List (String × Json) → List (String × Value) × Heap
  | [] => ([], h)
  | (k, x) :: xs =>
    let (v, h) := ofJson h x
    let (vs, h) := ofJsonFields h xs
    ((k, v) :: vs, h)

end

mutual

/-- A value as a document; functions, classes and enumerations have none. -/
def toJson? : Snapshot → Option Json
  | .null => some .null
  | .bool b => some (.bool b)
  | .num (.bool b) _ => some (.bool b)
  | .num n _ => some (.num n)
  | .str s => some (.str s)
  | .array items => return .arr (← toJsonItems? items)
  | .object fields _ => return .obj (← toJsonFields? fields)
  | _ => none

def toJsonItems? : List Snapshot → Option (List Json)
  | [] => some []
  | x :: xs => return (← toJson? x) :: (← toJsonItems? xs)

def toJsonFields? : List (String × Snapshot) → Option (List (String × Json))
  | [] => some []
  | (k, x) :: xs => return (k, ← toJson? x) :: (← toJsonFields? xs)

end

/-- Reads a document. The value is also printed. -/
def jsonParse (args : List Value) : Action Value := do
  let text ← oneString args "JSON string argument" "Argument"
  match Json.parse text with
  | none => Action.problem .badJsonText
  | some doc =>
    let v ← Action.onHeap fun h => ofJson h doc
    match ((← Action.heap).snapshot v).datum.text with
    | .ok shown =>
      Action.printLine shown
      return v
    | .error _ => Action.problem .badJsonText

def jsonStringify (args : List Value) : Action Value := do
  let v ← first args "JSON object argument"
  match toJson? ((← Action.heap).snapshot v) with
  | none => Action.problem .badJsonValue
  | some doc =>
    match doc.render with
    | .ok text => return .str text
    | .error _ => Action.problem .badJsonValue

end SmallScript.Library

import SmallScript.Transpile.Convert
import SmallScript.Machine.Action

/-!
# Statements in Python

A body becomes a sequence of lines, each with its depth of nesting; a header opens a block. A node that has no place in a
body leaves a note instead of a line. A fault ends the sequence; the lines in front of it stay.

To transpile, the code of a body is added to what is pending and all of it is handed out, without the last line break.
A fault leaves the code in front of it pending.
-/

namespace SmallScript.Transpile

open Syntax Number
open Inspect (nodeKind)
open Machine (Failure)

inductive Item where
  | line (depth : Nat) (text : String)
  | head (depth : Nat) (text : String)
  | note (text : String)
deriving DecidableEq, Repr

/-- What is emitted for a body, and the fault that ended it. -/
structure Emission where
  items : List Item
  fault : Option Failure

namespace Emission

def empty : Emission := ⟨[], none⟩

/-- One emission behind another; nothing comes behind a fault. -/
def append (a b : Emission) : Emission :=
  match a.fault with
  | some _ => a
  | none => ⟨a.items ++ b.items, b.fault⟩

instance : Append Emission := ⟨append⟩

def of (item : String → Item) : Except Failure String → Emission
  | .ok text => ⟨[item text], none⟩
  | .error f => ⟨[], some f⟩

def lineOf (depth : Nat) : Except Failure String → Emission := of (.line depth)

def headOf (depth : Nat) : Except Failure String → Emission := of (.head depth)

def line (depth : Nat) (text : String) : Emission := lineOf depth (.ok text)

def head (depth : Nat) (text : String) : Emission := headOf depth (.ok text)

def blank : Emission := line 0 ""

def concat (es : List Emission) : Emission := es.foldl (· ++ ·) empty

end Emission

open Emission (line head lineOf headOf blank concat)

def moduleAliases : List (String × String) := [("http", "requests")]

def present : Option String → Option String
  | some s => if s.isEmpty then none else some s
  | none => none

def importText (module : String) (names : Option (List String)) (newName : Option String) : String :=
  match moduleAliases.lookup module, present newName, names.getD [] with
  | some target, some a, _ => s!"import {target} as {a}"
  | some target, none, [] => s!"import {target} as {module}"
  | some target, none, names => s!"from {target} import " ++ ", ".intercalate names
  | none, some a, _ => s!"import {module} as {a}"
  | none, none, [] => s!"import {module}"
  | none, none, names => s!"from {module} import " ++ ", ".intercalate names

def emitFields (depth : Nat) : List Node → Emission
  | [] => .empty
  | n :: rest => lineOf depth (do return (← convertField n) ++ ",") ++ emitFields depth rest

/-- The assignments among the members of a class, with something in front of each name. -/
def emitMemberValues (depth : Nat) (front : String) : List Node → Emission
  | [] => .empty
  | .assignment _ _ .absent _ :: rest => emitMemberValues depth front rest
  | .assignment _ target value _ :: rest =>
    lineOf depth (do return front ++ (← convert target) ++ " = " ++ (← convert value))
      ++ emitMemberValues depth front rest
  | _ :: rest => emitMemberValues depth front rest

def emitConstructor (depth : Nat) (params : List String) (members : List Node) : Emission :=
  if params.isEmpty then .empty
  else
    emitMemberValues (depth + 1) "" members
      ++ head (depth + 1) ("def __init__(self, " ++ ", ".intercalate params ++ "):")
      ++ concat (params.map fun p => line (depth + 2) s!"self.{p} = {p}")
      ++ emitMemberValues (depth + 2) "self." members

def emitEnumValues (depth : Nat) : List Node → Emission
  | [] => .empty
  | .identifier _ name :: rest => line depth s!"{name} = \"{name}\"" ++ emitEnumValues depth rest
  | _ :: rest => emitEnumValues depth rest

def unknownNote (n : Node) : Emission :=
  let kind := nodeKind n
  let shown := if n.isAbsent then kind else "eryx.frontend.ast." ++ kind
  ⟨[.note s!"Unkown type: <class '{shown}'>"], none⟩

/-- A name as a statement; the constants are also spelled in Python, on a line before. -/
def emitName (depth : Nat) (name : String) : Emission :=
  (if nameText name == name then .empty else line depth (nameText name)) ++ line depth name

def emitVariable (depth : Nat) (target value : Node) : Emission :=
  lineOf depth <|
    match value with
    | .absent => match target.name? with
      | some name => .ok name
      | none => .error (.attribute (nodeKind target) "symbol")
    | value => match target.name? with
      | some name => return name ++ " = " ++ (← convert value)
      | none => .error (.attribute (nodeKind target) "symbol")

mutual

def emitNode (depth : Nat) : Node → Emission
  | .function _ name params body =>
    head depth (s!"def {name}(" ++ ", ".intercalate params ++ "):")
      ++ (if body.isEmpty then line (depth + 1) "pass" else emitBody (depth + 1) body) ++ blank
  | .conditional _ condition yes no =>
    headOf depth (do return "if " ++ (← convert condition) ++ ":")
      ++ emitBody (depth + 1) yes
      ++ (if no.isEmpty then .empty else head depth "else:" ++ emitPresent (depth + 1) no)
  | .assertion _ condition message =>
    lineOf depth do
      let c ← convert condition
      match present message with
      | some m => return s!"assert {c}, {m}"
      | none => return s!"assert {c}"
  | .assignment _ target value op =>
    lineOf depth do
      let t ← convert target
      let v ← convert value
      return t ++ " " ++ (present op).getD "=" ++ " " ++ v
  | .variable _ _ target value => emitVariable depth target value
  | .while _ condition body =>
    headOf depth (do return "while " ++ (← convert condition) ++ ":") ++ emitBody (depth + 1) body ++ blank
  | .for _ target iterator body =>
    headOf depth (do return "for " ++ (← nodeText target) ++ " in " ++ (← nodeText iterator) ++ ":")
      ++ emitBody (depth + 1) body ++ blank
  | .loop _ body => head depth "while True:" ++ emitBody (depth + 1) body ++ blank
  | .brk _ => line depth "break"
  | .cont _ => line depth "continue"
  | .ret _ .absent => line depth "return"
  | .ret _ value => lineOf depth (do return "return " ++ (← convert value))
  | .del _ target => lineOf depth (do return "del " ++ (← convert target))
  | .identifier _ name => emitName depth name
  | .object _ properties =>
    line depth "\x7b" ++ emitFields (depth + 1) properties ++ line depth "\x7d"
  | .number _ n => lineOf depth (ofNumber n.text)
  | .importing _ module names newName => line depth (importText module names newName)
  | .class _ name members params =>
    head depth s!"class {name}:" ++ emitConstructor depth (params.getD []) members
      ++ emitMethods depth members ++ blank
  | .enum _ name values => head 0 s!"class {name}:" ++ emitEnumValues (depth + 1) values
  | n@(.call ..) => lineOf depth (convert n)
  | n@(.string ..) => lineOf depth (convert n)
  | n@(.binary ..) => lineOf depth (convert n)
  | n@(.member ..) => lineOf depth (convert n)
  | n@(.array ..) => lineOf depth (convert n)
  | n => unknownNote n

def emitBody (depth : Nat) : List Node → Emission
  | [] => .empty
  | n :: rest => emitNode depth n ++ emitBody depth rest

def emitPresent (depth : Nat) : List Node → Emission
  | [] => .empty
  | n :: rest => (if n.isAbsent then .empty else emitNode depth n) ++ emitPresent depth rest

def emitMethods (depth : Nat) : List Node → Emission
  | [] => .empty
  | n :: rest => emitMethod depth n ++ emitMethods depth rest

/-- A method of a class at a depth; assignments are emitted elsewhere. -/
def emitMethod (depth : Nat) : Node → Emission
  | .function _ name params body =>
    head (depth + 1) (s!"def {name}(" ++ ", ".intercalate ("self" :: params) ++ "):")
      ++ (if body.isEmpty then line (depth + 2) "pass" else emitBody (depth + 2) body)
  | .variable _ _ target value =>
    lineOf depth (do return (← nodeText target) ++ " = " ++ (← nodeText value))
  | _ => .empty

end

def Item.text : Item → String
  | .line depth text | .head depth text => "".pushn ' ' (4 * depth) ++ text ++ "\n"
  | .note text => text ++ "\n"

def codeText (items : List Item) : String :=
  String.join (items.map fun i => match i with
    | .note _ => ""
    | _ => i.text)

def noteText (items : List Item) : String :=
  String.join (items.map fun i => match i with
    | .note _ => i.text
    | _ => "")

def allText (items : List Item) : String := String.join (items.map Item.text)

open Machine
open Machine.Snapshot (cutTail)

/-- Writes a body in Python. With `toOutput` the lines are printed and nothing is pending. -/
def transpile (toOutput : Bool) (body : List Node) : Action String := fun m =>
  let e := emitBody 0 body
  let (printed, code) :=
    if toOutput then (allText e.items, "") else (noteText e.items, codeText e.items)
  let m := { m with world := m.world.print printed, pending := m.pending ++ code }
  match e.fault with
  | some f => (.error (.failure f), m)
  | none => (.ok (cutTail 1 m.pending), { m with pending := "" })

end SmallScript.Transpile

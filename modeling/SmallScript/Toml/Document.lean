import SmallScript.Toml.Scan
import SmallScript.Toml.Line

/-!
# TOML documents

A document is read in two passes. The first one cleans the text; the second one goes through its lines
and builds the table. A line in brackets names the table, or the new table at the end of an array, that
the lines behind it set keys of.
-/

namespace SmallScript.Toml

open Text

inductive Step where
  | key (name : String)
  | last
deriving DecidableEq, Repr

/-- Works on the part of a value that a path leads to. -/
def atPath (f : Value → Except ValueFault Value) : List Step → Value → Except ValueFault Value
  | [], v => f v
  | .key name :: rest, .table fields inline => do
    match fields.lookup name with
    | some inner => return .table (Data.Table.insertEntry name (← atPath f rest inner) fields) inline
    | none => return .table fields inline
  | .last :: rest, .array items => do
    match items.getLast? with
    | some inner => return .array (items.dropLast ++ [← atPath f rest inner])
    | none => return .array items
  | _, v => .ok v

def partAt? : List Step → Value → Option Value
  | [], v => some v
  | .key name :: rest, .table fields _ => (fields.lookup name).bind (partAt? rest)
  | .last :: rest, .array items => items.getLast?.bind (partAt? rest)
  | _, _ => none

/-! ## Names of tables -/

def isBareName (cs : List Char) : Bool :=
  !cs.isEmpty && cs.all fun c => c.isAlphanum || c == '_' || c == '-'

/-- The names of a line in brackets, without quotes. Pieces between dots are put together until a
quoted name is closed. -/
def groupNames : Nat → List (List Char) → Except ValueFault (List String)
  | 0, _ => .error (.other .listEnd)
  | _ + 1, [] => .ok []
  | bound + 1, p :: rest => do
    let name := stripBlanks p
    match name with
    | q :: more =>
      if q == '"' || q == '\'' then
        if !more.isEmpty && name.getLast? == some q then
          return String.ofList (trimBoth 1 name) :: (← groupNames bound rest)
        else match rest with
          | r :: rest => groupNames bound ((name ++ '.' :: r) :: rest)
          | [] => .error (.cause (.groupQuote (String.ofList name)))
      else if isBareName name then return String.ofList name :: (← groupNames bound rest)
      else .error (.cause (.groupName (String.ofList name)))
    | [] => .error (.cause (.groupName ""))

def groupLine (line : List Char) : Except ValueFault (Bool × List String) := do
  match line with
  | _ :: second :: _ =>
    let isArray := second == '['
    let sep := if isArray then [']', ']'] else [']']
    let body := line.drop sep.length
    let count := skipQuoted sep false 1 (quotePieces body)
    let parts := pieces sep body
    -- all behind the separator that closes the name has to be blank
    let front := parts.take count
    let behind := joinPieces sep (parts.drop count)
    if parts.length < count + 1 || !(stripBlanks behind).isEmpty then .error (.cause .groupLine)
    else
      let names := splitAll '.' (joinPieces sep front)
      return (isArray, ← groupNames (2 * names.length + 2) names)
  | _ => .error (.cause .loneBracket)

/-! ## The second pass -/

structure Builder where
  root : Value
  /-- the way to the table whose keys are set -/
  path : List Step
  /-- names of tables that were made on the way to others -/
  implicit : List String
  /-- a string of several lines that is not closed yet -/
  open? : Option LongString

def Builder.add (b : Builder) (path : List Step) (name : String) (v : Value) : Except ValueFault Builder := do
  return { b with root := ← atPath (fun t => .ok (replaceKey t name v)) path b.root }

def appendTable (name : String) (table : Value) : Except ValueFault Value :=
  match table.field? name with
  | some (.array items) => .ok (replaceKey table name (.array (items ++ [.empty])))
  | some v => .error (.other (.noArray v.kind))
  | none => .ok table

/-- Goes one name further on the way to a table; `last` says that there are no more names. -/
def Builder.enter (b : Builder) (isArray last : Bool) (name : String) : Except ValueFault Builder := do
  if name.isEmpty then throw (.cause .groupEmpty)
  let fresh : Value := if last && isArray then .array [.empty] else .empty
  let here := (partAt? b.path b.root).getD .empty
  let b ← match here with
    | .table fields _ =>
      if fields.any (·.1 == name) then
        if !last then pure b
        else if b.implicit.contains name then
          if isArray then throw (.cause .groupImplicit)
          else pure { b with implicit := b.implicit.erase name }
        else if isArray then pure { b with root := ← atPath (appendTable name) b.path b.root }
        else throw (.cause (.groupTwice name (here.datum.text.toOption.getD "")))
      else
        let b := if last then b else { b with implicit := b.implicit ++ [name] }
        b.add b.path name fresh
    | .array items =>
      let path := b.path ++ [.last]
      match items.getLast? with
      | some (.table fields _) =>
        if fields.any (·.1 == name) then pure { b with path := path }
        else do pure { (← b.add path name fresh) with path := path }
      | some v => throw (.other (.kind (.search v.kind)))
      | none => throw (.other .listEnd)
    | .str s => throw (.other (if s.isEmpty then .textEnd else .kind (.setPart "str")))
    | v => throw (.other (.kind (.part v.kind)))
  let path := b.path ++ [.key name]
  let path := match isArray, partAt? path b.root with
    | true, some (.array _) => path ++ [.last]
    | _, _ => path
  return { b with path := path }

def Builder.enterAll (isArray : Bool) : List String → Builder → Except ValueFault Builder
  | [], b => .ok b
  | name :: rest, b => do enterAll isArray rest (← b.enter isArray rest.isEmpty name)

def Builder.continue (b : Builder) (s : LongString) (line : List Char) : Except ValueFault Builder := do
  let text := s.text ++ line
  let closed ← match text.head? with
    | some '[' => match line.getLast? with
      | some c => pure (c == ']')
      | none => throw (.other .textEnd)
    | first => pure (line.length > 2 && (line.reverse.take 3).all (some · == first))
  if closed then
    let v ← valueOf (3 * text.length + 10) text true
    return { (← b.add b.path s.key v) with open? := none }
  else
    let joined := endsEscaped text
    let text := if joined then text.dropLast else text ++ ['\n']
    return { b with open? := some { s with text := text, joined := joined } }

def Builder.line (b : Builder) (line : List Char) : Except ValueFault Builder := do
  match line with
  | '[' :: _ =>
    let (isArray, names) ← groupLine line
    Builder.enterAll isArray names { b with path := [] }
  | '\x7b' :: _ =>
    if line.getLast? != some '\x7d' then throw (.cause .inlineBreak)
    else return { b with root := ← atPath (inlineTable (3 * line.length + 10) line) b.path b.root }
  | _ =>
    if line.contains '=' then
      let here := (partAt? b.path b.root).getD .empty
      let (table, long) ← setLine (3 * line.length + 10) line here
      return { b with root := ← atPath (fun _ => .ok table) b.path b.root, open? := long }
    else return b

def Builder.step (b : Builder) (line : List Char) : Except ValueFault Builder :=
  match b.open? with
  | none =>
    let line := stripBlanks line
    if line.isEmpty then .ok b else b.line line
  | some s =>
    let line := if s.joined || !s.text.contains '\n' then stripBlanks line else line
    if line.isEmpty && s.joined then .ok b else b.continue s line

/-- All lines, the first of which begins at an offset. -/
def Builder.steps : Nat → Builder → List (List Char) → Except Fault Builder
  | _, b, [] => .ok b
  | offset, b, line :: rest =>
    match b.step line with
    | .ok b => steps (offset + line.length + 1) b rest
    | .error (.cause c) => .error (.at c offset)
    | .error (.other o) => .error (.other o)

def parse (text : String) : Except Fault Value := do
  let clean ← cleaned text.toList
  let b ← Builder.steps 0 ⟨.empty, [], [], none⟩ (splitAll '\n' clean)
  return b.root

end SmallScript.Toml

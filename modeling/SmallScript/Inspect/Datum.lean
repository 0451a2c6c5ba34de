import SmallScript.Syntax.Node

/-!
# Data for inspection

Tokens, syntax trees and values are all shown to the user through one type of plain data: atoms,
collections and records with named fields. `Datum.text` writes a datum on one line, with all that
there is to know about it.
-/

namespace SmallScript.Inspect

open Number Syntax Text

inductive Datum where
  | none
  | bool (b : Bool)
  | number (n : Numeric)
  | string (s : String)
  | list (items : List Datum)
  | tuple (items : List Datum)
  | set (items : List Datum)
  | dict (entries : List (Datum × Datum))
  /-- a record with its kind and its fields in order of declaration -/
  | record (kind : String) (fields : List (String × Datum))
  | tokenKind (k : TokenKind)
  | function (name : String)
  /-- something that is only shown by a fixed text -/
  | thing (shown : String)
deriving Inhabited

def boolText (b : Bool) : String := if b then "True" else "False"

def functionText (name : String) : String := s!"<function {name} at 0x0>"

mutual

def Datum.text : Datum → Except NumberFault String
  | .none => .ok "None"
  | .bool b => .ok (boolText b)
  | .number n => n.text
  | .string s => .ok (quoted s)
  | .list items => return "[" ++ ", ".intercalate (← Datum.texts items) ++ "]"
  | .tuple [x] => return "(" ++ (← x.text) ++ ",)"
  | .tuple items => return "(" ++ ", ".intercalate (← Datum.texts items) ++ ")"
  | .set items => return "\x7b" ++ ", ".intercalate (← Datum.texts items) ++ "\x7d"
  | .dict entries => return "\x7b" ++ ", ".intercalate (← Datum.entryTexts entries) ++ "\x7d"
  | .record kind fields => return kind ++ "(" ++ ", ".intercalate (← Datum.fieldTexts fields) ++ ")"
  | .tokenKind k => .ok s!"<TokenType.{k.name}: {k.ordinal}>"
  | .function name => .ok (functionText name)
  | .thing shown => .ok shown

def Datum.texts : List Datum → Except NumberFault (List String)
  | [] => .ok []
  | x :: xs => return (← x.text) :: (← Datum.texts xs)

def Datum.entryTexts : List (Datum × Datum) → Except NumberFault (List String)
  | [] => .ok []
  | (k, v) :: rest => return ((← k.text) ++ ": " ++ (← v.text)) :: (← Datum.entryTexts rest)

def Datum.fieldTexts : List (String × Datum) → Except NumberFault (List String)
  | [] => .ok []
  | (k, v) :: rest => return (k ++ "=" ++ (← v.text)) :: (← Datum.fieldTexts rest)

end

/-- A datum as it stands in running text: a string without its quotes. -/
def Datum.plainText : Datum → Except NumberFault String
  | .string s => .ok s
  | .tokenKind k => .ok ("TokenType." ++ k.name)
  | d => d.text

def posDatum (p : Pos) : Datum := .tuple [.number (.int p.line), .number (.int p.col), .number (.int p.len)]

def tokenDatum (t : Token) : Datum :=
  .record "Token" [("value", .string t.value), ("type", .tokenKind t.kind), ("position", posDatum t.pos)]

def optionDatum : Option String → Datum
  | some s => .string s
  | none => .none

def namesDatum (names : List String) : Datum := .list (names.map .string)

def optionNamesDatum : Option (List String) → Datum
  | some names => namesDatum names
  | none => .none

mutual

/-- A syntax tree, with the position as the first field of each node. -/
def nodeDatum : Node → Datum
  | .absent => .none
  | .emptyStatement p => .record "Statement" [("position", posDatum p)]
  | .emptyExpression p => .record "Expression" [("position", posDatum p)]
  | .program p body => .record "Program" [("position", posDatum p), ("body", .list (nodeData body))]
  | .assignment p t v o => .record "AssignmentExpression" [("position", posDatum p),
      ("assigne", nodeDatum t), ("value", nodeDatum v), ("operator", optionDatum o)]
  | .binary p l o r => .record "BinaryExpression" [("position", posDatum p), ("left", nodeDatum l),
      ("operator", .string o), ("right", nodeDatum r)]
  | .identifier p n => .record "Identifier" [("position", posDatum p), ("symbol", .string n)]
  | .variable p c t v => .record "VariableDeclaration" [("position", posDatum p),
      ("constant", .bool c), ("identifier", nodeDatum t), ("value", nodeDatum v)]
  | .number p n => .record "NumericLiteral" [("position", posDatum p), ("value", .number n)]
  | .string p s => .record "StringLiteral" [("position", posDatum p), ("value", .string s)]
  | .property p k v => .record "Property" [("position", posDatum p), ("key", .string k),
      ("value", nodeDatum v)]
  | .object p ps => .record "ObjectLiteral" [("position", posDatum p), ("properties", .list (nodeData ps))]
  | .array p es => .record "ArrayLiteral" [("position", posDatum p), ("elements", .list (nodeData es))]
  | .call p args f => .record "CallExpression" [("position", posDatum p),
      ("arguments", .list (nodeData args)), ("caller", nodeDatum f)]
  | .member p o k c => .record "MemberExpression" [("position", posDatum p), ("object", nodeDatum o),
      ("property", nodeDatum k), ("computed", .bool c)]
  | .function p n ps b => .record "FunctionDeclaration" [("position", posDatum p), ("name", .string n),
      ("arguments", namesDatum ps), ("body", .list (nodeData b))]
  | .conditional p c y n => .record "IfStatement" [("position", posDatum p), ("condition", nodeDatum c),
      ("then", .list (nodeData y)), ("else_", .list (nodeData n))]
  | .ret p v => .record "ReturnStatement" [("position", posDatum p), ("value", nodeDatum v)]
  | .importing p m ns a => .record "ImportStatement" [("position", posDatum p), ("module", .string m),
      ("names", optionNamesDatum ns), ("alias", optionDatum a)]
  | .loop p b => .record "LoopStatement" [("position", posDatum p), ("body", .list (nodeData b))]
  | .while p c b => .record "WhileStatement" [("position", posDatum p), ("condition", nodeDatum c),
      ("body", .list (nodeData b))]
  | .for p t i b => .record "ForStatement" [("position", posDatum p), ("variable", nodeDatum t),
      ("iterator", nodeDatum i), ("body", .list (nodeData b))]
  | .brk p => .record "BreakLiteral" [("position", posDatum p)]
  | .cont p => .record "ContinueLiteral" [("position", posDatum p)]
  | .del p t => .record "DelStatement" [("position", posDatum p), ("identifier", nodeDatum t)]
  | .class p n ms ps => .record "ClassDeclaration" [("position", posDatum p), ("name", .string n),
      ("methods", .list (nodeData ms)), ("arguments", optionNamesDatum ps)]
  | .enum p n vs => .record "EnumDeclaration" [("position", posDatum p), ("name", .string n),
      ("values", .list (nodeData vs))]
  | .assertion p c m => .record "AssertStatement" [("position", posDatum p),
      ("condition", nodeDatum c), ("message", optionDatum m)]

def nodeData : List Node → List Datum
  | [] => []
  | x :: xs => nodeDatum x :: nodeData xs

end

def nodeKind (n : Node) : String :=
  match nodeDatum n with
  | .record kind _ => kind
  | _ => "NoneType"

end SmallScript.Inspect
